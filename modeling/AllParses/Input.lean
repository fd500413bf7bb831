import AllParses.Sequence

/-!
# Inputs

An input is a place in a parse: the sequence that is still to be read, and how many functions
client code has made on the way there. Each way of parsing keeps its own count. That is enough to
tell functions apart, because values from different ways of parsing never meet.
-/

namespace AllParses

/-- A place in a parse. -/
structure Input where
  sequence : Sequence
  made : Nat

namespace Input

/-- The input at the beginning of a parse. -/
def start (seq : Sequence) : Input := ⟨seq, 0⟩

/-- The same place after the count of functions has become `made`. -/
def withMade (inp : Input) (made : Nat) : Input := ⟨inp.sequence, made⟩

/-- The number of tokens. -/
def length (inp : Input) : Nat := inp.sequence.length

/-- Whether no token is left. -/
def isEmpty (inp : Input) : Bool := inp.sequence.isEmpty

/-- The input without its first `n` tokens. -/
def drop (n : Nat) (inp : Input) : Input := ⟨inp.sequence.drop n, inp.made⟩

/-- The first token and what follows it. -/
def next? (inp : Input) : Option (Value × Input) :=
  inp.sequence.next?.map fun (token, rest) => (token, ⟨rest, inp.made⟩)

/-- What is still to be read, as a value. -/
def toValue (inp : Input) : Value := inp.sequence.toValue

@[simp] theorem length_withMade (inp : Input) (made : Nat) :
    (inp.withMade made).length = inp.length := rfl

@[simp] theorem sequence_withMade (inp : Input) (made : Nat) :
    (inp.withMade made).sequence = inp.sequence := rfl

@[simp] theorem made_withMade (inp : Input) (made : Nat) : (inp.withMade made).made = made := rfl

@[simp] theorem withMade_made (inp : Input) : inp.withMade inp.made = inp := rfl

@[simp] theorem length_drop (n : Nat) (inp : Input) : (inp.drop n).length = inp.length - n :=
  Sequence.length_drop n inp.sequence

@[simp] theorem drop_zero (inp : Input) : inp.drop 0 = inp := by
  simp [drop]

@[simp] theorem drop_drop (m n : Nat) (inp : Input) : (inp.drop m).drop n = inp.drop (m + n) := by
  simp [drop]

theorem next?_eq_none_iff (inp : Input) : inp.next? = none ↔ inp.length = 0 := by
  simp [next?, length, Sequence.next?_eq_none_iff]

theorem next?_eq (inp : Input) :
    inp.next? = inp.sequence.tokens.head?.map fun token => (token, inp.drop 1) := by
  rw [next?, Sequence.next?_eq, Option.map_map]
  rfl

/-- What follows the first token is the input without it. -/
theorem eq_drop_of_next? {inp rest : Input} {token : Value} (h : inp.next? = some (token, rest)) :
    rest = inp.drop 1 := by
  obtain ⟨⟨first, following⟩, hnext, hpair⟩ := Option.map_eq_some_iff.1 h
  cases hpair
  simp [drop, (Sequence.tokens_of_next? hnext).2]

/-- The first token stands in front of the tokens of what follows it. -/
theorem tokens_of_next? {inp rest : Input} {token : Value} (h : inp.next? = some (token, rest)) :
    inp.sequence.tokens = token :: rest.sequence.tokens := by
  obtain ⟨⟨first, following⟩, hnext, hpair⟩ := Option.map_eq_some_iff.1 h
  cases hpair
  exact (Sequence.tokens_of_next? hnext).1

theorem length_pos_of_next? {inp rest : Input} {token : Value}
    (h : inp.next? = some (token, rest)) : 0 < inp.length := by
  refine Nat.pos_of_ne_zero fun hzero => ?_
  rw [(next?_eq_none_iff inp).2 hzero] at h
  cases h

end Input

end AllParses
