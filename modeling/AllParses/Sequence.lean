import AllParses.Value.Basic

/-!
# Sequences of tokens

What a parser reads may be kept as text, as bytes, or as a list or tuple of values; what is left
of a sequence after some tokens is kept in the same way.
-/

namespace AllParses

/-- A sequence of tokens. -/
inductive Sequence where
  | text (cs : List Char)
  | bytes (bs : List UInt8)
  | list (vs : List Value)
  | tuple (vs : List Value)

namespace Sequence

/-- The tokens, in order: characters are one-character texts, bytes are numbers. -/
def tokens : Sequence → List Value
  | text cs => cs.map Value.char
  | bytes bs => bs.map Value.byte
  | list vs => vs
  | tuple vs => vs

/-- The number of tokens. -/
def length : Sequence → Nat
  | text cs => cs.length
  | bytes bs => bs.length
  | list vs => vs.length
  | tuple vs => vs.length

/-- Whether there is no token. -/
def isEmpty : Sequence → Bool
  | text cs => cs.isEmpty
  | bytes bs => bs.isEmpty
  | list vs => vs.isEmpty
  | tuple vs => vs.isEmpty

/-- The sequence without its first `n` tokens. -/
def drop (n : Nat) : Sequence → Sequence
  | text cs => text (cs.drop n)
  | bytes bs => bytes (bs.drop n)
  | list vs => list (vs.drop n)
  | tuple vs => tuple (vs.drop n)

/-- The first `n` tokens of the sequence. -/
def take (n : Nat) : Sequence → Sequence
  | text cs => text (cs.take n)
  | bytes bs => bytes (bs.take n)
  | list vs => list (vs.take n)
  | tuple vs => tuple (vs.take n)

/-- The first token and what follows it. -/
def next? : Sequence → Option (Value × Sequence)
  | text (c :: cs) => some (Value.char c, text cs)
  | bytes (b :: bs) => some (Value.byte b, bytes bs)
  | list (v :: vs) => some (v, list vs)
  | tuple (v :: vs) => some (v, tuple vs)
  | _ => none

/-- The sequence as a value. -/
def toValue : Sequence → Value
  | text cs => .str (String.ofList cs)
  | bytes bs => .bytes bs
  | list vs => .list vs
  | tuple vs => .tuple vs

/-- The sequence that a value is, if it is one. -/
def ofValue? : Value → Option Sequence
  | .str s => some (text s.toList)
  | .bytes bs => some (bytes bs)
  | .list vs => some (list vs)
  | .tuple vs => some (tuple vs)
  | _ => none

@[simp] theorem length_tokens (seq : Sequence) : seq.tokens.length = seq.length := by
  cases seq <;> simp [tokens, length]

@[simp] theorem tokens_drop (n : Nat) (seq : Sequence) :
    (seq.drop n).tokens = seq.tokens.drop n := by
  cases seq <;> simp [tokens, drop]

theorem tokens_take (n : Nat) (seq : Sequence) :
    (seq.take n).tokens = seq.tokens.take n := by
  cases seq <;> simp [tokens, take]

@[simp] theorem length_drop (n : Nat) (seq : Sequence) : (seq.drop n).length = seq.length - n := by
  cases seq <;> simp [length, drop]

@[simp] theorem drop_zero (seq : Sequence) : seq.drop 0 = seq := by
  cases seq <;> rfl

@[simp] theorem drop_drop (m n : Nat) (seq : Sequence) :
    (seq.drop m).drop n = seq.drop (m + n) := by
  cases seq <;> simp [drop]

theorem isEmpty_iff (seq : Sequence) : seq.isEmpty = true ↔ seq.length = 0 := by
  cases seq <;> simp [isEmpty, length]

theorem next?_eq_none_iff (seq : Sequence) : seq.next? = none ↔ seq.length = 0 := by
  cases seq with
  | text cs => cases cs <;> simp [next?, length]
  | bytes bs => cases bs <;> simp [next?, length]
  | list vs => cases vs <;> simp [next?, length]
  | tuple vs => cases vs <;> simp [next?, length]

/-- The first token is the head of the tokens, and what follows it is the rest of the sequence. -/
theorem tokens_of_next? {seq rest : Sequence} {token : Value}
    (h : seq.next? = some (token, rest)) :
    seq.tokens = token :: rest.tokens ∧ rest = seq.drop 1 := by
  cases seq with
  | text cs =>
    cases cs with
    | nil => simp [next?] at h
    | cons c cs =>
      obtain ⟨rfl, rfl⟩ : Value.char c = token ∧ text cs = rest := by simpa [next?] using h
      exact ⟨rfl, rfl⟩
  | bytes bs =>
    cases bs with
    | nil => simp [next?] at h
    | cons b bs =>
      obtain ⟨rfl, rfl⟩ : Value.byte b = token ∧ bytes bs = rest := by simpa [next?] using h
      exact ⟨rfl, rfl⟩
  | list vs =>
    cases vs with
    | nil => simp [next?] at h
    | cons v vs =>
      obtain ⟨rfl, rfl⟩ : v = token ∧ list vs = rest := by simpa [next?] using h
      exact ⟨rfl, rfl⟩
  | tuple vs =>
    cases vs with
    | nil => simp [next?] at h
    | cons v vs =>
      obtain ⟨rfl, rfl⟩ : v = token ∧ tuple vs = rest := by simpa [next?] using h
      exact ⟨rfl, rfl⟩

theorem next?_eq (seq : Sequence) :
    seq.next? = seq.tokens.head?.map fun token => (token, seq.drop 1) := by
  cases hnext : seq.next? with
  | none =>
      have hempty : seq.tokens.length = 0 := by
        rw [length_tokens, ← next?_eq_none_iff, hnext]
      rw [List.length_eq_zero_iff.1 hempty]
      rfl
  | some next =>
      obtain ⟨htokens, hrest⟩ := tokens_of_next? hnext
      rw [htokens, ← hrest]
      rfl

end Sequence

end AllParses
