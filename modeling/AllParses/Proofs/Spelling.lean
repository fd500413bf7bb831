import AllParses.Proofs.Characters

/-!
# Reading given tokens

Tokens that are to be read one after the other are there if the input begins with equal ones, as
many as are wanted; otherwise nothing is read. It makes no difference whether a parser for each
token is continued by the next one, or whether the first failure ends the reading at once.
-/

namespace AllParses

namespace Input

/-- The input has at least as many tokens as are wanted, and each equals the one wanted in its
place. -/
def BeginsWith (inp : Input) (wanted : List Value) : Prop :=
  wanted.length ≤ inp.length ∧
    ∀ (i : Nat) (token w : Value), inp.sequence.tokens[i]? = some token → wanted[i]? = some w →
      (token == w) = true

variable {inp : Input}

theorem beginsWith_nil : inp.BeginsWith [] := by
  refine ⟨Nat.zero_le _, fun i token w _ hw => ?_⟩
  rw [List.getElem?_nil] at hw
  cases hw

theorem beginsWith_cons_iff {w : Value} {more : List Value} :
    inp.BeginsWith (w :: more) ↔
      ∃ token, inp.next? = some (token, inp.drop 1) ∧ (token == w) = true ∧
        (inp.drop 1).BeginsWith more := by
  -- the token wanted after one more stands one place further back in the input
  have hplace (i : Nat) : (inp.drop 1).sequence.tokens[i]? = inp.sequence.tokens[i + 1]? := by
    rw [drop, Sequence.tokens_drop, List.getElem?_drop, Nat.add_comm]
  constructor
  · rintro ⟨hlength, hequal⟩
    rw [List.length_cons] at hlength
    have hpos : 0 < inp.sequence.tokens.length := by
      rw [Sequence.length_tokens]
      exact Nat.lt_of_lt_of_le (Nat.succ_pos _) hlength
    have hfirst : inp.sequence.tokens[0]? = some inp.sequence.tokens[0] :=
      List.getElem?_eq_getElem hpos
    refine ⟨inp.sequence.tokens[0], ?_, hequal 0 _ w hfirst rfl, ?_, ?_⟩
    · rw [next?_eq, List.head?_eq_getElem?, hfirst, Option.map_some]
    · rw [length_drop]
      omega
    · intro i token v htoken hv
      rw [hplace] at htoken
      exact hequal (i + 1) token v htoken hv
  · rintro ⟨first, hnext, hfirst, hlength, hequal⟩
    have hpos := length_pos_of_next? hnext
    rw [length_drop] at hlength
    refine ⟨by rw [List.length_cons]; omega, ?_⟩
    intro i token v htoken hv
    cases i with
    | zero =>
        rw [next?_eq, List.head?_eq_getElem?, htoken] at hnext
        cases hnext
        cases hv
        exact hfirst
    | succ i =>
        rw [← hplace] at htoken
        exact hequal i token v htoken hv

end Input

namespace Parser

variable {α : Type} {value : α} {wanted : List Value} {inp : Input}

theorem run_char_of_next? {w token : Value} {rest : Input} (h : inp.next? = some (token, rest)) :
    (char w).run inp = pure (if token == w then [⟨token, rest⟩] else []) := by
  rw [run_char, h]
  by_cases hw : token == w
  · simp [Option.filter, hw]
  · simp [Option.filter, hw]

theorem run_char_of_next?_eq_none {w : Value} (h : inp.next? = none) :
    (char w).run inp = pure [] := by
  rw [run_char, h]
  rfl

theorem run_spell_of_beginsWith (h : inp.BeginsWith wanted) :
    spell value wanted inp = pure [⟨value, inp.drop wanted.length⟩] := by
  induction wanted generalizing inp with
  | nil => rw [spell, List.length_nil, Input.drop_zero]
  | cons w more ih =>
      obtain ⟨token, hnext, htoken, hmore⟩ := Input.beginsWith_cons_iff.1 h
      rw [spell, run_char_of_next? hnext, if_pos htoken, pure_bind]
      show spell value more (inp.drop 1) = _
      rw [ih hmore, Input.drop_drop, Nat.add_comm, List.length_cons]

theorem run_spell_of_not_beginsWith (h : ¬inp.BeginsWith wanted) :
    spell value wanted inp = pure [] := by
  induction wanted generalizing inp with
  | nil => exact absurd Input.beginsWith_nil h
  | cons w more ih =>
      rw [Input.beginsWith_cons_iff] at h
      cases hnext : inp.next? with
      | none => rw [spell, run_char_of_next?_eq_none hnext, pure_bind]
      | some next =>
          obtain ⟨token, rest⟩ := next
          obtain rfl := Input.eq_drop_of_next? hnext
          rw [spell, run_char_of_next? hnext, pure_bind]
          by_cases htoken : token == w
          · rw [if_pos htoken]
            exact ih fun hmore => h ⟨token, hnext, htoken, hmore⟩
          · rw [if_neg htoken]

/-- The parsers for the tokens, each continued by the next, and at the end the value. -/
def charsInTurn (value : α) : List Value → Parser α
  | [] => result value
  | w :: more => (char w).bind fun _ => pure (charsInTurn value more)

theorem run_charsInTurn (value : α) (wanted : List Value) (inp : Input) :
    (charsInTurn value wanted).run inp = spell value wanted inp := by
  induction wanted generalizing inp with
  | nil => rfl
  | cons w more ih =>
      rw [charsInTurn, run_bind, run_spell_cons]
      simp only [run_ofCode_pure, ih]

/-- The elements of a collection are read if the input begins with tokens that equal them. Then the
result is the collection itself, with what follows those tokens; otherwise there is none. Neither
making the parser nor running it is ever an error, and to read the elements one by one is the
same. -/
theorem string_reads_its_elements {whole : Value} {elements : List Value}
    (h : whole.elements? = some elements) :
    ∃ p, string whole = pure p ∧ ∀ inp : Input,
      (inp.BeginsWith elements → p.run inp = pure [⟨whole, inp.drop elements.length⟩]) ∧
      (¬inp.BeginsWith elements → p.run inp = pure []) ∧
      p.run inp = (charsInTurn whole elements).run inp := by
  have hmade : string whole =
      pure ⟨some ("'" ++ whole.display ++ "'"), spell whole elements⟩ := by
    rw [string, h, Run.getOrRaise, pure_bind]
  refine ⟨_, hmade, fun inp => ⟨?_, ?_, ?_⟩⟩
  · exact run_spell_of_beginsWith
  · exact run_spell_of_not_beginsWith
  · exact (run_charsInTurn whole elements inp).symm

/-- A truth value is read where the number equal to it is found; but a text of two characters is no
two tokens. -/
theorem string_reads_its_elements_of_pair :
    (Value.tuple [.bool true, .str "ab"]).elements? = some [.bool true, .str "ab"] ∧
      ∃ p, string (.tuple [.bool true, .str "ab"]) = pure p ∧
        p.run (.start (.list [.int 1, .str "ab", .str "c"])) =
          pure [⟨.tuple [.bool true, .str "ab"], .start (.list [.str "c"])⟩] ∧
        p.run (.start (.list [.int 1, .str "a", .str "b"])) = pure [] := by
  have helements : (Value.tuple [.bool true, .str "ab"]).elements? =
      some [.bool true, .str "ab"] := rfl
  obtain ⟨p, hp, hrun⟩ := string_reads_its_elements helements
  refine ⟨helements, p, hp, ?_, ?_⟩
  · apply (hrun _).1
    have hsecond : Input.BeginsWith (.start (.list [.str "ab", .str "c"])) [.str "ab"] :=
      Input.beginsWith_cons_iff.2 ⟨.str "ab", rfl, rfl, Input.beginsWith_nil⟩
    exact Input.beginsWith_cons_iff.2 ⟨.int 1, rfl, rfl, hsecond⟩
  · apply (hrun _).2.1
    rintro ⟨-, hequal⟩
    have hsecond := hequal 1 (.str "a") (.str "ab") rfl rfl
    revert hsecond
    decide

end Parser

end AllParses
