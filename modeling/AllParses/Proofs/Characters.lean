import AllParses.Parser.Character
import AllParses.Proofs.Repetition
import AllParses.Proofs.Sequencing

/-!
# Tokens one after the other

A parser for one character answers at most once. So reading a text token by token, which stops at
the first failure, is the chain of the parsers for its characters; and a word, which uses its rule
once for each letter, is read in the same way however many more uses would be allowed.
-/

namespace AllParses.Parser

variable {α : Type}

theorem run_item (inp : Input) :
    item.run inp = pure (inp.next?.toList.map fun next => ⟨next.1, next.2⟩) := by
  cases h : inp.next? <;> simp [item, h]

theorem run_accept (read : Value → Code Entry (Option α)) (inp : Input) :
    (accept read).run inp =
      match inp.next? with
      | none => pure []
      | some (token, rest) =>
        (read token).run rest.made >>= fun q =>
          pure (q.1.toList.map fun a => ⟨a, rest.withMade q.2⟩) := by
  rw [accept, run_label, run_bind, run_item, pure_bind]
  cases inp.next? with
  | none => rfl
  | some next =>
      simp only [Option.toList_some, List.map_cons, List.map_nil, Run.flatMap_cons, Run.flatMap_nil,
        pure_bind, List.append_nil, bind_pure]
      rw [run_ofCode, StateT.run_bind, bind_assoc]
      refine bind_congr fun q => ?_
      rcases q with ⟨_ | a, made⟩ <;> rfl

theorem run_char (wanted : Value) (inp : Input) :
    (char wanted).run inp =
      pure ((inp.next?.filter fun next => next.1 == wanted).toList.map
        fun next => ⟨next.1, next.2⟩) := by
  rw [char, run_label, satisfy, run_accept]
  cases inp.next? with
  | none => rfl
  | some next =>
      by_cases h : next.1 == wanted
      · simp [h, Option.filter]
      · simp [h, Option.filter]

theorem run_spell_cons (value : α) (wanted : Value) (more : List Value) (inp : Input) :
    spell value (wanted :: more) inp =
      (char wanted).run inp >>= Run.flatMap fun s => spell value more s.rest := by
  rw [spell, run_char]
  cases inp.next?.filter fun next => next.1 == wanted with
  | none => rfl
  | some next => simp

/-! ## Words -/

theorem shortens_accept (read : Value → Code Entry (Option α)) : (accept read).Shortens := by
  intro inp
  rw [run_accept]
  split
  · exact Run.ensures_pure (by simp)
  · next token rest hnext =>
      refine Run.ensures_bind fun q => Run.ensures_pure fun s hs => ?_
      obtain ⟨a, _, rfl⟩ := List.mem_map.1 hs
      have hpos := Input.length_pos_of_next? hnext
      rw [Input.length_withMade, Input.eq_drop_of_next? hnext, Input.length_drop]
      omega

theorem Shortens.label {p : Parser α} (hp : p.Shortens) (name : String) :
    (p.label name).Shortens := hp

theorem shortens_char (wanted : Value) : (char wanted).Shortens := (shortens_accept _).label _

theorem shortens_ofClass (cls : TextClass) : (ofClass cls).Shortens :=
  (shortens_accept _).label _

theorem run_wordWithin_succ (depth : Nat) (inp : Input) :
    (wordWithin (depth + 1)).run inp =
      letter.run inp >>= fun successes =>
        Run.flatMap
          (fun s => List.map (Success.map (s.value ++ ·)) <$> (wordWithin depth).run s.rest)
          successes >>= fun longer => pure (longer ++ [⟨"", inp⟩]) := by
  rw [wordWithin, run_label, run_choice, Run.flatMap_cons, run_bind, bind_assoc]
  simp only [run_ofCode_pure, run_map_pure, Run.flatMap_cons, Run.flatMap_nil, run_result,
    pure_bind, List.append_nil]

/-- Depth beyond the length of the input makes no difference. -/
theorem run_wordWithin_of_lt {m n : Nat} {inp : Input} (hm : inp.length < m)
    (hn : inp.length < n) : (wordWithin m).run inp = (wordWithin n).run inp := by
  induction m generalizing n inp with
  | zero => omega
  | succ m ih =>
      obtain ⟨n, rfl⟩ : ∃ k, n = k + 1 := ⟨n - 1, by omega⟩
      rw [run_wordWithin_succ, run_wordWithin_succ]
      refine Run.bind_congr_of_result fun successes hsuccesses => ?_
      congr 1
      refine Run.flatMap_congr fun s hs => ?_
      have hlt := shortens_ofClass .letter inp successes hsuccesses s hs
      rw [ih (n := n) (by omega) (by omega)]

theorem run_word_eq {n : Nat} {inp : Input} (hn : inp.length < n) :
    word.run inp = (wordWithin n).run inp := by
  show (wordWithin (inp.length + 1)).run inp = _
  exact run_wordWithin_of_lt (by omega) hn

end AllParses.Parser
