import AllParses.Parser.Character
import AllParses.Parser.Choice
import AllParses.Proofs.Runs

/-!
# Committing to the first success

Of a choice of which only the first success is wanted, the alternatives behind the first one that
succeeds need not be run. Leaving them out makes a parse shorter, and it can only turn an error of
one of them into an answer. The parsers are taken apart at the first one that succeeds or fails with
an error: before it both ways of choosing do the same, and after it only one of them goes on.
-/

namespace AllParses

variable {α : Type}

namespace Parser

/-- Each parser only if those before it have no success. -/
def orElseAll : List (Parser α) → Parser α
  | [] => zero
  | [p] => p
  | p :: q :: qs => p.orElse (orElseAll (q :: qs))

/-- The parser answers that it has no success. -/
def Fails (p : Parser α) (inp : Input) : Prop := (p.run inp).result = .ok []

/-- Of the parsers, the first one that does not fail succeeds, first of all with `s`, and of those
behind it the first one that does not answer ends with the error. -/
def SucceedsBeforeError (ps : List (Parser α)) (inp : Input) (s : Success α) (e : Error) : Prop :=
  ∃ before p more between q after, ps = before ++ p :: (between ++ q :: after) ∧
    (∀ b ∈ before, b.Fails inp) ∧ (p.run inp).result = .ok (s :: more) ∧
    (∀ b ∈ between, ∃ ss, (b.run inp).result = .ok ss) ∧ (q.run inp).result = .error e

/-! ## Up to the first parser that does not fail -/

theorem run_orElse_of_fails {p : Parser α} {inp : Input} (hp : p.Fails inp) (q : Parser α) :
    (p.orElse q).run inp = ⟨(p.run inp).log ++ (q.run inp).log, (q.run inp).result⟩ := by
  rcases hrun : p.run inp with ⟨log, e | ss⟩ <;> rw [Fails, hrun] at hp <;> cases hp
  rw [run_orElse, hrun, Run.ok_bind]

theorem run_orElse_of_not_fails {p : Parser α} {inp : Input} (hp : ¬p.Fails inp) (q : Parser α) :
    (p.orElse q).run inp = p.run inp := by
  rcases hrun : p.run inp with ⟨log, e | ss⟩
  · rw [run_orElse, hrun, Run.error_bind]
  · cases ss with
    | nil => exact absurd (by rw [Fails, hrun]) hp
    | cons s more => simp [run_orElse, hrun, Run.ok_bind]

/-- The last of the parsers has nothing behind it, which is as if something that fails were
there. -/
theorem run_orElseAll_cons_of_fails {p : Parser α} {inp : Input} (hp : p.Fails inp)
    (ps : List (Parser α)) :
    (orElseAll (p :: ps)).run inp =
      ⟨(p.run inp).log ++ ((orElseAll ps).run inp).log, ((orElseAll ps).run inp).result⟩ := by
  cases ps with
  | nil =>
      have hresult : (p.run inp).result = .ok [] := hp
      rw [orElseAll, orElseAll, run_zero, Run.log_pure, List.append_nil, Run.result_pure, ← hresult]
  | cons q qs => exact run_orElse_of_fails hp (orElseAll (q :: qs))

theorem run_orElseAll_cons_of_not_fails {p : Parser α} {inp : Input} (hp : ¬p.Fails inp)
    (ps : List (Parser α)) : (orElseAll (p :: ps)).run inp = p.run inp := by
  cases ps with
  | nil => rfl
  | cons q qs => exact run_orElse_of_not_fails hp (orElseAll (q :: qs))

theorem run_choice_cons (p : Parser α) (ps : List (Parser α)) (inp : Input) :
    (choice (p :: ps)).run inp =
      p.run inp >>= fun ss => (choice ps).run inp >>= fun ts => pure (ss ++ ts) := by
  rw [run_choice, Run.flatMap_cons, run_choice]

/-- Both ways of choosing run alike, or else some parser succeeds, and behind the first that does,
only one of them goes on. -/
theorem run_orElseAll_eq_or (ps : List (Parser α)) (inp : Input) :
    (orElseAll ps).run inp = (choice ps).run inp ∨
      ∃ before p s more after log, ps = before ++ p :: after ∧ (∀ b ∈ before, b.Fails inp) ∧
        (p.run inp).result = .ok (s :: more) ∧
        (orElseAll ps).run inp = ⟨log, .ok (s :: more)⟩ ∧
        (choice ps).run inp = (⟨log, .ok (s :: more)⟩ : Run Entry (List (Success α))) >>= fun ss =>
          (choice after).run inp >>= fun ts => pure (ss ++ ts) := by
  induction ps with
  | nil => exact .inl rfl
  | cons p ps ih =>
      rw [run_choice_cons]
      rcases hrun : p.run inp with ⟨first, e | ss⟩
      · have hp : ¬p.Fails inp := by simp [Fails, hrun]
        rw [run_orElseAll_cons_of_not_fails hp, hrun, Run.error_bind]
        exact .inl rfl
      · cases ss with
        | nil =>
            have hp : p.Fails inp := by simp [Fails, hrun]
            rw [run_orElseAll_cons_of_fails hp, hrun, Run.ok_bind]
            rcases ih with hsame | ⟨before, q, s, more, after, log, rfl, hbefore, hq, hor, hchoice⟩
            · rw [hsame]
              exact .inl (by simp)
            · refine .inr ⟨p :: before, q, s, more, after, first ++ log, rfl, ?_, hq, ?_, ?_⟩
              · simpa using ⟨hp, hbefore⟩
              · rw [hor]
              · rw [hchoice]
                simp [Run.ok_bind]
        | cons s more =>
            have hp : ¬p.Fails inp := by simp [Fails, hrun]
            rw [run_orElseAll_cons_of_not_fails hp, hrun]
            exact .inr ⟨[], p, s, more, ps, first, rfl, by simp, by rw [hrun], rfl, rfl⟩

/-! ## The first success -/

/-- Of a choice only the first success may be wanted. If the parsers are then tried only until one
succeeds, the log is cut short, and nothing else changes if the choice answers. If it ends with an
error, then so does the shorter parse, or a parser succeeded before the one that failed with the
error, and the shorter parse answers the first success of the earliest such parser. -/
theorem commitment_cuts_choice_short (ps : List (Parser α)) (inp : Input) :
    ((orElseAll ps).first.run inp).log <+: ((choice ps).first.run inp).log ∧
      (∀ rs, ((choice ps).first.run inp).result = .ok rs →
        ((orElseAll ps).first.run inp).result = .ok rs) ∧
      ∀ e, ((choice ps).first.run inp).result = .error e →
        ((orElseAll ps).first.run inp).result = .error e ∨
          ∃ s, SucceedsBeforeError ps inp s e ∧
            ((orElseAll ps).first.run inp).result = .ok [s] := by
  rw [run_first, run_first]
  rcases run_orElseAll_eq_or ps inp with
    hsame | ⟨before, p, s, more, after, log, hsplit, hbefore, hp, hcommitted, hfull⟩
  · rw [hsame]
    exact ⟨List.prefix_rfl, fun rs hrs => hrs, fun e he => .inl he⟩
  · rw [hcommitted, hfull, Run.map_ok, Run.ok_bind]
    rcases hafter : (choice after).run inp with ⟨later, e | ts⟩
    · rw [Run.error_bind, Run.map_error]
      have herror : (Run.flatMap (fun q => q.run inp) after).result = .error e := by
        rw [← run_choice, hafter]
      obtain ⟨between, q, others, rfl, hbetween, hq⟩ := Run.exists_error_of_flatMap herror
      refine ⟨List.prefix_append log later, ?_, ?_⟩
      · intro rs hrs
        cases hrs
      · intro e' he
        cases he
        have hfirst : SucceedsBeforeError ps inp s e :=
          ⟨before, p, more, between, q, others, hsplit, hbefore, hp, hbetween, hq⟩
        exact .inr ⟨s, hfirst, rfl⟩
    · rw [Run.ok_bind, Run.pure_eq, Run.map_ok]
      refine ⟨List.prefix_append log _, fun rs hrs => hrs, ?_⟩
      intro e he
      cases he

/-- A parser that fails, two that succeed, and in front of the second of these one that ends with
an error. -/
def stopping : List (Parser Value) :=
  [char (.char 'a'), item, item.bind fun _ => Code.raise (.raised "stop"), item]

theorem commitment_cuts_choice_short_of_stopping :
    ((choice stopping).first.run (.start (.text ['b']))).result = .error (.raised "stop") ∧
      ∃ s, SucceedsBeforeError stopping (.start (.text ['b'])) s (.raised "stop") ∧
        ((orElseAll stopping).first.run (.start (.text ['b']))).result = .ok [s] := by
  have herror : ((choice stopping).first.run (.start (.text ['b']))).result =
      .error (.raised "stop") := rfl
  refine ⟨herror, ?_⟩
  rcases (commitment_cuts_choice_short stopping (.start (.text ['b']))).2.2 _ herror with h | h
  · cases h
  · exact h

end Parser

end AllParses
