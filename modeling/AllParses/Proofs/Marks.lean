import AllParses.Proofs.Agreement
import AllParses.Proofs.Correspondence

/-!
# Traces and labels change nothing

A trace only writes records of its own, and a label only gives a name. Names do reach the log, in
the record of a dropped repetition, and nothing else. So all traces and labels may be taken out of
a grammar, wherever they are: the results and errors stay the same, and of the log the notes of
client code and the drops among them.
-/

namespace AllParses

/-- The grammar without its traces and labels. -/
def Grammar.unmarked : Grammar → Grammar := mapMarks (fun _ p => p) fun _ p => p

/-- The rules without the traces and labels of their grammars. -/
def Rules.unmarked : Rules → Rules := mapMarks (fun _ p => p) fun _ p => p

/-- The record as far as traces and labels have no part in it: of a drop it is seen that there was
one, not of which parser. -/
def Entry.markless : Entry → Option Entry
  | dropped _ => some (dropped "")
  | trying _ _ => none
  | found _ _ => none
  | note text => some (note text)

/-- Parses of one input with parsers that may bear different marks. -/
def Comparison.marks : Comparison where
  Gaps := False
  Inputs := Eq
  Names _ _ := True
  Runs := Run.Agree Entry.markless
  runs_pure := .pure
  runs_bind := .bind
  runs_extra := False.elim
  runs_note _ := .refl _
  runs_dropped _ := .emit rfl
  names_of_eq _ := trivial
  inputs_made h := congrArg Input.made h
  inputs_withMade made h := congrArg (Input.withMade · made) h
  inputs_shorter hinp hrest := by rw [hinp, hrest]
  inputs_length _ h := congrArg Input.length h
  inputs_next {inp _} h := by
    subst h
    cases inp.next? with
    | none => exact .nil
    | some next => exact .singleton ⟨rfl, rfl⟩

namespace Comparison

theorem covers_marks (g : Grammar) : marks.Covers g := by
  cases g with
  | constant => exact fun _ _ _ => rfl
  | _ => exact covers_of_not_gaps not_false not_false

theorem followsMarks_unmarked : marks.FollowsMarks (fun _ p => p) fun _ p => p where
  trace {calls calls' p q} title h := by
    rw [← bind_pure (q.make calls')]
    refine h.bind fun p q hpq => marks.codes_pure ⟨trivial, fun inp inp' hinp => ?_⟩
    have hruns := hpq.2 inp inp' hinp
    refine Run.Agree.emit_bind rfl ?_
    rw [← bind_pure (q.run inp')]
    exact hruns.bind fun ss ts hst => .emit_bind rfl (.pure hst)
  label {calls calls' p q} name h := by
    rw [← bind_pure (q.make calls')]
    exact h.bind fun _ _ hpq => marks.codes_pure ⟨trivial, hpq.2⟩

end Comparison

/-- A grammar without its traces and labels, over rules without theirs, is made with the same
success or error, and on every input gives the same results or the same error. The same notes are
logged meanwhile, and among them as many drops at the same places. -/
theorem marks_are_transparent (rules : Rules) (depth : Nat) (g : Grammar) :
    Run.Agree Entry.markless
      (fun p q => ∀ inp, Run.Agree Entry.markless Eq (p.run inp) (q.run inp))
      (rules.make depth g) (rules.unmarked.make depth g.unmarked) := by
  have hcovers (h : Grammar) : h.Everywhere Comparison.marks.Covers :=
    Grammar.everywhere_of_forall Comparison.covers_marks h
  have hmake := Rules.runs_make Comparison.followsMarks_unmarked
    (fun r (_ : r ∈ rules) => hcovers r.2) depth (hcovers g)
  refine Comparison.marks.runs_mono hmake fun p q hpq inp => ?_
  have hruns := hpq.2 inp inp rfl
  exact Comparison.marks.runs_mono hruns fun _ _ =>
    Comparison.marks.eq_of_answers not_false fun _ _ hinp => hinp

end AllParses
