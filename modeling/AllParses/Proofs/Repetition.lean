import AllParses.Parser.Repetition
import AllParses.Proofs.Runs

/-!
# Repetition as a recursive rule

`many p` walks its tree of repetitions with a stack. A frame on top of the stack leads to all the
results of its own subtree, longest first, before the walk goes on below it; this is the invariant
of the walk (`Repetition.run_frame`). Hence the walk obeys the recursive rule by which repetition
is explained (`Parser.run_many`), and it agrees in results, log and errors with the rule written as
a recursion (`Parser.run_many_eq_guardedMany`).
-/

namespace AllParses

variable {α β : Type}

namespace Parser

/-- What the repetitions that begin with the success `s` on `inp` answer. A success that consumed
nothing begins none. -/
def manyAfter (p : Parser α) (inp : Input) (s : Success α) :
    Run Entry (List (Success (List α))) :=
  if inp.length ≤ s.rest.length then do
    Run.emit (.dropped p.describe)
    pure []
  else List.map (Success.map (s.value :: ·)) <$> p.many.run s.rest

theorem manyAfter_of_lt {p : Parser α} {inp : Input} {s : Success α}
    (h : s.rest.length < inp.length) :
    p.manyAfter inp s = List.map (Success.map (s.value :: ·)) <$> p.many.run s.rest := by
  rw [manyAfter, if_neg (by omega)]

theorem manyAfter_of_le {p : Parser α} {inp : Input} {s : Success α}
    (h : inp.length ≤ s.rest.length) :
    p.manyAfter inp s = Run.emit (.dropped p.describe) >>= fun _ => pure [] := by
  rw [manyAfter, if_pos h]

/-- The recursive rule of repetition. It runs `p` once; each success that consumed something is
followed by all repetitions on what it left, each other one is recorded as dropped, and the empty
repetition comes last. -/
def guardedMany (p : Parser α) (inp : Input) : Run Entry (List (Success (List α))) := do
  let successes ← p.run inp
  let longer ← Run.flatMap
    (fun s =>
      if s.rest.length < inp.length then do
        let more ← guardedMany p s.rest
        return more.map (Success.map (s.value :: ·))
      else do
        Run.emit (.dropped p.describe)
        return [])
    successes
  return longer ++ [⟨[], inp⟩]
termination_by inp.length

end Parser

namespace Repetition

open AllParses.Parser

/-- `many` obeys its rule on an input on which single frames behave well. -/
theorem run_many_of_frame {p : Parser α} {inp : Input}
    (hframe : ∀ pending, run p ⟨[⟨[], inp, pending⟩], []⟩ =
      Run.flatMap (p.manyAfter inp) pending >>= fun longer =>
        run p ⟨[], ⟨[], inp⟩ :: ((longer.map (Success.map ([] ++ ·))).reverse ++ [])⟩) :
    p.many.run inp =
      p.run inp >>= fun pending => Run.flatMap (p.manyAfter inp) pending >>= fun longer =>
        pure (longer ++ [⟨[], inp⟩]) := by
  show (p.run inp >>= fun pending => run p ⟨[⟨[], inp, pending⟩], []⟩) = _
  refine bind_congr fun pending => ?_
  rw [hframe]
  refine bind_congr fun longer => ?_
  rw [run_of_nil rfl]
  simp

/-- The frame on top of the stack leads to the results of all repetitions that go on from it, and
then the walk is where it would be if the frame had never been there. -/
theorem run_frame (p : Parser α) (values : List α) (rest : Input) (pending : List (Success α))
    (below : List (Frame α)) (found : List (Success (List α))) :
    run p ⟨⟨values, rest, pending⟩ :: below, found⟩ =
      Run.flatMap (p.manyAfter rest) pending >>= fun longer =>
        run p ⟨below, ⟨values, rest⟩ ::
          ((longer.map (Success.map (values ++ ·))).reverse ++ found)⟩ := by
  -- on the length of what is left, for a new frame, and on the pending successes of this one
  induction hn : rest.length using Nat.strongRecOn generalizing values rest pending below found with
  | ind n ih =>
      induction pending generalizing found with
      | nil =>
          rw [run_of_ne_nil (by simp)]
          simp [step]
      | cons s pending ihp =>
          rw [run_of_ne_nil (by simp)]
          by_cases hle : rest.length ≤ s.rest.length
          · simp only [step, manyAfter_of_le hle, if_pos hle, Run.flatMap_cons, bind_assoc, pure_bind]
            refine bind_congr fun _ => ?_
            rw [ihp]
            simp
          · have hlt : s.rest.length < rest.length := by omega
            have hsmaller : s.rest.length < n := by omega
            have hmany := run_many_of_frame fun next =>
              ih s.rest.length hsmaller [] s.rest next [] [] rfl
            simp only [step, if_neg hle, Run.flatMap_cons, bind_assoc, pure_bind]
            rw [manyAfter_of_lt hlt, hmany]
            simp only [map_eq_pure_bind, bind_assoc, pure_bind]
            refine bind_congr fun next => ?_
            rw [ih s.rest.length hsmaller _ _ _ _ _ rfl]
            refine bind_congr fun longer => ?_
            rw [ihp]
            simp

end Repetition

namespace Parser

theorem run_many (p : Parser α) (inp : Input) :
    p.many.run inp =
      p.run inp >>= fun successes => Run.flatMap (p.manyAfter inp) successes >>= fun longer =>
        pure (longer ++ [⟨[], inp⟩]) :=
  Repetition.run_many_of_frame fun pending => Repetition.run_frame p [] inp pending [] []

/-- What holds of the empty repetition, and is kept when a success of `p` is put in front, holds
of every result of `many p`. -/
theorem ensures_many {p : Parser α} {Q : Input → Success (List α) → Prop}
    (hnil : ∀ inp, Q inp ⟨[], inp⟩)
    (hcons : ∀ inp successes, (p.run inp).result = .ok successes → ∀ s ∈ successes,
      s.rest.length < inp.length → ∀ t, Q s.rest t → Q inp (t.map (s.value :: ·)))
    (inp : Input) : (p.many.run inp).Ensures fun rs => ∀ r ∈ rs, Q inp r := by
  induction hn : inp.length using Nat.strongRecOn generalizing inp with
  | ind n ih =>
      rw [run_many]
      intro rs hrs
      obtain ⟨successes, hsuccesses, hrs⟩ := Run.result_bind_eq_ok_iff.1 hrs
      obtain ⟨longer, hlonger, hrs⟩ := Run.result_bind_eq_ok_iff.1 hrs
      cases hrs
      have hQ : ∀ r ∈ longer, Q inp r := by
        refine Run.ensures_flatMap (fun s hs => ?_) longer hlonger
        by_cases hle : inp.length ≤ s.rest.length
        · rw [manyAfter_of_le hle]
          exact Run.ensures_bind fun _ => Run.ensures_pure (by simp)
        · have hlt : s.rest.length < inp.length := by omega
          rw [manyAfter_of_lt hlt]
          refine (ih s.rest.length (by omega) s.rest rfl).map fun more hmore r hr => ?_
          obtain ⟨t, ht, rfl⟩ := List.mem_map.1 hr
          exact hcons inp successes hsuccesses s hs hlt t (hmore t ht)
      intro r hr
      rcases List.mem_append.1 hr with hr | hr
      · exact hQ r hr
      · rw [List.mem_singleton.1 hr]
        exact hnil inp

/-- Every success leaves less than there was. -/
def Shortens (p : Parser α) : Prop :=
  ∀ inp, (p.run inp).Ensures fun successes => ∀ s ∈ successes, s.rest.length < inp.length

/-- No success leaves more than there was. -/
def NeverLengthens (p : Parser α) : Prop :=
  ∀ inp, (p.run inp).Ensures fun successes => ∀ s ∈ successes, s.rest.length ≤ inp.length

theorem Shortens.neverLengthens {p : Parser α} (hp : p.Shortens) : p.NeverLengthens :=
  fun inp => (hp inp).mono fun _ hs s hmem => Nat.le_of_lt (hs s hmem)

theorem ensures_item {P : Success Value → Prop} {inp : Input}
    (h : 0 < inp.length → ∀ token, P ⟨token, inp.drop 1⟩) :
    (item.run inp).Ensures fun successes => ∀ s ∈ successes, P s := by
  unfold item
  dsimp only
  split
  · exact Run.ensures_pure (by simp)
  · next token rest hnext =>
      refine Run.ensures_pure ?_
      simp only [List.mem_singleton, forall_eq]
      rw [Input.eq_drop_of_next? hnext]
      exact h (Input.length_pos_of_next? hnext) token

theorem ensures_choice {ps : List (Parser α)} {P : Success α → Prop} {inp : Input}
    (h : ∀ p ∈ ps, (p.run inp).Ensures fun successes => ∀ s ∈ successes, P s) :
    ((choice ps).run inp).Ensures fun successes => ∀ s ∈ successes, P s := by
  rw [run_choice]
  exact Run.ensures_flatMap h

theorem shortens_item : item.Shortens := by
  refine fun inp => ensures_item fun hpos token => ?_
  rw [Input.length_drop]
  omega

theorem NeverLengthens.keepRight {p : Parser α} {q : Parser β} (hp : p.NeverLengthens)
    (hq : q.Shortens) : (p.keepRight q).Shortens := by
  intro inp
  rw [run_keepRight]
  refine (hp inp).bind fun successes hs => Run.ensures_flatMap fun s hmem => ?_
  refine (hq s.rest).mono fun rs hrs r hr => ?_
  have hfirst := hs s hmem
  have hsecond := hrs r hr
  omega

theorem Shortens.keepRight {p : Parser α} {q : Parser β} (hp : p.Shortens) (hq : q.Shortens) :
    (p.keepRight q).Shortens :=
  hp.neverLengthens.keepRight hq

theorem shortens_choice {ps : List (Parser α)} (hps : ∀ p ∈ ps, p.Shortens) :
    (choice ps).Shortens :=
  fun inp => ensures_choice fun p hp => hps p hp inp

/-- If `p` always consumes something, then nothing is dropped. -/
theorem Shortens.run_many {p : Parser α} (hp : p.Shortens) (inp : Input) :
    p.many.run inp =
      p.run inp >>= fun successes =>
        Run.flatMap (fun s => List.map (Success.map (s.value :: ·)) <$> p.many.run s.rest)
          successes >>= fun longer => pure (longer ++ [⟨[], inp⟩]) := by
  rw [Parser.run_many]
  refine Run.bind_congr_of_result fun successes hsuccesses => ?_
  congr 1
  refine Run.flatMap_congr fun s hs => ?_
  exact manyAfter_of_lt (hp inp successes hsuccesses s hs)

/-- A parser whose values are seen through `f` is repeated as the parser itself is. -/
theorem run_many_mapValue (f : α → β) (p : Parser α) (inp : Input) :
    (p.mapValue f).many.run inp = List.map (Success.map (List.map f)) <$> p.many.run inp := by
  induction hn : inp.length using Nat.strongRecOn generalizing inp with
  | ind n ih =>
      have hafter (s : Success α) : (p.mapValue f).manyAfter inp (s.map f) =
          List.map (Success.map (List.map f)) <$> p.manyAfter inp s := by
        by_cases hle : inp.length ≤ s.rest.length
        · rw [manyAfter_of_le hle, manyAfter_of_le (p := p.mapValue f) hle]
          simp [describe, mapValue]
        · have hlt : s.rest.length < inp.length := by omega
          rw [manyAfter_of_lt hlt, manyAfter_of_lt (p := p.mapValue f) hlt]
          show _ <$> (p.mapValue f).many.run s.rest = _
          rw [ih s.rest.length (hn ▸ hlt) s.rest rfl]
          simp [Success.map, Function.comp_def]
      rw [run_many, run_many, run_mapValue, bind_map_left, map_bind]
      refine bind_congr fun successes => ?_
      rw [Run.flatMap_map, map_bind, Run.flatMap_congr fun s _ => hafter s, ← Run.map_flatMap,
        bind_map_left]
      refine bind_congr fun longer => ?_
      simp

/-- The walk with a stack and the recursive rule give the same results in the same order, the same
log, and the same error where there is one. -/
theorem run_many_eq_guardedMany (p : Parser α) (inp : Input) :
    p.many.run inp = p.guardedMany inp := by
  induction hn : inp.length using Nat.strongRecOn generalizing inp with
  | ind n ih =>
      rw [run_many, guardedMany]
      refine bind_congr fun successes => ?_
      congr 1
      apply Run.flatMap_congr
      intro s _
      by_cases hlt : s.rest.length < inp.length
      · have hshorter := ih s.rest.length (by omega) s.rest rfl
        rw [if_pos hlt, manyAfter_of_lt hlt, hshorter]
        rfl
      · have hle : inp.length ≤ s.rest.length := by omega
        rw [if_neg hlt, manyAfter_of_le hle]

end Parser

end AllParses
