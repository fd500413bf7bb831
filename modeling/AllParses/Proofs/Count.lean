import Mathlib
import AllParses.Parser.Count
import AllParses.Proofs.Repetition
import AllParses.Proofs.Sequencing

/-!
# Fixed numbers of repetitions

`count n p` works level by level: it extends all partial results by one repetition before it looks
at the next. The nested rule goes depth first: it follows one success through all the levels below
before it takes up another. Both list the same results in the same order. So do the repetitions of
length `n` among those that `many p` lists, if `p` always consumes something.
-/

namespace AllParses.Parser

variable {α : Type}

/-- The depth-first rule: `p`, and within each of its successes `n` times `p` again. -/
def nested (p : Parser α) : Nat → Parser (List α)
  | 0 => result []
  | n + 1 => p.bind fun a => pure ((nested p n).map fun as => pure (a :: as))

/-! ## Level by level or depth first -/

theorem run_nested_succ (p : Parser α) (n : Nat) (inp : Input) :
    (p.nested (n + 1)).run inp =
      p.run inp >>= Run.flatMap fun s =>
        List.map (Success.map (s.value :: ·)) <$> (p.nested n).run s.rest := by
  simp only [nested, run_bind, run_ofCode_pure, run_map_pure]

theorem extendTimes_nil (p : Parser α) (n : Nat) : extendTimes p n [] = pure [] := by
  cases n <;> rfl

/-- The early end at an empty level makes no difference. -/
theorem extendTimes_succ (p : Parser α) (n : Nat) (partials : List (Success (List α))) :
    extendTimes p (n + 1) partials = extend p partials >>= extendTimes p n := by
  rw [extendTimes]
  refine bind_congr fun longer => ?_
  cases longer with
  | nil => exact (extendTimes_nil p n).symm
  | cons s longer => rfl

/-- From any level on, the levels give what the depth-first rule gives after each partial result. -/
theorem extendTimes_reordered (p : Parser α) (n : Nat) (partials : List (Success (List α))) :
    Run.Reordered (extendTimes p n partials)
      (Run.flatMap
        (fun s => List.map (Success.map (s.value ++ ·)) <$> (p.nested n).run s.rest) partials) := by
  induction n generalizing partials with
  | zero =>
      refine .of_eq ?_
      simp [extendTimes, nested]
  | succ n ih =>
      rw [extendTimes_succ]
      refine (Run.Reordered.bind (.refl _) ih).trans ?_
      refine (Run.flatMap_flatMap _ _ partials).trans (.of_eq ?_)
      refine Run.flatMap_congr fun s _ => ?_
      rw [run_nested_succ, map_bind, bind_map_left]
      refine bind_congr fun successes => ?_
      rw [Run.flatMap_map, Run.map_flatMap]
      simp

theorem run_count_reordered (p : Parser α) (n : Nat) (inp : Input) :
    Run.Reordered ((count n p).run inp) ((p.nested n).run inp) := by
  refine (extendTimes_reordered p n [⟨[], inp⟩]).trans (.of_eq ?_)
  simp

/-- For each number that is not negative there is a parser of that many repetitions. It fails just
when the depth-first rule fails, and otherwise it gives the same results in the same order, and
logs the same entries in some order. -/
theorem countOf_reordered_nested (p : Parser α) (n : Nat) :
    ∃ q, countOf n p = pure q ∧ ∀ inp, Run.Reordered (q.run inp) ((p.nested n).run inp) := by
  have hmade : countOf n p = pure (count n p) := by
    rw [countOf, if_neg (by omega), Int.toNat_natCast]
  exact ⟨count n p, hmade, run_count_reordered p n⟩

/-! ## The repetitions of one length -/

/-- The repetitions with `n` values, among all of them, are what the depth-first rule lists. -/
theorem result_nested_of_many {p : Parser α} (hp : p.Shortens) (n : Nat) {inp : Input}
    {rs : List (Success (List α))} (h : (p.many.run inp).result = .ok rs) :
    ((p.nested n).run inp).result = .ok (rs.filter fun r => r.value.length = n) := by
  induction n generalizing inp rs with
  | zero =>
      rw [hp.run_many] at h
      obtain ⟨successes, _, h⟩ := Run.result_bind_eq_ok_iff.1 h
      obtain ⟨longer, hlonger, h⟩ := Run.result_bind_eq_ok_iff.1 h
      cases h
      have hvalues : ∀ r ∈ longer, r.value ≠ [] := by
        refine Run.ensures_flatMap (fun s _ => ?_) longer hlonger
        refine Run.ensures_map fun more r hr => ?_
        obtain ⟨t, _, rfl⟩ := List.mem_map.1 hr
        exact List.cons_ne_nil s.value t.value
      simpa [nested] using hvalues
  | succ n ih =>
      rw [hp.run_many] at h
      obtain ⟨successes, hsuccesses, h⟩ := Run.result_bind_eq_ok_iff.1 h
      obtain ⟨longer, hlonger, h⟩ := Run.result_bind_eq_ok_iff.1 h
      cases h
      rw [run_nested_succ, Run.result_bind_eq_ok_iff]
      have hlast : (longer ++ [(⟨[], inp⟩ : Success (List α))]).filter
          (fun r => r.value.length = n + 1) = longer.filter fun r => r.value.length = n + 1 := by
        simp
      rw [hlast]
      refine ⟨successes, hsuccesses, ?_⟩
      refine Run.result_flatMap_of_result (List.filter fun r => r.value.length = n + 1) rfl
        (fun _ _ => List.filter_append _ _) (fun s _ xs hxs => ?_) hlonger
      obtain ⟨more, hmore, rfl⟩ := Run.result_map_eq_ok_iff.1 hxs
      refine Run.result_map_eq_ok_iff.2 ⟨_, ih hmore, ?_⟩
      rw [List.filter_map]
      simp [Function.comp_def, Success.map]

theorem length_value_le_of_many {p : Parser α} (inp : Input) :
    (p.many.run inp).Ensures fun rs => ∀ r ∈ rs, r.value.length + r.rest.length ≤ inp.length := by
  refine ensures_many (Q := fun inp r => r.value.length + r.rest.length ≤ inp.length)
    (fun inp => by simp) (fun inp _ _ s _ hlt t ht => ?_) inp
  simp only [Success.map, List.length_cons]
  omega

/-- If `p` always consumes something, then `many p` lists, for each `n`, the results of
`count n p` in their order, and nothing else: it merges them for the `n` up to the length of the
input. -/
theorem many_merges_counts {p : Parser α} (hp : p.Shortens) {inp : Input}
    {rs : List (Success (List α))} (h : (p.many.run inp).result = .ok rs) :
    (∀ n, ((count n p).run inp).result = .ok (rs.filter fun r => r.value.length = n)) ∧
      ∀ r ∈ rs, r.value.length ≤ inp.length := by
  constructor
  · intro n
    have hnested := result_nested_of_many hp n h
    exact (run_count_reordered p n inp).symm.result_eq_ok hnested
  · intro r hr
    have hle := length_value_le_of_many inp rs h r hr
    omega

/-- With one or two tokens at a time there are two ways to read two tokens. -/
theorem many_merges_counts_of_pieces :
    (choice [item, item.keepRight item]).Shortens ∧
      ((choice [item, item.keepRight item]).many.run (.start (.text ['a', 'b']))).result =
        .ok [⟨[.char 'a', .char 'b'], .start (.text [])⟩, ⟨[.char 'a'], .start (.text ['b'])⟩,
          ⟨[.char 'b'], .start (.text [])⟩, ⟨[], .start (.text ['a', 'b'])⟩] ∧
      ((count 1 (choice [item, item.keepRight item])).run (.start (.text ['a', 'b']))).result =
        .ok [⟨[.char 'a'], .start (.text ['b'])⟩, ⟨[.char 'b'], .start (.text [])⟩] := by
  have hp : (choice [item, item.keepRight item]).Shortens :=
    shortens_choice (by simpa using ⟨shortens_item, shortens_item.keepRight shortens_item⟩)
  have hrun : ((choice [item, item.keepRight item]).many.run (.start (.text ['a', 'b']))).result =
      .ok [⟨[.char 'a', .char 'b'], .start (.text [])⟩, ⟨[.char 'a'], .start (.text ['b'])⟩,
        ⟨[.char 'b'], .start (.text [])⟩, ⟨[], .start (.text ['a', 'b'])⟩] := by cbv
  exact ⟨hp, hrun, (many_merges_counts hp hrun).1 1⟩

end AllParses.Parser
