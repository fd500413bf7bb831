import Mathlib
import AllParses.Parser.Character
import AllParses.Proofs.Answers

/-!
# Sequencing distributes over choice

A choice that is continued does what a choice among the continued alternatives does; only the steps
come in another order. A parser that is continued by a choice gives the same results as the choice
among its continuations, but in another order: they are grouped by the values of the parser on one
side, and by the continuations on the other.

The second law compares two runs in which different numbers of functions have been made when a
continuation is reached, and functions are told apart by these numbers. So its results are compared
as far as a view shows them that does not depend on the count (`Code.Steady`).
-/

namespace AllParses

variable {α β δ : Type}

/-- What the view shows of the value, and the sequence that is left. -/
def Success.seen (view : β → δ) (s : Success β) : δ × Sequence := (view s.value, s.rest.sequence)

/-- As far as the view shows, what the code makes does not depend on how many functions have been
made: if the code is run later than on `rest`, and the parser that it makes is run later still, then
the results look as they would have looked at once. `later m n` says that the count may have become
`n` some time after it was `m`. -/
def Code.Steady (later : Nat → Nat → Prop) (view : Success β → δ) (rest : Input)
    (code : Code Entry (Parser β)) : Prop :=
  ∀ made, later rest.made made → ∀ q, (code.run made).result = .ok q →
    later made q.2 ∧ ∀ count, later q.2 count →
      ∀ rs, (q.1.run (rest.withMade count)).result = .ok rs →
        rs.map view = ((Parser.ofCode code).run rest).answers.map view

/-- Two lists may be gone through one inside the other in either way. -/
theorem perm_flatMap_flatMap {γ : Type} (as : List α) (bs : List β) (f : α → β → List γ) :
    (as.flatMap fun a => bs.flatMap (f a)).Perm
      (bs.flatMap fun b => as.flatMap fun a => f a b) := by
  have h := Multiset.bind_bind (as : Multiset α) bs (f := fun a b => (f a b : Multiset γ))
  simpa only [Multiset.coe_bind, Multiset.coe_eq_coe] using h

namespace Parser

/-- The choice among what all the continuations make of the value. -/
def eachOf (fs : List (α → Code Entry (Parser β))) (a : α) : Code Entry (Parser β) := do
  let ps ← fs.mapM fun f => f a
  return choice ps

/-- A continuation that makes no functions. -/
def uncounted (f : α → Run Entry (Parser β)) (a : α) : Code Entry (Parser β) := StateT.lift (f a)

/-! ## A choice that is continued -/

theorem run_choice_bind_reordered (ps : List (Parser α)) (f : α → Code Entry (Parser β))
    (inp : Input) :
    Run.Reordered (((choice ps).bind f).run inp) ((choice (ps.map fun p => p.bind f)).run inp) := by
  rw [run_bind, run_choice, run_choice, Run.flatMap_map]
  exact Run.flatMap_flatMap (fun p => p.run inp) (fun s => (ofCode (f s.value)).run s.rest) ps

/-! ## Continued by a choice -/

theorem answers_bind {p : Parser α} {f : α → Code Entry (Parser β)} {inp : Input}
    {ss : List (Success α)} (hss : (p.run inp).result = .ok ss)
    (h : ∃ rs, ((p.bind f).run inp).result = .ok rs) :
    ((p.bind f).run inp).answers =
      ss.flatMap fun s => ((ofCode (f s.value)).run s.rest).answers := by
  obtain ⟨rs, hrs⟩ := h
  have hflat := hrs
  rw [run_bind, Run.result_bind_eq_ok_iff] at hflat
  obtain ⟨ss', hss', hflat⟩ := hflat
  obtain rfl : ss = ss' := Except.ok.inj (hss.symm.trans hss')
  rw [Run.answers_of_result hrs, ← Run.answers_flatMap ⟨rs, hflat⟩, Run.answers_of_result hflat]

section Steady

variable {later : Nat → Nat → Prop} {view : Success β → δ} {fs : List (α → Code Entry (Parser β))}

/-- The results of all continuations of one value, made one after the other. -/
theorem map_view_of_mapM (hrefl : ∀ n, later n n)
    (htrans : ∀ {l m n}, later l m → later m n → later l n) {rest : Input} {a : α}
    (hfs : ∀ f ∈ fs, (f a).Steady later view rest) {made : Nat} (hmade : later rest.made made)
    {q : List (Parser β) × Nat}
    (hq : ((fs.mapM fun f => f a : Code Entry (List (Parser β))).run made).result = .ok q) :
    later made q.2 ∧ ∀ count, later q.2 count → ∀ rs,
      (Run.flatMap (fun p => p.run (rest.withMade count)) q.1).result = .ok rs →
        rs.map view = fs.flatMap fun f => ((ofCode (f a)).run rest).answers.map view := by
  induction fs generalizing made q with
  | nil =>
      rw [List.mapM_nil] at hq
      cases hq
      refine ⟨hrefl made, fun count _ rs hrs => ?_⟩
      cases hrs
      rfl
  | cons f fs ih =>
      rw [List.mapM_cons, StateT.run_bind, Run.result_bind_eq_ok_iff] at hq
      obtain ⟨first, hfirst, hq⟩ := hq
      rw [StateT.run_bind, Run.result_bind_eq_ok_iff] at hq
      obtain ⟨others, hothers, hq⟩ := hq
      cases hq
      obtain ⟨hnext, hhead⟩ := hfs f (by simp) made hmade first hfirst
      obtain ⟨hlast, htail⟩ := ih (fun g hg => hfs g (by simp [hg])) (htrans hmade hnext) hothers
      refine ⟨htrans hnext hlast, fun count hcount rs hrs => ?_⟩
      rw [Run.flatMap_cons, Run.result_bind_eq_ok_iff] at hrs
      obtain ⟨xs, hxs, hrs⟩ := hrs
      rw [Run.result_bind_eq_ok_iff] at hrs
      obtain ⟨ys, hys, hrs⟩ := hrs
      cases hrs
      rw [List.map_append, hhead count (htrans hlast hcount) xs hxs, htail count hcount ys hys,
        List.flatMap_cons]

theorem map_view_of_eachOf (hrefl : ∀ n, later n n)
    (htrans : ∀ {l m n}, later l m → later m n → later l n) {rest : Input} {a : α}
    (hfs : ∀ f ∈ fs, (f a).Steady later view rest) {rs : List (Success β)}
    (hrs : ((ofCode (eachOf fs a)).run rest).result = .ok rs) :
    rs.map view = fs.flatMap fun f => ((ofCode (f a)).run rest).answers.map view := by
  rw [eachOf, bind_pure_comp, run_ofCode, StateT.run_map, bind_map_left,
    Run.result_bind_eq_ok_iff] at hrs
  obtain ⟨q, hq, hrs⟩ := hrs
  rw [run_choice] at hrs
  exact (map_view_of_mapM hrefl htrans hfs (hrefl rest.made) hq).2 q.2 (hrefl q.2) rs hrs

theorem perm_map_view_of_steady (hrefl : ∀ n, later n n)
    (htrans : ∀ {l m n}, later l m → later m n → later l n) {p : Parser α} {inp : Input}
    (hfs : ∀ f ∈ fs, (p.run inp).Ensures fun ss => ∀ s ∈ ss, (f s.value).Steady later view s.rest)
    {ls rs : List (Success β)} (hls : ((p.bind (eachOf fs)).run inp).result = .ok ls)
    (hrs : ((choice (fs.map fun f => p.bind f)).run inp).result = .ok rs) :
    (ls.map view).Perm (rs.map view) := by
  obtain ⟨ss, hss, hleft⟩ := Run.result_bind_eq_ok_iff.1 hls
  have hvalues := Run.exists_result_flatMap_iff.1 ⟨ls, hleft⟩
  rw [run_choice, Run.flatMap_map] at hrs
  have hbranches := Run.exists_result_flatMap_iff.1 ⟨rs, hrs⟩
  -- one list is grouped by the successes of `p`, the other by the continuations
  have hls' : ls.map view = ss.flatMap fun s =>
      fs.flatMap fun f => ((ofCode (f s.value)).run s.rest).answers.map view := by
    rw [← Run.answers_of_result hls, answers_bind hss ⟨ls, hls⟩, List.map_flatMap]
    apply List.flatMap_congr
    intro s hs
    have hone := Run.result_of_exists (hvalues s hs)
    exact map_view_of_eachOf hrefl htrans (fun f hf => hfs f hf ss hss s hs) hone
  have hrs' : rs.map view = fs.flatMap fun f =>
      ss.flatMap fun s => ((ofCode (f s.value)).run s.rest).answers.map view := by
    rw [← Run.answers_of_result hrs, Run.answers_flatMap ⟨rs, hrs⟩, List.map_flatMap]
    apply List.flatMap_congr
    intro f hf
    rw [answers_bind hss (hbranches f hf), List.map_flatMap]
  rw [hls', hrs']
  exact perm_flatMap_flatMap ss fs _

end Steady

/-- As long as no function is made at all, nothing comes later. -/
theorem steady_uncounted (f : α → Run Entry (Parser β)) (a : α) (rest : Input) :
    (uncounted f a).Steady (· = ·) id rest := by
  rintro made rfl q hq
  rw [uncounted, StateT.run_lift, Run.result_bind_eq_ok_iff] at hq
  obtain ⟨p, hp, hq⟩ := hq
  cases hq
  refine ⟨rfl, ?_⟩
  rintro count rfl rs hrs
  have hmade : ((ofCode (uncounted f a)).run rest).result = .ok rs := by
    rw [run_ofCode, uncounted, StateT.run_lift, bind_assoc, Run.result_bind_eq_ok_iff]
    exact ⟨p, hp, hrs⟩
  rw [Run.answers_of_result hmade]

/-- A choice that is continued fails just when the choice among the continued alternatives does,
and otherwise gives the same results in the same order, and logs the same entries in some order. A
parser that is continued by a choice gives the results of the choice among its continuations in
some order, where both answer. If the continuations make functions, then these are not the same
ones on both sides, and the results are compared as a view shows them. -/
theorem bind_distributes_over_choice (ps : List (Parser α)) (f : α → Code Entry (Parser β))
    (p : Parser α) (inp : Input) :
    Run.Reordered (((choice ps).bind f).run inp) ((choice (ps.map fun p => p.bind f)).run inp) ∧
      (∀ (fs : List (α → Run Entry (Parser β))) (ls rs : List (Success β)),
        ((p.bind (eachOf (fs.map uncounted))).run inp).result = .ok ls →
        ((choice (fs.map fun f => p.bind (uncounted f))).run inp).result = .ok rs → ls.Perm rs) ∧
      ∀ (δ : Type) (view : β → δ) (fs : List (α → Code Entry (Parser β)))
        (ls rs : List (Success β)),
        (∀ f ∈ fs, (p.run inp).Ensures fun ss =>
          ∀ s ∈ ss, (f s.value).Steady (· ≤ ·) (Success.seen view) s.rest) →
        ((p.bind (eachOf fs)).run inp).result = .ok ls →
        ((choice (fs.map fun f => p.bind f)).run inp).result = .ok rs →
        (ls.map (Success.seen view)).Perm (rs.map (Success.seen view)) := by
  refine ⟨run_choice_bind_reordered ps f inp, ?_, ?_⟩
  · intro fs ls rs hls hrs
    have hsteady : ∀ g ∈ fs.map uncounted, (p.run inp).Ensures fun ss =>
        ∀ s ∈ ss, (g s.value).Steady (· = ·) id s.rest := by
      intro g hg ss _ s _
      obtain ⟨f, _, rfl⟩ := List.mem_map.1 hg
      exact steady_uncounted f s.value s.rest
    have hperm := perm_map_view_of_steady (fun _ => rfl) Eq.trans hsteady hls
      (by rwa [List.map_map])
    simpa using hperm
  · intro δ view fs ls rs hfs hls hrs
    exact perm_map_view_of_steady Nat.le_refl Nat.le_trans hfs hls hrs

/-- One token, or the second of two. -/
def oneOrSecond : Parser Value := choice [item, item.keepRight item]

/-- A new function, whatever the value is. -/
def newFunction (_ : Value) : Code Entry (Parser Value) := do
  let number ← Code.fresh
  return result (.fn number [] (.lit .none) [])

/-- The value, unless it is a function. -/
def data? : Value → Option Value
  | .fn _ _ _ _ => none
  | v => some v

theorem bind_distributes_over_choice_of_functions :
    (∀ f ∈ [newFunction, fun v => pure (result v), newFunction],
        (oneOrSecond.run (.start (.text ['a', 'b']))).Ensures fun ss =>
          ∀ s ∈ ss, (f s.value).Steady (· ≤ ·) (Success.seen data?) s.rest) ∧
      ∃ ls rs,
        ((oneOrSecond.bind (eachOf [newFunction, fun v => pure (result v), newFunction])).run
          (.start (.text ['a', 'b']))).result = .ok ls ∧
        ((choice ([newFunction, fun v => pure (result v), newFunction].map
          fun f => oneOrSecond.bind f)).run (.start (.text ['a', 'b']))).result = .ok rs ∧
        ls.map (Success.seen data?) =
          [(none, .text ['b']), (some (.char 'a'), .text ['b']), (none, .text ['b']),
            (none, .text []), (some (.char 'b'), .text []), (none, .text [])] ∧
        (ls.map (Success.seen data?)).Perm (rs.map (Success.seen data?)) := by
  have hfunction (v : Value) (rest : Input) :
      (newFunction v).Steady (· ≤ ·) (Success.seen data?) rest := by
    intro made _ q hq
    cases hq
    refine ⟨Nat.le_succ made, fun count _ rs hrs => ?_⟩
    cases hrs
    rfl
  have hvalue (v : Value) (rest : Input) : Code.Steady (· ≤ ·) (Success.seen data?) rest
      (pure (result v)) := by
    intro made _ q hq
    cases hq
    refine ⟨Nat.le_refl made, fun count _ rs hrs => ?_⟩
    cases hrs
    rfl
  have hfs : ∀ f ∈ [newFunction, fun v => pure (result v), newFunction],
      (oneOrSecond.run (.start (.text ['a', 'b']))).Ensures fun ss =>
        ∀ s ∈ ss, (f s.value).Steady (· ≤ ·) (Success.seen data?) s.rest := by
    intro f hf ss _ s _
    simp only [List.mem_cons, List.not_mem_nil, or_false] at hf
    rcases hf with rfl | rfl | rfl
    · exact hfunction s.value s.rest
    · exact hvalue s.value s.rest
    · exact hfunction s.value s.rest
  refine ⟨hfs, _, _, rfl, rfl, ?_, ?_⟩
  · cbv
  · exact (bind_distributes_over_choice [] newFunction oneOrSecond _).2.2 _ data? _ _ _ hfs
      rfl rfl

end Parser

end AllParses
