import Mathlib
import AllParses.Parser.Choice
import AllParses.Parser.Lookahead
import AllParses.Parser.Outcome
import AllParses.Parser.Sequence
import AllParses.Proofs.Runs

/-!
# What the drivers choose

The drivers select from the results of a parser. The complete parses are those that the end of the
input may follow; the first of them is the outcome. If there is none, the outcome is an error that
tells of the attempt that came farthest, and of the first one among several.
-/

namespace AllParses

variable {α : Type}

/-! ## The first shortest remainder -/

/-- An occurrence of the input that is shorter than all before it, and no longer than those after
it. -/
def FirstShortest (inps : List Input) (inp : Input) : Prop :=
  ∃ before after, inps = before ++ inp :: after ∧ (∀ i ∈ before, inp.length < i.length) ∧
    ∀ i ∈ after, inp.length ≤ i.length

namespace FirstShortest

variable {inps : List Input} {inp first other : Input}

theorem mem (h : FirstShortest inps inp) : inp ∈ inps := by
  obtain ⟨before, after, rfl, -, -⟩ := h
  exact List.mem_append_right before List.mem_cons_self

theorem length_le (h : FirstShortest inps inp) {i : Input} (hi : i ∈ inps) :
    inp.length ≤ i.length := by
  obtain ⟨before, after, rfl, hbefore, hafter⟩ := h
  rcases List.mem_append.1 hi with hi | hi
  · exact Nat.le_of_lt (hbefore i hi)
  · rcases List.mem_cons.1 hi with rfl | hi
    · exact Nat.le_refl _
    · exact hafter i hi

theorem cons (h : FirstShortest inps inp) (hlt : inp.length < first.length) :
    FirstShortest (first :: inps) inp := by
  obtain ⟨before, after, rfl, hbefore, hafter⟩ := h
  refine ⟨first :: before, after, rfl, ?_, hafter⟩
  simpa using ⟨hlt, hbefore⟩

/-- An input no shorter than the first may be put behind it. -/
theorem insert (h : FirstShortest (first :: inps) inp) (hle : first.length ≤ other.length) :
    FirstShortest (first :: other :: inps) inp := by
  obtain ⟨before, after, hsplit, hbefore, hafter⟩ := h
  cases before with
  | nil =>
      obtain ⟨rfl, rfl⟩ : first = inp ∧ inps = after := by simpa using hsplit
      refine ⟨[], other :: inps, rfl, by simp, ?_⟩
      simpa using ⟨hle, hafter⟩
  | cons b before =>
      obtain ⟨rfl, rfl⟩ : first = b ∧ inps = before ++ inp :: after := by simpa using hsplit
      have hfirst : inp.length < first.length := hbefore first (by simp)
      refine ⟨first :: other :: before, after, rfl, ?_, hafter⟩
      intro i hi
      rcases List.mem_cons.1 hi with rfl | hi
      · exact hfirst
      · rcases List.mem_cons.1 hi with rfl | hi
        · omega
        · exact hbefore i (by simp [hi])

end FirstShortest

theorem firstShortest_shortest (best : Input) (others : List Input) :
    FirstShortest (best :: others) (shortest best others) := by
  induction others generalizing best with
  | nil => exact ⟨[], [], rfl, by simp, by simp⟩
  | cons inp others ih =>
      rw [shortest]
      split
      · next hlt =>
          have hle := (ih inp).length_le List.mem_cons_self
          exact (ih inp).cons (by omega)
      · exact (ih best).insert (by omega)

/-! ## Complete parses -/

namespace Parser

theorem run_keepLeft_eof (p : Parser α) (inp : Input) :
    (p.keepLeft eof).run inp = List.filter (fun s => s.rest.isEmpty) <$> p.run inp := by
  rw [run_keepLeft, map_eq_pure_bind]
  refine bind_congr fun successes => ?_
  induction successes with
  | nil => rfl
  | cons s successes ih =>
      rw [Run.flatMap_cons, ih]
      cases h : s.rest.isEmpty with
      | false => simp [eof, h]
      | true => simp [eof, h]

theorem parseAll_eq_map_value (p : Parser α) (inp : Input) :
    p.parseAll inp = List.map Success.value <$> (p.keepLeft eof).run inp := by
  rw [run_keepLeft_eof, ← comp_map]
  rfl

end Parser

/-- If no attempt is complete, then the error tells that there was none, or of the first that came
farthest. -/
theorem chosen_of_complete_eq_nil {inp : Input} {rs : List (Success α)} (h : complete rs = []) :
    ∃ e, chosen inp rs = .error e ∧ (rs = [] → e = ⟨"no parse", some inp.sequence⟩) ∧
      (rs ≠ [] → ∃ rest, FirstShortest (rs.map Success.rest) rest ∧ rest.isEmpty = false ∧
        e = ⟨toString rs.length ++ " partial parse(s), none consumed all input",
          some rest.sequence⟩) := by
  cases rs with
  | nil => exact ⟨_, rfl, fun _ => rfl, fun hne => absurd rfl hne⟩
  | cons r rs =>
      have hfirst : FirstShortest ((r :: rs).map Success.rest)
          (shortest r.rest (rs.map Success.rest)) := firstShortest_shortest _ _
      have hincomplete : (r :: rs).filter (fun s => s.rest.isEmpty) = [] := List.map_eq_nil_iff.1 h
      obtain ⟨s, hs, hrest⟩ := List.mem_map.1 hfirst.mem
      have hnonempty : s.rest.isEmpty = false := by
        simpa using List.filter_eq_nil_iff.1 hincomplete s hs
      refine ⟨_, by rw [chosen, h]; rfl, fun hnil => absurd hnil (List.cons_ne_nil r rs), fun _ => ?_⟩
      exact ⟨_, hfirst, hrest ▸ hnonempty, rfl⟩

theorem chosen_eq_ok_iff {inp : Input} {rs : List (Success α)} {a : α} :
    chosen inp rs = .ok a ↔ ∃ more, complete rs = a :: more := by
  cases hcomplete : complete rs with
  | nil =>
      obtain ⟨e, he, -⟩ := @chosen_of_complete_eq_nil _ inp _ hcomplete
      simp [he]
  | cons b more => simp [chosen, hcomplete]

namespace Parser

/-- The drivers agree. The complete parses are those after which the input is at its end; the
outcome is the first of them, whatever its value is. If there is none, the outcome is an error. It
says that there was no parse and tells of the whole input, or it counts the attempts and tells of
the first of the shortest remainders, which is not empty. -/
theorem drivers_agree (p : Parser α) (inp : Input) {rs : List (Success α)}
    (h : (p.run inp).result = .ok rs) :
    p.parseAll inp = List.map Success.value <$> (p.keepLeft eof).run inp ∧
      (∃ ss, ((p.keepLeft eof).run inp).result = .ok ss ∧ ∀ s ∈ ss, s.rest.isEmpty = true) ∧
      (∀ a, (p.runParser inp).result = .ok (.ok a) ↔
        ∃ more, (p.parseAll inp).result = .ok (a :: more)) ∧
      ((p.parseAll inp).result = .ok [] →
        ∃ e, (p.runParser inp).result = .ok (.error e) ∧
          (rs = [] → e = ⟨"no parse", some inp.sequence⟩) ∧
          (rs ≠ [] → ∃ rest, FirstShortest (rs.map Success.rest) rest ∧ rest.isEmpty = false ∧
            e = ⟨toString rs.length ++ " partial parse(s), none consumed all input",
              some rest.sequence⟩)) := by
  have hall : (p.parseAll inp).result = .ok (complete rs) :=
    Run.result_map_eq_ok_iff.2 ⟨rs, h, rfl⟩
  have hrun : (p.runParser inp).result = .ok (chosen inp rs) :=
    Run.result_map_eq_ok_iff.2 ⟨rs, h, rfl⟩
  refine ⟨parseAll_eq_map_value p inp, ?_, ?_, ?_⟩
  · have hskip : ((p.keepLeft eof).run inp).result =
        .ok (rs.filter fun s => s.rest.isEmpty) := by
      rw [run_keepLeft_eof]
      exact Run.result_map_eq_ok_iff.2 ⟨rs, h, rfl⟩
    exact ⟨_, hskip, fun s hs => (List.mem_filter.1 hs).2⟩
  · intro a
    rw [hall, hrun, Except.ok.injEq, chosen_eq_ok_iff]
    simp
  · intro hnone
    rw [hall, Except.ok.injEq] at hnone
    rw [hrun]
    simpa using chosen_of_complete_eq_nil hnone

/-- Two of three attempts come equally far; the error tells of the first of them. -/
theorem drivers_agree_on_pieces :
    ((choice [item.keepRight item, item, item.keepRight item]).run
        (.start (.text ['a', 'b', 'c']))).result =
      .ok [⟨.char 'b', .start (.text ['c'])⟩, ⟨.char 'a', .start (.text ['b', 'c'])⟩,
        ⟨.char 'b', .start (.text ['c'])⟩] ∧
      ∃ e, ((choice [item.keepRight item, item, item.keepRight item]).runParser
          (.start (.text ['a', 'b', 'c']))).result = .ok (.error e) ∧
        ∃ rest, FirstShortest
            [.start (.text ['c']), .start (.text ['b', 'c']), .start (.text ['c'])] rest ∧
          rest.isEmpty = false ∧
          e = ⟨toString 3 ++ " partial parse(s), none consumed all input",
            some rest.sequence⟩ := by
  have hrun : ((choice [item.keepRight item, item, item.keepRight item]).run
      (.start (.text ['a', 'b', 'c']))).result =
      .ok [⟨.char 'b', .start (.text ['c'])⟩, ⟨.char 'a', .start (.text ['b', 'c'])⟩,
        ⟨.char 'b', .start (.text ['c'])⟩] := by cbv
  have hnone : ((choice [item.keepRight item, item, item.keepRight item]).parseAll
      (.start (.text ['a', 'b', 'c']))).result = .ok [] := by cbv
  obtain ⟨e, he, -, hattempts⟩ := (drivers_agree _ _ hrun).2.2.2 hnone
  exact ⟨hrun, e, he, hattempts (List.cons_ne_nil _ _)⟩

end Parser

end AllParses
