import Mathlib
import AllParses.Parser.Chain
import AllParses.Proofs.Answers
import AllParses.Proofs.Characters

/-!
# Chains as recursive grammars

A chain is read by a repetition of its links, an operator and an operand each, and folded when all
of it is there. The usual grammar for a chain folds while it reads: each link makes a new left
operand, with which the grammar goes on. The two run the same parsers on the same inputs, and they
answer the same. Only the operators are applied in another order, and in a chain of several links
some are applied more than once; so the answers agree if an operator, applied to the same operands,
always does the same.
-/

namespace AllParses

variable {α β γ : Type}

/-- What the operator answers depends on the operands alone: the functions that were made before
make no difference, and it leaves none behind. The latter is asked because functions are told apart
by their numbers, and an operator is not applied at the same time in the two parses: the grammar
applies it before it reads the links that follow, the repetition after all links. What is made after
an operator that made functions itself would bear other numbers in one parse than in the other. -/
def Operator.IsDeterministic (f : Operator α) : Prop :=
  ∀ a b, ∃ c? : Option α, ∀ made, ((f a b).run made).answer? = c?.map (·, made)

namespace Parser

/-! ## Links -/

/-- What comes after both values of a pair may come after each right value at once. -/
theorem run_pair_flatMap_reordered (p : Parser α) (q : Parser β)
    (g : Success (α × β) → Run Entry (List (Success γ))) (inp : Input) :
    Run.Reordered ((p.pair q).run inp >>= Run.flatMap g)
      (p.run inp >>= Run.flatMap fun s =>
        q.run s.rest >>= Run.flatMap fun t => g ⟨(s.value, t.value), t.rest⟩) := by
  have hafter (s : Success α) :
      (q.run s.rest >>= Run.flatMap fun t => pure [⟨(s.value, t.value), t.rest⟩]) >>=
          Run.flatMap g =
        q.run s.rest >>= Run.flatMap fun t => g ⟨(s.value, t.value), t.rest⟩ := by
    rw [bind_assoc]
    apply bind_congr
    intro ts
    rw [Run.flatMap_pure_singleton, pure_bind, Run.flatMap_map]
  rw [run_pair, bind_assoc]
  apply Run.Reordered.bind (.refl _)
  intro ss
  have hlist := Run.flatMap_flatMap
    (fun s => q.run s.rest >>= Run.flatMap fun t => pure [⟨(s.value, t.value), t.rest⟩]) g ss
  simpa only [hafter] using hlist

theorem ensures_pair {p : Parser α} {q : Parser β} {P : α → Prop} {Q : β → Prop}
    (hp : ∀ inp, (p.run inp).Ensures fun ss => ∀ s ∈ ss, P s.value)
    (hq : ∀ inp, (q.run inp).Ensures fun ts => ∀ t ∈ ts, Q t.value) (inp : Input) :
    ((p.pair q).run inp).Ensures fun us => ∀ u ∈ us, P u.value.1 ∧ Q u.value.2 := by
  rw [run_pair]
  refine (hp inp).bind fun ss hss => Run.ensures_flatMap fun s hs => ?_
  refine (hq s.rest).bind fun ts hts => Run.ensures_flatMap fun t ht => Run.ensures_pure ?_
  have hfirst := hss s hs
  have hsecond := hts t ht
  simpa using ⟨hfirst, hsecond⟩

theorem NeverLengthens.pair {p : Parser α} {q : Parser β} (hp : p.NeverLengthens)
    (hq : q.Shortens) : (p.pair q).Shortens := by
  intro inp
  rw [run_pair]
  refine (hp inp).bind fun ss hss => Run.ensures_flatMap fun s hs => ?_
  refine (hq s.rest).bind fun ts hts => Run.ensures_flatMap fun t ht => Run.ensures_pure ?_
  have hfirst := hss s hs
  have hsecond := hts t ht
  simp only [List.mem_singleton, forall_eq]
  omega

theorem Shortens.pair {p : Parser α} {q : Parser β} (hp : p.Shortens) (hq : q.Shortens) :
    (p.pair q).Shortens :=
  hp.neverLengthens.pair hq

theorem Shortens.mapValue {p : Parser α} (hp : p.Shortens) (f : α → β) :
    (p.mapValue f).Shortens := by
  intro inp
  refine (hp inp).map fun ss hss r hr => ?_
  obtain ⟨s, hs, rfl⟩ := List.mem_map.1 hr
  exact hss s hs

theorem Shortens.map {p : Parser α} (hp : p.Shortens) (f : α → Code Entry β) :
    (p.map f).Shortens := by
  intro inp
  rw [run_map]
  refine (hp inp).bind fun ss hss => Run.ensures_flatMap fun s hs => ?_
  refine Run.ensures_bind fun b => Run.ensures_pure ?_
  simpa using hss s hs

theorem neverLengthens_many_map (p : Parser α) (f : List α → Code Entry β) :
    (p.many.map f).NeverLengthens := by
  intro inp
  have hmany : (p.many.run inp).Ensures fun ss => ∀ s ∈ ss, s.rest.length ≤ inp.length :=
    ensures_many (Q := fun inp s => s.rest.length ≤ inp.length) (fun _ => Nat.le_refl _)
      (fun _ _ _ _ _ hlt t ht => ht.trans (Nat.le_of_lt hlt)) inp
  rw [run_map]
  refine hmany.bind fun ss hss => Run.ensures_flatMap fun s hs => ?_
  refine Run.ensures_bind fun b => Run.ensures_pure ?_
  simpa using hss s hs

theorem Shortens.many1 {p : Parser α} (hp : p.Shortens) : p.many1.Shortens := by
  intro inp
  simp only [Parser.many1, run_bind, run_ofCode_pure]
  refine (hp inp).bind fun ss hss => Run.ensures_flatMap fun s hs => ?_
  refine (neverLengthens_many_map p _ s.rest).mono fun rs hrs r hr => ?_
  have hfirst := hss s hs
  have hmore := hrs r hr
  omega

/-! ## What is made of all repetitions -/

theorem ne_nil_of_many {p : Parser α} {inp : Input} {rs : List (Success (List α))}
    (h : (p.many.run inp).result = .ok rs) : rs ≠ [] := by
  rw [run_many] at h
  obtain ⟨_, _, h⟩ := Run.result_bind_eq_ok_iff.1 h
  obtain ⟨longer, _, h⟩ := Run.result_bind_eq_ok_iff.1 h
  cases h
  simp

/-- The success with what `f` makes of its value. -/
def mapSuccess (f : α → Code Entry β) (s : Success α) : Run Entry (List (Success β)) :=
  (f s.value).run s.rest.made >>= fun b => pure [⟨b.1, s.rest.withMade b.2⟩]

/-- If nothing is dropped, then what `f` makes of the repetitions is, for each success of `p`, what
it makes of those that begin with it, and at last what it makes of none. -/
theorem Shortens.run_many_map_reordered {p : Parser α} (hp : p.Shortens)
    (f : List α → Code Entry β) (inp : Input) :
    Run.Reordered ((p.many.map f).run inp)
      (p.run inp >>= fun ss =>
        Run.flatMap (fun s => (p.many.map fun as => f (s.value :: as)).run s.rest) ss >>= fun rs =>
          (f []).run inp.made >>= fun b => pure (rs ++ [⟨b.1, inp.withMade b.2⟩])) := by
  have hlonger (s : Success α) :
      (List.map (Success.map (s.value :: ·)) <$> p.many.run s.rest) >>= Run.flatMap (mapSuccess f) =
        (p.many.map fun as => f (s.value :: as)).run s.rest := by
    rw [bind_map_left, run_map]
    simp only [Run.flatMap_map, mapSuccess, Success.map]
  have hlast (ss : List (Success α)) :
      (Run.flatMap (fun s => List.map (Success.map (s.value :: ·)) <$> p.many.run s.rest) ss >>=
          fun rs => pure (rs ++ [⟨[], inp⟩])) >>= Run.flatMap (mapSuccess f) =
        (Run.flatMap (fun s => List.map (Success.map (s.value :: ·)) <$> p.many.run s.rest) ss >>=
          Run.flatMap (mapSuccess f)) >>= fun rs =>
            (f []).run inp.made >>= fun b => pure (rs ++ [⟨b.1, inp.withMade b.2⟩]) := by
    simp only [bind_assoc, pure_bind, Run.flatMap_append, Run.flatMap_cons, Run.flatMap_nil,
      mapSuccess, List.append_nil]
  rw [run_map, hp.run_many, bind_assoc]
  apply Run.Reordered.bind (.refl _)
  intro ss
  have heach := Run.flatMap_flatMap
    (fun s => List.map (Success.map (s.value :: ·)) <$> p.many.run s.rest) (mapSuccess f) ss
  simp only [hlonger] at heach
  exact (Run.Reordered.of_eq (hlast ss)).trans (heach.bind fun _ => .refl _)

/-- Code that always answers the same may be run once before the repetitions are read, instead of
once for each of them. -/
theorem answer?_many_map_bind {p : Parser α} {code : Code Entry β} {b? : Option β}
    (hcode : ∀ made, (code.run made).answer? = b?.map (·, made)) (f : β → List α → Code Entry γ)
    (inp : Input) :
    ((p.many.map fun as => code >>= fun b => f b as).run inp).answer? =
      (code.run inp.made >>= fun q =>
        (p.many.map (f q.1)).run (inp.withMade q.2)).answer? := by
  have hfirst (as : List α) (made : Nat) :
      ((code >>= fun b => f b as).run made).answer? =
        b?.bind fun b => ((f b as).run made).answer? := by
    rw [StateT.run_bind, Run.answer?_bind, hcode]
    cases b? with
    | none => rfl
    | some b => rfl
  rw [run_map, Run.answer?_bind (code.run inp.made), hcode]
  cases b? with
  | none =>
      rw [Option.map_none, Option.bind_none, Run.answer?_bind]
      cases hmany : (p.many.run inp).answer? with
      | none => rfl
      | some rs =>
          -- there is always a repetition on which the code is run: the empty one, if no other
          have hne := ne_nil_of_many (Run.answer?_eq_some_iff.1 hmany)
          apply Run.answer?_flatMap_eq_none hne
          intro r _
          rw [Run.answer?_bind, hfirst, Option.bind_none, Option.bind_none]
  | some b =>
      rw [Option.map_some, Option.bind_some, Input.withMade_made, run_map]
      apply Run.answer?_bind_congr
      intro rs _
      apply Run.answer?_flatMap_congr
      intro r _
      rw [Run.answer?_bind, Run.answer?_bind, hfirst, Option.bind_some]

/-! ## Folding from the left -/

/-- The grammar that folds while it reads: after an operator and its right operand it goes on with
what the operator makes of the two. At most `depth` of these steps may be nested. -/
def chainFrom (p : Parser α) (op : Parser (Operator α)) : Nat → α → Parser α
  | 0, _ => ⟨none, fun _ => Run.raise .tooDeep⟩
  | depth + 1, a =>
    choice
      [op.bind fun f => pure (p.bind fun b => do return chainFrom p op depth (← f a b)), result a]

theorem run_chainFrom_succ_reordered (p : Parser α) (op : Parser (Operator α)) (depth : Nat)
    (a : α) (inp : Input) :
    Run.Reordered ((chainFrom p op (depth + 1) a).run inp)
      ((op.pair p).run inp >>= fun us =>
        Run.flatMap
          (fun u => (u.value.1 a u.value.2).run u.rest.made >>= fun c =>
            (chainFrom p op depth c.1).run (u.rest.withMade c.2)) us >>= fun rs =>
          pure (rs ++ [⟨a, inp⟩])) := by
  have hlink (t : Success α) (f : Operator α) :
      (ofCode (do return chainFrom p op depth (← f a t.value))).run t.rest =
        (f a t.value).run t.rest.made >>= fun c =>
          (chainFrom p op depth c.1).run (t.rest.withMade c.2) := by
    rw [bind_pure_comp, run_ofCode_map]
  rw [chainFrom, run_choice, Run.flatMap_cons, Run.flatMap_cons, Run.flatMap_nil, run_result]
  simp only [run_bind, run_ofCode_pure, hlink, pure_bind, List.append_nil]
  have hpair := run_pair_flatMap_reordered op p
    (fun u => (u.value.1 a u.value.2).run u.rest.made >>= fun c =>
      (chainFrom p op depth c.1).run (u.rest.withMade c.2)) inp
  rw [← bind_assoc]
  exact hpair.symm.bind fun _ => .refl _

variable {p : Parser α} {op : Parser (Operator α)}

/-- From any left operand on, reading all links and folding them afterwards answers what the
grammar answers, if that may recurse more often than there are tokens. -/
theorem answer?_many_map_foldLeft (hlink : (op.pair p).Shortens)
    (hop : ∀ inp, (op.run inp).Ensures fun ss => ∀ s ∈ ss, Operator.IsDeterministic s.value)
    {depth : Nat} {inp : Input} (hdepth : inp.length < depth) (a : α) :
    (((op.pair p).many.map (foldLeft a)).run inp).answer? =
      ((chainFrom p op depth a).run inp).answer? := by
  induction depth generalizing inp a with
  | zero => omega
  | succ depth ih =>
      have hwalk := (hlink.run_many_map_reordered (foldLeft a) inp).answer?_eq
      have hgrammar := (run_chainFrom_succ_reordered p op depth a inp).answer?_eq
      rw [hwalk, hgrammar]
      apply Run.answer?_bind_congr
      intro us hus
      apply Run.answer?_bind_congr_left
      apply Run.answer?_flatMap_congr
      intro u hu
      have hshorter := hlink inp us hus u hu
      have hoperator :=
        ensures_pair (Q := fun _ => True) hop (fun _ _ _ _ _ => trivial) inp us hus u hu
      obtain ⟨c?, hc⟩ := hoperator.1 a u.value.2
      refine (answer?_many_map_bind hc foldLeft u.rest).trans ?_
      apply Run.answer?_bind_congr
      intro c _
      have hlt : (u.rest.withMade c.2).length < depth := by
        rw [Input.length_withMade]
        omega
      exact ih hlt c.1

/-- The chain folded from the left and the grammar that folds while it reads answer the same: both
fail, or both give the same values and rests in the same order. -/
theorem chainl1_answers_chainFrom (hlink : (op.pair p).Shortens)
    (hop : ∀ inp, (op.run inp).Ensures fun ss => ∀ s ∈ ss, Operator.IsDeterministic s.value)
    (inp : Input) {depth : Nat}
    (hdepth : (p.run inp).Ensures fun ss => ∀ s ∈ ss, s.rest.length < depth) :
    ((p.chainl1 op).run inp).answer? =
      ((p.bind fun a => pure (chainFrom p op depth a)).run inp).answer? := by
  rw [chainl1, run_bind, run_bind]
  apply Run.answer?_bind_congr
  intro ss hss
  apply Run.answer?_flatMap_congr
  intro s hs
  exact answer?_many_map_foldLeft hlink hop (hdepth ss hss s hs) s.value

/-- The numbers of one digit. -/
def figure : Parser Int := digit.mapValue fun c => c.toNat - 48

/-- A minus sign that may be read in two ways, as a difference or as the opposite one. -/
def differences : Parser (Operator Int) :=
  choice
    [(char (.char '-')).mapValue fun _ a b => pure (a - b),
      (char (.char '-')).mapValue fun _ a b => pure (b - a)]

theorem chainl1_answers_chainFrom_of_differences :
    (differences.pair figure).Shortens ∧
      (∀ inp, (differences.run inp).Ensures
        fun ss => ∀ s ∈ ss, Operator.IsDeterministic s.value) ∧
      ((figure.run (.start (.text ['3', '-', '2']))).Ensures
        fun ss => ∀ s ∈ ss, s.rest.length < 3) ∧
      ((figure.chainl1 differences).run (.start (.text ['3', '-', '2']))).answer? =
        some [⟨1, .start (.text [])⟩, ⟨-1, .start (.text [])⟩, ⟨3, .start (.text ['-', '2'])⟩] ∧
      ((figure.bind fun a => pure (chainFrom figure differences 3 a)).run
          (.start (.text ['3', '-', '2']))).answer? =
        some [⟨1, .start (.text [])⟩, ⟨-1, .start (.text [])⟩, ⟨3, .start (.text ['-', '2'])⟩] := by
  have hfigure : figure.Shortens := Shortens.mapValue ((shortens_accept _).label _) _
  have hsign : (char (.char '-')).Shortens := shortens_char _
  have hlink : (differences.pair figure).Shortens :=
    (shortens_choice (by simpa using ⟨hsign.mapValue _, hsign.mapValue _⟩)).pair hfigure
  have hop (inp : Input) : (differences.run inp).Ensures
      fun ss => ∀ s ∈ ss, Operator.IsDeterministic s.value := by
    apply ensures_choice
    intro q hq
    rcases List.mem_cons.1 hq with rfl | hq
    · refine Run.ensures_map fun ss r hr => ?_
      obtain ⟨s, _, rfl⟩ := List.mem_map.1 hr
      exact fun a b => ⟨some (a - b), fun _ => rfl⟩
    · rw [List.mem_singleton.1 hq]
      refine Run.ensures_map fun ss r hr => ?_
      obtain ⟨s, _, rfl⟩ := List.mem_map.1 hr
      exact fun a b => ⟨some (b - a), fun _ => rfl⟩
  have hdepth : (figure.run (.start (.text ['3', '-', '2']))).Ensures
      fun ss => ∀ s ∈ ss, s.rest.length < 3 := by
    have hlength : (Input.start (.text ['3', '-', '2'])).length = 3 := rfl
    exact (hfigure _).mono fun ss hss s hs => hlength ▸ hss s hs
  have hrun : ((figure.chainl1 differences).run (.start (.text ['3', '-', '2']))).answer? =
      some [⟨1, .start (.text [])⟩, ⟨-1, .start (.text [])⟩, ⟨3, .start (.text ['-', '2'])⟩] := by
    cbv
  have hsame := chainl1_answers_chainFrom hlink hop (.start (.text ['3', '-', '2'])) hdepth
  exact ⟨hlink, hop, hdepth, hrun, hsame.symm.trans hrun⟩

end Parser

end AllParses
