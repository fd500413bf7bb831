import Mathlib
import AllParses.Parser.Outcome
import AllParses.Proofs.Folds
import AllParses.Proofs.Texts

/-!
# Longest first

A parser that gives the longest match first can be repeated and chained so that all results come
longest first, if only the first of its successes can be continued: what comes of that success
stands before the others, and leaves less than they do (`LeadsInto`). This is so for a parser that
succeeds at most once. Its repetitions are the beginnings of one chain of successes, the whole chain
first (`MaximalChain.result_many`). It is so, too, for a parser of numbers that gives every run of
digits, since no operator follows a run of digits that was cut short.
-/

namespace AllParses

variable {α β γ : Type}

/-- Every success leaves less than all that come after it. -/
def LongestFirst (ss : List (Success α)) : Prop :=
  ss.Pairwise fun s t => s.rest.length < t.rest.length

namespace LongestFirst

variable {ss : List (Success α)}

theorem of_length_le_one (h : ss.length ≤ 1) : LongestFirst ss := by
  match ss with
  | [] => exact .nil
  | [s] => exact List.pairwise_singleton _ s

theorem of_map_length {rs : List (Success β)} (hss : LongestFirst ss)
    (h : rs.map (fun r => r.rest.length) = ss.map fun s => s.rest.length) : LongestFirst rs := by
  have hlengths : (rs.map fun r => r.rest.length).Pairwise (· < ·) := by
    rw [h]
    exact List.pairwise_map.2 hss
  exact List.pairwise_map.1 hlengths

/-- Lists may stand in the places of the successes if each leaves no more than its success, and
those after the first leave no less, either. -/
theorem flatMap {g : Success α → List (Success β)} (hss : LongestFirst ss)
    (hg : ∀ s ∈ ss, LongestFirst (g s) ∧ ∀ r ∈ g s, r.rest.length ≤ s.rest.length)
    (hothers : ∀ s ∈ ss.tail, ∀ r ∈ g s, s.rest.length ≤ r.rest.length) :
    LongestFirst (ss.flatMap g) := by
  rw [LongestFirst, List.pairwise_flatMap]
  refine ⟨fun s hs => (hg s hs).1, ?_⟩
  cases ss with
  | nil => exact .nil
  | cons first others =>
      have hbetween : ∀ s ∈ first :: others, ∀ t ∈ others, s.rest.length < t.rest.length →
          ∀ r ∈ g s, ∀ r' ∈ g t, r.rest.length < r'.rest.length := by
        intro s hs t ht hlt r hr r' hr'
        have hle := (hg s hs).2 r hr
        have hle' := hothers t ht r' hr'
        omega
      obtain ⟨hfirst, hlast⟩ := List.pairwise_cons.1 hss
      refine .cons (fun t ht => hbetween first (by simp) t ht (hfirst t ht)) ?_
      exact hlast.imp_of_mem fun {s t} hs ht => hbetween s (by simp [hs]) t ht

/-- One more may be put behind all that leave less. -/
theorem concat (hss : LongestFirst ss) {last : Success α}
    (hlast : ∀ s ∈ ss, s.rest.length < last.rest.length) : LongestFirst (ss ++ [last]) := by
  rw [LongestFirst, List.pairwise_append]
  refine ⟨hss, List.pairwise_singleton _ last, ?_⟩
  simpa using hlast

/-- Only the first success can be a complete one. -/
theorem exists_eq_cons (hss : LongestFirst ss) {s : Success α} (hs : s ∈ ss)
    (hrest : s.rest.isEmpty = true) :
    ∃ others, ss = s :: others ∧ ∀ t ∈ others, ¬t.rest.isEmpty = true := by
  cases ss with
  | nil => cases hs
  | cons first others =>
      have hlater := (List.pairwise_cons.1 hss).1
      have hzero : s.rest.length = 0 := (Sequence.isEmpty_iff _).1 hrest
      obtain rfl : s = first := by
        rcases List.mem_cons.1 hs with rfl | hs
        · rfl
        · have hlt := hlater s hs
          omega
      refine ⟨others, rfl, fun t ht hempty => ?_⟩
      have hlt := hlater t ht
      have hnone : t.rest.length = 0 := (Sequence.isEmpty_iff _).1 hempty
      omega

theorem complete_eq_singleton (hss : LongestFirst ss) {s : Success α} (hs : s ∈ ss)
    (hrest : s.rest.isEmpty = true) : complete ss = [s.value] := by
  obtain ⟨others, rfl, hothers⟩ := hss.exists_eq_cons hs hrest
  rw [complete, List.filter_cons, if_pos hrest, List.filter_eq_nil_iff.2 hothers]
  rfl

/-- No success comes twice. -/
theorem eq_singleton (hss : LongestFirst ss) {s : Success α} (hs : s ∈ ss) (h : ∀ t ∈ ss, t = s) :
    ss = [s] := by
  match ss with
  | [] => cases hs
  | [t] => rw [h t (by simp)]
  | t :: t' :: ts =>
    have hlt := (List.pairwise_cons.1 hss).1 t' (by simp)
    rw [h t (by simp), h t' (by simp)] at hlt
    exact absurd hlt (Nat.lt_irrefl _)

end LongestFirst

namespace Parser

/-! ## Applying functions -/

theorem exists_result_map {p : Parser α} {f : α → Code Entry β} {inp : Input}
    {ss : List (Success α)} (hss : (p.run inp).result = .ok ss)
    (hf : ∀ s ∈ ss, (f s.value).Returns) :
    ∃ rs, ((p.map f).run inp).result = .ok rs ∧ List.Forall₂ (MadeFrom f) ss rs := by
  have heach : ∀ s ∈ ss, ∃ rs, (mapSuccess f s).result = .ok rs := by
    intro s hs
    obtain ⟨b, hb⟩ := hf s hs s.rest.made
    exact ⟨_, Run.result_bind_eq_ok_iff.2 ⟨b, hb, rfl⟩⟩
  obtain ⟨rs, hrs⟩ := Run.exists_result_flatMap_iff.2 heach
  refine ⟨rs, ?_, madeFrom_of_flatMap hrs⟩
  rw [run_map]
  exact Run.result_bind_eq_ok_iff.2 ⟨ss, hss, hrs⟩

theorem map_length_of_madeFrom {f : α → Code Entry β} {ss : List (Success α)}
    {rs : List (Success β)} (h : List.Forall₂ (MadeFrom f) ss rs) :
    rs.map (fun r => r.rest.length) = ss.map fun s => s.rest.length :=
  map_eq_of_madeFrom h fun _ _ _ hr => congrArg Sequence.length hr.1

/-! ## What only the first success leads to -/

/-- The successes come longest first and leave inputs of the domain; and the next parser finds
nothing after any of them but the first. -/
structure Leads (D : Input → Prop) (next : Parser β) (ss : List (Success α)) : Prop where
  longestFirst : LongestFirst ss
  mem : ∀ s ∈ ss, D s.rest
  others : ∀ s ∈ ss.tail, (next.run s.rest).result = .ok []

/-- On every input of the domain the parser answers, and at most its first success can be continued
by the next parser. -/
def LeadsInto (D : Input → Prop) (p : Parser α) (next : Parser β) : Prop :=
  ∀ inp, D inp → ∃ ss, (p.run inp).result = .ok ss ∧ Leads D next ss

theorem result_many_of_fails {p : Parser α} {inp : Input} (h : (p.run inp).result = .ok []) :
    (p.many.run inp).result = .ok [⟨[], inp⟩] := by
  rw [run_many, Run.result_bind_eq_ok_iff]
  exact ⟨[], h, rfl⟩

variable {D : Input → Prop} {p : Parser α} {link : Parser β} {inp : Input}

/-- What is made of all repetitions of the link, after each success, comes longest first. -/
theorem Leads.flatMap_many {ss : List (Success α)} (hss : Leads D link ss)
    (hmany : ∀ s ∈ ss, ∃ ms, (link.many.run s.rest).result = .ok ms ∧ LongestFirst ms ∧
      ∀ m ∈ ms, m.rest.length ≤ s.rest.length)
    {g : Success α → Run Entry (List (Success γ))}
    (hg : ∀ s ∈ ss, ∀ ms, (link.many.run s.rest).result = .ok ms → ∃ rs, (g s).result = .ok rs ∧
      rs.map (fun r => r.rest.length) = ms.map fun m => m.rest.length) :
    ∃ rs, (Run.flatMap g ss).result = .ok rs ∧ LongestFirst rs ∧
      ∀ r ∈ rs, ∃ s ∈ ss, r.rest.length ≤ s.rest.length := by
  have heach : ∀ s ∈ ss, ∃ rs, (g s).result = .ok rs := by
    intro s hs
    obtain ⟨ms, hms, -⟩ := hmany s hs
    obtain ⟨rs, hrs, -⟩ := hg s hs ms hms
    exact ⟨rs, hrs⟩
  have hanswers : ∀ s ∈ ss, LongestFirst (g s).answers ∧
      ∀ r ∈ (g s).answers, r.rest.length ≤ s.rest.length := by
    intro s hs
    obtain ⟨ms, hms, hlongest, hle⟩ := hmany s hs
    obtain ⟨rs, hrs, hlengths⟩ := hg s hs ms hms
    rw [Run.answers_of_result hrs]
    refine ⟨hlongest.of_map_length hlengths, fun r hr => ?_⟩
    have hmem : r.rest.length ∈ ms.map fun m => m.rest.length :=
      hlengths ▸ List.mem_map_of_mem hr
    obtain ⟨m, hm, hlength⟩ := List.mem_map.1 hmem
    have hrest := hle m hm
    omega
  -- after the others there is only the empty repetition, which leaves what they leave
  have hothers : ∀ s ∈ ss.tail, ∀ r ∈ (g s).answers, s.rest.length ≤ r.rest.length := by
    intro s hs r hr
    have hempty := result_many_of_fails (hss.others s hs)
    obtain ⟨rs, hrs, hlengths⟩ := hg s (List.mem_of_mem_tail hs) _ hempty
    rw [Run.answers_of_result hrs] at hr
    have hmem : r.rest.length ∈ rs.map fun r => r.rest.length := List.mem_map_of_mem hr
    rw [hlengths] at hmem
    exact (List.mem_singleton.1 hmem).ge
  refine ⟨_, Run.result_flatMap heach, hss.longestFirst.flatMap hanswers hothers, fun r hr => ?_⟩
  obtain ⟨s, hs, hr⟩ := List.mem_flatMap.1 hr
  exact ⟨s, hs, (hanswers s hs).2 r hr⟩

theorem LeadsInto.many (hlink : link.LeadsInto D link) (hshort : link.Shortens) (inp : Input)
    (hinp : D inp) :
    ∃ ms, (link.many.run inp).result = .ok ms ∧ LongestFirst ms ∧
      ∀ m ∈ ms, m.rest.length ≤ inp.length := by
  induction hn : inp.length using Nat.strongRecOn generalizing inp with
  | ind n ih =>
      obtain ⟨ss, hss, hleads⟩ := hlink inp hinp
      have hlt : ∀ s ∈ ss, s.rest.length < n := fun s hs => hn ▸ hshort inp ss hss s hs
      obtain ⟨longer, hlonger, hlongest, hle⟩ := hleads.flatMap_many
        (g := fun s => List.map (Success.map (s.value :: ·)) <$> link.many.run s.rest)
        (fun s hs => ih s.rest.length (hlt s hs) s.rest (hleads.mem s hs) rfl)
        (fun s _ ms hms => ⟨_, Run.result_map_eq_ok_iff.2 ⟨ms, hms, rfl⟩, by simp [Success.map]⟩)
      have hshorter : ∀ r ∈ longer, r.rest.length < n := by
        intro r hr
        obtain ⟨s, hs, hrest⟩ := hle r hr
        have hfirst := hlt s hs
        omega
      refine ⟨longer ++ [⟨[], inp⟩], ?_, ?_, ?_⟩
      · rw [hshort.run_many, Run.result_bind_eq_ok_iff]
        refine ⟨ss, hss, Run.result_bind_eq_ok_iff.2 ⟨longer, hlonger, rfl⟩⟩
      · exact hlongest.concat fun r hr => hn ▸ hshorter r hr
      · intro r hr
        rcases List.mem_append.1 hr with hr | hr
        · exact Nat.le_of_lt (hshorter r hr)
        · rw [List.mem_singleton.1 hr, hn]

/-- After an operand of which only the first success can be continued, all links are read and put
together: the results come longest first if the operand and the links do. -/
theorem LeadsInto.bind_many_map {f : α → List β → Code Entry γ} {P : β → Prop}
    (hp : p.LeadsInto D link) (hlink : link.LeadsInto D link) (hshort : link.Shortens)
    (hgives : link.Gives P) (hf : ∀ a bs, (∀ b ∈ bs, P b) → (f a bs).Returns)
    (inp : Input) (hinp : D inp) :
    ∃ ss rs, (p.run inp).result = .ok ss ∧
      ((p.bind fun a => pure (link.many.map (f a))).run inp).result = .ok rs ∧ LongestFirst rs ∧
      ∀ r ∈ rs, ∃ s ∈ ss, r.rest.length ≤ s.rest.length := by
  obtain ⟨ss, hss, hleads⟩ := hp inp hinp
  obtain ⟨rs, hrs, hlongest, hle⟩ := hleads.flatMap_many
    (g := fun s => (link.many.map (f s.value)).run s.rest)
    (fun s hs => hlink.many hshort s.rest (hleads.mem s hs))
    (fun s _ ms hms => by
      have hreturns : ∀ m ∈ ms, (f s.value m.value).Returns :=
        fun m hm => hf s.value m.value (hgives.many s.rest ms hms m hm)
      obtain ⟨rs, hrs, hmade⟩ := exists_result_map hms hreturns
      exact ⟨rs, hrs, map_length_of_madeFrom hmade⟩)
  refine ⟨ss, rs, hss, ?_, hlongest, hle⟩
  rw [run_bind, Run.result_bind_eq_ok_iff]
  exact ⟨ss, hss, hrs⟩

/-! ## At most one success -/

/-- On every input the parser answers, and with one success at the most. -/
def AtMostOnce (p : Parser α) : Prop :=
  ∀ inp, ∃ ss, (p.run inp).result = .ok ss ∧ ss.length ≤ 1

theorem atMostOnce_result (a : α) : (result a).AtMostOnce :=
  fun inp => ⟨[⟨a, inp⟩], rfl, Nat.le_refl 1⟩

theorem AtMostOnce.bind {next : α → Parser β} (hp : p.AtMostOnce)
    (hnext : ∀ a, (next a).AtMostOnce) : (p.bind fun a => pure (next a)).AtMostOnce := by
  intro inp
  simp only [run_bind, run_ofCode_pure, Run.result_bind_eq_ok_iff]
  obtain ⟨ss, hss, hlength⟩ := hp inp
  match ss with
  | [] => exact ⟨[], ⟨[], hss, rfl⟩, Nat.zero_le 1⟩
  | [s] =>
    obtain ⟨rs, hrs, hle⟩ := hnext s.value s.rest
    refine ⟨rs, ⟨[s], hss, ?_⟩, hle⟩
    simpa using hrs

theorem AtMostOnce.keepRight {q : Parser β} (hp : p.AtMostOnce) (hq : q.AtMostOnce) :
    (p.keepRight q).AtMostOnce := hp.bind fun _ => hq

theorem AtMostOnce.pair {q : Parser β} (hp : p.AtMostOnce) (hq : q.AtMostOnce) :
    (p.pair q).AtMostOnce :=
  hp.bind fun _ => hq.bind fun _ => atMostOnce_result _

theorem AtMostOnce.leadsInto (hp : p.AtMostOnce) (next : Parser β) :
    p.LeadsInto (fun _ => True) next := by
  intro inp _
  obtain ⟨ss, hss, hlength⟩ := hp inp
  have hothers : ss.tail = [] := by
    rw [← List.length_eq_zero_iff, List.length_tail]
    omega
  exact ⟨ss, hss, .of_length_le_one hlength, fun _ _ => trivial, by simp [hothers]⟩

/-! ## The chain of successes -/

/-- The first success is one on the input, each further one is on what the one before it has left,
and there is none on what the last one has left. -/
inductive MaximalChain (p : Parser α) : Input → List (Success α) → Prop where
  | stop {inp : Input} (hrun : (p.run inp).result = .ok []) : MaximalChain p inp []
  | step {inp : Input} {s : Success α} {ss : List (Success α)}
      (hrun : (p.run inp).result = .ok [s]) (hrest : MaximalChain p s.rest ss) :
      MaximalChain p inp (s :: ss)

/-- The values of successes one after the other, and what the last of them has left. -/
def reached (inp : Input) (ss : List (Success α)) : Success (List α) :=
  ⟨ss.map Success.value, (ss.getLast?.map Success.rest).getD inp⟩

theorem reached_cons (inp : Input) (s : Success α) (ss : List (Success α)) :
    reached inp (s :: ss) = (reached s.rest ss).map (s.value :: ·) := by
  simp [reached, List.getLast?_cons]

theorem exists_maximalChain (hp : p.AtMostOnce) (hshort : p.Shortens) (inp : Input) :
    ∃ chain, p.MaximalChain inp chain := by
  induction hn : inp.length using Nat.strongRecOn generalizing inp with
  | ind n ih =>
      obtain ⟨ss, hss, hlength⟩ := hp inp
      match ss with
      | [] => exact ⟨[], .stop hss⟩
      | [s] =>
        have hlt : s.rest.length < n := hn ▸ hshort inp [s] hss s (by simp)
        obtain ⟨chain, hchain⟩ := ih s.rest.length hlt s.rest rfl
        exact ⟨s :: chain, .step hss hchain⟩

namespace MaximalChain

variable {chain : List (Success α)}

theorem unique (h : p.MaximalChain inp chain) {other : List (Success α)}
    (hother : p.MaximalChain inp other) : other = chain := by
  induction h generalizing other with
  | stop hrun =>
      cases hother with
      | stop => rfl
      | step hrun' => cases hrun.symm.trans hrun'
  | step hrun _ ih =>
      cases hother with
      | stop hrun' => cases hrun.symm.trans hrun'
      | step hrun' hrest =>
          cases hrun.symm.trans hrun'
          rw [ih hrest]

/-- The repetitions are the beginnings of the chain, from the whole of it to the empty one. -/
theorem result_many (h : p.MaximalChain inp chain) (hshort : p.Shortens) :
    (p.many.run inp).result = .ok ((List.range (chain.length + 1)).map fun k =>
      reached inp (chain.take (chain.length - k))) := by
  induction h with
  | stop hrun => exact result_many_of_fails hrun
  | @step inp s ss hrun hrest ih =>
      have hlonger : (List.range (ss.length + 1)).map (fun k =>
            reached inp ((s :: ss).take (ss.length + 1 - k))) =
          ((List.range (ss.length + 1)).map fun k => reached s.rest (ss.take (ss.length - k))).map
            (Success.map (s.value :: ·)) := by
        rw [List.map_map]
        apply List.map_congr_left
        intro k hk
        have hk : k ≤ ss.length := Nat.le_of_lt_succ (List.mem_range.1 hk)
        rw [Nat.succ_sub hk, List.take_succ_cons, reached_cons]
        rfl
      rw [hshort.run_many, Run.result_bind_eq_ok_iff]
      refine ⟨[s], hrun, ?_⟩
      simp only [Run.flatMap_cons, Run.flatMap_nil, pure_bind, List.append_nil, bind_pure,
        Run.result_bind_eq_ok_iff, Run.result_map_eq_ok_iff]
      refine ⟨_, ⟨_, ih, rfl⟩, ?_⟩
      rw [← hlonger, List.length_cons, List.range_succ (n := ss.length + 1), List.map_append]
      simp [reached]

/-- The first of the repetitions is the greedy one. -/
theorem result_first_many (h : p.MaximalChain inp chain) (hshort : p.Shortens) :
    (p.many.first.run inp).result = .ok [reached inp chain] := by
  refine Run.result_map_eq_ok_iff.2 ⟨_, h.result_many hshort, ?_⟩
  rw [List.range_succ_eq_map]
  simp

end MaximalChain

/-! ## Repetitions, lists and chains -/

/-- The parser answers, and the results come longest first. -/
def AnswersLongestFirst (p : Parser α) (inp : Input) : Prop :=
  ∃ rs, (p.run inp).result = .ok rs ∧ LongestFirst rs

end Parser

/-- The operator returns for all operands. -/
def Operator.Returns (f : Operator α) : Prop := ∀ a b, (f a b).Returns

namespace Parser

variable {links : List (Operator α × α)}

theorem returns_foldLeft (a : α) (hlinks : ∀ l ∈ links, l.1.Returns) :
    (foldLeft a links).Returns := by
  have hends : (foldLeft a links).Ends (fun _ => False) fun _ => True := by
    apply ends_foldLeft (O := Operator.Returns) (P := fun _ => True)
    · intro f b c hf _ _
      exact (hf b c).ends fun _ _ _ => trivial
    · exact fun l hl => ⟨hlinks l hl, trivial⟩
    · exact trivial
  exact hends.returns

theorem returns_foldRight (a : α) (hlinks : ∀ l ∈ links, l.1.Returns) :
    (foldRight a links).Returns := by
  have hends : (foldRight a links).Ends (fun _ => False) fun _ => True := by
    apply ends_foldRight (O := Operator.Returns) (P := fun _ => True)
    · exact fun _ _ => trivial
    · intro f b c hf _ _
      exact (hf b c).ends fun _ _ _ => trivial
    · exact fun l hl => ⟨hlinks l hl, trivial⟩
    · exact trivial
  exact hends.returns

variable {p : Parser α} {separator : Parser β} {op : Parser (Operator α)} {inp : Input}

/-- An operand and links that succeed at most once are read and put together longest first. -/
theorem AtMostOnce.bind_many_map {link : Parser β} {f : α → List β → Code Entry γ} {P : β → Prop}
    (hp : p.AtMostOnce) (hpshort : p.Shortens) (hlink : link.AtMostOnce) (hshort : link.Shortens)
    (hgives : link.Gives P) (hf : ∀ a bs, (∀ b ∈ bs, P b) → (f a bs).Returns) (inp : Input) :
    ∃ rs, ((p.bind fun a => pure (link.many.map (f a))).run inp).result = .ok rs ∧
      LongestFirst rs ∧ ∀ r ∈ rs, r.rest.length < inp.length := by
  obtain ⟨ss, rs, hss, hrs, hlongest, hle⟩ := (hp.leadsInto link).bind_many_map
    (hlink.leadsInto link) hshort hgives hf inp trivial
  refine ⟨rs, hrs, hlongest, fun r hr => ?_⟩
  obtain ⟨s, hs, hrest⟩ := hle r hr
  have hlt := hpshort inp ss hss s hs
  omega

/-- If the parsers succeed at most once, and the repeated one always consumes something, then all
that is made by repetition comes strictly longest first. The repetitions themselves are the
beginnings of the only chain of successes that cannot be continued: the whole chain is the first of
them, and the only one that remains if but the first result is kept. -/
theorem repetitions_longest_first (hp : p.AtMostOnce) (hshort : p.Shortens)
    (hseparator : separator.AtMostOnce) (hseparatorLength : separator.NeverLengthens)
    (hop : op.AtMostOnce) (hopLength : op.NeverLengthens) (happly : op.Gives Operator.Returns)
    (inp : Input) :
    (∃ chain, p.MaximalChain inp chain ∧ (∀ other, p.MaximalChain inp other → other = chain) ∧
        (p.many.run inp).result = .ok ((List.range (chain.length + 1)).map fun k =>
          reached inp (chain.take (chain.length - k))) ∧
        (p.many.first.run inp).result = .ok [reached inp chain]) ∧
      p.many.AnswersLongestFirst inp ∧ p.many1.AnswersLongestFirst inp ∧
      (p.sepBy separator).AnswersLongestFirst inp ∧ (p.sepBy1 separator).AnswersLongestFirst inp ∧
      (p.chainl1 op).AnswersLongestFirst inp ∧ (p.chainr1 op).AnswersLongestFirst inp := by
  have hcons (a : α) (as : List α) : (pure (a :: as) : Code Entry (List α)).Returns :=
    fun made => ⟨(a :: as, made), rfl⟩
  have hany {γ : Type} (q : Parser γ) : q.Gives fun _ => True := fun _ _ _ _ _ => trivial
  have hlinks : (op.pair p).Gives fun l => l.1.Returns ∧ True := happly.pair (hany p)
  have hitem : (separator.keepRight p).AtMostOnce := hseparator.keepRight hp
  have hlink : (op.pair p).AtMostOnce := hop.pair hp
  have hitemShort : (separator.keepRight p).Shortens := hseparatorLength.keepRight hshort
  have hlinkShort : (op.pair p).Shortens := hopLength.pair hshort
  obtain ⟨items, hitems, hitemsFirst, hitemsLt⟩ := hp.bind_many_map hshort hitem hitemShort
    (hany _) (fun a as _ => hcons a as) inp
  refine ⟨?_, ?_, ?_, ?_, ⟨items, hitems, hitemsFirst⟩, ?_, ?_⟩
  · obtain ⟨chain, hchain⟩ := exists_maximalChain hp hshort inp
    exact ⟨chain, hchain, fun _ => hchain.unique, hchain.result_many hshort,
      hchain.result_first_many hshort⟩
  · obtain ⟨rs, hrs, hlongest, _⟩ := (hp.leadsInto p).many hshort inp trivial
    exact ⟨rs, hrs, hlongest⟩
  · obtain ⟨rs, hrs, hlongest, _⟩ := hp.bind_many_map hshort hp hshort (hany p)
      (fun a as _ => hcons a as) inp
    exact ⟨rs, hrs, hlongest⟩
  · refine ⟨items ++ [⟨[], inp⟩], ?_, hitemsFirst.concat hitemsLt⟩
    rw [sepBy, run_choice, Run.flatMap_cons, Run.result_bind_eq_ok_iff]
    exact ⟨items, hitems, rfl⟩
  · obtain ⟨rs, hrs, hlongest, _⟩ := hp.bind_many_map hshort hlink hlinkShort hlinks
      (fun a links h => returns_foldLeft a fun l hl => (h l hl).1) inp
    exact ⟨rs, hrs, hlongest⟩
  · obtain ⟨rs, hrs, hlongest, _⟩ := hp.bind_many_map hshort hlink hlinkShort hlinks
      (fun a links h => returns_foldRight a fun l hl => (h l hl).1) inp
    exact ⟨rs, hrs, hlongest⟩

theorem atMostOnce_char (wanted : Value) : (char wanted).AtMostOnce := by
  intro inp
  refine ⟨_, congrArg Run.result (run_char wanted inp), ?_⟩
  cases inp.next?.filter fun next => next.1 == wanted with
  | none => simp
  | some next => simp

theorem AtMostOnce.mapValue (hp : p.AtMostOnce) (f : α → β) : (p.mapValue f).AtMostOnce := by
  intro inp
  obtain ⟨ss, hss, hlength⟩ := hp inp
  exact ⟨_, Run.result_map_eq_ok_iff.2 ⟨ss, hss, rfl⟩, by simpa using hlength⟩

/-- A plus sign, which gives its left operand. -/
def leftOperand : Parser (Operator Value) := (char (.char '+')).mapValue fun _ a _ => pure a

theorem repetitions_longest_first_of_letters :
    (char (.char 'a')).AtMostOnce ∧ (char (.char 'a')).Shortens ∧ (char (.char ',')).AtMostOnce ∧
      (char (.char ',')).NeverLengthens ∧ leftOperand.AtMostOnce ∧ leftOperand.NeverLengthens ∧
      leftOperand.Gives Operator.Returns ∧
      (char (.char 'a')).MaximalChain (.start (.text ['a', 'a', '+', 'a']))
        [⟨.char 'a', .start (.text ['a', '+', 'a'])⟩, ⟨.char 'a', .start (.text ['+', 'a'])⟩] ∧
      ((char (.char 'a')).many.run (.start (.text ['a', 'a', '+', 'a']))).result =
        .ok [⟨[.char 'a', .char 'a'], .start (.text ['+', 'a'])⟩,
          ⟨[.char 'a'], .start (.text ['a', '+', 'a'])⟩,
          ⟨[], .start (.text ['a', 'a', '+', 'a'])⟩] ∧
      ((char (.char 'a')).many.first.run (.start (.text ['a', 'a', '+', 'a']))).result =
        .ok [⟨[.char 'a', .char 'a'], .start (.text ['+', 'a'])⟩] ∧
      ((char (.char 'a')).sepBy (char (.char ','))).AnswersLongestFirst
        (.start (.text ['a', 'a', '+', 'a'])) ∧
      ((char (.char 'a')).chainl1 leftOperand).AnswersLongestFirst
        (.start (.text ['a', 'a', '+', 'a'])) := by
  have hletter := atMostOnce_char (.char 'a')
  have hcomma := atMostOnce_char (.char ',')
  have hop : leftOperand.AtMostOnce := (atMostOnce_char _).mapValue _
  have hopShort : leftOperand.Shortens := (shortens_char _).mapValue _
  have happly : leftOperand.Gives Operator.Returns :=
    Gives.mapValue _ fun _ a _ made => ⟨(a, made), rfl⟩
  have hchain : (char (.char 'a')).MaximalChain (.start (.text ['a', 'a', '+', 'a']))
      [⟨.char 'a', .start (.text ['a', '+', 'a'])⟩, ⟨.char 'a', .start (.text ['+', 'a'])⟩] :=
    .step rfl (.step rfl (.stop rfl))
  obtain ⟨⟨chain, _, hunique, hmany, hfirst⟩, -, -, hsepBy, -, hchainl1, -⟩ :=
    repetitions_longest_first hletter (shortens_char _) hcomma (shortens_char _).neverLengthens hop
      hopShort.neverLengthens happly (.start (.text ['a', 'a', '+', 'a']))
  obtain rfl := hunique _ hchain
  exact ⟨hletter, shortens_char _, hcomma, (shortens_char _).neverLengthens, hop,
    hopShort.neverLengthens, happly, hchain, hmany, hfirst, hsepBy, hchainl1⟩

end Parser

end AllParses
