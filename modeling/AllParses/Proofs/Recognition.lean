import AllParses.Proofs.LongestFirst

/-!
# What a parser reads of a text

A parser recognizes a relation between values and texts if, on every text, its successes are just
the beginnings of the text that are in the relation with a value, each with that value and in front
of the rest of the text. What a parser recognizes follows from what its parts recognize.

Nothing is said of the order of the successes here. But if they come longest first, then each after
the first stops inside a longer match; and what cannot begin there does not continue it.
-/

namespace AllParses

variable {α β γ : Type}

namespace Parser

/-- The value is in the relation with a beginning of the text, and the rest of the text is left. -/
def Reads (R : α → List Char → Prop) (cs : List Char) (made : Nat) (s : Success α) : Prop :=
  ∃ u rest, R s.value u ∧ cs = u ++ rest ∧ s.rest = ⟨.text rest, made⟩

/-- On every text the parser answers, and its successes are all that can be read of the text. -/
def Recognizes (p : Parser α) (R : α → List Char → Prop) : Prop :=
  ∀ cs made, ∃ ss, (p.run ⟨.text cs, made⟩).result = .ok ss ∧ ∀ s, s ∈ ss ↔ Reads R cs made s

/-- What the parser answers on a text comes longest first. -/
def LongestOnTexts (p : Parser α) : Prop :=
  ∀ inp, inp.IsText → (p.run inp).Ensures LongestFirst

namespace Recognizes

variable {p : Parser α} {P P' : α → List Char → Prop}

theorem congr (hp : p.Recognizes P) (h : ∀ a u, P a u ↔ P' a u) : p.Recognizes P' := by
  intro cs made
  simpa only [Reads, h] using hp cs made

theorem label (hp : p.Recognizes P) (name : String) : (p.label name).Recognizes P := hp

/-! ## Sequences -/

theorem result (a : α) : (Parser.result a).Recognizes fun b u => b = a ∧ u = [] := by
  intro cs made
  refine ⟨[⟨a, ⟨.text cs, made⟩⟩], rfl, fun s => ?_⟩
  rw [List.mem_singleton]
  constructor
  · rintro rfl
    exact ⟨[], cs, ⟨rfl, rfl⟩, rfl, rfl⟩
  · rintro ⟨u, rest, ⟨rfl, rfl⟩, rfl, hrest⟩
    cases s
    cases hrest
    rfl

/-- If it is known what is read after each success, then the successes of all that is read are the
beginnings of the text that split into a first match and one after it. -/
theorem exists_result_flatMap {g : Success α → Run Entry (List (Success β))}
    {Q : α → β → List Char → Prop} {cs : List Char} {made : Nat} {ss : List (Success α)}
    (hmem : ∀ s, s ∈ ss ↔ Reads P cs made s)
    (hg : ∀ a u rest, P a u → cs = u ++ rest → ∃ rs,
      (g ⟨a, ⟨.text rest, made⟩⟩).result = .ok rs ∧ ∀ r, r ∈ rs ↔ Reads (Q a) rest made r) :
    ∃ rs, (Run.flatMap g ss).result = .ok rs ∧
      ∀ r, r ∈ rs ↔ Reads (fun b w => ∃ a u v, P a u ∧ Q a b v ∧ w = u ++ v) cs made r := by
  have hanswers : ∀ s ∈ ss, ∃ rs, (g s).result = .ok rs := by
    rintro ⟨a, last⟩ hs
    obtain ⟨u, rest, ha, hcs, rfl⟩ := (hmem _).1 hs
    obtain ⟨rs, hrs, -⟩ := hg a u rest ha hcs
    exact ⟨rs, hrs⟩
  refine ⟨_, Run.result_flatMap hanswers, fun r => ?_⟩
  rw [List.mem_flatMap]
  constructor
  · rintro ⟨⟨a, last⟩, hs, hr⟩
    obtain ⟨u, rest, ha, rfl, rfl⟩ := (hmem _).1 hs
    obtain ⟨rs, hrs, hmem'⟩ := hg a u rest ha rfl
    rw [Run.answers_of_result hrs] at hr
    obtain ⟨v, rest', hb, rfl, hrest'⟩ := (hmem' r).1 hr
    exact ⟨u ++ v, rest', ⟨a, u, v, ha, hb, rfl⟩, (List.append_assoc ..).symm, hrest'⟩
  · rintro ⟨w, rest', ⟨a, u, v, ha, hb, rfl⟩, rfl, hrest'⟩
    have hsplit : (u ++ v) ++ rest' = u ++ (v ++ rest') := List.append_assoc ..
    obtain ⟨rs, hrs, hmem'⟩ := hg a u (v ++ rest') ha hsplit
    refine ⟨⟨a, ⟨.text (v ++ rest'), made⟩⟩, (hmem _).2 ⟨u, _, ha, hsplit, rfl⟩, ?_⟩
    rw [Run.answers_of_result hrs]
    exact (hmem' r).2 ⟨v, rest', hb, rfl, hrest'⟩

/-- One after the other, where the second parser depends on the value of the first. -/
theorem bind {f : α → Code Entry (Parser β)} {Q : α → β → List Char → Prop}
    (hp : p.Recognizes P) (hf : ∀ a u, P a u → ∃ q, f a = pure q ∧ q.Recognizes (Q a)) :
    (p.bind f).Recognizes fun b w => ∃ a u v, P a u ∧ Q a b v ∧ w = u ++ v := by
  intro cs made
  obtain ⟨ss, hss, hmem⟩ := hp cs made
  obtain ⟨rs, hrs, hmem'⟩ := exists_result_flatMap (g := fun s => (ofCode (f s.value)).run s.rest)
    hmem fun a u rest ha _ => by
      obtain ⟨q, hq, hrec⟩ := hf a u ha
      rw [hq, run_ofCode_pure]
      exact hrec rest made
  refine ⟨rs, ?_, hmem'⟩
  rw [run_bind, Run.result_bind_eq_ok_iff]
  exact ⟨ss, hss, hrs⟩

theorem map {f : α → Code Entry β} {g : α → β} (hp : p.Recognizes P)
    (hf : ∀ a u, P a u → f a = pure (g a)) :
    (p.map f).Recognizes fun b u => ∃ a, P a u ∧ b = g a := by
  have hbind := hp.bind (f := fun a => Parser.result <$> f a)
    (Q := fun a b v => b = g a ∧ v = [])
    fun a u ha => ⟨Parser.result (g a), by rw [hf a u ha, map_pure], .result (g a)⟩
  apply hbind.congr
  intro b w
  constructor
  · rintro ⟨a, u, v, ha, ⟨rfl, rfl⟩, rfl⟩
    exact ⟨a, by rwa [List.append_nil], rfl⟩
  · rintro ⟨a, ha, rfl⟩
    exact ⟨a, w, [], ha, ⟨rfl, rfl⟩, (List.append_nil w).symm⟩

theorem pair {q : Parser β} {Q : β → List Char → Prop} (hp : p.Recognizes P)
    (hq : q.Recognizes Q) :
    (p.pair q).Recognizes fun c w => ∃ u v, P c.1 u ∧ Q c.2 v ∧ w = u ++ v := by
  have hright (a : α) : (q.map fun b => pure (a, b)).Recognizes
      fun c v => ∃ b, Q b v ∧ c = (a, b) := hq.map fun _ _ _ => rfl
  have hbind := hp.bind (f := fun a => pure (q.map fun b => pure (a, b)))
    fun a _ _ => ⟨_, rfl, hright a⟩
  apply hbind.congr
  rintro ⟨a, b⟩ w
  constructor
  · rintro ⟨_, u, v, ha, ⟨_, hb, ⟨⟩⟩, rfl⟩
    exact ⟨u, v, ha, hb, rfl⟩
  · rintro ⟨u, v, ha, hb, rfl⟩
    exact ⟨a, u, v, ha, ⟨b, hb, rfl⟩, rfl⟩

theorem keepRight {q : Parser β} {Q : β → List Char → Prop} (hp : p.Recognizes P)
    (hq : q.Recognizes Q) :
    (p.keepRight q).Recognizes fun b w => ∃ a u v, P a u ∧ Q b v ∧ w = u ++ v :=
  hp.bind fun _ _ _ => ⟨q, rfl, hq⟩

theorem keepLeft {q : Parser β} {Q : β → List Char → Prop} (hp : p.Recognizes P)
    (hq : q.Recognizes Q) :
    (p.keepLeft q).Recognizes fun a w => ∃ b u v, P a u ∧ Q b v ∧ w = u ++ v := by
  have hright (a : α) : (q.map fun _ => pure a).Recognizes fun a' v => ∃ b, Q b v ∧ a' = a :=
    hq.map fun _ _ _ => rfl
  have hbind := hp.bind (f := fun a => pure (q.map fun _ => pure a))
    fun a _ _ => ⟨_, rfl, hright a⟩
  apply hbind.congr
  intro a w
  constructor
  · rintro ⟨_, u, v, ha, ⟨b, hb, rfl⟩, rfl⟩
    exact ⟨b, u, v, ha, hb, rfl⟩
  · rintro ⟨b, u, v, ha, hb, rfl⟩
    exact ⟨a, u, v, ha, ⟨b, hb, rfl⟩, rfl⟩

/-! ## Repetitions -/

/-- One more value in front of all that is read. -/
theorem mem_map_cons_iff {R : List α → List Char → Prop} {rest : List Char} {made : Nat}
    {ms : List (Success (List α))} (a : α) (hms : ∀ m, m ∈ ms ↔ Reads R rest made m)
    (r : Success (List α)) :
    r ∈ ms.map (Success.map (a :: ·)) ↔
      Reads (fun as v => ∃ bs, as = a :: bs ∧ R bs v) rest made r := by
  rw [List.mem_map]
  constructor
  · rintro ⟨m, hm, rfl⟩
    obtain ⟨v, rest', hv, hsplit, hrest⟩ := (hms m).1 hm
    exact ⟨v, rest', ⟨m.value, rfl, hv⟩, hsplit, hrest⟩
  · obtain ⟨as, last⟩ := r
    rintro ⟨v, rest', ⟨bs, rfl, hv⟩, hsplit, rfl⟩
    exact ⟨⟨bs, ⟨.text rest', made⟩⟩, (hms _).2 ⟨v, rest', hv, hsplit, rfl⟩, rfl⟩

theorem many (hp : p.Recognizes P) (hshort : p.Shortens) :
    p.many.Recognizes fun as w => ∃ us, List.Forall₂ P as us ∧ w = us.flatten := by
  intro cs made
  -- on the length of the text: what is left after a first match is shorter
  induction hn : cs.length using Nat.strongRecOn generalizing cs with
  | ind n ih =>
      obtain ⟨ss, hss, hmem⟩ := hp cs made
      obtain ⟨rs, hrs, hlonger⟩ := exists_result_flatMap
        (g := fun s => List.map (Success.map (s.value :: ·)) <$> p.many.run s.rest)
        (Q := fun a as v => ∃ bs, as = a :: bs ∧ ∃ us, List.Forall₂ P bs us ∧ v = us.flatten)
        hmem fun a u rest ha hcs => by
          have hs : ⟨a, ⟨.text rest, made⟩⟩ ∈ ss := (hmem _).2 ⟨u, rest, ha, hcs, rfl⟩
          have hlt : rest.length < cs.length := hshort _ ss hss _ hs
          obtain ⟨ms, hms, hmore⟩ := ih rest.length (hn ▸ hlt) rest rfl
          exact ⟨_, Run.result_map_eq_ok_iff.2 ⟨ms, hms, rfl⟩, fun r => mem_map_cons_iff a hmore r⟩
      refine ⟨rs ++ [⟨[], ⟨.text cs, made⟩⟩], ?_, fun t => ?_⟩
      · rw [hshort.run_many, Run.result_bind_eq_ok_iff]
        exact ⟨ss, hss, Run.result_bind_eq_ok_iff.2 ⟨rs, hrs, rfl⟩⟩
      · rw [List.mem_append, List.mem_singleton, hlonger]
        constructor
        · rintro (⟨_, rest, ⟨a, u, _, ha, ⟨bs, hbs, us, hus, rfl⟩, rfl⟩, hcs, hrest⟩ | rfl)
          · exact ⟨u ++ us.flatten, rest, ⟨u :: us, hbs ▸ .cons ha hus, rfl⟩, hcs, hrest⟩
          · exact ⟨[], cs, ⟨[], .nil, rfl⟩, rfl, rfl⟩
        · obtain ⟨as, last⟩ := t
          rintro ⟨_, rest, ⟨us, has, rfl⟩, rfl, rfl⟩
          cases has with
          | nil => exact .inr rfl
          | @cons a u as us ha has =>
              exact .inl ⟨_, rest, ⟨a, u, us.flatten, ha, ⟨as, rfl, us, has, rfl⟩, rfl⟩, rfl, rfl⟩

/-- A value, and then any number of values of links. -/
theorem bind_many_cons {link : Parser α} {L : α → List Char → Prop} (hp : p.Recognizes P)
    (hlink : link.Recognizes L) (hshort : link.Shortens) :
    (p.bind fun a => pure (link.many.map fun as => pure (a :: as))).Recognizes fun as w =>
      ∃ a u bs us, P a u ∧ List.Forall₂ L bs us ∧ as = a :: bs ∧ w = u ++ us.flatten := by
  have hmore (a : α) := (hlink.many hshort).map (f := fun as => pure (a :: as)) fun _ _ _ => rfl
  have hbind := hp.bind (f := fun a => pure (link.many.map fun as => pure (a :: as)))
    fun a _ _ => ⟨_, rfl, hmore a⟩
  apply hbind.congr
  intro as w
  constructor
  · rintro ⟨a, u, v, ha, ⟨bs, ⟨us, hbs, rfl⟩, rfl⟩, rfl⟩
    exact ⟨a, u, bs, us, ha, hbs, rfl, rfl⟩
  · rintro ⟨a, u, bs, us, ha, hbs, rfl, rfl⟩
    exact ⟨a, u, us.flatten, ha, ⟨bs, ⟨us, hbs, rfl⟩, rfl⟩, rfl⟩

theorem many1 (hp : p.Recognizes P) (hshort : p.Shortens) :
    p.many1.Recognizes fun as w => ∃ us, List.Forall₂ P as us ∧ us ≠ [] ∧ w = us.flatten := by
  have hcons : p.many1.Recognizes _ := hp.bind_many_cons hp hshort
  apply hcons.congr
  intro as w
  constructor
  · rintro ⟨a, u, bs, us, ha, hbs, rfl, rfl⟩
    exact ⟨u :: us, .cons ha hbs, List.cons_ne_nil u us, rfl⟩
  · rintro ⟨us, has, hne, rfl⟩
    cases has with
    | nil => exact absurd rfl hne
    | @cons a u as us ha has => exact ⟨a, u, as, us, ha, has, rfl, rfl⟩

/-- If what is read is always the value and the text of something, then lists of values and texts
are those of a list of such things. -/
theorem forall₂_exists_iff {ι : Type} {f : ι → α} {g : ι → List Char} {as : List α}
    {us : List (List Char)} :
    List.Forall₂ (fun a u => ∃ x, a = f x ∧ u = g x) as us ↔
      ∃ xs : List ι, as = xs.map f ∧ us = xs.map g := by
  constructor
  · intro h
    induction h with
    | nil => exact ⟨[], rfl, rfl⟩
    | cons hx _ ih =>
        obtain ⟨x, rfl, rfl⟩ := hx
        obtain ⟨xs, rfl, rfl⟩ := ih
        exact ⟨x :: xs, rfl, rfl⟩
  · rintro ⟨xs, rfl, rfl⟩
    induction xs with
    | nil => exact .nil
    | cons x xs ih => exact .cons ⟨x, rfl, rfl⟩ ih

/-! ## The longest match -/

/-- If the next parser can never begin inside a match after a shorter one, then it can only go on
from the longest match. -/
theorem leadsInto {next : Parser β} {Q : β → List Char → Prop} (hp : p.Recognizes P)
    (hnext : next.Recognizes Q) (hlongest : p.LongestOnTexts)
    (hinside : ∀ a u a' c v, P a u → P a' (u ++ c :: v) →
      ∀ b w, Q b w → ∃ d w', w = d :: w' ∧ d ≠ c) :
    p.LeadsInto Input.IsText next := by
  rintro ⟨_, made⟩ ⟨cs, rfl⟩
  obtain ⟨ss, hss, hmem⟩ := hp cs made
  have horder := hlongest _ ⟨cs, rfl⟩ ss hss
  refine ⟨ss, hss, horder, ?_, ?_⟩
  · intro s hs
    obtain ⟨_, rest, -, -, hrest⟩ := (hmem s).1 hs
    exact hrest ▸ ⟨rest, rfl⟩
  cases ss with
  | nil => simp
  | cons first others =>
      intro s hs
      obtain ⟨longer, rest', ha', hcs', hrest'⟩ := (hmem first).1 (by simp)
      obtain ⟨u, rest, ha, hcs, hrest⟩ := (hmem s).1 (List.mem_cons_of_mem first hs)
      have hlt := (List.pairwise_cons.1 horder).1 s hs
      have hlength : rest'.length < rest.length := by
        rwa [hrest, hrest'] at hlt
      -- the first success has the longest match, and this one stops inside it
      obtain ⟨c, v, rfl, rfl⟩ : ∃ c v, longer = u ++ c :: v ∧ rest = c :: (v ++ rest') := by
        rcases List.append_eq_append_iff.1 (hcs'.symm.trans hcs) with ⟨v, rfl, rfl⟩ | ⟨v, rfl, rfl⟩
        · rw [List.length_append] at hlength
          omega
        · cases v with
          | nil => exact absurd hlength (lt_irrefl _)
          | cons c v => exact ⟨c, v, rfl, rfl⟩
      obtain ⟨ts, hts, hmem'⟩ := hnext (c :: (v ++ rest')) made
      have hnone : ts = [] := by
        rw [List.eq_nil_iff_forall_not_mem]
        intro t ht
        obtain ⟨w, last, hb, hsplit, -⟩ := (hmem' t).1 ht
        obtain ⟨d, w', rfl, hne⟩ := hinside _ u _ c v ha ha' _ w hb
        exact hne (List.cons.inj hsplit).1.symm
      rw [hrest, hts, hnone]

theorem longestOnTexts_bind (hp : p.Recognizes P) (honce : p.AtMostOnce) (next : α → Parser β)
    (hnext : ∀ a, (next a).LongestOnTexts) :
    (p.bind fun a => pure (next a)).LongestOnTexts := by
  rintro ⟨_, made⟩ ⟨cs, rfl⟩ us hus
  obtain ⟨ss, hss, hmem⟩ := hp cs made
  obtain ⟨ss', hss', hlength⟩ := honce ⟨.text cs, made⟩
  obtain rfl : ss = ss' := Except.ok.inj (hss.symm.trans hss')
  rw [run_bind] at hus
  obtain ⟨_, hss', hus⟩ := Run.result_bind_eq_ok_iff.1 hus
  cases hss.symm.trans hss'
  match ss with
  | [] =>
    cases hus
    exact .nil
  | [s] =>
    obtain ⟨_, rest, -, -, hrest⟩ := (hmem s).1 (by simp)
    simp only [Run.flatMap_cons, Run.flatMap_nil, pure_bind, List.append_nil, bind_pure,
      run_ofCode_pure] at hus
    exact hnext s.value s.rest ⟨rest, by rw [hrest]⟩ us hus

end Recognizes

theorem LongestOnTexts.label {p : Parser α} (hp : p.LongestOnTexts) (name : String) :
    (p.label name).LongestOnTexts := hp

theorem LongestOnTexts.map {p : Parser α} (hp : p.LongestOnTexts) (f : α → Code Entry β) :
    (p.map f).LongestOnTexts := by
  intro inp hinp rs hrs
  obtain ⟨ss, hss, hmade⟩ := madeFrom_of_map hrs
  exact (hp inp hinp ss hss).of_map_length (map_length_of_madeFrom hmade)

theorem Recognizes.longestOnTexts_pair {p : Parser α} {P : α → List Char → Prop} {q : Parser β}
    (hp : p.Recognizes P) (honce : p.AtMostOnce) (hq : q.LongestOnTexts) :
    (p.pair q).LongestOnTexts :=
  hp.longestOnTexts_bind honce (fun a => q.map fun b => pure (a, b)) fun _ => hq.map _

theorem Recognizes.longestOnTexts_keepRight {p : Parser α} {P : α → List Char → Prop}
    {q : Parser β} (hp : p.Recognizes P) (honce : p.AtMostOnce) (hq : q.LongestOnTexts) :
    (p.keepRight q).LongestOnTexts :=
  hp.longestOnTexts_bind honce (fun _ => q) fun _ => hq

theorem LeadsInto.longestOnTexts {p : Parser α} {link : Parser β} {f : α → List β → Code Entry γ}
    (hp : p.LeadsInto Input.IsText link) (hlink : link.LeadsInto Input.IsText link)
    (hshort : link.Shortens) (hf : ∀ a bs, (f a bs).Returns) :
    (p.bind fun a => pure (link.many.map (f a))).LongestOnTexts := by
  intro inp hinp rs hrs
  obtain ⟨_, rs', -, hrs', hlongest, -⟩ := hp.bind_many_map hlink hshort (P := fun _ => True)
    (fun _ _ _ _ _ => trivial) (fun a bs _ => hf a bs) inp hinp
  cases hrs.symm.trans hrs'
  exact hlongest

/-- What follows always takes the same number of characters, so the order stays. -/
theorem LongestOnTexts.keepLeft {p : Parser α} {P : α → List Char → Prop} {q : Parser β}
    {Q : β → List Char → Prop} {n : Nat} (hlongest : p.LongestOnTexts) (hp : p.Recognizes P)
    (hq : q.Recognizes Q) (honce : q.AtMostOnce) (hlength : ∀ b u, Q b u → u.length = n) :
    (p.keepLeft q).LongestOnTexts := by
  rintro ⟨_, made⟩ ⟨cs, rfl⟩ us hus
  obtain ⟨ss, hss, hmem⟩ := hp cs made
  have horder := hlongest _ ⟨cs, rfl⟩ ss hss
  rw [run_keepLeft] at hus
  obtain ⟨_, hss', hus⟩ := Run.result_bind_eq_ok_iff.1 hus
  cases hss.symm.trans hss'
  have hfollow : ∀ s ∈ ss, ∃ rs : List (Success α),
      (q.run s.rest >>= Run.flatMap fun t => pure [⟨s.value, t.rest⟩]).result = .ok rs ∧
      rs.length ≤ 1 ∧ ∀ r ∈ rs, r.rest.length + n = s.rest.length := by
    intro s hs
    obtain ⟨_, rest, -, -, hrest⟩ := (hmem s).1 hs
    obtain ⟨ts, hts, hle⟩ := honce s.rest
    refine ⟨ts.map fun t => ⟨s.value, t.rest⟩, ?_, by simpa using hle, ?_⟩
    · rw [Run.result_bind_eq_ok_iff]
      exact ⟨ts, hts, by rw [Run.flatMap_pure_singleton]; rfl⟩
    intro r hr
    obtain ⟨t, ht, rfl⟩ := List.mem_map.1 hr
    rw [hrest] at hts ⊢
    obtain ⟨ts', hts', hmem'⟩ := hq rest made
    cases hts.symm.trans hts'
    obtain ⟨u, rest', hu, rfl, hrest'⟩ := (hmem' t).1 ht
    show t.rest.length + n = (u ++ rest').length
    rw [hrest', List.length_append, hlength _ u hu]
    exact Nat.add_comm _ _
  have hanswers := Run.answers_flatMap ⟨us, hus⟩
  rw [Run.answers_of_result hus] at hanswers
  rw [hanswers, LongestFirst, List.pairwise_flatMap]
  constructor
  · intro s hs
    obtain ⟨rs, hrs, hle, -⟩ := hfollow s hs
    rw [Run.answers_of_result hrs]
    exact LongestFirst.of_length_le_one hle
  · refine horder.imp_of_mem fun {s t} hs ht hlt r hr r' hr' => ?_
    obtain ⟨rs, hrs, -, hleaves⟩ := hfollow s hs
    obtain ⟨rs', hrs', -, hleaves'⟩ := hfollow t ht
    rw [Run.answers_of_result hrs] at hr
    rw [Run.answers_of_result hrs'] at hr'
    have hlengths := hleaves r hr
    have hlengths' := hleaves' r' hr'
    omega

/-! ## Complete parses -/

/-- If the successes are all that can be read of the text, the longest first, then one of them is
complete if the whole text can be read, and none otherwise. -/
theorem complete_eq_of_reads {R : α → List Char → Prop} {cs : List Char} {made : Nat}
    {ss : List (Success α)} (hmem : ∀ s, s ∈ ss ↔ Reads R cs made s) (hss : LongestFirst ss) :
    (∀ a, R a cs → complete ss = [a]) ∧ ((∀ a, ¬R a cs) → complete ss = []) := by
  constructor
  · intro a ha
    have hs : ⟨a, ⟨.text [], made⟩⟩ ∈ ss :=
      (hmem _).2 ⟨cs, [], ha, (List.append_nil cs).symm, rfl⟩
    exact hss.complete_eq_singleton hs rfl
  · intro hnone
    rw [complete, List.map_eq_nil_iff, List.filter_eq_nil_iff]
    intro s hs hempty
    obtain ⟨u, rest, hu, rfl, hrest⟩ := (hmem s).1 hs
    rw [hrest] at hempty
    rw [List.isEmpty_iff.1 hempty, List.append_nil] at hnone
    exact hnone s.value hu

/-! ## One character -/

theorem flatten_map_singleton (cs : List Char) : (cs.map fun c => [c]).flatten = cs := by
  rw [← List.flatMap_def, List.flatMap_singleton']

theorem recognizes_accept {read : Value → Code Entry (Option α)} {g : Char → Option α}
    (h : ∀ c, read (.char c) = pure (g c)) :
    (accept read).Recognizes fun a u => ∃ c, g c = some a ∧ u = [c] := by
  intro cs made
  cases cs with
  | nil =>
      refine ⟨[], congrArg Run.result (run_accept read _), fun s => ?_⟩
      simp [Reads]
  | cons c cs =>
      have hrun : (accept read).run ⟨.text (c :: cs), made⟩ =
          pure ((g c).toList.map fun a => ⟨a, ⟨.text cs, made⟩⟩) := by
        rw [run_accept]
        show (read (.char c)).run made >>= _ = _
        rw [h]
        rfl
      refine ⟨_, congrArg Run.result hrun, fun s => ?_⟩
      rw [List.mem_map]
      constructor
      · rintro ⟨a, ha, rfl⟩
        exact ⟨[c], cs, ⟨c, Option.mem_toList.1 ha, rfl⟩, rfl, rfl⟩
      · obtain ⟨a, last⟩ := s
        rintro ⟨_, rest, ⟨c', ha, rfl⟩, hsplit, rfl⟩
        cases hsplit
        exact ⟨a, Option.mem_toList.2 ha, rfl⟩

theorem longestOnTexts_accept (read : Value → Code Entry (Option α)) :
    (accept read).LongestOnTexts := by
  intro inp _
  have hlength : ((accept read).run inp).Ensures fun ss => ss.length ≤ 1 := by
    rw [run_accept]
    cases inp.next? with
    | none => exact Run.ensures_pure (Nat.zero_le 1)
    | some next =>
        refine Run.ensures_bind fun q => Run.ensures_pure ?_
        cases q.1 <;> simp
  exact hlength.mono fun _ => .of_length_le_one

theorem char_beq_char (c d : Char) : (Value.char c == Value.char d) = (c == d) := by
  show (String.singleton c == String.singleton d) = (c == d)
  rw [Bool.eq_iff_iff, beq_iff_eq, beq_iff_eq]
  constructor
  · intro h
    simpa using congrArg String.toList h
  · rintro rfl
    rfl

theorem eq_char_of_beq {v : Value} {c : Char} (h : (v == Value.char c) = true) :
    v = Value.char c := by
  cases v with
  | str s =>
      have hs : s = String.singleton c := beq_iff_eq.1 h
      rw [hs, Value.char]
  | _ => cases h

theorem recognizes_satisfy {test : Value → Code Entry Bool} (holds : Char → Bool)
    (h : ∀ c, test (.char c) = pure (holds c)) :
    (satisfy test).Recognizes fun v u => ∃ c : {c // holds c = true}, v = .char c ∧ u = [c.1] := by
  have haccept : (satisfy test).Recognizes _ := recognizes_accept
    (g := fun c => if holds c then some (Value.char c) else none) fun c => by
      rw [h, pure_bind]
      cases holds c <;> rfl
  apply haccept.congr
  intro v u
  constructor
  · rintro ⟨c, hc, rfl⟩
    by_cases hholds : holds c
    · rw [if_pos hholds] at hc
      cases hc
      exact ⟨⟨c, hholds⟩, rfl, rfl⟩
    · rw [if_neg hholds] at hc
      cases hc
  · rintro ⟨c, rfl, rfl⟩
    exact ⟨c, if_pos c.2, rfl⟩

theorem recognizes_char (c : Char) :
    (char (.char c)).Recognizes fun v u => v = .char c ∧ u = [c] := by
  have hchar : (char (.char c)).Recognizes _ :=
    .label (recognizes_satisfy (· == c) fun d => by rw [char_beq_char]) _
  apply hchar.congr
  intro v u
  constructor
  · rintro ⟨⟨d, hd⟩, rfl, rfl⟩
    obtain rfl := beq_iff_eq.1 hd
    exact ⟨rfl, rfl⟩
  · rintro ⟨rfl, rfl⟩
    exact ⟨⟨c, beq_self_eq_true c⟩, rfl, rfl⟩

theorem recognizes_charIn (cs : List Char) :
    (charIn cs).Recognizes fun c u => c ∈ cs ∧ u = [c] := by
  have hfind (c : Char) : (cs.find? fun d => Value.char c == Value.char d) =
      if c ∈ cs then some c else none := by
    simp only [char_beq_char]
    induction cs with
    | nil => rfl
    | cons d ds ih =>
        rw [List.find?_cons]
        by_cases hcd : c = d
        · simp [hcd]
        · rw [beq_false_of_ne hcd, ih]
          simp [hcd]
  have haccept : (charIn cs).Recognizes _ := recognizes_accept
    (g := fun c => if c ∈ cs then some c else none) fun c => by
      rw [← hfind]
      rfl
  apply haccept.congr
  intro c u
  constructor
  · rintro ⟨d, hd, rfl⟩
    by_cases hmem : d ∈ cs
    · rw [if_pos hmem] at hd
      cases hd
      exact ⟨hmem, rfl⟩
    · rw [if_neg hmem] at hd
      cases hd
  · rintro ⟨hc, rfl⟩
    exact ⟨c, if_pos hc, rfl⟩

end Parser

end AllParses
