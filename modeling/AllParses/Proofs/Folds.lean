import AllParses.Proofs.Chains

/-!
# Folding from either side

A chain is the same chain from whichever side it is folded: an operand and all its links are read
first, and each way of reading them gives one value and leaves what it leaves. So the two kinds of
chain differ at most in the values of their results; and if all operators act as one associative
function, they do not differ at all.
-/

namespace AllParses

variable {α β γ : Type}

/-! ## What all values of a parser have in common -/

namespace Parser

/-- Every value that the parser gives has the property. -/
def Gives (P : α → Prop) (p : Parser α) : Prop :=
  ∀ inp, (p.run inp).Ensures fun ss => ∀ s ∈ ss, P s.value

variable {P : α → Prop} {Q : β → Prop}

theorem Gives.mapValue {p : Parser α} (f : α → β) (hf : ∀ a, Q (f a)) : (p.mapValue f).Gives Q := by
  intro inp
  refine Run.ensures_map fun ss r hr => ?_
  obtain ⟨s, _, rfl⟩ := List.mem_map.1 hr
  exact hf s.value

theorem gives_choice {ps : List (Parser α)} (hps : ∀ p ∈ ps, p.Gives P) : (choice ps).Gives P :=
  fun inp => ensures_choice fun p hp => hps p hp inp

theorem Gives.pair {p : Parser α} {q : Parser β} (hp : p.Gives P) (hq : q.Gives Q) :
    (p.pair q).Gives fun c => P c.1 ∧ Q c.2 :=
  ensures_pair hp hq

theorem Gives.many {p : Parser α} (hp : p.Gives P) : p.many.Gives fun as => ∀ a ∈ as, P a := by
  apply ensures_many (Q := fun _ r => ∀ a ∈ r.value, P a)
  · simp
  · intro inp ss hss s hs _ t ht a ha
    rcases List.mem_cons.1 ha with rfl | ha
    · exact hp inp ss hss s hs
    · exact ht a ha

/-! ## A chain before it is folded -/

/-- What is made of the second value when the first is there may be made of both at the end. -/
theorem run_bind_map_reordered_pair (p : Parser α) (q : Parser β) (f : α → β → Code Entry γ)
    (inp : Input) :
    Run.Reordered ((p.bind fun a => pure (q.map (f a))).run inp)
      (((p.pair q).map fun c => f c.1 c.2).run inp) := by
  have hpair := run_pair_flatMap_reordered p q (mapSuccess fun c => f c.1 c.2) inp
  calc (p.bind fun a => pure (q.map (f a))).run inp
    _ = p.run inp >>= Run.flatMap fun s => q.run s.rest >>= Run.flatMap fun t =>
          mapSuccess (fun c => f c.1 c.2) ⟨(s.value, t.value), t.rest⟩ := by
        simp only [run_bind, run_ofCode_pure, run_map]
        rfl
    Run.Reordered _ ((p.pair q).run inp >>= Run.flatMap (mapSuccess fun c => f c.1 c.2)) :=
        hpair.symm
    _ = ((p.pair q).map fun c => f c.1 c.2).run inp := by
        rw [run_map]
        rfl

/-- The success has what the code makes of the value of the other, and leaves the same. -/
def MadeFrom (f : α → Code Entry β) (s : Success α) (r : Success β) : Prop :=
  r.rest.sequence = s.rest.sequence ∧
    ∃ made, ((f s.value).run s.rest.made).result = .ok (r.value, made)

theorem madeFrom_of_flatMap {f : α → Code Entry β} {ss : List (Success α)} {rs : List (Success β)}
    (h : (Run.flatMap (mapSuccess f) ss).result = .ok rs) : List.Forall₂ (MadeFrom f) ss rs := by
  induction ss generalizing rs with
  | nil =>
      cases h
      exact .nil
  | cons s ss ih =>
      rw [Run.flatMap_cons] at h
      obtain ⟨bs, hbs, h⟩ := Run.result_bind_eq_ok_iff.1 h
      obtain ⟨cs, hcs, h⟩ := Run.result_bind_eq_ok_iff.1 h
      obtain ⟨b, hb, hbs⟩ := Run.result_bind_eq_ok_iff.1 hbs
      cases hbs
      cases h
      exact .cons ⟨rfl, b.2, hb⟩ (ih hcs)

theorem madeFrom_of_map {p : Parser α} {f : α → Code Entry β} {inp : Input}
    {rs : List (Success β)} (h : ((p.map f).run inp).result = .ok rs) :
    ∃ ss, (p.run inp).result = .ok ss ∧ List.Forall₂ (MadeFrom f) ss rs := by
  rw [run_map] at h
  obtain ⟨ss, hss, h⟩ := Run.result_bind_eq_ok_iff.1 h
  exact ⟨ss, hss, madeFrom_of_flatMap h⟩

theorem map_eq_of_madeFrom {δ : Type} {f : α → Code Entry β} {view : Success α → δ}
    {view' : Success β → δ} {ss : List (Success α)} {rs : List (Success β)}
    (h : List.Forall₂ (MadeFrom f) ss rs)
    (hview : ∀ s ∈ ss, ∀ r, MadeFrom f s r → view' r = view s) :
    rs.map view' = ss.map view := by
  induction h with
  | nil => rfl
  | cons head _ ih =>
      rw [List.map_cons, List.map_cons, hview _ (by simp) _ head,
        ih fun s hs => hview s (by simp [hs])]

end Parser

/-! ## Operators that act as one function -/

/-- On the set, whatever the operator answers is what the function gives. -/
def Operator.ActsAs (S : Set α) (mul : α → α → α) (f : Operator α) : Prop :=
  ∀ a ∈ S, ∀ b ∈ S, (f a b).Ensures (· = mul a b)

/-- The function does not lead out of the set, and is associative on it. -/
structure AssociativeOn (S : Set α) (mul : α → α → α) : Prop where
  mem : ∀ a ∈ S, ∀ b ∈ S, mul a b ∈ S
  assoc : ∀ a ∈ S, ∀ b ∈ S, ∀ c ∈ S, mul (mul a b) c = mul a (mul b c)

namespace AssociativeOn

variable {S : Set α} {mul : α → α → α} {links : List (Operator α × α)}

theorem foldl_mem (h : AssociativeOn S mul) {a : α} {as : List α} (ha : a ∈ S)
    (has : ∀ b ∈ as, b ∈ S) : as.foldl mul a ∈ S := by
  induction as generalizing a with
  | nil => exact ha
  | cons b bs ih => exact ih (h.mem a ha b (has b (by simp))) fun c hc => has c (by simp [hc])

/-- A left operand may be put in front of a whole fold. -/
theorem mul_foldl (h : AssociativeOn S mul) {a b : α} {bs : List α} (ha : a ∈ S) (hb : b ∈ S)
    (hbs : ∀ c ∈ bs, c ∈ S) : mul a (bs.foldl mul b) = bs.foldl mul (mul a b) := by
  induction bs generalizing b with
  | nil => rfl
  | cons c bs ih =>
      have hc : c ∈ S := hbs c (by simp)
      calc mul a (bs.foldl mul (mul b c))
        _ = bs.foldl mul (mul a (mul b c)) := ih (h.mem b hb c hc) fun d hd => hbs d (by simp [hd])
        _ = bs.foldl mul (mul (mul a b) c) := by rw [h.assoc a ha b hb c hc]

theorem ensures_foldLeft (h : AssociativeOn S mul) {a : α} (ha : a ∈ S)
    (hlinks : ∀ l ∈ links, l.1.ActsAs S mul ∧ l.2 ∈ S) :
    (foldLeft a links).Ensures (· = (links.map Prod.snd).foldl mul a) := by
  induction links generalizing a with
  | nil => exact Code.ensures_pure rfl
  | cons l links ih =>
      obtain ⟨f, b⟩ := l
      obtain ⟨hf, hb⟩ := hlinks (f, b) (by simp)
      apply (hf a ha b hb).bind
      rintro c rfl
      exact ih (h.mem a ha b hb) fun m hm => hlinks m (by simp [hm])

theorem ensures_foldRight (h : AssociativeOn S mul) {a : α} (ha : a ∈ S)
    (hlinks : ∀ l ∈ links, l.1.ActsAs S mul ∧ l.2 ∈ S) :
    (foldRight a links).Ensures (· = (links.map Prod.snd).foldl mul a) := by
  induction links generalizing a with
  | nil => exact Code.ensures_pure rfl
  | cons l links ih =>
      obtain ⟨f, b⟩ := l
      obtain ⟨hf, hb⟩ := hlinks (f, b) (by simp)
      have hoperands : ∀ c ∈ links.map Prod.snd, c ∈ S := by
        intro c hc
        obtain ⟨m, hm, rfl⟩ := List.mem_map.1 hc
        exact (hlinks m (by simp [hm])).2
      apply (ih hb fun m hm => hlinks m (by simp [hm])).bind
      rintro c rfl
      rw [List.map_cons, List.foldl_cons, ← h.mul_foldl ha hb hoperands]
      exact hf a ha _ (h.foldl_mem hb hoperands)

end AssociativeOn

namespace Parser

/-- Where both kinds of chain answer, they have equally many results, and results at the same place
leave the same. If, on a set that holds the operands, all operators act as one associative
function, then the results at the same place have the same value, too. -/
theorem folded_chains_agree {p : Parser α} {op : Parser (Operator α)} {inp : Input}
    {ls rs : List (Success α)} (hl : ((p.chainl1 op).run inp).result = .ok ls)
    (hr : ((p.chainr1 op).run inp).result = .ok rs) :
    (ls.map fun r => r.rest.sequence) = (rs.map fun r => r.rest.sequence) ∧
      ∀ (S : Set α) (mul : α → α → α), AssociativeOn S mul → p.Gives (· ∈ S) →
        op.Gives (Operator.ActsAs S mul) →
        (ls.map fun r => (r.value, r.rest.sequence)) =
          rs.map fun r => (r.value, r.rest.sequence) := by
  have hleft := run_bind_map_reordered_pair p (op.pair p).many foldLeft inp
  have hright := run_bind_map_reordered_pair p (op.pair p).many foldRight inp
  -- both kinds of chain read the same operands and links, and differ in the fold only
  obtain ⟨cs, hcs, hls⟩ := madeFrom_of_map (hleft.result_eq_ok hl)
  obtain ⟨cs', hcs', hrs⟩ := madeFrom_of_map (hright.result_eq_ok hr)
  obtain rfl : cs = cs' := Except.ok.inj (hcs.symm.trans hcs')
  constructor
  · have hview {fold : α × List (Operator α × α) → Code Entry α} :
        ∀ c ∈ cs, ∀ r, MadeFrom fold c r → r.rest.sequence = c.rest.sequence :=
      fun _ _ _ h => h.1
    rw [map_eq_of_madeFrom hls hview, map_eq_of_madeFrom hrs hview]
  · intro S mul hmul hp hop
    have hchains := (hp.pair (hop.pair hp).many) inp cs hcs
    have hview {fold : α × List (Operator α × α) → Code Entry α}
        (hfold : ∀ c ∈ cs, (fold c.value).Ensures
          (· = (c.value.2.map Prod.snd).foldl mul c.value.1)) :
        ∀ c ∈ cs, ∀ r, MadeFrom fold c r → (r.value, r.rest.sequence) =
          ((c.value.2.map Prod.snd).foldl mul c.value.1, c.rest.sequence) := by
      rintro c hc r ⟨hrest, made, hvalue⟩
      have hfolded := hfold c hc c.rest.made _ hvalue
      exact Prod.ext hfolded hrest
    rw [map_eq_of_madeFrom hls (hview fun c hc =>
        hmul.ensures_foldLeft (hchains c hc).1 (hchains c hc).2),
      map_eq_of_madeFrom hrs (hview fun c hc =>
        hmul.ensures_foldRight (hchains c hc).1 (hchains c hc).2)]

/-- A field that holds one of three letters. -/
def field : Parser (List Char) := (charIn ['a', 'b', 'c']).mapValue fun c => [c]

/-- A comma, which writes its operands with a comma between them, or a semicolon, which writes no
comma after an operand that is empty. -/
def joining : Parser (Operator (List Char)) :=
  choice
    [(char (.char ',')).mapValue fun _ a b => pure (a ++ [','] ++ b),
      (char (.char ';')).mapValue fun _ a b => pure (if a = [] then b else a ++ [','] ++ b)]

theorem folded_chains_agree_of_joining :
    ((field.chainl1 joining).run (.start (.text ['a', ',', 'b', ';', 'c']))).result =
        .ok [⟨['a', ',', 'b', ',', 'c'], .start (.text [])⟩,
          ⟨['a', ',', 'b'], .start (.text [';', 'c'])⟩,
          ⟨['a'], .start (.text [',', 'b', ';', 'c'])⟩] ∧
      AssociativeOn {w | w ≠ []} (fun a b => a ++ [','] ++ b) ∧
      field.Gives (· ∈ {w | w ≠ []}) ∧
      joining.Gives (Operator.ActsAs {w | w ≠ []} fun a b => a ++ [','] ++ b) ∧
      ∃ rs, ((field.chainr1 joining).run (.start (.text ['a', ',', 'b', ';', 'c']))).result =
          .ok rs ∧
        (rs.map fun r => (r.value, r.rest.sequence)) =
          [(['a', ',', 'b', ',', 'c'], .text []), (['a', ',', 'b'], .text [';', 'c']),
            (['a'], .text [',', 'b', ';', 'c'])] := by
  have hl : ((field.chainl1 joining).run (.start (.text ['a', ',', 'b', ';', 'c']))).result =
      .ok [⟨['a', ',', 'b', ',', 'c'], .start (.text [])⟩,
        ⟨['a', ',', 'b'], .start (.text [';', 'c'])⟩,
        ⟨['a'], .start (.text [',', 'b', ';', 'c'])⟩] := by
    cbv
  have hr : ((field.chainr1 joining).run (.start (.text ['a', ',', 'b', ';', 'c']))).result =
      .ok [⟨['a', ',', 'b', ',', 'c'], .start (.text [])⟩,
        ⟨['a', ',', 'b'], .start (.text [';', 'c'])⟩,
        ⟨['a'], .start (.text [',', 'b', ';', 'c'])⟩] := by
    cbv
  have hmul : AssociativeOn {w | w ≠ []} fun a b : List Char => a ++ [','] ++ b :=
    ⟨fun a _ b _ => show a ++ [','] ++ b ≠ [] by simp, by simp⟩
  have hp : field.Gives (· ∈ {w | w ≠ []}) := Gives.mapValue _ fun c => List.cons_ne_nil c []
  have hop : joining.Gives (Operator.ActsAs {w | w ≠ []} fun a b => a ++ [','] ++ b) := by
    apply gives_choice
    intro q hq
    rcases List.mem_cons.1 hq with rfl | hq
    · exact Gives.mapValue _ fun _ a _ b _ => Code.ensures_pure rfl
    · rw [List.mem_singleton.1 hq]
      exact Gives.mapValue _ fun _ a ha b _ => Code.ensures_pure (if_neg ha)
  have hagree := (folded_chains_agree hl hr).2 {w | w ≠ []} _ hmul hp hop
  exact ⟨hl, hmul, hp, hop, _, hr, hagree.symm⟩

end Parser

end AllParses
