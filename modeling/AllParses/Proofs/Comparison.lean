import AllParses.Parser.Chain
import AllParses.Proofs.Characters
import AllParses.Proofs.Count

/-!
# Comparing two parses

What is claimed of two parses at once, of the same parser on two inputs or of two parsers on the
same input, is shown in one way: a relation between the two runs that is kept by each step of the
one in company with the same step of the other is kept by every combinator of the library. A
`Comparison` is such a relation. It says which inputs correspond, which runs do, what names may
differ, and whether the second parse may find successes that the first one lacks; its laws say that
sequences of corresponding runs correspond. What follows for parsers is shown here for each
combinator, once for all comparisons.
-/

namespace AllParses

variable {α α' β β' γ γ' : Type}

/-- The lists have corresponding elements in the same order. If gaps are allowed, the second list
may have others in between. -/
inductive Aligned (gaps : Prop) (R : α → β → Prop) : List α → List β → Prop where
  | nil : Aligned gaps R [] []
  | cons {a : α} {b : β} {as : List α} {bs : List β} (head : R a b)
      (tail : Aligned gaps R as bs) : Aligned gaps R (a :: as) (b :: bs)
  | gap {as : List α} {b : β} {bs : List β} (allowed : gaps) (tail : Aligned gaps R as bs) :
      Aligned gaps R as (b :: bs)

namespace Aligned

variable {gaps : Prop} {R : α → β → Prop} {S : α' → β' → Prop}

theorem singleton {a : α} {b : β} (h : R a b) : Aligned gaps R [a] [b] := .cons h .nil

theorem append {as cs : List α} {bs ds : List β} (h : Aligned gaps R as bs)
    (h' : Aligned gaps R cs ds) : Aligned gaps R (as ++ cs) (bs ++ ds) := by
  induction h with
  | nil => exact h'
  | cons head tail ih => exact .cons head ih
  | gap allowed tail ih => exact .gap allowed ih

theorem mono {R' : α → β → Prop} {as : List α} {bs : List β} (h : Aligned gaps R as bs)
    (hR : ∀ a b, R a b → R' a b) : Aligned gaps R' as bs := by
  induction h with
  | nil => exact .nil
  | cons head tail ih => exact .cons (hR _ _ head) ih
  | gap allowed tail ih => exact .gap allowed ih

theorem map {as : List α} {bs : List β} {f : α → α'} {g : β → β'} (h : Aligned gaps R as bs)
    (hfg : ∀ a b, R a b → S (f a) (g b)) : Aligned gaps S (as.map f) (bs.map g) := by
  induction h with
  | nil => exact .nil
  | cons head tail ih => exact .cons (hfg _ _ head) ih
  | gap allowed tail ih => exact .gap allowed ih

theorem of_forall₂ {as : List α} {bs : List β} (h : List.Forall₂ R as bs) :
    Aligned gaps R as bs := by
  induction h with
  | nil => exact .nil
  | cons head _ ih => exact .cons head ih

/-- Without gaps the lists correspond element by element. -/
theorem forall₂ (hgaps : ¬gaps) {as : List α} {bs : List β} (h : Aligned gaps R as bs) :
    List.Forall₂ R as bs := by
  induction h with
  | nil => exact .nil
  | cons head tail ih => exact .cons head ih
  | gap allowed tail ih => exact absurd allowed hgaps

end Aligned

/-- A way to compare two parses. -/
structure Comparison where
  /-- Whether the second parse may find successes that the first one lacks. -/
  Gaps : Prop
  Inputs : Input → Input → Prop
  Names : Option String → Option String → Prop
  /-- The runs correspond, their answers by the relation. -/
  Runs : {α β : Type} → (α → β → Prop) → Run Entry α → Run Entry β → Prop
  runs_pure : ∀ {α β : Type} {R : α → β → Prop} {a : α} {b : β}, R a b → Runs R (pure a) (pure b)
  runs_bind : ∀ {α β γ δ : Type} {R : α → β → Prop} {S : γ → δ → Prop} {x : Run Entry α}
    {y : Run Entry β} {f : α → Run Entry γ} {g : β → Run Entry δ},
    Runs R x y → (∀ a b, R a b → Runs S (f a) (g b)) → Runs S (x >>= f) (y >>= g)
  /-- A run that only the second parse has, on a success that the first one lacks. -/
  runs_extra : ∀ {α β γ : Type} {S : α → γ → Prop} {x : Run Entry α} {y : Run Entry β}
    {g : β → Run Entry γ}, Gaps → (∀ b, Runs S x (g b)) → Runs S x (y >>= g)
  runs_note : ∀ {α : Type} (x : Run String α), Runs Eq (x.mapLog .note) (x.mapLog .note)
  runs_dropped : ∀ {α β : Type} {p : Parser α} {q : Parser β}, Names p.name q.name →
    Runs Eq (Run.emit (.dropped p.describe)) (Run.emit (.dropped q.describe))
  names_of_eq : ∀ {name name' : Option String}, name = name' → Names name name'
  inputs_made : ∀ {inp inp' : Input}, Inputs inp inp' → inp.made = inp'.made
  inputs_withMade : ∀ {inp inp' : Input} (made : Nat), Inputs inp inp' →
    Inputs (inp.withMade made) (inp'.withMade made)
  inputs_shorter : ∀ {inp inp' rest rest' : Input}, Inputs inp inp' → Inputs rest rest' →
    (rest.length < inp.length ↔ rest'.length < inp'.length)
  inputs_length : ∀ {inp inp' : Input}, ¬Gaps → Inputs inp inp' → inp.length = inp'.length
  inputs_next : ∀ {inp inp' : Input}, Inputs inp inp' →
    Aligned Gaps (fun s t => s.1 = t.1 ∧ Inputs s.2 t.2) inp.next?.toList inp'.next?.toList

namespace Comparison

variable (C : Comparison) {R : α → β → Prop} {S : α' → β' → Prop} {T : γ → γ' → Prop}

/-- Their values correspond by the relation, and what they left does. -/
def Successes (R : α → β → Prop) (s : Success α) (t : Success β) : Prop :=
  R s.value t.value ∧ C.Inputs s.rest t.rest

/-- Corresponding successes in the same order. -/
def Answers (R : α → β → Prop) : List (Success α) → List (Success β) → Prop :=
  Aligned C.Gaps (C.Successes R)

/-- The parsers run in correspondence on all inputs that correspond. -/
def Parsers (R : α → β → Prop) (p : Parser α) (q : Parser β) : Prop :=
  C.Names p.name q.name ∧
    ∀ inp inp', C.Inputs inp inp' → C.Runs (C.Answers R) (p.run inp) (q.run inp')

/-- The code runs in correspondence, and makes equally many functions. -/
def Codes (R : α → β → Prop) (code : Code Entry α) (code' : Code Entry β) : Prop :=
  ∀ made, C.Runs (fun a b => R a.1 b.1 ∧ a.2 = b.2) (code.run made) (code'.run made)

theorem names_refl (name : Option String) : C.Names name name := C.names_of_eq rfl

/-- Between parses of one input, answers that correspond without gaps are the same. -/
theorem eq_of_answers (hgaps : ¬C.Gaps) (hinputs : ∀ inp inp', C.Inputs inp inp' → inp = inp')
    {ss ts : List (Success α)} (h : C.Answers Eq ss ts) : ss = ts := by
  refine List.forall₂_eq_eq_eq ▸ (h.forall₂ hgaps).imp fun s t hst => ?_
  obtain ⟨value, rest⟩ := s
  obtain ⟨value', rest'⟩ := t
  obtain ⟨hvalue, hrest⟩ := hst
  rw [show value = value' from hvalue, hinputs rest rest' hrest]

/-! ## Runs -/

theorem runs_mono {x : Run Entry α} {y : Run Entry β} {R' : α → β → Prop} (h : C.Runs R x y)
    (hR : ∀ a b, R a b → R' a b) : C.Runs R' x y := by
  rw [← bind_pure x, ← bind_pure y]
  exact C.runs_bind h fun a b hab => C.runs_pure (hR a b hab)

theorem runs_map {x : Run Entry α} {y : Run Entry β} {f : α → α'} {g : β → β'} (h : C.Runs R x y)
    (hfg : ∀ a b, R a b → S (f a) (g b)) : C.Runs S (f <$> x) (g <$> y) := by
  rw [← bind_pure_comp, ← bind_pure_comp]
  exact C.runs_bind h fun a b hab => C.runs_pure (hfg a b hab)

theorem runs_raise (R : α → β → Prop) (e : Error) :
    C.Runs R (Run.raise e : Run Entry α) (Run.raise e : Run Entry β) := by
  have hnote := C.runs_note (Run.raise e : Run String Empty)
  have hbind := C.runs_bind (S := R) (f := Empty.elim) (g := Empty.elim) hnote fun a => a.elim
  simpa using hbind

theorem runs_getOrRaise (e : Error) (a : Option α) :
    C.Runs Eq (Run.getOrRaise e a : Run Entry α) (Run.getOrRaise e a) := by
  cases a with
  | none => exact C.runs_raise _ e
  | some a => exact C.runs_pure rfl

/-- The heart of every comparison: corresponding successes, each continued in the same way. -/
theorem runs_flatMap {f : α → Run Entry (List α')} {g : β → Run Entry (List β')} {as : List α}
    {bs : List β} (h : Aligned C.Gaps R as bs)
    (hfg : ∀ a b, R a b → C.Runs (Aligned C.Gaps S) (f a) (g b)) :
    C.Runs (Aligned C.Gaps S) (Run.flatMap f as) (Run.flatMap g bs) := by
  induction h with
  | nil => exact C.runs_pure .nil
  | cons head tail ih =>
      rw [Run.flatMap_cons, Run.flatMap_cons]
      refine C.runs_bind (hfg _ _ head) fun xs ys hxy => ?_
      exact C.runs_bind ih fun us vs huv => C.runs_pure (hxy.append huv)
  | @gap as b bs allowed tail ih =>
      -- what the extra success leads to stands in front of what corresponds
      rw [Run.flatMap_cons]
      refine C.runs_extra allowed fun ys => ?_
      rw [← bind_pure (Run.flatMap f as)]
      refine C.runs_bind ih fun us vs huv => C.runs_pure ?_
      induction ys with
      | nil => exact huv
      | cons y ys ihys => exact .gap allowed ihys

/-! ## Code -/

theorem codes_pure {a : α} {b : β} (h : R a b) : C.Codes R (pure a) (pure b) :=
  fun _ => C.runs_pure ⟨h, rfl⟩

theorem codes_raise (R : α → β → Prop) (e : Error) :
    C.Codes R (Code.raise e : Code Entry α) (Code.raise e : Code Entry β) :=
  fun _ => C.runs_raise _ e

theorem codes_getOrRaise (e : Error) (a : Option α) :
    C.Codes Eq (Code.getOrRaise e a : Code Entry α) (Code.getOrRaise e a) := by
  cases a with
  | none => exact C.codes_raise _ e
  | some a => exact C.codes_pure rfl

theorem codes_lift {x : Run Entry α} {y : Run Entry β} (h : C.Runs R x y) :
    C.Codes R (liftM x : Code Entry α) (liftM y : Code Entry β) :=
  fun _ => C.runs_bind h fun _ _ hab => C.runs_pure ⟨hab, rfl⟩

theorem codes_noted (code : Code String α) : C.Codes Eq code.noted code.noted :=
  fun made => C.runs_mono (C.runs_note (code.run made)) fun _ _ h => ⟨congrArg _ h, congrArg _ h⟩

variable {C}

theorem Codes.bind {code : Code Entry α} {code' : Code Entry β} {f : α → Code Entry α'}
    {g : β → Code Entry β'} (h : C.Codes R code code')
    (hfg : ∀ a b, R a b → C.Codes S (f a) (g b)) : C.Codes S (code >>= f) (code' >>= g) := by
  refine fun made => C.runs_bind (h made) fun q r hqr => ?_
  obtain ⟨a, n⟩ := q
  obtain ⟨b, n'⟩ := r
  obtain ⟨hab, rfl⟩ := hqr
  exact hfg a b hab n

theorem Codes.map {code : Code Entry α} {code' : Code Entry β} {f : α → α'} {g : β → β'}
    (h : C.Codes R code code') (hfg : ∀ a b, R a b → S (f a) (g b)) :
    C.Codes S (f <$> code) (g <$> code') := by
  rw [← bind_pure_comp, ← bind_pure_comp]
  exact h.bind fun a b hab => C.codes_pure (hfg a b hab)

/-! ## One token -/

variable (C)

theorem parsers_result {a : α} {b : β} (h : R a b) :
    C.Parsers R (Parser.result a) (Parser.result b) :=
  ⟨C.names_refl _, fun _ _ hinp => C.runs_pure (.singleton ⟨h, hinp⟩)⟩

theorem parsers_zero (R : α → β → Prop) : C.Parsers R Parser.zero Parser.zero :=
  ⟨C.names_refl _, fun _ _ _ => C.runs_pure .nil⟩

theorem parsers_item : C.Parsers Eq Parser.item Parser.item := by
  refine ⟨C.names_refl _, fun inp inp' hinp => ?_⟩
  rw [Parser.run_item, Parser.run_item]
  exact C.runs_pure ((C.inputs_next hinp).map fun _ _ h => h)

variable {C}

theorem Parsers.label {p : Parser α} {q : Parser β} (h : C.Parsers R p q) (name : String) :
    C.Parsers R (p.label name) (q.label name) :=
  ⟨C.names_refl _, h.2⟩

theorem Parsers.mapValue {p : Parser α} {q : Parser β} {f : α → α'} {g : β → β'}
    (h : C.Parsers R p q) (hfg : ∀ a b, R a b → S (f a) (g b)) :
    C.Parsers S (p.mapValue f) (q.mapValue g) := by
  refine ⟨h.1, fun inp inp' hinp => C.runs_map (h.2 inp inp' hinp) fun _ _ hst => ?_⟩
  exact hst.map fun s t hs => ⟨hfg _ _ hs.1, hs.2⟩

theorem Parsers.mapValue_eq {p q : Parser α} (h : C.Parsers Eq p q) (f : α → β) :
    C.Parsers Eq (p.mapValue f) (q.mapValue f) :=
  h.mapValue fun _ _ hab => congrArg f hab

/-- Parsers made by corresponding code, under any name. -/
theorem Codes.parsers {code : Code Entry (Parser α)} {code' : Code Entry (Parser β)}
    (h : C.Codes (C.Parsers R) code code') (name : Option String) :
    C.Parsers R ⟨name, (Parser.ofCode code).run⟩ ⟨name, (Parser.ofCode code').run⟩ := by
  refine ⟨C.names_refl _, fun inp inp' hinp => ?_⟩
  show C.Runs _ ((Parser.ofCode code).run inp) ((Parser.ofCode code').run inp')
  rw [Parser.run_ofCode, Parser.run_ofCode, C.inputs_made hinp]
  refine C.runs_bind (h inp'.made) fun q r hqr => ?_
  obtain ⟨p, made⟩ := q
  obtain ⟨p', made'⟩ := r
  obtain ⟨hp, rfl⟩ := hqr
  exact hp.2 _ _ (C.inputs_withMade made hinp)

/-! ## Sequences -/

theorem Parsers.bind {p : Parser α} {q : Parser β} {f : α → Code Entry (Parser α')}
    {g : β → Code Entry (Parser β')} (h : C.Parsers R p q)
    (hfg : ∀ a b, R a b → C.Codes (C.Parsers S) (f a) (g b)) :
    C.Parsers S (p.bind f) (q.bind g) := by
  refine ⟨C.names_refl _, fun inp inp' hinp => ?_⟩
  rw [Parser.run_bind, Parser.run_bind]
  refine C.runs_bind (h.2 inp inp' hinp) fun ss ts hst => C.runs_flatMap hst fun s t hs => ?_
  exact ((hfg _ _ hs.1).parsers none).2 _ _ hs.2

theorem parsers_accept {read : Value → Code Entry (Option α)}
    (hread : ∀ token, C.Codes Eq (read token) (read token)) :
    C.Parsers Eq (Parser.accept read) (Parser.accept read) := by
  refine Parsers.label (C.parsers_item.bind fun token _ htoken => ?_) "satisfy"
  subst htoken
  refine (hread token).bind fun found _ hfound => ?_
  subst hfound
  cases found with
  | none => exact C.codes_pure (C.parsers_zero Eq)
  | some a => exact C.codes_pure (C.parsers_result rfl)

theorem parsers_satisfy {test : Value → Code Entry Bool}
    (htest : ∀ token, C.Codes Eq (test token) (test token)) :
    C.Parsers Eq (Parser.satisfy test) (Parser.satisfy test) := by
  refine parsers_accept fun token => (htest token).bind fun passed _ hpassed => ?_
  subst hpassed
  cases passed with
  | false => exact C.codes_pure rfl
  | true => exact C.codes_pure rfl

theorem Parsers.map {p : Parser α} {q : Parser β} {f : α → Code Entry α'} {g : β → Code Entry β'}
    (h : C.Parsers R p q) (hfg : ∀ a b, R a b → C.Codes S (f a) (g b)) :
    C.Parsers S (p.map f) (q.map g) :=
  h.bind fun a b hab => (hfg a b hab).map fun _ _ hcd => C.parsers_result hcd

theorem Parsers.pair {p : Parser α} {p' : Parser β} {q : Parser α'} {q' : Parser β'}
    (hp : C.Parsers R p p') (hq : C.Parsers S q q') :
    C.Parsers (fun a b => R a.1 b.1 ∧ S a.2 b.2) (p.pair q) (p'.pair q') :=
  hp.bind fun _ _ hab => C.codes_pure <|
    hq.bind fun _ _ hcd => C.codes_pure (C.parsers_result ⟨hab, hcd⟩)

theorem Parsers.keepRight {p : Parser α} {p' : Parser β} {q : Parser α'} {q' : Parser β'}
    (hp : C.Parsers R p p') (hq : C.Parsers S q q') :
    C.Parsers S (p.keepRight q) (p'.keepRight q') :=
  hp.bind fun _ _ _ => C.codes_pure hq

theorem Parsers.keepLeft {p : Parser α} {p' : Parser β} {q : Parser α'} {q' : Parser β'}
    (hp : C.Parsers R p p') (hq : C.Parsers S q q') :
    C.Parsers R (p.keepLeft q) (p'.keepLeft q') :=
  hp.bind fun _ _ hab => C.codes_pure <|
    hq.bind fun _ _ _ => C.codes_pure (C.parsers_result hab)

theorem Parsers.between {opening : Parser α} {opening' : Parser β} {closing : Parser α'}
    {closing' : Parser β'} {p : Parser γ} {p' : Parser γ'} (hopening : C.Parsers R opening opening')
    (hclosing : C.Parsers S closing closing') (hp : C.Parsers T p p') :
    C.Parsers T (Parser.between opening closing p) (Parser.between opening' closing' p') :=
  hopening.keepRight (hp.keepLeft hclosing)

/-! ## Choices -/

theorem parsers_choice {ps : List (Parser α)} {qs : List (Parser β)}
    (h : List.Forall₂ (C.Parsers R) ps qs) :
    C.Parsers R (Parser.choice ps) (Parser.choice qs) := by
  refine ⟨?_, fun inp inp' hinp => ?_⟩
  · cases h with
    | nil => exact C.names_refl _
    | cons _ _ => exact C.names_refl _
  · rw [Parser.run_choice, Parser.run_choice]
    exact C.runs_flatMap (.of_forall₂ h) fun p q hpq => hpq.2 inp inp' hinp

theorem Parsers.option {p : Parser α} {q : Parser β} {a : α} {b : β} (h : C.Parsers R p q)
    (hab : R a b) : C.Parsers R (Parser.option a p) (Parser.option b q) :=
  parsers_choice (.cons h (.cons (C.parsers_result hab) .nil))

theorem Parsers.optional {p : Parser α} {q : Parser β} (h : C.Parsers R p q) :
    C.Parsers Eq p.optional q.optional :=
  have hresult := C.parsers_result (R := Eq) (a := ()) rfl
  parsers_choice (.cons (h.keepRight hresult) (.cons hresult .nil))

theorem Parsers.orElse {p p₂ : Parser α} {q q₂ : Parser β} (hgaps : ¬C.Gaps)
    (h : C.Parsers R p q) (h₂ : C.Parsers R p₂ q₂) :
    C.Parsers R (p.orElse p₂) (q.orElse q₂) := by
  refine ⟨C.names_refl _, fun inp inp' hinp => ?_⟩
  refine C.runs_bind (h.2 inp inp' hinp) fun ss ts hst => ?_
  cases hst with
  | nil => exact h₂.2 inp inp' hinp
  | cons head tail => exact C.runs_pure (.cons head tail)
  | gap allowed _ => exact absurd allowed hgaps

theorem Parsers.first {p : Parser α} {q : Parser β} (hgaps : ¬C.Gaps) (h : C.Parsers R p q) :
    C.Parsers R p.first q.first := by
  refine ⟨C.names_refl _, fun inp inp' hinp => C.runs_map (h.2 inp inp' hinp) fun ss ts hst => ?_⟩
  cases hst with
  | nil => exact .nil
  | cons head tail => exact .singleton head
  | gap allowed _ => exact absurd allowed hgaps

/-! ## Repetitions -/

/-- Both parses drop a success, or both follow it. -/
theorem Parsers.many {p : Parser α} {q : Parser β} (h : C.Parsers R p q) :
    C.Parsers (List.Forall₂ R) p.many q.many := by
  refine ⟨C.names_refl _, fun inp inp' hinp => ?_⟩
  induction hn : inp.length using Nat.strongRecOn generalizing inp inp' with
  | ind n ih =>
      rw [Parser.run_many, Parser.run_many]
      refine C.runs_bind (h.2 inp inp' hinp) fun ss ts hst => ?_
      refine C.runs_bind (R := C.Answers (List.Forall₂ R)) (C.runs_flatMap hst fun s t hs => ?_)
        fun ls ls' hls => C.runs_pure (hls.append (.singleton ⟨.nil, hinp⟩))
      obtain ⟨hvalue, hrest⟩ := hs
      have hshorter := C.inputs_shorter hinp hrest
      by_cases hlt : s.rest.length < inp.length
      · rw [Parser.manyAfter_of_lt hlt, Parser.manyAfter_of_lt (hshorter.1 hlt)]
        refine C.runs_map (ih s.rest.length (by omega) s.rest t.rest hrest rfl) fun ms ms' hms => ?_
        exact hms.map fun m m' hm => ⟨.cons hvalue hm.1, hm.2⟩
      · have hle' : inp'.length ≤ t.rest.length := by
          have hnot := mt hshorter.2 hlt
          omega
        rw [Parser.manyAfter_of_le (by omega), Parser.manyAfter_of_le hle']
        exact C.runs_bind (C.runs_dropped h.1) fun _ _ _ => C.runs_pure .nil

theorem Parsers.many1 {p : Parser α} {q : Parser β} (h : C.Parsers R p q) :
    C.Parsers (List.Forall₂ R) p.many1 q.many1 :=
  h.bind fun _ _ hab => C.codes_pure <|
    h.many.map fun _ _ hmore => C.codes_pure (.cons hab hmore)

theorem Parsers.sepBy1 {p : Parser α} {q : Parser β} {sep : Parser α'} {sep' : Parser β'}
    (h : C.Parsers R p q) (hsep : C.Parsers S sep sep') :
    C.Parsers (List.Forall₂ R) (p.sepBy1 sep) (q.sepBy1 sep') :=
  h.bind fun _ _ hab => C.codes_pure <|
    (hsep.keepRight h).many.map fun _ _ hmore => C.codes_pure (.cons hab hmore)

theorem Parsers.sepBy {p : Parser α} {q : Parser β} {sep : Parser α'} {sep' : Parser β'}
    (h : C.Parsers R p q) (hsep : C.Parsers S sep sep') :
    C.Parsers (List.Forall₂ R) (p.sepBy sep) (q.sepBy sep') :=
  parsers_choice (.cons (h.sepBy1 hsep) (.cons (C.parsers_result .nil) .nil))

theorem Parsers.extendTimes {p : Parser α} {q : Parser β} (h : C.Parsers R p q) (n : Nat)
    {ss : List (Success (List α))} {ts : List (Success (List β))}
    (hst : C.Answers (List.Forall₂ R) ss ts) :
    C.Runs (C.Answers (List.Forall₂ R)) (Parser.extendTimes p n ss)
      (Parser.extendTimes q n ts) := by
  induction n generalizing ss ts with
  | zero => exact C.runs_pure hst
  | succ n ih =>
      rw [Parser.extendTimes_succ, Parser.extendTimes_succ]
      refine C.runs_bind (C.runs_flatMap hst fun s t hs => ?_) fun us vs huv => ih huv
      refine C.runs_map (h.2 _ _ hs.2) fun us vs huv => huv.map fun u v hu => ⟨?_, hu.2⟩
      exact List.rel_append hs.1 (.cons hu.1 .nil)

theorem Parsers.count {p : Parser α} {q : Parser β} (h : C.Parsers R p q) (n : Nat) :
    C.Parsers (List.Forall₂ R) (Parser.count n p) (Parser.count n q) :=
  ⟨C.names_refl _, fun _ _ hinp => h.extendTimes n (.singleton ⟨.nil, hinp⟩)⟩

theorem Parsers.countOf {p : Parser α} {q : Parser β} (h : C.Parsers R p q) (n : Int) :
    C.Runs (C.Parsers (List.Forall₂ R)) (Parser.countOf n p) (Parser.countOf n q) := by
  rw [Parser.countOf, Parser.countOf]
  split
  · exact C.runs_raise _ _
  · exact C.runs_pure (h.count _)

/-! ## Chains -/

variable (C)

/-- The operators run in correspondence on corresponding operands. -/
def Operators (R : α → β → Prop) (f : Operator α) (g : Operator β) : Prop :=
  ∀ a b a' b', R a b → R a' b' → C.Codes R (f a a') (g b b')

variable {C}

theorem codes_foldLeft {a : α} {b : β} {links : List (Operator α × α)}
    {links' : List (Operator β × β)} (hab : R a b)
    (hlinks : List.Forall₂ (fun l m => C.Operators R l.1 m.1 ∧ R l.2 m.2) links links') :
    C.Codes R (foldLeft a links) (foldLeft b links') := by
  induction hlinks generalizing a b with
  | nil => exact C.codes_pure hab
  | cons head _ ih => exact (head.1 _ _ _ _ hab head.2).bind fun _ _ hcd => ih hcd

theorem codes_foldRight {a : α} {b : β} {links : List (Operator α × α)}
    {links' : List (Operator β × β)} (hab : R a b)
    (hlinks : List.Forall₂ (fun l m => C.Operators R l.1 m.1 ∧ R l.2 m.2) links links') :
    C.Codes R (foldRight a links) (foldRight b links') := by
  induction hlinks generalizing a b with
  | nil => exact C.codes_pure hab
  | cons head _ ih => exact (ih head.2).bind fun _ _ hcd => head.1 _ _ _ _ hab hcd

theorem Parsers.chainl1 {p : Parser α} {q : Parser β} {op : Parser (Operator α)}
    {op' : Parser (Operator β)} (h : C.Parsers R p q) (hop : C.Parsers (C.Operators R) op op') :
    C.Parsers R (p.chainl1 op) (q.chainl1 op') :=
  h.bind fun _ _ hab => C.codes_pure <|
    (hop.pair h).many.map fun _ _ hlinks => codes_foldLeft hab hlinks

theorem Parsers.chainr1 {p : Parser α} {q : Parser β} {op : Parser (Operator α)}
    {op' : Parser (Operator β)} (h : C.Parsers R p q) (hop : C.Parsers (C.Operators R) op op') :
    C.Parsers R (p.chainr1 op) (q.chainr1 op') :=
  h.bind fun _ _ hab => C.codes_pure <|
    (hop.pair h).many.map fun _ _ hlinks => codes_foldRight hab hlinks

/-! ## Looking without consuming -/

theorem parsers_eof (hgaps : ¬C.Gaps) : C.Parsers Eq Parser.eof Parser.eof := by
  refine ⟨C.names_refl _, fun inp inp' hinp => ?_⟩
  have hempty : inp.isEmpty = inp'.isEmpty := by
    rw [Bool.eq_iff_iff, Input.isEmpty, Input.isEmpty, Sequence.isEmpty_iff, Sequence.isEmpty_iff]
    exact iff_of_eq (congrArg (· = 0) (C.inputs_length hgaps hinp))
  refine C.runs_pure ?_
  rw [hempty]
  split
  · exact .singleton ⟨rfl, hinp⟩
  · exact .nil

theorem Parsers.lookAhead {p : Parser α} {q : Parser β} (h : C.Parsers R p q) :
    C.Parsers R p.lookAhead q.lookAhead := by
  refine ⟨C.names_refl _, fun inp inp' hinp => C.runs_map (h.2 inp inp' hinp) fun _ _ hst => ?_⟩
  refine hst.map fun s t hs => ⟨hs.1, ?_⟩
  rw [C.inputs_made hs.2]
  exact C.inputs_withMade _ hinp

theorem Parsers.notFollowedBy {p : Parser α} {q : Parser β} (hgaps : ¬C.Gaps)
    (h : C.Parsers R p q) : C.Parsers Eq p.notFollowedBy q.notFollowedBy := by
  refine ⟨C.names_refl _, fun inp inp' hinp => C.runs_map (h.2 inp inp' hinp) fun _ _ hst => ?_⟩
  cases hst with
  | nil => exact .singleton ⟨rfl, hinp⟩
  | cons _ _ => exact .nil
  | gap allowed _ => exact absurd allowed hgaps

/-! ## Characters and texts -/

variable (C)

theorem parsers_char (wanted : Value) : C.Parsers Eq (Parser.char wanted) (Parser.char wanted) :=
  (parsers_satisfy fun _ => C.codes_pure rfl).label _

theorem parsers_anyChar : C.Parsers Eq Parser.anyChar Parser.anyChar :=
  (parsers_satisfy fun _ => C.codes_pure rfl).label _

theorem runs_requireHashable (token : Value) :
    C.Runs Eq (Parser.requireHashable token) (Parser.requireHashable token) := by
  rw [Parser.requireHashable]
  split
  · exact C.runs_raise _ _
  · exact C.runs_pure rfl

theorem runs_setOf (v : Value) : C.Runs Eq (Parser.setOf v) (Parser.setOf v) := by
  refine C.runs_bind (C.runs_getOrRaise _ _) fun members _ hmembers => ?_
  subst hmembers
  split
  · exact C.runs_raise _ _
  · exact C.runs_pure rfl

theorem parsers_oneOf (set : List Value) : C.Parsers Eq (Parser.oneOf set) (Parser.oneOf set) :=
  (parsers_satisfy fun token =>
    (C.codes_lift (C.runs_requireHashable token)).bind fun _ _ _ => C.codes_pure rfl).label _

theorem parsers_noneOf (set : List Value) :
    C.Parsers Eq (Parser.noneOf set) (Parser.noneOf set) :=
  (parsers_satisfy fun token =>
    (C.codes_lift (C.runs_requireHashable token)).bind fun _ _ _ => C.codes_pure rfl).label _

theorem parsers_charIn (cs : List Char) : C.Parsers Eq (Parser.charIn cs) (Parser.charIn cs) :=
  parsers_accept fun token =>
    (C.codes_lift (C.runs_requireHashable token)).bind fun _ _ _ => C.codes_pure rfl

theorem parsers_ofClass (cls : TextClass) :
    C.Parsers Eq (Parser.ofClass cls) (Parser.ofClass cls) := by
  refine (parsers_accept fun token => ?_).label _
  cases token with
  | str s => exact C.codes_pure rfl
  | _ => exact C.codes_raise Eq _

theorem parsers_spaces : C.Parsers Eq Parser.spaces Parser.spaces :=
  ((C.parsers_ofClass .blank).many.keepRight (C.parsers_result rfl)).label _

theorem runs_spell (value : α) (tokens : List Value) {inp inp' : Input} (hinp : C.Inputs inp inp') :
    C.Runs (C.Answers Eq) (Parser.spell value tokens inp) (Parser.spell value tokens inp') := by
  induction tokens generalizing inp inp' with
  | nil => exact C.runs_pure (.singleton ⟨rfl, hinp⟩)
  | cons wanted more ih =>
      rw [Parser.run_spell_cons, Parser.run_spell_cons]
      refine C.runs_bind ((C.parsers_char wanted).2 inp inp' hinp) fun ss ts hst => ?_
      exact C.runs_flatMap hst fun s t hs => ih hs.2

theorem runs_string (whole : Value) :
    C.Runs (C.Parsers Eq) (Parser.string whole) (Parser.string whole) := by
  refine C.runs_bind (C.runs_getOrRaise _ _) fun tokens _ htokens => ?_
  subst htokens
  exact C.runs_pure ⟨C.names_refl _, fun _ _ hinp => C.runs_spell whole tokens hinp⟩

theorem parsers_wordWithin (depth : Nat) :
    C.Parsers Eq (Parser.wordWithin depth) (Parser.wordWithin depth) := by
  induction depth with
  | zero => exact ⟨C.names_refl _, fun _ _ _ => C.runs_raise _ _⟩
  | succ depth ih =>
      have hlonger := (C.parsers_ofClass .letter).bind (S := Eq) (g := fun c =>
          pure ((Parser.wordWithin depth).map fun more => pure (c ++ more))) fun c _ hc =>
        C.codes_pure (ih.map fun more _ hmore => C.codes_pure (by rw [hc, hmore]))
      exact (parsers_choice (.cons hlonger (.cons (C.parsers_result rfl) .nil))).label _

/-- Depth that is enough for one input need not be for the other, so both are read with depth that
is enough for either. -/
theorem parsers_word : C.Parsers Eq Parser.word Parser.word := by
  refine ⟨C.names_refl _, fun inp inp' hinp => ?_⟩
  have hlt : inp.length < max inp.length inp'.length + 1 := by omega
  have hlt' : inp'.length < max inp.length inp'.length + 1 := by omega
  rw [Parser.run_word_eq hlt, Parser.run_word_eq hlt']
  exact (C.parsers_wordWithin _).2 inp inp' hinp

end Comparison

end AllParses
