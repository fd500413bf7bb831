import AllParses.Parser.Chain
import AllParses.Proofs.Characters
import AllParses.Proofs.Count

/-!
# Parsing texts

`Ensures` says what is known of an answer. `Ends` says besides which errors may stand in its place;
a run that `Ends` although no error may do so has an answer. For a parser the judgement is about
texts. All tokens of a text are texts of one character, which no parser for characters objects to,
and every combinator leaves a text to those that come after it. So each of them ends in no other way
than its operands and the client's code do.
-/

namespace AllParses

variable {ε δ α β γ : Type} {errors : Error → Prop}

namespace Run

variable {P : α → Prop} {Q : β → Prop} {x : Run ε α}

/-- The run ends with an answer that has the property, or with one of the errors. -/
def Ends (errors : Error → Prop) (P : α → Prop) (x : Run ε α) : Prop :=
  match x.result with
  | .ok a => P a
  | .error e => errors e

theorem ends_pure {a : α} (h : P a) : (pure a : Run ε α).Ends errors P := h

theorem ends_raise {e : Error} (h : errors e) : (raise e : Run ε α).Ends errors P := h

theorem ends_emit (entry : ε) : (emit entry).Ends errors fun _ => True := trivial

theorem Ends.bind {f : α → Run ε β} (hx : x.Ends errors P)
    (hf : ∀ a, P a → (f a).Ends errors Q) : (x >>= f).Ends errors Q := by
  rcases x with ⟨log, e | a⟩
  · exact hx
  · exact hf a hx

theorem Ends.map {f : α → β} (hx : x.Ends errors P) (hf : ∀ a, P a → Q (f a)) :
    (f <$> x).Ends errors Q := by
  rw [map_eq_pure_bind]
  exact hx.bind fun a ha => ends_pure (hf a ha)

theorem Ends.mono {R : α → Prop} (hx : x.Ends errors P) (h : ∀ a, P a → R a) :
    x.Ends errors R := by
  rcases x with ⟨log, e | a⟩
  · exact hx
  · exact h a hx

theorem Ends.and_ensures {R : α → Prop} (hx : x.Ends errors P) (h : x.Ensures R) :
    x.Ends errors fun a => P a ∧ R a := by
  rcases x with ⟨log, e | a⟩
  · exact hx
  · exact ⟨hx, h a rfl⟩

theorem Ends.ensures (hx : x.Ends errors P) : x.Ensures P := by
  rcases x with ⟨log, e | a⟩
  · intro a ha
    cases ha
  · intro b hb
    cases hb
    exact hx

theorem Ends.mapLog (hx : x.Ends errors P) (f : ε → δ) : (x.mapLog f).Ends errors P := hx

theorem Ends.answers_or (hx : x.Ends errors P) :
    (∃ a, x.result = .ok a) ∨ ∃ e, x.result = .error e ∧ errors e := by
  rcases x with ⟨log, e | a⟩
  · exact .inr ⟨e, rfl, hx⟩
  · exact .inl ⟨a, rfl⟩

theorem ends_flatMap {f : α → Run ε (List β)} {as : List α}
    (h : ∀ a ∈ as, (f a).Ends errors fun bs => ∀ b ∈ bs, Q b) :
    (flatMap f as).Ends errors fun bs => ∀ b ∈ bs, Q b := by
  induction as with
  | nil => exact ends_pure (by simp)
  | cons a as ih =>
      rw [flatMap_cons]
      refine (h a (by simp)).bind fun xs hxs => ?_
      refine (ih fun b hb => h b (by simp [hb])).bind fun ys hys => ends_pure ?_
      intro b hb
      rcases List.mem_append.1 hb with hb | hb
      · exact hxs b hb
      · exact hys b hb

end Run

namespace Code

variable {P : α → Prop} {Q : β → Prop}

/-- The code answers, however many functions were made before. -/
def Returns (code : Code ε α) : Prop := ∀ made, ∃ q, (code.run made).result = .ok q

/-- However many functions were made before, the code ends with an answer that has the property, or
with one of the errors. -/
def Ends (errors : Error → Prop) (P : α → Prop) (code : Code ε α) : Prop :=
  ∀ made, (code.run made).Ends errors fun q => P q.1

theorem ends_pure {a : α} (h : P a) : (pure a : Code ε α).Ends errors P := fun _ => h

theorem Ends.bind {code : Code ε α} {f : α → Code ε β} (hcode : code.Ends errors P)
    (hf : ∀ a, P a → (f a).Ends errors Q) : (code >>= f).Ends errors Q :=
  fun made => (hcode made).bind fun q hq => hf q.1 hq q.2

/-- Code that returns ends with no error, and with what is known of its answers. -/
theorem Returns.ends {code : Code ε α} (hcode : code.Returns) (h : code.Ensures P) :
    code.Ends errors P := by
  intro made
  obtain ⟨q, hq⟩ := hcode made
  rw [Run.Ends, hq]
  exact h made q hq

theorem Ends.returns {code : Code ε α} (hcode : code.Ends (fun _ => False) P) : code.Returns := by
  intro made
  rcases (hcode made).answers_or with hanswer | ⟨e, -, he⟩
  · exact hanswer
  · exact he.elim

theorem Ends.noted {code : Code String α} (hcode : code.Ends errors P) :
    code.noted.Ends errors P :=
  fun made => (hcode made).mapLog Entry.note

end Code

/-! ## Texts -/

/-- The input is a text. -/
def Input.IsText (inp : Input) : Prop := ∃ cs, inp.sequence = .text cs

namespace Input

theorem IsText.withMade {inp : Input} (h : inp.IsText) (made : Nat) :
    (inp.withMade made).IsText := h

theorem IsText.of_next? {inp rest : Input} {token : Value} (hinp : inp.IsText)
    (h : inp.next? = some (token, rest)) : (∃ c, token = .char c) ∧ rest.IsText := by
  obtain ⟨cs, hcs⟩ := hinp
  rw [next?, hcs] at h
  cases cs with
  | nil => cases h
  | cons c cs =>
      cases h
      exact ⟨⟨c, rfl⟩, cs, rfl⟩

end Input

namespace Parser

variable {P : α → Prop} {Q : β → Prop} {R : γ → Prop}

/-- On every text the parser ends with one of the errors, or with values that have the property,
each of them in front of a text. -/
def EndsOnTexts (errors : Error → Prop) (P : α → Prop) (p : Parser α) : Prop :=
  ∀ inp, inp.IsText → (p.run inp).Ends errors fun successes =>
    ∀ s ∈ successes, P s.value ∧ s.rest.IsText

theorem EndsOnTexts.mono {p : Parser α} {P' : α → Prop} (hp : p.EndsOnTexts errors P)
    (h : ∀ a, P a → P' a) : p.EndsOnTexts errors P' :=
  fun inp hinp => (hp inp hinp).mono fun _ hs s hmem => ⟨h _ (hs s hmem).1, (hs s hmem).2⟩

theorem EndsOnTexts.any {p : Parser α} (hp : p.EndsOnTexts errors P) :
    p.EndsOnTexts errors fun _ => True := hp.mono fun _ _ => trivial

theorem EndsOnTexts.label {p : Parser α} (hp : p.EndsOnTexts errors P) (name : String) :
    (p.label name).EndsOnTexts errors P := hp

theorem EndsOnTexts.mapValue {p : Parser α} {f : α → β} (hp : p.EndsOnTexts errors P)
    (hf : ∀ a, P a → Q (f a)) : (p.mapValue f).EndsOnTexts errors Q := by
  intro inp hinp
  refine (hp inp hinp).map fun successes hs r hr => ?_
  obtain ⟨s, hmem, rfl⟩ := List.mem_map.1 hr
  exact ⟨hf _ (hs s hmem).1, (hs s hmem).2⟩

theorem EndsOnTexts.mapAny {p : Parser α} (hp : p.EndsOnTexts errors P) (f : α → β) :
    (p.mapValue f).EndsOnTexts errors fun _ => True := hp.mapValue fun _ _ => trivial

theorem endsOnTexts_ofCode {code : Code Entry (Parser α)}
    (hcode : code.Ends errors (EndsOnTexts errors P)) : (ofCode code).EndsOnTexts errors P :=
  fun inp hinp => (hcode inp.made).bind fun q hq => hq _ (hinp.withMade q.2)

/-! ### One token -/

theorem endsOnTexts_result {a : α} (h : P a) : (result a).EndsOnTexts errors P :=
  fun _ hinp => Run.ends_pure (by simpa using ⟨h, hinp⟩)

theorem endsOnTexts_zero : (zero : Parser α).EndsOnTexts errors P :=
  fun _ _ => Run.ends_pure (by simp)

theorem endsOnTexts_eof : eof.EndsOnTexts errors fun _ => True := by
  intro inp hinp
  refine Run.ends_pure ?_
  split
  · simpa using hinp
  · simp

/-- What is asked of a token of a text is asked of a character. -/
theorem endsOnTexts_accept {read : Value → Code Entry (Option α)}
    (hread : ∀ c, (read (.char c)).Ends errors fun found => ∀ a ∈ found, P a) :
    (accept read).EndsOnTexts errors P := by
  intro inp hinp
  rw [run_accept]
  split
  · exact Run.ends_pure (by simp)
  · next token rest hnext =>
      obtain ⟨⟨c, rfl⟩, hrest⟩ := hinp.of_next? hnext
      refine (hread c rest.made).bind fun q hq => Run.ends_pure fun s hs => ?_
      obtain ⟨a, ha, rfl⟩ := List.mem_map.1 hs
      exact ⟨hq a (by simpa using ha), hrest.withMade q.2⟩

theorem endsOnTexts_item : item.EndsOnTexts errors fun v => ∃ c, v = .char c := by
  intro inp hinp
  rw [run_item]
  refine Run.ends_pure fun s hs => ?_
  obtain ⟨next, hnext, rfl⟩ := List.mem_map.1 hs
  exact hinp.of_next? (Option.mem_toList.1 hnext)

theorem endsOnTexts_satisfy {test : Value → Code Entry Bool}
    (htest : ∀ c, (test (.char c)).Ends errors fun _ => True) :
    (satisfy test).EndsOnTexts errors fun v => ∃ c, v = .char c := by
  refine endsOnTexts_accept fun c => (htest c).bind fun passed _ => ?_
  cases passed with
  | false => exact Code.ends_pure (by simp)
  | true => exact Code.ends_pure fun v hv => ⟨c, (Option.some_inj.1 hv).symm⟩

theorem endsOnTexts_char (wanted : Value) :
    (char wanted).EndsOnTexts errors fun v => ∃ c, v = .char c :=
  (endsOnTexts_satisfy fun _ => Code.ends_pure trivial).label _

theorem endsOnTexts_oneOf (set : List Value) :
    (oneOf set).EndsOnTexts errors fun v => ∃ c, v = .char c :=
  (endsOnTexts_satisfy fun _ => Code.ends_pure trivial).label _

theorem endsOnTexts_noneOf (set : List Value) :
    (noneOf set).EndsOnTexts errors fun v => ∃ c, v = .char c :=
  (endsOnTexts_satisfy fun _ => Code.ends_pure trivial).label _

theorem endsOnTexts_charIn (cs : List Char) : (charIn cs).EndsOnTexts errors (· ∈ cs) :=
  endsOnTexts_accept fun _ => Code.ends_pure fun _ ha => List.mem_of_find?_eq_some ha

theorem endsOnTexts_ofClass (cls : TextClass) :
    (ofClass cls).EndsOnTexts errors fun _ => True :=
  (endsOnTexts_accept fun _ => Code.ends_pure fun _ _ => trivial).label _

/-! ### Sequences -/

theorem EndsOnTexts.bind {p : Parser α} {next : α → Code Entry (Parser β)}
    (hp : p.EndsOnTexts errors P)
    (hnext : ∀ a, P a → (next a).Ends errors (EndsOnTexts errors Q)) :
    (p.bind next).EndsOnTexts errors Q := by
  intro inp hinp
  refine (hp inp hinp).bind fun successes hs => Run.ends_flatMap fun s hmem => ?_
  obtain ⟨hvalue, hrest⟩ := hs s hmem
  exact endsOnTexts_ofCode (hnext s.value hvalue) s.rest hrest

theorem EndsOnTexts.map {p : Parser α} {f : α → Code Entry β} (hp : p.EndsOnTexts errors P)
    (hf : ∀ a, P a → (f a).Ends errors Q) : (p.map f).EndsOnTexts errors Q := by
  refine hp.bind fun a ha => ?_
  rw [map_eq_pure_bind]
  exact (hf a ha).bind fun b hb => Code.ends_pure (endsOnTexts_result hb)

theorem EndsOnTexts.pair {p : Parser α} {q : Parser β} (hp : p.EndsOnTexts errors P)
    (hq : q.EndsOnTexts errors Q) : (p.pair q).EndsOnTexts errors fun c => P c.1 ∧ Q c.2 :=
  hp.bind fun _ ha => Code.ends_pure <|
    hq.bind fun _ hb => Code.ends_pure (endsOnTexts_result ⟨ha, hb⟩)

theorem EndsOnTexts.keepRight {p : Parser α} {q : Parser β} (hp : p.EndsOnTexts errors P)
    (hq : q.EndsOnTexts errors Q) : (p.keepRight q).EndsOnTexts errors Q :=
  hp.bind fun _ _ => Code.ends_pure hq

theorem EndsOnTexts.keepLeft {p : Parser α} {q : Parser β} (hp : p.EndsOnTexts errors P)
    (hq : q.EndsOnTexts errors Q) : (p.keepLeft q).EndsOnTexts errors P :=
  hp.bind fun _ ha => Code.ends_pure <|
    hq.bind fun _ _ => Code.ends_pure (endsOnTexts_result ha)

theorem EndsOnTexts.between {opening : Parser β} {closing : Parser γ} {p : Parser α}
    (hopening : opening.EndsOnTexts errors Q) (hclosing : closing.EndsOnTexts errors R)
    (hp : p.EndsOnTexts errors P) : (between opening closing p).EndsOnTexts errors P :=
  hopening.keepRight (hp.keepLeft hclosing)

/-! ### Choices -/

theorem endsOnTexts_choice {ps : List (Parser α)} (hps : ∀ p ∈ ps, p.EndsOnTexts errors P) :
    (choice ps).EndsOnTexts errors P := by
  intro inp hinp
  rw [run_choice]
  exact Run.ends_flatMap fun p hp => hps p hp inp hinp

theorem EndsOnTexts.orElse {p q : Parser α} (hp : p.EndsOnTexts errors P)
    (hq : q.EndsOnTexts errors P) : (p.orElse q).EndsOnTexts errors P := by
  intro inp hinp
  refine (hp inp hinp).bind fun successes hs => ?_
  cases successes with
  | nil => exact hq inp hinp
  | cons s more => exact Run.ends_pure hs

theorem EndsOnTexts.first {p : Parser α} (hp : p.EndsOnTexts errors P) :
    p.first.EndsOnTexts errors P :=
  fun inp hinp => (hp inp hinp).map fun _ hs s hmem => hs s (List.mem_of_mem_take hmem)

theorem EndsOnTexts.option {p : Parser α} (hp : p.EndsOnTexts errors P) {a : α} (ha : P a) :
    (Parser.option a p).EndsOnTexts errors P :=
  endsOnTexts_choice (by simpa using ⟨hp, endsOnTexts_result ha⟩)

theorem EndsOnTexts.optional {p : Parser α} (hp : p.EndsOnTexts errors P) :
    p.optional.EndsOnTexts errors fun _ => True :=
  endsOnTexts_choice
    (by simpa using ⟨hp.keepRight (endsOnTexts_result trivial), endsOnTexts_result trivial⟩)

/-! ### Repetitions -/

theorem EndsOnTexts.many {p : Parser α} (hp : p.EndsOnTexts errors P) :
    p.many.EndsOnTexts errors fun as => ∀ a ∈ as, P a := by
  intro inp hinp
  induction hn : inp.length using Nat.strongRecOn generalizing inp with
  | ind n ih =>
      rw [run_many]
      apply (hp inp hinp).bind
      intro successes hs
      have hafter : ∀ s ∈ successes, (p.manyAfter inp s).Ends errors fun rs =>
          ∀ r ∈ rs, (∀ a ∈ r.value, P a) ∧ r.rest.IsText := by
        intro s hmem
        obtain ⟨hvalue, hrest⟩ := hs s hmem
        by_cases hle : inp.length ≤ s.rest.length
        · rw [manyAfter_of_le hle]
          exact (Run.ends_emit _).bind fun _ _ => Run.ends_pure (by simp)
        · rw [manyAfter_of_lt (by omega)]
          have hmany := ih s.rest.length (by omega) s.rest hrest rfl
          apply hmany.map
          intro more hmore r hr
          obtain ⟨t, ht, rfl⟩ := List.mem_map.1 hr
          obtain ⟨hvalues, hlast⟩ := hmore t ht
          exact ⟨by simpa [Success.map] using ⟨hvalue, hvalues⟩, hlast⟩
      apply (Run.ends_flatMap hafter).bind
      intro longer hlonger
      apply Run.ends_pure
      intro r hr
      rcases List.mem_append.1 hr with hr | hr
      · exact hlonger r hr
      · rw [List.mem_singleton.1 hr]
        exact ⟨by simp, hinp⟩

theorem endsOnTexts_cons {a : α} (ha : P a) {p : Parser (List α)}
    (hp : p.EndsOnTexts errors fun as => ∀ a ∈ as, P a) :
    (p.map fun as => pure (a :: as)).EndsOnTexts errors fun as => ∀ a ∈ as, P a :=
  hp.map fun _ has => Code.ends_pure (by simpa using ⟨ha, has⟩)

theorem EndsOnTexts.many1 {p : Parser α} (hp : p.EndsOnTexts errors P) :
    p.many1.EndsOnTexts errors fun as => ∀ a ∈ as, P a :=
  hp.bind fun _ ha => Code.ends_pure (endsOnTexts_cons ha hp.many)

theorem EndsOnTexts.sepBy1 {p : Parser α} {separator : Parser β} (hp : p.EndsOnTexts errors P)
    (hseparator : separator.EndsOnTexts errors Q) :
    (p.sepBy1 separator).EndsOnTexts errors fun as => ∀ a ∈ as, P a :=
  hp.bind fun _ ha => Code.ends_pure (endsOnTexts_cons ha (hseparator.keepRight hp).many)

theorem EndsOnTexts.sepBy {p : Parser α} {separator : Parser β} (hp : p.EndsOnTexts errors P)
    (hseparator : separator.EndsOnTexts errors Q) :
    (p.sepBy separator).EndsOnTexts errors fun as => ∀ a ∈ as, P a := by
  have hnone : (result []).EndsOnTexts errors fun as => ∀ a ∈ as, P a :=
    endsOnTexts_result (by simp)
  exact endsOnTexts_choice (by simpa using ⟨hp.sepBy1 hseparator, hnone⟩)

theorem EndsOnTexts.extendTimes {p : Parser α} (hp : p.EndsOnTexts errors P) (n : Nat)
    {partials : List (Success (List α))}
    (h : ∀ s ∈ partials, (∀ a ∈ s.value, P a) ∧ s.rest.IsText) :
    (extendTimes p n partials).Ends errors fun successes =>
      ∀ s ∈ successes, (∀ a ∈ s.value, P a) ∧ s.rest.IsText := by
  induction n generalizing partials with
  | zero => exact Run.ends_pure h
  | succ n ih =>
      have hextend : (extend p partials).Ends errors fun successes =>
          ∀ s ∈ successes, (∀ a ∈ s.value, P a) ∧ s.rest.IsText := by
        apply Run.ends_flatMap
        intro s hs
        obtain ⟨hvalues, hrest⟩ := h s hs
        apply (hp s.rest hrest).map
        intro successes hnext r hr
        obtain ⟨t, ht, rfl⟩ := List.mem_map.1 hr
        obtain ⟨hvalue, hlast⟩ := hnext t ht
        refine ⟨fun a ha => ?_, hlast⟩
        rcases List.mem_append.1 ha with ha | ha
        · exact hvalues a ha
        · rw [List.mem_singleton.1 ha]
          exact hvalue
      rw [extendTimes_succ]
      exact hextend.bind fun _ hlonger => ih hlonger

theorem EndsOnTexts.count {p : Parser α} (hp : p.EndsOnTexts errors P) (n : Nat) :
    (count n p).EndsOnTexts errors fun as => ∀ a ∈ as, P a :=
  fun _ hinp => hp.extendTimes n (by simpa using hinp)

theorem EndsOnTexts.countOf {p : Parser α} (hp : p.EndsOnTexts errors P) (n : Int) :
    (countOf n p).Ensures (EndsOnTexts errors fun as => ∀ a ∈ as, P a) := by
  rw [Parser.countOf]
  split
  · exact Run.ensures_raise _ _
  · exact Run.ensures_pure (hp.count _)

/-! ### Chains -/

section Chains

variable {A : α → Prop} {O : Operator α → Prop}

theorem ends_foldLeft (happly : ∀ op a b, O op → A a → P b → (op a b).Ends errors A)
    {links : List (Operator α × α)} (hlinks : ∀ link ∈ links, O link.1 ∧ P link.2) {a : α}
    (ha : A a) : (foldLeft a links).Ends errors A := by
  induction links generalizing a with
  | nil => exact Code.ends_pure ha
  | cons link links ih =>
      obtain ⟨hop, hb⟩ := hlinks link (by simp)
      rw [foldLeft]
      exact (happly link.1 a link.2 hop ha hb).bind fun c hc =>
        ih (fun other hmem => hlinks other (by simp [hmem])) hc

theorem ends_foldRight (hoperand : ∀ a, P a → A a)
    (happly : ∀ op a c, O op → P a → A c → (op a c).Ends errors A)
    {links : List (Operator α × α)} (hlinks : ∀ link ∈ links, O link.1 ∧ P link.2) {a : α}
    (ha : P a) : (foldRight a links).Ends errors A := by
  induction links generalizing a with
  | nil => exact Code.ends_pure (hoperand a ha)
  | cons link links ih =>
      obtain ⟨hop, hb⟩ := hlinks link (by simp)
      rw [foldRight]
      exact (ih (fun other hmem => hlinks other (by simp [hmem])) hb).bind fun c hc =>
        happly link.1 a c hop ha hc

theorem EndsOnTexts.chainl1 {p : Parser α} {op : Parser (Operator α)}
    (hp : p.EndsOnTexts errors P) (hop : op.EndsOnTexts errors O) (hoperand : ∀ a, P a → A a)
    (happly : ∀ f a b, O f → A a → P b → (f a b).Ends errors A) :
    (p.chainl1 op).EndsOnTexts errors A :=
  hp.bind fun a ha => Code.ends_pure <|
    (hop.pair hp).many.map fun _ hlinks => ends_foldLeft happly hlinks (hoperand a ha)

theorem EndsOnTexts.chainr1 {p : Parser α} {op : Parser (Operator α)}
    (hp : p.EndsOnTexts errors P) (hop : op.EndsOnTexts errors O) (hoperand : ∀ a, P a → A a)
    (happly : ∀ f a c, O f → P a → A c → (f a c).Ends errors A) :
    (p.chainr1 op).EndsOnTexts errors A :=
  hp.bind fun _ ha => Code.ends_pure <|
    (hop.pair hp).many.map fun _ hlinks => ends_foldRight hoperand happly hlinks ha

end Chains

/-! ### Looking without consuming -/

theorem EndsOnTexts.lookAhead {p : Parser α} (hp : p.EndsOnTexts errors P) :
    p.lookAhead.EndsOnTexts errors P := by
  intro inp hinp
  refine (hp inp hinp).map fun successes hs r hr => ?_
  obtain ⟨s, hmem, rfl⟩ := List.mem_map.1 hr
  exact ⟨(hs s hmem).1, hinp.withMade s.rest.made⟩

theorem EndsOnTexts.notFollowedBy {p : Parser α} (hp : p.EndsOnTexts errors P) :
    p.notFollowedBy.EndsOnTexts errors fun _ => True := by
  intro inp hinp
  refine (hp inp hinp).map fun successes _ => ?_
  split
  · simpa using hinp
  · simp

theorem EndsOnTexts.trace {p : Parser α} (hp : p.EndsOnTexts errors P) (title : String) :
    (p.trace title).EndsOnTexts errors P := by
  intro inp hinp
  refine (Run.ends_emit _).bind fun _ _ => (hp inp hinp).bind fun successes hs => ?_
  exact (Run.ends_emit _).bind fun _ _ => Run.ends_pure hs

/-! ### Texts to be read -/

theorem ends_spell (value : α) (tokens : List Value) {inp : Input} (hinp : inp.IsText) :
    (spell value tokens inp).Ends errors fun successes =>
      ∀ s ∈ successes, s.value = value ∧ s.rest.IsText := by
  induction tokens generalizing inp with
  | nil => exact endsOnTexts_result (P := fun a => a = value) rfl inp hinp
  | cons wanted more ih =>
      rw [run_spell_cons]
      exact (endsOnTexts_char wanted inp hinp).bind fun successes hs =>
        Run.ends_flatMap fun s hmem => ih (hs s hmem).2

theorem ensures_string_endsOnTexts (whole : Value) :
    (string whole).Ensures (EndsOnTexts errors (· = whole)) := by
  rw [string]
  exact Run.ensures_bind fun tokens =>
    Run.ensures_pure fun _ hinp => ends_spell whole tokens hinp

theorem endsOnTexts_spaces : spaces.EndsOnTexts errors fun _ => True :=
  ((endsOnTexts_ofClass .blank).many.keepRight (endsOnTexts_result trivial)).label _

/-- The depth to which words are read is enough for each text. -/
theorem ends_wordWithin {depth : Nat} {inp : Input} (hinp : inp.IsText)
    (hdepth : inp.length < depth) : ((wordWithin depth).run inp).Ends errors fun successes =>
      ∀ s ∈ successes, s.rest.IsText := by
  induction depth generalizing inp with
  | zero => omega
  | succ depth ih =>
      rw [run_wordWithin_succ]
      have hletter : (letter.run inp).Ends errors fun successes =>
          (∀ s ∈ successes, True ∧ s.rest.IsText) ∧ ∀ s ∈ successes, s.rest.length < inp.length :=
        (endsOnTexts_ofClass .letter inp hinp).and_ensures (shortens_ofClass .letter inp)
      apply hletter.bind
      intro successes hs
      have hlonger : (Run.flatMap
          (fun s => List.map (Success.map (s.value ++ ·)) <$> (wordWithin depth).run s.rest)
          successes).Ends errors fun rs => ∀ r ∈ rs, r.rest.IsText := by
        apply Run.ends_flatMap
        intro s hmem
        have hlt := hs.2 s hmem
        have hword := ih (hs.1 s hmem).2 (by omega)
        apply hword.map
        intro more hmore r hr
        obtain ⟨t, ht, rfl⟩ := List.mem_map.1 hr
        exact hmore t ht
      apply hlonger.bind
      intro longer hrests
      apply Run.ends_pure
      simpa [or_imp, forall_and] using ⟨hrests, hinp⟩

theorem endsOnTexts_word : word.EndsOnTexts errors fun _ => True := by
  intro inp hinp
  exact (ends_wordWithin hinp (Nat.lt_succ_self _)).mono fun _ hs s hmem => ⟨trivial, hs s hmem⟩

end Parser

end AllParses
