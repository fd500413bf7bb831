import Mathlib
import AllParses.Action
import AllParses.Proofs.Grammar
import AllParses.Proofs.Texts

/-!
# Failure is no error

A parser that finds no result says so by the empty list. On a text it does nothing else that a
caller would have to be ready for, as long as the client's code does its part: tests, functions on
values and operators return for all they are ever given, and what continuations and rules stand for
can be made. What they are given is what the parsers before them can answer, so code that is right
for numbers only may follow a parser that answers nothing but numbers.
-/

namespace AllParses

open AllParses.Parser

namespace Grammar

/-- The grammar can be made, whatever the uses of rules do. -/
def Builds (g : Grammar) : Prop := ∀ calls, (g.make calls).Returns

/-- What a chain can be folded to, by operators and operands of the kinds that are given: a single
operand, or what an operator answers. -/
inductive Folded (apply : Value → Value → Value → Code String Value)
    (IsOperator IsOperand : Value → Prop) : Value → Prop where
  | operand {v : Value} (isOperand : IsOperand v) : Folded apply IsOperator IsOperand v
  | applied {f acc v w : Value} {made made' : Nat} (isOperator : IsOperator f)
      (folded : Folded apply IsOperator IsOperand acc) (isOperand : IsOperand v)
      (answer : ((apply f acc v).run made).result = .ok (w, made')) :
      Folded apply IsOperator IsOperand w

/-- The operators are functions that return for all they are given when chains are folded. -/
def OperatorsReturn (apply : Value → Value → Value → Code String Value)
    (IsOperator IsOperand : Value → Prop) : Prop :=
  ∀ f acc v, IsOperator f → Folded apply IsOperator IsOperand acc → IsOperand v →
    (apply f acc v).Returns

section Chains

variable {errors : Error → Prop} {apply : Value → Value → Value → Code String Value}
  {IsOperator IsOperand : Value → Prop} {p op : Parser Value}

theorem OperatorsReturn.ends (h : OperatorsReturn apply IsOperator IsOperand) {f acc v : Value}
    (hf : IsOperator f) (hacc : Folded apply IsOperator IsOperand acc) (hv : IsOperand v) :
    (apply f acc v).noted.Ends errors (Folded apply IsOperator IsOperand) := by
  have hreturns := h f acc v hf hacc hv
  have hfolded : (apply f acc v).Ensures (Folded apply IsOperator IsOperand) :=
    fun _ _ answer => .applied hf hacc hv answer
  exact (hreturns.ends hfolded).noted

theorem endsOnTexts_operators (apply : Value → Value → Value → Code String Value)
    (hop : op.EndsOnTexts errors IsOperator) :
    (operators apply op).EndsOnTexts errors fun g =>
      ∃ f, IsOperator f ∧ g = fun a b => (apply f a b).noted :=
  hop.mapValue fun f hf => ⟨f, hf, rfl⟩

theorem OperatorsReturn.chainl1 (h : OperatorsReturn apply IsOperator IsOperand)
    (hp : p.EndsOnTexts errors IsOperand) (hop : op.EndsOnTexts errors IsOperator) :
    (p.chainl1 (operators apply op)).EndsOnTexts errors
      (Folded apply IsOperator IsOperand) := by
  have hoperators := endsOnTexts_operators apply hop
  apply hp.chainl1 hoperators fun _ hv => .operand hv
  rintro _ acc v ⟨f, hf, rfl⟩ hacc hv
  exact h.ends hf hacc hv

theorem OperatorsReturn.chainr1
    (h : OperatorsReturn (fun f acc v => apply f v acc) IsOperator IsOperand)
    (hp : p.EndsOnTexts errors IsOperand) (hop : op.EndsOnTexts errors IsOperator) :
    (p.chainr1 (operators apply op)).EndsOnTexts errors
      (Folded (fun f acc v => apply f v acc) IsOperator IsOperand) := by
  have hoperators := endsOnTexts_operators apply hop
  apply hp.chainr1 hoperators fun _ hv => .operand hv
  rintro _ v acc ⟨f, hf, rfl⟩ hv hacc
  exact h.ends hf hacc hv

end Chains

end Grammar

/-- A parser that is made for the grammar can answer the value on some text. -/
def Rules.Gives (rules : Rules) (g : Grammar) (v : Value) : Prop :=
  ∃ (depth made : Nat) (q : Parser Value × Nat) (inp : Input) (successes : List (Success Value)),
    ((g.make (rules.call depth)).run made).result = .ok q ∧ inp.IsText ∧
      (q.1.run inp).result = .ok successes ∧ ∃ s ∈ successes, s.value = v

namespace Grammar

/-- The client's part of the grammar does what is asked of it: tests return for every character,
functions for every value that the parser before them can give, operators for all that chains can
be folded to; what continues a value can be made, and so can what is deferred; and every name that
is used stands for a rule. -/
def Returns (rules : Rules) : Grammar → Prop
  | satisfy test => ∀ c, (test (.char c)).Returns
  | ref name => (rules.lookup name).isSome
  | after code next => code.Ensures fun v => (next v).Returns rules
  | deferred _ body => body.Builds ∧ body.Returns rules
  | bind p next =>
    p.Returns rules ∧ ∀ v, rules.Gives p v → (next v).Builds ∧ (next v).Returns rules
  | map f p => p.Returns rules ∧ ∀ v, rules.Gives p v → (f v).Returns
  | chainl1 apply p op =>
    p.Returns rules ∧ op.Returns rules ∧ OperatorsReturn apply (rules.Gives op) (rules.Gives p)
  | chainr1 apply p op =>
    p.Returns rules ∧ op.Returns rules ∧
      OperatorsReturn (fun f acc v => apply f v acc) (rules.Gives op) (rules.Gives p)
  | first p | option _ p | optional p | many p | many1 p | count _ p | lookAhead p
  | notFollowedBy p | trace _ p | label _ p => p.Returns rules
  | pair p q | keepRight p q | keepLeft p q | either p q | orElse p q | sepBy p q | sepBy1 p q =>
    p.Returns rules ∧ q.Returns rules
  | between p q r => p.Returns rules ∧ q.Returns rules ∧ r.Returns rules
  | _ => True
termination_by structural g => g

variable {errors : Error → Prop} {rules : Rules} {depth : Nat}

/-- What a parser answers is what its grammar can give. -/
theorem ensures_gives {g : Grammar} {P : Value → Prop}
    (h : (g.make (rules.call depth)).Ensures (EndsOnTexts errors P)) :
    (g.make (rules.call depth)).Ensures (EndsOnTexts errors (rules.Gives g)) := by
  intro made q hq inp hinp
  have hends := h made q hq inp hinp
  have hgives : (q.1.run inp).Ensures fun successes => ∀ s ∈ successes, rules.Gives g s.value :=
    fun successes hsuccesses s hs =>
      ⟨depth, made, q, inp, successes, hq, hinp, hsuccesses, s, hs, rfl⟩
  exact (hends.and_ensures hgives).mono fun _ hs s hmem => ⟨hs.2 s hmem, (hs.1 s hmem).2⟩

/-- What a map gives is what its function answers for something that is given to it. -/
theorem gives_of_map {f : Value → Code String Value} {p : Grammar} {w : Value}
    (h : rules.Gives (map f p) w) :
    ∃ v, rules.Gives p v ∧ ∃ made made', ((f v).run made).result = .ok (w, made') := by
  obtain ⟨depth, made, q, inp, successes, hq, hinp, hrun, r, hr, rfl⟩ := h
  obtain ⟨q', hq', hpure⟩ := Run.result_bind_eq_ok_iff.1 hq
  cases hpure
  rw [run_map] at hrun
  obtain ⟨ss, hss, hrun⟩ := Run.result_bind_eq_ok_iff.1 hrun
  have hanswers : ∀ r ∈ successes, ∃ s ∈ ss, ∃ made made',
      ((f s.value).run made).result = .ok (r.value, made') := by
    refine Run.ensures_flatMap (fun s hs => ?_) successes hrun
    refine Run.Ensures.bind (P := fun b => ((f s.value).run s.rest.made).result = .ok b)
      (fun b hb => hb) fun b hb => Run.ensures_pure ?_
    simpa using ⟨s, hs, _, _, hb⟩
  obtain ⟨s, hs, hanswer⟩ := hanswers r hr
  exact ⟨s.value, ⟨depth, made, q', inp, ss, hq', hinp, hss, s, hs, rfl⟩, hanswer⟩

/-- Whatever is known of the values of all parsers made for the grammar holds of what it gives. -/
theorem of_gives {g : Grammar} {P : Value → Prop}
    (h : ∀ depth, (g.make (rules.call depth)).Ensures (EndsOnTexts (fun _ => True) P))
    {v : Value} (hv : rules.Gives g v) : P v := by
  obtain ⟨depth, made, q, inp, successes, hq, hinp, hsuccesses, s, hs, rfl⟩ := hv
  exact ((h depth made q hq inp hinp).ensures successes hsuccesses s hs).1

/-- If the grammar is the use of a rule, then on texts the use ends with one of the errors, or with
any values. -/
def RefEnds (errors : Error → Prop) (rules : Rules) (depth : Nat) (g : Grammar) : Prop :=
  ∀ name, g = ref name → (rules.lookup name).isSome →
    (⟨some name, rules.call depth name⟩ : Parser Value).EndsOnTexts errors fun _ => True

theorem refEnds_of_not_isRef {g : Grammar} (hg : ¬g.IsRef) : g.RefEnds errors rules depth := by
  rintro name rfl
  exact absurd trivial hg

/-- Whatever parser is made for a grammar whose client does its part, and of which no part is made
by hand, ends on texts as the uses of rules in it do. -/
theorem ensures_make_endsOnTexts {g : Grammar}
    (hg : g.Everywhere fun h => ¬h.IsConstant ∧ h.RefEnds errors rules depth)
    (hreturns : g.Returns rules) :
    (g.make (rules.call depth)).Ensures (EndsOnTexts errors fun _ => True) := by
  induction g with
  | result v => exact Code.ensures_pure ((endsOnTexts_result trivial).label _)
  | zero => exact Code.ensures_pure endsOnTexts_zero
  | item => exact Code.ensures_pure endsOnTexts_item.any
  | eof => exact Code.ensures_pure (endsOnTexts_eof.mapAny _)
  | anyChar =>
      refine Code.ensures_pure (EndsOnTexts.label ?_ _)
      exact (endsOnTexts_satisfy fun _ => Code.ends_pure trivial).any
  | ofClass cls => exact Code.ensures_pure ((endsOnTexts_ofClass cls).mapAny _)
  | digit => exact Code.ensures_pure (((endsOnTexts_charIn _).label _).mapAny _)
  | hexDigit => exact Code.ensures_pure (((endsOnTexts_charIn _).label _).mapAny _)
  | spaces => exact Code.ensures_pure (endsOnTexts_spaces.mapAny _)
  | word => exact Code.ensures_pure (endsOnTexts_word.mapAny _)
  | char wanted => exact Code.ensures_pure (endsOnTexts_char wanted).any
  | string whole =>
      have hstring : (Parser.string whole).Ensures (EndsOnTexts errors fun v => v = whole) :=
        ensures_string_endsOnTexts whole
      exact Code.ensures_lift (hstring.mono fun _ hp => hp.any)
  | oneOf members =>
      exact Code.ensures_bind fun set => Code.ensures_pure (endsOnTexts_oneOf set).any
  | noneOf members =>
      exact Code.ensures_bind fun set => Code.ensures_pure (endsOnTexts_noneOf set).any
  | satisfy test =>
      have htest : ∀ c, (test (.char c)).noted.Ends errors fun _ => True :=
        fun c => ((hreturns c).ends fun _ _ _ => trivial).noted
      exact Code.ensures_pure (endsOnTexts_satisfy htest).any
  | constant name successes => exact absurd trivial hg.1
  | ref name => exact Code.ensures_pure (hg.2 name rfl hreturns)
  | after code next ih =>
      have hcode : code.noted.Ensures fun v => (next v).Returns rules := hreturns
      exact hcode.bind fun v hv => ih v (hg.2 v) hv
  | deferred name body ih =>
      have hmade := ih hg.2 hreturns.2
      have hbuilds := hreturns.1 (rules.call depth)
      exact Code.ensures_pure (endsOnTexts_ofCode (hbuilds.ends hmade))
  | bind p next ihp ihnext =>
      have hafter : ∀ v, rules.Gives p v →
          ((next v).make (rules.call depth)).Ends errors (EndsOnTexts errors fun _ => True) := by
        intro v hv
        obtain ⟨hbuilds, hnext⟩ := hreturns.2 v hv
        exact (hbuilds (rules.call depth)).ends (ihnext v (hg.2.2 v) hnext)
      exact (ensures_gives (ihp hg.2.1 hreturns.1)).map fun _ hp => hp.bind hafter
  | map f p ih =>
      have hf : ∀ v, rules.Gives p v → (f v).noted.Ends errors fun _ => True :=
        fun v hv => ((hreturns.2 v hv).ends fun _ _ _ => trivial).noted
      exact (ensures_gives (ih hg.2 hreturns.1)).map fun _ hp => hp.map hf
  | pair p q ihp ihq =>
      exact (ihp hg.2.1 hreturns.1).map₂ (ihq hg.2.2 hreturns.2) fun _ _ hp hq =>
        (hp.pair hq).mapAny _
  | keepRight p q ihp ihq =>
      exact (ihp hg.2.1 hreturns.1).map₂ (ihq hg.2.2 hreturns.2) fun _ _ hp hq => hp.keepRight hq
  | keepLeft p q ihp ihq =>
      exact (ihp hg.2.1 hreturns.1).map₂ (ihq hg.2.2 hreturns.2) fun _ _ hp hq => hp.keepLeft hq
  | between opening closing p ihopening ihclosing ihp =>
      exact (ihopening hg.2.1 hreturns.1).bind fun _ hopening =>
        (ihclosing hg.2.2.1 hreturns.2.1).map₂ (ihp hg.2.2.2 hreturns.2.2) fun _ _ hclosing hp =>
          hopening.between hclosing hp
  | either p q ihp ihq =>
      exact (ihp hg.2.1 hreturns.1).map₂ (ihq hg.2.2 hreturns.2) fun _ _ hp hq =>
        endsOnTexts_choice (by simpa using ⟨hp, hq⟩)
  | orElse p q ihp ihq =>
      exact (ihp hg.2.1 hreturns.1).map₂ (ihq hg.2.2 hreturns.2) fun _ _ hp hq => hp.orElse hq
  | first p ih => exact (ih hg.2 hreturns).map fun _ hp => hp.first
  | option v p ih => exact (ih hg.2 hreturns).map fun _ hp => hp.option trivial
  | optional p ih => exact (ih hg.2 hreturns).map fun _ hp => hp.optional.mapAny _
  | many p ih => exact (ih hg.2 hreturns).map fun _ hp => hp.many.mapAny _
  | many1 p ih => exact (ih hg.2 hreturns).map fun _ hp => hp.many1.mapAny _
  | count n p ih =>
      exact (ih hg.2 hreturns).bind fun _ hp => Code.ensures_bind fun k =>
        (Code.ensures_lift (hp.countOf k)).map fun _ h => h.mapAny _
  | sepBy p separator ihp ihq =>
      exact (ihp hg.2.1 hreturns.1).map₂ (ihq hg.2.2 hreturns.2) fun _ _ hp hq =>
        (hp.sepBy hq).mapAny _
  | sepBy1 p separator ihp ihq =>
      exact (ihp hg.2.1 hreturns.1).map₂ (ihq hg.2.2 hreturns.2) fun _ _ hp hq =>
        (hp.sepBy1 hq).mapAny _
  | chainl1 apply p op ihp ihop =>
      have hp := ensures_gives (ihp hg.2.1 hreturns.1)
      have hop := ensures_gives (ihop hg.2.2 hreturns.2.1)
      exact hp.map₂ hop fun _ _ hp hop => (hreturns.2.2.chainl1 hp hop).any
  | chainr1 apply p op ihp ihop =>
      have hp := ensures_gives (ihp hg.2.1 hreturns.1)
      have hop := ensures_gives (ihop hg.2.2 hreturns.2.1)
      exact hp.map₂ hop fun _ _ hp hop => (hreturns.2.2.chainr1 hp hop).any
  | lookAhead p ih => exact (ih hg.2 hreturns).map fun _ hp => hp.lookAhead
  | notFollowedBy p ih => exact (ih hg.2 hreturns).map fun _ hp => hp.notFollowedBy.mapAny _
  | trace title p ih => exact (ih hg.2 hreturns).map fun _ hp => hp.trace title
  | label name p ih => exact (ih hg.2 hreturns).map fun _ hp => hp.label name

end Grammar

namespace Rules

open AllParses.Grammar

variable {rules : Rules}

theorem endsOnTexts_call
    (hrules : ∀ r ∈ rules, r.2.HandmadeFree ∧ r.2.Builds ∧ r.2.Returns rules) (depth : Nat)
    {name : String} (hname : (rules.lookup name).isSome) :
    (⟨some name, rules.call depth name⟩ : Parser Value).EndsOnTexts (· = .tooDeep)
      fun _ => True := by
  -- on how deep the uses of rules may be nested: a body sees only calls of less depth
  induction depth generalizing name with
  | zero => exact fun _ _ => Run.ends_raise rfl
  | succ depth ih =>
      obtain ⟨body, hlookup⟩ := Option.isSome_iff_exists.1 hname
      obtain ⟨hfree, hbuilds, hreturns⟩ := hrules (name, body) (mem_of_lookup hlookup)
      have hends : body.Everywhere fun h => ¬h.IsConstant ∧ h.RefEnds (· = .tooDeep) rules depth :=
        hfree.mono fun h hh => ⟨hh, fun _ _ hused => ih hused⟩
      have hmade := ensures_make_endsOnTexts hends hreturns
      rw [call_of_lookup hlookup]
      exact endsOnTexts_ofCode ((hbuilds (rules.call depth)).ends hmade)

/-- A parser made from the library alone, whose client's code does its part, answers on every text,
though it may answer nothing. The only other end is that uses of rules were nested deeper than the
depth allows, so that the run was cut off; without uses of rules there is no other end. -/
theorem parse_text_answers
    (hrules : ∀ r ∈ rules, r.2.HandmadeFree ∧ r.2.Builds ∧ r.2.Returns rules) {g : Grammar}
    (hg : g.HandmadeFree) (hreturns : g.Returns rules) {depth : Nat} {p : Parser Value}
    (hp : (rules.make depth g).result = .ok p) {inp : Input} (hinp : inp.IsText) :
    ((∃ successes, (p.run inp).result = .ok successes) ∨
        (p.run inp).result = .error .tooDeep) ∧
      (g.RefFree → ∃ successes, (p.run inp).result = .ok successes) := by
  obtain ⟨q, hq, hpure⟩ := Run.result_bind_eq_ok_iff.1 hp
  cases hpure
  have htext : (inp.withMade (q.2 + inp.made)).IsText := hinp.withMade _
  constructor
  · have hends : g.Everywhere fun h => ¬h.IsConstant ∧ h.RefEnds (· = .tooDeep) rules depth :=
      hg.mono fun h hh => ⟨hh, fun _ _ hname => endsOnTexts_call hrules depth hname⟩
    have hrun := ensures_make_endsOnTexts hends hreturns 0 q hq _ htext
    rcases hrun.answers_or with hok | ⟨e, herror, rfl⟩
    · exact .inl hok
    · exact .inr herror
  · intro hfree
    have hends : g.Everywhere fun h => ¬h.IsConstant ∧ h.RefEnds (fun _ => False) rules depth :=
      (hg.and hfree).mono fun h hh => ⟨hh.1, refEnds_of_not_isRef hh.2⟩
    have hrun := ensures_make_endsOnTexts hends hreturns 0 q hq _ htext
    rcases hrun.answers_or with hok | ⟨e, _, hfalse⟩
    · exact hok
    · exact hfalse.elim

/-! ## Sums in parentheses -/

/-- The number that a digit denotes. -/
def number : Grammar := .map (fun v => StateT.lift v.toInt) .digit

/-- The function that adds two numbers. -/
def adder : Value := .fn 0 ["m", "n"] (.add (.var "m") (.var "n")) []

/-- Applies a function to two values, with no application within. -/
def applyTo (f v w : Value) : Code String Value := Value.call 1 f [v, w]

/-- A plus sign, which stands for the function. -/
def plus : Grammar := .map (fun _ => pure adder) (.char (.char '+'))

/-- Sums of digits, within any number of parentheses. -/
def sums : Rules :=
  [("sum", .either (.between (.char (.char '(')) (.char (.char ')')) (.ref "sum"))
    (.chainl1 applyTo number plus))]

theorem toInt_of_digit {c : Char} (hc : c ∈ "0123456789".toList) :
    ∃ n : Int, (Value.char c).toInt = pure (.int n) := by
  simp only [String.reduceToList, List.mem_cons, List.not_mem_nil, or_false] at hc
  rcases hc with rfl | rfl | rfl | rfl | rfl | rfl | rfl | rfl | rfl | rfl <;> exact ⟨_, by cbv⟩

theorem toInt_of_gives_digit {v : Value} (hv : rules.Gives .digit v) :
    ∃ n : Int, v.toInt = pure (.int n) := by
  refine of_gives (P := fun v => ∃ n : Int, v.toInt = pure (.int n)) (fun depth => ?_) hv
  have hdigit : digit.EndsOnTexts (fun _ => True) (· ∈ "0123456789".toList) :=
    (endsOnTexts_charIn _).label _
  exact Code.ensures_pure (hdigit.mapValue fun _ hc => toInt_of_digit hc)

theorem int_of_gives_number {v : Value} (hv : rules.Gives number v) : ∃ n : Int, v = .int n := by
  obtain ⟨w, hw, made, made', hanswer⟩ := gives_of_map hv
  obtain ⟨n, hn⟩ := toInt_of_gives_digit hw
  rw [StateT.run_lift, hn] at hanswer
  cases hanswer
  exact ⟨n, rfl⟩

theorem eq_adder_of_gives_plus {v : Value} (hv : rules.Gives plus v) : v = adder := by
  obtain ⟨w, hw, made, made', hanswer⟩ := gives_of_map hv
  cases hanswer
  rfl

theorem applyTo_adder (m n : Int) :
    applyTo adder (.int m) (.int n) = pure (.int (m + n)) := rfl

/-- Chains of numbers are folded to numbers. -/
theorem int_of_folded {v : Value}
    (hv : Folded applyTo (rules.Gives plus) (rules.Gives number) v) :
    ∃ n : Int, v = .int n := by
  induction hv with
  | operand hv => exact int_of_gives_number hv
  | applied hf hacc hv hanswer ih =>
      obtain ⟨m, rfl⟩ := ih
      obtain ⟨n, rfl⟩ := int_of_gives_number hv
      rw [eq_adder_of_gives_plus hf, applyTo_adder] at hanswer
      cases hanswer
      exact ⟨m + n, rfl⟩

theorem parse_text_answers_sums :
    ∃ p : Parser Value,
      (∀ r ∈ sums, r.2.HandmadeFree ∧ r.2.Builds ∧ r.2.Returns sums) ∧
        (Grammar.ref "sum").HandmadeFree ∧ (Grammar.ref "sum").Returns sums ∧
        (sums.make 5 (.ref "sum")).result = .ok p ∧
        (Input.start (.text ['(', '(', '1', '+', '2'])).IsText ∧
        (p.run (.start (.text ['(', '(', '1', '+', '2']))).result = .ok [] ∧
        ((∃ successes, (p.run (.start (.text ['(', '(', '1', '+', '2']))).result = .ok successes) ∨
          (p.run (.start (.text ['(', '(', '1', '+', '2']))).result = .error .tooDeep) := by
  have hnumber : number.Returns sums := by
    refine ⟨trivial, fun v hv made => ?_⟩
    obtain ⟨n, hn⟩ := toInt_of_gives_digit hv
    exact ⟨(.int n, made), by rw [StateT.run_lift, hn]; rfl⟩
  have hplus : plus.Returns sums := ⟨trivial, fun _ _ made => ⟨(adder, made), rfl⟩⟩
  have hadder : OperatorsReturn applyTo (sums.Gives plus)
      (sums.Gives number) := by
    intro f acc v hf hacc hv made
    obtain ⟨m, rfl⟩ := int_of_folded hacc
    obtain ⟨n, rfl⟩ := int_of_gives_number hv
    rw [eq_adder_of_gives_plus hf, applyTo_adder]
    exact ⟨(.int (m + n), made), rfl⟩
  have hrules : ∀ r ∈ sums, r.2.HandmadeFree ∧ r.2.Builds ∧ r.2.Returns sums := by
    intro r hr
    rw [List.mem_singleton.1 hr]
    refine ⟨?_, fun calls made => ⟨_, rfl⟩, ⟨trivial, trivial, rfl⟩, hnumber, hplus, hadder⟩
    simp [number, plus, HandmadeFree, Everywhere, IsConstant]
  have hg : (Grammar.ref "sum").HandmadeFree := by
    simp [HandmadeFree, Everywhere, IsConstant]
  have hp : (sums.make 5 (.ref "sum")).result =
      .ok ⟨some "sum", fun inp => sums.call 5 "sum" (inp.withMade (0 + inp.made))⟩ := rfl
  have hrun : (sums.call 5 "sum" (.start (.text ['(', '(', '1', '+', '2']))).result = .ok [] := by
    cbv
  have htext : (Input.start (.text ['(', '(', '1', '+', '2'])).IsText := ⟨_, rfl⟩
  exact ⟨_, hrules, hg, rfl, hp, htext, hrun, (parse_text_answers hrules hg rfl hp htext).1⟩

end Rules

end AllParses
