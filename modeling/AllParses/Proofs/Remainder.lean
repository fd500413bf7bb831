import Mathlib
import AllParses.Parser.Chain
import AllParses.Parser.Character
import AllParses.Parser.Outcome
import AllParses.Proofs.Count
import AllParses.Proofs.Grammar

/-!
# What parsers leave

The only thing a parser of the library does to an input is to take tokens from its front. Each
combinator keeps this, whatever its operands are: rests of rests are rests, and looking ahead goes
back to the input itself. By induction over a grammar, and over the depth to which its rules call
one another, every remainder is a suffix of the input, kept in the same kind of sequence.
-/

namespace AllParses

variable {α β γ : Type}

/-- The input is another one without some of its first tokens. -/
def Input.IsRestOf (rest inp : Input) : Prop :=
  ∃ k ≤ inp.length, rest.sequence = inp.sequence.drop k

namespace Input

theorem isRestOf_of_sequence_eq {rest inp : Input} (h : rest.sequence = inp.sequence) :
    rest.IsRestOf inp :=
  ⟨0, Nat.zero_le _, by rw [h, Sequence.drop_zero]⟩

theorem IsRestOf.refl (inp : Input) : inp.IsRestOf inp := isRestOf_of_sequence_eq rfl

theorem IsRestOf.trans {a b c : Input} (hab : a.IsRestOf b) (hbc : b.IsRestOf c) :
    a.IsRestOf c := by
  obtain ⟨m, hm, hb⟩ := hbc
  obtain ⟨n, hn, ha⟩ := hab
  have hlength : b.length = c.length - m := by
    rw [length, hb, Sequence.length_drop]
    rfl
  refine ⟨m + n, by omega, ?_⟩
  rw [ha, hb, Sequence.drop_drop]

theorem isRestOf_drop {n : Nat} {inp : Input} (hn : n ≤ inp.length) : (inp.drop n).IsRestOf inp :=
  ⟨n, hn, rfl⟩

end Input

namespace Parser

/-- Every success leaves a rest of the input. -/
def OnlyConsumes (p : Parser α) : Prop :=
  ∀ inp, (p.run inp).Ensures fun successes => ∀ s ∈ successes, s.rest.IsRestOf inp

/-! ## One token -/

theorem onlyConsumes_result (a : α) : (result a).OnlyConsumes :=
  fun inp => Run.ensures_pure (by simpa using .refl inp)

theorem onlyConsumes_zero : (zero : Parser α).OnlyConsumes :=
  fun _ => Run.ensures_pure (by simp)

theorem onlyConsumes_item : item.OnlyConsumes :=
  fun _ => ensures_item fun hpos _ => Input.isRestOf_drop hpos

theorem OnlyConsumes.label {p : Parser α} (hp : p.OnlyConsumes) (name : String) :
    (p.label name).OnlyConsumes := hp

theorem OnlyConsumes.mapValue {p : Parser α} (hp : p.OnlyConsumes) (f : α → β) :
    (p.mapValue f).OnlyConsumes := by
  intro inp
  refine (hp inp).map fun successes hs r hr => ?_
  obtain ⟨s, hmem, rfl⟩ := List.mem_map.1 hr
  exact hs s hmem

theorem onlyConsumes_ofCode {code : Code Entry (Parser α)} (hcode : code.Ensures OnlyConsumes) :
    (ofCode code).OnlyConsumes :=
  fun inp => (hcode inp.made).bind fun q hq => hq (inp.withMade q.2)

/-! ## Sequences -/

theorem OnlyConsumes.bind {p : Parser α} {next : α → Code Entry (Parser β)} (hp : p.OnlyConsumes)
    (hnext : ∀ a, (next a).Ensures OnlyConsumes) : (p.bind next).OnlyConsumes := by
  intro inp
  refine (hp inp).bind fun successes hs => Run.ensures_flatMap fun s hmem => ?_
  refine (onlyConsumes_ofCode (hnext s.value) s.rest).mono fun rs hrs r hr => ?_
  exact (hrs r hr).trans (hs s hmem)

theorem onlyConsumes_accept (read : Value → Code Entry (Option α)) :
    (accept read).OnlyConsumes := by
  refine OnlyConsumes.label (onlyConsumes_item.bind fun token => ?_) "satisfy"
  refine Code.ensures_bind fun found => ?_
  cases found with
  | none => exact Code.ensures_pure onlyConsumes_zero
  | some a => exact Code.ensures_pure (onlyConsumes_result a)

theorem onlyConsumes_satisfy (test : Value → Code Entry Bool) : (satisfy test).OnlyConsumes :=
  onlyConsumes_accept _

theorem OnlyConsumes.map {p : Parser α} (hp : p.OnlyConsumes) (f : α → Code Entry β) :
    (p.map f).OnlyConsumes :=
  hp.bind fun _ => Code.ensures_bind fun b =>
    Code.ensures_pure (onlyConsumes_result b)

theorem OnlyConsumes.pair {p : Parser α} {q : Parser β} (hp : p.OnlyConsumes)
    (hq : q.OnlyConsumes) : (p.pair q).OnlyConsumes :=
  hp.bind fun a => Code.ensures_pure <|
    hq.bind fun b => Code.ensures_pure (onlyConsumes_result (a, b))

theorem OnlyConsumes.keepRight {p : Parser α} {q : Parser β} (hp : p.OnlyConsumes)
    (hq : q.OnlyConsumes) : (p.keepRight q).OnlyConsumes :=
  hp.bind fun _ => Code.ensures_pure hq

theorem OnlyConsumes.keepLeft {p : Parser α} {q : Parser β} (hp : p.OnlyConsumes)
    (hq : q.OnlyConsumes) : (p.keepLeft q).OnlyConsumes :=
  hp.bind fun a => Code.ensures_pure <|
    hq.bind fun _ => Code.ensures_pure (onlyConsumes_result a)

theorem OnlyConsumes.between {opening : Parser β} {closing : Parser γ} {p : Parser α}
    (hopening : opening.OnlyConsumes) (hclosing : closing.OnlyConsumes) (hp : p.OnlyConsumes) :
    (between opening closing p).OnlyConsumes :=
  hopening.keepRight (hp.keepLeft hclosing)

/-! ## Choices -/

theorem onlyConsumes_choice {ps : List (Parser α)} (hps : ∀ p ∈ ps, p.OnlyConsumes) :
    (choice ps).OnlyConsumes :=
  fun inp => ensures_choice fun p hp => hps p hp inp

theorem OnlyConsumes.orElse {p q : Parser α} (hp : p.OnlyConsumes) (hq : q.OnlyConsumes) :
    (p.orElse q).OnlyConsumes := by
  intro inp
  refine (hp inp).bind fun successes hs => ?_
  cases successes with
  | nil => exact hq inp
  | cons s more => exact Run.ensures_pure hs

theorem OnlyConsumes.first {p : Parser α} (hp : p.OnlyConsumes) : p.first.OnlyConsumes := by
  intro inp
  exact (hp inp).map fun _ hs s hmem => hs s (List.mem_of_mem_take hmem)

theorem OnlyConsumes.option {p : Parser α} (hp : p.OnlyConsumes) (a : α) :
    (Parser.option a p).OnlyConsumes :=
  onlyConsumes_choice (by simpa using ⟨hp, onlyConsumes_result a⟩)

theorem OnlyConsumes.optional {p : Parser α} (hp : p.OnlyConsumes) : p.optional.OnlyConsumes :=
  onlyConsumes_choice
    (by simpa using ⟨hp.keepRight (onlyConsumes_result ()), onlyConsumes_result ()⟩)

/-! ## Repetitions -/

theorem OnlyConsumes.many {p : Parser α} (hp : p.OnlyConsumes) : p.many.OnlyConsumes := by
  refine ensures_many (Q := fun inp r => r.rest.IsRestOf inp) .refl ?_
  intro inp successes hsuccesses s hs _ t ht
  exact ht.trans (hp inp successes hsuccesses s hs)

theorem OnlyConsumes.many1 {p : Parser α} (hp : p.OnlyConsumes) : p.many1.OnlyConsumes :=
  hp.bind fun _ => Code.ensures_pure (hp.many.map _)

theorem OnlyConsumes.nested {p : Parser α} (hp : p.OnlyConsumes) (n : Nat) :
    (p.nested n).OnlyConsumes := by
  induction n with
  | zero => exact onlyConsumes_result []
  | succ n ih => exact hp.bind fun _ => Code.ensures_pure (ih.map _)

theorem OnlyConsumes.count {p : Parser α} (hp : p.OnlyConsumes) (n : Nat) :
    (count n p).OnlyConsumes :=
  fun inp => (run_count_reordered p n inp).ensures (hp.nested n inp)

theorem OnlyConsumes.countOf {p : Parser α} (hp : p.OnlyConsumes) (n : Int) :
    (countOf n p).Ensures OnlyConsumes := by
  rw [Parser.countOf]
  split
  · exact Run.ensures_raise _ _
  · exact Run.ensures_pure (hp.count _)

theorem OnlyConsumes.sepBy1 {p : Parser α} {separator : Parser β} (hp : p.OnlyConsumes)
    (hseparator : separator.OnlyConsumes) : (p.sepBy1 separator).OnlyConsumes :=
  hp.bind fun _ => Code.ensures_pure ((hseparator.keepRight hp).many.map _)

theorem OnlyConsumes.sepBy {p : Parser α} {separator : Parser β} (hp : p.OnlyConsumes)
    (hseparator : separator.OnlyConsumes) : (p.sepBy separator).OnlyConsumes :=
  onlyConsumes_choice (by simpa using ⟨hp.sepBy1 hseparator, onlyConsumes_result []⟩)

theorem OnlyConsumes.chainl1 {p : Parser α} {op : Parser (Operator α)} (hp : p.OnlyConsumes)
    (hop : op.OnlyConsumes) : (p.chainl1 op).OnlyConsumes :=
  hp.bind fun _ => Code.ensures_pure ((hop.pair hp).many.map _)

theorem OnlyConsumes.chainr1 {p : Parser α} {op : Parser (Operator α)} (hp : p.OnlyConsumes)
    (hop : op.OnlyConsumes) : (p.chainr1 op).OnlyConsumes :=
  hp.bind fun _ => Code.ensures_pure ((hop.pair hp).many.map _)

/-! ## Looking without consuming -/

theorem onlyConsumes_eof : eof.OnlyConsumes := by
  intro inp
  refine Run.ensures_pure ?_
  split
  · simpa using .refl inp
  · simp

theorem onlyConsumes_lookAhead (p : Parser α) : p.lookAhead.OnlyConsumes := by
  intro inp
  refine Run.ensures_map fun successes r hr => ?_
  obtain ⟨s, _, rfl⟩ := List.mem_map.1 hr
  exact Input.isRestOf_of_sequence_eq rfl

theorem onlyConsumes_notFollowedBy (p : Parser α) : p.notFollowedBy.OnlyConsumes := by
  intro inp
  refine Run.ensures_map fun successes => ?_
  split
  · simpa using .refl inp
  · simp

theorem OnlyConsumes.trace {p : Parser α} (hp : p.OnlyConsumes) (title : String) :
    (p.trace title).OnlyConsumes := by
  intro inp
  refine Run.ensures_bind fun _ => ?_
  refine (hp inp).bind fun successes hs => ?_
  exact Run.ensures_bind fun _ => Run.ensures_pure hs

/-! ## Texts -/

theorem onlyConsumes_char (wanted : Value) : (char wanted).OnlyConsumes :=
  (onlyConsumes_satisfy _).label _

theorem ensures_spell (value : α) (tokens : List Value) (inp : Input) :
    (spell value tokens inp).Ensures fun successes => ∀ s ∈ successes, s.rest.IsRestOf inp := by
  induction tokens generalizing inp with
  | nil => exact onlyConsumes_result value inp
  | cons wanted more ih =>
      rw [spell]
      refine (onlyConsumes_char wanted inp).bind fun successes hs => ?_
      cases successes with
      | nil => exact Run.ensures_pure (by simp)
      | cons s others =>
          exact (ih s.rest).mono fun rs hrs r hr => (hrs r hr).trans (hs s (by simp))

theorem ensures_string (whole : Value) : (string whole).Ensures OnlyConsumes := by
  rw [string]
  refine Run.ensures_bind fun tokens => ?_
  exact Run.ensures_pure (ensures_spell whole tokens)

theorem onlyConsumes_ofClass (cls : TextClass) : (ofClass cls).OnlyConsumes :=
  (onlyConsumes_accept _).label _

theorem onlyConsumes_spaces : spaces.OnlyConsumes :=
  ((onlyConsumes_ofClass .blank).many.keepRight (onlyConsumes_result ())).label _

theorem onlyConsumes_wordWithin (depth : Nat) : (wordWithin depth).OnlyConsumes := by
  induction depth with
  | zero => exact fun _ => Run.ensures_raise _ _
  | succ depth ih =>
      have hlonger := (onlyConsumes_ofClass .letter).bind fun c =>
        Code.ensures_pure (ih.map fun more => pure (c ++ more))
      refine OnlyConsumes.label (onlyConsumes_choice ?_) "word"
      simpa using ⟨hlonger, onlyConsumes_result ""⟩

theorem onlyConsumes_word : word.OnlyConsumes :=
  fun inp => onlyConsumes_wordWithin (inp.length + 1) inp

end Parser

/-! ## Grammars and rules -/

namespace Grammar

open AllParses.Parser

/-- Whatever parser is made for a grammar without handmade parts only consumes, if the uses of
named rules do. -/
theorem ensures_make {calls : Calls}
    (hcalls : ∀ name, (⟨some name, calls name⟩ : Parser Value).OnlyConsumes) {g : Grammar}
    (hg : g.HandmadeFree) : (g.make calls).Ensures OnlyConsumes := by
  induction g with
  | result v => exact Code.ensures_pure ((onlyConsumes_result v).label _)
  | zero => exact Code.ensures_pure onlyConsumes_zero
  | item => exact Code.ensures_pure onlyConsumes_item
  | eof => exact Code.ensures_pure (onlyConsumes_eof.mapValue _)
  | anyChar => exact Code.ensures_pure ((onlyConsumes_satisfy _).label _)
  | ofClass cls => exact Code.ensures_pure ((onlyConsumes_ofClass cls).mapValue _)
  | digit => exact Code.ensures_pure (((onlyConsumes_accept _).label _).mapValue _)
  | hexDigit => exact Code.ensures_pure (((onlyConsumes_accept _).label _).mapValue _)
  | spaces => exact Code.ensures_pure (onlyConsumes_spaces.mapValue _)
  | word => exact Code.ensures_pure (onlyConsumes_word.mapValue _)
  | char wanted => exact Code.ensures_pure (onlyConsumes_char wanted)
  | string whole => exact Code.ensures_lift (ensures_string whole)
  | oneOf members =>
      exact Code.ensures_bind fun _ =>
        Code.ensures_pure ((onlyConsumes_satisfy _).label _)
  | noneOf members =>
      exact Code.ensures_bind fun _ =>
        Code.ensures_pure ((onlyConsumes_satisfy _).label _)
  | satisfy test => exact Code.ensures_pure (onlyConsumes_satisfy _)
  | constant name successes => exact absurd trivial hg
  | ref name => exact Code.ensures_pure (hcalls name)
  | after code next ih => exact Code.ensures_bind fun v => ih v (hg.2 v)
  | deferred name body ih => exact Code.ensures_pure (onlyConsumes_ofCode (ih hg.2))
  | bind p next ihp ihnext =>
      exact (ihp hg.2.1).map fun _ hp => hp.bind fun v => ihnext v (hg.2.2 v)
  | map f p ih => exact (ih hg.2).map fun _ hp => hp.map _
  | pair p q ihp ihq =>
      exact (ihp hg.2.1).map₂ (ihq hg.2.2) fun _ _ hp hq => (hp.pair hq).mapValue _
  | keepRight p q ihp ihq => exact (ihp hg.2.1).map₂ (ihq hg.2.2) fun _ _ hp hq => hp.keepRight hq
  | keepLeft p q ihp ihq => exact (ihp hg.2.1).map₂ (ihq hg.2.2) fun _ _ hp hq => hp.keepLeft hq
  | between opening closing p ihopening ihclosing ihp =>
      exact (ihopening hg.2.1).bind fun _ hopening =>
        (ihclosing hg.2.2.1).map₂ (ihp hg.2.2.2) fun _ _ hclosing hp =>
          hopening.between hclosing hp
  | either p q ihp ihq =>
      exact (ihp hg.2.1).map₂ (ihq hg.2.2) fun _ _ hp hq =>
        onlyConsumes_choice (by simpa using ⟨hp, hq⟩)
  | orElse p q ihp ihq => exact (ihp hg.2.1).map₂ (ihq hg.2.2) fun _ _ hp hq => hp.orElse hq
  | first p ih => exact (ih hg.2).map fun _ hp => hp.first
  | option v p ih => exact (ih hg.2).map fun _ hp => hp.option v
  | optional p ih => exact (ih hg.2).map fun _ hp => hp.optional.mapValue _
  | many p ih => exact (ih hg.2).map fun _ hp => hp.many.mapValue _
  | many1 p ih => exact (ih hg.2).map fun _ hp => hp.many1.mapValue _
  | count n p ih =>
      exact (ih hg.2).bind fun _ hp => Code.ensures_bind fun k =>
        (Code.ensures_lift (hp.countOf k)).map fun _ h => h.mapValue _
  | sepBy p separator ihp ihq =>
      exact (ihp hg.2.1).map₂ (ihq hg.2.2) fun _ _ hp hq => (hp.sepBy hq).mapValue _
  | sepBy1 p separator ihp ihq =>
      exact (ihp hg.2.1).map₂ (ihq hg.2.2) fun _ _ hp hq => (hp.sepBy1 hq).mapValue _
  | chainl1 apply p op ihp ihq =>
      exact (ihp hg.2.1).map₂ (ihq hg.2.2) fun _ _ hp hq => hp.chainl1 (hq.mapValue _)
  | chainr1 apply p op ihp ihq =>
      exact (ihp hg.2.1).map₂ (ihq hg.2.2) fun _ _ hp hq => hp.chainr1 (hq.mapValue _)
  | lookAhead p ih => exact Code.ensures_bind fun q => Code.ensures_pure (onlyConsumes_lookAhead q)
  | notFollowedBy p ih =>
      exact Code.ensures_bind fun q =>
        Code.ensures_pure ((onlyConsumes_notFollowedBy q).mapValue _)
  | trace title p ih => exact (ih hg.2).map fun _ hp => hp.trace title
  | label name p ih => exact (ih hg.2).map fun _ hp => hp.label name

end Grammar

namespace Rules

theorem onlyConsumes_call {rules : Rules} (hrules : ∀ r ∈ rules, r.2.HandmadeFree) (depth : Nat)
    (name : String) : (⟨some name, rules.call depth name⟩ : Parser Value).OnlyConsumes := by
  -- on how deep the uses of rules may be nested: a body sees only calls of less depth
  induction depth generalizing name with
  | zero => exact fun _ => Run.ensures_raise _ _
  | succ depth ih =>
      cases hlookup : rules.lookup name with
      | none =>
          rw [call_of_unknown hlookup]
          exact fun _ => Run.ensures_raise _ _
      | some body =>
          have hbody : body.HandmadeFree := hrules (name, body) (mem_of_lookup hlookup)
          rw [call_of_lookup hlookup]
          exact Parser.onlyConsumes_ofCode (Grammar.ensures_make ih hbody)

theorem ensures_make {rules : Rules} (hrules : ∀ r ∈ rules, r.2.HandmadeFree) (depth : Nat)
    {g : Grammar} (hg : g.HandmadeFree) : (rules.make depth g).Ensures Parser.OnlyConsumes := by
  refine (Grammar.ensures_make (onlyConsumes_call hrules depth) hg 0).bind fun q hq => ?_
  exact Run.ensures_pure fun inp => hq (inp.withMade (q.2 + inp.made))

end Rules

theorem shortest_mem (best : Input) (others : List Input) :
    shortest best others ∈ best :: others := by
  induction others generalizing best with
  | nil => exact List.mem_singleton_self best
  | cons inp others ih =>
      have hmem := ih (if inp.length < best.length then inp else best)
      rw [shortest]
      rcases List.mem_cons.1 hmem with heq | hmem
      · rw [heq]
        split <;> simp
      · simp [hmem]

/-- An error tells of the input itself, or of what some success left. -/
theorem remainder_of_chosen {inp : Input} {successes : List (Success α)} {e : ParseError}
    (h : chosen inp successes = .error e) :
    e.remainder = some inp.sequence ∨ ∃ s ∈ successes, e.remainder = some s.rest.sequence := by
  unfold chosen at h
  split at h
  · cases h
  · split at h
    · cases h
      exact .inl rfl
    · next rest others hrests =>
        cases h
        have hmem := shortest_mem rest others
        rw [← hrests] at hmem
        obtain ⟨s, hs, hrest⟩ := List.mem_map.1 hmem
        exact .inr ⟨s, hs, by rw [hrest]⟩

theorem Sequence.kind_toValue_drop (k : Nat) (seq : Sequence) :
    (seq.drop k).toValue.kind = seq.toValue.kind := by
  cases seq <;> rfl

/-- Every result of a parser made from the library alone leaves the input without its first `k`
tokens, for some `k`, in the same kind of sequence; and so does the attempt that an error of the
driver tells of. -/
theorem remainders_are_suffixes {rules : Rules} (hrules : ∀ r ∈ rules, r.2.HandmadeFree)
    {depth : Nat} {g : Grammar} (hg : g.HandmadeFree) {p : Parser Value}
    (hp : (rules.make depth g).result = .ok p) (inp : Input) :
    (∀ rs, (p.run inp).result = .ok rs → ∀ r ∈ rs,
      (∃ k ≤ inp.length, r.rest.sequence = inp.sequence.drop k) ∧
        r.rest.toValue.kind = inp.toValue.kind) ∧
      ∀ e, (p.runParser inp).result = .ok (.error e) →
        ∃ k ≤ inp.length, e.remainder = some (inp.sequence.drop k) := by
  have honly : p.OnlyConsumes := Rules.ensures_make hrules depth hg p hp
  constructor
  · intro rs hrs r hr
    obtain ⟨k, hk, hrest⟩ := honly inp rs hrs r hr
    refine ⟨⟨k, hk, hrest⟩, ?_⟩
    rw [Input.toValue, hrest]
    exact Sequence.kind_toValue_drop k inp.sequence
  · intro e he
    obtain ⟨rs, hrs, hchosen⟩ := Run.result_map_eq_ok_iff.1 he
    rcases remainder_of_chosen hchosen with hinp | ⟨s, hs, hrest⟩
    · exact ⟨0, Nat.zero_le _, by rw [hinp, Sequence.drop_zero]⟩
    · obtain ⟨k, hk, hsuffix⟩ := honly inp rs hrs s hs
      exact ⟨k, hk, by rw [hrest, hsuffix]⟩

/-- Two rules that use each other: an `a` before every `b`, and a `b` before every further `a`. -/
def alternating : Rules :=
  [("as", .either (.bind (.char (.char 'a')) fun _ => .ref "bs") (.result .none)),
    ("bs", .either (.bind (.char (.char 'b')) fun _ => .ref "as") (.result .none))]

theorem remainders_of_alternating :
    ∃ (p : Parser Value) (e : ParseError), (∀ r ∈ alternating, r.2.HandmadeFree) ∧
      (Grammar.ref "as").HandmadeFree ∧ (alternating.make 4 (.ref "as")).result = .ok p ∧
      (p.run (.start (.text ['a', 'b', 'c']))).result =
        .ok [⟨.none, .start (.text ['c'])⟩, ⟨.none, .start (.text ['b', 'c'])⟩,
          ⟨.none, .start (.text ['a', 'b', 'c'])⟩] ∧
      (∃ k ≤ 3, Sequence.text ['c'] = (Sequence.text ['a', 'b', 'c']).drop k) ∧
      (p.runParser (.start (.text ['a', 'b', 'c']))).result = .ok (.error e) ∧
      ∃ k ≤ 3, e.remainder = some ((Sequence.text ['a', 'b', 'c']).drop k) := by
  have hrules : ∀ r ∈ alternating, r.2.HandmadeFree := by
    simp [alternating, Grammar.HandmadeFree, Grammar.Everywhere, Grammar.IsConstant]
  have hg : (Grammar.ref "as").HandmadeFree := by
    simp [Grammar.HandmadeFree, Grammar.Everywhere, Grammar.IsConstant]
  have hp : (alternating.make 4 (.ref "as")).result =
      .ok ⟨some "as", fun inp => alternating.call 4 "as" (inp.withMade (0 + inp.made))⟩ := rfl
  have hrun : (alternating.call 4 "as" (.start (.text ['a', 'b', 'c']))).result =
      .ok [⟨.none, .start (.text ['c'])⟩, ⟨.none, .start (.text ['b', 'c'])⟩,
        ⟨.none, .start (.text ['a', 'b', 'c'])⟩] := by cbv
  have herror : (chosen (.start (.text ['a', 'b', 'c'])) <$>
      alternating.call 4 "as" (.start (.text ['a', 'b', 'c']))).result =
      .ok (.error ⟨"3 partial parse(s), none consumed all input", some (.text ['c'])⟩) := by
    cbv
  have hsuffix := remainders_are_suffixes hrules hg hp (.start (.text ['a', 'b', 'c']))
  refine ⟨_, _, hrules, hg, hp, hrun, ?_, herror, hsuffix.2 _ herror⟩
  exact (hsuffix.1 _ hrun ⟨.none, .start (.text ['c'])⟩ (by simp)).1

end AllParses
