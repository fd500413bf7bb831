import AllParses.Proofs.Comparison
import AllParses.Proofs.Grammar

/-!
# Corresponding grammars

A comparison that is kept by each combinator is kept by whole grammars: by induction over the
grammar, and over the depth to which its rules call one another. The second grammar may bear other
marks than the first, if the comparison can follow the change.
-/

namespace AllParses

namespace Comparison

variable (C : Comparison)

/-- The comparison can follow this part of a grammar. Parts that hang on there being no token or
no success are beyond it if it allows gaps, and rests made up by hand have to correspond. -/
def Covers : Grammar → Prop
  | .constant _ successes => ∀ made, ∀ s ∈ successes, C.Inputs ⟨s.2, made⟩ ⟨s.2, made⟩
  | .eof | .first _ | .orElse _ _ | .notFollowedBy _ => ¬C.Gaps
  | _ => True

/-- What making a marked part gives corresponds to what its replacement gives, if the part does. -/
structure FollowsMarks (onTrace onLabel : String → Grammar → Grammar) : Prop where
  trace : ∀ {calls calls' : Grammar.Calls} {p q : Grammar} (title : String),
    C.Codes (C.Parsers Eq) (p.make calls) (q.make calls') →
      C.Codes (C.Parsers Eq) ((p.trace title).make calls) ((onTrace title q).make calls')
  label : ∀ {calls calls' : Grammar.Calls} {p q : Grammar} (name : String),
    C.Codes (C.Parsers Eq) (p.make calls) (q.make calls') →
      C.Codes (C.Parsers Eq) ((p.label name).make calls) ((onLabel name q).make calls')

/-- If the part is marked, and the two parses of its operand correspond, then what making it gives
corresponds to what its replacement gives. -/
def FollowsMark (onTrace onLabel : String → Grammar → Grammar) (calls calls' : Grammar.Calls) :
    Grammar → Prop
  | .trace title p =>
    C.Codes (C.Parsers Eq) (p.make calls) ((p.mapMarks onTrace onLabel).make calls') →
      C.Codes (C.Parsers Eq) ((p.trace title).make calls)
        ((onTrace title (p.mapMarks onTrace onLabel)).make calls')
  | .label name p =>
    C.Codes (C.Parsers Eq) (p.make calls) ((p.mapMarks onTrace onLabel).make calls') →
      C.Codes (C.Parsers Eq) ((p.label name).make calls)
        ((onLabel name (p.mapMarks onTrace onLabel)).make calls')
  | _ => True

/-- The comparison can follow this part of a grammar, and its mark if it has one. -/
def Follows (onTrace onLabel : String → Grammar → Grammar) (calls calls' : Grammar.Calls)
    (g : Grammar) : Prop :=
  C.Covers g ∧ C.FollowsMark onTrace onLabel calls calls' g

variable {C}

theorem FollowsMarks.follows {onTrace onLabel : String → Grammar → Grammar}
    (hmarks : C.FollowsMarks onTrace onLabel) (calls calls' : Grammar.Calls) {g : Grammar}
    (hg : C.Covers g) : C.Follows onTrace onLabel calls calls' g := by
  refine ⟨hg, ?_⟩
  cases g with
  | trace title p => exact hmarks.trace title
  | label name p => exact hmarks.label name
  | _ => trivial

theorem covers_of_not_gaps (hgaps : ¬C.Gaps) {g : Grammar} (hg : ¬g.IsConstant) : C.Covers g := by
  cases g with
  | constant => exact absurd trivial hg
  | eof | first | orElse | notFollowedBy => exact hgaps
  | _ => trivial

/-- Marks that stay are followed if traced parsers run in correspondence. -/
theorem followsMarks_of_trace (htrace : ∀ (title : String) {p q : Parser Value},
    C.Parsers Eq p q → C.Parsers Eq (p.trace title) (q.trace title)) :
    C.FollowsMarks Grammar.trace Grammar.label where
  trace title h := h.bind fun _ _ hp => C.codes_pure (htrace title hp)
  label name h := h.bind fun _ _ hp => C.codes_pure (hp.label name)

theorem Parsers.mapList {p q : Parser (List Value)} (h : C.Parsers (List.Forall₂ Eq) p q) :
    C.Parsers Eq (p.mapValue Value.list) (q.mapValue Value.list) :=
  h.mapValue fun _ _ hvs => congrArg Value.list (List.forall₂_eq_eq_eq ▸ hvs)

theorem Parsers.operators {op op' : Parser Value} (h : C.Parsers Eq op op')
    (apply : Value → Value → Value → Code String Value) :
    C.Parsers (C.Operators Eq) (Grammar.operators apply op) (Grammar.operators apply op') := by
  refine h.mapValue fun f _ hf => ?_
  subst hf
  rintro a _ b _ rfl rfl
  exact C.codes_noted (apply f a b)

end Comparison

namespace Grammar

variable {C : Comparison} {onTrace onLabel : String → Grammar → Grammar}

/-- Whatever is known of the two parses of closed parts holds of the two parses of a grammar that
uses named rules in closed parts only. -/
theorem codes_make_of_follows_outside {calls calls' : Calls} {closed : Grammar → Prop}
    (hclosed : ∀ h, closed h →
      C.Codes (C.Parsers Eq) (h.make calls) ((h.mapMarks onTrace onLabel).make calls'))
    {g : Grammar}
    (hg : g.Outside closed fun h => C.Follows onTrace onLabel calls calls' h ∧ ¬h.IsRef) :
    C.Codes (C.Parsers Eq) (g.make calls) ((g.mapMarks onTrace onLabel).make calls') := by
  induction g with (obtain hg | hg := hg; · exact hclosed _ hg)
  | result v => exact C.codes_pure ((C.parsers_result rfl).label _)
  | zero => exact C.codes_pure (C.parsers_zero Eq)
  | item => exact C.codes_pure C.parsers_item
  | eof => exact C.codes_pure ((Comparison.parsers_eof hg.1.1).mapValue_eq _)
  | anyChar => exact C.codes_pure C.parsers_anyChar
  | ofClass cls => exact C.codes_pure ((C.parsers_ofClass cls).mapValue_eq _)
  | digit => exact C.codes_pure (((C.parsers_charIn _).label _).mapValue_eq _)
  | hexDigit => exact C.codes_pure (((C.parsers_charIn _).label _).mapValue_eq _)
  | spaces => exact C.codes_pure (C.parsers_spaces.mapValue_eq _)
  | word => exact C.codes_pure (C.parsers_word.mapValue_eq _)
  | char wanted => exact C.codes_pure (C.parsers_char wanted)
  | string whole => exact C.codes_lift (C.runs_string whole)
  | oneOf members =>
      refine (C.codes_lift (C.runs_setOf members)).bind fun set _ hset => ?_
      exact C.codes_pure (hset ▸ C.parsers_oneOf set)
  | noneOf members =>
      refine (C.codes_lift (C.runs_setOf members)).bind fun set _ hset => ?_
      exact C.codes_pure (hset ▸ C.parsers_noneOf set)
  | satisfy test =>
      exact C.codes_pure (Comparison.parsers_satisfy fun token => C.codes_noted (test token))
  | constant name successes =>
      refine C.codes_pure ⟨C.names_refl _, fun inp inp' hinp => C.runs_pure ?_⟩
      rw [C.inputs_made hinp]
      have hself : Aligned C.Gaps (fun s t => s = t ∧ s ∈ successes) successes successes := by
        have hrests : ∀ s ∈ successes, C.Inputs ⟨s.2, inp'.made⟩ ⟨s.2, inp'.made⟩ :=
          hg.1.1 inp'.made
        exact .of_forall₂ (List.forall₂_same.2 fun s hs => ⟨rfl, hs⟩)
      exact hself.map fun s _ ⟨hs, hmem⟩ => hs ▸ ⟨rfl, hg.1.1 _ s hmem⟩
  | ref name => exact absurd trivial hg.2
  | after code next ih =>
      refine (C.codes_noted code).bind fun v _ hv => ?_
      exact hv ▸ ih v (hg.2 v)
  | deferred name body ih => exact C.codes_pure ((ih hg.2).parsers name)
  | bind p next ihp ihnext =>
      refine (ihp hg.2.1).bind fun _ _ hp => C.codes_pure (hp.bind fun v _ hv => ?_)
      exact hv ▸ ihnext v (hg.2.2 v)
  | map f p ih =>
      refine (ih hg.2).bind fun _ _ hp => C.codes_pure (hp.map fun v _ hv => ?_)
      exact hv ▸ C.codes_noted (f v)
  | pair p q ihp ihq =>
      refine (ihp hg.2.1).bind fun _ _ hp => (ihq hg.2.2).bind fun _ _ hq => ?_
      refine C.codes_pure ((hp.pair hq).mapValue fun a b hab => ?_)
      rw [Prod.ext hab.1 hab.2]
  | keepRight p q ihp ihq =>
      exact (ihp hg.2.1).bind fun _ _ hp => (ihq hg.2.2).bind fun _ _ hq =>
        C.codes_pure (hp.keepRight hq)
  | keepLeft p q ihp ihq =>
      exact (ihp hg.2.1).bind fun _ _ hp => (ihq hg.2.2).bind fun _ _ hq =>
        C.codes_pure (hp.keepLeft hq)
  | between opening closing p ihopening ihclosing ihp =>
      exact (ihopening hg.2.1).bind fun _ _ hopening =>
        (ihclosing hg.2.2.1).bind fun _ _ hclosing => (ihp hg.2.2.2).bind fun _ _ hp =>
          C.codes_pure (hopening.between hclosing hp)
  | either p q ihp ihq =>
      exact (ihp hg.2.1).bind fun _ _ hp => (ihq hg.2.2).bind fun _ _ hq =>
        C.codes_pure (Comparison.parsers_choice (.cons hp (.cons hq .nil)))
  | orElse p q ihp ihq =>
      exact (ihp hg.2.1).bind fun _ _ hp => (ihq hg.2.2).bind fun _ _ hq =>
        C.codes_pure (hp.orElse hg.1.1.1 hq)
  | first p ih => exact (ih hg.2).bind fun _ _ hp => C.codes_pure (hp.first hg.1.1.1)
  | option v p ih => exact (ih hg.2).bind fun _ _ hp => C.codes_pure (hp.option rfl)
  | optional p ih =>
      exact (ih hg.2).bind fun _ _ hp => C.codes_pure (hp.optional.mapValue_eq _)
  | many p ih => exact (ih hg.2).bind fun _ _ hp => C.codes_pure hp.many.mapList
  | many1 p ih => exact (ih hg.2).bind fun _ _ hp => C.codes_pure hp.many1.mapList
  | count n p ih =>
      refine (ih hg.2).bind fun _ _ hp => ?_
      refine Comparison.Codes.bind (C.codes_getOrRaise _ _) fun k _ hk => ?_
      subst hk
      exact (C.codes_lift (hp.countOf k)).bind fun _ _ h => C.codes_pure h.mapList
  | sepBy p separator ihp ihq =>
      exact (ihp hg.2.1).bind fun _ _ hp => (ihq hg.2.2).bind fun _ _ hq =>
        C.codes_pure (hp.sepBy hq).mapList
  | sepBy1 p separator ihp ihq =>
      exact (ihp hg.2.1).bind fun _ _ hp => (ihq hg.2.2).bind fun _ _ hq =>
        C.codes_pure (hp.sepBy1 hq).mapList
  | chainl1 apply p op ihp ihq =>
      exact (ihp hg.2.1).bind fun _ _ hp => (ihq hg.2.2).bind fun _ _ hq =>
        C.codes_pure (hp.chainl1 (hq.operators apply))
  | chainr1 apply p op ihp ihq =>
      exact (ihp hg.2.1).bind fun _ _ hp => (ihq hg.2.2).bind fun _ _ hq =>
        C.codes_pure (hp.chainr1 (hq.operators apply))
  | lookAhead p ih => exact (ih hg.2).bind fun _ _ hp => C.codes_pure hp.lookAhead
  | notFollowedBy p ih =>
      exact (ih hg.2).bind fun _ _ hp => C.codes_pure ((hp.notFollowedBy hg.1.1.1).mapValue_eq _)
  | trace title p ih => exact hg.1.1.2 (ih hg.2)
  | label name p ih => exact hg.1.1.2 (ih hg.2)

theorem codes_make_of_outside (hmarks : C.FollowsMarks onTrace onLabel) {calls calls' : Calls}
    {closed : Grammar → Prop}
    (hclosed : ∀ h, closed h →
      C.Codes (C.Parsers Eq) (h.make calls) ((h.mapMarks onTrace onLabel).make calls'))
    {g : Grammar} (hg : g.Outside closed fun h => C.Covers h ∧ ¬h.IsRef) :
    C.Codes (C.Parsers Eq) (g.make calls) ((g.mapMarks onTrace onLabel).make calls') :=
  codes_make_of_follows_outside hclosed <|
    hg.mono fun _ hh => ⟨hmarks.follows calls calls' hh.1, hh.2⟩

/-- Whatever holds of the two parses of each named rule holds of the two parses of a grammar. -/
theorem codes_make_of_follows {calls calls' : Calls}
    (hcalls : ∀ name, C.Parsers Eq ⟨some name, calls name⟩ ⟨some name, calls' name⟩) {g : Grammar}
    (hg : g.Everywhere (C.Follows onTrace onLabel calls calls')) :
    C.Codes (C.Parsers Eq) (g.make calls) ((g.mapMarks onTrace onLabel).make calls') := by
  refine codes_make_of_follows_outside (fun h href => ?_) (hg.outside IsRef)
  cases h with
  | ref name => exact C.codes_pure (hcalls name)
  | _ => exact absurd href not_false

theorem codes_make (hmarks : C.FollowsMarks onTrace onLabel) {calls calls' : Calls}
    (hcalls : ∀ name, C.Parsers Eq ⟨some name, calls name⟩ ⟨some name, calls' name⟩) {g : Grammar}
    (hg : g.Everywhere C.Covers) :
    C.Codes (C.Parsers Eq) (g.make calls) ((g.mapMarks onTrace onLabel).make calls') :=
  codes_make_of_follows hcalls (hg.mono fun _ hh => hmarks.follows calls calls' hh)

end Grammar

namespace Rules

variable {C : Comparison} {onTrace onLabel : String → Grammar → Grammar}

theorem parsers_call {rules : Rules}
    (hrules : ∀ depth, ∀ r ∈ rules, r.2.Everywhere
      (C.Follows onTrace onLabel (rules.call depth) ((rules.mapMarks onTrace onLabel).call depth)))
    (depth : Nat) (name : String) :
    C.Parsers Eq ⟨some name, rules.call depth name⟩
      ⟨some name, (rules.mapMarks onTrace onLabel).call depth name⟩ := by
  -- on how deep the uses of rules may be nested: a body sees only calls of less depth
  induction depth generalizing name with
  | zero => exact ⟨C.names_refl _, fun _ _ _ => C.runs_raise _ _⟩
  | succ depth ih =>
      have hmarked := lookup_mapMarks onTrace onLabel rules name
      cases hlookup : rules.lookup name with
      | none =>
          rw [hlookup, Option.map_none] at hmarked
          rw [call_of_unknown hlookup, call_of_unknown hmarked]
          exact ⟨C.names_refl _, fun _ _ _ => C.runs_raise _ _⟩
      | some body =>
          have hbody := hrules depth (name, body) (mem_of_lookup hlookup)
          rw [hlookup, Option.map_some] at hmarked
          rw [call_of_lookup hlookup, call_of_lookup hmarked]
          exact (Grammar.codes_make_of_follows ih hbody).parsers (some name)

/-- Whatever parser is made for a grammar over rules runs in correspondence with the one that is
made when the marks are changed. -/
theorem runs_make_of_follows {rules : Rules} {depth : Nat} {g : Grammar}
    (hrules : ∀ depth, ∀ r ∈ rules, r.2.Everywhere
      (C.Follows onTrace onLabel (rules.call depth) ((rules.mapMarks onTrace onLabel).call depth)))
    (hg : g.Everywhere
      (C.Follows onTrace onLabel (rules.call depth) ((rules.mapMarks onTrace onLabel).call depth))) :
    C.Runs (C.Parsers Eq) (rules.make depth g)
      ((rules.mapMarks onTrace onLabel).make depth (g.mapMarks onTrace onLabel)) := by
  have hmake := Grammar.codes_make_of_follows (parsers_call hrules depth) hg 0
  refine C.runs_bind hmake fun q r hqr => C.runs_pure ?_
  obtain ⟨p, made⟩ := q
  obtain ⟨p', made'⟩ := r
  obtain ⟨hp, rfl⟩ := hqr
  refine ⟨hp.1, fun inp inp' hinp => ?_⟩
  show C.Runs _ (p.run (inp.withMade (made + inp.made))) (p'.run (inp'.withMade (made + inp'.made)))
  rw [C.inputs_made hinp]
  exact hp.2 _ _ (C.inputs_withMade _ hinp)

theorem runs_make (hmarks : C.FollowsMarks onTrace onLabel) {rules : Rules}
    (hrules : ∀ r ∈ rules, r.2.Everywhere C.Covers) (depth : Nat) {g : Grammar}
    (hg : g.Everywhere C.Covers) :
    C.Runs (C.Parsers Eq) (rules.make depth g)
      ((rules.mapMarks onTrace onLabel).make depth (g.mapMarks onTrace onLabel)) :=
  runs_make_of_follows (fun _ r hr => (hrules r hr).mono fun _ hh => hmarks.follows _ _ hh)
    (hg.mono fun _ hh => hmarks.follows _ _ hh)

end Rules

end AllParses
