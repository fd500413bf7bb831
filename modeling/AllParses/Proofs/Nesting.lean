import Mathlib
import AllParses.Proofs.Agreement
import AllParses.Proofs.Correspondence

/-!
# How deep rules are nested

A rule that uses rules only behind a part that consumes something gives each of them less input
than it got itself. So on an input of `n` tokens no more than `n + 1` uses of rules are ever inside
one another, and every parse ends. To say so, the uses that are nested too deep are answered by
something else, whatever it may be: it makes no difference to a parse, not even to its log.
-/

namespace AllParses

variable {α β γ : Type}

/-! ## Guards -/

namespace Grammar

/-- The grammar uses no rule, and whatever parser is made for it leaves less than it was given. -/
def Guards (g : Grammar) : Prop :=
  g.RefFree ∧ ∀ calls, (g.make calls).Ensures Parser.Shortens

/-- What the grammar reads after its first part, it reads behind a guard. -/
def StartsWithGuard : Grammar → Prop
  | bind p _ | pair p _ | keepRight p _ | keepLeft p _ | sepBy p _ | sepBy1 p _ | chainl1 _ p _
  | chainr1 _ p _ => p.Guards
  | between opening _ p => opening.Guards ∨ opening.RefFree ∧ p.Guards
  | _ => False

/-- Rules are used behind guards only. -/
def Guarded (g : Grammar) : Prop := g.Outside StartsWithGuard fun h => ¬h.IsRef

end Grammar

/-! ## Parses of short inputs -/

theorem Run.Agree.eq {ε : Type} {x y : Run ε α} (h : Run.Agree some Eq x y) : x = y := by
  cases h with
  | answer logs answers =>
      rw [List.filterMap_some, List.filterMap_some] at logs
      rw [logs, answers]
  | failure e logs =>
      rw [List.filterMap_some, List.filterMap_some] at logs
      rw [logs]

theorem Run.agree_self {ε δ : Type} (view : ε → Option δ) {x : Run ε α} {P : α → Prop}
    (hx : x.Ensures P) : Run.Agree view (fun a b => a = b ∧ P a) x x := by
  rcases x with ⟨log, e | a⟩
  · exact .failure e rfl
  · exact .answer rfl ⟨rfl, hx a rfl⟩

/-- Parses of one input of less than `n` tokens, which may use different rules. -/
def Comparison.below (n : Nat) : Comparison where
  Gaps := False
  Inputs inp inp' := inp = inp' ∧ inp.length < n
  Names := Eq
  Runs := Run.Agree some
  runs_pure := .pure
  runs_bind := .bind
  runs_extra := False.elim
  runs_note _ := .refl _
  runs_dropped {_ _ p q} hname := by
    rw [Parser.describe, Parser.describe, hname]
    exact .refl _
  names_of_eq h := h
  inputs_made h := congrArg Input.made h.1
  inputs_withMade made h := ⟨congrArg (Input.withMade · made) h.1, h.2⟩
  inputs_shorter hinp hrest := by rw [hinp.1, hrest.1]
  inputs_length _ h := congrArg Input.length h.1
  inputs_next {inp _} h := by
    obtain ⟨rfl, hlt⟩ := h
    cases hnext : inp.next? with
    | none => exact .nil
    | some next =>
        refine .singleton ⟨rfl, rfl, ?_⟩
        rw [Input.eq_drop_of_next? hnext, Input.length_drop]
        exact (Nat.sub_le _ _).trans_lt hlt

namespace Comparison

variable {m n : Nat}

theorem followsMarks_below : (below n).FollowsMarks Grammar.trace Grammar.label := by
  refine followsMarks_of_trace fun title p q hpq => ⟨rfl, fun inp inp' hinp => ?_⟩
  obtain ⟨rfl, hlt⟩ := hinp
  refine Run.Agree.bind (.refl _) fun _ _ _ => ?_
  refine (hpq.2 inp inp ⟨rfl, hlt⟩).bind fun ss ts hst => ?_
  rw [(hst.forall₂ not_false).length_eq]
  exact Run.Agree.bind (.refl _) fun _ _ _ => .pure hst

/-- How code runs has nothing to do with the length of inputs. -/
theorem codes_bind_below {R : α → β → Prop} {S : γ → γ → Prop} {code : Code Entry α}
    {code' : Code Entry β} {f : α → Code Entry γ} {g : β → Code Entry γ}
    (h : (below n).Codes R code code') (hfg : ∀ a b, R a b → (below m).Codes S (f a) (g b)) :
    (below m).Codes S (code >>= f) (code' >>= g) := by
  have hcode : (below m).Codes R code code' := h
  exact hcode.bind hfg

theorem parsers_of_shortens {p : Parser α} (hp : p.Shortens) : (below n).Parsers Eq p p := by
  refine ⟨rfl, fun inp inp' hinp => ?_⟩
  obtain ⟨rfl, hlt⟩ := hinp
  have hself := Run.agree_self some (hp inp)
  refine (below n).runs_mono hself fun ss ts hst => ?_
  obtain ⟨rfl, hshorter⟩ := hst
  apply Aligned.of_forall₂
  apply List.forall₂_same.2
  intro s hs
  have hrest := hshorter s hs
  exact ⟨rfl, rfl, by omega⟩

/-- Behind a guard the inputs are shorter by one token at least. -/
theorem parsers_bind_of_shortens {R : β → γ → Prop} {p : Parser α} (hp : p.Shortens)
    {f : α → Code Entry (Parser β)} {g : α → Code Entry (Parser γ)}
    (hfg : ∀ a, (below n).Codes ((below n).Parsers R) (f a) (g a)) :
    (below (n + 1)).Parsers R (p.bind f) (p.bind g) := by
  refine ⟨rfl, fun inp inp' hinp => ?_⟩
  obtain ⟨rfl, hlt⟩ := hinp
  rw [Parser.run_bind, Parser.run_bind]
  have hafter : (below n).Runs ((below n).Answers R)
      (p.run inp >>= Run.flatMap fun s => (Parser.ofCode (f s.value)).run s.rest)
      (p.run inp >>= Run.flatMap fun s => (Parser.ofCode (g s.value)).run s.rest) := by
    refine (below n).runs_bind (Run.agree_self some (hp inp)) fun ss ts hst => ?_
    obtain ⟨rfl, hshorter⟩ := hst
    have hsame : Aligned (below n).Gaps (fun s t => s = t ∧ s.rest.length < n) ss ss := by
      apply Aligned.of_forall₂
      apply List.forall₂_same.2
      intro s hs
      have hrest := hshorter s hs
      exact ⟨rfl, by omega⟩
    refine (below n).runs_flatMap hsame fun s t hs => ?_
    obtain ⟨rfl, hrest⟩ := hs
    exact ((hfg s.value).parsers none).2 s.rest s.rest ⟨rfl, hrest⟩
  refine (below n).runs_mono hafter fun ss ts hst => hst.mono fun s t hs => ?_
  exact ⟨hs.1, hs.2.1, Nat.lt_succ_of_lt hs.2.2⟩

theorem parsers_pair_of_shortens {p : Parser α} (hp : p.Shortens) {q q' : Parser β}
    (hq : (below n).Parsers Eq q q') :
    (below (n + 1)).Parsers Eq (p.pair q) (p.pair q') :=
  parsers_bind_of_shortens hp fun a => (below n).codes_pure <|
    hq.bind fun _ _ hb => (below n).codes_pure ((below n).parsers_result (congrArg (a, ·) hb))

theorem parsers_keepRight_of_shortens {p : Parser α} (hp : p.Shortens) {q q' : Parser β}
    (hq : (below n).Parsers Eq q q') :
    (below (n + 1)).Parsers Eq (p.keepRight q) (p.keepRight q') :=
  parsers_bind_of_shortens hp fun _ => (below n).codes_pure hq

theorem parsers_keepLeft_of_shortens {p : Parser α} (hp : p.Shortens) {q q' : Parser β}
    (hq : (below n).Parsers Eq q q') :
    (below (n + 1)).Parsers Eq (p.keepLeft q) (p.keepLeft q') :=
  parsers_bind_of_shortens hp fun _ => (below n).codes_pure <|
    hq.bind fun _ _ _ => (below n).codes_pure ((below n).parsers_result rfl)

theorem parsers_sepBy1_of_shortens {p : Parser α} (hp : p.Shortens) {q q' : Parser β}
    (hq : (below n).Parsers Eq q q') :
    (below (n + 1)).Parsers (List.Forall₂ Eq) (p.sepBy1 q) (p.sepBy1 q') :=
  parsers_bind_of_shortens hp fun _ => (below n).codes_pure <|
    (hq.keepRight (parsers_of_shortens hp)).many.map fun _ _ hmore =>
      (below n).codes_pure (.cons rfl hmore)

end Comparison

/-! ## Grammars behind guards -/

namespace Grammar

open AllParses.Comparison

variable {n : Nat} {calls calls' : Calls}

theorem Guards.codes {g : Grammar} (hg : g.Guards) :
    (below n).Codes (fun p q => p = q ∧ p.Shortens) (g.make calls) (g.make calls') := by
  intro made
  rw [hg.1.make_eq calls' calls]
  refine (below n).runs_mono (Run.agree_self some (hg.2 calls made)) fun q r hqr => ?_
  obtain ⟨rfl, hshort⟩ := hqr
  exact ⟨⟨rfl, hshort⟩, rfl⟩

theorem codes_make_below {g : Grammar} (hg : g.HandmadeFree)
    (hcalls : ∀ name, (below n).Parsers Eq ⟨some name, calls name⟩ ⟨some name, calls' name⟩) :
    (below n).Codes ((below n).Parsers Eq) (g.make calls) (g.make calls') := by
  have hmake := codes_make followsMarks_below hcalls (hg.mono fun h => covers_of_not_gaps not_false)
  rwa [mapMarks_trace_label] at hmake

/-- Outside closed parts, a grammar that uses no rules there is made alike for all of them. -/
theorem codes_make_of_outside_below {closed : Grammar → Prop}
    (hclosed : ∀ h, closed h → h.HandmadeFree →
      (below n).Codes ((below n).Parsers Eq) (h.make calls) (h.make calls'))
    {g : Grammar} (hg : g.Outside closed fun h => ¬h.IsRef) (hfree : g.HandmadeFree) :
    (below n).Codes ((below n).Parsers Eq) (g.make calls) (g.make calls') := by
  have hparts : g.Outside (fun h => closed h ∧ h.HandmadeFree)
      fun h => (below n).Covers h ∧ ¬h.IsRef :=
    (hg.and_everywhere hfree).mono fun h hh => ⟨covers_of_not_gaps not_false hh.2, hh.1⟩
  have hmake : (below n).Codes ((below n).Parsers Eq) (g.make calls)
      ((g.mapMarks trace label).make calls') := by
    refine codes_make_of_outside followsMarks_below (fun h hh => ?_) hparts
    rw [mapMarks_trace_label]
    exact hclosed h hh.1 hh.2
  rwa [mapMarks_trace_label] at hmake

theorem RefFree.codes {g : Grammar} (hg : g.RefFree) (hfree : g.HandmadeFree) :
    (below n).Codes ((below n).Parsers Eq) (g.make calls) (g.make calls') := by
  have hparts := (hg.outside fun _ => False).mono fun _ hh => hh.1
  exact codes_make_of_outside_below (fun _ hh => hh.elim) hparts hfree

/-- A guard is made first, and then what is read behind it. -/
theorem Guards.codes_then {p q : Grammar} (hp : p.Guards) (hq : q.HandmadeFree)
    (hcalls : ∀ name, (below n).Parsers Eq ⟨some name, calls name⟩ ⟨some name, calls' name⟩)
    {f : Parser Value → Parser Value → Parser Value}
    (hf : ∀ p q q', p.Shortens → (below n).Parsers Eq q q' →
      (below (n + 1)).Parsers Eq (f p q) (f p q')) :
    (below (n + 1)).Codes ((below (n + 1)).Parsers Eq)
      (do return f (← p.make calls) (← q.make calls))
      (do return f (← p.make calls') (← q.make calls')) := by
  refine hp.codes.bind fun p _ h => ?_
  obtain ⟨rfl, hshort⟩ := h
  exact codes_bind_below (codes_make_below hq hcalls) fun q q' hqq' =>
    (below (n + 1)).codes_pure (hf p q q' hshort hqq')

/-- What starts with a guard may use rules that correspond on shorter inputs only. -/
theorem StartsWithGuard.codes {g : Grammar} (hg : g.StartsWithGuard) (hfree : g.HandmadeFree)
    (hcalls : ∀ name, (below n).Parsers Eq ⟨some name, calls name⟩ ⟨some name, calls' name⟩) :
    (below (n + 1)).Codes ((below (n + 1)).Parsers Eq) (g.make calls) (g.make calls') := by
  cases g with
  | bind p next =>
      refine (Guards.codes hg).bind fun p _ hp => ?_
      obtain ⟨rfl, hshort⟩ := hp
      have hnext (v : Value) := codes_make_below (hfree.2.2 v) hcalls
      exact (below (n + 1)).codes_pure (parsers_bind_of_shortens hshort hnext)
  | pair p q =>
      exact Guards.codes_then hg hfree.2.2 hcalls fun _ _ _ hp hq =>
        (parsers_pair_of_shortens hp hq).mapValue_eq _
  | keepRight p q =>
      exact Guards.codes_then hg hfree.2.2 hcalls fun _ _ _ hp hq =>
        parsers_keepRight_of_shortens hp hq
  | keepLeft p q =>
      exact Guards.codes_then hg hfree.2.2 hcalls fun _ _ _ hp hq =>
        parsers_keepLeft_of_shortens hp hq
  | sepBy p separator =>
      refine Guards.codes_then hg hfree.2.2 hcalls fun _ _ _ hp hq => Parsers.mapList ?_
      have hsome := parsers_sepBy1_of_shortens hp hq
      exact parsers_choice (.cons hsome (.cons ((below (n + 1)).parsers_result .nil) .nil))
  | sepBy1 p separator =>
      exact Guards.codes_then hg hfree.2.2 hcalls fun _ _ _ hp hq =>
        (parsers_sepBy1_of_shortens hp hq).mapList
  | chainl1 apply p op =>
      refine Guards.codes_then hg hfree.2.2 hcalls fun p op op' hp hop => ?_
      have hlinks := (hop.operators apply).pair (parsers_of_shortens hp)
      exact parsers_bind_of_shortens hp fun a =>
        (below n).codes_pure (hlinks.many.map fun _ _ h => codes_foldLeft rfl h)
  | chainr1 apply p op =>
      refine Guards.codes_then hg hfree.2.2 hcalls fun p op op' hp hop => ?_
      have hlinks := (hop.operators apply).pair (parsers_of_shortens hp)
      exact parsers_bind_of_shortens hp fun a =>
        (below n).codes_pure (hlinks.many.map fun _ _ h => codes_foldRight rfl h)
  | between opening closing p =>
      have hclosing := codes_make_below hfree.2.2.1 hcalls
      obtain hopening | ⟨hopening, hp⟩ := hg
      · refine hopening.codes.bind fun opening _ ho => ?_
        obtain ⟨rfl, hshort⟩ := ho
        refine codes_bind_below hclosing fun closing closing' hclosing => ?_
        refine codes_bind_below (codes_make_below hfree.2.2.2 hcalls) fun p p' hp => ?_
        have hinner := hp.keepLeft hclosing
        exact (below (n + 1)).codes_pure (parsers_keepRight_of_shortens hshort hinner)
      · refine (hopening.codes hfree.2.1).bind fun opening opening' ho => ?_
        refine codes_bind_below hclosing fun closing closing' hclosing => ?_
        refine hp.codes.bind fun p _ hp => ?_
        obtain ⟨rfl, hshort⟩ := hp
        have hinner := parsers_keepLeft_of_shortens hshort hclosing
        exact (below (n + 1)).codes_pure (ho.keepRight hinner)
  | _ => exact absurd hg not_false

theorem Guarded.codes {g : Grammar} (hg : g.Guarded) (hfree : g.HandmadeFree)
    (hcalls : ∀ name, (below n).Parsers Eq ⟨some name, calls name⟩ ⟨some name, calls' name⟩) :
    (below (n + 1)).Codes ((below (n + 1)).Parsers Eq) (g.make calls) (g.make calls') :=
  codes_make_of_outside_below (fun _ hstart hh => hstart.codes hh hcalls) hg hfree

end Grammar

/-! ## Rules within rules -/

namespace Rules

open AllParses.Comparison

/-- Uses a named rule as `call` does, but the uses that are nested more than `depth` deep are
answered by `deepest`. -/
def callOver (rules : Rules) (deepest : Grammar.Calls) : Nat → Grammar.Calls
  | 0 => deepest
  | depth + 1 => fun name inp => do
    let body ← Run.getOrRaise (.unknownName name) (rules.lookup name)
    (Parser.ofCode (body.make (rules.callOver deepest depth))).run inp

theorem callOver_tooDeep (rules : Rules) (depth : Nat) :
    rules.callOver (fun _ _ => Run.raise .tooDeep) depth = rules.call depth := by
  induction depth with
  | zero => rfl
  | succ depth ih =>
      funext name inp
      rw [callOver, ih]
      rfl

/-- Makes the parser for a grammar as `make` does, its uses of rules by `callOver`. -/
def makeOver (rules : Rules) (deepest : Grammar.Calls) (depth : Nat) (g : Grammar) :
    Run Entry (Parser Value) := do
  let (p, made) ← (g.make (rules.callOver deepest depth)).run 0
  return ⟨p.name, fun inp => p.run (inp.withMade (made + inp.made))⟩

theorem makeOver_tooDeep (rules : Rules) (depth : Nat) (g : Grammar) :
    rules.makeOver (fun _ _ => Run.raise .tooDeep) depth g = rules.make depth g := by
  rw [makeOver, callOver_tooDeep]
  rfl

/-- On inputs of less than `n` tokens it does not matter how uses of rules are answered that are
nested more than `n` deep. -/
theorem parsers_callOver {rules : Rules}
    (hrules : ∀ r ∈ rules, r.2.HandmadeFree ∧ r.2.Guarded) (deepest deepest' : Grammar.Calls)
    {n depth depth' : Nat} (hdepth : n ≤ depth) (hdepth' : n ≤ depth') (name : String) :
    (below n).Parsers Eq ⟨some name, rules.callOver deepest depth name⟩
      ⟨some name, rules.callOver deepest' depth' name⟩ := by
  induction n generalizing depth depth' name with
  | zero => exact ⟨rfl, fun _ _ hinp => absurd hinp.2 (Nat.not_lt_zero _)⟩
  | succ n ih =>
      obtain ⟨depth, rfl⟩ : ∃ d, depth = d + 1 := ⟨depth - 1, by omega⟩
      obtain ⟨depth', rfl⟩ : ∃ d, depth' = d + 1 := ⟨depth' - 1, by omega⟩
      refine ⟨rfl, fun inp inp' hinp => ?_⟩
      show (below (n + 1)).Runs _ (Run.getOrRaise (.unknownName name) (rules.lookup name) >>= _)
        (Run.getOrRaise (.unknownName name) (rules.lookup name) >>= _)
      cases hlookup : rules.lookup name with
      | none => exact (below (n + 1)).runs_raise _ _
      | some body =>
          obtain ⟨hfree, hguarded⟩ := hrules (name, body) (mem_of_lookup hlookup)
          have hcalls (name : String) : (below n).Parsers Eq
              ⟨some name, rules.callOver deepest depth name⟩
              ⟨some name, rules.callOver deepest' depth' name⟩ := ih (by omega) (by omega) name
          exact ((hguarded.codes hfree hcalls).parsers none).2 inp inp' hinp

/-- If rules are used behind guards only, then a parse, from making the parser to the end, nests
no more uses of rules than there are tokens, and one: however the uses beyond that were answered,
and however many more were allowed, the parse would be the same run. -/
theorem parse_eq_of_guarded {rules : Rules}
    (hrules : ∀ r ∈ rules, r.2.HandmadeFree ∧ r.2.Guarded) {g : Grammar} (hg : g.HandmadeFree)
    {inp : Input} {depth : Nat} (hdepth : inp.length < depth) (deepest : Grammar.Calls) :
    (rules.makeOver deepest depth g >>= fun p => p.run inp) =
      rules.make (inp.length + 1) g >>= fun p => p.run inp := by
  have hcalls := parsers_callOver hrules deepest (fun _ _ => Run.raise .tooDeep)
    (Nat.succ_le_of_lt hdepth) (Nat.le_refl (inp.length + 1))
  have hmake := Grammar.codes_make_below hg hcalls 0
  rw [← makeOver_tooDeep, makeOver, makeOver, bind_assoc, bind_assoc]
  apply Run.Agree.eq
  refine (below (inp.length + 1)).runs_bind hmake fun q q' hq => ?_
  obtain ⟨p, made⟩ := q
  obtain ⟨p', made'⟩ := q'
  obtain ⟨hp, rfl⟩ := hq
  have hrun := hp.2 (inp.withMade (made + inp.made)) _ ⟨rfl, Nat.lt_succ_self inp.length⟩
  exact (below (inp.length + 1)).runs_mono hrun fun _ _ =>
    (below _).eq_of_answers not_false fun _ _ hinp => hinp.1

/-- Any number of trees in brackets, in which there may be further ones. -/
def brackets : Rules :=
  [("tree", .keepRight (.char (.char '(')) (.keepLeft (.many (.ref "tree")) (.char (.char ')'))))]

theorem parse_eq_of_guarded_brackets :
    (∀ r ∈ brackets, r.2.HandmadeFree ∧ r.2.Guarded) ∧ (Grammar.many (.ref "tree")).HandmadeFree ∧
      (Input.start (.text ['(', '(', ')', ')'])).length < 5 ∧
      (brackets.make 5 (.many (.ref "tree")) >>= fun p =>
          p.run (.start (.text ['(', '(', ')', ')']))).result =
        .ok [⟨.list [.list [.list []]], .start (.text [])⟩,
          ⟨.list [], .start (.text ['(', '(', ')', ')'])⟩] ∧
      (brackets.makeOver (fun name _ => Run.raise (.raised name)) 5 (.many (.ref "tree")) >>= fun p =>
          p.run (.start (.text ['(', '(', ')', ')']))).result =
        .ok [⟨.list [.list [.list []]], .start (.text [])⟩,
          ⟨.list [], .start (.text ['(', '(', ')', ')'])⟩] := by
  have hguard : (Grammar.char (.char '(')).Guards := by
    refine ⟨by simp [Grammar.RefFree, Grammar.Everywhere, Grammar.IsRef], fun calls => ?_⟩
    exact Code.ensures_pure (Parser.shortens_char _)
  have hrules : ∀ r ∈ brackets, r.2.HandmadeFree ∧ r.2.Guarded := by
    intro r hr
    rw [List.mem_singleton.1 hr]
    refine ⟨?_, .inl hguard⟩
    simp [Grammar.HandmadeFree, Grammar.Everywhere, Grammar.IsConstant]
  have hg : (Grammar.many (.ref "tree")).HandmadeFree := by
    simp [Grammar.HandmadeFree, Grammar.Everywhere, Grammar.IsConstant]
  have hdepth : (Input.start (.text ['(', '(', ')', ')'])).length < 5 := by decide
  have hrun : (brackets.make 5 (.many (.ref "tree")) >>= fun p =>
      p.run (.start (.text ['(', '(', ')', ')']))).result =
      .ok [⟨.list [.list [.list []]], .start (.text [])⟩,
        ⟨.list [], .start (.text ['(', '(', ')', ')'])⟩] := by cbv
  have hsame := parse_eq_of_guarded hrules hg hdepth fun name _ => Run.raise (.raised name)
  exact ⟨hrules, hg, hdepth, hrun, (congrArg Run.result hsame).trans hrun⟩

end Rules

end AllParses
