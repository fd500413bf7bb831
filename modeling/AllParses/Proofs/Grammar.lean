import AllParses.Grammar.Basic

/-!
# The parts of a grammar

A grammar is a tree whose branches may depend on values: a continuation stands for one part for
each value that it may be given. What is claimed of all parsers of the library is claimed of
grammars of which every part is of a certain form.
-/

namespace AllParses.Grammar

/-- Every part of the grammar has the property, the grammar itself and all that its continuations
can make of a value included. -/
def Everywhere (P : Grammar → Prop) : Grammar → Prop
  | g@(after _ next) => P g ∧ ∀ v, (next v).Everywhere P
  | g@(bind p next) => P g ∧ p.Everywhere P ∧ ∀ v, (next v).Everywhere P
  | g@(deferred _ p) | g@(map _ p) | g@(first p) | g@(option _ p) | g@(optional p) | g@(many p)
  | g@(many1 p) | g@(count _ p) | g@(lookAhead p) | g@(notFollowedBy p) | g@(trace _ p)
  | g@(label _ p) => P g ∧ p.Everywhere P
  | g@(pair p q) | g@(keepRight p q) | g@(keepLeft p q) | g@(either p q) | g@(orElse p q)
  | g@(sepBy p q) | g@(sepBy1 p q) | g@(chainl1 _ p q) | g@(chainr1 _ p q) =>
    P g ∧ p.Everywhere P ∧ q.Everywhere P
  | g@(between p q r) => P g ∧ p.Everywhere P ∧ q.Everywhere P ∧ r.Everywhere P
  | g => P g
termination_by structural g => g

theorem Everywhere.mono {P Q : Grammar → Prop} (hPQ : ∀ h, P h → Q h) {g : Grammar}
    (hg : g.Everywhere P) : g.Everywhere Q := by
  induction g <;> simp_all [Everywhere]

theorem everywhere_of_forall {P : Grammar → Prop} (hP : ∀ h, P h) (g : Grammar) :
    g.Everywhere P := by
  induction g <;> simp_all [Everywhere]

theorem Everywhere.and {P Q : Grammar → Prop} {g : Grammar} (hP : g.Everywhere P)
    (hQ : g.Everywhere Q) : g.Everywhere fun h => P h ∧ Q h := by
  induction g <;> grind [Everywhere]

theorem everywhere_forall {ι : Type} {P : ι → Grammar → Prop} {g : Grammar}
    (h : ∀ i, g.Everywhere (P i)) : g.Everywhere fun part => ∀ i, P i part := by
  induction g with
  | after _ _ ih => exact ⟨fun i => (h i).1, fun v => ih v fun i => (h i).2 v⟩
  | bind _ _ ihp ihnext =>
      exact ⟨fun i => (h i).1, ihp fun i => (h i).2.1, fun v => ihnext v fun i => (h i).2.2 v⟩
  | deferred _ _ ih | map _ _ ih | first _ ih | option _ _ ih | optional _ ih | many _ ih
  | many1 _ ih | count _ _ ih | lookAhead _ ih | notFollowedBy _ ih | trace _ _ ih
  | label _ _ ih => exact ⟨fun i => (h i).1, ih fun i => (h i).2⟩
  | pair _ _ ihp ihq | keepRight _ _ ihp ihq | keepLeft _ _ ihp ihq | either _ _ ihp ihq
  | orElse _ _ ihp ihq | sepBy _ _ ihp ihq | sepBy1 _ _ ihp ihq | chainl1 _ _ _ ihp ihq
  | chainr1 _ _ _ ihp ihq =>
      exact ⟨fun i => (h i).1, ihp fun i => (h i).2.1, ihq fun i => (h i).2.2⟩
  | between _ _ _ ihopening ihclosing ihp =>
      exact ⟨fun i => (h i).1, ihopening fun i => (h i).2.1, ihclosing fun i => (h i).2.2.1,
        ihp fun i => (h i).2.2.2⟩
  | _ => exact h

/-- The part occurs in the grammar: it has whatever property all parts have. -/
def IsPartOf (part g : Grammar) : Prop := ∀ P : Grammar → Prop, g.Everywhere P → P part

theorem everywhere_isPartOf (g : Grammar) : g.Everywhere fun part => part.IsPartOf g := by
  have hall : g.Everywhere fun part => ∀ P : {P // g.Everywhere P}, P.1 part :=
    everywhere_forall fun P => P.2
  exact hall.mono fun part hpart P hP => hpart ⟨P, hP⟩

/-- Every part of the grammar has the property, apart from the parts that are `closed`, with all
that is in them. -/
def Outside (closed P : Grammar → Prop) : Grammar → Prop
  | g@(after _ next) => closed g ∨ P g ∧ ∀ v, (next v).Outside closed P
  | g@(bind p next) => closed g ∨ P g ∧ p.Outside closed P ∧ ∀ v, (next v).Outside closed P
  | g@(deferred _ p) | g@(map _ p) | g@(first p) | g@(option _ p) | g@(optional p) | g@(many p)
  | g@(many1 p) | g@(count _ p) | g@(lookAhead p) | g@(notFollowedBy p) | g@(trace _ p)
  | g@(label _ p) => closed g ∨ P g ∧ p.Outside closed P
  | g@(pair p q) | g@(keepRight p q) | g@(keepLeft p q) | g@(either p q) | g@(orElse p q)
  | g@(sepBy p q) | g@(sepBy1 p q) | g@(chainl1 _ p q) | g@(chainr1 _ p q) =>
    closed g ∨ P g ∧ p.Outside closed P ∧ q.Outside closed P
  | g@(between p q r) =>
    closed g ∨ P g ∧ p.Outside closed P ∧ q.Outside closed P ∧ r.Outside closed P
  | g => closed g ∨ P g
termination_by structural g => g

theorem Everywhere.outside {P : Grammar → Prop} {g : Grammar} (hg : g.Everywhere P)
    (closed : Grammar → Prop) : g.Outside closed fun h => P h ∧ ¬closed h := by
  induction g <;> simp_all [Everywhere, Outside, Classical.em]

theorem Outside.mono {closed P Q : Grammar → Prop} (hPQ : ∀ h, P h → Q h) {g : Grammar}
    (hg : g.Outside closed P) : g.Outside closed Q := by
  induction g <;> grind [Outside]

theorem Outside.and_everywhere {closed P Q : Grammar → Prop} {g : Grammar}
    (hg : g.Outside closed P) (hQ : g.Everywhere Q) :
    g.Outside (fun h => closed h ∧ h.Everywhere Q) fun h => P h ∧ Q h := by
  induction g <;> grind [Everywhere, Outside]

/-- The grammar is a parser made by hand. -/
def IsConstant : Grammar → Prop
  | constant _ _ => True
  | _ => False

/-- The grammar is a use of a named rule. -/
def IsRef : Grammar → Prop
  | ref _ => True
  | _ => False

/-- No part of the grammar is a use of a named rule. -/
def RefFree (g : Grammar) : Prop := g.Everywhere fun h => ¬h.IsRef

/-- Without uses of rules it does not matter what they do. -/
theorem RefFree.make_eq {g : Grammar} (hg : g.RefFree) (calls calls' : Calls) :
    g.make calls = g.make calls' := by
  unfold RefFree at hg
  induction g <;> simp_all [make, Everywhere, IsRef]

/-- No part of the grammar is a parser made by hand: all of it comes from the library. -/
def HandmadeFree (g : Grammar) : Prop := g.Everywhere fun h => ¬h.IsConstant

/-! ## Marks

Traces and labels mark parts of a grammar.
-/

/-- The grammar with other marks, in its continuations too: `onTrace` and `onLabel` say what takes
the place of a mark on a part. -/
def mapMarks (onTrace onLabel : String → Grammar → Grammar) : Grammar → Grammar
  | after code next => after code fun v => (next v).mapMarks onTrace onLabel
  | deferred name body => deferred name (body.mapMarks onTrace onLabel)
  | bind p next => bind (p.mapMarks onTrace onLabel) fun v => (next v).mapMarks onTrace onLabel
  | map f p => map f (p.mapMarks onTrace onLabel)
  | pair p q => pair (p.mapMarks onTrace onLabel) (q.mapMarks onTrace onLabel)
  | keepRight p q => keepRight (p.mapMarks onTrace onLabel) (q.mapMarks onTrace onLabel)
  | keepLeft p q => keepLeft (p.mapMarks onTrace onLabel) (q.mapMarks onTrace onLabel)
  | between opening closing p =>
    between (opening.mapMarks onTrace onLabel) (closing.mapMarks onTrace onLabel)
      (p.mapMarks onTrace onLabel)
  | either p q => either (p.mapMarks onTrace onLabel) (q.mapMarks onTrace onLabel)
  | orElse p q => orElse (p.mapMarks onTrace onLabel) (q.mapMarks onTrace onLabel)
  | first p => first (p.mapMarks onTrace onLabel)
  | option v p => option v (p.mapMarks onTrace onLabel)
  | optional p => optional (p.mapMarks onTrace onLabel)
  | many p => many (p.mapMarks onTrace onLabel)
  | many1 p => many1 (p.mapMarks onTrace onLabel)
  | count n p => count n (p.mapMarks onTrace onLabel)
  | sepBy p separator => sepBy (p.mapMarks onTrace onLabel) (separator.mapMarks onTrace onLabel)
  | sepBy1 p separator => sepBy1 (p.mapMarks onTrace onLabel) (separator.mapMarks onTrace onLabel)
  | chainl1 apply p op =>
    chainl1 apply (p.mapMarks onTrace onLabel) (op.mapMarks onTrace onLabel)
  | chainr1 apply p op =>
    chainr1 apply (p.mapMarks onTrace onLabel) (op.mapMarks onTrace onLabel)
  | lookAhead p => lookAhead (p.mapMarks onTrace onLabel)
  | notFollowedBy p => notFollowedBy (p.mapMarks onTrace onLabel)
  | trace title p => onTrace title (p.mapMarks onTrace onLabel)
  | label name p => onLabel name (p.mapMarks onTrace onLabel)
  | g => g
termination_by structural g => g

theorem mapMarks_trace_label (g : Grammar) : g.mapMarks trace label = g := by
  induction g <;> simp_all [mapMarks]

end AllParses.Grammar

namespace AllParses.Rules

theorem mem_of_lookup {rules : Rules} {name : String} {body : Grammar}
    (h : rules.lookup name = some body) : (name, body) ∈ rules := by
  obtain ⟨before, others, hsplit, _⟩ := List.lookup_eq_some_iff.1 h
  rw [hsplit]
  simp

theorem call_of_lookup {rules : Rules} {name : String} {body : Grammar}
    (h : rules.lookup name = some body) (depth : Nat) :
    rules.call (depth + 1) name = (Parser.ofCode (body.make (rules.call depth))).run := by
  funext inp
  rw [call, h]
  rfl

theorem call_of_unknown {rules : Rules} {name : String} (h : rules.lookup name = none)
    (depth : Nat) : rules.call (depth + 1) name = fun _ => Run.raise (.unknownName name) := by
  funext inp
  rw [call, h]
  rfl

/-- The same names, their grammars with other marks. -/
def mapMarks (onTrace onLabel : String → Grammar → Grammar) (rules : Rules) : Rules :=
  rules.map fun (name, body) => (name, body.mapMarks onTrace onLabel)

theorem mapMarks_trace_label (rules : Rules) :
    rules.mapMarks Grammar.trace Grammar.label = rules := by
  simp [mapMarks, Grammar.mapMarks_trace_label]

theorem lookup_mapMarks (onTrace onLabel : String → Grammar → Grammar) (rules : Rules)
    (name : String) :
    (rules.mapMarks onTrace onLabel).lookup name =
      (rules.lookup name).map (Grammar.mapMarks onTrace onLabel) := by
  induction rules with
  | nil => rfl
  | cons r rules ih =>
      rw [mapMarks, List.map_cons, List.lookup_cons, List.lookup_cons, ← mapMarks, ih]
      cases name == r.1 <;> rfl

end AllParses.Rules
