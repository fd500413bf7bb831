import AllParses.Proofs.Correspondence

/-!
# Longer inputs

A grammar that explores everything, with no part that asks for the end of the input or for the
failure of another part, loses nothing when the input is made longer. What it found in the shorter
input it finds again, in the same order and as many times, with more left over; new results may
stand in between.
-/

namespace AllParses

variable {α : Type}

namespace Sequence

/-- The tokens of the second sequence after those of the first. Sequences of different kinds
cannot be put together; then the first stays as it is. -/
def append : Sequence → Sequence → Sequence
  | text cs, text ds => text (cs ++ ds)
  | bytes as, bytes bs => bytes (as ++ bs)
  | list vs, list ws => list (vs ++ ws)
  | tuple vs, tuple ws => tuple (vs ++ ws)
  | seq, _ => seq

instance : Append Sequence := ⟨append⟩

/-- Sequences kept in the same way. -/
def SameKind (seq t : Sequence) : Prop := seq.toValue.kind = t.toValue.kind

theorem length_append {seq t : Sequence} (h : seq.SameKind t) :
    (seq ++ t).length = seq.length + t.length := by
  cases seq <;> cases t <;> first | exact List.length_append | cases h

theorem sameKind_drop {seq t : Sequence} (n : Nat) (h : seq.SameKind t) :
    (seq.drop n).SameKind t := by
  cases seq <;> exact h

theorem next?_append {seq t rest : Sequence} {token : Value} (h : seq.next? = some (token, rest)) :
    (seq ++ t).next? = some (token, rest ++ t) := by
  cases seq with
  | text cs =>
    cases cs with
    | nil => cases h
    | cons c cs => cases h; cases t <;> rfl
  | bytes bs =>
    cases bs with
    | nil => cases h
    | cons b bs => cases h; cases t <;> rfl
  | list vs =>
    cases vs with
    | nil => cases h
    | cons v vs => cases h; cases t <;> rfl
  | tuple vs =>
    cases vs with
    | nil => cases h
    | cons v vs => cases h; cases t <;> rfl

end Sequence

/-- The input with more to be read at its end. -/
def Input.append (inp : Input) (t : Sequence) : Input := ⟨inp.sequence ++ t, inp.made⟩

/-- The success with more left over. -/
def Success.append (t : Sequence) (s : Success α) : Success α := ⟨s.value, s.rest.append t⟩

theorem Input.next?_append {inp rest : Input} {token : Value} (t : Sequence)
    (h : inp.next? = some (token, rest)) : (inp.append t).next? = some (token, rest.append t) := by
  obtain ⟨⟨first, following⟩, hnext, hpair⟩ := Option.map_eq_some_iff.1 h
  cases hpair
  exact Option.map_eq_some_iff.2 ⟨_, Sequence.next?_append hnext, rfl⟩

theorem Aligned.nil_left {β : Type} {gaps : Prop} (hgaps : gaps) {R : α → β → Prop} (bs : List β) :
    Aligned gaps R [] bs := by
  induction bs with
  | nil => exact .nil
  | cons b bs ih => exact .gap hgaps ih

/-- With gaps, the images of the first list make a sublist of the second. -/
theorem Aligned.map_sublist {β : Type} {gaps : Prop} {f : α → β} {as : List α} {bs : List β}
    (h : Aligned gaps (fun a b => f a = b) as bs) : (as.map f).Sublist bs := by
  induction h with
  | nil => exact .refl []
  | cons head _ ih =>
      subst head
      exact .cons_cons _ ih
  | gap _ _ ih => exact .cons _ ih

/-- Parses of an input and of the same input with `t` after it, where both answer. -/
def Comparison.extension (t : Sequence) : Comparison where
  Gaps := True
  Inputs inp inp' := inp.sequence.SameKind t ∧ inp' = inp.append t
  Names _ _ := True
  Runs R x y := ∀ a b, x.result = .ok a → y.result = .ok b → R a b
  runs_pure hab := by
    rintro _ _ ⟨⟩ ⟨⟩
    exact hab
  runs_bind hxy hfg := by
    intro c d hc hd
    obtain ⟨a, ha, hfa⟩ := Run.result_bind_eq_ok_iff.1 hc
    obtain ⟨b, hb, hgb⟩ := Run.result_bind_eq_ok_iff.1 hd
    exact hfg a b (hxy a b ha hb) c d hfa hgb
  runs_extra _ hg := by
    intro a c ha hc
    obtain ⟨b, _, hgb⟩ := Run.result_bind_eq_ok_iff.1 hc
    exact hg b a c ha hgb
  runs_note x := by
    intro a b ha hb
    rw [ha] at hb
    exact Except.ok.inj hb
  runs_dropped _ _ _ _ _ := rfl
  names_of_eq _ := trivial
  inputs_made h := by
    rw [h.2]
    rfl
  inputs_withMade made h := ⟨h.1, by rw [h.2]; rfl⟩
  inputs_shorter {inp inp' rest rest'} hinp hrest := by
    have hlength : inp'.length = inp.length + t.length := by
      rw [hinp.2]
      exact Sequence.length_append hinp.1
    have hlength' : rest'.length = rest.length + t.length := by
      rw [hrest.2]
      exact Sequence.length_append hrest.1
    rw [hlength, hlength', Nat.add_lt_add_iff_right]
  inputs_length hgaps := absurd trivial hgaps
  inputs_next {inp inp'} h := by
    obtain ⟨hkind, rfl⟩ := h
    cases hnext : inp.next? with
    | none => exact .nil_left trivial _
    | some next =>
        rw [Input.next?_append t hnext]
        refine .singleton ⟨rfl, ?_, rfl⟩
        rw [Input.eq_drop_of_next? hnext]
        exact Sequence.sameKind_drop 1 hkind

/-- A trace adds nothing but records. -/
theorem Parser.result_trace (title : String) (p : Parser α) (inp : Input) :
    ((p.trace title).run inp).result = (p.run inp).result := by
  rcases h : p.run inp with ⟨log, e | ss⟩ <;>
    simp [Parser.trace, h, Run.emit, Run.ok_bind, Run.error_bind, Run.map_ok]

theorem Comparison.followsMarks_extension (t : Sequence) :
    (Comparison.extension t).FollowsMarks Grammar.trace Grammar.label := by
  refine Comparison.followsMarks_of_trace fun title p q hpq => ⟨trivial, fun inp inp' hinp => ?_⟩
  intro ss ts hss hts
  rw [Parser.result_trace] at hss hts
  exact hpq.2 inp inp' hinp ss ts hss hts

namespace Grammar

/-- The answer of the grammar hangs on there being nothing: no token, or no success of a part. -/
def NeedsAbsence : Grammar → Prop
  | eof | first _ | orElse _ _ | notFollowedBy _ => True
  | _ => False

/-- No part of the grammar is made by hand or hangs on the absence of something. -/
def ExploresAll (g : Grammar) : Prop := g.Everywhere fun h => ¬h.IsConstant ∧ ¬h.NeedsAbsence

end Grammar

/-- If the input is made longer, then a parser that explores everything finds again what it found,
in the same order and as many times: with the addition left over as well, the results are a sublist
of those in the longer input. -/
theorem results_sublist_of_append {rules : Rules} (hrules : ∀ r ∈ rules, r.2.ExploresAll)
    {depth : Nat} {g : Grammar} (hg : g.ExploresAll) {p : Parser Value}
    (hp : (rules.make depth g).result = .ok p) {inp : Input} {t : Sequence}
    (hkind : inp.sequence.SameKind t) {rs rs' : List (Success Value)}
    (hrs : (p.run inp).result = .ok rs) (hrs' : (p.run (inp.append t)).result = .ok rs') :
    (rs.map (Success.append t)).Sublist rs' := by
  have hcovers : ∀ h : Grammar, ¬h.IsConstant ∧ ¬h.NeedsAbsence →
      (Comparison.extension t).Covers h := by
    intro h hpart
    cases h with
    | constant => exact absurd trivial hpart.1
    | eof | first | orElse | notFollowedBy => exact absurd trivial hpart.2
    | _ => trivial
  have hmake := Rules.runs_make (Comparison.followsMarks_extension t)
    (fun r hr => (hrules r hr).mono hcovers) depth (hg.mono hcovers)
  rw [Rules.mapMarks_trace_label, Grammar.mapMarks_trace_label] at hmake
  have hparsers : (Comparison.extension t).Parsers Eq p p := hmake p p hp hp
  have haligned := hparsers.2 inp (inp.append t) ⟨hkind, rfl⟩ rs rs' hrs hrs'
  have hsame : Aligned True (fun s s' => Success.append t s = s') rs rs' := by
    refine haligned.mono fun s s' hs => ?_
    obtain ⟨value', rest'⟩ := s'
    obtain ⟨hvalue, -, hrest⟩ := hs
    rw [Success.append, hvalue, show rest' = s.rest.append t from hrest]
  exact hsame.map_sublist

/-- Digits one or two at a time: with a third digit there are results in between the old ones. -/
theorem pieces_sublist_of_append :
    ∃ p : Parser Value,
      (Grammar.many (.either .digit (.pair .digit .digit))).ExploresAll ∧
      (Rules.make [] 0 (.many (.either .digit (.pair .digit .digit)))).result = .ok p ∧
      (Sequence.text ['1', '2']).SameKind (.text ['3']) ∧
      (p.run (.start (.text ['1', '2']))).result =
        .ok [⟨.list [.char '1', .char '2'], .start (.text [])⟩,
          ⟨.list [.char '1'], .start (.text ['2'])⟩,
          ⟨.list [.tuple [.char '1', .char '2']], .start (.text [])⟩,
          ⟨.list [], .start (.text ['1', '2'])⟩] ∧
      ∃ rs', (p.run (.start (.text ['1', '2', '3']))).result = .ok rs' ∧ rs'.length = 7 ∧
        [⟨.list [.char '1', .char '2'], .start (.text ['3'])⟩,
          ⟨.list [.char '1'], .start (.text ['2', '3'])⟩,
          ⟨.list [.tuple [.char '1', .char '2']], .start (.text ['3'])⟩,
          ⟨.list [], .start (.text ['1', '2', '3'])⟩].Sublist rs' := by
  have hg : (Grammar.many (.either .digit (.pair .digit .digit))).ExploresAll := by
    simp [Grammar.ExploresAll, Grammar.Everywhere, Grammar.IsConstant, Grammar.NeedsAbsence]
  obtain ⟨p, hp, hrun, rs', hrun', hlength⟩ : ∃ p : Parser Value,
      (Rules.make [] 0 (.many (.either .digit (.pair .digit .digit)))).result = .ok p ∧
      (p.run (.start (.text ['1', '2']))).result =
        .ok [⟨.list [.char '1', .char '2'], .start (.text [])⟩,
          ⟨.list [.char '1'], .start (.text ['2'])⟩,
          ⟨.list [.tuple [.char '1', .char '2']], .start (.text [])⟩,
          ⟨.list [], .start (.text ['1', '2'])⟩] ∧
      ∃ rs', (p.run (.start (.text ['1', '2', '3']))).result = .ok rs' ∧ rs'.length = 7 :=
    ⟨_, rfl, by cbv, _, by cbv, by cbv⟩
  have hkind : (Sequence.text ['1', '2']).SameKind (.text ['3']) := rfl
  exact ⟨p, hg, hp, hkind, hrun, rs', hrun', hlength,
    results_sublist_of_append (t := .text ['3']) (by simp) hg hp hkind hrun hrun'⟩

end AllParses
