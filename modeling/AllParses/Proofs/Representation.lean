import Mathlib
import AllParses.Parser.Outcome
import AllParses.Proofs.Agreement
import AllParses.Proofs.Correspondence

/-!
# Sequences that hold the same tokens

A parser sees an input only through its tokens: the first one, and whether there is one. So it does
not matter how the tokens are kept. A text, the list of its characters and the tuple of its
characters are parsed alike, and so are bytes and the list or tuple of their numbers. The results
have the same values and leave the same suffixes, errors are the same, and the logs differ only in
how a trace shows the input.
-/

namespace AllParses

/-- The same record, what a trace saw of the input being shown as a list of tokens. -/
def Entry.tokenwise : Entry → Entry
  | trying label seen => trying label (.list seen.tokens)
  | entry => entry

/-- The same number of tokens is dropped from one sequence and from the other. -/
def SameSuffix (seq seq' rest rest' : Sequence) : Prop :=
  ∃ k ≤ seq.length, rest = seq.drop k ∧ rest' = seq'.drop k

namespace SameSuffix

variable {seq seq' rest rest' : Sequence}

theorem refl (seq seq' : Sequence) : SameSuffix seq seq' seq seq' :=
  ⟨0, Nat.zero_le _, (seq.drop_zero).symm, (seq'.drop_zero).symm⟩

theorem tokens_eq (htokens : seq.tokens = seq'.tokens) (h : SameSuffix seq seq' rest rest') :
    rest.tokens = rest'.tokens := by
  obtain ⟨k, -, rfl, rfl⟩ := h
  rw [Sequence.tokens_drop, Sequence.tokens_drop, htokens]

theorem length_eq (htokens : seq.tokens = seq'.tokens) (h : SameSuffix seq seq' rest rest') :
    rest.length = rest'.length := by
  rw [← Sequence.length_tokens, ← Sequence.length_tokens, h.tokens_eq htokens]

theorem drop_one (h : SameSuffix seq seq' rest rest') (hpos : 0 < rest.length) :
    SameSuffix seq seq' (rest.drop 1) (rest'.drop 1) := by
  obtain ⟨k, hk, rfl, rfl⟩ := h
  rw [Sequence.length_drop] at hpos
  exact ⟨k + 1, by omega, Sequence.drop_drop k 1 seq, Sequence.drop_drop k 1 seq'⟩

end SameSuffix

/-- Parses of two sequences that hold the same tokens. -/
def Comparison.representations {seq seq' : Sequence} (htokens : seq.tokens = seq'.tokens) :
    Comparison where
  Gaps := False
  Inputs inp inp' := inp.made = inp'.made ∧ SameSuffix seq seq' inp.sequence inp'.sequence
  Names := Eq
  Runs := Run.Agree fun entry => some entry.tokenwise
  runs_pure := .pure
  runs_bind := .bind
  runs_extra := False.elim
  runs_note _ := .refl _
  runs_dropped {_ _ p q} hname := by
    refine .emit ?_
    rw [Parser.describe, Parser.describe, hname]
  names_of_eq h := h
  inputs_made h := h.1
  inputs_withMade _ h := ⟨rfl, h.2⟩
  inputs_shorter {_ _ _ _} hinp hrest := by
    rw [Input.length, Input.length, hinp.2.length_eq htokens, hrest.2.length_eq htokens]
    rfl
  inputs_length _ h := h.2.length_eq htokens
  inputs_next {inp inp'} h := by
    obtain ⟨hmade, hsuffix⟩ := h
    rw [Input.next?, Input.next?, Sequence.next?_eq, Sequence.next?_eq inp'.sequence,
      hsuffix.tokens_eq htokens]
    cases hhead : inp'.sequence.tokens.head? with
    | none => exact .nil
    | some token =>
        have hpos : 0 < inp.sequence.length := by
          rw [hsuffix.length_eq htokens, ← Sequence.length_tokens]
          exact List.length_pos_of_mem (List.mem_of_mem_head? hhead)
        exact .singleton ⟨rfl, hmade, hsuffix.drop_one hpos⟩

theorem Comparison.followsMarks_representations {seq seq' : Sequence}
    (htokens : seq.tokens = seq'.tokens) :
    (Comparison.representations htokens).FollowsMarks Grammar.trace Grammar.label := by
  refine Comparison.followsMarks_of_trace fun title p q hpq => ⟨rfl, fun inp inp' hinp => ?_⟩
  have hseen : (inp.sequence.take 30).tokens = (inp'.sequence.take 30).tokens := by
    rw [Sequence.tokens_take, Sequence.tokens_take, hinp.2.tokens_eq htokens]
  have htrying : Entry.tokenwise (.trying title (inp.sequence.take 30)) =
      Entry.tokenwise (.trying title (inp'.sequence.take 30)) := by
    rw [Entry.tokenwise, Entry.tokenwise, hseen]
  have hemit : Run.Agree (fun entry => some (Entry.tokenwise entry)) Eq
      (Run.emit (.trying title (inp.sequence.take 30)))
      (Run.emit (.trying title (inp'.sequence.take 30))) := .emit (congrArg some htrying)
  refine hemit.bind fun _ _ _ => ?_
  refine (hpq.2 inp inp' hinp).bind fun ss ts hst => ?_
  rw [(hst.forall₂ not_false).length_eq]
  exact (Run.Agree.emit rfl).bind fun _ _ _ => .pure hst

/-! ## What the drivers choose -/

section Outcomes

variable {α : Type} {seq seq' : Sequence}

/-- The same value, and the same number of tokens dropped. -/
def SameSuccess (seq seq' : Sequence) (r r' : Success α) : Prop :=
  r.value = r'.value ∧ SameSuffix seq seq' r.rest.sequence r'.rest.sequence

/-- The same value, or errors with the same message that tell of the same suffix. -/
def SameOutcome (seq seq' : Sequence) : Except ParseError α → Except ParseError α → Prop
  | .ok a, .ok a' => a = a'
  | .error e, .error e' =>
    e.message = e'.message ∧ ∃ rest rest', e.remainder = some rest ∧ e'.remainder = some rest' ∧
      SameSuffix seq seq' rest rest'
  | _, _ => False

theorem SameSuffix.isEmpty_eq {rest rest' : Sequence} (htokens : seq.tokens = seq'.tokens)
    (h : SameSuffix seq seq' rest rest') : rest.isEmpty = rest'.isEmpty := by
  rw [Bool.eq_iff_iff, Sequence.isEmpty_iff, Sequence.isEmpty_iff, h.length_eq htokens]

theorem complete_eq_of_sameSuccess (htokens : seq.tokens = seq'.tokens)
    {rs rs' : List (Success α)} (h : List.Forall₂ (SameSuccess seq seq') rs rs') :
    complete rs = complete rs' := by
  induction h with
  | nil => rfl
  | @cons r r' rs rs' head _ ih =>
      obtain ⟨hvalue, hsuffix⟩ := head
      have hempty : r.rest.isEmpty = r'.rest.isEmpty := hsuffix.isEmpty_eq htokens
      unfold complete at ih ⊢
      cases hcase : r'.rest.isEmpty with
      | false => rwa [List.filter_cons_of_neg (by simp [hempty, hcase]),
          List.filter_cons_of_neg (by simp [hcase])]
      | true =>
          rw [List.filter_cons_of_pos (by simp [hempty, hcase]),
            List.filter_cons_of_pos (by simp [hcase]), List.map_cons, List.map_cons, ih, hvalue]

theorem sameSuffix_shortest (htokens : seq.tokens = seq'.tokens) {best best' : Input}
    {others others' : List Input} (hbest : SameSuffix seq seq' best.sequence best'.sequence)
    (hothers : List.Forall₂ (fun inp inp' => SameSuffix seq seq' inp.sequence inp'.sequence)
      others others') :
    SameSuffix seq seq' (shortest best others).sequence (shortest best' others').sequence := by
  induction hothers generalizing best best' with
  | nil => exact hbest
  | @cons inp inp' others others' head _ ih =>
      have hlength : inp.length = inp'.length := head.length_eq htokens
      have hbestLength : best.length = best'.length := hbest.length_eq htokens
      rw [shortest, shortest, hlength, hbestLength]
      split
      · exact ih head
      · exact ih hbest

theorem sameOutcome_chosen {inp inp' : Input}
    (htokens : inp.sequence.tokens = inp'.sequence.tokens) {rs rs' : List (Success α)}
    (h : List.Forall₂ (SameSuccess inp.sequence inp'.sequence) rs rs') :
    SameOutcome inp.sequence inp'.sequence (chosen inp rs) (chosen inp' rs') := by
  have hlength : rs.length = rs'.length := h.length_eq
  rw [chosen, chosen, complete_eq_of_sameSuccess htokens h]
  cases complete rs' with
  | cons a _ => rfl
  | nil =>
      cases h with
      | nil => exact ⟨rfl, _, _, rfl, rfl, .refl _ _⟩
      | cons head tail =>
          refine ⟨by rw [hlength], _, _, rfl, rfl, sameSuffix_shortest htokens head.2 ?_⟩
          exact List.forall₂_map_left_iff.2
            (List.forall₂_map_right_iff.2 (tail.imp fun _ _ hr => hr.2))

end Outcomes

/-- Sequences that hold the same tokens, such as a text and the list or the tuple of its
characters, are parsed alike. The results correspond one to one, or the error is the same; so are
the complete parses and the outcome of the driver. Only the input that a trace shows may look
different, and even there the tokens are the same. -/
theorem parses_agree_on_same_tokens {rules : Rules} (hrules : ∀ r ∈ rules, r.2.HandmadeFree)
    {depth : Nat} {g : Grammar} (hg : g.HandmadeFree) {p : Parser Value}
    (hp : (rules.make depth g).result = .ok p) {inp inp' : Input}
    (htokens : inp.sequence.tokens = inp'.sequence.tokens) (hmade : inp.made = inp'.made) :
    Run.Agree (fun entry => some entry.tokenwise)
        (List.Forall₂ (SameSuccess inp.sequence inp'.sequence)) (p.run inp) (p.run inp') ∧
      Run.Agree (fun entry => some entry.tokenwise) Eq (p.parseAll inp) (p.parseAll inp') ∧
      Run.Agree (fun entry => some entry.tokenwise)
        (SameOutcome inp.sequence inp'.sequence) (p.runParser inp) (p.runParser inp') := by
  let C := Comparison.representations htokens
  have hcovers (h : Grammar) : ¬h.IsConstant → C.Covers h :=
    Comparison.covers_of_not_gaps not_false
  have hmake := Rules.runs_make (C := C) (Comparison.followsMarks_representations htokens)
    (fun r hr => (hrules r hr).mono hcovers) depth (hg.mono hcovers)
  rw [Rules.mapMarks_trace_label, Grammar.mapMarks_trace_label] at hmake
  have hparsers : C.Parsers Eq p p := by
    obtain ⟨q, hq, hpq⟩ := Run.Agree.exists_answer hmake hp
    rw [hp] at hq
    cases hq
    exact hpq
  have hruns : Run.Agree (fun entry => some entry.tokenwise)
      (List.Forall₂ (SameSuccess inp.sequence inp'.sequence)) (p.run inp) (p.run inp') := by
    have hinputs : C.Inputs inp inp' := ⟨hmade, .refl _ _⟩
    refine C.runs_mono (hparsers.2 inp inp' hinputs) fun rs rs' hrs => ?_
    exact (hrs.forall₂ not_false).imp fun r r' hr => ⟨hr.1, hr.2.2⟩
  refine ⟨hruns, ?_, ?_⟩
  · exact hruns.map fun _ _ hrs => complete_eq_of_sameSuccess htokens hrs
  · exact hruns.map fun _ _ hrs => sameOutcome_chosen htokens hrs

/-- A traced rule that uses itself: any number of digits. -/
def tracedDigits : Rules :=
  [("digits", .trace "digits" (.either (.bind .digit fun _ => .ref "digits") (.result .none)))]

theorem tracedDigits_agree_on_text_and_tuple :
    ∃ p : Parser Value, (∀ r ∈ tracedDigits, r.2.HandmadeFree) ∧
      (Grammar.ref "digits").HandmadeFree ∧
      (tracedDigits.make 4 (.ref "digits")).result = .ok p ∧
      (Sequence.text ['1', '2', 'x']).tokens =
        (Sequence.tuple [.char '1', .char '2', .char 'x']).tokens ∧
      (p.run (.start (.text ['1', '2', 'x']))).result =
        .ok [⟨.none, .start (.text ['x'])⟩, ⟨.none, .start (.text ['2', 'x'])⟩,
          ⟨.none, .start (.text ['1', '2', 'x'])⟩] ∧
      Run.Agree (fun entry => some entry.tokenwise)
        (List.Forall₂ (SameSuccess (.text ['1', '2', 'x'])
          (.tuple [.char '1', .char '2', .char 'x'])))
        (p.run (.start (.text ['1', '2', 'x'])))
        (p.run (.start (.tuple [.char '1', .char '2', .char 'x']))) := by
  have hrules : ∀ r ∈ tracedDigits, r.2.HandmadeFree := by
    simp [tracedDigits, Grammar.HandmadeFree, Grammar.Everywhere, Grammar.IsConstant]
  have hg : (Grammar.ref "digits").HandmadeFree := by
    simp [Grammar.HandmadeFree, Grammar.Everywhere, Grammar.IsConstant]
  have hp : (tracedDigits.make 4 (.ref "digits")).result =
      .ok ⟨some "digits", fun inp => tracedDigits.call 4 "digits" (inp.withMade (0 + inp.made))⟩ :=
    rfl
  have htokens : (Sequence.text ['1', '2', 'x']).tokens =
      (Sequence.tuple [.char '1', .char '2', .char 'x']).tokens := rfl
  have hrun : (tracedDigits.call 4 "digits" (.start (.text ['1', '2', 'x']))).result =
      .ok [⟨.none, .start (.text ['x'])⟩, ⟨.none, .start (.text ['2', 'x'])⟩,
        ⟨.none, .start (.text ['1', '2', 'x'])⟩] := by cbv
  have hagree := parses_agree_on_same_tokens hrules hg hp
    (show (Input.start (.text ['1', '2', 'x'])).sequence.tokens =
      (Input.start (.tuple [.char '1', .char '2', .char 'x'])).sequence.tokens from htokens) rfl
  exact ⟨_, hrules, hg, hp, htokens, hrun, hagree.1⟩

end AllParses
