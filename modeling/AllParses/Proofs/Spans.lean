import Mathlib
import AllParses.Example.Emphasis
import AllParses.Proofs.Fields
import AllParses.Proofs.Spelling

/-!
# Spans between delimiters

What stands between two equal delimiters must not be empty and holds no character of the delimiter,
so the first such character after the opening delimiter is where the closing one has to begin. That
is why a text begins with at most one span, although its inner text alone could be read in many
ways. An empty delimiter excludes no character and can close anywhere: then the span that is kept
is the longest, which is the whole text.
-/

namespace AllParses

/-! ## Fields between delimiters -/

namespace Field

variable {delimiter : List Char}

/-- The field between two delimiters, of which it holds no character. -/
def delimited (f : Field delimiter) : List Char := delimiter ++ (f.chars ++ delimiter)

theorem takeWhile_chars (f : Field delimiter) (hne : delimiter ≠ []) (rest : List Char) :
    (f.chars ++ (delimiter ++ rest)).takeWhile (fun c => !decide (c ∈ delimiter)) = f.chars := by
  rw [List.takeWhile_append_of_pos (by simpa using f.free)]
  cases delimiter with
  | nil => exact absurd rfl hne
  | cons d ds => rw [List.cons_append, List.takeWhile_cons_of_neg (by simp), List.append_nil]

/-- A text begins with one span at most. -/
theorem delimited_unique (hne : delimiter ≠ []) {f g : Field delimiter} {rest rest' : List Char}
    (h : f.delimited ++ rest = g.delimited ++ rest') : f = g ∧ rest = rest' := by
  rw [delimited, delimited, List.append_assoc, List.append_assoc, List.append_assoc,
    List.append_assoc] at h
  have hinner := List.append_cancel_left h
  have hchars : f.chars = g.chars := by
    rw [← f.takeWhile_chars hne rest, hinner, g.takeWhile_chars hne rest']
  rw [hchars] at hinner
  refine ⟨?_, List.append_cancel_left (List.append_cancel_left hinner)⟩
  cases f
  cases g
  cases hchars
  rfl

end Field

/-! ## Given texts -/

theorem Input.beginsWith_map_char_iff {wanted cs : List Char} {made : Nat} :
    Input.BeginsWith ⟨.text cs, made⟩ (wanted.map .char) ↔ wanted <+: cs := by
  induction wanted generalizing cs with
  | nil => simp [Input.beginsWith_nil]
  | cons w more ih =>
      rw [List.map_cons, Input.beginsWith_cons_iff]
      cases cs with
      | nil => simp [Input.next?, Sequence.next?]
      | cons c cs =>
          have hrest : Input.drop 1 ⟨.text (c :: cs), made⟩ = ⟨.text cs, made⟩ := rfl
          have hnext : Input.next? ⟨.text (c :: cs), made⟩ = some (.char c, ⟨.text cs, made⟩) := rfl
          rw [hrest, hnext, ih, List.cons_prefix_cons]
          constructor
          · rintro ⟨token, htoken, hequal, hmore⟩
            cases htoken
            rw [Parser.char_beq_char, beq_iff_eq] at hequal
            exact ⟨hequal.symm, hmore⟩
          · rintro ⟨rfl, hmore⟩
            exact ⟨.char w, rfl, by rw [Parser.char_beq_char, beq_self_eq_true], hmore⟩

namespace Parser

theorem atMostOnce_text (s : String) : (text s).AtMostOnce := by
  intro inp
  by_cases h : inp.BeginsWith (s.toList.map .char)
  · exact ⟨_, congrArg Run.result (run_spell_of_beginsWith h), Nat.le_refl 1⟩
  · exact ⟨_, congrArg Run.result (run_spell_of_not_beginsWith h), Nat.zero_le 1⟩

theorem recognizes_text (s : String) : (text s).Recognizes fun v u => v = s ∧ u = s.toList := by
  intro cs made
  by_cases h : s.toList <+: cs
  · refine ⟨_, congrArg Run.result
      (run_spell_of_beginsWith (Input.beginsWith_map_char_iff.2 h)), fun t => ?_⟩
    obtain ⟨rest, rfl⟩ := h
    have hdrop : Input.drop (s.toList.map Value.char).length ⟨.text (s.toList ++ rest), made⟩ =
        ⟨.text rest, made⟩ := by
      rw [List.length_map, Input.drop, Sequence.drop, List.drop_left]
    rw [hdrop, List.mem_singleton]
    constructor
    · rintro rfl
      exact ⟨s.toList, rest, ⟨rfl, rfl⟩, rfl, rfl⟩
    · obtain ⟨v, last⟩ := t
      rintro ⟨_, rest', ⟨rfl, rfl⟩, hsplit, rfl⟩
      rw [List.append_cancel_left hsplit]
  · refine ⟨_, congrArg Run.result
      (run_spell_of_not_beginsWith (mt Input.beginsWith_map_char_iff.1 h)), fun t => ?_⟩
    constructor
    · rintro ⟨⟩
    · rintro ⟨_, rest, ⟨-, rfl⟩, rfl, -⟩
      exact absurd (List.prefix_append _ rest) h

/-- To keep the first of at most one success changes nothing. -/
theorem run_first_of_length_le_one {α : Type} {p : Parser α} {inp : Input}
    {ss : List (Success α)} (h : (p.run inp).result = .ok ss) (hlength : ss.length ≤ 1) :
    p.first.run inp = p.run inp := by
  rw [run_first]
  rcases hrun : p.run inp with ⟨log, e | rs⟩
  · rfl
  · rw [hrun] at h
    cases h
    rw [Run.map_ok, List.take_of_length_le hlength]

end Parser

namespace Example.Emphasis

open AllParses.Parser

/-! ## Spans -/

/-- All spans with which the input begins. -/
def spans (delimiter : String) : Parser String :=
  between (text delimiter) (text delimiter) (fieldWithout delimiter.toList)

theorem emphasis_eq (delimiter : String) : emphasis delimiter = (spans delimiter).first := rfl

theorem recognizes_spans (delimiter : String) :
    (spans delimiter).Recognizes fun s w =>
      ∃ f : Field delimiter.toList, s = f.text ∧ w = f.delimited := by
  have hbetween : (spans delimiter).Recognizes _ := (recognizes_text delimiter).keepRight
    ((recognizes_fieldWithout delimiter.toList).keepLeft (recognizes_text delimiter))
  apply hbetween.congr
  intro s w
  constructor
  · rintro ⟨_, _, _, ⟨rfl, rfl⟩, ⟨_, _, _, ⟨f, rfl, rfl⟩, ⟨rfl, rfl⟩, rfl⟩, rfl⟩
    exact ⟨f, rfl, rfl⟩
  · rintro ⟨f, rfl, rfl⟩
    exact ⟨_, _, _, ⟨rfl, rfl⟩, ⟨_, _, _, ⟨f, rfl, rfl⟩, ⟨rfl, rfl⟩, rfl⟩, rfl⟩

theorem longestOnTexts_spans (delimiter : String) : (spans delimiter).LongestOnTexts := by
  have hclosed : ((fieldWithout delimiter.toList).keepLeft (text delimiter)).LongestOnTexts :=
    (longestOnTexts_fieldWithout delimiter.toList).keepLeft
      (recognizes_fieldWithout delimiter.toList) (recognizes_text delimiter)
      (atMostOnce_text delimiter) fun _ _ h => congrArg List.length h.2
  exact (recognizes_text delimiter).longestOnTexts_keepRight (atMostOnce_text delimiter) hclosed

variable {delimiter : String} {cs : List Char}

theorem result_spans_of_delimited (hne : delimiter ≠ "") (f : Field delimiter.toList)
    (rest : List Char) :
    ((spans delimiter).run (.start (.text (f.delimited ++ rest)))).result =
      .ok [⟨f.text, .start (.text rest)⟩] := by
  obtain ⟨ss, hss, hmem⟩ := recognizes_spans delimiter (f.delimited ++ rest) 0
  have hlongest := longestOnTexts_spans delimiter _ ⟨_, rfl⟩ ss hss
  have hspan : (⟨f.text, .start (.text rest)⟩ : Success String) ∈ ss :=
    (hmem _).2 ⟨_, rest, ⟨f, rfl, rfl⟩, rfl, rfl⟩
  have honly : ∀ t ∈ ss, t = ⟨f.text, .start (.text rest)⟩ := by
    rintro ⟨s, last⟩ ht
    obtain ⟨_, rest', ⟨g, rfl, rfl⟩, hsplit, rfl⟩ := (hmem _).1 ht
    obtain ⟨rfl, rfl⟩ := Field.delimited_unique (mt String.toList_eq_nil_iff.1 hne) hsplit
    rfl
  rw [← hlongest.eq_singleton hspan honly]
  exact hss

theorem result_spans_of_none
    (hnone : ∀ (f : Field delimiter.toList) (rest : List Char), cs ≠ f.delimited ++ rest) :
    ((spans delimiter).run (.start (.text cs))).result = .ok [] := by
  obtain ⟨ss, hss, hmem⟩ := recognizes_spans delimiter cs 0
  have hnil : ss = [] := by
    apply List.eq_nil_iff_forall_not_mem.2
    intro t ht
    obtain ⟨_, rest, ⟨f, -, rfl⟩, hsplit, -⟩ := (hmem t).1 ht
    exact hnone f rest hsplit
  rw [← hnil]
  exact hss

theorem exists_result_spans (hne : delimiter ≠ "") (cs : List Char) :
    ∃ ss, ((spans delimiter).run (.start (.text cs))).result = .ok ss ∧ ss.length ≤ 1 := by
  by_cases h : ∃ (f : Field delimiter.toList) (rest : List Char), cs = f.delimited ++ rest
  · obtain ⟨f, rest, rfl⟩ := h
    exact ⟨_, result_spans_of_delimited hne f rest, Nat.le_refl 1⟩
  · exact ⟨_, result_spans_of_none fun f rest hsplit => h ⟨f, rest, hsplit⟩, Nat.zero_le 1⟩

theorem run_emphasis (hne : delimiter ≠ "") (cs : List Char) :
    (emphasis delimiter).run (.start (.text cs)) = (spans delimiter).run (.start (.text cs)) := by
  obtain ⟨ss, hss, hlength⟩ := exists_result_spans hne cs
  rw [emphasis_eq, run_first_of_length_le_one hss hlength]

/-! ## The empty delimiter -/

/-- Without a delimiter the whole text is the longest of the spans. -/
theorem result_emphasis_empty (cs : List Char) :
    ((emphasis "").run (.start (.text cs))).result =
      .ok (if cs = [] then [] else [⟨String.ofList cs, .start (.text [])⟩]) := by
  rw [emphasis_eq, run_first, Run.result_map_eq_ok_iff]
  by_cases hcs : cs = []
  · refine ⟨[], result_spans_of_none fun f rest hsplit => ?_, by rw [if_pos hcs]; rfl⟩
    have hempty : f.chars = [] ∧ rest = [] := by simpa [Field.delimited, hcs] using hsplit.symm
    exact f.ne_nil hempty.1
  · obtain ⟨ss, hss, hmem⟩ := recognizes_spans "" cs 0
    have hlongest := longestOnTexts_spans "" _ ⟨_, rfl⟩ ss hss
    have hwhole : (⟨String.ofList cs, .start (.text [])⟩ : Success String) ∈ ss := by
      refine (hmem _).2 ⟨cs, [], ⟨⟨cs, hcs, by simp⟩, rfl, ?_⟩, by simp, rfl⟩
      simp [Field.delimited]
    obtain ⟨others, rfl, -⟩ := hlongest.exists_eq_cons hwhole rfl
    exact ⟨_, hss, by rw [if_neg hcs]; rfl⟩

/-! ## The first span -/

/-- For a non-empty delimiter, the parser reads the only span with which the text begins, and
nothing if there is none; there is no second one to be discarded. For the empty delimiter it reads
the whole text, if it is not empty. -/
theorem emphasis_reads_spans (cs : List Char) :
    (∀ delimiter : String, delimiter ≠ "" →
      (∀ (f : Field delimiter.toList) (rest : List Char), cs = f.delimited ++ rest →
        ((emphasis delimiter).run (.start (.text cs))).result =
            .ok [⟨f.text, .start (.text rest)⟩] ∧
          ∀ (g : Field delimiter.toList) (rest' : List Char), cs = g.delimited ++ rest' →
            g = f ∧ rest' = rest) ∧
      ((∀ (f : Field delimiter.toList) (rest : List Char), cs ≠ f.delimited ++ rest) →
        ((emphasis delimiter).run (.start (.text cs))).result = .ok []) ∧
      (∃ ss, ((spans delimiter).run (.start (.text cs))).result = .ok ss ∧ ss.length ≤ 1) ∧
      (emphasis delimiter).run (.start (.text cs)) = (spans delimiter).run (.start (.text cs))) ∧
    ((emphasis "").run (.start (.text cs))).result =
      .ok (if cs = [] then [] else [⟨String.ofList cs, .start (.text [])⟩]) := by
  refine ⟨fun delimiter hne => ⟨?_, ?_, exists_result_spans hne cs, run_emphasis hne cs⟩,
    result_emphasis_empty cs⟩
  · rintro f rest rfl
    rw [run_emphasis hne]
    refine ⟨result_spans_of_delimited hne f rest, fun g rest' hsplit => ?_⟩
    exact Field.delimited_unique (mt String.toList_eq_nil_iff.1 hne) hsplit.symm
  · intro hnone
    rw [run_emphasis hne]
    exact result_spans_of_none hnone

theorem emphasis_reads_spans_of_bold :
    (∃ f : Field "**".toList, "**ab**c".toList = f.delimited ++ ['c'] ∧
        ((emphasis "**").run (.start (.text "**ab**c".toList))).result =
          .ok [⟨"ab", .start (.text ['c'])⟩]) ∧
      ((emphasis "**").run (.start (.text "****".toList))).result = .ok [] ∧
      ((emphasis "").run (.start (.text "ab".toList))).result =
        .ok [⟨"ab", .start (.text [])⟩] := by
  let f : Field "**".toList := ⟨['a', 'b'], by simp, by simp⟩
  have hempty : ∀ (g : Field "**".toList) (rest : List Char),
      "****".toList ≠ g.delimited ++ rest := by
    intro g rest hsplit
    have hpositive := List.length_pos_iff.2 g.ne_nil
    have hlength := congrArg List.length hsplit
    simp [Field.delimited] at hlength
    omega
  obtain ⟨hspan, -⟩ := (emphasis_reads_spans "**ab**c".toList).1 "**" (by decide)
  obtain ⟨-, hnone, -⟩ := (emphasis_reads_spans "****".toList).1 "**" (by decide)
  obtain ⟨-, hwhole⟩ := emphasis_reads_spans "ab".toList
  exact ⟨⟨f, by decide, (hspan f ['c'] (by decide)).1⟩, hnone hempty, hwhole⟩

end Example.Emphasis

end AllParses
