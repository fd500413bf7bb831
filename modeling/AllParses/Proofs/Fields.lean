import Mathlib
import AllParses.Proofs.Recognition
import AllParses.Proofs.Words

/-!
# Splitting undoes joining

A field is a non-empty text without certain characters. Its parser gives every beginning of it, and
so a list of fields with separators between them is read in many ways. But only one of them reads
all of a text: a field that was cut short is followed by a character of its own, which is no
separator. So the parses of a whole text by a list of fields are those that come of splitting it at
the separators, one if every piece has characters, and none if some piece is empty.
-/

namespace AllParses

/-- A non-empty text in which none of the excluded characters occurs. -/
structure Field (excluded : List Char) where
  chars : List Char
  ne_nil : chars ≠ []
  free : ∀ c ∈ chars, c ∉ excluded

namespace Field

variable {excluded : List Char}

/-- The text of the field. -/
def text (f : Field excluded) : String := String.ofList f.chars

end Field

namespace Parser

/-! ## Fields -/

/-- One or more characters that are not excluded, joined. -/
def fieldWithout (excluded : List Char) : Parser String :=
  (noneOf (excluded.map Value.char)).many1.map joinTexts

variable {excluded : List Char}

theorem contains_map_char (excluded : List Char) (c : Char) :
    (excluded.map Value.char).contains (Value.char c) = decide (c ∈ excluded) := by
  induction excluded with
  | nil => rfl
  | cons d ds ih =>
      rw [List.map_cons, List.contains_cons, char_beq_char, ih]
      by_cases hcd : c = d
      · simp [hcd]
      · simp [hcd]

theorem recognizes_noneOf (excluded : List Char) :
    (noneOf (excluded.map Value.char)).Recognizes
      fun v u => ∃ c : {c // c ∉ excluded}, v = .char c ∧ u = [c.1] := by
  have hnoneOf : (noneOf (excluded.map Value.char)).Recognizes _ :=
    .label (recognizes_satisfy (fun c => !decide (c ∈ excluded)) fun c => by
      have hlookup : requireHashable (.char c) = pure () := rfl
      rw [← contains_map_char, hlookup]
      rfl) _
  apply hnoneOf.congr
  intro v u
  constructor
  · rintro ⟨⟨c, hc⟩, hv, hu⟩
    exact ⟨⟨c, by simpa using hc⟩, hv, hu⟩
  · rintro ⟨⟨c, hc⟩, hv, hu⟩
    exact ⟨⟨c, by simpa using hc⟩, hv, hu⟩

theorem shortens_noneOf (set : List Value) : (noneOf set).Shortens := (shortens_accept _).label _

theorem leadsInto_noneOf (excluded : List Char) :
    (noneOf (excluded.map Value.char)).LeadsInto Input.IsText
      (noneOf (excluded.map Value.char)) := by
  apply (recognizes_noneOf excluded).leadsInto (recognizes_noneOf excluded)
  · exact (longestOnTexts_accept _).label _
  · rintro _ _ _ c v ⟨_, _, rfl⟩ ⟨_, _, h⟩
    exact absurd (congrArg List.length h) (by simp)

theorem join_map_singleton (cs : List Char) :
    String.join (cs.map String.singleton) = String.ofList cs := by
  rw [← String.toList_inj, String.toList_join, String.toList_ofList, List.flatMap_map]
  simp

theorem join_map_display (cs : List Char) :
    String.join ((cs.map Value.char).map Value.display) = String.ofList cs := by
  rw [← join_map_singleton, List.map_map]
  rfl

theorem joinTexts_map_char (cs : List Char) :
    joinTexts (cs.map Value.char) = pure (String.ofList cs) := by
  have htexts : cs.map Value.char = (cs.map String.singleton).map Value.str := by
    rw [List.map_map]
    rfl
  rw [htexts, joinTexts_map_str, join_map_singleton]

/-- Characters that are not excluded, as they are read one by one. -/
theorem forall₂_notExcluded_iff {vs : List Value} {us : List (List Char)} :
    List.Forall₂ (fun v u => ∃ c : {c // c ∉ excluded}, v = .char c ∧ u = [c.1]) vs us ↔
      ∃ cs : List Char, (∀ c ∈ cs, c ∉ excluded) ∧ vs = cs.map .char ∧ us = cs.map fun c => [c] := by
  rw [Recognizes.forall₂_exists_iff]
  constructor
  · rintro ⟨cs, rfl, rfl⟩
    refine ⟨cs.map Subtype.val, ?_, by simp, by simp⟩
    intro c hc
    obtain ⟨c, -, rfl⟩ := List.mem_map.1 hc
    exact c.2
  · rintro ⟨cs, hcs, rfl, rfl⟩
    exact ⟨cs.pmap Subtype.mk hcs, by simp [List.map_pmap], by simp [List.map_pmap]⟩

theorem recognizes_fieldWithout (excluded : List Char) :
    (fieldWithout excluded).Recognizes
      fun s u => ∃ f : Field excluded, s = f.text ∧ u = f.chars := by
  have hmany : (fieldWithout excluded).Recognizes _ :=
    ((recognizes_noneOf excluded).many1 (shortens_noneOf _)).map
      (g := fun vs => String.join (vs.map Value.display)) fun vs u hvs => by
        obtain ⟨us, hvs, -, -⟩ := hvs
        obtain ⟨cs, -, rfl, -⟩ := forall₂_notExcluded_iff.1 hvs
        rw [joinTexts_map_char, join_map_display]
  apply hmany.congr
  intro s u
  constructor
  · rintro ⟨vs, ⟨us, hvs, hne, rfl⟩, rfl⟩
    obtain ⟨cs, hcs, rfl, rfl⟩ := forall₂_notExcluded_iff.1 hvs
    exact ⟨⟨cs, by simpa using hne, hcs⟩, join_map_display cs, flatten_map_singleton cs⟩
  · rintro ⟨f, rfl, rfl⟩
    have hchars := forall₂_notExcluded_iff.2 ⟨f.chars, f.free, rfl, rfl⟩
    have hne : (f.chars.map fun c => [c]) ≠ [] := by simpa using f.ne_nil
    exact ⟨f.chars.map .char, ⟨_, hchars, hne, (flatten_map_singleton f.chars).symm⟩,
      (join_map_display f.chars).symm⟩

theorem shortens_fieldWithout (excluded : List Char) : (fieldWithout excluded).Shortens :=
  (shortens_noneOf _).many1.map _

theorem longestOnTexts_fieldWithout (excluded : List Char) :
    (fieldWithout excluded).LongestOnTexts := by
  have hmany : (noneOf (excluded.map Value.char)).many1.LongestOnTexts :=
    (leadsInto_noneOf excluded).longestOnTexts (leadsInto_noneOf excluded) (shortens_noneOf _)
      fun _ _ _ => ⟨_, rfl⟩
  exact hmany.map _

/-! ## Fields with separators between them -/

variable {c : Char}

/-- A separator and the field after it, as they are read. -/
def nextField (c : Char) : Parser String := (char (.char c)).keepRight (fieldWithout [c])

/-- The text of the fields with the separator between them. -/
def joined (fields : List (Field [c])) : List Char :=
  [c].intercalate (fields.map Field.chars)

theorem joined_cons (f : Field [c]) (fields : List (Field [c])) :
    joined (f :: fields) = f.chars ++ (fields.map fun g => c :: g.chars).flatten := by
  induction fields generalizing f with
  | nil => simp [joined, List.intercalate_singleton]
  | cons g fields ih =>
      rw [joined, List.map_cons, List.map_cons, List.intercalate_cons_cons, ← List.map_cons,
        ← joined, ih]
      simp

theorem recognizes_nextField (c : Char) :
    (nextField c).Recognizes fun s w => ∃ f : Field [c], s = f.text ∧ w = c :: f.chars := by
  have hright : (nextField c).Recognizes _ :=
    (recognizes_char c).keepRight (recognizes_fieldWithout [c])
  apply hright.congr
  intro s w
  constructor
  · rintro ⟨_, _, _, ⟨rfl, rfl⟩, ⟨f, rfl, rfl⟩, rfl⟩
    exact ⟨f, rfl, rfl⟩
  · rintro ⟨f, rfl, rfl⟩
    exact ⟨_, _, _, ⟨rfl, rfl⟩, ⟨f, rfl, rfl⟩, rfl⟩

theorem shortens_nextField (c : Char) : (nextField c).Shortens :=
  (shortens_char _).keepRight (shortens_fieldWithout [c])

theorem recognizes_sepBy1 (c : Char) :
    ((fieldWithout [c]).sepBy1 (char (.char c))).Recognizes fun ss w =>
      ∃ fields : List (Field [c]), fields ≠ [] ∧ ss = fields.map Field.text ∧ w = joined fields := by
  have hcons : ((fieldWithout [c]).sepBy1 (char (.char c))).Recognizes _ :=
    (recognizes_fieldWithout [c]).bind_many_cons (recognizes_nextField c) (shortens_nextField c)
  apply hcons.congr
  intro ss w
  constructor
  · rintro ⟨_, _, bs, us, ⟨f, rfl, rfl⟩, hbs, rfl, rfl⟩
    obtain ⟨fields, rfl, rfl⟩ := Recognizes.forall₂_exists_iff.1 hbs
    exact ⟨f :: fields, List.cons_ne_nil f fields, rfl, (joined_cons f fields).symm⟩
  · rintro ⟨fields, hne, rfl, rfl⟩
    cases fields with
    | nil => exact absurd rfl hne
    | cons f fields =>
        exact ⟨_, _, _, _, ⟨f, rfl, rfl⟩, Recognizes.forall₂_exists_iff.2 ⟨fields, rfl, rfl⟩, rfl,
          joined_cons f fields⟩

/-- Inside a field there is no separator. -/
theorem Field.begins_with_no (f : Field [c]) {d : Char} {u v : List Char}
    (h : f.chars = u ++ d :: v) (w : List Char) : ∃ d' w', c :: w = d' :: w' ∧ d' ≠ d := by
  refine ⟨c, w, rfl, ?_⟩
  rintro rfl
  exact f.free c (h ▸ by simp) (by simp)

theorem leadsInto_fieldWithout (c : Char) :
    (fieldWithout [c]).LeadsInto Input.IsText (nextField c) := by
  apply (recognizes_fieldWithout [c]).leadsInto (recognizes_nextField c)
    (longestOnTexts_fieldWithout [c])
  rintro _ _ _ d v ⟨f, rfl, rfl⟩ ⟨f', rfl, hf'⟩ _ _ ⟨g, rfl, rfl⟩
  exact Field.begins_with_no f' hf'.symm g.chars

theorem leadsInto_nextField (c : Char) :
    (nextField c).LeadsInto Input.IsText (nextField c) := by
  have hlongest : (nextField c).LongestOnTexts :=
    (recognizes_char c).longestOnTexts_keepRight (atMostOnce_char _)
      (longestOnTexts_fieldWithout [c])
  apply (recognizes_nextField c).leadsInto (recognizes_nextField c) hlongest
  rintro _ _ _ d v ⟨f, rfl, rfl⟩ ⟨f', rfl, hf'⟩ _ _ ⟨g, rfl, rfl⟩
  exact Field.begins_with_no f' (List.cons.inj hf').2.symm g.chars

theorem longestOnTexts_sepBy1 (c : Char) :
    ((fieldWithout [c]).sepBy1 (char (.char c))).LongestOnTexts :=
  (leadsInto_fieldWithout c).longestOnTexts (leadsInto_nextField c) (shortens_nextField c)
    fun _ _ _ => ⟨_, rfl⟩

/-! ## Splitting -/

theorem not_mem_of_mem_splitOn {cs piece : List Char} (h : piece ∈ cs.splitOn c) : c ∉ piece := by
  induction cs generalizing piece with
  | nil =>
      rw [List.splitOn_nil, List.mem_singleton] at h
      simp [h]
  | cons d cs ih =>
      rw [List.splitOn_cons_eq_if_modifyHead] at h
      by_cases hd : d == c
      · rw [if_pos hd] at h
        rcases List.mem_cons.1 h with rfl | h
        · simp
        · exact ih h
      · rw [if_neg hd] at h
        cases hsplit : cs.splitOn c with
        | nil => exact absurd hsplit (List.splitOn_ne_nil c cs)
        | cons first others =>
            rw [hsplit] at h ih
            rcases List.mem_cons.1 h with rfl | h
            · have hfirst : c ∉ first := ih (by simp)
              rw [List.mem_cons, not_or]
              exact ⟨fun hc => hd (beq_iff_eq.2 hc.symm), hfirst⟩
            · exact ih (List.mem_cons_of_mem first h)

/-- The pieces of a text are fields if none of them is empty. -/
theorem exists_fields {cs : List Char} (h : ∀ piece ∈ cs.splitOn c, piece ≠ []) :
    ∃ fields : List (Field [c]), fields ≠ [] ∧ fields.map Field.chars = cs.splitOn c ∧
      joined fields = cs := by
  have hpiece : ∀ piece ∈ cs.splitOn c, ∃ f : Field [c], f.chars = piece := by
    intro piece hmem
    refine ⟨⟨piece, h piece hmem, fun d hd hdc => ?_⟩, rfl⟩
    obtain rfl := List.mem_singleton.1 hdc
    exact not_mem_of_mem_splitOn hmem hd
  obtain ⟨fields, hfields⟩ : cs.splitOn c ∈ Set.range (List.map Field.chars) := by
    rw [Set.range_list_map]
    exact hpiece
  refine ⟨fields, ?_, hfields, ?_⟩
  · rintro rfl
    exact List.splitOn_ne_nil c cs hfields.symm
  · rw [joined, hfields, List.intercalate_splitOn]

/-- The empty text has an empty piece. -/
theorem ne_nil_of_pieces {cs : List Char} (h : ∀ piece ∈ cs.splitOn c, piece ≠ []) : cs ≠ [] := by
  rintro rfl
  exact h [] (by rw [List.splitOn_nil]; simp) rfl

theorem splitOn_joined {fields : List (Field [c])} (h : fields ≠ []) :
    (joined fields).splitOn c = fields.map Field.chars := by
  apply List.splitOn_intercalate
  · intro piece hpiece
    obtain ⟨f, -, rfl⟩ := List.mem_map.1 hpiece
    exact fun hc => f.free c hc (by simp)
  · simpa using h

theorem ne_nil_of_mem_splitOn_joined {fields : List (Field [c])} (h : fields ≠ [])
    {piece : List Char} (hpiece : piece ∈ (joined fields).splitOn c) : piece ≠ [] := by
  rw [splitOn_joined h] at hpiece
  obtain ⟨f, -, rfl⟩ := List.mem_map.1 hpiece
  exact f.ne_nil

/-- Any number of fields with the separator between them. -/
def fieldsBetween (c : Char) : Parser (List String) := (fieldWithout [c]).sepBy (char (.char c))

/-- The results with at least one field, and after them the empty list. -/
theorem result_parseAll_fieldsBetween {cs : List Char} {ss : List (Success (List String))}
    (h : (((fieldWithout [c]).sepBy1 (char (.char c))).run (.start (.text cs))).result = .ok ss) :
    ((fieldsBetween c).parseAll (.start (.text cs))).result =
      .ok (complete ss ++ if cs = [] then [[]] else []) := by
  have hrun : ((fieldsBetween c).run (.start (.text cs))).result =
      .ok (ss ++ [⟨[], .start (.text cs)⟩]) := by
    rw [fieldsBetween, sepBy, run_choice, Run.flatMap_cons, Run.result_bind_eq_ok_iff]
    exact ⟨ss, h, rfl⟩
  refine Run.result_map_eq_ok_iff.2 ⟨_, hrun, ?_⟩
  rw [complete, List.filter_append, List.map_append]
  cases cs <;> rfl

/-- The list of the pieces of the text, if there is a parse. -/
def splits (c : Char) (cs : List Char) : List (List String) :=
  if cs = [] then [[]]
  else if ∀ piece ∈ cs.splitOn c, piece ≠ [] then [(cs.splitOn c).map String.ofList]
  else []

theorem splits_of_pieces {cs : List Char} (h : ∀ piece ∈ cs.splitOn c, piece ≠ []) :
    splits c cs = [(cs.splitOn c).map String.ofList] := by
  rw [splits, if_neg (ne_nil_of_pieces h), if_pos h]

theorem result_parseAll_fieldsBetween_eq_splits (c : Char) (cs : List Char) :
    ((fieldsBetween c).parseAll (.start (.text cs))).result = .ok (splits c cs) := by
  obtain ⟨ss, hss, hmem⟩ := recognizes_sepBy1 c cs 0
  have hlongest := longestOnTexts_sepBy1 c _ ⟨cs, rfl⟩ ss hss
  obtain ⟨hwhole, hnone⟩ := complete_eq_of_reads hmem hlongest
  rw [result_parseAll_fieldsBetween hss]
  by_cases hpieces : ∀ piece ∈ cs.splitOn c, piece ≠ []
  · obtain ⟨fields, hne, hfields, hcs⟩ := exists_fields hpieces
    rw [splits_of_pieces hpieces, if_neg (ne_nil_of_pieces hpieces), List.append_nil,
      hwhole _ ⟨fields, hne, rfl, hcs.symm⟩, ← hfields, List.map_map]
    rfl
  · have hcomplete : complete ss = [] := by
      apply hnone
      rintro _ ⟨fields, hne, -, rfl⟩
      exact hpieces fun piece => ne_nil_of_mem_splitOn_joined hne
    rw [hcomplete, List.nil_append, splits, if_neg hpieces]

theorem splitOn_intercalate {xs : List String} (hne : xs ≠ []) (hxs : ∀ x ∈ xs, c ∉ x.toList) :
    ((String.singleton c).intercalate xs).toList.splitOn c = xs.map String.toList := by
  rw [String.toList_intercalate, String.toList_singleton]
  apply List.splitOn_intercalate
  · simpa using hxs
  · simpa using hne

/-- Splitting undoes joining. A text is parsed as a list of fields in at most one way: as no field
if it is empty, and otherwise as its pieces, if none of them is empty. So fields that were joined
with the separator are found again, and in no other way. -/
theorem splitting_undoes_joining (c : Char) :
    (∀ cs : List Char, ((fieldsBetween c).parseAll (.start (.text cs))).result =
      .ok (if cs = [] then [[]]
        else if ∀ piece ∈ cs.splitOn c, piece ≠ [] then [(cs.splitOn c).map String.ofList]
        else [])) ∧
    ∀ xs : List String, xs ≠ [] → (∀ x ∈ xs, x ≠ "" ∧ c ∉ x.toList) →
      ((fieldsBetween c).parseAll
        (.start (.text ((String.singleton c).intercalate xs).toList))).result = .ok [xs] := by
  refine ⟨result_parseAll_fieldsBetween_eq_splits c, fun xs hne hxs => ?_⟩
  have hsplit := splitOn_intercalate hne fun x hx => (hxs x hx).2
  have hpieces : ∀ piece ∈ ((String.singleton c).intercalate xs).toList.splitOn c, piece ≠ [] := by
    rw [hsplit]
    intro piece hpiece
    obtain ⟨x, hx, rfl⟩ := List.mem_map.1 hpiece
    rw [ne_eq, String.toList_eq_nil_iff]
    exact (hxs x hx).1
  rw [result_parseAll_fieldsBetween_eq_splits, splits_of_pieces hpieces, hsplit, List.map_map]
  simp [Function.comp_def]

theorem splitting_undoes_joining_of_commas :
    (∀ x ∈ ["ab", "c"], x ≠ "" ∧ ',' ∉ x.toList) ∧
      ((fieldsBetween ',').parseAll (.start (.text (",".intercalate ["ab", "c"]).toList))).result =
        .ok [["ab", "c"]] ∧
      ((fieldsBetween ',').parseAll (.start (.text ['a', ',', ',', 'b']))).result = .ok [] := by
  obtain ⟨hsplit, hjoin⟩ := splitting_undoes_joining ','
  have hfields : ∀ x ∈ ["ab", "c"], x ≠ "" ∧ ',' ∉ x.toList := by decide
  exact ⟨hfields, hjoin ["ab", "c"] (by simp) hfields, hsplit ['a', ',', ',', 'b']⟩

end Parser

end AllParses
