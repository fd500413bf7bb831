import Mathlib
import AllParses.Example.Arithmetic
import AllParses.Proofs.Recognition

/-!
# What sums are read

A sum is a number and further numbers, with a sign before each. The two chains of the arithmetic
example find every sum with which a text begins, each once and the longest first, although a number
alone can already be read in as many ways as it has digits. For a number that was cut short is
followed by a digit, and no sign is a digit, so that only a whole number is continued. The chains
differ in nothing but the value that they give to a sum.
-/

namespace AllParses.Example.Arithmetic

open AllParses.Parser

/-! ## Sums -/

/-- The signs between numbers. -/
inductive Sign where
  | plus
  | minus
  deriving DecidableEq, Repr

namespace Sign

/-- The sign in a text. -/
def char : Sign → Char
  | plus => '+'
  | minus => '-'

/-- What the sign means. -/
def apply : Sign → Int → Int → Int
  | plus, a, b => a + b
  | minus, a, b => a - b

/-- The operator that is read for the sign. -/
def operator : Sign → Operator Int
  | plus => Arithmetic.plus
  | minus => Arithmetic.minus

theorem operator_eq (sign : Sign) (a b : Int) : sign.operator a b = pure (sign.apply a b) := by
  cases sign <;> rfl

theorem isDigit_char (sign : Sign) : sign.char.isDigit = false := by
  cases sign <;> rfl

theorem char_injective {sign sign' : Sign} (h : sign.char = sign'.char) : sign = sign' := by
  cases sign <;> cases sign' <;> first | rfl | cases h

end Sign

/-- Decimal digits, one or more. -/
structure Numeral where
  digits : List Char
  ne_nil : digits ≠ []
  isDigit : ∀ c ∈ digits, c.isDigit = true

/-- The number that the digits stand for. -/
def Numeral.value (n : Numeral) : Nat :=
  Nat.ofDigits 10 (n.digits.reverse.map fun c => c.toNat - '0'.toNat)

/-- A sum: a number, and further ones with a sign before each. -/
structure Expression where
  first : Numeral
  links : List (Sign × Numeral)

/-- The text of the further numbers, with the sign before each. -/
def writtenLinks (links : List (Sign × Numeral)) : List Char :=
  links.flatMap fun l => l.1.char :: l.2.digits

/-- The value of all from the first operand on, if the last operator is applied first. -/
def rightFrom : Int → List (Sign × Numeral) → Int
  | a, [] => a
  | a, (sign, n) :: links => sign.apply a (rightFrom n.value links)

namespace Expression

/-- The text of the sum. -/
def written (e : Expression) : List Char := e.first.digits ++ writtenLinks e.links

/-- The value of the sum if the first operator is applied first, as usual. -/
def leftValue (e : Expression) : Int :=
  e.links.foldl (fun a l => l.1.apply a l.2.value) e.first.value

/-- The value of the sum if the last operator is applied first. -/
def rightValue (e : Expression) : Int := rightFrom e.first.value e.links

end Expression

/-! ## A text is read in one way -/

theorem takeWhile_writtenLinks (links : List (Sign × Numeral)) :
    (writtenLinks links).takeWhile Char.isDigit = [] := by
  cases links with
  | nil => rfl
  | cons l links => exact List.takeWhile_cons_of_neg (by simp [Sign.isDigit_char])

theorem takeWhile_written (n : Numeral) (links : List (Sign × Numeral)) :
    (n.digits ++ writtenLinks links).takeWhile Char.isDigit = n.digits := by
  rw [List.takeWhile_append_of_pos n.isDigit, takeWhile_writtenLinks, List.append_nil]

theorem first_unique {n n' : Numeral} {links links' : List (Sign × Numeral)}
    (h : n.digits ++ writtenLinks links = n'.digits ++ writtenLinks links') :
    n = n' ∧ writtenLinks links = writtenLinks links' := by
  have hdigits : n.digits = n'.digits := by
    rw [← takeWhile_written n links, h, takeWhile_written]
  obtain ⟨digits, _, _⟩ := n
  obtain ⟨digits', _, _⟩ := n'
  obtain rfl : digits = digits' := hdigits
  exact ⟨rfl, List.append_cancel_left h⟩

theorem links_unique {links links' : List (Sign × Numeral)}
    (h : writtenLinks links = writtenLinks links') : links = links' := by
  induction links generalizing links' with
  | nil =>
      cases links' with
      | nil => rfl
      | cons l' links' => cases h
  | cons l links ih =>
      cases links' with
      | nil => cases h
      | cons l' links' =>
          obtain ⟨sign, n⟩ := l
          obtain ⟨sign', n'⟩ := l'
          obtain ⟨hsign, hmore⟩ := List.cons.inj h
          obtain rfl := Sign.char_injective hsign
          obtain ⟨rfl, hlinks⟩ := first_unique hmore
          rw [ih hlinks]

theorem Expression.written_injective : Function.Injective Expression.written := by
  rintro ⟨n, links⟩ ⟨n', links'⟩ h
  obtain ⟨rfl, hlinks⟩ : n = n' ∧ writtenLinks links = writtenLinks links' := first_unique h
  rw [links_unique hlinks]

/-! ## Numbers -/

theorem ofDigits_eq (cs : List Char) :
    Text.ofDigits cs = Nat.ofDigits 10 (cs.reverse.map fun c => c.toNat - '0'.toNat) := by
  induction cs using List.reverseRecOn with
  | nil => rfl
  | append_singleton cs c ih =>
      rw [Text.ofDigits, List.foldl_append, ← Text.ofDigits, ih]
      simp [Nat.ofDigits_cons]
      ring

theorem digits_toList :
    "0123456789".toList = ['0', '1', '2', '3', '4', '5', '6', '7', '8', '9'] := by
  rfl

theorem mem_digits_iff (c : Char) : c ∈ "0123456789".toList ↔ c.isDigit = true := by
  rw [digits_toList]
  constructor
  · intro h
    fin_cases h <;> rfl
  · intro h
    have hbounds : 48 ≤ c.toNat ∧ c.toNat ≤ 57 := by
      simpa [Char.isDigit, UInt32.le_iff_toNat_le] using h
    obtain ⟨hlow, hhigh⟩ := hbounds
    rw [← Char.ofNat_toNat c]
    interval_cases c.toNat <;> decide

theorem recognizes_digit : digit.Recognizes fun c u => c.isDigit = true ∧ u = [c] := by
  have hlabel := (recognizes_charIn "0123456789".toList).label "digit"
  rw [digit]
  simpa only [mem_digits_iff] using hlabel

theorem shortens_digit : digit.Shortens := (shortens_accept _).label _

theorem forall₂_digits {cs : List Char} {us : List (List Char)} :
    List.Forall₂ (fun c u => c.isDigit = true ∧ u = [c]) cs us ↔
      (∀ c ∈ cs, c.isDigit = true) ∧ us = cs.map fun c => [c] := by
  induction cs generalizing us with
  | nil => simp
  | cons c cs ih =>
      rw [List.forall₂_cons_left_iff]
      constructor
      · rintro ⟨u, us, ⟨hc, rfl⟩, hcs, rfl⟩
        obtain ⟨hall, rfl⟩ := ih.1 hcs
        exact ⟨List.forall_mem_cons.2 ⟨hc, hall⟩, rfl⟩
      · rintro ⟨hall, rfl⟩
        obtain ⟨hc, hall⟩ := List.forall_mem_cons.1 hall
        exact ⟨[c], _, ⟨hc, rfl⟩, ih.2 ⟨hall, rfl⟩, rfl⟩

theorem recognizes_number :
    number.Recognizes fun k u => ∃ n : Numeral, k = n.value ∧ u = n.digits := by
  have hmany : number.Recognizes _ := (recognizes_digit.many1 shortens_digit).map
    (g := fun ds => ((Text.ofDigits ds : Nat) : Int)) fun _ _ _ => rfl
  apply hmany.congr
  intro k u
  constructor
  · rintro ⟨cs, ⟨us, hcs, hne, rfl⟩, rfl⟩
    obtain ⟨hall, rfl⟩ := forall₂_digits.1 hcs
    refine ⟨⟨cs, by simpa using hne, hall⟩, ?_, flatten_map_singleton cs⟩
    rw [ofDigits_eq]
    rfl
  · rintro ⟨n, rfl, rfl⟩
    have hdigits := forall₂_digits.2 ⟨n.isDigit, rfl⟩
    have hne : (n.digits.map fun c => [c]) ≠ [] := by simpa using n.ne_nil
    refine ⟨n.digits, ⟨_, hdigits, hne, (flatten_map_singleton n.digits).symm⟩, ?_⟩
    rw [ofDigits_eq]
    rfl

theorem shortens_number : number.Shortens := shortens_digit.many1.map _

/-! ## Signs -/

theorem run_operator (inp : Input) :
    operator.run inp = pure (inp.next?.toList.flatMap fun next =>
      if next.1 == .char '+' then [⟨plus, next.2⟩]
      else if next.1 == .char '-' then [⟨minus, next.2⟩] else []) := by
  rw [operator, run_choice, Run.flatMap_cons, Run.flatMap_cons, Run.flatMap_nil, run_map_pure,
    run_map_pure, run_char, run_char]
  cases inp.next? with
  | none => rfl
  | some next =>
      obtain ⟨token, rest⟩ := next
      by_cases hplus : token == .char '+'
      · rw [eq_char_of_beq hplus]
        rfl
      · by_cases hminus : token == .char '-'
        · rw [eq_char_of_beq hminus]
          rfl
        · simp [Option.filter, hplus, hminus]

theorem atMostOnce_operator : operator.AtMostOnce := by
  intro inp
  refine ⟨_, congrArg Run.result (run_operator inp), ?_⟩
  cases inp.next? with
  | none => exact Nat.zero_le 1
  | some next =>
      simp only [Option.toList_some, List.flatMap_cons, List.flatMap_nil, List.append_nil]
      split_ifs <;> simp

theorem recognizes_operator :
    operator.Recognizes fun f u => ∃ sign : Sign, f = sign.operator ∧ u = [sign.char] := by
  intro cs made
  refine ⟨_, congrArg Run.result (run_operator _), fun s => ?_⟩
  cases cs with
  | nil => simp [Reads, Input.next?, Sequence.next?]
  | cons c cs =>
      have hnext : Input.next? ⟨.text (c :: cs), made⟩ = some (.char c, ⟨.text cs, made⟩) := rfl
      rw [hnext]
      simp only [Option.toList_some, List.flatMap_cons, List.flatMap_nil, List.append_nil,
        char_beq_char, beq_iff_eq]
      constructor
      · intro hs
        split_ifs at hs with hplus hminus
        · rw [List.mem_singleton.1 hs, hplus]
          exact ⟨['+'], cs, ⟨.plus, rfl, rfl⟩, rfl, rfl⟩
        · rw [List.mem_singleton.1 hs, hminus]
          exact ⟨['-'], cs, ⟨.minus, rfl, rfl⟩, rfl, rfl⟩
        · cases hs
      · obtain ⟨f, last⟩ := s
        rintro ⟨_, rest, ⟨sign, rfl, rfl⟩, hsplit, rfl⟩
        cases hsplit
        cases sign <;> simp [Sign.char, Sign.operator]

theorem shortens_operator : operator.Shortens := by
  apply shortens_choice
  intro p hp
  rcases List.mem_pair.1 hp with rfl | rfl
  · exact (shortens_char _).map _
  · exact (shortens_char _).map _

/-! ## Links and chains -/

/-- A sign and a number as they are read. -/
def link : Parser (Operator Int × Int) := operator.pair number

/-- A chain before it is folded. -/
def chain : Parser (Int × List (Operator Int × Int)) := number.pair link.many

/-- The link that is read for a sign and a number. -/
def linkOf (l : Sign × Numeral) : Operator Int × Int := (l.1.operator, l.2.value)

/-- The chain that is read for a sum. -/
def Expression.chain (e : Expression) : Int × List (Operator Int × Int) :=
  (e.first.value, e.links.map linkOf)

theorem shortens_link : link.Shortens := shortens_operator.pair shortens_number

theorem recognizes_link :
    link.Recognizes fun c w => ∃ l : Sign × Numeral, c = linkOf l ∧ w = l.1.char :: l.2.digits := by
  have hpair : link.Recognizes _ := recognizes_operator.pair recognizes_number
  apply hpair.congr
  rintro ⟨f, k⟩ w
  constructor
  · rintro ⟨_, _, ⟨sign, rfl, rfl⟩, ⟨n, rfl, rfl⟩, rfl⟩
    exact ⟨(sign, n), rfl, rfl⟩
  · rintro ⟨⟨sign, n⟩, ⟨⟩, rfl⟩
    exact ⟨[sign.char], n.digits, ⟨sign, rfl, rfl⟩, ⟨n, rfl, rfl⟩, rfl⟩

theorem recognizes_chain :
    chain.Recognizes fun c w => ∃ e : Expression, c = e.chain ∧ w = e.written := by
  have hpair : chain.Recognizes _ := recognizes_number.pair (recognizes_link.many shortens_link)
  apply hpair.congr
  rintro ⟨k, cs⟩ w
  constructor
  · rintro ⟨_, _, ⟨n, rfl, rfl⟩, ⟨us, hcs, rfl⟩, rfl⟩
    obtain ⟨links, rfl, rfl⟩ := Recognizes.forall₂_exists_iff.1 hcs
    refine ⟨⟨n, links⟩, rfl, ?_⟩
    rw [Expression.written, writtenLinks, List.flatMap_def]
  · rintro ⟨⟨n, links⟩, ⟨⟩, rfl⟩
    refine ⟨n.digits, writtenLinks links, ⟨n, rfl, rfl⟩,
      ⟨_, Recognizes.forall₂_exists_iff.2 ⟨links, rfl, rfl⟩, ?_⟩, rfl⟩
    rw [writtenLinks, List.flatMap_def]

/-! ## The order of the results -/

theorem leadsInto_digit : digit.LeadsInto Input.IsText digit := by
  apply recognizes_digit.leadsInto recognizes_digit
  · exact (longestOnTexts_accept _).label _
  · rintro _ _ _ c v ⟨_, rfl⟩ ⟨_, h⟩
    cases h

/-- A link does not begin with a digit. -/
theorem Sign.begins_with_no (sign : Sign) {c : Char} (hc : c.isDigit = true) (n : Numeral) :
    ∃ d w, sign.char :: n.digits = d :: w ∧ d ≠ c := by
  refine ⟨sign.char, n.digits, rfl, ?_⟩
  rintro rfl
  rw [sign.isDigit_char] at hc
  cases hc

theorem longestOnTexts_number : number.LongestOnTexts := by
  have hmany : digit.many1.LongestOnTexts :=
    leadsInto_digit.longestOnTexts leadsInto_digit shortens_digit fun _ _ _ => ⟨_, rfl⟩
  exact hmany.map _

theorem leadsInto_number : number.LeadsInto Input.IsText link := by
  apply recognizes_number.leadsInto recognizes_link longestOnTexts_number
  rintro _ _ _ c v ⟨n, rfl, rfl⟩ ⟨n', rfl, hn'⟩ _ _ ⟨⟨sign, m⟩, rfl, rfl⟩
  exact sign.begins_with_no (n'.isDigit c (hn' ▸ by simp)) m

theorem leadsInto_link : link.LeadsInto Input.IsText link := by
  have hlongest : link.LongestOnTexts :=
    recognizes_operator.longestOnTexts_pair atMostOnce_operator longestOnTexts_number
  apply recognizes_link.leadsInto recognizes_link hlongest
  rintro _ _ _ c v ⟨l, rfl, rfl⟩ ⟨l', rfl, hl'⟩ _ _ ⟨⟨sign, m⟩, rfl, rfl⟩
  exact sign.begins_with_no (l'.2.isDigit c ((List.cons.inj hl').2 ▸ by simp)) m

theorem longestOnTexts_chain : chain.LongestOnTexts :=
  leadsInto_number.longestOnTexts leadsInto_link shortens_link (f := fun a links => pure (a, links))
    fun _ _ _ => ⟨_, rfl⟩

/-! ## Folds -/

theorem foldLeft_links (a : Int) (links : List (Sign × Numeral)) :
    foldLeft a (links.map linkOf) = pure (links.foldl (fun b l => l.1.apply b l.2.value) a) := by
  induction links generalizing a with
  | nil => rfl
  | cons l links ih =>
      rw [List.map_cons, linkOf, foldLeft, Sign.operator_eq, pure_bind, ih, List.foldl_cons]

theorem foldRight_links (a : Int) (links : List (Sign × Numeral)) :
    foldRight a (links.map linkOf) = pure (rightFrom a links) := by
  induction links generalizing a with
  | nil => rfl
  | cons l links ih =>
      rw [List.map_cons, linkOf, foldRight, ih, pure_bind, Sign.operator_eq, rightFrom]

/-! ## The results -/

/-- The success that reads the sum at the beginning of the text, with some value. -/
def Expression.success {α : Type} (cs : List Char) (value : Expression → α) (e : Expression) :
    Success α :=
  ⟨value e, .start (.text (cs.drop e.written.length))⟩

/-- Of two sums with which a text begins, the longer one leaves less. -/
theorem longestFirst_success_iff {α : Type} {cs : List Char} {es : List Expression}
    (hmem : ∀ e ∈ es, e.written <+: cs) (value : Expression → α) :
    LongestFirst (es.map (Expression.success cs value)) ↔
      es.Pairwise fun e f => f.written.length < e.written.length := by
  rw [LongestFirst, List.pairwise_map]
  refine List.Pairwise.iff_of_mem fun {e f} he hf => ?_
  have hle := (hmem e he).length_le
  have hle' := (hmem f hf).length_le
  show (cs.drop e.written.length).length < (cs.drop f.written.length).length ↔ _
  rw [List.length_drop, List.length_drop]
  omega

/-- Two sums with which a text begins are the same if they leave the same. -/
theorem Expression.eq_of_drop_eq {cs : List Char} {e f : Expression} (he : e.written <+: cs)
    (hf : f.written <+: cs) (h : cs.drop f.written.length = cs.drop e.written.length) : f = e := by
  have hcs := List.prefix_iff_eq_append.1 he
  have hcs' := List.prefix_iff_eq_append.1 hf
  rw [h] at hcs'
  exact written_injective (List.append_cancel_right (hcs'.trans hcs.symm))

theorem result_chain (cs : List Char) :
    ∃ es : List Expression, (∀ e, e ∈ es ↔ e.written <+: cs) ∧
      es.Pairwise (fun e f => f.written.length < e.written.length) ∧
      (chain.run (.start (.text cs))).result =
        .ok (es.map (Expression.success cs Expression.chain)) := by
  obtain ⟨ss, hss, hmem⟩ := recognizes_chain cs 0
  have hlongest := longestOnTexts_chain _ ⟨cs, rfl⟩ ss hss
  have heach : ∀ s ∈ ss, ∃ e : {e : Expression // e.written <+: cs},
      e.1.success cs Expression.chain = s := by
    intro s hs
    obtain ⟨k, last⟩ := s
    obtain ⟨_, rest, ⟨e, rfl, rfl⟩, rfl, rfl⟩ := (hmem _).1 hs
    refine ⟨⟨e, rest, rfl⟩, ?_⟩
    rw [Expression.success, List.drop_left]
    rfl
  obtain ⟨es, hbegin, rfl⟩ : ∃ es : List Expression, (∀ e ∈ es, e.written <+: cs) ∧
      es.map (Expression.success cs Expression.chain) = ss := by
    obtain ⟨es, rfl⟩ : ss ∈ Set.range (List.map fun e : {e : Expression // e.written <+: cs} =>
        e.1.success cs Expression.chain) := by
      rw [Set.range_list_map]
      exact heach
    refine ⟨es.map Subtype.val, fun e he => ?_, List.map_map⟩
    obtain ⟨e, _, rfl⟩ := List.mem_map.1 he
    exact e.2
  refine ⟨es, fun e => ⟨hbegin e, fun he => ?_⟩,
    (longestFirst_success_iff hbegin Expression.chain).1 hlongest, hss⟩
  have hcs := List.prefix_iff_eq_append.1 he
  have hs := (hmem (e.success cs Expression.chain)).2 ⟨_, _, ⟨e, rfl, rfl⟩, hcs.symm, rfl⟩
  obtain ⟨f, hf, hsame⟩ := List.mem_map.1 hs
  have hrest : cs.drop f.written.length = cs.drop e.written.length :=
    Sequence.text.inj (congrArg (fun s => s.rest.sequence) hsame)
  exact Expression.eq_of_drop_eq he (hbegin f hf) hrest ▸ hf

theorem result_folded {fold : Int → List (Operator Int × Int) → Code Entry Int}
    {value : Expression → Int} (hfold : ∀ e : Expression, fold e.chain.1 e.chain.2 = pure (value e))
    {cs : List Char} {es : List Expression}
    (hes : (chain.run (.start (.text cs))).result =
      .ok (es.map (Expression.success cs Expression.chain))) :
    ((number.bind fun a => pure (link.many.map (fold a))).run (.start (.text cs))).result =
      .ok (es.map (Expression.success cs value)) := by
  -- the first operand and the links may be read as one chain, and folded afterwards
  have hsame := run_bind_map_reordered_pair number link.many fold (.start (.text cs))
  apply hsame.symm.result_eq_ok
  rw [run_map, Run.result_bind_eq_ok_iff]
  refine ⟨_, hes, ?_⟩
  rw [Run.flatMap_map]
  simp only [Expression.success, hfold, StateT.run_pure, pure_bind, Input.withMade_made,
    Run.flatMap_pure_singleton]
  rfl

theorem success_rest_isEmpty_iff {α : Type} {cs : List Char} {e : Expression}
    (he : e.written <+: cs) (value : Expression → α) :
    (e.success cs value).rest.isEmpty = true ↔ e.written = cs := by
  have hcs := List.prefix_iff_eq_append.1 he
  show (cs.drop e.written.length).isEmpty = true ↔ _
  rw [List.isEmpty_iff]
  constructor
  · intro hempty
    rw [← hcs, hempty, List.append_nil]
  · rintro rfl
    exact List.drop_length

/-- The chains give every sum with which the text begins once, with the value that comes of folding
it from the left or from the right, and the longest first. So there is one complete parse if the
whole text is a sum, and none if it is not. -/
theorem sums_longest_first (cs : List Char) :
    ∃ es : List Expression, (∀ e, e ∈ es ↔ e.written <+: cs) ∧
      es.Pairwise (fun e f => f.written.length < e.written.length) ∧
      (left.run (.start (.text cs))).result =
        .ok (es.map fun e => ⟨e.leftValue, .start (.text (cs.drop e.written.length))⟩) ∧
      (right.run (.start (.text cs))).result =
        .ok (es.map fun e => ⟨e.rightValue, .start (.text (cs.drop e.written.length))⟩) ∧
      (∀ e : Expression, e.written = cs →
        (left.parseAll (.start (.text cs))).result = .ok [e.leftValue]) ∧
      ((∀ e : Expression, e.written ≠ cs) →
        (left.parseAll (.start (.text cs))).result = .ok []) := by
  obtain ⟨es, hmem, horder, hes⟩ := result_chain cs
  have hleft : (left.run (.start (.text cs))).result =
      .ok (es.map (Expression.success cs Expression.leftValue)) :=
    result_folded (fun e => foldLeft_links e.first.value e.links) hes
  have hright : (right.run (.start (.text cs))).result =
      .ok (es.map (Expression.success cs Expression.rightValue)) :=
    result_folded (fun e => foldRight_links e.first.value e.links) hes
  have hall : (left.parseAll (.start (.text cs))).result =
      .ok (complete (es.map (Expression.success cs Expression.leftValue))) :=
    Run.result_map_eq_ok_iff.2 ⟨_, hleft, rfl⟩
  have hbegin : ∀ e ∈ es, e.written <+: cs := fun e he => (hmem e).1 he
  refine ⟨es, hmem, horder, hleft, hright, ?_, ?_⟩
  · intro e he
    have hes : e ∈ es := (hmem e).2 (he ▸ List.prefix_refl _)
    have hempty := (success_rest_isEmpty_iff (hbegin e hes) Expression.leftValue).2 he
    have hlongest := (longestFirst_success_iff hbegin Expression.leftValue).2 horder
    have hone := hlongest.complete_eq_singleton (List.mem_map_of_mem hes) hempty
    exact hall.trans (congrArg Except.ok hone)
  · intro hnone
    have hcomplete : complete (es.map (Expression.success cs Expression.leftValue)) = [] := by
      rw [complete, List.map_eq_nil_iff, List.filter_eq_nil_iff]
      intro s hs hempty
      obtain ⟨e, he, rfl⟩ := List.mem_map.1 hs
      exact hnone e ((success_rest_isEmpty_iff (hbegin e he) _).1 hempty)
    exact hall.trans (congrArg Except.ok hcomplete)

/-- The sum `8-4-2`. -/
def differences : Expression :=
  ⟨⟨['8'], by simp, by simp⟩,
    [(.minus, ⟨['4'], by simp, by simp⟩), (.minus, ⟨['2'], by simp, by simp⟩)]⟩

theorem sums_longest_first_of_differences :
    differences.written = ['8', '-', '4', '-', '2'] ∧
      (left.parseAll (.start (.text ['8', '-', '4', '-', '2']))).result = .ok [2] ∧
      (∀ e : Expression, e.written ≠ ['-', '2']) ∧
      (left.parseAll (.start (.text ['-', '2']))).result = .ok [] := by
  obtain ⟨_, -, -, -, -, hwhole, -⟩ := sums_longest_first ['8', '-', '4', '-', '2']
  obtain ⟨_, -, -, -, -, -, hnone⟩ := sums_longest_first ['-', '2']
  have hwritten : differences.written = ['8', '-', '4', '-', '2'] := rfl
  have hsign : ∀ e : Expression, e.written ≠ ['-', '2'] := by
    intro e he
    have hdigits := takeWhile_written e.first e.links
    rw [← Expression.written, he] at hdigits
    exact e.first.ne_nil hdigits.symm
  exact ⟨hwritten, hwhole differences hwritten, hsign, hnone hsign⟩

end AllParses.Example.Arithmetic
