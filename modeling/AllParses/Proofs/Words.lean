import AllParses.Proofs.Characters

/-!
# Words are repeated letters

The rule of words, which calls itself once for each letter, gives the letters that repetition gives,
put together. Both stop at the first token that is no letter, and only there it matters whether
that token is a text: if it is not, the test for letters is an error, and nothing is answered, not
even the letters before it.
-/

namespace AllParses

/-! ## Tokens that are letters -/

/-- Whether the token is a text, of whatever length. -/
def Value.isText : Value → Bool
  | str _ => true
  | _ => false

/-- Whether the token is a text of letters. -/
def Value.isAlphabetic : Value → Bool
  | str s => TextClass.letter.holds s
  | _ => false

theorem Value.takeWhile_isAlphabetic (vs : List Value) :
    ∃ texts : List String, vs.takeWhile isAlphabetic = texts.map str ∧
      ∀ s ∈ texts, TextClass.letter.holds s = true := by
  induction vs with
  | nil => exact ⟨[], rfl, by simp⟩
  | cons v vs ih =>
      by_cases hv : v.isAlphabetic
      · cases v with
        | str s =>
            rcases ih with ⟨texts, htexts, hletters⟩
            have htaken : (str s :: vs).takeWhile isAlphabetic = (s :: texts).map str := by
              rw [List.takeWhile_cons_of_pos hv, htexts, List.map_cons]
            exact ⟨s :: texts, htaken, List.forall_mem_cons.2 ⟨hv, hletters⟩⟩
        | _ => cases hv
      · exact ⟨[], List.takeWhile_cons_of_neg hv, by simp⟩

namespace Input

/-- The number of letters with which the input begins. -/
def letterCount (inp : Input) : Nat := (inp.sequence.tokens.takeWhile Value.isAlphabetic).length

/-- What the letters at the beginning spell, what all but the last of them spell, and so on down to
none of them; each is left with all that follows those letters. -/
def words (inp : Input) : List (Success String) :=
  (List.range (inp.letterCount + 1)).reverse.map fun k =>
    ⟨String.join ((inp.sequence.tokens.take k).map Value.display), inp.drop k⟩

theorem words_eq {inp : Input} {texts : List String}
    (htexts : inp.sequence.tokens.takeWhile Value.isAlphabetic = texts.map .str) :
    inp.words = (List.range (texts.length + 1)).reverse.map fun k =>
      ⟨String.join (texts.take k), inp.drop k⟩ := by
  have hcount : inp.letterCount = texts.length := by
    rw [letterCount, htexts, List.length_map]
  rw [words, hcount]
  apply List.map_congr_left
  intro k hk
  have hle : k ≤ (texts.map Value.str).length := by
    simpa [Nat.lt_succ_iff] using hk
  have htake : inp.sequence.tokens.take k = (texts.take k).map Value.str := by
    rw [← List.takeWhile_append_dropWhile (p := Value.isAlphabetic) (l := inp.sequence.tokens),
      htexts, List.take_append_of_le_length hle, List.map_take]
  rw [htake, List.map_map]
  simp [Function.comp_def, Value.display]

end Input

namespace Parser

/-! ## One letter -/

theorem run_letter_of_isText_eq_false {inp : Input} {token : Value}
    (h : inp.sequence.tokens.head? = some token) (htoken : token.isText = false) :
    letter.run inp = Run.raise (.notText .letter token.kind) := by
  rw [letter, ofClass, run_label, run_accept, Input.next?_eq, h]
  cases token with
  | str s => cases htoken
  | _ => rfl

theorem run_letter_of_isText {inp : Input}
    (h : ∀ token, inp.sequence.tokens.head? = some token → token.isText = true) :
    letter.run inp =
      pure ((inp.sequence.tokens.head?.filter Value.isAlphabetic).toList.map
        fun token => ⟨token.display, inp.drop 1⟩) := by
  rw [letter, ofClass, run_label, run_accept, Input.next?_eq]
  cases hhead : inp.sequence.tokens.head? with
  | none => rfl
  | some token =>
      cases token with
      | str s =>
          by_cases hs : TextClass.letter.holds s <;>
            simp [hs, Option.filter, Value.isAlphabetic, Value.display]
      | _ => cases h _ hhead

theorem shortens_letter : letter.Shortens := shortens_ofClass .letter

/-! ## All letters -/

theorem run_many_letter_of_isText_eq_false {inp : Input} {token : Value}
    (h : inp.sequence.tokens.head? = some token) (htoken : token.isText = false) :
    letter.many.run inp = Run.raise (.notText .letter token.kind) := by
  rw [run_many, run_letter_of_isText_eq_false h htoken, Run.raise_bind]

theorem run_many_letter_of_no_letter {inp : Input}
    (h : ∀ token, inp.sequence.tokens.head? = some token →
      token.isText = true ∧ token.isAlphabetic = false) :
    letter.many.run inp = pure [⟨[], inp⟩] := by
  have hnone : inp.sequence.tokens.head?.filter Value.isAlphabetic = none := by
    rw [Option.filter_eq_none_iff]
    intro token htoken
    simp [h token htoken]
  rw [run_many, run_letter_of_isText fun token htoken => (h token htoken).1, hnone]
  simp

theorem run_many_letter_cons {inp : Input} {s : String} {vs : List Value}
    (htokens : inp.sequence.tokens = .str s :: vs) (hs : TextClass.letter.holds s = true) :
    letter.many.run inp =
      letter.many.run (inp.drop 1) >>= fun more =>
        pure (more.map (Success.map (s :: ·)) ++ [⟨[], inp⟩]) := by
  have hhead : inp.sequence.tokens.head? = some (.str s) := by
    rw [htokens, List.head?_cons]
  have hfirst : (some (Value.str s)).filter Value.isAlphabetic = some (.str s) :=
    Option.filter_some_pos hs
  have hletter : letter.run inp = pure [⟨s, inp.drop 1⟩] := by
    rw [run_letter_of_isText, hhead, hfirst]
    · rfl
    · rintro _ htoken
      cases hhead.symm.trans htoken
      rfl
  rw [shortens_letter.run_many, hletter]
  simp

/-- Letters at the beginning are read one by one, whatever comes of the tokens after them. -/
theorem run_many_letter_append {texts : List String} {vs : List Value} {inp : Input}
    (htokens : inp.sequence.tokens = texts.map .str ++ vs)
    (hletters : ∀ s ∈ texts, TextClass.letter.holds s = true) :
    letter.many.run inp =
      letter.many.run (inp.drop texts.length) >>= fun more =>
        pure (more.map (Success.map (texts ++ ·)) ++
          (List.range texts.length).reverse.map fun k => ⟨texts.take k, inp.drop k⟩) := by
  induction texts generalizing inp with
  | nil => simp
  | cons s texts ih =>
      have hnext : (inp.drop 1).sequence.tokens = texts.map .str ++ vs := by
        simp [Input.drop, htokens]
      rw [run_many_letter_cons htokens (hletters s (by simp)),
        ih hnext fun t ht => hletters t (by simp [ht]), bind_assoc, Input.drop_drop,
        Nat.add_comm, List.length_cons]
      refine bind_congr fun more => ?_
      rw [pure_bind, List.range_succ_eq_map]
      simp [Nat.add_comm 1]
      rfl

/-! ## Words -/

/-- All repetitions of a letter, put together. -/
def joinedLetters : Parser String := (letter.mapValue Value.str).many.map joinTexts

theorem texts_map_str (position : Nat) (texts : List String) :
    (Value.texts position (texts.map Value.str) : Run Entry (List String)) = pure texts := by
  induction texts generalizing position with
  | nil => rfl
  | cons s texts ih => rw [List.map_cons, Value.texts, ih, map_pure]

theorem joinTexts_map_str (texts : List String) :
    joinTexts (texts.map Value.str) = pure (String.join texts) := by
  have hjoin : "".intercalate texts = String.join texts := by
    induction texts with
    | nil => simp
    | cons s texts ih => cases texts <;> simp_all
  rw [joinTexts, Value.joinTexts, texts_map_str, map_pure, hjoin]
  rfl

theorem run_joinedLetters (inp : Input) :
    joinedLetters.run inp = List.map (Success.map String.join) <$> letter.many.run inp := by
  rw [joinedLetters, run_map, run_many_mapValue, bind_map_left, map_eq_pure_bind]
  refine bind_congr fun successes => ?_
  simp only [Run.flatMap_map, Success.map, joinTexts_map_str, StateT.run_pure, pure_bind,
    Input.withMade_made, Run.flatMap_pure_singleton]
  rfl

theorem run_word (inp : Input) :
    word.run inp = List.map (Success.map String.join) <$> letter.many.run inp := by
  induction hn : inp.length using Nat.strongRecOn generalizing inp with
  | ind n ih =>
      rw [run_word_eq (Nat.lt_succ_self _), run_wordWithin_succ, shortens_letter.run_many, map_bind]
      refine Run.bind_congr_of_result fun successes hsuccesses => ?_
      have hshorter : Run.flatMap
            (fun s => List.map (Success.map (s.value ++ ·)) <$> (wordWithin inp.length).run s.rest)
            successes =
          List.map (Success.map String.join) <$> Run.flatMap
            (fun s => List.map (Success.map (s.value :: ·)) <$> letter.many.run s.rest)
            successes := by
        rw [Run.map_flatMap]
        refine Run.flatMap_congr fun s hs => ?_
        have hlt := shortens_letter inp successes hsuccesses s hs
        rw [← run_word_eq hlt, ih s.rest.length (hn ▸ hlt) s.rest rfl]
        simp [Success.map, Function.comp_def]
      rw [hshorter]
      simp

/-- A word and the joined repetitions of a letter are the same, with the same errors. Both give the
letters at the beginning of the input and all that they begin with, longest first, unless the token
after the letters is no text: this is an error. -/
theorem words_are_joined_letters (inp : Input) :
    word.run inp = joinedLetters.run inp ∧
      (∀ token, inp.sequence.tokens[inp.letterCount]? = some token → token.isText = false →
        word.run inp = Run.raise (.notText .letter token.kind)) ∧
      ((∀ token, inp.sequence.tokens[inp.letterCount]? = some token → token.isText = true) →
        word.run inp = pure inp.words) := by
  obtain ⟨texts, htexts, hletters⟩ := Value.takeWhile_isAlphabetic inp.sequence.tokens
  have hcount : inp.letterCount = texts.length := by
    rw [Input.letterCount, htexts, List.length_map]
  have htokens : inp.sequence.tokens =
      texts.map .str ++ inp.sequence.tokens.dropWhile Value.isAlphabetic := by
    rw [← htexts, List.takeWhile_append_dropWhile]
  have hrest : (inp.drop texts.length).sequence.tokens =
      inp.sequence.tokens.dropWhile Value.isAlphabetic := by
    have hdrop := congrArg (List.drop texts.length) htokens
    rwa [List.drop_left' (by simp), ← Sequence.tokens_drop] at hdrop
  have hhead : (inp.drop texts.length).sequence.tokens.head? =
      inp.sequence.tokens[inp.letterCount]? := by
    rw [hcount, Input.drop, Sequence.tokens_drop, List.head?_drop]
  have hrun := run_many_letter_append htokens hletters
  refine ⟨(run_word inp).trans (run_joinedLetters inp).symm, ?_, ?_⟩
  · intro token htoken hnot
    rw [run_word, hrun, run_many_letter_of_isText_eq_false (hhead.trans htoken) hnot]
    rfl
  · intro htext
    have hlast : ∀ token, (inp.drop texts.length).sequence.tokens.head? = some token →
        token.isText = true ∧ token.isAlphabetic = false := by
      intro token htoken
      have hnot := List.head?_dropWhile_not Value.isAlphabetic inp.sequence.tokens
      rw [← hrest, htoken] at hnot
      exact ⟨htext token (hhead.symm.trans htoken), hnot⟩
    rw [run_word, hrun, run_many_letter_of_no_letter hlast, inp.words_eq htexts]
    simp [List.range_succ]
    rfl

theorem words_are_joined_letters_of_pieces :
    word.run (.start (.tuple [.str "ab", .str "c", .int 1])) = Run.raise (.notText .letter .int) ∧
      joinedLetters.run (.start (.tuple [.str "ab", .str "c", .int 1])) =
        Run.raise (.notText .letter .int) ∧
      joinedLetters.run (.start (.list [.str "ab", .str "c", .str "1", .int 1])) =
        pure [⟨"abc", .start (.list [.str "1", .int 1])⟩,
          ⟨"ab", .start (.list [.str "c", .str "1", .int 1])⟩,
          ⟨"", .start (.list [.str "ab", .str "c", .str "1", .int 1])⟩] := by
  have hnumber : Input.letterCount (.start (.tuple [.str "ab", .str "c", .int 1])) = 2 := by decide
  have hdigit : Input.letterCount (.start (.list [.str "ab", .str "c", .str "1", .int 1])) = 2 := by
    decide +kernel
  have hwords : Input.words (.start (.list [.str "ab", .str "c", .str "1", .int 1])) =
      [⟨"abc", .start (.list [.str "1", .int 1])⟩,
        ⟨"ab", .start (.list [.str "c", .str "1", .int 1])⟩,
        ⟨"", .start (.list [.str "ab", .str "c", .str "1", .int 1])⟩] := by
    rw [Input.words, hdigit]
    rfl
  obtain ⟨hsame, herror, -⟩ :=
    words_are_joined_letters (.start (.tuple [.str "ab", .str "c", .int 1]))
  obtain ⟨hsame', -, hpure⟩ :=
    words_are_joined_letters (.start (.list [.str "ab", .str "c", .str "1", .int 1]))
  rw [hnumber] at herror
  rw [hdigit] at hpure
  have hraise := herror (.int 1) rfl rfl
  refine ⟨hraise, hsame.symm.trans hraise, ?_⟩
  rw [← hsame', ← hwords]
  apply hpure
  rintro token htoken
  cases htoken
  rfl

end Parser

end AllParses
