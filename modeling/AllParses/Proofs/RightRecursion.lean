import AllParses.Proofs.Chains

/-!
# Grammars that recurse on the right

Chains folded from the right and lists with separators are read by one repetition of their links,
and put together when all links are there. The usual grammars for them recurse instead: an operand
stands alone, or a link leads to the same grammar again, whose value is combined with the operand.
Both ways run the same parsers on the same inputs and put the same parts together equally often,
so they do the same, up to the order of their steps (`RightFold.reordered_of_recursion`). Nothing
is asked of the operators.
-/

namespace AllParses

variable {α β γ : Type}

namespace Parser

/-! ## Steps in another order -/

/-- What comes after all results of a sequence may come after each part of it at once. -/
theorem run_bind_flatMap_reordered (p : Parser α) (next : α → Parser β)
    (g : Success β → Run Entry (List (Success γ))) (inp : Input) :
    Run.Reordered ((p.bind fun a => pure (next a)).run inp >>= Run.flatMap g)
      (p.run inp >>= Run.flatMap fun s => (next s.value).run s.rest >>= Run.flatMap g) := by
  simp only [run_bind, bind_assoc, run_ofCode_pure]
  apply Run.Reordered.bind (.refl _)
  intro ss
  exact Run.flatMap_flatMap _ g ss

theorem run_bind_map_reordered (p : Parser α) (next : α → Parser β) (f : β → Code Entry γ)
    (inp : Input) :
    Run.Reordered (((p.bind fun a => pure (next a)).map f).run inp)
      (p.run inp >>= Run.flatMap fun s => ((next s.value).map f).run s.rest) := by
  simp only [run_map]
  exact run_bind_flatMap_reordered p next _ inp

/-- Two functions may be applied one after the other to each value, or one of them to all values
first. -/
theorem run_map_bind_reordered (p : Parser α) (f : α → Code Entry β) (g : β → Code Entry γ)
    (inp : Input) :
    Run.Reordered ((p.map fun a => f a >>= g).run inp) (((p.map f).map g).run inp) := by
  have hsuccess (s : Success α) :
      mapSuccess f s >>= Run.flatMap (mapSuccess g) = mapSuccess (fun a => f a >>= g) s := by
    simp only [mapSuccess, bind_assoc, pure_bind, Run.flatMap_cons, Run.flatMap_nil,
      List.append_nil, StateT.run_bind]
    rfl
  have hlist (ss : List (Success α)) := Run.flatMap_flatMap (mapSuccess f) (mapSuccess g) ss
  simp only [hsuccess] at hlist
  simp only [run_map, bind_assoc]
  exact Run.Reordered.bind (.refl _) fun ss => (hlist ss).symm

theorem run_map_reordered {p q : Parser α} {inp : Input}
    (h : Run.Reordered (p.run inp) (q.run inp)) (f : α → Code Entry β) :
    Run.Reordered ((p.map f).run inp) ((q.map f).run inp) := by
  rw [run_map, run_map]
  exact h.bind fun _ => .refl _

end Parser

/-! ## Folds of links -/

/-- How an operand and the links after it are put together, beginning with the last link. -/
structure RightFold (α β γ : Type) where
  /-- What an operand gives if no link follows it. -/
  alone : α → γ
  /-- The operand that a link brings. -/
  operand : β → α
  /-- What an operand and the link after it give with what the operand of that link gave. -/
  combine : α → β → γ → Code Entry γ

namespace RightFold

open AllParses.Parser

/-- The value of an operand and the links after it. -/
def fold (F : RightFold α β γ) : α → List β → Code Entry γ
  | a, [] => pure (F.alone a)
  | a, b :: bs => F.fold (F.operand b) bs >>= F.combine a b

/-- `more` continues an operand as the fold does: it runs the link, of which `p` is the last part,
goes on with what the operand of the link is continued by, and combines. -/
def Continues (F : RightFold α β γ) (p : Parser α) (link : Parser β)
    (more : α → Parser γ → Parser γ) : Prop :=
  ∀ a (next : α → Parser γ) inp,
    Run.Reordered ((more a (p.bind fun b => pure (next b))).run inp)
      (link.run inp >>= Run.flatMap fun u =>
        ((next (F.operand u.value)).map (F.combine a u.value)).run u.rest)

variable {F : RightFold α β γ} {p : Parser α} {link : Parser β} {more : α → Parser γ → Parser γ}
  {grammar : Nat → Parser γ}

/-- After any operand, folding all links that can be read does what the grammar does, if that may
recurse more often than there are tokens. -/
theorem reordered_after_operand (hlink : link.Shortens) (hmore : F.Continues p link more)
    (hgrammar : ∀ depth, grammar (depth + 1) =
      p.bind fun a => pure (choice [more a (grammar depth), result (F.alone a)]))
    {depth : Nat} {inp : Input} (hdepth : inp.length < depth) (a : α) :
    Run.Reordered ((link.many.map (F.fold a)).run inp)
      ((choice [more a (grammar depth), result (F.alone a)]).run inp) := by
  -- on the depth: the operand of a link has less after it and is continued one level deeper
  induction depth generalizing inp a with
  | zero => omega
  | succ depth ih =>
      -- what follows an operand in the grammar that may recurse once less
      let next := fun b => choice [more b (grammar depth), result (F.alone b)]
      have hlinks : ∀ us, (link.run inp).result = .ok us →
          Run.Reordered
            (Run.flatMap (fun u => (link.many.map fun bs => F.fold a (u.value :: bs)).run u.rest) us)
            (Run.flatMap
              (fun u => ((next (F.operand u.value)).map (F.combine a u.value)).run u.rest) us) := by
        intro us hus
        apply Run.reordered_flatMap
        intro u hu
        have hshorter := hlink inp us hus u hu
        have hrest := ih (show u.rest.length < depth by omega) (F.operand u.value)
        have hsplit := run_map_bind_reordered link.many (F.fold (F.operand u.value))
          (F.combine a u.value) u.rest
        exact hsplit.trans (run_map_reordered hrest _)
      have hwalk := hlink.run_many_map_reordered (F.fold a) inp
      have hmoreRun : Run.Reordered ((more a (grammar (depth + 1))).run inp)
          (link.run inp >>= Run.flatMap fun u =>
            ((next (F.operand u.value)).map (F.combine a u.value)).run u.rest) :=
        hgrammar depth ▸ hmore a next inp
      have hsame : Run.Reordered
          (link.run inp >>= Run.flatMap fun u =>
            (link.many.map fun bs => F.fold a (u.value :: bs)).run u.rest)
          ((more a (grammar (depth + 1))).run inp) :=
        (Run.Reordered.bind_of_result (.refl _) hlinks).trans hmoreRun.symm
      calc (link.many.map (F.fold a)).run inp
        Run.Reordered _ _ := hwalk
        _ = (link.run inp >>= Run.flatMap fun u =>
              (link.many.map fun bs => F.fold a (u.value :: bs)).run u.rest) >>=
              fun rs => pure (rs ++ [⟨F.alone a, inp⟩]) := by
            simp only [fold, StateT.run_pure, pure_bind, Input.withMade_made, bind_assoc]
        Run.Reordered _ ((more a (grammar (depth + 1))).run inp >>=
            fun rs => pure (rs ++ [⟨F.alone a, inp⟩])) := hsame.bind fun _ => .refl _
        _ = (choice [more a (grammar (depth + 1)), result (F.alone a)]).run inp := by
            simp only [run_choice, Run.flatMap_cons, Run.flatMap_nil, run_result, pure_bind,
              List.append_nil]

/-- Reading an operand and all its links, and folding them afterwards, does what the grammar that
recurses on the right does. -/
theorem reordered_of_recursion (hlink : link.Shortens) (hmore : F.Continues p link more)
    (hgrammar : ∀ depth, grammar (depth + 1) =
      p.bind fun a => pure (choice [more a (grammar depth), result (F.alone a)]))
    {inp : Input} {depth : Nat}
    (hdepth : (p.run inp).Ensures fun ss => ∀ s ∈ ss, s.rest.length < depth) :
    Run.Reordered ((p.bind fun a => pure (link.many.map (F.fold a))).run inp)
      ((grammar (depth + 1)).run inp) := by
  rw [hgrammar, run_bind, run_bind]
  apply Run.Reordered.bind_of_result (.refl _)
  intro ss hss
  apply Run.reordered_flatMap
  intro s hs
  exact reordered_after_operand hlink hmore hgrammar (hdepth ss hss s hs) s.value

end RightFold

/-! ## Chains folded from the right -/

/-- An operator and its right operand after each operand, folded from the right. -/
def RightFold.operators : RightFold α (Operator α × α) α := ⟨id, Prod.snd, fun a l c => l.1 a c⟩

theorem foldRight_eq_fold (a : α) (links : List (Operator α × α)) :
    foldRight a links = RightFold.operators.fold a links := by
  induction links generalizing a with
  | nil => rfl
  | cons l links ih =>
      rw [foldRight, ih, RightFold.fold]
      rfl

namespace Parser

/-- The grammar of chains that recurses on the right: an operand, and after it an operator and a
chain, whose value is the right operand; or the operand alone. At most `depth` uses of the grammar
may be nested. -/
def chainRight (p : Parser α) (op : Parser (Operator α)) : Nat → Parser α
  | 0 => ⟨none, fun _ => Run.raise .tooDeep⟩
  | depth + 1 => p.bind fun a =>
    pure (choice [op.bind fun f => pure ((chainRight p op depth).map (f a)), result a])

theorem continues_operators (p : Parser α) (op : Parser (Operator α)) :
    RightFold.operators.Continues p (op.pair p)
      fun a chain => op.bind fun f => pure (chain.map (f a)) := by
  intro a next inp
  have hpair := run_pair_flatMap_reordered op p
    (fun u => ((next u.value.2).map (u.value.1 a)).run u.rest) inp
  have hoperands (ss : List (Success (Operator α))) :=
    Run.reordered_flatMap fun (s : Success (Operator α)) (_ : s ∈ ss) =>
      run_bind_map_reordered p next (s.value a) s.rest
  calc (op.bind fun f => pure ((p.bind fun b => pure (next b)).map (f a))).run inp
    _ = op.run inp >>= Run.flatMap fun s =>
          ((p.bind fun b => pure (next b)).map (s.value a)).run s.rest := by
        simp only [run_bind op, run_ofCode_pure]
    Run.Reordered _ (op.run inp >>= Run.flatMap fun s => p.run s.rest >>= Run.flatMap fun t =>
          ((next t.value).map (s.value a)).run t.rest) :=
        Run.Reordered.bind (.refl _) hoperands
    Run.Reordered _ _ := hpair.symm

/-- The chain folded from the right does what the grammar that recurses on the right does: both
fail, or both give the same values and rests in the same order. -/
theorem chainr1_reordered_chainRight {p : Parser α} {op : Parser (Operator α)}
    (hlink : (op.pair p).Shortens) (inp : Input) {depth : Nat}
    (hdepth : (p.run inp).Ensures fun ss => ∀ s ∈ ss, s.rest.length < depth) :
    Run.Reordered ((p.chainr1 op).run inp) ((chainRight p op (depth + 1)).run inp) := by
  have hfold : foldRight = RightFold.operators.fold (α := α) :=
    funext fun a => funext (foldRight_eq_fold a)
  rw [chainr1, hfold]
  exact RightFold.reordered_of_recursion hlink (continues_operators p op) (fun _ => rfl) hdepth

/-- One of the first four letters. -/
def oneLetter : Parser (List Char) := (charIn ['a', 'b', 'c', 'd']).mapValue fun c => [c]

/-- A letter, or the second one of two. -/
def atom : Parser (List Char) := choice [oneLetter, oneLetter.keepRight oneLetter]

/-- A sign between two terms, which are written in parentheses with it. -/
def sign (c : Char) : Parser (Operator (List Char)) :=
  (char (.char c)).mapValue fun _ a b => pure (['('] ++ a ++ [c] ++ b ++ [')'])

theorem shortens_atom : atom.Shortens := by
  have hletter : oneLetter.Shortens := (shortens_accept _).mapValue _
  exact shortens_choice (by simpa using ⟨hletter, hletter.keepRight hletter⟩)

theorem shortens_sign (c : Char) : (sign c).Shortens := (shortens_char _).mapValue _

theorem chainr1_reordered_chainRight_of_signs :
    ((choice [sign '-', sign '+']).pair atom).Shortens ∧
      ((atom.run (.start (.text ['a', '-', 'b', 'c', '+', 'd']))).Ensures
        fun ss => ∀ s ∈ ss, s.rest.length < 6) ∧
      Run.Reordered
        ((atom.chainr1 (choice [sign '-', sign '+'])).run
          (.start (.text ['a', '-', 'b', 'c', '+', 'd'])))
        ((chainRight atom (choice [sign '-', sign '+']) 7).run
          (.start (.text ['a', '-', 'b', 'c', '+', 'd']))) ∧
      ((chainRight atom (choice [sign '-', sign '+']) 7).run
          (.start (.text ['a', '-', 'b', 'c', '+', 'd']))).result =
        .ok [⟨['(', 'a', '-', 'b', ')'], .start (.text ['c', '+', 'd'])⟩,
          ⟨['(', 'a', '-', '(', 'c', '+', 'd', ')', ')'], .start (.text [])⟩,
          ⟨['(', 'a', '-', 'c', ')'], .start (.text ['+', 'd'])⟩,
          ⟨['a'], .start (.text ['-', 'b', 'c', '+', 'd'])⟩] := by
  have hlink : ((choice [sign '-', sign '+']).pair atom).Shortens :=
    (shortens_choice (by simpa using ⟨shortens_sign '-', shortens_sign '+'⟩)).pair shortens_atom
  have hdepth := shortens_atom (.start (.text ['a', '-', 'b', 'c', '+', 'd']))
  have hrun : ((atom.chainr1 (choice [sign '-', sign '+'])).run
      (.start (.text ['a', '-', 'b', 'c', '+', 'd']))).result =
      .ok [⟨['(', 'a', '-', 'b', ')'], .start (.text ['c', '+', 'd'])⟩,
        ⟨['(', 'a', '-', '(', 'c', '+', 'd', ')', ')'], .start (.text [])⟩,
        ⟨['(', 'a', '-', 'c', ')'], .start (.text ['+', 'd'])⟩,
        ⟨['a'], .start (.text ['-', 'b', 'c', '+', 'd'])⟩] := by
    cbv
  have hsame := chainr1_reordered_chainRight hlink _ hdepth
  exact ⟨hlink, hdepth, hsame, hsame.result_eq_ok hrun⟩

/-! ## Lists with separators -/

/-- The grammar of lists that recurses on the right: an item, and after it a separator and a list;
or the item alone. At most `depth` uses of the grammar may be nested. -/
def separated (p : Parser α) (separator : Parser β) : Nat → Parser (List α)
  | 0 => ⟨none, fun _ => Run.raise .tooDeep⟩
  | depth + 1 => p.bind fun a =>
    pure (choice
      [(separator.keepRight (separated p separator depth)).map fun as => pure (a :: as), result [a]])

end Parser

/-- An item after each separator, put in front of the list of the later ones. -/
def RightFold.items : RightFold α α (List α) := ⟨fun a => [a], id, fun a _ as => pure (a :: as)⟩

theorem pure_cons_eq_fold (a : α) (as : List α) : pure (a :: as) = RightFold.items.fold a as := by
  induction as generalizing a with
  | nil => rfl
  | cons b bs ih =>
      have hrest : RightFold.items.fold b bs = pure (b :: bs) := (ih b).symm
      show pure (a :: b :: bs) = RightFold.items.fold b bs >>= RightFold.items.combine a b
      rw [hrest, pure_bind]
      rfl

namespace Parser

theorem continues_items (p : Parser α) (separator : Parser β) :
    RightFold.items.Continues p (separator.keepRight p)
      fun a items => (separator.keepRight items).map fun as => pure (a :: as) := by
  intro a next inp
  have hlinks := run_bind_flatMap_reordered separator (fun _ => p)
    (fun u => ((next u.value).map fun as => pure (a :: as)).run u.rest) inp
  have hrest := run_bind_map_reordered separator (fun _ => p.bind fun b => pure (next b))
    (fun as => pure (a :: as)) inp
  have hitems (ss : List (Success β)) :=
    Run.reordered_flatMap fun (s : Success β) (_ : s ∈ ss) =>
      run_bind_map_reordered p next (fun as => pure (a :: as)) s.rest
  calc ((separator.keepRight (p.bind fun b => pure (next b))).map fun as => pure (a :: as)).run inp
    Run.Reordered _ (separator.run inp >>= Run.flatMap fun s =>
          ((p.bind fun b => pure (next b)).map fun as => pure (a :: as)).run s.rest) := hrest
    Run.Reordered _ (separator.run inp >>= Run.flatMap fun s => p.run s.rest >>=
          Run.flatMap fun t => ((next t.value).map fun as => pure (a :: as)).run t.rest) :=
        Run.Reordered.bind (.refl _) hitems
    Run.Reordered _ _ := hlinks.symm

/-- The list with separators does what the grammar that recurses on the right does: both fail, or
both give the same lists and rests in the same order and log the same entries in some order. If
there may be no item, then the empty list comes after all these results. -/
theorem sepBy1_reordered_separated {p : Parser α} {separator : Parser β}
    (hlink : (separator.keepRight p).Shortens) (inp : Input) {depth : Nat}
    (hdepth : (p.run inp).Ensures fun ss => ∀ s ∈ ss, s.rest.length < depth) :
    Run.Reordered ((p.sepBy1 separator).run inp) ((separated p separator (depth + 1)).run inp) ∧
      (p.sepBy separator).run inp =
        (p.sepBy1 separator).run inp >>= fun rs => pure (rs ++ [⟨[], inp⟩]) := by
  constructor
  · simp only [sepBy1, pure_cons_eq_fold]
    exact RightFold.reordered_of_recursion hlink (continues_items p separator) (fun _ => rfl) hdepth
  · simp only [sepBy, run_choice, Run.flatMap_cons, Run.flatMap_nil, run_result, pure_bind,
      List.append_nil]

/-- One comma, or two of them. -/
def commas : Parser Value :=
  choice [char (.char ','), (char (.char ',')).keepRight (char (.char ','))]

/-- A comma may be an item as well, so a list with two commas in it can be read in two ways. -/
theorem sepBy1_reordered_separated_of_commas :
    (commas.keepRight item).Shortens ∧
      ((item.run (.start (.text ['a', ',', ',', 'b']))).Ensures
        fun ss => ∀ s ∈ ss, s.rest.length < 4) ∧
      Run.Reordered ((item.sepBy1 commas).run (.start (.text ['a', ',', ',', 'b'])))
        ((separated item commas 5).run (.start (.text ['a', ',', ',', 'b']))) ∧
      ((separated item commas 5).run (.start (.text ['a', ',', ',', 'b']))).result =
        .ok [⟨[.char 'a', .char ','], .start (.text ['b'])⟩,
          ⟨[.char 'a', .char 'b'], .start (.text [])⟩,
          ⟨[.char 'a'], .start (.text [',', ',', 'b'])⟩] ∧
      ((item.sepBy commas).run (.start (.text ['a', ',', ',', 'b']))).result =
        .ok [⟨[.char 'a', .char ','], .start (.text ['b'])⟩,
          ⟨[.char 'a', .char 'b'], .start (.text [])⟩,
          ⟨[.char 'a'], .start (.text [',', ',', 'b'])⟩, ⟨[], .start (.text ['a', ',', ',', 'b'])⟩] := by
  have hcomma : (char (.char ',')).Shortens := shortens_char _
  have hcommas : commas.Shortens :=
    shortens_choice (by simpa using ⟨hcomma, hcomma.keepRight hcomma⟩)
  have hlink : (commas.keepRight item).Shortens := hcommas.keepRight shortens_item
  have hdepth := shortens_item (.start (.text ['a', ',', ',', 'b']))
  have hrun : ((item.sepBy1 commas).run (.start (.text ['a', ',', ',', 'b']))).result =
      .ok [⟨[.char 'a', .char ','], .start (.text ['b'])⟩,
        ⟨[.char 'a', .char 'b'], .start (.text [])⟩,
        ⟨[.char 'a'], .start (.text [',', ',', 'b'])⟩] := by
    cbv
  obtain ⟨hsame, hempty⟩ := sepBy1_reordered_separated hlink _ hdepth
  refine ⟨hlink, hdepth, hsame, hsame.result_eq_ok hrun, ?_⟩
  rw [hempty, Run.result_bind_eq_ok_iff]
  exact ⟨_, hrun, rfl⟩

end Parser

end AllParses
