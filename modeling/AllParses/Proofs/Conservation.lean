import AllParses.Proofs.Characters
import AllParses.Proofs.Count

/-!
# No token is lost and none is read twice

A parser accounts for its input if the tokens that its value stands for are just those between the
input and what is left of it. Repeating such a parser accounts for the input too: the tokens of the
values, one after the other, and then those that are left, are the tokens that there were.
-/

namespace AllParses.Parser

variable {α β : Type} {f : α → List Value} {g : β → List Value}

/-- The tokens of every input are those that `f` finds in the value of a success, and after them
those that the success left. -/
def Accounts (f : α → List Value) (p : Parser α) : Prop :=
  ∀ inp, (p.run inp).Ensures fun ss =>
    ∀ s ∈ ss, inp.sequence.tokens = f s.value ++ s.rest.sequence.tokens

theorem accounts_result {a : α} (ha : f a = []) : (result a).Accounts f :=
  fun _ => Run.ensures_pure (by simp [ha])

theorem Accounts.mapValue {p : Parser α} {h : α → β} (hp : p.Accounts fun a => g (h a)) :
    (p.mapValue h).Accounts g := by
  intro inp
  refine (hp inp).map fun ss hs r hr => ?_
  obtain ⟨s, hmem, rfl⟩ := List.mem_map.1 hr
  exact hs s hmem

theorem accounts_choice {ps : List (Parser α)} (hps : ∀ p ∈ ps, p.Accounts f) :
    (choice ps).Accounts f :=
  fun inp => ensures_choice fun p hp => hps p hp inp

/-! ## Sequences and repetitions -/

theorem Accounts.pair {p : Parser α} {q : Parser β} (hp : p.Accounts f) (hq : q.Accounts g) :
    (p.pair q).Accounts fun ab => f ab.1 ++ g ab.2 := by
  intro inp
  rw [run_pair]
  refine (hp inp).bind fun ss hs => Run.ensures_flatMap fun s hmem => ?_
  refine (hq s.rest).bind fun ts ht => Run.ensures_flatMap fun t htmem => ?_
  refine Run.ensures_pure ?_
  rw [List.forall_mem_singleton, hs s hmem, ht t htmem, List.append_assoc]

theorem tokens_eq_of_cons {inp : Input} {s : Success α} {t : Success (List α)}
    (hs : inp.sequence.tokens = f s.value ++ s.rest.sequence.tokens)
    (ht : s.rest.sequence.tokens = t.value.flatMap f ++ t.rest.sequence.tokens) :
    inp.sequence.tokens =
      (t.map (s.value :: ·)).value.flatMap f ++ (t.map (s.value :: ·)).rest.sequence.tokens := by
  rw [hs, ht, ← List.append_assoc]
  rfl

theorem Accounts.many {p : Parser α} (hp : p.Accounts f) : p.many.Accounts (List.flatMap f) := by
  refine ensures_many
    (Q := fun inp r => inp.sequence.tokens = r.value.flatMap f ++ r.rest.sequence.tokens)
    (fun inp => rfl) ?_
  intro inp ss hss s hs _ t ht
  exact tokens_eq_of_cons (hp inp ss hss s hs) ht

theorem Accounts.bind_cons {p : Parser α} {q : Parser (List α)} (hp : p.Accounts f)
    (hq : q.Accounts (List.flatMap f)) :
    (p.bind fun a => pure (q.map fun as => pure (a :: as))).Accounts (List.flatMap f) := by
  intro inp
  simp only [run_bind, run_ofCode_pure, run_map_pure]
  refine (hp inp).bind fun ss hs => Run.ensures_flatMap fun s hmem => ?_
  refine (hq s.rest).map fun ts ht r hr => ?_
  obtain ⟨t, htmem, rfl⟩ := List.mem_map.1 hr
  exact tokens_eq_of_cons (hs s hmem) (ht t htmem)

theorem Accounts.nested {p : Parser α} (hp : p.Accounts f) (n : Nat) :
    (p.nested n).Accounts (List.flatMap f) := by
  induction n with
  | zero => exact accounts_result rfl
  | succ n ih => exact hp.bind_cons ih

theorem Accounts.count {p : Parser α} (hp : p.Accounts f) (n : Nat) :
    (count n p).Accounts (List.flatMap f) :=
  fun inp => (run_count_reordered p n inp).ensures (hp.nested n inp)

/-- If a parser accounts for its input, then so do any number of repetitions of it, one or more, and
each fixed number; and a pair of parsers of which each accounts for its input accounts for the
whole. -/
theorem repetition_accounts {p : Parser α} (hp : p.Accounts f) :
    p.many.Accounts (List.flatMap f) ∧ p.many1.Accounts (List.flatMap f) ∧
      (∀ n, (count n p).Accounts (List.flatMap f)) ∧
      ∀ (β : Type) (g : β → List Value) (q : Parser β), q.Accounts g →
        (p.pair q).Accounts fun ab => f ab.1 ++ g ab.2 :=
  ⟨hp.many, hp.bind_cons hp.many, hp.count, fun _ _ _ hq => hp.pair hq⟩

/-! ## Tokens in groups -/

theorem accounts_item : item.Accounts fun token => [token] := by
  intro inp
  rw [run_item]
  refine Run.ensures_pure fun s hs => ?_
  obtain ⟨⟨token, rest⟩, hnext, rfl⟩ := List.mem_map.1 hs
  have hnext : inp.next? = some (token, rest) := Option.mem_toList.1 hnext
  rw [Input.tokens_of_next? hnext]
  rfl

/-- Two tokens, one token or none. -/
def upToTwo : Parser (List Value) :=
  choice [(item.pair item).mapValue fun ab => [ab.1, ab.2], item.mapValue fun a => [a], result []]

theorem accounts_upToTwo : upToTwo.Accounts id := by
  have hone : (item.mapValue fun a => [a]).Accounts id := accounts_item.mapValue
  have htwo : ((item.pair item).mapValue fun ab => [ab.1, ab.2]).Accounts id :=
    (accounts_item.pair accounts_item).mapValue
  have hnone : (result []).Accounts (id : List Value → List Value) := accounts_result rfl
  exact accounts_choice (by simpa using ⟨htwo, hone, hnone⟩)

theorem repetition_accounts_of_upToTwo :
    upToTwo.Accounts id ∧ item.Accounts (fun token => [token]) ∧
      (upToTwo.many.run (.start (.text ['a', 'b']))).result =
        .ok [⟨[[.char 'a', .char 'b']], .start (.text [])⟩,
          ⟨[[.char 'a'], [.char 'b']], .start (.text [])⟩,
          ⟨[[.char 'a']], .start (.text ['b'])⟩, ⟨[], .start (.text ['a', 'b'])⟩] ∧
      upToTwo.many.Accounts (List.flatMap id) ∧
      (upToTwo.pair item).Accounts fun ab => ab.1 ++ [ab.2] := by
  have haccounts := repetition_accounts accounts_upToTwo
  exact ⟨accounts_upToTwo, accounts_item, by cbv, haccounts.1,
    haccounts.2.2.2 Value _ item accounts_item⟩

end AllParses.Parser
