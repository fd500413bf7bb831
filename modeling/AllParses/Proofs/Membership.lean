import Mathlib
import AllParses.Parser.Choice
import AllParses.Proofs.Spelling

/-!
# Membership

A parser for one of some tokens looks its token up in a set, and so must insist on a token that can
be looked up. Among such values equality is an equivalence: it says that two values are the same
once their truth values are taken for the numbers they equal, at any depth of tuples. Hence neither
the order of the elements, nor how often one of them or an equal one is there, nor the hashes by
which a table finds them make any difference: the token is accepted just when the parser for one of
the elements accepts it.
-/

namespace AllParses

namespace Value

/-! ## Values that can be looked up -/

/-- A value that can be looked up in a set: no list and no dictionary, and no tuple that holds one
at any depth. -/
inductive IsHashable : Value → Prop where
  | none : IsHashable none
  | bool (b : Bool) : IsHashable (bool b)
  | int (n : Int) : IsHashable (int n)
  | str (s : String) : IsHashable (str s)
  | bytes (bs : List UInt8) : IsHashable (bytes bs)
  | tuple {vs : List Value} (items : ∀ v ∈ vs, IsHashable v) : IsHashable (tuple vs)
  | fn (number : Nat) (params : List String) (body : Action) (env : List (String × Value)) :
      IsHashable (fn number params body env)

theorem firstUnhashable?_eq_none {vs : List Value} (h : ∀ v ∈ vs, v.unhashable? = Option.none) :
    firstUnhashable? vs = Option.none := by
  induction vs with
  | nil => rfl
  | cons v vs ih =>
      obtain ⟨hv, hvs⟩ := List.forall_mem_cons.1 h
      rw [firstUnhashable?, hv]
      exact ih hvs

theorem IsHashable.unhashable?_eq_none {v : Value} (h : v.IsHashable) :
    v.unhashable? = Option.none := by
  induction h with
  | tuple _ ih => exact firstUnhashable?_eq_none ih
  | _ => rfl

mutual

theorem exists_unhashable? : (v : Value) → ¬v.IsHashable →
    ∃ kind, v.unhashable? = some kind ∧ (kind = .list ∨ kind = .dict)
  | none, h => absurd .none h
  | bool b, h => absurd (.bool b) h
  | int n, h => absurd (.int n) h
  | str s, h => absurd (.str s) h
  | bytes bs, h => absurd (.bytes bs) h
  | list _, _ => ⟨.list, rfl, .inl rfl⟩
  | tuple vs, h => exists_firstUnhashable? vs fun items => h (.tuple items)
  | dict _, _ => ⟨.dict, rfl, .inr rfl⟩
  | fn number params body env, h => absurd (.fn number params body env) h

theorem exists_firstUnhashable? : (vs : List Value) → (¬∀ v ∈ vs, v.IsHashable) →
    ∃ kind, firstUnhashable? vs = some kind ∧ (kind = .list ∨ kind = .dict)
  | [], h => absurd (by simp) h
  | v :: vs, h => by
    by_cases hv : v.IsHashable
    · obtain ⟨kind, hkind, hcases⟩ :=
        exists_firstUnhashable? vs fun hvs => h (List.forall_mem_cons.2 ⟨hv, hvs⟩)
      refine ⟨kind, ?_, hcases⟩
      rw [firstUnhashable?, hv.unhashable?_eq_none]
      exact hkind
    · obtain ⟨kind, hkind, hcases⟩ := exists_unhashable? v hv
      refine ⟨kind, ?_, hcases⟩
      rw [firstUnhashable?, hkind]

end

/-! ## Equality among them -/

mutual

/-- The value with a number for each truth value that equals it, at any depth of tuples; of a
function only its number is kept. -/
def key : Value → Value
  | bool b => int (if b then 1 else 0)
  | tuple vs => tuple (keys vs)
  | fn number _ _ _ => fn number [] (.var "") []
  | v => v
termination_by structural v => v

/-- The keys of the values of a list. -/
def keys : List Value → List Value
  | [] => []
  | v :: vs => v.key :: keys vs
termination_by structural vs => vs

end

theorem sameList_iff_keys_eq {vs : List Value}
    (h : ∀ v ∈ vs, ∀ w, same v w = true ↔ v.key = w.key) (ws : List Value) :
    sameList vs ws = true ↔ keys vs = keys ws := by
  induction vs generalizing ws with
  | nil => cases ws <;> simp [sameList, keys]
  | cons v vs ih =>
      obtain ⟨hv, hvs⟩ := List.forall_mem_cons.1 h
      cases ws with
      | nil => simp [sameList, keys]
      | cons w ws => simp [sameList, keys, hv, ih hvs]

theorem IsHashable.beq_iff_key_eq {v : Value} (h : v.IsHashable) (w : Value) :
    (v == w) = true ↔ v.key = w.key := by
  show same v w = true ↔ _
  induction h generalizing w with
  | tuple _ ih =>
      cases w with
      | tuple ws => simpa [same, key] using sameList_iff_keys_eq ih ws
      | _ => simp [same, key]
  | bool b => cases b <;> cases w <;> simp [same, key]
  | _ => cases w <;> simp [same, key]

end Value

/-- The next token, if there is one, can be looked up. -/
def Input.NextIsHashable (inp : Input) : Prop :=
  ∀ token rest, inp.next? = some (token, rest) → token.IsHashable

/-! ## Sets -/

/-- A value that can be an element of a set. -/
structure Member where
  value : Value
  isHashable : value.IsHashable

namespace Member

instance : BEq Member := ⟨fun m n => m.value == n.value⟩

theorem beq_iff_key_eq {m n : Member} : (m == n) = true ↔ m.value.key = n.value.key :=
  m.isHashable.beq_iff_key_eq n.value

instance : EquivBEq Member where
  rfl := beq_iff_key_eq.2 rfl
  symm h := beq_iff_key_eq.2 (beq_iff_key_eq.1 h).symm
  trans h h' := beq_iff_key_eq.2 ((beq_iff_key_eq.1 h).trans (beq_iff_key_eq.1 h'))

/-- One way to hash: equal values have the same key, and so their keys are written alike. -/
instance : Hashable Member := ⟨fun m => hash m.value.key.written⟩

instance : LawfulHashable Member where
  hash_eq _ _ h := congrArg (fun v : Value => hash v.written) (beq_iff_key_eq.1 h)

/-- Whatever the hashes are, as long as equal values have equal ones: a table of the elements holds
what is found by going through them. -/
theorem mem_ofList_iff [Hashable Member] [LawfulHashable Member] {members : List Member}
    {m : Member} :
    m ∈ Std.HashSet.ofList members ↔ (members.map value).contains m.value = true := by
  rw [Std.HashSet.mem_ofList, List.contains_eq_any_beq, List.contains_eq_any_beq, List.any_map]
  rfl

end Member

namespace Parser

variable {inp rest : Input} {token : Value} {set : List Value}

theorem setOf_eq {cs : Value} {members : List Member}
    (h : cs.elements? = some (members.map Member.value)) :
    setOf cs = pure (members.map Member.value) := by
  have hall : ∀ v ∈ members.map Member.value, v.unhashable? = none := by
    intro v hv
    obtain ⟨m, -, rfl⟩ := List.mem_map.1 hv
    exact m.isHashable.unhashable?_eq_none
  rw [setOf, h, Run.getOrRaise, pure_bind, Value.firstUnhashable?_eq_none hall]

/-! ## Tests on tokens that can be looked up -/

/-- A token that can be looked up and passes the test. -/
def lookedUp (test : Value → Bool) : Parser Value :=
  satisfy fun token => do
    requireHashable token
    pure (test token)

theorem requireHashable_of_isHashable (h : token.IsHashable) :
    requireHashable token = pure () := by
  rw [requireHashable, h.unhashable?_eq_none]

theorem requireHashable_of_unhashable {kind : Kind} (h : token.unhashable? = some kind) :
    requireHashable token = Run.raise (.unhashable kind) := by
  rw [requireHashable, h]

theorem run_lookedUp_of_next?_eq_none (test : Value → Bool) (h : inp.next? = none) :
    (lookedUp test).run inp = pure [] := by
  rw [lookedUp, satisfy, run_accept, h]

theorem run_lookedUp_of_isHashable (test : Value → Bool) (h : inp.next? = some (token, rest))
    (htoken : token.IsHashable) :
    (lookedUp test).run inp = pure (if test token then [⟨token, rest⟩] else []) := by
  rw [lookedUp, satisfy, run_accept, h]
  by_cases htest : test token
  · simp [requireHashable_of_isHashable htoken, htest]
  · simp [requireHashable_of_isHashable htoken, htest]

theorem run_lookedUp_of_unhashable (test : Value → Bool) {kind : Kind}
    (h : inp.next? = some (token, rest)) (htoken : token.unhashable? = some kind) :
    (lookedUp test).run inp = Run.raise (.unhashable kind) := by
  rw [lookedUp, satisfy, run_accept, h]
  simp only [requireHashable_of_unhashable htoken]
  rfl

theorem oneOf_eq (set : List Value) : oneOf set = (lookedUp set.contains).label "one_of" := rfl

theorem noneOf_eq (set : List Value) :
    noneOf set = (lookedUp fun token => !set.contains token).label "none_of" := rfl

theorem run_oneOf_of_isHashable (set : List Value) (h : inp.next? = some (token, rest))
    (htoken : token.IsHashable) :
    (oneOf set).run inp = pure (if set.contains token then [⟨token, rest⟩] else []) := by
  rw [oneOf_eq, run_label, run_lookedUp_of_isHashable _ h htoken]

theorem run_noneOf_of_isHashable (set : List Value) (h : inp.next? = some (token, rest))
    (htoken : token.IsHashable) :
    (noneOf set).run inp = pure (if set.contains token then [] else [⟨token, rest⟩]) := by
  rw [noneOf_eq, run_label, run_lookedUp_of_isHashable _ h htoken]
  by_cases hmem : set.contains token
  · simp [hmem]
  · simp [hmem]

theorem run_oneOf_of_next?_eq_none (set : List Value) (h : inp.next? = none) :
    (oneOf set).run inp = pure [] := by
  rw [oneOf_eq, run_label, run_lookedUp_of_next?_eq_none _ h]

theorem run_noneOf_of_next?_eq_none (set : List Value) (h : inp.next? = none) :
    (noneOf set).run inp = pure [] := by
  rw [noneOf_eq, run_label, run_lookedUp_of_next?_eq_none _ h]

theorem run_oneOf_of_unhashable (set : List Value) {kind : Kind}
    (h : inp.next? = some (token, rest)) (htoken : token.unhashable? = some kind) :
    (oneOf set).run inp = Run.raise (.unhashable kind) := by
  rw [oneOf_eq, run_label, run_lookedUp_of_unhashable _ h htoken]

theorem run_noneOf_of_unhashable (set : List Value) {kind : Kind}
    (h : inp.next? = some (token, rest)) (htoken : token.unhashable? = some kind) :
    (noneOf set).run inp = Run.raise (.unhashable kind) := by
  rw [noneOf_eq, run_label, run_lookedUp_of_unhashable _ h htoken]

/-! ## Choices among tokens -/

theorem run_choice_char_of_next?_eq_none (set : List Value) (h : inp.next? = none) :
    (choice (set.map char)).run inp = pure [] := by
  rw [run_choice, Run.flatMap_map]
  induction set with
  | nil => rfl
  | cons v vs ih =>
      rw [Run.flatMap_cons, run_char_of_next?_eq_none h, ih]
      rfl

theorem run_choice_char (set : List Value) (h : inp.next? = some (token, rest)) :
    (choice (set.map char)).run inp =
      pure ((set.filter (token == ·)).map fun _ => ⟨token, rest⟩) := by
  rw [run_choice, Run.flatMap_map]
  induction set with
  | nil => rfl
  | cons v vs ih =>
      rw [Run.flatMap_cons, run_char_of_next? h, ih]
      by_cases hv : token == v
      · simp [hv]
      · simp [hv]

/-- The token is found as often as there are elements that equal it; the first time is kept. -/
theorem run_first_choice_char (set : List Value) (h : inp.next? = some (token, rest)) :
    (choice (set.map char)).first.run inp =
      pure (if set.contains token then [⟨token, rest⟩] else []) := by
  rw [run_first, run_choice_char set h, map_pure]
  induction set with
  | nil => rfl
  | cons v vs ih =>
      by_cases hv : token == v
      · simp [hv]
      · simpa [hv] using ih

/-! ## One of some tokens, and none of them -/

theorem run_oneOf_eq_first_choice (set : List Value) (h : inp.NextIsHashable) :
    (oneOf set).run inp = (choice (set.map char)).first.run inp := by
  cases hnext : inp.next? with
  | none =>
      rw [run_oneOf_of_next?_eq_none set hnext, run_first,
        run_choice_char_of_next?_eq_none set hnext, map_pure, List.take_nil]
  | some next =>
      obtain ⟨token, rest⟩ := next
      rw [run_oneOf_of_isHashable set hnext (h token rest hnext), run_first_choice_char set hnext]

theorem run_notFollowedBy_item {p : Parser Value} {ss : List (Success Value)}
    (h : p.run inp = pure ss) :
    (p.notFollowedBy.keepRight item).run inp = if ss.isEmpty then item.run inp else pure [] := by
  rw [run_keepRight, run_notFollowedBy, h, map_pure, pure_bind]
  cases ss with
  | nil => simp
  | cons s ss => simp

theorem run_noneOf_eq_notFollowedBy (set : List Value) (h : inp.NextIsHashable) :
    (noneOf set).run inp = ((oneOf set).notFollowedBy.keepRight item).run inp := by
  cases hnext : inp.next? with
  | none =>
      rw [run_notFollowedBy_item (run_oneOf_of_next?_eq_none set hnext), run_item, hnext,
        run_noneOf_of_next?_eq_none set hnext]
      rfl
  | some next =>
      obtain ⟨token, rest⟩ := next
      have htoken := h token rest hnext
      rw [run_notFollowedBy_item (run_oneOf_of_isHashable set hnext htoken), run_item, hnext,
        run_noneOf_of_isHashable set hnext htoken]
      by_cases hmem : set.contains token
      · simp [hmem]
      · simp [hmem]

theorem exists_accepted_rejected (set : List Value) (h : inp.NextIsHashable) :
    ∃ accepted rejected, (oneOf set).run inp = pure accepted ∧
      (noneOf set).run inp = pure rejected ∧ item.run inp = pure (accepted ++ rejected) ∧
      (accepted = [] ∨ rejected = []) := by
  cases hnext : inp.next? with
  | none =>
      refine ⟨[], [], run_oneOf_of_next?_eq_none set hnext, run_noneOf_of_next?_eq_none set hnext,
        ?_, .inl rfl⟩
      rw [run_item, hnext]
      rfl
  | some next =>
      obtain ⟨token, rest⟩ := next
      have htoken := h token rest hnext
      refine ⟨_, _, run_oneOf_of_isHashable set hnext htoken,
        run_noneOf_of_isHashable set hnext htoken, ?_, ?_⟩
      · rw [run_item, hnext]
        by_cases hmem : set.contains token
        · simp [hmem]
        · simp [hmem]
      · by_cases hmem : set.contains token
        · simp [hmem]
        · simp [hmem]

/-- For elements that a set can hold, a parser for one of them is the first success among the
parsers for each, and a parser for none of them takes the token where that one fails: together they
take every token that can be looked up, and never both. Which tokens it is that the first accepts
can be told by a table that finds the elements by their hashes. A token that cannot be looked up is
an error of both, even if there are no elements at all. -/
theorem membership_is_choice [Hashable Member] [LawfulHashable Member] {cs : Value}
    {members : List Member} (h : cs.elements? = some (members.map Member.value)) :
    ∃ set, setOf cs = pure set ∧ ∀ inp : Input,
      (inp.NextIsHashable →
        (oneOf set).run inp = (choice (members.map fun m => char m.value)).first.run inp ∧
        (noneOf set).run inp = ((oneOf set).notFollowedBy.keepRight item).run inp ∧
        ∃ accepted rejected, (oneOf set).run inp = pure accepted ∧
          (noneOf set).run inp = pure rejected ∧ item.run inp = pure (accepted ++ rejected) ∧
          (accepted = [] ∨ rejected = [])) ∧
      (∀ (token : Member) rest, inp.next? = some (token.value, rest) →
        (oneOf set).run inp =
          pure (if token ∈ Std.HashSet.ofList members then [⟨token.value, rest⟩] else [])) ∧
      (∀ token rest, inp.next? = some (token, rest) → ¬token.IsHashable →
        ∃ kind, token.unhashable? = some kind ∧ (kind = .list ∨ kind = .dict) ∧
          ∀ other, (oneOf other).run inp = Run.raise (.unhashable kind) ∧
            (noneOf other).run inp = Run.raise (.unhashable kind)) := by
  refine ⟨_, setOf_eq h, fun inp => ⟨?_, ?_, ?_⟩⟩
  · intro hnext
    have hone := run_oneOf_eq_first_choice (members.map Member.value) hnext
    rw [List.map_map] at hone
    exact ⟨hone, run_noneOf_eq_notFollowedBy _ hnext, exists_accepted_rejected _ hnext⟩
  · intro token rest hnext
    rw [run_oneOf_of_isHashable _ hnext token.isHashable]
    simp only [Member.mem_ofList_iff]
  · intro token rest hnext htoken
    obtain ⟨kind, hkind, hcases⟩ := Value.exists_unhashable? token htoken
    exact ⟨kind, hkind, hcases, fun other =>
      ⟨run_oneOf_of_unhashable other hnext hkind, run_noneOf_of_unhashable other hnext hkind⟩⟩

/-- A pair with a truth value in it, and the pair with the number equal to it. -/
theorem membership_is_choice_of_pairs :
    (Input.start (.list [.tuple [.int 1, .str "a"], .str "x"])).NextIsHashable ∧
      ¬(Value.tuple [.list []]).IsHashable ∧
      ∃ set, setOf (.list [.int 0, .tuple [.bool true, .str "a"], .bool false]) = pure set ∧
        (oneOf set).run (.start (.list [.tuple [.int 1, .str "a"], .str "x"])) =
          pure [⟨.tuple [.int 1, .str "a"], .start (.list [.str "x"])⟩] ∧
        (noneOf set).run (.start (.list [.tuple [.int 1, .str "a"], .str "x"])) = pure [] ∧
        (oneOf []).run (.start (.tuple [.tuple [.list []]])) = Run.raise (.unhashable .list) ∧
        (noneOf set).run (.start (.tuple [.tuple [.list []]])) = Run.raise (.unhashable .list) := by
  have hpair (v : Value) (hv : v.IsHashable) : (Value.tuple [v, .str "a"]).IsHashable :=
    .tuple (by simpa using ⟨hv, .str "a"⟩)
  have hnext : (Input.start (.list [.tuple [.int 1, .str "a"], .str "x"])).NextIsHashable := by
    rintro _ _ ⟨⟩
    exact hpair _ (.int 1)
  have hlist : ¬(Value.tuple [.list []]).IsHashable := by
    intro h
    cases h with
    | tuple items => cases items (.list []) (by simp)
  have helements : (Value.list [.int 0, .tuple [.bool true, .str "a"], .bool false]).elements? =
      some (List.map Member.value [⟨_, .int 0⟩, ⟨_, hpair _ (.bool true)⟩, ⟨_, .bool false⟩]) := rfl
  obtain ⟨set, hset, hrun⟩ := membership_is_choice helements
  obtain ⟨hone, hnone, -⟩ := (hrun _).1 hnext
  obtain ⟨kind, hkind, -, hraise⟩ :=
    (hrun (.start (.tuple [.tuple [.list []]]))).2.2 _ _ rfl hlist
  cases hkind
  refine ⟨hnext, hlist, set, hset, hone, ?_, (hraise []).1, (hraise set).2⟩
  rw [hnone, run_notFollowedBy_item hone]
  rfl

end Parser

end AllParses
