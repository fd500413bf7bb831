import AllParses.Proofs.Reordering

/-!
# Answers without logs

Two ways of parsing may answer the same although they log different things, because one of them
runs client code more often than the other. Then the runs are compared by their answers alone:
`answer?` forgets the log, and which error it was that ended a run. It takes a sequence of runs to
a sequence of optional values, so such comparisons are equations.
-/

namespace AllParses.Run

variable {ε α β γ : Type}

/-- The answer of the run, if it has one. -/
def answer? (x : Run ε α) : Option α := x.result.toOption

@[simp] theorem answer?_pure (a : α) : (pure a : Run ε α).answer? = some a := rfl

@[simp] theorem answer?_raise (e : Error) : (raise e : Run ε α).answer? = none := rfl

@[simp] theorem answer?_bind (x : Run ε α) (f : α → Run ε β) :
    (x >>= f).answer? = x.answer?.bind fun a => (f a).answer? := by
  rcases x with ⟨log, e | a⟩
  · rfl
  · rfl

theorem answer?_eq_some_iff {x : Run ε α} {a : α} : x.answer? = some a ↔ x.result = .ok a := by
  rcases x with ⟨log, e | b⟩
  · simp [answer?, Except.toOption]
  · simp [answer?, Except.toOption]

theorem Reordered.answer?_eq {x y : Run ε α} (h : Reordered x y) : x.answer? = y.answer? := by
  cases h with
  | answer a perm => rfl
  | failure e e' log log' => rfl

/-- Only what the first run can answer matters to what follows it. -/
theorem answer?_bind_congr {x : Run ε α} {f g : α → Run ε β}
    (h : ∀ a, x.result = .ok a → (f a).answer? = (g a).answer?) :
    (x >>= f).answer? = (x >>= g).answer? := by
  rw [answer?_bind, answer?_bind]
  cases hx : x.answer? with
  | none => rfl
  | some a => exact h a (answer?_eq_some_iff.1 hx)

theorem answer?_bind_congr_left {x y : Run ε α} (h : x.answer? = y.answer?) (f : α → Run ε β) :
    (x >>= f).answer? = (y >>= f).answer? := by
  rw [answer?_bind, answer?_bind, h]

theorem answer?_flatMap_congr {f g : α → Run ε (List β)} {as : List α}
    (h : ∀ a ∈ as, (f a).answer? = (g a).answer?) :
    (flatMap f as).answer? = (flatMap g as).answer? := by
  induction as with
  | nil => rfl
  | cons a as ih =>
      have hhead := h a (by simp)
      have htail := ih fun b hb => h b (by simp [hb])
      simp only [flatMap_cons, answer?_bind, hhead, htail]

/-- If `f` never answers, then neither does it on a list, unless the list is empty. -/
theorem answer?_flatMap_eq_none {f : α → Run ε (List β)} {as : List α} (hne : as ≠ [])
    (h : ∀ a ∈ as, (f a).answer? = none) : (flatMap f as).answer? = none := by
  cases as with
  | nil => exact absurd rfl hne
  | cons a as =>
      have hhead := h a (by simp)
      rw [flatMap_cons, answer?_bind, hhead, Option.bind_none]

/-! ## Lists of answers -/

/-- What is in the list that the run answers; nothing if it fails. -/
def answers (x : Run ε (List α)) : List α := x.answer?.getD []

theorem answers_of_result {x : Run ε (List α)} {as : List α} (h : x.result = .ok as) :
    x.answers = as := by
  rw [answers, answer?_eq_some_iff.2 h]
  rfl

theorem result_of_exists {x : Run ε (List α)} (h : ∃ as, x.result = .ok as) :
    x.result = .ok x.answers := by
  obtain ⟨as, has⟩ := h
  rw [answers_of_result has, has]

/-- A list is worked off just when there is an answer for each of its elements. -/
theorem exists_result_flatMap_iff {f : α → Run ε (List β)} {as : List α} :
    (∃ bs, (flatMap f as).result = .ok bs) ↔ ∀ a ∈ as, ∃ bs, (f a).result = .ok bs := by
  induction as with
  | nil => simp
  | cons a as ih =>
      simp only [flatMap_cons, result_bind_eq_ok_iff, result_pure, Except.ok.injEq,
        List.forall_mem_cons, ← ih]
      constructor
      · rintro ⟨_, xs, hxs, ys, hys, _⟩
        exact ⟨⟨xs, hxs⟩, ys, hys⟩
      · rintro ⟨⟨xs, hxs⟩, ys, hys⟩
        exact ⟨xs ++ ys, xs, hxs, ys, hys, rfl⟩

theorem result_flatMap {f : α → Run ε (List β)} {as : List α}
    (h : ∀ a ∈ as, ∃ bs, (f a).result = .ok bs) :
    (flatMap f as).result = .ok (as.flatMap fun a => (f a).answers) := by
  induction as with
  | nil => rfl
  | cons a as ih =>
      have hhead := result_of_exists (h a (by simp))
      have htail := ih fun b hb => h b (by simp [hb])
      rw [flatMap_cons, result_bind_eq_ok_iff]
      refine ⟨_, hhead, ?_⟩
      rw [result_bind_eq_ok_iff]
      exact ⟨_, htail, rfl⟩

theorem answers_flatMap {f : α → Run ε (List β)} {as : List α}
    (h : ∃ bs, (flatMap f as).result = .ok bs) :
    (flatMap f as).answers = as.flatMap fun a => (f a).answers :=
  answers_of_result (result_flatMap (exists_result_flatMap_iff.1 h))

end AllParses.Run
