import AllParses.Proofs.Runs

/-!
# Runs that agree

Two runs agree if both answer or both end with the same error, and if their logs are the same as
far as a view of the entries shows: an entry may be left out of the view, or shown in part.
-/

namespace AllParses.Run

variable {ε δ α β γ γ' : Type}

/-- The runs end with the same error, or with answers that correspond, and their logs look the
same. -/
inductive Agree (view : ε → Option δ) (R : α → β → Prop) : Run ε α → Run ε β → Prop where
  | answer {a : α} {b : β} {log log' : List ε}
      (logs : log.filterMap view = log'.filterMap view) (answers : R a b) :
      Agree view R ⟨log, .ok a⟩ ⟨log', .ok b⟩
  | failure (e : Error) {log log' : List ε}
      (logs : log.filterMap view = log'.filterMap view) :
      Agree view R ⟨log, .error e⟩ ⟨log', .error e⟩

namespace Agree

variable {view : ε → Option δ} {R : α → β → Prop} {S : γ → γ' → Prop}

theorem refl (x : Run ε α) : Agree view Eq x x := by
  rcases x with ⟨log, e | a⟩
  · exact .failure e rfl
  · exact .answer rfl rfl

theorem pure {a : α} {b : β} (h : R a b) : Agree view R (pure a) (pure b) := .answer rfl h

theorem emit {entry entry' : ε} (h : view entry = view entry') :
    Agree view Eq (Run.emit entry) (Run.emit entry') := by
  refine .answer ?_ rfl
  rw [List.filterMap_cons, List.filterMap_cons, h]

/-- An entry that the view leaves out may be missing in the other run. -/
theorem emit_bind {entry : ε} (h : view entry = none) {x : Unit → Run ε α} {y : Run ε β}
    (hxy : Agree view R (x ()) y) : Agree view R (Run.emit entry >>= x) y := by
  rw [Run.emit, ok_bind]
  generalize x () = z at hxy
  cases hxy with
  | answer logs answers => exact .answer (by simpa [h] using logs) answers
  | failure e logs => exact .failure e (by simpa [h] using logs)

theorem exists_answer {x : Run ε α} {y : Run ε β} (hxy : Agree view R x y) {a : α}
    (hx : x.result = .ok a) : ∃ b, y.result = .ok b ∧ R a b := by
  cases hxy with
  | answer logs answers =>
      cases hx
      exact ⟨_, rfl, answers⟩
  | failure e logs => cases hx

theorem bind {x : Run ε α} {y : Run ε β} {f : α → Run ε γ} {g : β → Run ε γ'}
    (hxy : Agree view R x y) (hfg : ∀ a b, R a b → Agree view S (f a) (g b)) :
    Agree view S (x >>= f) (y >>= g) := by
  cases hxy with
  | failure e logs => exact .failure e logs
  | @answer a b log log' logs answers =>
      rw [ok_bind, ok_bind]
      have hnext := hfg a b answers
      generalize f a = u at hnext
      generalize g b = v at hnext
      cases hnext with
      | answer logs' answers' => exact .answer (by simp [logs, logs']) answers'
      | failure e logs' => exact .failure e (by simp [logs, logs'])

theorem map {x : Run ε α} {y : Run ε β} {f : α → γ} {g : β → γ'} (hxy : Agree view R x y)
    (hfg : ∀ a b, R a b → S (f a) (g b)) : Agree view S (f <$> x) (g <$> y) := by
  rw [← bind_pure_comp, ← bind_pure_comp]
  exact hxy.bind fun a b hab => .pure (hfg a b hab)

end Agree

end AllParses.Run
