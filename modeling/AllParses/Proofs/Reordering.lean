import AllParses.Proofs.Runs

/-!
# Runs that differ in the order of their steps

Two ways of running the same parsers often differ only in which step comes first. Then they answer
the same, their logs hold the same entries, and one of them fails just when the other does, though
perhaps at another step and with another error. Here it is shown that independent runs may change
places (`bind_comm`), and that a list may be worked off level by level or element by element
(`flatMap_flatMap`).
-/

namespace AllParses.Run

variable {ε α β γ : Type}

/-- The two runs do the same, perhaps in another order: both fail, or they answer the same and
the log of one is a permutation of the log of the other. -/
inductive Reordered : Run ε α → Run ε α → Prop where
  | answer (a : α) {log log' : List ε} (perm : log.Perm log') :
      Reordered ⟨log, .ok a⟩ ⟨log', .ok a⟩
  | failure (e e' : Error) (log log' : List ε) : Reordered ⟨log, .error e⟩ ⟨log', .error e'⟩

namespace Reordered

@[refl] theorem refl (x : Run ε α) : Reordered x x := by
  rcases x with ⟨log, e | a⟩
  · exact .failure e e log log
  · exact .answer a (.refl log)

theorem of_eq {x y : Run ε α} (h : x = y) : Reordered x y := h ▸ refl x

theorem symm {x y : Run ε α} (h : Reordered x y) : Reordered y x := by
  cases h with
  | answer a perm => exact .answer a perm.symm
  | failure e e' log log' => exact .failure e' e log' log

theorem trans {x y z : Run ε α} (hxy : Reordered x y) (hyz : Reordered y z) : Reordered x z := by
  cases hxy with
  | answer a perm =>
      cases hyz with
      | answer _ perm' => exact .answer a (perm.trans perm')
  | failure e _ log _ =>
      cases hyz with
      | failure _ e' _ log' => exact .failure e e' log log'

instance : Trans (@Reordered ε α) (@Reordered ε α) (@Reordered ε α) := ⟨trans⟩

theorem result_eq_ok {x y : Run ε α} (h : Reordered x y) {a : α} (hx : x.result = .ok a) :
    y.result = .ok a := by
  cases h with
  | answer b perm => exact hx
  | failure e e' log log' => cases hx

theorem ensures {x y : Run ε α} (h : Reordered x y) {P : α → Prop} (hy : y.Ensures P) :
    x.Ensures P :=
  fun a ha => hy a (h.result_eq_ok ha)

/-- Only the answers that the first runs can give matter to what follows them. -/
theorem bind_of_result {x y : Run ε α} {f g : α → Run ε β} (hxy : Reordered x y)
    (hfg : ∀ a, x.result = .ok a → Reordered (f a) (g a)) : Reordered (x >>= f) (y >>= g) := by
  cases hxy with
  | failure e e' log log' => exact .failure e e' log log'
  | answer a perm =>
      rw [ok_bind, ok_bind]
      have ha := hfg a rfl
      revert ha
      generalize f a = u
      generalize g a = v
      intro ha
      cases ha with
      | answer b perm' => exact .answer b (perm.append perm')
      | failure e e' log log' => exact .failure e e' _ _

theorem bind {x y : Run ε α} {f g : α → Run ε β} (hxy : Reordered x y)
    (hfg : ∀ a, Reordered (f a) (g a)) : Reordered (x >>= f) (y >>= g) :=
  hxy.bind_of_result fun a _ => hfg a

end Reordered

theorem reordered_flatMap {f g : α → Run ε (List β)} {as : List α}
    (h : ∀ a ∈ as, Reordered (f a) (g a)) : Reordered (flatMap f as) (flatMap g as) := by
  induction as with
  | nil => exact .refl _
  | cons a as ih =>
      have hhead := h a (by simp)
      have htail := ih fun b hb => h b (by simp [hb])
      rw [flatMap_cons, flatMap_cons]
      exact hhead.bind fun xs => htail.bind fun ys => .refl _

/-- Two runs of which neither needs the answer of the other may change places. -/
theorem bind_comm (x : Run ε α) (y : Run ε β) (f : α → β → Run ε γ) :
    Reordered (x >>= fun a => y >>= fun b => f a b) (y >>= fun b => x >>= fun a => f a b) := by
  rcases x with ⟨logx, ex | a⟩
  · rcases y with ⟨logy, ey | b⟩
    · exact .failure ex ey logx logy
    · exact .failure ex ex logx (logy ++ logx)
  · rcases y with ⟨logy, ey | b⟩
    · exact .failure ey ey (logx ++ logy) logy
    · simp only [ok_bind]
      rcases f a b with ⟨log, e | c⟩
      · exact .failure e e _ _
      · refine .answer c ?_
        rw [← List.append_assoc, ← List.append_assoc]
        exact List.perm_append_comm.append_right log

/-- All of `f` and then all of `g`, or `g` after each of `f`. -/
theorem flatMap_flatMap (f : α → Run ε (List β)) (g : β → Run ε (List γ)) (as : List α) :
    Reordered (flatMap f as >>= flatMap g) (flatMap (fun a => f a >>= flatMap g) as) := by
  induction as with
  | nil => exact .refl _
  | cons a as ih =>
      simp only [flatMap_cons, bind_assoc, pure_bind, flatMap_append]
      refine (Reordered.refl (f a)).bind fun xs => ?_
      -- `g` on what `f` made of the first element moves in front of `f` on the others
      refine (bind_comm (flatMap f as) (flatMap g xs)
        fun ys us => flatMap g ys >>= fun vs => pure (us ++ vs)).trans ?_
      refine (Reordered.refl (flatMap g xs)).bind fun us => ?_
      rw [← bind_assoc]
      exact ih.bind fun vs => .refl _

end AllParses.Run
