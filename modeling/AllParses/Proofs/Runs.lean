import AllParses.Code

/-!
# Reasoning about runs

What a run answers is read off its steps: a sequence of runs answers only if every step does, and
a fact that every step keeps is a fact of the whole. This module holds the laws of `flatMap` and
the judgement `Ensures`, which says what is known of an answer without saying that there is one.
-/

namespace AllParses

variable {ε α β γ : Type}

namespace Run

/-! ## Answers -/

theorem result_bind_eq_ok_iff {x : Run ε α} {f : α → Run ε β} {b : β} :
    (x >>= f).result = .ok b ↔ ∃ a, x.result = .ok a ∧ (f a).result = .ok b := by
  rcases x with ⟨log, e | a⟩
  · simp [error_bind]
  · simp [ok_bind]

theorem result_bind_eq_error_iff {x : Run ε α} {f : α → Run ε β} {e : Error} :
    (x >>= f).result = .error e ↔
      x.result = .error e ∨ ∃ a, x.result = .ok a ∧ (f a).result = .error e := by
  rcases x with ⟨log, e' | a⟩
  · simp [error_bind]
  · simp [ok_bind]

theorem result_map_eq_ok_iff {x : Run ε α} {f : α → β} {b : β} :
    (f <$> x).result = .ok b ↔ ∃ a, x.result = .ok a ∧ f a = b := by
  rcases x with ⟨log, e | a⟩
  · simp [map_error]
  · simp [map_ok]

/-- Only the answers that the first run can give matter to what follows it. -/
theorem bind_congr_of_result {x : Run ε α} {f g : α → Run ε β}
    (h : ∀ a, x.result = .ok a → f a = g a) : x >>= f = x >>= g := by
  rcases x with ⟨log, e | a⟩
  · rfl
  · rw [ok_bind, ok_bind, h a rfl]

/-! ## Lists of answers -/

theorem flatMap_congr {f g : α → Run ε (List β)} {as : List α} (h : ∀ a ∈ as, f a = g a) :
    flatMap f as = flatMap g as := by
  induction as with
  | nil => rfl
  | cons a as ih =>
      rw [flatMap_cons, flatMap_cons, h a (by simp), ih fun b hb => h b (by simp [hb])]

theorem flatMap_append (f : α → Run ε (List β)) (as bs : List α) :
    flatMap f (as ++ bs) =
      flatMap f as >>= fun xs => flatMap f bs >>= fun ys => pure (xs ++ ys) := by
  induction as with
  | nil => simp
  | cons a as ih =>
      simp only [List.cons_append, flatMap_cons, ih, bind_assoc, pure_bind, List.append_assoc]

theorem flatMap_map (f : β → Run ε (List γ)) (g : α → β) (as : List α) :
    flatMap f (as.map g) = flatMap (fun a => f (g a)) as := by
  induction as with
  | nil => rfl
  | cons a as ih => rw [List.map_cons, flatMap_cons, flatMap_cons, ih]

theorem map_flatMap (g : β → γ) (f : α → Run ε (List β)) (as : List α) :
    List.map g <$> flatMap f as = flatMap (fun a => List.map g <$> f a) as := by
  induction as with
  | nil => simp
  | cons a as ih => simp [← ih]

@[simp] theorem flatMap_pure_singleton (g : α → β) (as : List α) :
    flatMap (fun a => (pure [g a] : Run ε (List β))) as = pure (as.map g) := by
  induction as with
  | nil => rfl
  | cons a as ih => simp [ih]

/-- If `g` answers what `f` answers, seen through a function that respects concatenation, then so
do the runs over a whole list. -/
theorem result_flatMap_of_result {f : α → Run ε (List β)} {g : α → Run ε (List γ)}
    (view : List β → List γ) (hnil : view [] = [])
    (happend : ∀ xs ys, view (xs ++ ys) = view xs ++ view ys) {as : List α}
    (h : ∀ a ∈ as, ∀ xs, (f a).result = .ok xs → (g a).result = .ok (view xs)) {bs : List β}
    (hbs : (flatMap f as).result = .ok bs) : (flatMap g as).result = .ok (view bs) := by
  induction as generalizing bs with
  | nil =>
      simp only [flatMap_nil, result_pure, Except.ok.injEq] at hbs ⊢
      rw [← hbs, hnil]
  | cons a as ih =>
      simp only [flatMap_cons, result_bind_eq_ok_iff, result_pure, Except.ok.injEq] at hbs ⊢
      obtain ⟨xs, hxs, ys, hys, rfl⟩ := hbs
      have hrest := ih (fun b hb => h b (by simp [hb])) hys
      exact ⟨view xs, h a (by simp) xs hxs, view ys, hrest, (happend xs ys).symm⟩

/-- If the runs on a list end with an error, then it is the error of one of them, and all those
before it answer. -/
theorem exists_error_of_flatMap {f : α → Run ε (List β)} {as : List α} {e : Error}
    (h : (flatMap f as).result = .error e) :
    ∃ before a after, as = before ++ a :: after ∧
      (∀ b ∈ before, ∃ bs, (f b).result = .ok bs) ∧ (f a).result = .error e := by
  induction as with
  | nil => cases h
  | cons a as ih =>
      rw [flatMap_cons, result_bind_eq_error_iff] at h
      rcases h with hfirst | ⟨bs, hbs, h⟩
      · exact ⟨[], a, as, rfl, by simp, hfirst⟩
      · rw [result_bind_eq_error_iff] at h
        rcases h with hrest | ⟨cs, _, h⟩
        · obtain ⟨before, a', after, rfl, hbefore, herror⟩ := ih hrest
          exact ⟨a :: before, a', after, rfl, by simpa using ⟨⟨bs, hbs⟩, hbefore⟩, herror⟩
        · cases h

/-! ## What is known of an answer -/

/-- Whatever the run answers has the property. -/
def Ensures (x : Run ε α) (P : α → Prop) : Prop := ∀ a, x.result = .ok a → P a

theorem ensures_pure {P : α → Prop} {a : α} (h : P a) : (pure a : Run ε α).Ensures P := by
  intro b hb
  cases hb
  exact h

theorem ensures_raise (P : α → Prop) (e : Error) : (raise e : Run ε α).Ensures P := by
  intro b hb
  cases hb

theorem Ensures.mono {x : Run ε α} {P Q : α → Prop} (h : x.Ensures P) (hPQ : ∀ a, P a → Q a) :
    x.Ensures Q :=
  fun a ha => hPQ a (h a ha)

theorem Ensures.bind {x : Run ε α} {f : α → Run ε β} {P : α → Prop} {Q : β → Prop}
    (hx : x.Ensures P) (hf : ∀ a, P a → (f a).Ensures Q) : (x >>= f).Ensures Q := by
  intro b hb
  obtain ⟨a, ha, hfa⟩ := result_bind_eq_ok_iff.1 hb
  exact hf a (hx a ha) b hfa

theorem ensures_bind {x : Run ε α} {f : α → Run ε β} {Q : β → Prop} (hf : ∀ a, (f a).Ensures Q) :
    (x >>= f).Ensures Q := by
  intro b hb
  obtain ⟨a, _, hfa⟩ := result_bind_eq_ok_iff.1 hb
  exact hf a b hfa

theorem Ensures.map {x : Run ε α} {f : α → β} {P : α → Prop} {Q : β → Prop} (hx : x.Ensures P)
    (hf : ∀ a, P a → Q (f a)) : (f <$> x).Ensures Q := by
  intro b hb
  obtain ⟨a, ha, rfl⟩ := result_map_eq_ok_iff.1 hb
  exact hf a (hx a ha)

theorem ensures_map {x : Run ε α} {f : α → β} {Q : β → Prop} (hf : ∀ a, Q (f a)) :
    (f <$> x).Ensures Q := by
  intro b hb
  obtain ⟨a, _, rfl⟩ := result_map_eq_ok_iff.1 hb
  exact hf a

theorem ensures_flatMap {f : α → Run ε (List β)} {P : β → Prop} {as : List α}
    (h : ∀ a ∈ as, (f a).Ensures fun bs => ∀ b ∈ bs, P b) :
    (flatMap f as).Ensures fun bs => ∀ b ∈ bs, P b := by
  induction as with
  | nil => exact ensures_pure (by simp)
  | cons a as ih =>
      rw [flatMap_cons]
      refine (h a (by simp)).bind fun xs hxs => ?_
      refine (ih fun b hb => h b (by simp [hb])).bind fun ys hys => ensures_pure ?_
      intro b hb
      rcases List.mem_append.1 hb with hb | hb
      · exact hxs b hb
      · exact hys b hb

end Run

/-! ## What is known of what code makes -/

namespace Code

/-- Whatever the code answers, however many functions were made before, has the property. -/
def Ensures (code : Code ε α) (P : α → Prop) : Prop :=
  ∀ made, (code.run made).Ensures fun q => P q.1

theorem ensures_pure {P : α → Prop} {a : α} (h : P a) : (pure a : Code ε α).Ensures P :=
  fun _ => Run.ensures_pure h

theorem ensures_raise (P : α → Prop) (e : Error) : (raise e : Code ε α).Ensures P :=
  fun _ => Run.ensures_raise _ e

theorem ensures_lift {x : Run ε α} {P : α → Prop} (hx : x.Ensures P) :
    (liftM x : Code ε α).Ensures P :=
  fun _ => hx.bind fun _ ha => Run.ensures_pure ha

theorem Ensures.bind {code : Code ε α} {f : α → Code ε β} {P : α → Prop} {Q : β → Prop}
    (hcode : code.Ensures P) (hf : ∀ a, P a → (f a).Ensures Q) : (code >>= f).Ensures Q :=
  fun made => (hcode made).bind fun q hq => hf q.1 hq q.2

theorem ensures_bind {code : Code ε α} {f : α → Code ε β} {Q : β → Prop}
    (hf : ∀ a, (f a).Ensures Q) : (code >>= f).Ensures Q :=
  fun _ => Run.ensures_bind fun q => hf q.1 q.2

theorem Ensures.map {code : Code ε α} {f : α → β} {P : α → Prop} {Q : β → Prop}
    (hcode : code.Ensures P) (hf : ∀ a, P a → Q (f a)) :
    (code >>= fun a => pure (f a)).Ensures Q :=
  hcode.bind fun a ha => ensures_pure (hf a ha)

theorem Ensures.map₂ {code : Code ε α} {other : Code ε β} {f : α → β → γ} {P : α → Prop}
    {Q : β → Prop} {R : γ → Prop} (hcode : code.Ensures P) (hother : other.Ensures Q)
    (hf : ∀ a b, P a → Q b → R (f a b)) :
    (code >>= fun a => other >>= fun b => pure (f a b)).Ensures R :=
  hcode.bind fun a ha => hother.map fun b hb => hf a b ha hb

end Code

end AllParses
