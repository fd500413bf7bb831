import AllParses.Error

/-!
# Runs

A run writes a log and ends with an answer or an error. The log is kept in either case: it tells
what happened up to the error. For each type of log entries `Run` is a lawful monad.
-/

namespace AllParses

/-- A finished computation: what it logged, and how it ended. -/
structure Run (ε α : Type) where
  log : List ε
  result : Except Error α

namespace Run

variable {ε δ α β γ : Type}

@[ext] theorem ext {x y : Run ε α} (log : x.log = y.log) (result : x.result = y.result) : x = y := by
  cases x; cases y; simp_all

/-- The run that logs nothing and ends with the answer. -/
protected def pure (a : α) : Run ε α := ⟨[], .ok a⟩

/-- The first run, and after its answer the second. -/
protected def bind (x : Run ε α) (f : α → Run ε β) : Run ε β :=
  match x with
  | ⟨log, .ok a⟩ =>
    let next := f a
    ⟨log ++ next.log, next.result⟩
  | ⟨log, .error e⟩ => ⟨log, .error e⟩

instance : Monad (Run ε) where
  pure := Run.pure
  bind := Run.bind

/-- Logs one entry. -/
def emit (entry : ε) : Run ε Unit := ⟨[entry], .ok ()⟩

/-- Ends with an error. -/
def raise (e : Error) : Run ε α := ⟨[], .error e⟩

/-- The same run with other log entries. -/
def mapLog (f : ε → δ) (x : Run ε α) : Run δ α := ⟨x.log.map f, x.result⟩

/-- Ends with the value that is there, or else with the error. -/
def getOrRaise (e : Error) : Option α → Run ε α
  | some a => pure a
  | none => raise e

theorem pure_eq (a : α) : (pure a : Run ε α) = ⟨[], .ok a⟩ := rfl

theorem ok_bind (log : List ε) (a : α) (f : α → Run ε β) :
    (⟨log, .ok a⟩ : Run ε α) >>= f = ⟨log ++ (f a).log, (f a).result⟩ := rfl

theorem error_bind (log : List ε) (e : Error) (f : α → Run ε β) :
    (⟨log, .error e⟩ : Run ε α) >>= f = ⟨log, .error e⟩ := rfl

@[simp] theorem raise_bind (e : Error) (f : α → Run ε β) : raise e >>= f = raise e := rfl

@[simp] theorem log_pure (a : α) : (pure a : Run ε α).log = [] := rfl

@[simp] theorem result_pure (a : α) : (pure a : Run ε α).result = .ok a := rfl

@[simp] theorem log_raise (e : Error) : (raise e : Run ε α).log = [] := rfl

@[simp] theorem result_raise (e : Error) : (raise e : Run ε α).result = .error e := rfl

@[simp] theorem log_emit (entry : ε) : (emit entry).log = [entry] := rfl

@[simp] theorem result_emit (entry : ε) : (emit entry).result = .ok () := rfl

instance : LawfulMonad (Run ε) := LawfulMonad.mk' (Run ε)
  (by rintro α ⟨log, _ | a⟩ <;> simp [Functor.map, Run.bind, Run.pure])
  (by intro α β a f; simp [Bind.bind, Pure.pure, Run.bind, Run.pure])
  (by
    rintro α β γ ⟨log, _ | a⟩ f g
    · rfl
    · rcases h : f a with ⟨log', _ | b⟩ <;> simp [Bind.bind, Run.bind, h])

theorem map_ok (f : α → β) (log : List ε) (a : α) :
    f <$> (⟨log, .ok a⟩ : Run ε α) = ⟨log, .ok (f a)⟩ := by
  rw [← bind_pure_comp, ok_bind]
  simp

theorem map_error (f : α → β) (log : List ε) (e : Error) :
    f <$> (⟨log, .error e⟩ : Run ε α) = ⟨log, .error e⟩ := rfl

@[simp] theorem mapLog_pure (f : ε → δ) (a : α) : mapLog f (pure a : Run ε α) = pure a := rfl

@[simp] theorem mapLog_raise (f : ε → δ) (e : Error) :
    mapLog f (raise e : Run ε α) = raise e := rfl

@[simp] theorem mapLog_bind (f : ε → δ) (x : Run ε α) (g : α → Run ε β) :
    mapLog f (x >>= g) = mapLog f x >>= fun a => mapLog f (g a) := by
  rcases x with ⟨log, e | a⟩ <;> simp [mapLog, ok_bind, error_bind]

/-! ## Lists of answers -/

/-- The runs of `f` on the elements, one after the other, and all they answer. The log so far and
the answers so far are kept in reverse. -/
def flatMapLoop (f : α → Run ε (List β)) : List α → List ε → List β → Run ε (List β)
  | [], log, found => ⟨log.reverse, .ok found.reverse⟩
  | a :: as, log, found =>
    match f a with
    | ⟨new, .ok bs⟩ => flatMapLoop f as (new.reverseAux log) (bs.reverseAux found)
    | ⟨new, .error e⟩ => ⟨log.reverse ++ new, .error e⟩

/-- Runs `f` on each element in turn and concatenates the answers; the first error ends it. -/
def flatMap (f : α → Run ε (List β)) (as : List α) : Run ε (List β) := flatMapLoop f as [] []

theorem flatMapLoop_eq (f : α → Run ε (List β)) (as : List α) (log : List ε) (found : List β) :
    flatMapLoop f as log found =
      (⟨log.reverse, .ok ()⟩ : Run ε Unit) >>= fun _ =>
        flatMap f as >>= fun bs => pure (found.reverse ++ bs) := by
  induction as generalizing log found with
  | nil => simp [flatMap, flatMapLoop, pure_eq, ok_bind]
  | cons a as ih =>
    rcases h : f a with ⟨new, e | bs⟩
    · simp [flatMap, flatMapLoop, h, ok_bind, map_error]
    · simp only [flatMap, flatMapLoop, h]
      rw [ih, ih]
      rcases flatMap f as with ⟨rest, e | cs⟩ <;> simp [ok_bind, map_ok, map_error]

@[simp] theorem flatMap_nil (f : α → Run ε (List β)) : flatMap f [] = pure [] := rfl

@[simp] theorem flatMap_cons (f : α → Run ε (List β)) (a : α) (as : List α) :
    flatMap f (a :: as) = f a >>= fun bs => flatMap f as >>= fun cs => pure (bs ++ cs) := by
  rcases h : f a with ⟨new, e | bs⟩
  · simp [flatMap, flatMapLoop, h, error_bind]
  · simp only [flatMap, flatMapLoop, h]
    rw [flatMapLoop_eq]
    simp [flatMap, ok_bind]

end Run

end AllParses
