import AllParses.Parser.Choice

/-!
# Repetition

`many p` answers every number of repetitions of `p`, the longer ones before the shorter ones from
which they continue. It walks the tree of repetitions with a stack of frames, one for each
repetition that is being extended. A success of `p` that consumes nothing is not repeated: it is
dropped, and the log says so. That every walk ends is shown here: a frame either loses a pending
success, or a frame with less input is put on top of it.
-/

namespace AllParses

variable {α β : Type}

/-- A repetition that is being extended: its values so far, what is left of the input, and the
successes of the next repetition that are still to be followed. -/
structure Frame (α : Type) where
  values : List α
  rest : Input
  pending : List (Success α)

/-- The state of a walk: the frames, the latest first, and the results, the latest first. -/
structure Repetition (α : Type) where
  stack : List (Frame α)
  found : List (Success (List α))

namespace Repetition

/-- One turn of the walk looks at the latest frame. If it has no pending success, it is a result.
Otherwise its first pending success is followed by a new frame, or dropped. -/
def step (p : Parser α) (walk : Repetition α) : Run Entry (Repetition α) :=
  match walk.stack with
  | [] => pure walk
  | ⟨values, rest, []⟩ :: below => pure ⟨below, ⟨values, rest⟩ :: walk.found⟩
  | ⟨values, rest, s :: pending⟩ :: below =>
    if rest.length ≤ s.rest.length then do
      Run.emit (.dropped p.describe)
      pure ⟨⟨values, rest, pending⟩ :: below, walk.found⟩
    else do
      let next ← p.run s.rest
      pure ⟨⟨values ++ [s.value], s.rest, next⟩ :: ⟨values, rest, pending⟩ :: below, walk.found⟩

/-! ## Every walk ends -/

/-- `Follows new old`: one turn can lead from the stack `old` to the stack `new`. -/
inductive Follows : List (Frame α) → List (Frame α) → Prop where
  | pop (values : List α) (rest : Input) (below : List (Frame α)) :
      Follows below (⟨values, rest, []⟩ :: below)
  | drop (values : List α) (rest : Input) (s : Success α) (pending : List (Success α))
      (below : List (Frame α)) :
      Follows (⟨values, rest, pending⟩ :: below) (⟨values, rest, s :: pending⟩ :: below)
  | push (values longer : List α) (rest : Input) (s : Success α) (pending next : List (Success α))
      (below : List (Frame α)) (shorter : s.rest.length < rest.length) :
      Follows (⟨longer, s.rest, next⟩ :: ⟨values, rest, pending⟩ :: below)
        (⟨values, rest, s :: pending⟩ :: below)

/-- A frame on top of a stack from which every walk ends makes another such stack. -/
theorem acc_cons (n : Nat) (below : List (Frame α)) (hbelow : Acc Follows below)
    (frame : Frame α) (hframe : frame.rest.length = n) : Acc Follows (frame :: below) := by
  induction n using Nat.strongRecOn generalizing below frame with
  | ind n ih =>
    obtain ⟨values, rest, pending⟩ := frame
    induction pending with
    | nil =>
      constructor
      intro stack h
      cases h
      exact hbelow
    | cons s pending ihp =>
      constructor
      intro stack h
      cases h with
      | drop => exact ihp hframe
      | push _ longer _ _ _ next _ shorter =>
        exact ih s.rest.length (hframe ▸ shorter) _ (ihp hframe) ⟨longer, s.rest, next⟩ rfl

theorem follows_wf : WellFounded (Follows (α := α)) := by
  constructor
  intro stack
  induction stack with
  | nil => constructor; intro stack h; cases h
  | cons frame below ih => exact acc_cons _ below ih frame rfl

instance : WellFoundedRelation (List (Frame α)) := ⟨Follows, follows_wf⟩

theorem follows_of_step {p : Parser α} {walk next : Repetition α} {log : List Entry}
    (hstack : walk.stack ≠ []) (h : walk.step p = ⟨log, .ok next⟩) :
    Follows next.stack walk.stack := by
  obtain ⟨stack, found⟩ := walk
  match stack with
  | [] => exact absurd rfl hstack
  | ⟨values, rest, []⟩ :: below =>
    simp only [step, Run.pure_eq, Run.mk.injEq, Except.ok.injEq] at h
    rw [← h.2]
    exact .pop ..
  | ⟨values, rest, s :: pending⟩ :: below =>
    simp only [step] at h
    split at h
    · simp only [Run.emit, Run.ok_bind, Run.pure_eq, Run.mk.injEq, Except.ok.injEq] at h
      rw [← h.2]
      exact .drop ..
    · next hlt =>
      rcases hp : p.run s.rest with ⟨new, e | successes⟩
      · simp only [hp, Run.error_bind, Run.mk.injEq, reduceCtorEq, and_false] at h
      · simp only [hp, Run.ok_bind, Run.pure_eq, Run.mk.injEq, Except.ok.injEq] at h
        rw [← h.2]
        exact .push _ _ _ _ _ _ _ (by omega)

/-! ## The walk -/

/-- Takes turns until the stack is empty. The log so far is kept in reverse. -/
def loop (p : Parser α) (walk : Repetition α) (log : List Entry) :
    Run Entry (List (Success (List α))) :=
  if hstack : walk.stack = [] then ⟨log.reverse, .ok walk.found.reverse⟩
  else
    match hstep : walk.step p with
    | ⟨new, .ok next⟩ =>
      have := follows_of_step hstack hstep
      loop p next (new.reverseAux log)
    | ⟨new, .error e⟩ => ⟨log.reverse ++ new, .error e⟩
termination_by walk.stack

/-- All results from a state of the walk on. -/
def run (p : Parser α) (walk : Repetition α) : Run Entry (List (Success (List α))) :=
  loop p walk []

theorem loop_of_nil {p : Parser α} {walk : Repetition α} (log : List Entry)
    (hstack : walk.stack = []) : loop p walk log = ⟨log.reverse, .ok walk.found.reverse⟩ := by
  rw [loop, dif_pos hstack]

theorem loop_of_ok {p : Parser α} {walk next : Repetition α} {new : List Entry} (log : List Entry)
    (hstack : walk.stack ≠ []) (hstep : walk.step p = ⟨new, .ok next⟩) :
    loop p walk log = loop p next (new.reverseAux log) := by
  rw [loop, dif_neg hstack]
  split <;> simp_all

theorem loop_of_error {p : Parser α} {walk : Repetition α} {new : List Entry} {e : Error}
    (log : List Entry) (hstack : walk.stack ≠ []) (hstep : walk.step p = ⟨new, .error e⟩) :
    loop p walk log = ⟨log.reverse ++ new, .error e⟩ := by
  rw [loop, dif_neg hstack]
  split <;> simp_all

theorem loop_eq (p : Parser α) (walk : Repetition α) (log : List Entry) :
    loop p walk log = (⟨log.reverse, .ok ()⟩ : Run Entry Unit) >>= fun _ => run p walk := by
  obtain ⟨stack, found⟩ := walk
  induction stack using follows_wf.induction generalizing found log with
  | _ stack ih =>
    by_cases hstack : stack = []
    · rw [run, loop_of_nil _ hstack, loop_of_nil _ hstack, Run.ok_bind]
      simp
    · rcases hstep : step p ⟨stack, found⟩ with ⟨new, e | next⟩
      · rw [run, loop_of_error _ hstack hstep, loop_of_error _ hstack hstep, Run.ok_bind]
        simp
      · have hnext := ih next.stack (follows_of_step hstack hstep)
        rw [run, loop_of_ok _ hstack hstep, loop_of_ok _ hstack hstep, hnext, hnext]
        simp [Run.ok_bind]

/-- When the stack is empty, the results are there. -/
theorem run_of_nil {p : Parser α} {walk : Repetition α} (hstack : walk.stack = []) :
    run p walk = pure walk.found.reverse :=
  loop_of_nil [] hstack

/-- Otherwise the walk is one turn and the walk from there. -/
theorem run_of_ne_nil {p : Parser α} {walk : Repetition α} (hstack : walk.stack ≠ []) :
    run p walk = walk.step p >>= run p := by
  rcases hstep : walk.step p with ⟨new, e | next⟩
  · rw [run, loop_of_error _ hstack hstep]
    rfl
  · rw [run, loop_of_ok _ hstack hstep, loop_eq]
    simp [Run.ok_bind]

end Repetition

namespace Parser

/-- Zero or more repetitions of `p`, with the values of each. -/
def many (p : Parser α) : Parser (List α) where
  name := none
  run inp := do
    let pending ← p.run inp
    Repetition.run p ⟨[⟨[], inp, pending⟩], []⟩

/-- One or more repetitions of `p`. -/
def many1 (p : Parser α) : Parser (List α) :=
  p.bind fun a => pure (p.many.map fun as => pure (a :: as))

/-- One or more `p` separated by `separator`. -/
def sepBy1 (p : Parser α) (separator : Parser β) : Parser (List α) :=
  p.bind fun a => pure ((separator.keepRight p).many.map fun as => pure (a :: as))

/-- Zero or more `p` separated by `separator`. -/
def sepBy (p : Parser α) (separator : Parser β) : Parser (List α) :=
  choice [p.sepBy1 separator, result []]

end Parser

end AllParses
