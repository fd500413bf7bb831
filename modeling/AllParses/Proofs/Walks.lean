import AllParses.Proofs.Characters
import Mathlib.Logic.Relation

/-!
# The walk of a repetition

`many p` takes turns until its stack is empty. The stack is a path of the tree of repetitions: at
its bottom stands the input, and each frame goes on from what a success of the frame below it has
left, which is shorter (`Repetition.Stacked`). Every turn keeps this. So the stack is never higher
than the input is long, whatever `p` answers, and `p` is run on nothing else than the inputs of
such paths. As long as `p` answers there, the walk comes to its end.
-/

namespace AllParses

open Relation (ReflTransGen)

variable {α : Type}

/-- A success of the parser on the first input leaves the second one, which is shorter. -/
def Parser.LeadsTo (p : Parser α) (inp rest : Input) : Prop :=
  rest.length < inp.length ∧ ∃ ss, (p.run inp).result = .ok ss ∧ ∃ s ∈ ss, s.rest = rest

namespace Repetition

/-- The state before the first turn. -/
def start (inp : Input) (pending : List (Success α)) : Repetition α := ⟨[⟨[], inp, pending⟩], []⟩

/-- While the stack is not empty, a turn leads from the first state to the second. -/
def Turn (p : Parser α) (walk next : Repetition α) : Prop :=
  walk.stack ≠ [] ∧ (walk.step p).result = .ok next

/-- The stacks of a walk that starts at the input, the latest frame first. The pending successes of
a frame are among those of `p` on what the frame has left. -/
inductive Stacked (p : Parser α) (inp : Input) : List (Frame α) → Prop where
  | empty : Stacked p inp []
  | bottom {pending ss : List (Success α)} (hrun : (p.run inp).result = .ok ss)
      (hpending : pending ⊆ ss) : Stacked p inp [⟨[], inp, pending⟩]
  | above {values : List α} {rest : Input} {pending next ss : List (Success α)}
      {below : List (Frame α)} {s : Success α}
      (hbelow : Stacked p inp (⟨values, rest, pending⟩ :: below)) (hleads : p.LeadsTo rest s.rest)
      (hrun : (p.run s.rest).result = .ok ss) (hnext : next ⊆ ss) :
      Stacked p inp (⟨values ++ [s.value], s.rest, next⟩ :: ⟨values, rest, pending⟩ :: below)

/-- The frames, from the bottom to the top, begin with the input and have ever less left, and each
has as many values as there are frames below it; so there is at most one frame more than there are
tokens. -/
structure Ascends (inp : Input) (frames : List (Frame α)) : Prop where
  rest_bottom : ∀ frame ∈ frames.head?, frame.rest = inp
  rest_shorter : frames.Pairwise fun lower upper => upper.rest.length < lower.rest.length
  length_values : (frames.map fun frame => frame.values.length) = List.range frames.length
  length_le : frames.length ≤ inp.length + 1

variable {p : Parser α} {inp : Input} {walk next : Repetition α} {frame : Frame α}
  {below : List (Frame α)}

/-! ## The frames of a stack -/

theorem Stacked.tail (h : Stacked p inp (frame :: below)) : Stacked p inp below := by
  cases h with
  | bottom => exact .empty
  | above hbelow => exact hbelow

theorem Stacked.pending_subset (h : Stacked p inp (frame :: below)) :
    ∃ ss, (p.run frame.rest).result = .ok ss ∧ frame.pending ⊆ ss := by
  cases h with
  | bottom hrun hpending => exact ⟨_, hrun, hpending⟩
  | above _ _ hrun hnext => exact ⟨_, hrun, hnext⟩

theorem Stacked.of_subset {values : List α} {rest : Input} {pending fewer : List (Success α)}
    (h : Stacked p inp (⟨values, rest, pending⟩ :: below)) (hfewer : fewer ⊆ pending) :
    Stacked p inp (⟨values, rest, fewer⟩ :: below) := by
  cases h with
  | bottom hrun hpending => exact .bottom hrun fun _ hs => hpending (hfewer hs)
  | above hbelow hleads hrun hnext =>
      exact .above hbelow hleads hrun fun _ hs => hnext (hfewer hs)

theorem Stacked.length_values (h : Stacked p inp (frame :: below)) :
    frame.values.length = below.length := by
  induction below generalizing frame with
  | nil => cases h; rfl
  | cons lower below ih =>
      cases h with
      | above hbelow =>
          have hlower := ih hbelow
          simpa using hlower

theorem Stacked.length_rest_add (h : Stacked p inp (frame :: below)) :
    frame.rest.length + below.length ≤ inp.length := by
  induction below generalizing frame with
  | nil => cases h; simp
  | cons lower below ih =>
      cases h with
      | above hbelow hleads =>
          have hlower := ih hbelow
          have hshorter := hleads.1
          simp only [List.length_cons] at hlower ⊢
          omega

theorem Stacked.reached (h : Stacked p inp (frame :: below)) :
    ReflTransGen p.LeadsTo inp frame.rest := by
  induction below generalizing frame with
  | nil => cases h; exact .refl
  | cons lower below ih =>
      cases h with
      | above hbelow hleads => exact (ih hbelow).tail hleads

theorem Stacked.pairwise {stack : List (Frame α)} (h : Stacked p inp stack) :
    stack.Pairwise fun upper lower => upper.rest.length < lower.rest.length := by
  induction h with
  | empty => exact .nil
  | bottom => exact List.pairwise_singleton _ _
  | above hbelow hleads _ _ ih =>
      refine .cons ?_ ih
      intro lower hlower
      rcases List.mem_cons.1 hlower with rfl | hlower
      · exact hleads.1
      · have hsecond := List.rel_of_pairwise_cons ih hlower
        exact Nat.lt_trans hleads.1 hsecond

theorem Stacked.ascends {stack : List (Frame α)} (h : Stacked p inp stack) :
    Ascends inp stack.reverse where
  rest_bottom := by
    induction h with
    | empty => simp
    | bottom => simp
    | above hbelow _ _ _ ih => simpa using ih
  rest_shorter := List.pairwise_reverse.2 h.pairwise
  length_values := by
    induction stack with
    | nil => rfl
    | cons frame below ih =>
        have hbelow := ih h.tail
        have hframe := h.length_values
        simp [hbelow, hframe, List.range_succ]
  length_le := by
    cases stack with
    | nil => simp
    | cons frame below =>
        have hle := h.length_rest_add
        simp only [List.length_reverse, List.length_cons]
        omega

/-! ## One turn -/

theorem step_of_le {values : List α} {rest : Input} {s : Success α} {pending : List (Success α)}
    {found : List (Success (List α))} (hle : rest.length ≤ s.rest.length) :
    step p ⟨⟨values, rest, s :: pending⟩ :: below, found⟩ =
      Run.emit (.dropped p.describe) >>= fun _ => pure ⟨⟨values, rest, pending⟩ :: below, found⟩ := by
  simp only [step, if_pos hle]

theorem step_of_lt {values : List α} {rest : Input} {s : Success α} {pending : List (Success α)}
    {found : List (Success (List α))} (hlt : s.rest.length < rest.length) :
    step p ⟨⟨values, rest, s :: pending⟩ :: below, found⟩ =
      p.run s.rest >>= fun next =>
        pure ⟨⟨values ++ [s.value], s.rest, next⟩ :: ⟨values, rest, pending⟩ :: below, found⟩ := by
  simp only [step, if_neg (Nat.not_le.2 hlt)]

theorem Stacked.leadsTo {values : List α} {rest : Input} {s : Success α}
    {pending : List (Success α)} (h : Stacked p inp (⟨values, rest, s :: pending⟩ :: below))
    (hlt : s.rest.length < rest.length) : p.LeadsTo rest s.rest := by
  obtain ⟨ss, hss, hpending⟩ := h.pending_subset
  exact ⟨hlt, ss, hss, s, hpending (List.mem_cons_self ..), rfl⟩

theorem Stacked.turn (h : Stacked p inp walk.stack) (hturn : Turn p walk next) :
    Stacked p inp next.stack := by
  obtain ⟨stack, found⟩ := walk
  obtain ⟨hstack, hstep⟩ := hturn
  match stack with
  | [] => exact absurd rfl hstack
  | ⟨values, rest, []⟩ :: below =>
    cases hstep
    exact h.tail
  | ⟨values, rest, s :: pending⟩ :: below =>
    -- the frame stays with one success less, and a shorter success puts a frame on top of it
    have hfewer := h.of_subset (List.subset_cons_self s pending)
    rcases Nat.lt_or_ge s.rest.length rest.length with hlt | hle
    · rw [step_of_lt hlt] at hstep
      obtain ⟨successes, hrun, hnext⟩ := Run.result_bind_eq_ok_iff.1 hstep
      cases hnext
      exact .above hfewer (h.leadsTo hlt) hrun (List.Subset.refl _)
    · rw [step_of_le hle] at hstep
      cases hstep
      exact hfewer

/-- A turn can be taken if the parser answers on all that is reached from the input. -/
theorem Stacked.exists_turn (h : Stacked p inp walk.stack) (hstack : walk.stack ≠ [])
    (hp : ∀ rest, ReflTransGen p.LeadsTo inp rest → ∃ ss, (p.run rest).result = .ok ss) :
    ∃ next, Turn p walk next := by
  obtain ⟨stack, found⟩ := walk
  match stack with
  | [] => exact absurd rfl hstack
  | ⟨values, rest, []⟩ :: below => exact ⟨_, hstack, rfl⟩
  | ⟨values, rest, s :: pending⟩ :: below =>
    rcases Nat.lt_or_ge s.rest.length rest.length with hlt | hle
    · obtain ⟨successes, hrun⟩ := hp s.rest (h.reached.tail (h.leadsTo hlt))
      have hstep : (step p ⟨⟨values, rest, s :: pending⟩ :: below, found⟩).result =
          .ok ⟨⟨values ++ [s.value], s.rest, successes⟩ :: ⟨values, rest, pending⟩ :: below,
            found⟩ := by
        rw [step_of_lt hlt, Run.result_bind_eq_ok_iff]
        exact ⟨successes, hrun, rfl⟩
      exact ⟨_, hstack, hstep⟩
    · have hstep : (step p ⟨⟨values, rest, s :: pending⟩ :: below, found⟩).result =
          .ok ⟨⟨values, rest, pending⟩ :: below, found⟩ := by
        rw [step_of_le hle]
        rfl
      exact ⟨_, hstack, hstep⟩

theorem Turn.step_eq (hturn : Turn p walk next) :
    walk.step p = ⟨(walk.step p).log, .ok next⟩ :=
  Run.ext rfl hturn.2

theorem Turn.result_run (hturn : Turn p walk next) : (run p walk).result = (run p next).result := by
  rw [run_of_ne_nil hturn.1, hturn.step_eq, Run.ok_bind]

/-! ## All turns -/

theorem Stacked.turns (h : Stacked p inp walk.stack) (hturns : ReflTransGen (Turn p) walk next) :
    Stacked p inp next.stack := by
  induction hturns with
  | refl => exact h
  | tail _ hturn ih => exact ih.turn hturn

theorem result_run_of_turns (hturns : ReflTransGen (Turn p) walk next) :
    (run p walk).result = (run p next).result := by
  induction hturns with
  | refl => rfl
  | tail _ hturn ih => exact ih.trans hturn.result_run

/-- As long as the parser answers, turns lead to an empty stack. -/
theorem Stacked.exists_end (h : Stacked p inp walk.stack)
    (hp : ∀ rest, ReflTransGen p.LeadsTo inp rest → ∃ ss, (p.run rest).result = .ok ss) :
    ∃ last, ReflTransGen (Turn p) walk last ∧ last.stack = [] := by
  -- on the order in which stacks follow one another, which is well-founded
  obtain ⟨stack, found⟩ := walk
  induction stack using follows_wf.induction generalizing found with
  | _ stack ih =>
    by_cases hstack : stack = []
    · exact ⟨_, .refl, hstack⟩
    · obtain ⟨next, hturn⟩ := h.exists_turn hstack hp
      have hfollows := follows_of_step hstack hturn.step_eq
      obtain ⟨last, hlast, hempty⟩ := ih next.stack hfollows next.found (h.turn hturn)
      exact ⟨last, hlast.head hturn, hempty⟩

end Repetition

namespace Parser

/-- A repetition does the same with another parser that does the same on all that is reached from
the input. -/
theorem run_many_congr_of_reached {p q : Parser α} {inp : Input} (hname : q.name = p.name)
    (hq : ∀ rest, ReflTransGen p.LeadsTo inp rest → q.run rest = p.run rest) :
    q.many.run inp = p.many.run inp := by
  -- on the length of the input: a success is followed only if what it leaves is shorter
  induction hn : inp.length using Nat.strongRecOn generalizing inp with
  | ind n ih =>
      have hdescribe : q.describe = p.describe := by rw [describe, describe, hname]
      rw [run_many, run_many, hq inp .refl]
      apply Run.bind_congr_of_result
      intro ss hss
      congr 1
      apply Run.flatMap_congr
      intro s hs
      rcases Nat.lt_or_ge s.rest.length inp.length with hlt | hle
      · have hleads : p.LeadsTo inp s.rest := ⟨hlt, ss, hss, s, hs, rfl⟩
        have hrest := ih s.rest.length (by omega) (fun rest h => hq rest (h.head hleads)) rfl
        rw [manyAfter_of_lt hlt, manyAfter_of_lt hlt, hrest]
      · rw [manyAfter_of_le hle, manyAfter_of_le hle, hdescribe]

open Repetition (Turn Ascends start)

/-- If the parser answers on every input that it is given, then the walk comes to its end, and what
it has found is what the repetition answers. In each state on the way the stack ascends from the
input; and the parser is given nothing but the input, and what it leaves of an input that it is
given if that is shorter: what it does elsewhere makes no difference. -/
theorem many_walk_ends_within_bounds {p : Parser α} {inp : Input}
    (hp : ∀ rest, ReflTransGen p.LeadsTo inp rest → ∃ ss, (p.run rest).result = .ok ss) :
    ∃ pending, (p.run inp).result = .ok pending ∧
      (∃ last, ReflTransGen (Turn p) (start inp pending) last ∧ last.stack = [] ∧
        (p.many.run inp).result = .ok last.found.reverse) ∧
      (∀ walk, ReflTransGen (Turn p) (start inp pending) walk → Ascends inp walk.stack.reverse) ∧
      ∀ q : Parser α, q.name = p.name →
        (∀ rest, ReflTransGen p.LeadsTo inp rest → q.run rest = p.run rest) →
        q.many.run inp = p.many.run inp := by
  obtain ⟨pending, hpending⟩ := hp inp .refl
  have hstart : Repetition.Stacked p inp (start inp pending).stack :=
    .bottom hpending (List.Subset.refl _)
  obtain ⟨last, hlast, hempty⟩ := hstart.exists_end hp
  refine ⟨pending, hpending, ⟨last, hlast, hempty, ?_⟩, ?_, ?_⟩
  · have hrun := Repetition.result_run_of_turns hlast
    rw [Repetition.run_of_nil hempty] at hrun
    exact Run.result_bind_eq_ok_iff.2 ⟨pending, hpending, hrun⟩
  · intro walk hwalk
    exact (hstart.turns hwalk).ascends
  · intro q hname hq
    exact run_many_congr_of_reached hname hq

/-- A token, nothing, or three letters that were never there. -/
def restless : Parser Value :=
  choice [item, result .none, ⟨none, fun _ => pure [⟨.none, .start (.text ['x', 'y', 'z'])⟩]⟩]

theorem many_walk_ends_within_bounds_of_restless :
    (∀ rest, ReflTransGen restless.LeadsTo (.start (.text ['a', 'b'])) rest →
        ∃ ss, (restless.run rest).result = .ok ss) ∧
      (restless.many.run (.start (.text ['a', 'b']))).result =
        .ok [⟨[.char 'a', .char 'b'], .start (.text [])⟩, ⟨[.char 'a'], .start (.text ['b'])⟩,
          ⟨[], .start (.text ['a', 'b'])⟩] ∧
      ∃ pending, (restless.run (.start (.text ['a', 'b']))).result = .ok pending ∧
        ∀ walk, ReflTransGen (Turn restless) (start (.start (.text ['a', 'b'])) pending) walk →
          Ascends (.start (.text ['a', 'b'])) walk.stack.reverse := by
  have hp (inp : Input) : ∃ ss, (restless.run inp).result = .ok ss := by
    simp [restless, run_choice, run_item]
  have hreached : ∀ rest, ReflTransGen restless.LeadsTo (.start (.text ['a', 'b'])) rest →
      ∃ ss, (restless.run rest).result = .ok ss := fun rest _ => hp rest
  obtain ⟨pending, hpending, _, hascends, _⟩ := many_walk_ends_within_bounds hreached
  exact ⟨hreached, by cbv, pending, hpending, hascends⟩

end Parser

end AllParses
