import Mathlib
import AllParses.Proofs.Correspondence
import AllParses.Proofs.Marks

/-!
# Traces are nested

A traced parser writes one record when a call of it begins and another when it has answered. All
that is run on behalf of the call is run in between, so that the records of a whole parse are
brackets around brackets. If the parse ends with an error, some brackets stay open: those of the
calls that were waiting for an answer then, each of them within the one before.

A call is told by what is traced, under which label and on which input. That fixes what the call
writes, so a bracket can be shown to be that of a certain call by what is written in it.
-/

namespace AllParses

/-- The record was written by a traced parser. -/
def Entry.isTrace : Entry → Bool
  | trying _ _ | found _ _ => true
  | dropped _ | note _ => false

/-- The records of traced parsers among all of a log. -/
def traceRecords (log : List Entry) : List Entry := log.filter Entry.isTrace

theorem traceRecords_append (log later : List Entry) :
    traceRecords (log ++ later) = traceRecords log ++ traceRecords later :=
  List.filter_append ..

/-! ## Brackets -/

/-- Records of calls that begin and end, one after the other and within one another. -/
inductive Balanced : List Entry → Prop where
  | nil : Balanced []
  | call (label : String) (seen : Sequence) (results : Nat) {within later : List Entry}
      (inner : Balanced within) (after : Balanced later) :
      Balanced (.trying label seen :: within ++ .found label results :: later)

/-- The records that are open after this one, if those in `opened` were before; the latest comes
first. -/
def Entry.track (opened : List Entry) : Entry → List Entry
  | trying label seen => trying label seen :: opened
  | found _ _ => opened.tail
  | _ => opened

/-- The records of calls that begin in the list and do not end there, outermost first. -/
def unclosed (records : List Entry) : List Entry := (records.foldl Entry.track []).reverse

theorem Balanced.append {records later : List Entry} (h : Balanced records)
    (hlater : Balanced later) : Balanced (records ++ later) := by
  induction h with
  | nil => exact hlater
  | call label seen results inner after _ ih =>
      rw [List.append_assoc, List.cons_append]
      exact .call label seen results inner ih

theorem Balanced.foldl_track {records : List Entry} (h : Balanced records) (opened : List Entry) :
    records.foldl Entry.track opened = opened := by
  induction h generalizing opened with
  | nil => rfl
  | call label seen results inner after ihinner ihafter =>
      simp [Entry.track, ihinner, ihafter]

/-! ## Calls -/

/-- A call of a traced parser: what is traced, under which label and on which input. -/
structure TraceCall where
  label : String
  body : Parser Value
  inp : Input

namespace TraceCall

/-- The record with which the call begins. -/
def opening (c : TraceCall) : Entry := .trying c.label (c.inp.sequence.take 30)

/-- The record with which the call ends, after that many results. -/
def closing (c : TraceCall) (results : Nat) : Entry := .found c.label results

/-- What the call waits for. -/
def inner (c : TraceCall) : Run Entry (List (Success Value)) := c.body.run c.inp

/-- The records of the calls within the call. -/
def within (c : TraceCall) : List Entry := traceRecords c.inner.log

/-- The call, as the traced parser runs it. -/
def run (c : TraceCall) : Run Entry (List (Success Value)) := (c.body.trace c.label).run c.inp

theorem run_eq (c : TraceCall) :
    c.run = Run.emit c.opening >>= fun _ => c.inner >>= fun rs =>
      Run.emit (c.closing rs.length) >>= fun _ => pure rs :=
  rfl

theorem traceRecords_opening (c : TraceCall) (log : List Entry) :
    traceRecords (c.opening :: log) = c.opening :: traceRecords log :=
  rfl

theorem result_run (c : TraceCall) : c.run.result = c.inner.result := by
  rw [run_eq]
  rcases c.inner with ⟨log, e | rs⟩ <;> rfl

theorem traceRecords_run_of_ok {c : TraceCall} {rs : List (Success Value)}
    (h : c.inner.result = .ok rs) :
    traceRecords c.run.log = c.opening :: c.within ++ [c.closing rs.length] := by
  have hlog : c.run.log = c.opening :: (c.inner.log ++ [c.closing rs.length]) := by
    rw [run_eq]
    rcases hinner : c.inner with ⟨log, e | rs'⟩ <;> rw [hinner] at h <;> cases h
    rfl
  rw [hlog, traceRecords_opening, traceRecords_append]
  rfl

theorem traceRecords_run_of_error {c : TraceCall} {e : Error} (h : c.inner.result = .error e) :
    traceRecords c.run.log = c.opening :: c.within := by
  have hlog : c.run.log = c.opening :: c.inner.log := by
    rw [run_eq]
    rcases hinner : c.inner with ⟨log, e' | rs⟩ <;> rw [hinner] at h <;> cases h
    rfl
  rw [hlog, traceRecords_opening, within]

end TraceCall

variable {IsCall : TraceCall → Prop} {e : Error}

/-- Calls that have answered, one after the other: each bracket begins with the opening record of a
call, holds just what that call wrote meanwhile, and ends with the number of its results. -/
inductive Answered (IsCall : TraceCall → Prop) : List Entry → Prop where
  | nil : Answered IsCall []
  | call {c : TraceCall} {rs : List (Success Value)} {later : List Entry} (isCall : IsCall c)
      (answers : c.inner.result = .ok rs) (inner : Answered IsCall c.within)
      (after : Answered IsCall later) :
      Answered IsCall (c.opening :: c.within ++ c.closing rs.length :: later)

/-- Calls of which some wait for an answer when the error comes, outermost first. Before each of
them stand calls that have answered; after its opening record stands just what it wrote until the
error ended it. -/
inductive Interrupted (IsCall : TraceCall → Prop) (e : Error) :
    List TraceCall → List Entry → Prop where
  | answered {records : List Entry} (h : Answered IsCall records) :
      Interrupted IsCall e [] records
  | waiting {c : TraceCall} {active : List TraceCall} {before : List Entry} (isCall : IsCall c)
      (earlier : Answered IsCall before) (raises : c.inner.result = .error e)
      (inner : Interrupted IsCall e active c.within) :
      Interrupted IsCall e (c :: active) (before ++ c.opening :: c.within)

theorem Answered.append {records later : List Entry} (h : Answered IsCall records)
    (hlater : Answered IsCall later) : Answered IsCall (records ++ later) := by
  induction h with
  | nil => exact hlater
  | call isCall answers inner after _ ih =>
      rw [List.append_assoc, List.cons_append]
      exact .call isCall answers inner ih

theorem Answered.balanced {records : List Entry} (h : Answered IsCall records) :
    Balanced records := by
  induction h with
  | nil => exact .nil
  | call isCall answers inner after ihinner ihafter => exact .call _ _ _ ihinner ihafter

theorem Interrupted.prepend {before records : List Entry} {active : List TraceCall}
    (hbefore : Answered IsCall before) (h : Interrupted IsCall e active records) :
    Interrupted IsCall e active (before ++ records) := by
  cases h with
  | answered h => exact .answered (hbefore.append h)
  | waiting isCall earlier raises inner =>
      rw [← List.append_assoc]
      exact .waiting isCall (hbefore.append earlier) raises inner

/-- The calls that wait could all still answer. -/
theorem Interrupted.balanced_append {records : List Entry} {active : List TraceCall}
    (h : Interrupted IsCall e active records) :
    Balanced (records ++ (active.map fun c => c.closing 0).reverse) := by
  induction h with
  | answered h => simpa using h.balanced
  | @waiting c active before isCall earlier raises inner ih =>
      have hcall := Balanced.call c.label (c.inp.sequence.take 30) 0 ih .nil
      simpa [TraceCall.opening, TraceCall.closing] using earlier.balanced.append hcall

theorem Interrupted.foldl_track {records : List Entry} {active : List TraceCall}
    (h : Interrupted IsCall e active records) (opened : List Entry) :
    records.foldl Entry.track opened = (active.map TraceCall.opening).reverse ++ opened := by
  induction h generalizing opened with
  | answered h => simpa using h.balanced.foldl_track opened
  | waiting isCall earlier raises inner ih =>
      rw [List.foldl_append, earlier.balanced.foldl_track, List.foldl_cons, ih]
      simp [TraceCall.opening, Entry.track]

theorem Interrupted.unclosed_eq {records : List Entry} {active : List TraceCall}
    (h : Interrupted IsCall e active records) :
    unclosed records = active.map TraceCall.opening := by
  simp [unclosed, h.foldl_track]

/-! ## Runs -/

namespace Run

variable {α β : Type}

/-- If the run answers, then so have all calls of traced parsers; if it ends with an error, then
that error has ended those that have not. -/
def TracesNest (IsCall : TraceCall → Prop) (x : Run Entry α) : Prop :=
  match x.result with
  | .ok _ => Answered IsCall (traceRecords x.log)
  | .error e => ∃ active, Interrupted IsCall e active (traceRecords x.log)

theorem tracesNest_of_answered {x : Run Entry α} (h : Answered IsCall (traceRecords x.log)) :
    x.TracesNest IsCall := by
  unfold TracesNest
  split
  · exact h
  · exact ⟨[], .answered h⟩

theorem tracesNest_pure (a : α) : (pure a : Run Entry α).TracesNest IsCall := .nil

theorem tracesNest_note (x : Run String α) : (x.mapLog .note).TracesNest IsCall := by
  apply tracesNest_of_answered
  have hnone : traceRecords (x.mapLog .note).log = [] := by
    simp [traceRecords, mapLog, Entry.isTrace]
  rw [hnone]
  exact .nil

theorem TracesNest.bind {x : Run Entry α} {f : α → Run Entry β} (hx : x.TracesNest IsCall)
    (hf : ∀ a, x.result = .ok a → (f a).TracesNest IsCall) : (x >>= f).TracesNest IsCall := by
  rcases x with ⟨log, e | a⟩
  · exact hx
  · have hbefore : Answered IsCall (traceRecords log) := hx
    have hnext := hf a rfl
    rw [ok_bind]
    unfold TracesNest at hnext ⊢
    rw [traceRecords_append]
    cases hresult : (f a).result with
    | ok b =>
        rw [hresult] at hnext
        exact hbefore.append hnext
    | error e =>
        rw [hresult] at hnext
        obtain ⟨active, hactive⟩ := hnext
        exact ⟨active, hactive.prepend hbefore⟩

/-- A call puts its records around those of the calls within it. -/
theorem TracesNest.trace {c : TraceCall} (isCall : IsCall c) (h : c.inner.TracesNest IsCall) :
    c.run.TracesNest IsCall := by
  unfold TracesNest at h ⊢
  rw [c.result_run]
  cases hresult : c.inner.result with
  | ok rs =>
      rw [hresult] at h
      rw [TraceCall.traceRecords_run_of_ok hresult]
      exact .call isCall hresult h .nil
  | error e =>
      rw [hresult] at h
      obtain ⟨active, hactive⟩ := h
      refine ⟨c :: active, ?_⟩
      rw [TraceCall.traceRecords_run_of_error hresult]
      exact .waiting isCall .nil hresult hactive

end Run

/-! ## Grammars -/

/-- The call is one of a traced part of the grammar, or of the grammar of a rule: its body is what
is made for the operand of the trace. -/
def Rules.IsTraceCall (rules : Rules) (g : Grammar) (c : TraceCall) : Prop :=
  ∃ h ∈ g :: rules.map Prod.snd, ∃ p, (Grammar.trace c.label p).IsPartOf h ∧
    ∃ depth made made', ((p.make (rules.call depth)).run made).result = .ok (c.body, made')

/-- Parses of one input whose traces are nested. Each parse is compared with itself, so nothing is
asked of the second one. -/
def Comparison.nesting (IsCall : TraceCall → Prop) : Comparison where
  __ := marks
  Runs R x _ := x.TracesNest IsCall ∧ x.Ensures fun a => ∃ b, R a b
  runs_pure {_ _ _ a b} h := ⟨Run.tracesNest_pure a, Run.ensures_pure ⟨b, h⟩⟩
  runs_bind hx hf := by
    refine ⟨hx.1.bind fun a ha => ?_, hx.2.bind fun a ⟨b, hab⟩ => (hf a b hab).2⟩
    obtain ⟨b, hab⟩ := hx.2 a ha
    exact (hf a b hab).1
  runs_extra := False.elim
  runs_note x := ⟨Run.tracesNest_note x, fun a _ => ⟨a, rfl⟩⟩
  runs_dropped _ := ⟨Run.tracesNest_of_answered .nil, fun a _ => ⟨a, rfl⟩⟩

namespace Comparison

variable {IsCall : TraceCall → Prop} {calls : Grammar.Calls}

theorem parsers_trace_nesting {title : String} {p q : Parser Value}
    (hpq : (nesting IsCall).Parsers Eq p q) (isCall : ∀ inp, IsCall ⟨title, p, inp⟩) :
    (nesting IsCall).Parsers Eq (p.trace title) (q.trace title) := by
  refine ⟨trivial, fun inp inp' hinp => ?_⟩
  obtain ⟨hnest, hensures⟩ := hpq.2 inp inp' hinp
  refine ⟨Run.TracesNest.trace (isCall inp) hnest, Run.ensures_bind fun _ => ?_⟩
  exact hensures.bind fun rs hrs => Run.ensures_bind fun _ => Run.ensures_pure hrs

theorem covers_nesting (g : Grammar) : (nesting IsCall).Covers g := by
  cases g with
  | constant => exact fun _ _ _ => rfl
  | _ => exact covers_of_not_gaps not_false not_false

/-- A trace is followed if all calls of what is made for its operand are calls. -/
theorem follows_nesting {g : Grammar}
    (isCall : ∀ title p, g = .trace title p → ∀ inp made q,
      ((p.make calls).run made).result = .ok q → IsCall ⟨title, q.1, inp⟩) :
    (nesting IsCall).Follows Grammar.trace Grammar.label calls calls g := by
  refine ⟨covers_nesting g, ?_⟩
  cases g with
  | trace title p =>
      intro hp made
      have hmade : (nesting IsCall).Runs
          (fun q r => ((nesting IsCall).Parsers Eq q.1 r.1 ∧ q.2 = r.2) ∧
            ((p.make calls).run made).result = .ok q)
          ((p.make calls).run made) (((p.mapMarks .trace .label).make calls).run made) := by
        refine ⟨(hp made).1, fun q hq => ?_⟩
        obtain ⟨r, hqr⟩ := (hp made).2 q hq
        exact ⟨r, hqr, hq⟩
      refine (nesting IsCall).runs_bind hmade fun q r hqr => (nesting IsCall).runs_pure ?_
      obtain ⟨⟨hparsers, hcount⟩, hq⟩ := hqr
      exact ⟨parsers_trace_nesting hparsers fun inp => isCall title p rfl inp made q hq, hcount⟩
  | label name p =>
      exact fun hp => hp.bind fun _ _ hpq => (nesting IsCall).codes_pure (hpq.label name)
  | _ => trivial

end Comparison

namespace Rules

variable {rules : Rules} {depth : Nat} {g : Grammar} {p : Parser Value}

theorem tracesNest_run (hp : (rules.make depth g).result = .ok p) (inp : Input) :
    (p.run inp).TracesNest (rules.IsTraceCall g) := by
  let C := Comparison.nesting (rules.IsTraceCall g)
  have hfollows (depth : Nat) (h : Grammar) (hh : h ∈ g :: rules.map Prod.snd) :
      h.Everywhere (C.Follows .trace .label (rules.call depth) (rules.call depth)) := by
    refine h.everywhere_isPartOf.mono fun part hpart => Comparison.follows_nesting ?_
    rintro title p rfl inp made q hq
    exact ⟨h, hh, p, hpart, depth, made, q.2, hq⟩
  have hruns : C.Runs (C.Parsers Eq) (rules.make depth g)
      ((rules.mapMarks .trace .label).make depth (g.mapMarks .trace .label)) := by
    refine runs_make_of_follows (fun depth r hr => ?_) ?_ <;> rw [mapMarks_trace_label]
    · exact hfollows depth r.2 (by simpa using .inr ⟨_, hr⟩)
    · exact hfollows depth g (by simp)
  obtain ⟨q, hpq⟩ := hruns.2 p hp
  exact (hpq.2 inp inp rfl).1

/-- If a parse answers, then the records of its traces are balanced, and each bracket is that of one
call: it holds what was written during the call, and tells the number of its results. If the parse
ends with an error, then the records can be continued to balanced ones, and those that are not
closed are the opening records of the calls that the error ended, outermost first. -/
theorem trace_records_nest (hp : (rules.make depth g).result = .ok p) (inp : Input) :
    (∀ rs, (p.run inp).result = .ok rs →
      Balanced (traceRecords (p.run inp).log) ∧
        Answered (rules.IsTraceCall g) (traceRecords (p.run inp).log)) ∧
      ∀ e, (p.run inp).result = .error e →
        (∃ rest, Balanced (traceRecords (p.run inp).log ++ rest)) ∧
          ∃ active, Interrupted (rules.IsTraceCall g) e active (traceRecords (p.run inp).log) ∧
            unclosed (traceRecords (p.run inp).log) = active.map TraceCall.opening := by
  have hnest := tracesNest_run hp inp
  unfold Run.TracesNest at hnest
  constructor
  · intro rs hrs
    rw [hrs] at hnest
    exact ⟨hnest.balanced, hnest⟩
  · intro e he
    rw [he] at hnest
    obtain ⟨active, hactive⟩ := hnest
    exact ⟨⟨_, hactive.balanced_append⟩, active, hactive, hactive.unclosed_eq⟩

/-- Words of any letters, but at a `b` the client ends the parse. -/
def stoppedAtB : Rules :=
  [("word", .trace "word" (.many (.ref "letter"))),
    ("letter", .trace "letter" (.map
      (fun v => if v == .char 'b' then Code.raise (.raised "stop") else pure v) .item))]

theorem trace_records_nest_of_stoppedAtB :
    ∃ (p : Parser Value) (active : List TraceCall),
      (stoppedAtB.make 2 (.ref "word")).result = .ok p ∧
      (p.run (.start (.text ['a', 'b']))).result = .error (.raised "stop") ∧
      Interrupted (stoppedAtB.IsTraceCall (.ref "word")) (.raised "stop") active
        (traceRecords (p.run (.start (.text ['a', 'b']))).log) ∧
      active.map TraceCall.opening =
        [.trying "word" (.text ['a', 'b']), .trying "letter" (.text ['b'])] := by
  have hp : (stoppedAtB.make 2 (.ref "word")).result =
      .ok ⟨some "word", fun inp => stoppedAtB.call 2 "word" (inp.withMade (0 + inp.made))⟩ := rfl
  have hrun : (stoppedAtB.call 2 "word" (.start (.text ['a', 'b']))).result =
      .error (.raised "stop") := by cbv
  have hunclosed :
      unclosed (traceRecords (stoppedAtB.call 2 "word" (.start (.text ['a', 'b']))).log) =
        [.trying "word" (.text ['a', 'b']), .trying "letter" (.text ['b'])] := by cbv
  have hnest := trace_records_nest hp (.start (.text ['a', 'b']))
  obtain ⟨active, hactive, hopen⟩ := (hnest.2 _ hrun).2
  exact ⟨_, active, hp, hrun, hactive, hopen ▸ hunclosed⟩

end Rules

end AllParses
