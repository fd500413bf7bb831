import AllParses.Parser.Sequence
import AllParses.Proofs.Reordering

/-!
# The laws of sequencing

`bind` and `result` obey the monad laws. The unit laws hold exactly. For associativity the two
sides call the continuations in different orders: one makes all parsers of the first continuation
before any of the second, the other alternates between them.
-/

namespace AllParses.Parser

variable {α β γ : Type}

theorem run_ofCode_map (f : α → Parser β) (code : Code Entry α) (inp : Input) :
    (ofCode (f <$> code)).run inp =
      code.run inp.made >>= fun q => (f q.1).run (inp.withMade q.2) := by
  rw [run_ofCode, StateT.run_map, bind_map_left]

/-- A function that is no more than a function is applied to every value. -/
theorem run_map_pure (f : α → β) (p : Parser α) (inp : Input) :
    (p.map fun a => pure (f a)).run inp = List.map (Success.map f) <$> p.run inp := by
  rw [run_map, map_eq_pure_bind]
  refine bind_congr fun successes => ?_
  simp only [StateT.run_pure, pure_bind, Input.withMade_made, Run.flatMap_pure_singleton]
  rfl

/-- A parser made by code and continued is the continued parser, made by the same code. -/
theorem run_ofCode_bind (code : Code Entry (Parser α)) (next : α → Code Entry (Parser β))
    (inp : Input) :
    (ofCode ((fun q => q.bind next) <$> code)).run inp = ((ofCode code).bind next).run inp := by
  rw [run_ofCode_map, run_bind, run_ofCode, bind_assoc]
  rfl

/-- Sequencing is associative up to the order of steps: either way of grouping fails just when the
other does, and otherwise both give the same results and the same log entries. What `result` gives
is continued as if it had been there from the start, and continuing with `result` changes
nothing. -/
theorem bind_monad_laws (p : Parser α) (f : α → Code Entry (Parser β))
    (g : β → Code Entry (Parser γ)) (a : α) (inp : Input) :
    Run.Reordered (((p.bind f).bind g).run inp)
        ((p.bind fun b => do return (← f b).bind g).run inp) ∧
      ((result a).bind f).run inp = (ofCode (f a)).run inp ∧
      (p.bind fun b => pure (result b)).run inp = p.run inp := by
  refine ⟨?_, ?_, ?_⟩
  · simp only [bind_pure_comp, run_bind p, run_ofCode_bind]
    rw [run_bind, run_bind, bind_assoc]
    exact (Run.Reordered.refl _).bind fun successes => Run.flatMap_flatMap _ _ successes
  · rw [run_bind, run_result, pure_bind, Run.flatMap_cons]
    simp
  · refine Eq.trans ?_ (bind_pure (p.run inp))
    rw [run_bind]
    refine bind_congr fun successes => ?_
    simp only [run_ofCode_pure, run_result, Run.flatMap_pure_singleton, List.map_id']

end AllParses.Parser
