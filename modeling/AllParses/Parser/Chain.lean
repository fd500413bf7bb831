import AllParses.Parser.Repetition

/-!
# Chains of operators

Operands separated by operators. All the operators and operands of a chain are read first, and
folded then: from the left, or from the right. Every shorter chain is a result as well.
-/

namespace AllParses

variable {α : Type}

/-- A binary operator, whose application is code. -/
abbrev Operator (α : Type) := α → α → Code Entry α

/-- Folds a chain from the left, beginning with its first operand. -/
def foldLeft : α → List (Operator α × α) → Code Entry α
  | a, [] => pure a
  | a, (op, b) :: links => do
    let c ← op a b
    foldLeft c links

/-- Folds a chain from the right: each operator gets its own left operand and the value of all
that follows it, so the last operator is applied first. It does what a loop does that goes back over
the operators and their left operands (`foldRight_eq_foldlM`). -/
def foldRight : α → List (Operator α × α) → Code Entry α
  | a, [] => pure a
  | a, (op, b) :: links => do
    let c ← foldRight b links
    op a c

/-- The fold from the right as a loop over the reversed operators, each paired with the operand
before it. The loop begins with the last operand, and an operator is applied to its operand and to
what the loop has made of all that stands after it. -/
theorem foldRight_eq_foldlM (a : α) (links : List (Operator α × α)) :
    foldRight a links =
      ((links.map Prod.fst).reverse.zip (a :: links.map Prod.snd).dropLast.reverse).foldlM
        (fun c l => l.1 l.2 c) ((a :: links.map Prod.snd).getLast (by simp)) := by
  induction links generalizing a with
  | nil => rfl
  | cons l links ih =>
      obtain ⟨f, b⟩ := l
      -- the first operator and the first operand are the last pair of the two reversed lists
      have hlength : (links.map Prod.fst).reverse.length =
          (b :: links.map Prod.snd).dropLast.reverse.length := by simp
      have hlast : (a :: b :: links.map Prod.snd).getLast (by simp) =
          (b :: links.map Prod.snd).getLast (by simp) := List.getLast_cons (by simp)
      simp only [foldRight, ih, List.map_cons, List.reverse_cons, List.dropLast_cons_cons, hlast,
        List.zip_append hlength, List.foldlM_append, List.zip_cons_cons, List.zip_nil_left,
        List.foldlM_cons, List.foldlM_nil, bind_pure]

namespace Parser

/-- One or more `p` separated by operators, folded from the left. -/
def chainl1 (p : Parser α) (op : Parser (Operator α)) : Parser α :=
  p.bind fun a => pure ((op.pair p).many.map (foldLeft a))

/-- One or more `p` separated by operators, folded from the right. -/
def chainr1 (p : Parser α) (op : Parser (Operator α)) : Parser α :=
  p.bind fun a => pure ((op.pair p).many.map (foldRight a))

end Parser

end AllParses
