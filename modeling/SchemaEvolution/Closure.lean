/-!
The least set that holds given elements and is closed under a successor function, as a list.
The search goes on until nothing is left to visit; a bound on the number of elements keeps it total.
-/
namespace SchemaEvolution.Closure

variable {α : Type u} [DecidableEq α]

def visit (next : α → List α) (bound : Nat) (todo seen : List α) : List α :=
  match todo with
  | [] => seen
  | x :: todo =>
    if x ∈ seen then visit next bound todo seen
    else if seen.length < bound then visit next bound (next x ++ todo) (seen ++ [x])
    else seen
termination_by (bound - seen.length, todo.length)
decreasing_by
  · apply Prod.Lex.right; simp
  · apply Prod.Lex.left; simp; omega

def of (next : α → List α) (bound : Nat) (start : List α) : List α := visit next bound start []

end SchemaEvolution.Closure
