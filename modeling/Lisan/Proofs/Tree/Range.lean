import Lisan.Integer
import Lisan.Value

/-!
# Trees within the range of integers

A tree is within range if all integers that it holds are integers of the language, here and
in the bodies of all functions that it holds. Which functions of the host it may hold is left
open.
-/

namespace Lisan

variable {H : Type}

mutual

def Value.Ranged (admitted : H -> Prop) : Value H -> Prop
  | .str _ => True
  | .int n => Integer.InRange n
  | .function _ body => body.Ranged admitted
  | .native _ handle => admitted handle

def Expr.Ranged (admitted : H -> Prop) : Expr H -> Prop
  | .assign _ value => value.Ranged admitted
  | .var _ => True
  | .binary left _ right => left.Ranged admitted ∧ right.Ranged admitted
  | .unary _ operand => operand.Ranged admitted
  | .call callee args => callee.Ranged admitted ∧ Expr.AllRanged admitted args
  | .literal value => value.Ranged admitted
  | .group inner => inner.Ranged admitted

def Expr.AllRanged (admitted : H -> Prop) : List (Expr H) -> Prop
  | [] => True
  | e :: rest => e.Ranged admitted ∧ Expr.AllRanged admitted rest

def Stmt.Ranged (admitted : H -> Prop) : Stmt H -> Prop
  | .branch condition onTrue onFalse =>
      condition.Ranged admitted ∧ onTrue.Ranged admitted ∧ onFalse.Ranged admitted
  | .loop condition body => condition.Ranged admitted ∧ body.Ranged admitted
  | .expr value => value.Ranged admitted
  | .block body => Stmt.AllRanged admitted body
  | .define _ _ body => body.Ranged admitted

def Stmt.AllRanged (admitted : H -> Prop) : List (Stmt H) -> Prop
  | [] => True
  | s :: rest => s.Ranged admitted ∧ Stmt.AllRanged admitted rest

end

variable {admitted : H -> Prop}

theorem Expr.allRanged_iff {es : List (Expr H)} :
    Expr.AllRanged admitted es <-> forall e, e ∈ es -> e.Ranged admitted := by
  induction es with
  | nil => exact iff_of_true trivial fun _ he => absurd he List.not_mem_nil
  | cons e rest ih => rw [List.forall_mem_cons, <- ih, AllRanged]

theorem Stmt.allRanged_iff {body : List (Stmt H)} :
    Stmt.AllRanged admitted body <-> forall s, s ∈ body -> s.Ranged admitted := by
  induction body with
  | nil => exact iff_of_true trivial fun _ hs => absurd hs List.not_mem_nil
  | cons s rest ih => rw [List.forall_mem_cons, <- ih, AllRanged]

theorem Value.ranged_default : (default : Value H).Ranged admitted := by
  show Integer.InRange 1000
  decide

end Lisan
