import Lisan.Value

/-!
# Equality of trees

Two trees are the same when they have the same shape, names and operator tokens,
places included, and when their literals are equal in the language. A tree that
holds a function as a literal is therefore not the same as itself.
-/

namespace Lisan

variable {H : Type}

mutual

def Expr.same : Expr H -> Expr H -> Bool
  | .assign target value, .assign target' value' => target == target' && value.same value'
  | .var name, .var name' => name == name'
  | .binary left operator right, .binary left' operator' right' =>
      left.same left' && operator == operator' && right.same right'
  | .unary operator operand, .unary operator' operand' =>
      operator == operator' && operand.same operand'
  | .call callee args, .call callee' args' => callee.same callee' && Expr.sameAll args args'
  | .literal value, .literal value' => value.same value'
  | .group inner, .group inner' => inner.same inner'
  | _, _ => false

def Expr.sameAll : List (Expr H) -> List (Expr H) -> Bool
  | [], [] => true
  | e :: rest, e' :: rest' => e.same e' && Expr.sameAll rest rest'
  | _, _ => false

end

mutual

def Stmt.same : Stmt H -> Stmt H -> Bool
  | .branch condition onTrue onFalse, .branch condition' onTrue' onFalse' =>
      condition.same condition' && onTrue.same onTrue' && onFalse.same onFalse'
  | .loop condition body, .loop condition' body' => condition.same condition' && body.same body'
  | .expr value, .expr value' => value.same value'
  | .block body, .block body' => Stmt.sameAll body body'
  | .define name params body, .define name' params' body' =>
      name == name' && params == params' && body.same body'
  | _, _ => false

def Stmt.sameAll : List (Stmt H) -> List (Stmt H) -> Bool
  | [], [] => true
  | s :: rest, s' :: rest' => s.same s' && Stmt.sameAll rest rest'
  | _, _ => false

end

end Lisan
