import Lisan.Tree

/-!
# Printed trees

The printed form shows the whole of a tree: every operation in parentheses of
its own, and a grouping of the text in brackets. Only the places of operators
are left out.
-/

namespace Lisan

variable {H : Type}

mutual

def Value.print : Value H -> String
  | .str text => "\"" ++ text ++ "\""
  | .int value => toString value
  | .function params body =>
      "<function(" ++ ", ".intercalate params ++ ") " ++ body.print ++ ">"
  | .native params _ => "<native function(" ++ ", ".intercalate params ++ ")>"

def Expr.print : Expr H -> String
  | .assign target value => "(" ++ target ++ " = " ++ value.print ++ ")"
  | .var name => name
  | .binary left operator right =>
      "(" ++ left.print ++ " " ++ operator.kind.text ++ " " ++ right.print ++ ")"
  | .unary operator operand => "(" ++ operator.kind.text ++ operand.print ++ ")"
  | .call callee args => callee.print ++ "(" ++ ", ".intercalate (Expr.printAll args) ++ ")"
  | .literal value => value.print
  | .group inner => "[" ++ inner.print ++ "]"

def Expr.printAll : List (Expr H) -> List String
  | [] => []
  | e :: rest => e.print :: Expr.printAll rest

def Stmt.print : Stmt H -> String
  | .branch condition onTrue onFalse =>
      "if " ++ condition.print ++ " " ++ onTrue.print ++ " else " ++ onFalse.print
  | .loop condition body => "while " ++ condition.print ++ " " ++ body.print
  | .expr value => value.print ++ "."
  | .block [] => "\x7b\x7d"
  | .block (first :: rest) =>
      "\x7b " ++ " ".intercalate (first.print :: Stmt.printAll rest) ++ " \x7d"
  | .define name params body =>
      "func " ++ name ++ "(" ++ ", ".intercalate params ++ ") " ++ body.print

def Stmt.printAll : List (Stmt H) -> List String
  | [] => []
  | s :: rest => s.print :: Stmt.printAll rest

end

theorem Expr.printAll_eq_map (es : List (Expr H)) :
    Expr.printAll es = es.map Expr.print := by
  induction es with
  | nil => rfl
  | cons e rest ih => simp [Expr.printAll, ih]

theorem Stmt.printAll_eq_map (body : List (Stmt H)) :
    Stmt.printAll body = body.map Stmt.print := by
  induction body with
  | nil => rfl
  | cons s rest ih => simp [Stmt.printAll, ih]

end Lisan
