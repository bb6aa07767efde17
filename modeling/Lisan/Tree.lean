import Lisan.Token

/-!
# Trees

Values, expressions and statements. The three refer to each other: a function
value holds the statement that is its body, and a literal holds a value. A host
function is known by its parameters and by a handle of type `H`; what it does is
given where trees are run.
-/

namespace Lisan

mutual

inductive Value (H : Type) where
  | str (text : String)
  | int (value : Int)
  | function (params : List String) (body : Stmt H)
  | native (params : List String) (handle : H)

inductive Expr (H : Type) where
  | assign (target : String) (value : Expr H)
  | var (name : String)
  | binary (left : Expr H) (operator : Token) (right : Expr H)
  | unary (operator : Token) (operand : Expr H)
  | call (callee : Expr H) (args : List (Expr H))
  | literal (value : Value H)
  | group (inner : Expr H)

inductive Stmt (H : Type) where
  | branch (condition : Expr H) (onTrue onFalse : Stmt H)
  | loop (condition : Expr H) (body : Stmt H)
  | expr (value : Expr H)
  | block (body : List (Stmt H))
  | define (name : String) (params : List String) (body : Stmt H)

end

end Lisan
