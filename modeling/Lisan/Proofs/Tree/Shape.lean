import Lisan.Proofs.Operator.Rules

/-!
# Well-formed trees

A tree is well-formed if all that stands in the place of an operator is one, here
and in the bodies of all functions that the tree holds. What else is asked of the
bodies and of the handles of host functions is left open.
-/

namespace Lisan

variable {H : Type}

/-- What is asked of bodies and of handles. -/
structure Shape (H : Type) where
  body : Stmt H -> Prop
  handle : H -> Prop

mutual

inductive Value.Formed (shape : Shape H) : Value H -> Prop where
  | str (text : String) : Value.Formed shape (.str text)
  | int (n : Int) : Value.Formed shape (.int n)
  | function {params : List String} {body : Stmt H} :
      shape.body body -> Stmt.Formed shape body -> Value.Formed shape (.function params body)
  | native {params : List String} {handle : H} :
      shape.handle handle -> Value.Formed shape (.native params handle)

inductive Expr.Formed (shape : Shape H) : Expr H -> Prop where
  | assign {target : String} {value : Expr H} :
      Expr.Formed shape value -> Expr.Formed shape (.assign target value)
  | var (name : String) : Expr.Formed shape (.var name)
  | binary {left right : Expr H} {operator : Token} :
      Expr.Formed shape left -> operator.kind ∈ Operator.binarySigns ->
      Expr.Formed shape right -> Expr.Formed shape (.binary left operator right)
  | unary {operator : Token} {operand : Expr H} :
      operator.kind ∈ Operator.unarySigns -> Expr.Formed shape operand ->
      Expr.Formed shape (.unary operator operand)
  | call {callee : Expr H} {args : List (Expr H)} :
      Expr.Formed shape callee -> (forall arg, arg ∈ args -> Expr.Formed shape arg) ->
      Expr.Formed shape (.call callee args)
  | literal {value : Value H} :
      Value.Formed shape value -> Expr.Formed shape (.literal value)
  | group {inner : Expr H} :
      Expr.Formed shape inner -> Expr.Formed shape (.group inner)

inductive Stmt.Formed (shape : Shape H) : Stmt H -> Prop where
  | branch {condition : Expr H} {onTrue onFalse : Stmt H} :
      Expr.Formed shape condition -> shape.body onTrue -> Stmt.Formed shape onTrue ->
      shape.body onFalse -> Stmt.Formed shape onFalse ->
      Stmt.Formed shape (.branch condition onTrue onFalse)
  | loop {condition : Expr H} {body : Stmt H} :
      Expr.Formed shape condition -> shape.body body -> Stmt.Formed shape body ->
      Stmt.Formed shape (.loop condition body)
  | expr {value : Expr H} :
      Expr.Formed shape value -> Stmt.Formed shape (.expr value)
  | block {body : List (Stmt H)} :
      (forall s, s ∈ body -> Stmt.Formed shape s) -> Stmt.Formed shape (.block body)
  | define {name : String} {params : List String} {body : Stmt H} :
      shape.body body -> Stmt.Formed shape body ->
      Stmt.Formed shape (.define name params body)

end

inductive Stmt.IsBlock : Stmt H -> Prop where
  | intro (body : List (Stmt H)) : Stmt.IsBlock (.block body)

def Shape.operators (handle : H -> Prop) : Shape H :=
  ⟨fun _ => True, handle⟩

def Shape.blocks (handle : H -> Prop) : Shape H :=
  ⟨Stmt.IsBlock, handle⟩

variable {shape : Shape H}

theorem Value.formed_default : (Value.default : Value H).Formed shape :=
  .int 1000

end Lisan
