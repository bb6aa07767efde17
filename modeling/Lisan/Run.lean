import Lisan.Operator
import Lisan.Store

/-!
# Runs

What a tree does to the state of a run, and the value or the halt that it ends
with. An error keeps all that was done before it. Fuel bounds how deep
evaluation is nested and how often a loop is repeated; fuel that suffices does
not show in the outcome.
-/

namespace Lisan

/-- What a run works on: the store, and all that was said so far. -/
structure State (H : Type) where
  store : Store H
  said : Array String

abbrev Host (H : Type) :=
  H -> State H -> Value H × State H

abbrev Run (H : Type) :=
  EStateM (Halt H) (State H)

namespace Run

variable {H : Type}

def initial (store : Store H) : State H :=
  ⟨store, #[]⟩

def ofExcept : Except (Halt H) α -> Run H α
  | .ok value => pure value
  | .error halt => throw halt

def assign (name : String) (value : Value H) : Run H Unit :=
  modify fun state => { state with store := state.store.assign name value }

def callHost (host : Host H) (handle : H) : Run H (Value H) :=
  modifyGet (host handle)

/-- Gives each parameter the value of the argument in its place, one by one.
Arguments beyond the parameters are evaluated all the same, and parameters
beyond the arguments keep the values they have. -/
def bindArguments (evaluate : Expr H -> Run H (Value H)) :
    List String -> List (Expr H) -> Run H Unit
  | _, [] => return ()
  | [], arg :: args => do
      let _ <- evaluate arg
      bindArguments evaluate [] args
  | param :: params, arg :: args => do
      let value <- evaluate arg
      assign param value
      bindArguments evaluate params args

/-- Runs a body as long as a condition is true, at most as often as the bound.
The value is that of the last round. -/
def repeatWhile (condition body : Run H (Value H)) : Nat -> Value H -> Run H (Value H)
  | 0, _ => throw .outOfFuel
  | rounds + 1, last => do
      let test <- condition
      if test.truthy then
        let value <- body
        repeatWhile condition body rounds value
      else
        return last

def sequence (execute : Stmt H -> Run H (Value H)) :
    List (Stmt H) -> Value H -> Run H (Value H)
  | [], last => return last
  | s :: rest, _ => do
      let value <- execute s
      sequence execute rest value

end Run

variable {H : Type}

mutual

def Expr.eval (host : Host H) : Nat -> Expr H -> Run H (Value H)
  | 0, _ => throw .outOfFuel
  | fuel + 1, e =>
      match e with
      | .literal value => return value
      | .var name => return (<- get).store.get name
      | .assign target value => do
          let result <- value.eval host fuel
          Run.assign target result
          return result
      | .group inner => inner.eval host fuel
      | .unary operator operand => do
          let value <- operand.eval host fuel
          Run.ofExcept (Operator.unary operator.kind value)
      | .binary left operator right => do
          let leftValue <- left.eval host fuel
          let rightValue <- right.eval host fuel
          Run.ofExcept (Operator.binary leftValue operator.kind rightValue)
      | .call callee args => do
          match (<- callee.eval host fuel) with
          | .function params body =>
              Run.bindArguments (Expr.eval host fuel) params args
              body.exec host fuel
          | .native params handle =>
              Run.bindArguments (Expr.eval host fuel) params args
              Run.callHost host handle
          | value => throw (.error (.notCallable value))

def Stmt.exec (host : Host H) : Nat -> Stmt H -> Run H (Value H)
  | 0, _ => throw .outOfFuel
  | fuel + 1, s =>
      match s with
      | .expr value => value.eval host fuel
      | .branch condition onTrue onFalse => do
          let test <- condition.eval host fuel
          if test.truthy || (<- get).store.overrideActive then
            onTrue.exec host fuel
          else
            onFalse.exec host fuel
      | .loop condition body =>
          Run.repeatWhile (condition.eval host fuel) (body.exec host fuel) fuel .default
      | .block body => Run.sequence (Stmt.exec host fuel) body .default
      | .define name params body => do
          let function := .function params body
          Run.assign name function
          return function

end

end Lisan
