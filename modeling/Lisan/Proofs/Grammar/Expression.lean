import Lisan.Proofs.Grammar.Reader

/-!
# Reading expressions

One reader for each level of precedence, from assignment, which binds least,
down to the primary expressions. Each level is given the reader of a whole
expression, for what stands in parentheses or to the right of an equals sign,
and a bound on how often it may repeat itself. A bound above the number of
tokens left is never reached.
-/

namespace Lisan
namespace Grammar

variable {H : Type}

/-!
## Operators of each level
-/

def isEquality : Token.Kind -> Bool
  | .equal | .notEqual => true
  | _ => false

def isComparison : Token.Kind -> Bool
  | .greater | .greaterEqual | .less | .lessEqual => true
  | _ => false

def isAdditive : Token.Kind -> Bool
  | .plus | .minus => true
  | _ => false

def isMultiplicative : Token.Kind -> Bool
  | .star | .slash => true
  | _ => false

def isUnary : Token.Kind -> Bool
  | .bang | .minus => true
  | _ => false

/-!
## Levels of precedence
-/

def grouping (opening : Token) (inner : Reader (Expr H)) : Reader (Expr H) := do
  let e <- inner
  if (<- Reader.accept .closeParen) then
    return .group e
  else
    throw (.unexpected opening)

def primary (inner : Reader (Expr H)) : Reader (Expr H) :=
  fun tokens =>
    match tokens with
    | ⟨.int value, _⟩ :: rest => .ok (.literal (.int value)) rest
    | ⟨.str text, _⟩ :: rest => .ok (.literal (.str text)) rest
    | ⟨.name name, _⟩ :: rest => .ok (.var name) rest
    | ⟨.openParen, place⟩ :: rest => grouping ⟨.openParen, place⟩ inner rest
    | tokens => Reader.refuse tokens

def call (inner : Reader (Expr H)) (bound : Nat) : Reader (Expr H) := do
  let callee <- primary inner
  if (<- Reader.accept .openParen) then
    let args <- Reader.items inner bound
    return .call callee args
  else
    return callee

def unary (inner : Reader (Expr H)) (bound : Nat) : Nat -> Reader (Expr H)
  | 0 => throw .tooDeep
  | depth + 1 => do
      match (<- Reader.take? isUnary) with
      | some operator =>
          let operand <- unary inner bound depth
          return .unary operator operand
      | none => call inner bound

def chainFrom (level : Token.Kind -> Bool) (operand : Reader (Expr H)) :
    Nat -> Expr H -> Reader (Expr H)
  | 0, _ => throw .tooDeep
  | bound + 1, left => do
      match (<- Reader.take? level) with
      | some operator =>
          let right <- operand
          chainFrom level operand bound (.binary left operator right)
      | none => return left

def chain (level : Token.Kind -> Bool) (operand : Reader (Expr H)) (bound : Nat) :
    Reader (Expr H) := do
  let first <- operand
  chainFrom level operand bound first

def factor (inner : Reader (Expr H)) (bound : Nat) : Reader (Expr H) :=
  chain isMultiplicative (unary inner bound bound) bound

def term (inner : Reader (Expr H)) (bound : Nat) : Reader (Expr H) :=
  chain isAdditive (factor inner bound) bound

def comparison (inner : Reader (Expr H)) (bound : Nat) : Reader (Expr H) :=
  chain isComparison (term inner bound) bound

def equality (inner : Reader (Expr H)) (bound : Nat) : Reader (Expr H) :=
  chain isEquality (comparison inner bound) bound

def assignTo (left : Expr H) (sign : Token) (value : Expr H) : Reader (Expr H) :=
  match left with
  | .var name => return .assign name value
  | _ => throw (.unexpected sign)

def assignment (inner : Reader (Expr H)) (bound : Nat) : Reader (Expr H) := do
  let left <- equality inner bound
  match (<- Reader.take? (· == .assign)) with
  | some sign =>
      let value <- inner
      assignTo left sign value
  | none => return left

def expression : Nat -> Reader (Expr H)
  | 0 => throw .tooDeep
  | depth + 1 => assignment (expression depth) (depth + 1)

end Grammar
end Lisan
