import Lisan.Parsing

/-!
# Parsing expressions

One function for each level of precedence, from assignment, which binds least, down to the
primary expressions. Each level is given what parses a whole expression, for what stands
in parentheses or to the right of an equals sign.
-/

namespace Lisan
namespace Parsing

variable {H : Type}

/-- An integer, a text, a name, or an expression in parentheses. The token is taken before
it is judged. A parenthesis that is not closed is itself to blame. -/
def primary (inner : Parsing (Expr H)) : Parsing (Expr H) := do
  let token := (<- get).peek
  consume
  match token.kind with
  | .int value => return .literal (.int value)
  | .str text => return .literal (.str text)
  | .name name => return .var name
  | .openParen =>
      let e <- inner
      if (<- accept .closeParen) then
        return .group e
      else
        throw (.unexpected token)
  | _ => throw (.unexpected token)

def call (inner : Parsing (Expr H)) (bound : Nat) : Parsing (Expr H) := do
  let callee <- primary inner
  if (<- accept .openParen) then
    let args <- items inner bound
    expect .closeParen
    return .call callee args
  else
    return callee

def unary (inner : Parsing (Expr H)) (bound : Nat) : Nat -> Parsing (Expr H)
  | 0 => throw .tooDeep
  | depth + 1 => do
      if (<- acceptAny [.bang, .minus]) then
        let operator := (<- get).previous
        let operand <- unary inner bound depth
        return .unary operator operand
      else
        call inner bound

def chainFrom (operators : List Token.Kind) (operand : Parsing (Expr H)) :
    Nat -> Expr H -> Parsing (Expr H)
  | 0, _ => throw .tooDeep
  | bound + 1, left => do
      if (<- acceptAny operators) then
        let operator := (<- get).previous
        let right <- operand
        chainFrom operators operand bound (.binary left operator right)
      else
        return left

def chain (operators : List Token.Kind) (operand : Parsing (Expr H)) (bound : Nat) :
    Parsing (Expr H) := do
  let first <- operand
  chainFrom operators operand bound first

def factor (inner : Parsing (Expr H)) (bound : Nat) : Parsing (Expr H) :=
  chain [.star, .slash] (unary inner bound bound) bound

def term (inner : Parsing (Expr H)) (bound : Nat) : Parsing (Expr H) :=
  chain [.plus, .minus] (factor inner bound) bound

def comparison (inner : Parsing (Expr H)) (bound : Nat) : Parsing (Expr H) :=
  chain [.greater, .greaterEqual, .less, .lessEqual] (term inner bound) bound

def equality (inner : Parsing (Expr H)) (bound : Nat) : Parsing (Expr H) :=
  chain [.equal, .notEqual] (comparison inner bound) bound

def assignTo (left : Expr H) (sign : Token) (value : Expr H) : Parsing (Expr H) :=
  match left with
  | .var name => return .assign name value
  | _ => throw (.unexpected sign)

/-- An equality, or an assignment to one. The right side is parsed before the left side is
judged. -/
def assignment (inner : Parsing (Expr H)) (bound : Nat) : Parsing (Expr H) := do
  let left <- equality inner bound
  if (<- accept .assign) then
    let sign := (<- get).previous
    let value <- inner
    assignTo left sign value
  else
    return left

def expression : Nat -> Parsing (Expr H)
  | 0 => throw .tooDeep
  | depth + 1 => assignment (expression depth) (depth + 1)

end Parsing
end Lisan
