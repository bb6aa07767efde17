import Lisan.Tree

/-!
# Readers

A reader takes tokens off the front of a list. The list holds no mark of the
end: where it is empty the text has ended, and no reader gets past that. A
reader that fails leaves the tokens as they were where its last test was made.

Readers are what is left of parsing when only the tokens ahead are looked at. The
grammar is stated of them, and each function of the parser agrees with one.
-/

namespace Lisan
namespace Grammar

/-- Why a reader stopped: at a token that cannot stand there, at the end of the
text where more had to come, or because it was not allowed to go deeper. -/
inductive Stop where
  | unexpected (token : Token)
  | unexpectedEnd
  | tooDeep
deriving DecidableEq, Repr

abbrev Reader :=
  EStateM Stop (List Token)

namespace Reader

def refuse (tokens : List Token) : EStateM.Result Stop (List Token) α :=
  match tokens with
  | [] => .error .unexpectedEnd []
  | token :: rest => .error (.unexpected token) (token :: rest)

def take? (wanted : Token.Kind -> Bool) : Reader (Option Token) :=
  fun tokens =>
    match tokens with
    | [] => .ok none []
    | token :: rest =>
        if wanted token.kind then .ok (some token) rest
        else .ok none (token :: rest)

def accept (wanted : Token.Kind) : Reader Bool := do
  let token <- take? (· == wanted)
  return token.isSome

def expect (wanted : Token.Kind) : Reader Unit :=
  fun tokens =>
    match tokens with
    | [] => refuse []
    | token :: rest => if token.kind == wanted then .ok () rest else refuse (token :: rest)

def expectName : Reader String :=
  fun tokens =>
    match tokens with
    | ⟨.name name, _⟩ :: rest => .ok name rest
    | tokens => refuse tokens

def atEnd : Reader Bool := do
  return (<- get).isEmpty

def isNext (wanted : Token.Kind) : Reader Bool := do
  return (<- get).head?.any (·.kind == wanted)

def manyUntil (stop : Reader Bool) (item : Reader α) : Nat -> Reader (List α)
  | 0 => throw .tooDeep
  | bound + 1 => do
      if (<- stop) then
        return []
      else
        let first <- item
        let others <- manyUntil stop item bound
        return first :: others

def moreItems (item : Reader α) : Nat -> Reader (List α)
  | 0 => throw .tooDeep
  | bound + 1 => do
      if (<- accept .comma) then
        let first <- item
        let others <- moreItems item bound
        return first :: others
      else
        return []

def items (item : Reader α) (bound : Nat) : Reader (List α) := do
  if (<- accept .closeParen) then
    return []
  else
    let first <- item
    let others <- moreItems item bound
    expect .closeParen
    return first :: others

end Reader
end Grammar
end Lisan
