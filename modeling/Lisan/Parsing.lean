import Lisan.Tree

/-!
# Parsing

A parser goes through a list of tokens from the front, and never back. It does not go
behind a mark of the end. Where the list has none, the parser sees one behind the last
token. The first token that cannot stand where it does ends the parsing.
-/

namespace Lisan

inductive SyntaxError where
  | unexpected (token : Token)
  | tooDeep
deriving DecidableEq, Repr

def SyntaxError.message : SyntaxError -> String
  | unexpected token => token.start.text ++ " Unexpected token " ++ token.text
  | tooDeep => "The program is nested too deeply"

/-- A place in a list of tokens: how many of them were taken, and the token that is seen
where there is none. -/
structure Parser where
  tokens : Array Token
  current : Nat
  fallback : Token
deriving DecidableEq, Repr

namespace Parser

/-- A parser that has taken no token yet. A mark of the end that is missing is seen in the
place of the last token. -/
def ofTokens (tokens : List Token) : Parser :=
  ⟨tokens.toArray, 0, ⟨.eof, (tokens.getLast?.map Token.start).getD .start⟩⟩

def peek (parser : Parser) : Token :=
  parser.tokens[parser.current]?.getD parser.fallback

def previous (parser : Parser) : Token :=
  match parser.current with
  | 0 => parser.fallback
  | last + 1 => parser.tokens[last]?.getD parser.fallback

def atEnd (parser : Parser) : Bool :=
  parser.peek.isEof

def advance (parser : Parser) : Parser :=
  { parser with current := parser.current + 1 }

def isNext (wanted : Token.Kind) (parser : Parser) : Bool :=
  parser.peek.kind == wanted

end Parser

abbrev Parsing :=
  EStateM SyntaxError Parser

namespace Parsing

def consume : Parsing Unit := do
  unless (<- get).atEnd do
    modify Parser.advance

def refuse : Parsing α := do
  throw (.unexpected (<- get).peek)

def accept (wanted : Token.Kind) : Parsing Bool := do
  if (<- get).isNext wanted then
    consume
    return true
  else
    return false

def acceptAny : List Token.Kind -> Parsing Bool
  | [] => return false
  | wanted :: others => do
      if (<- accept wanted) then
        return true
      else
        acceptAny others

def expect (wanted : Token.Kind) : Parsing Unit := do
  if (<- accept wanted) then
    return ()
  else
    refuse

def expectName : Parsing String := do
  match (<- get).peek.kind with
  | .name name =>
      consume
      return name
  | _ => refuse

/-!
## Rows

Whatever is repeated is repeated at most as often as a bound says. A bound above the
number of tokens is never reached.
-/

def manyUntil (stop : Parser -> Bool) (item : Parsing α) : Nat -> Parsing (List α)
  | 0 => throw .tooDeep
  | bound + 1 => do
      if stop (<- get) then
        return []
      else
        let first <- item
        let others <- manyUntil stop item bound
        return first :: others

def moreItems (item : Parsing α) : Nat -> Parsing (List α)
  | 0 => throw .tooDeep
  | bound + 1 => do
      if (<- accept .comma) then
        let first <- item
        let others <- moreItems item bound
        return first :: others
      else
        return []

def items (item : Parsing α) (bound : Nat) : Parsing (List α) := do
  if (<- get).isNext .closeParen then
    return []
  else
    let first <- item
    let others <- moreItems item bound
    return first :: others

end Parsing
end Lisan
