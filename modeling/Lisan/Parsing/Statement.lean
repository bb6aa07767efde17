import Lisan.Parsing.Expression

/-!
# Parsing statements

Declarations, branches, loops and blocks end with their closing brace, and an expression
is made a statement by the full stop behind it.
-/

namespace Lisan
namespace Parsing

variable {H : Type}

def blockEnds (parser : Parser) : Bool :=
  parser.isNext .closeBrace || parser.atEnd

def block (inner : Parsing (Stmt H)) (bound : Nat) : Parsing (Stmt H) := do
  let body <- manyUntil blockEnds inner bound
  expect .closeBrace
  return .block body

def declaration (inner : Parsing (Stmt H)) (bound : Nat) : Parsing (Stmt H) := do
  let name <- expectName
  expect .openParen
  let params <- items expectName bound
  expect .closeParen
  expect .openBrace
  let body <- block inner bound
  return .define name params body

/-- The other side of a branch. One that is missing is an empty block. -/
def otherwise (inner : Parsing (Stmt H)) (bound : Nat) : Parsing (Stmt H) := do
  if (<- accept .elseWord) then
    expect .openBrace
    block inner bound
  else
    return .block []

def branch (inner : Parsing (Stmt H)) (bound : Nat) : Parsing (Stmt H) := do
  let condition <- expression bound
  expect .openBrace
  let onTrue <- block inner bound
  let onFalse <- otherwise inner bound
  return .branch condition onTrue onFalse

def loop (inner : Parsing (Stmt H)) (bound : Nat) : Parsing (Stmt H) := do
  let condition <- expression bound
  expect .openBrace
  let body <- block inner bound
  return .loop condition body

def simple (bound : Nat) : Parsing (Stmt H) := do
  let e <- expression bound
  expect .dot
  return .expr e

def statement : Nat -> Parsing (Stmt H)
  | 0 => throw .tooDeep
  | depth + 1 => do
      if (<- accept .functionWord) then
        declaration (statement depth) (depth + 1)
      else if (<- accept .ifWord) then
        branch (statement depth) (depth + 1)
      else if (<- accept .whileWord) then
        loop (statement depth) (depth + 1)
      else if (<- accept .openBrace) then
        block (statement depth) (depth + 1)
      else
        simple (depth + 1)

def program (bound : Nat) : Parsing (List (Stmt H)) :=
  manyUntil Parser.atEnd (statement bound) bound

end Parsing
end Lisan
