import Lisan.Proofs.Grammar.Expression

/-!
# Reading statements

Declarations, branches, loops and blocks end with their closing brace, and an
expression is made a statement by the full stop behind it.
-/

namespace Lisan
namespace Grammar

variable {H : Type}

def blockEnds : Reader Bool := do
  return (<- Reader.isNext .closeBrace) || (<- Reader.atEnd)

def blockRest (inner : Reader (Stmt H)) (bound : Nat) : Reader (Stmt H) := do
  let body <- Reader.manyUntil blockEnds inner bound
  Reader.expect .closeBrace
  return .block body

def block (inner : Reader (Stmt H)) (bound : Nat) : Reader (Stmt H) := do
  Reader.expect .openBrace
  blockRest inner bound

def declaration (inner : Reader (Stmt H)) (bound : Nat) : Reader (Stmt H) := do
  let name <- Reader.expectName
  Reader.expect .openParen
  let params <- Reader.items Reader.expectName bound
  let body <- block inner bound
  return .define name params body

def otherwise (inner : Reader (Stmt H)) (bound : Nat) : Reader (Stmt H) := do
  if (<- Reader.accept .elseWord) then
    block inner bound
  else
    return .block []

def branch (inner : Reader (Stmt H)) (bound : Nat) : Reader (Stmt H) := do
  let condition <- expression bound
  let onTrue <- block inner bound
  let onFalse <- otherwise inner bound
  return .branch condition onTrue onFalse

def loop (inner : Reader (Stmt H)) (bound : Nat) : Reader (Stmt H) := do
  let condition <- expression bound
  let body <- block inner bound
  return .loop condition body

def simple (bound : Nat) : Reader (Stmt H) := do
  let e <- expression bound
  Reader.expect .dot
  return .expr e

def statement : Nat -> Reader (Stmt H)
  | 0 => throw .tooDeep
  | depth + 1 =>
      let inner := statement depth
      fun tokens =>
        match tokens with
        | ⟨.functionWord, _⟩ :: rest => declaration inner (depth + 1) rest
        | ⟨.ifWord, _⟩ :: rest => branch inner (depth + 1) rest
        | ⟨.whileWord, _⟩ :: rest => loop inner (depth + 1) rest
        | ⟨.openBrace, _⟩ :: rest => blockRest inner (depth + 1) rest
        | tokens => simple (depth + 1) tokens

def program (bound : Nat) : Reader (List (Stmt H)) :=
  Reader.manyUntil Reader.atEnd (statement bound) bound

end Grammar
end Lisan
