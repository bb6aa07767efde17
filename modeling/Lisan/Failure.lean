import Lisan.Operator
import Lisan.Program
import Lisan.Tree.Printer

/-!
# Failures

All the reasons for which a program does not end with a value, and the wording
of each.
-/

namespace Lisan

variable {H : Type}

def RuntimeError.message : RuntimeError H -> String
  | notCallable value =>
      "Value " ++ value.display ++ " of type " ++ value.typeName ++ " is not callable"
  | unexpectedValue value =>
      "Unexpected value " ++ value.print ++ " of type " ++ value.typeName
  | divisionByZero => "Division by zero"
  | overflow operator => "Integer overflow in " ++ operator.text

def Operator.Family.text : Operator.Family -> String
  | unary => "a unary operator"
  | binary => "a binary operator"
  | integer => "an integer operator"
  | comparison => "a comparison operator"

/-- The wording of a halt. A token in the place of an operator can only stand in
a tree that was read from no text, so that wording speaks to programmers. -/
def Halt.message : Halt H -> String
  | error e => e.message
  | noOperator family kind =>
      "internal error: entered unreachable code: Internal error: " ++ kind.text ++
        " is not " ++ family.text
  | outOfFuel => "The run took too long"

inductive FileError where
  | missing
  | directory
  | notText
  | other (reason : String)
deriving DecidableEq, Repr

def FileError.message : FileError -> String
  | missing => "No such file or directory (os error 2)"
  | directory => "Is a directory (os error 21)"
  | notText => "stream did not contain valid UTF-8"
  | other reason => reason

inductive Failure (H : Type) where
  | scan (e : Token.ScanError)
  | parse (e : SyntaxError)
  | halt (h : Halt H)
  | file (e : FileError)

def Failure.message : Failure H -> String
  | scan e => e.message
  | parse e => e.message
  | halt h => h.message
  | file e => "IO error: " ++ e.message

end Lisan
