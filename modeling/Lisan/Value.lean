import Lisan.Tree

/-!
# Values

Texts and integers have a textual form and are compared by it when they meet.
Functions have none, and equal nothing, not even themselves.
-/

namespace Lisan
namespace Value

variable {H : Type}

/-- The value of whatever has no value of its own: an unbound name, an empty
block, a loop that never ran. -/
def default : Value H :=
  .int 1000

def ofBool (b : Bool) : Value H :=
  if b then .int 1 else .int 0

/-- The empty text and zero are false, and nothing else is. -/
def truthy : Value H -> Bool
  | str text => text != ""
  | int value => value != 0
  | function _ _ => true
  | native _ _ => true

def text? : Value H -> Option String
  | str text => some text
  | int value => some (toString value)
  | function _ _ => none
  | native _ _ => none

def typeName : Value H -> String
  | str _ => "string"
  | int _ => "integer"
  | function _ _ => "function"
  | native _ _ => "native function"

def display : Value H -> String
  | str text => text
  | int value => toString value
  | function _ _ => "<function>"
  | native _ _ => "<native function>"

/-- Equality of the language: integers are equal to their decimal text, and
functions are equal to nothing. -/
def same : Value H -> Value H -> Bool
  | str left, str right => left == right
  | int left, int right => left == right
  | int left, str right => toString left == right
  | str left, int right => left == toString right
  | _, _ => false

theorem text?_eq_none_iff {v : Value H} :
    v.text? = none <->
      (exists params body, v = function params body) ∨
        (exists params handle, v = native params handle) := by
  cases v <;> simp [text?]

end Value
end Lisan
