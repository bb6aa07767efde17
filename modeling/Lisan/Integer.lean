/-!
# Integers

The integers of the language are those of 64 bits with a sign. They are held as
unbounded integers beside a range, so that arithmetic is exact and only the
range test decides what is too large.
-/

namespace Lisan
namespace Integer

def least : Int :=
  -9223372036854775808

def greatest : Int :=
  9223372036854775807

def InRange (n : Int) : Prop :=
  least ≤ n ∧ n ≤ greatest

instance (n : Int) : Decidable (InRange n) :=
  inferInstanceAs (Decidable (least ≤ n ∧ n ≤ greatest))

/-- An exact result, if the language has that integer. -/
def fit? (n : Int) : Option Int :=
  if InRange n then some n else none

theorem fit?_eq_some_iff {n m : Int} :
    fit? n = some m <-> InRange n ∧ n = m := by
  simp [fit?]

theorem fit?_eq_none_iff {n : Int} : fit? n = none <-> Not (InRange n) := by
  simp [fit?]

/-!
## Reading decimal text
-/

def ofDigits (digits : List Char) : Int :=
  Int.ofNat (Nat.ofDigitChars 10 digits 0)

def unsigned? (digits : List Char) : Option Int :=
  if digits.isEmpty then none
  else if digits.all Char.isDigit then some (ofDigits digits)
  else none

def signed? : List Char -> Option Int
  | '-' :: digits => (unsigned? digits).map fun n => -n
  | '+' :: digits => unsigned? digits
  | digits => unsigned? digits

/-- The integer of the language that a text spells in ASCII decimals. -/
def read? (text : String) : Option Int :=
  (signed? text.toList).bind fit?

end Integer
end Lisan
