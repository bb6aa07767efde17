import Lisan.Integer
import Lisan.Value

/-!
# Operators

What the operators do with values. Arithmetic is exact or an error; comparison
is between integers or between texts; and whatever is no text and no integer is
refused by name.
-/

namespace Lisan

inductive RuntimeError (H : Type) where
  | notCallable (value : Value H)
  | unexpectedValue (value : Value H)
  | divisionByZero
  | overflow (operator : Token.Kind)

inductive Operator.Family where
  | unary
  | binary
  | integer
  | comparison
deriving DecidableEq, Repr

/-- Why a run ends without a value: an error of the program, a token in the
place of an operator that is none, or too little fuel. -/
inductive Halt (H : Type) where
  | error (e : RuntimeError H)
  | noOperator (family : Operator.Family) (kind : Token.Kind)
  | outOfFuel

namespace Operator

variable {H : Type}

def exact (operator : Token.Kind) (n : Int) : Except (Halt H) (Value H) :=
  match Integer.fit? n with
  | some value => .ok (.int value)
  | none => .error (.error (.overflow operator))

/-- Negation. A text stands for the integer it spells, or for zero. -/
def negate : Value H -> Except (Halt H) (Value H)
  | .int n => exact .minus (-n)
  | .str text => exact .minus (-((Integer.read? text).getD 0))
  | value => .error (.error (.unexpectedValue value))

def unary (operator : Token.Kind) (operand : Value H) : Except (Halt H) (Value H) :=
  match operator with
  | .bang => .ok (.ofBool !operand.truthy)
  | .minus => negate operand
  | kind => .error (.noOperator .unary kind)

/-- The integers under an operator that works on nothing else. The left operand
is looked at first. -/
def integers (left right : Value H) : Except (Halt H) (Int × Int) :=
  match left, right with
  | .int n, .int m => .ok (n, m)
  | .int _, value => .error (.error (.unexpectedValue value))
  | value, _ => .error (.error (.unexpectedValue value))

def divide (left right : Int) : Except (Halt H) (Value H) :=
  if right = 0 then .error (.error .divisionByZero)
  else exact .slash (left.tdiv right)

inductive Pair where
  | ints (left right : Int)
  | texts (left right : String)

/-- Two integers stay integers; a text makes a text of the other operand. The
leftmost operand that has no text is refused. -/
def pair (left right : Value H) : Except (Halt H) Pair :=
  match left, right with
  | .int n, .int m => .ok (.ints n m)
  | left, right =>
      match left.text?, right.text? with
      | some s, some t => .ok (.texts s t)
      | none, _ => .error (.error (.unexpectedValue left))
      | some _, none => .error (.error (.unexpectedValue right))

def add : Pair -> Except (Halt H) (Value H)
  | .ints n m => exact .plus (n + m)
  | .texts s t => .ok (.str (s ++ t))

/-- Integers are ordered by size, and texts by their characters' code points,
the first difference deciding. -/
def Pair.order : Pair -> Ordering
  | .ints n m => compare n m
  | .texts s t => compare s t

def comparison (order : Ordering) : Token.Kind -> Except (Halt H) (Value H)
  | .greater => .ok (.ofBool order.isGT)
  | .greaterEqual => .ok (.ofBool order.isGE)
  | .less => .ok (.ofBool order.isLT)
  | .lessEqual => .ok (.ofBool order.isLE)
  | kind => .error (.noOperator .comparison kind)

def integer (left : Int) (operator : Token.Kind) (right : Int) :
    Except (Halt H) (Value H) :=
  match operator with
  | .minus => exact .minus (left - right)
  | .star => exact .star (left * right)
  | .slash => divide left right
  | kind => .error (.noOperator .integer kind)

def binary (left : Value H) (operator : Token.Kind) (right : Value H) :
    Except (Halt H) (Value H) :=
  match operator with
  | .equal => .ok (.ofBool (left.same right))
  | .notEqual => .ok (.ofBool !left.same right)
  | .plus => do add (<- pair left right)
  | .greater | .greaterEqual | .less | .lessEqual => do
      comparison (<- pair left right).order operator
  | .minus | .star | .slash => do
      let (n, m) <- integers left right
      integer n operator m
  | kind => .error (.noOperator .binary kind)

end Operator
end Lisan
