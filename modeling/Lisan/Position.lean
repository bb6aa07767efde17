/-!
# Positions

A position is a line and a column of a text, both counted from one. A new line
starts behind each line feed; every other character is one column wide.
-/

namespace Lisan

structure Position where
  line : Int
  column : Int
deriving DecidableEq, Repr

namespace Position

def start : Position :=
  ⟨1, 1⟩

def next (p : Position) (c : Char) : Position :=
  if c = '\n' then ⟨p.line + 1, 1⟩ else ⟨p.line, p.column + 1⟩

def after (p : Position) (chars : List Char) : Position :=
  chars.foldl next p

@[simp] theorem after_nil (p : Position) : p.after [] = p :=
  rfl

@[simp] theorem after_cons (p : Position) (c : Char) (chars : List Char) :
    p.after (c :: chars) = (p.next c).after chars :=
  rfl

theorem after_append (p : Position) (front back : List Char) :
    p.after (front ++ back) = (p.after front).after back := by
  simp [after]

def text (p : Position) : String :=
  "[line " ++ toString p.line ++ " column " ++ toString p.column ++ "]"

end Position
end Lisan
