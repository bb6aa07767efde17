import Lisan.Parsing.Statement
import Lisan.Token.Cursor

/-!
# Programs

From the tokens of a text, or from the text itself, to the tree of the program.
The tree of a program is the block of its statements.
-/

namespace Lisan
namespace Program

variable {H : Type}

def ofTokens (tokens : List Token) : Except SyntaxError (Stmt H) :=
  match Parsing.program (tokens.length + 1) (Parser.ofTokens tokens) with
  | .ok body _ => .ok (.block body)
  | .error e _ => .error e

end Program
end Lisan
