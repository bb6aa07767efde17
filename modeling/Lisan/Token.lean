import Lisan.Position
import Lisan.Script

/-!
# Tokens

The words of the language: what kinds there are, how each is spelled, and which
names are keywords.
-/

namespace Lisan

inductive Token.Kind where
  | eof
  | assign | equal
  | bang | notEqual
  | greater | greaterEqual
  | less | lessEqual
  | plus | minus | star | slash
  | dot | comma
  | openParen | closeParen
  | openBrace | closeBrace
  | ifWord | elseWord | whileWord | functionWord
  | int (value : Int)
  | str (text : String)
  | name (text : String)
deriving DecidableEq, Repr

structure Token where
  kind : Token.Kind
  start : Position
deriving DecidableEq, Repr

namespace Token
namespace Kind

/-- How a kind is written in a program text. The end of a text has no
characters; it is named instead. -/
def text : Kind -> String
  | eof => "Eof"
  | assign => "="
  | equal => "=="
  | bang => "!"
  | notEqual => "!="
  | greater => ">"
  | greaterEqual => ">="
  | less => "<"
  | lessEqual => "<="
  | plus => "+"
  | minus => "-"
  | star => "*"
  | slash => "/"
  | dot => "."
  | comma => ","
  | openParen => "("
  | closeParen => ")"
  | openBrace => "\x7b"
  | closeBrace => "\x7d"
  | ifWord => "لو"
  | elseWord => "غيرىذي"
  | whileWord => "طولما"
  | functionWord => "داله"
  | int value => toString value
  | str content => "\"" ++ content ++ "\""
  | name word => word

def keywords : List Kind :=
  [ifWord, elseWord, whileWord, functionWord]

/-- The keyword of which a text is the normal form, in whatever variant the
keyword itself is spelled. -/
def keyword? (word : String) : Option Kind :=
  keywords.find? fun k => Script.normalize k.text == word

def ofWord (word : String) : Kind :=
  (keyword? word).getD (name word)

end Kind

def isEof (t : Token) : Bool :=
  t.kind == .eof

def text (t : Token) : String :=
  if t.isEof then t.kind.text else "`" ++ t.kind.text ++ "`"

end Token
end Lisan
