import Lisan.Token.Cursor
import Mathlib.Data.List.Infix

/-!
# Lexemes

Which characters spell which token, apart from any scanner, and how a text is cut
into lexemes: each is the longest one that begins at its place. A lexeme that spells
no token has a flaw instead, and the first flaw of a text is that of the whole.
-/

namespace Lisan
namespace Token

def signs : List Kind :=
  [.assign, .equal, .bang, .notEqual, .greater, .greaterEqual, .less, .lessEqual,
    .plus, .minus, .star, .slash, .dot, .comma, .openParen, .closeParen, .openBrace,
    .closeBrace]

inductive Worded : List Char -> Prop where
  | intro {c : Char} {rest : List Char} :
      Script.isLetter c = true -> (forall d, d ∈ rest -> Script.isWordChar d = true) ->
      Worded (c :: rest)

inductive Numbered : List Char -> Prop where
  | intro {c : Char} {rest : List Char} :
      Script.isDigit c = true -> (forall d, d ∈ rest -> Script.isDigit d = true) ->
      Numbered (c :: rest)

def normal (chars : List Char) : String :=
  Script.normalize (String.ofList chars)

def numeral (chars : List Char) : Int :=
  Integer.ofDigits (normal chars).toList

structure Strange (c : Char) : Prop where
  notBlank : Script.isBlank c = false
  notSign : forall kind, kind ∈ signs -> kind.text.toList.head? ≠ some c
  notQuote : c ≠ '"'
  notLetter : Script.isLetter c = false
  notDigit : Script.isDigit c = false

/-- What characters spell: a token, or a flaw. -/
inductive Spells : List Char -> Except Flaw Kind -> Prop where
  | sign {kind : Kind} : kind ∈ signs -> Spells kind.text.toList (.ok kind)
  | quoted {body : List Char} :
      '"' ∉ body -> Spells ('"' :: (body ++ ['"'])) (.ok (.str (String.ofList body)))
  | unterminated {body : List Char} :
      '"' ∉ body -> Spells ('"' :: body) (.error .unterminatedString)
  | keyword {chars : List Char} {kind : Kind} :
      Worded chars -> kind ∈ Kind.keywords ->
      normal chars = Script.normalize kind.text -> Spells chars (.ok kind)
  | name {chars : List Char} :
      Worded chars ->
      (forall kind, kind ∈ Kind.keywords -> normal chars ≠ Script.normalize kind.text) ->
      Spells chars (.ok (.name (normal chars)))
  | number {chars : List Char} :
      Numbered chars -> Integer.InRange (numeral chars) ->
      Spells chars (.ok (.int (numeral chars)))
  | largeNumber {chars : List Char} :
      Numbered chars -> Not (Integer.InRange (numeral chars)) ->
      Spells chars (.error (.numberOutOfRange (normal chars)))
  | strange {c : Char} : Strange c -> Spells [c] (.error (.unknownCharacter c))

/-- The longest lexeme at the head of a text, what it spells, and what is behind. -/
structure Longest (chars rest : List Char) (meaning : Except Flaw Kind) : Prop where
  spells : Spells chars meaning
  longest : forall ⦃other : List Char⦄ ⦃meant : Except Flaw Kind⦄,
    Spells other meant -> other <+: chars ++ rest -> other.length ≤ chars.length

def Blank (chars : List Char) : Prop :=
  forall c, c ∈ chars -> Script.isBlank c = true

/-- A text that begins at a place, cut into blanks and longest lexemes, and its tokens,
of which the last marks the end. -/
inductive Cut : Position -> List Char -> List Token -> Prop where
  | done {place : Position} {blanks : List Char} :
      Blank blanks -> Cut place blanks [⟨.eof, place.after blanks⟩]
  | lexeme {place : Position} {blanks chars rest : List Char} {kind : Kind}
      {tokens : List Token} :
      Blank blanks -> Longest chars rest (.ok kind) ->
      Cut (place.after (blanks ++ chars)) rest tokens ->
      Cut place (blanks ++ (chars ++ rest)) (⟨kind, place.after blanks⟩ :: tokens)

/-- A text that begins at a place, cut up to the first longest lexeme that spells no
token, and the flaw of that. -/
inductive Fails : Position -> List Char -> ScanError -> Prop where
  | flaw {place : Position} {blanks chars rest : List Char} {flaw : Flaw} :
      Blank blanks -> Longest chars rest (.error flaw) ->
      Fails place (blanks ++ (chars ++ rest)) ⟨place.after blanks, flaw⟩
  | later {place : Position} {blanks chars rest : List Char} {kind : Kind}
      {e : ScanError} :
      Blank blanks -> Longest chars rest (.ok kind) ->
      Fails (place.after (blanks ++ chars)) rest e ->
      Fails place (blanks ++ (chars ++ rest)) e

end Token
end Lisan
