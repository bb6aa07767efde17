import Lisan.Integer
import Lisan.Token

/-!
# Cursors

A cursor takes tokens from a text one by one. It looks at most one character ahead
and holds that character back, it counts bytes and positions as it takes characters,
and it cuts lexemes out of the text by the bytes it has counted. Every step that meets
no end of text moves on, also one that fails, so a cursor can be used again after a
failure and a text is used up in finitely many steps.
-/

namespace Lisan
namespace Token

inductive Flaw where
  | unknownCharacter (c : Char)
  | unterminatedString
  | numberOutOfRange (digits : String)
deriving DecidableEq, Repr

structure ScanError where
  position : Position
  flaw : Flaw
deriving DecidableEq, Repr

namespace ScanError

def message (e : ScanError) : String :=
  e.position.text ++
    match e.flaw with
    | .unknownCharacter c => " Unknown character '" ++ c.toString ++ "'"
    | .unterminatedString => " Unterminated string"
    | .numberOutOfRange digits => " Integer literal " ++ digits ++ " is out of range"

end ScanError

def extensible? : Char -> Option (Kind × Kind)
  | '=' => some (.assign, .equal)
  | '!' => some (.bang, .notEqual)
  | '>' => some (.greater, .greaterEqual)
  | '<' => some (.less, .lessEqual)
  | _ => none

def symbol? : Char -> Option Kind
  | '+' => some .plus
  | '-' => some .minus
  | '*' => some .star
  | '/' => some .slash
  | '.' => some .dot
  | ',' => some .comma
  | '(' => some .openParen
  | ')' => some .closeParen
  | '\x7b' => some .openBrace
  | '\x7d' => some .closeBrace
  | _ => none

/-- A place in a text: the characters that the text has yet to give, the one that was
looked at and is held back, and where the lexeme at hand begins and the cursor stands,
in bytes and as positions. -/
structure Cursor where
  input : String
  chars : List Char
  peeked : Option Char
  startIndex : Nat
  index : Nat
  start : Position
  position : Position
deriving DecidableEq, Repr

namespace Cursor

def ofText (text : String) : Cursor :=
  ⟨text, text.toList, none, 0, 0, .start, .start⟩

def pending (cursor : Cursor) : List Char :=
  cursor.peeked.toList ++ cursor.chars

def advance (cursor : Cursor) (c : Char) : Cursor :=
  { cursor with
    index := cursor.index + c.utf8Size
    position := cursor.position.next c }

def consume (cursor : Cursor) : Option Char × Cursor :=
  match cursor.peeked, cursor.chars with
  | some c, _ => (some c, { cursor with peeked := none }.advance c)
  | none, c :: rest => (some c, { cursor with chars := rest }.advance c)
  | none, [] => (none, cursor)

/-- Looks at the next character, if there is one, and holds it back. -/
def peek (cursor : Cursor) : Option Char × Cursor :=
  match cursor.peeked, cursor.chars with
  | some c, _ => (some c, cursor)
  | none, c :: rest => (some c, { cursor with chars := rest, peeked := some c })
  | none, [] => (none, cursor)

@[simp] theorem consume_fst (cursor : Cursor) : cursor.consume.1 = cursor.pending.head? := by
  unfold consume pending
  split <;> simp_all

@[simp] theorem consume_pending (cursor : Cursor) :
    cursor.consume.2.pending = cursor.pending.tail := by
  unfold consume pending
  split <;> simp_all [advance]

@[simp] theorem peek_fst (cursor : Cursor) : cursor.peek.1 = cursor.pending.head? := by
  unfold peek pending
  split <;> simp_all

@[simp] theorem peek_pending (cursor : Cursor) : cursor.peek.2.pending = cursor.pending := by
  unfold peek pending
  split <;> simp_all

theorem length_tail_lt_of_head? {chars : List Char} {c : Char} (h : chars.head? = some c) :
    chars.tail.length < chars.length := by
  cases chars with
  | nil => cases h
  | cons _ rest => exact Nat.lt_succ_self rest.length

def consumeWhile (isOne : Char -> Bool) (cursor : Cursor) : Cursor :=
  match _ : cursor.peek.1 with
  | some c =>
      if isOne c then consumeWhile isOne cursor.peek.2.consume.2 else cursor.peek.2
  | none => cursor.peek.2
termination_by cursor.pending.length
decreasing_by
  rw [consume_pending, peek_pending]
  exact length_tail_lt_of_head? (by simpa using ‹cursor.peek.1 = some c›)

def expect (expected : Char) (cursor : Cursor) : Bool × Cursor :=
  if cursor.peek.1 = some expected then (true, cursor.peek.2.consume.2)
  else (false, cursor.peek.2)

def skipBlanks (cursor : Cursor) : Cursor :=
  let here := cursor.consumeWhile Script.isBlank
  { here with startIndex := here.index, start := here.position }

def slice (cursor : Cursor) (first last : Nat) : String :=
  String.Pos.Raw.extract cursor.input ⟨first⟩ ⟨last⟩

def text (cursor : Cursor) : String :=
  cursor.slice cursor.startIndex cursor.index

def token (cursor : Cursor) (kind : Kind) : Except ScanError Token :=
  .ok ⟨kind, cursor.start⟩

def flaw (cursor : Cursor) (flaw : Flaw) : Except ScanError Token :=
  .error ⟨cursor.start, flaw⟩

/-- A quoted text goes up to the next quote and is taken verbatim. -/
def scanQuoted (cursor : Cursor) : Except ScanError Token × Cursor :=
  match (cursor.consumeWhile (· != '"')).consume with
  | (none, last) => (last.flaw .unterminatedString, last)
  | (some _, last) =>
      (last.token (.str (last.slice (last.startIndex + 1) (last.index - 1))), last)

def scanWord (cursor : Cursor) : Except ScanError Token × Cursor :=
  let last := cursor.consumeWhile Script.isWordChar
  (last.token (.ofWord (Script.normalize last.text)), last)

def scanNumber (cursor : Cursor) : Except ScanError Token × Cursor :=
  let last := cursor.consumeWhile Script.isDigit
  let digits := Script.normalize last.text
  match Integer.fit? (Integer.ofDigits digits.toList) with
  | some value => (last.token (.int value), last)
  | none => (last.flaw (.numberOutOfRange digits), last)

def scanLexeme (c : Char) (cursor : Cursor) : Except ScanError Token × Cursor :=
  match extensible? c, symbol? c with
  | some (alone, extended), _ =>
      let (found, last) := cursor.expect '='
      (last.token (if found then extended else alone), last)
  | none, some kind => (cursor.token kind, cursor)
  | none, none =>
      if c == '"' then cursor.scanQuoted
      else if Script.isLetter c then cursor.scanWord
      else if Script.isDigit c then cursor.scanNumber
      else (cursor.flaw (.unknownCharacter c), cursor)

def scan (cursor : Cursor) : Except ScanError Token × Cursor :=
  match cursor.skipBlanks.consume with
  | (none, last) => (last.token .eof, last)
  | (some c, next) => next.scanLexeme c

def scanMany (cursor : Cursor) : Nat -> List (Except ScanError Token)
  | 0 => []
  | count + 1 => cursor.scan.1 :: cursor.scan.2.scanMany count

/-!
## Every scan moves on
-/

theorem consumeWhile_pending (isOne : Char -> Bool) (cursor : Cursor) :
    (cursor.consumeWhile isOne).pending = cursor.pending.dropWhile isOne := by
  fun_induction consumeWhile isOne cursor with
  | case1 cursor c hpeek hone ih =>
      rw [peek_fst] at hpeek
      rw [ih, consume_pending, peek_pending]
      cases hpending : cursor.pending with
      | nil => simp [hpending] at hpeek
      | cons d rest =>
          simp only [hpending, List.head?_cons, Option.some.injEq] at hpeek
          rw [hpeek, List.tail_cons, List.dropWhile_cons_of_pos hone]
  | case2 cursor c hpeek hone =>
      rw [peek_fst] at hpeek
      rw [peek_pending]
      cases hpending : cursor.pending with
      | nil => rfl
      | cons d rest =>
          simp only [hpending, List.head?_cons, Option.some.injEq] at hpeek
          rw [hpeek, List.dropWhile_cons_of_neg hone]
  | case3 cursor hpeek =>
      rw [peek_fst, List.head?_eq_none_iff] at hpeek
      rw [peek_pending, hpeek]
      rfl

theorem skipBlanks_pending (cursor : Cursor) :
    cursor.skipBlanks.pending = cursor.pending.dropWhile Script.isBlank :=
  consumeWhile_pending Script.isBlank cursor

theorem expect_pending_suffix (expected : Char) (cursor : Cursor) :
    (cursor.expect expected).2.pending <:+ cursor.pending := by
  unfold expect
  split
  · rw [consume_pending, peek_pending]
    exact List.tail_suffix _
  · exact ⟨[], peek_pending cursor⟩

theorem scanQuoted_snd (cursor : Cursor) :
    cursor.scanQuoted.2 = (cursor.consumeWhile (· != '"')).consume.2 := by
  unfold scanQuoted
  split <;> simp_all

theorem scanNumber_snd (cursor : Cursor) :
    cursor.scanNumber.2 = cursor.consumeWhile Script.isDigit := by
  unfold scanNumber
  simp only
  split <;> rfl

theorem scanLexeme_pending_suffix (c : Char) (cursor : Cursor) :
    (cursor.scanLexeme c).2.pending <:+ cursor.pending := by
  unfold scanLexeme
  split
  · exact expect_pending_suffix '=' cursor
  · exact List.suffix_refl _
  · split
    · rw [scanQuoted_snd, consume_pending, consumeWhile_pending]
      exact (List.tail_suffix _).trans (List.dropWhile_suffix _)
    · split
      · show (cursor.consumeWhile Script.isWordChar).pending <:+ _
        rw [consumeWhile_pending]
        exact List.dropWhile_suffix _
      · split
        · rw [scanNumber_snd, consumeWhile_pending]
          exact List.dropWhile_suffix _
        · exact List.suffix_refl _

theorem scan_pending_length_lt {cursor : Cursor} {token : Token}
    (htoken : cursor.scan.1 = .ok token) (hend : Not (token.isEof = true)) :
    cursor.scan.2.pending.length < cursor.pending.length := by
  have hfirst := consume_fst cursor.skipBlanks
  have hrest := consume_pending cursor.skipBlanks
  rw [skipBlanks_pending] at hfirst hrest
  unfold scan at htoken ⊢
  split at htoken
  · cases htoken
    exact absurd rfl hend
  · rename_i c next hconsume
    rw [hconsume] at hfirst hrest
    calc (next.scanLexeme c).2.pending.length
        ≤ next.pending.length := (scanLexeme_pending_suffix c next).length_le
      _ < (cursor.pending.dropWhile Script.isBlank).length := by
          rw [hrest]
          exact length_tail_lt_of_head? hfirst.symm
      _ ≤ cursor.pending.length := (List.dropWhile_suffix _).length_le

def tokens (cursor : Cursor) : Except ScanError (List Token) :=
  match _ : cursor.scan.1 with
  | .error e => .error e
  | .ok token =>
      if _ : token.isEof then .ok [token]
      else (cursor.scan.2.tokens).map (token :: ·)
termination_by cursor.pending.length
decreasing_by exact scan_pending_length_lt ‹_› ‹_›

end Cursor

def ofText (text : String) : Except ScanError (List Token) :=
  (Cursor.ofText text).tokens

end Token
end Lisan
