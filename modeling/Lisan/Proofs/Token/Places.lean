import Lisan.Proofs.Token.Seam
import Mathlib.Logic.Relation

/-!
# Places of tokens

A cursor counts lines and columns while it takes characters, and one of these may be held
back. Whatever it took, it stands at the place that the characters before it say: its line
is one more than the line feeds among these, and its column one more than the characters
behind the last of them. Each token and each flaw has the place of its first character.
-/

namespace Lisan

namespace Position

/-- The place behind characters: the lines that they end, and the characters behind the
last line feed among them, both counted from one. -/
def behind (chars : List Char) : Position :=
  ⟨1 + chars.count '\n', 1 + (chars.reverse.takeWhile (· != '\n')).length⟩

def Precedes (place other : Position) : Prop :=
  place.line < other.line ∨ place.line = other.line ∧ place.column < other.column

structure Fits (place : Position) : Prop where
  line_pos : 1 ≤ place.line
  line_le : place.line ≤ 2147483647
  column_pos : 1 ≤ place.column
  column_le : place.column ≤ 2147483647

theorem behind_concat (chars : List Char) (c : Char) :
    behind (chars ++ [c]) = (behind chars).next c := by
  rw [behind, behind, next, List.count_append, List.count_singleton, List.reverse_concat]
  by_cases hc : c = '\n'
  · rw [if_pos hc, hc]
    simp [Int.add_assoc]
  · rw [if_neg hc]
    simp [hc, Int.add_assoc]

theorem start_after (chars : List Char) : start.after chars = behind chars := by
  induction chars using List.reverseRecOn with
  | nil => rfl
  | append_singleton chars c ih => rw [after_append, ih, after_cons, after_nil, behind_concat]

example : behind ['ق', '\r', '\n', '\t', 'ه'] = ⟨2, 3⟩ := by decide

theorem Precedes.next (place : Position) (c : Char) : place.Precedes (place.next c) := by
  rw [Precedes, Position.next]
  split
  · exact .inl (Int.lt_succ place.line)
  · exact .inr ⟨rfl, Int.lt_succ place.column⟩

theorem Precedes.trans {place other third : Position} (h : place.Precedes other)
    (h' : other.Precedes third) : place.Precedes third := by
  rcases h with hline | ⟨hline, hcolumn⟩
  · rcases h' with hline' | ⟨hline', _⟩
    · exact .inl (hline.trans hline')
    · exact .inl (hline' ▸ hline)
  · rcases h' with hline' | ⟨hline', hcolumn'⟩
    · exact .inl (hline ▸ hline')
    · exact .inr ⟨hline.trans hline', hcolumn.trans hcolumn'⟩

theorem Precedes.onward {place other third : Position} (h : place.Precedes other)
    (h' : third = other ∨ other.Precedes third) : place.Precedes third := by
  rcases h' with hsame | hprecedes
  · rw [hsame]
    exact h
  · exact h.trans hprecedes

theorem eq_or_precedes_after (place : Position) (chars : List Char) :
    place.after chars = place ∨ place.Precedes (place.after chars) := by
  induction chars generalizing place with
  | nil => exact .inl rfl
  | cons c rest ih => exact .inr ((Precedes.next place c).onward (ih (place.next c)))

theorem precedes_after (place : Position) {chars : List Char} (h : chars ≠ []) :
    place.Precedes (place.after chars) := by
  cases chars with
  | nil => exact absurd rfl h
  | cons c rest =>
      exact (Precedes.next place c).onward (eq_or_precedes_after (place.next c) rest)

theorem fits_behind {chars : List Char} (h : chars.length ≤ 2 ^ 31 - 2) : (behind chars).Fits := by
  have hlines : chars.count '\n' ≤ chars.length := List.count_le_length
  have hcolumns : (chars.reverse.takeWhile (· != '\n')).length ≤ chars.length := by
    rw [<- chars.length_reverse]
    exact (List.takeWhile_sublist _).length_le
  constructor <;> simp only [behind] <;> omega

end Position

namespace Token

open Position (behind)

/-!
## What scans give
-/

/-- Results of scans one behind the other: each is that of the longest lexeme behind the
blanks that come next, at the place of its first character, or it is the mark of the end,
at the end of the text. The characters that were taken before and those that are still to
be taken make up the whole text. -/
inductive Located : List Char -> List Char -> List (Except ScanError Token) -> Prop where
  | none {before following : List Char} : Located before following []
  | ended {before blanks : List Char} {results : List (Except ScanError Token)} :
      Blank blanks -> Located (before ++ blanks) [] results ->
      Located before blanks (.ok ⟨.eof, behind (before ++ blanks)⟩ :: results)
  | lexeme {before blanks chars rest : List Char} {meaning : Except Flaw Kind}
      {results : List (Except ScanError Token)} :
      Blank blanks -> Longest chars rest meaning ->
      Located (before ++ blanks ++ chars) rest results ->
      Located before (blanks ++ (chars ++ rest))
        (placed (behind (before ++ blanks)) meaning :: results)

namespace Cursor

variable {cursor : Cursor} {before lexeme following : List Char}

theorem scan_stands_of_blank (h : cursor.Stands before lexeme following) (hblank : Blank following) :
    cursor.scan.2.Stands (before ++ lexeme ++ following) [] [] := by
  rw [<- List.append_nil following] at h
  have hend : forall c, ([] : List Char).head? = some c -> Script.isBlank c = false := by
    intro c hc
    cases hc
  have hskipped := skipBlanks_stands_of_blank h hblank hend
  rw [scan, consume_of_stands_nil hskipped]
  exact hskipped

theorem Stands.scanMany_located (h : cursor.Stands before lexeme following) (count : Nat) :
    Located (before ++ lexeme) following (cursor.scanMany count) := by
  induction count generalizing cursor before lexeme following with
  | zero => exact .none
  | succ count ih =>
      rw [scanMany]
      rcases blank_or_longest following with
        hblank | ⟨blanks, chars, rest, meaning, hfollowing, hblank, hlongest⟩
      · have hnext := ih (scan_stands_of_blank h hblank)
        rw [scan_of_blank h hblank, Position.start_after]
        rw [List.append_nil] at hnext
        exact .ended hblank hnext
      · rw [hfollowing] at h ⊢
        rcases scan_of_longest h hblank hlongest with ⟨hscan, hlast⟩
        rw [hscan, Position.start_after]
        exact .lexeme hblank hlongest (ih hlast)

theorem scanMany_of_tokens_eq_ok {tokens : List Token} (h : cursor.tokens = .ok tokens) :
    cursor.scanMany tokens.length = tokens.map .ok := by
  fun_induction Cursor.tokens cursor generalizing tokens with
  | case1 cursor e hscan => cases h
  | case2 cursor token hscan hend =>
      cases h
      rw [List.length_singleton, scanMany, hscan]
      rfl
  | case3 cursor token hscan hend ih =>
      cases hrest : cursor.scan.2.tokens with
      | error e =>
          rw [hrest] at h
          cases h
      | ok others =>
          rw [hrest] at h
          cases h
          rw [List.length_cons, scanMany, hscan, ih hrest]
          rfl

theorem scanMany_of_tokens_eq_error {e : ScanError} (h : cursor.tokens = .error e) :
    exists front : List Token,
      cursor.scanMany (front.length + 1) = front.map .ok ++ [.error e] := by
  fun_induction Cursor.tokens cursor with
  | case1 cursor found hscan =>
      cases h
      exists []
      rw [List.length_nil, scanMany, hscan]
      rfl
  | case2 cursor token hscan hend => cases h
  | case3 cursor token hscan hend ih =>
      cases hrest : cursor.scan.2.tokens with
      | ok others =>
          rw [hrest] at h
          cases h
      | error found =>
          rw [hrest] at h
          cases h
          rcases ih hrest with ⟨front, hfront⟩
          exists token :: front
          rw [List.length_cons, scanMany, hscan, hfront]
          rfl

end Cursor

/-!
## The order of places
-/

theorem Cut.ordered {place : Position} {text : List Char} {tokens : List Token}
    (h : Cut place text tokens) :
    (forall token, token ∈ tokens -> token.start = place ∨ place.Precedes token.start) ∧
      tokens.Pairwise fun token other => token.start.Precedes other.start := by
  induction h with
  | @done place blanks _ =>
      constructor
      · intro token htoken
        rw [List.mem_singleton.mp htoken]
        exact place.eq_or_precedes_after blanks
      · exact List.pairwise_singleton _ _
  | @lexeme place blanks chars rest kind tokens _ hlongest _ ih =>
      rcases spells_head hlongest.spells with ⟨c, tail, hchars, _⟩
      have hne : chars ≠ [] := hchars ▸ List.cons_ne_nil c tail
      have hbehind : forall token, token ∈ tokens ->
          (place.after blanks).Precedes token.start := by
        intro token htoken
        -- a lexeme is not empty, so all that stands behind it is further on
        have hlexeme := (place.after blanks).precedes_after hne
        rw [<- Position.after_append] at hlexeme
        exact hlexeme.onward (ih.left token htoken)
      constructor
      · intro token htoken
        rcases List.mem_cons.mp htoken with htoken | htoken
        · rw [htoken]
          exact place.eq_or_precedes_after blanks
        · rcases place.eq_or_precedes_after blanks with hsame | hprecedes
          · exact .inr (hsame ▸ hbehind token htoken)
          · exact .inr (hprecedes.trans (hbehind token htoken))
      · exact List.pairwise_cons.mpr ⟨hbehind, ih.right⟩

/-!
## All places that are counted
-/

namespace Cursor

inductive Move : Cursor -> Cursor -> Prop where
  | peek (cursor : Cursor) : Move cursor cursor.peek.2
  | consume (cursor : Cursor) : Move cursor cursor.consume.2
  | start (cursor : Cursor) :
      Move cursor { cursor with startIndex := cursor.index, start := cursor.position }

def Visits : Cursor -> Cursor -> Prop :=
  Relation.ReflTransGen Move

variable {cursor last : Cursor} {text : List Char}

def Divides (cursor : Cursor) (text : List Char) : Prop :=
  exists before lexeme following,
    text = before ++ lexeme ++ following ∧ cursor.Stands before lexeme following

theorem Move.divides (hmove : Move cursor last) (h : cursor.Divides text) : last.Divides text := by
  rcases h with ⟨before, lexeme, following, htext, hstands⟩
  cases hmove with
  | peek => exact ⟨before, lexeme, following, htext, peek_stands hstands⟩
  | start => exact ⟨before ++ lexeme, [], following, by simpa using htext, begin_stands hstands⟩
  | consume =>
      cases following with
      | nil =>
          rw [consume_of_stands_nil hstands]
          exact ⟨before, lexeme, [], htext, hstands⟩
      | cons c rest =>
          exact ⟨before, lexeme ++ [c], rest, by simpa using htext, consume_stands hstands⟩

theorem Visits.divides (hvisits : cursor.Visits last) (h : cursor.Divides text) :
    last.Divides text := by
  induction hvisits with
  | refl => exact h
  | tail _ hmove ih => exact hmove.divides ih

theorem Divides.fits (h : cursor.Divides text) (hlength : text.length ≤ 2 ^ 31 - 2) :
    cursor.start.Fits ∧ cursor.position.Fits := by
  rcases h with ⟨before, lexeme, following, htext, hstands⟩
  rw [htext, List.length_append, List.length_append] at hlength
  rw [hstands.start, hstands.position, Position.start_after, Position.start_after]
  constructor
  · apply Position.fits_behind
    omega
  · apply Position.fits_behind
    rw [List.length_append]
    omega

theorem ofText_divides (text : String) : (ofText text).Divides text.toList :=
  ⟨[], [], text.toList, rfl, ofText_stands text⟩

/-!
### Scans are made of moves
-/

theorem peek_visits (cursor : Cursor) : cursor.Visits cursor.peek.2 :=
  .single (.peek cursor)

theorem consume_visits (cursor : Cursor) : cursor.Visits cursor.consume.2 :=
  .single (.consume cursor)

theorem consumeWhile_visits (isOne : Char -> Bool) (cursor : Cursor) :
    cursor.Visits (cursor.consumeWhile isOne) := by
  fun_induction consumeWhile isOne cursor with
  | case1 cursor c hpeek hone ih =>
      exact ((peek_visits cursor).trans (consume_visits cursor.peek.2)).trans ih
  | case2 cursor c hpeek hone => exact peek_visits cursor
  | case3 cursor hpeek => exact peek_visits cursor

theorem expect_visits (expected : Char) (cursor : Cursor) :
    cursor.Visits (cursor.expect expected).2 := by
  rw [expect]
  split
  · exact (peek_visits cursor).trans (consume_visits cursor.peek.2)
  · exact peek_visits cursor

theorem scanLexeme_visits (c : Char) (cursor : Cursor) :
    cursor.Visits (cursor.scanLexeme c).2 := by
  unfold scanLexeme
  split
  · exact expect_visits '=' cursor
  · exact .refl
  · split
    · rw [scanQuoted_snd]
      exact (consumeWhile_visits _ cursor).trans (consume_visits _)
    · split
      · exact consumeWhile_visits Script.isWordChar cursor
      · split
        · rw [scanNumber_snd]
          exact consumeWhile_visits Script.isDigit cursor
        · exact .refl

theorem skipBlanks_visits (cursor : Cursor) : cursor.Visits cursor.skipBlanks :=
  (consumeWhile_visits Script.isBlank cursor).tail (.start _)

theorem scan_visits (cursor : Cursor) : cursor.Visits cursor.scan.2 := by
  have hfirst := (skipBlanks_visits cursor).trans (consume_visits cursor.skipBlanks)
  unfold scan
  split
  · rename_i last hconsume
    rw [hconsume] at hfirst
    exact hfirst
  · rename_i c next hconsume
    rw [hconsume] at hfirst
    exact hfirst.trans (scanLexeme_visits c next)

end Cursor
end Token
end Lisan
