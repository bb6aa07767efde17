import Lisan.Token.Cursor
import Mathlib.Data.String.Basic

/-!
# Where a cursor stands

A cursor divides its text: what came before the lexeme at hand, the lexeme as far as
it was taken, and what is still to be taken. All that the cursor counts agrees with
this, whatever character it holds back and however many bytes each character has, so
that what it cuts out of the text is the lexeme.
-/

namespace Lisan
namespace Token
namespace Cursor

/-- The cursor stands behind the lexeme, which begins behind what came before. -/
structure Stands (cursor : Cursor) (before lexeme behind : List Char) : Prop where
  input : cursor.input = String.ofList (before ++ lexeme ++ behind)
  pending : cursor.pending = behind
  startIndex : cursor.startIndex = String.utf8Len before
  index : cursor.index = String.utf8Len before + String.utf8Len lexeme
  start : cursor.start = Position.start.after before
  position : cursor.position = Position.start.after (before ++ lexeme)

theorem ofText_stands (text : String) : (ofText text).Stands [] [] text.toList := by
  constructor <;> simp [ofText, pending]

variable {cursor : Cursor} {before lexeme behind : List Char}

/-!
## Single characters
-/

theorem exists_peek_eq (cursor : Cursor) :
    exists chars peeked, cursor.peek.2 = { cursor with chars := chars, peeked := peeked } := by
  unfold peek
  split
  · exact ⟨cursor.chars, cursor.peeked, rfl⟩
  · exact ⟨_, _, rfl⟩
  · exact ⟨cursor.chars, cursor.peeked, rfl⟩

theorem exists_consume_eq {c : Char} (h : cursor.pending.head? = some c) :
    exists chars, cursor.consume.2 =
      advance { cursor with chars := chars, peeked := none } c := by
  unfold consume pending at *
  split
  · rename_i hpeeked
    simp only [hpeeked, Option.toList_some, List.cons_append, List.head?_cons,
      Option.some.injEq] at h
    rw [h]
    exact ⟨cursor.chars, rfl⟩
  · rename_i hpeeked hchars
    simp only [hpeeked, hchars, Option.toList_none, List.nil_append, List.head?_cons,
      Option.some.injEq] at h
    rw [h, <- hpeeked]
    exact ⟨_, rfl⟩
  · simp_all

theorem peek_stands (h : cursor.Stands before lexeme behind) :
    cursor.peek.2.Stands before lexeme behind := by
  have hpending := (peek_pending cursor).trans h.pending
  rcases exists_peek_eq cursor with ⟨chars, peeked, hpeek⟩
  rw [hpeek] at hpending ⊢
  exact { h with pending := hpending }

theorem consume_stands {c : Char} (h : cursor.Stands before lexeme (c :: behind)) :
    cursor.consume.2.Stands before (lexeme ++ [c]) behind := by
  have hpending := consume_pending cursor
  rw [h.pending, List.tail_cons] at hpending
  have hhead : cursor.pending.head? = some c := by
    rw [h.pending, List.head?_cons]
  rcases exists_consume_eq hhead with ⟨chars, hconsume⟩
  rw [hconsume] at hpending ⊢
  constructor
  · show cursor.input = _
    simpa using h.input
  · exact hpending
  · exact h.startIndex
  · simp [advance, h.index, Nat.add_assoc]
  · exact h.start
  · rw [<- List.append_assoc, Position.after_append, <- h.position]
    rfl

theorem consume_fst_of_stands (h : cursor.Stands before lexeme behind) :
    cursor.consume.1 = behind.head? := by
  rw [consume_fst, h.pending]

theorem consume_of_stands_nil (h : cursor.Stands before lexeme []) :
    cursor.consume = (none, cursor) := by
  have hpending := List.append_eq_nil_iff.mp h.pending
  rw [Option.toList_eq_nil_iff] at hpending
  rw [consume, hpending.left, hpending.right]

theorem peek_fst_of_stands (h : cursor.Stands before lexeme behind) :
    cursor.peek.1 = behind.head? := by
  rw [peek_fst, h.pending]

/-!
## Runs of characters
-/

theorem consumeWhile_stands (isOne : Char -> Bool) (h : cursor.Stands before lexeme behind) :
    (cursor.consumeWhile isOne).Stands before (lexeme ++ behind.takeWhile isOne)
      (behind.dropWhile isOne) := by
  induction behind generalizing cursor lexeme with
  | nil =>
      have hpeek := peek_fst_of_stands h
      rw [consumeWhile]
      split
      · simp_all
      · simpa using peek_stands h
  | cons c rest ih =>
      have hpeek := peek_fst_of_stands h
      rw [consumeWhile]
      split
      · rename_i d hd
        rw [hpeek] at hd
        cases hd
        split
        · rename_i hone
          have hnext := ih (consume_stands (peek_stands h))
          rw [List.takeWhile_cons_of_pos hone, List.dropWhile_cons_of_pos hone]
          simpa using hnext
        · rename_i hone
          rw [List.takeWhile_cons_of_neg hone, List.dropWhile_cons_of_neg hone]
          simpa using peek_stands h
      · simp_all

theorem begin_stands (h : cursor.Stands before lexeme behind) :
    Stands { cursor with startIndex := cursor.index, start := cursor.position }
      (before ++ lexeme) [] behind := by
  constructor
  · simpa using h.input
  · exact h.pending
  · simpa using h.index
  · simpa using h.index
  · exact h.position
  · simpa using h.position

theorem skipBlanks_stands (h : cursor.Stands before lexeme behind) :
    cursor.skipBlanks.Stands (before ++ lexeme ++ behind.takeWhile Script.isBlank) []
      (behind.dropWhile Script.isBlank) := by
  rw [List.append_assoc]
  exact begin_stands (consumeWhile_stands Script.isBlank h)

theorem expect_stands_of_eq {expected : Char}
    (h : cursor.Stands before lexeme (expected :: behind)) :
    (cursor.expect expected).1 = true ∧
      (cursor.expect expected).2.Stands before (lexeme ++ [expected]) behind := by
  have hpeek : cursor.peek.1 = some expected := peek_fst_of_stands h
  rw [expect, if_pos hpeek]
  exact ⟨rfl, consume_stands (peek_stands h)⟩

theorem expect_stands_of_ne {expected : Char} (h : cursor.Stands before lexeme behind)
    (hhead : behind.head? ≠ some expected) :
    (cursor.expect expected).1 = false ∧
      (cursor.expect expected).2.Stands before lexeme behind := by
  have hpeek : cursor.peek.1 ≠ some expected := by
    rw [peek_fst_of_stands h]
    exact hhead
  rw [expect, if_neg hpeek]
  exact ⟨rfl, peek_stands h⟩

/-!
## What is cut out of the text
-/

theorem bounds_valid (h : cursor.Stands before lexeme behind) :
    String.Pos.Raw.Valid cursor.input ⟨cursor.startIndex⟩ ∧
      String.Pos.Raw.Valid cursor.input ⟨cursor.index⟩ := by
  constructor
  · apply String.Pos.Raw.Valid.intro
    refine ⟨before, lexeme ++ behind, ?_, h.startIndex⟩
    rw [h.input, String.toList_ofList, List.append_assoc]
  · apply String.Pos.Raw.Valid.intro
    refine ⟨before ++ lexeme, behind, ?_, ?_⟩
    · rw [h.input, String.toList_ofList]
    · rw [String.utf8Len_append]
      exact h.index

theorem text_of_stands (h : cursor.Stands before lexeme behind) :
    cursor.text = String.ofList lexeme := by
  rw [text, slice, h.input, h.startIndex, h.index]
  exact String.extract_of_valid before lexeme behind

theorem slice_quoted {body : List Char}
    (h : cursor.Stands before ('"' :: (body ++ ['"'])) behind) :
    cursor.slice (cursor.startIndex + 1) (cursor.index - 1) = String.ofList body := by
  have hcut := String.extract_of_valid (before ++ ['"']) body ('"' :: behind)
  have hquote : '"'.utf8Size = 1 := rfl
  have hfirst : String.utf8Len before + 1 = String.utf8Len (before ++ ['"']) := by
    simp [hquote]
  have hlast : String.utf8Len before + String.utf8Len ('"' :: (body ++ ['"'])) - 1 =
      String.utf8Len (before ++ ['"']) + String.utf8Len body := by
    simp [hquote]
    omega
  rw [slice, h.input, h.startIndex, h.index, hfirst, hlast, <- hcut]
  simp

end Cursor
end Token
end Lisan
