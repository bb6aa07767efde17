import Lisan.Proofs.Token.Scanning
import Std.Data.String.ToInt

/-!
# Hands

A hand says how things of one kind are written one behind the other. It tells a thing if
what is written shows the thing, and where it ends: from one text in front of two, the two
things are known to look alike, and what is behind them to be the same.
-/

namespace Lisan

/-- The things that can be read, the characters of each, what these show of it, and what
may stand behind them. -/
structure Hand (α : Type) where
  legible : α -> Prop
  written : α -> List Char
  shown : α -> α
  stops : List Char -> Prop

namespace Hand

variable {α : Type} {hand : Hand α}

/-- What is written shows the thing, and where it ends. -/
def Tells (hand : Hand α) (a : α) : Prop :=
  forall ⦃b : α⦄ ⦃rest rest' : List Char⦄,
    hand.legible b -> hand.stops rest -> hand.stops rest' ->
    hand.written a ++ rest = hand.written b ++ rest' ->
    hand.shown a = hand.shown b ∧ rest = rest'

def row (hand : Hand α) (separator closing : List Char) (items : List α) : List Char :=
  items.flatMap (fun a => separator ++ hand.written a) ++ closing

def list (hand : Hand α) : List α -> List Char
  | [] => [')']
  | a :: more => hand.written a ++ hand.row [',', ' '] [')'] more

/-- The separator and the closing end whatever stands before them, and no thing behind a
separator looks like the closing. -/
structure Parts (hand : Hand α) (separator closing : List Char) : Prop where
  separator_stops : forall rest, hand.stops (separator ++ rest)
  closing_stops : forall rest, hand.stops (closing ++ rest)
  apart : forall {a : α} {rest rest' : List Char}, hand.legible a ->
    separator ++ (hand.written a ++ rest) ≠ closing ++ rest'

variable {separator closing rest rest' : List Char} {items others : List α}

theorem row_cons (a : α) (more : List α) :
    hand.row separator closing (a :: more) ++ rest =
      separator ++ (hand.written a ++ (hand.row separator closing more ++ rest)) := by
  simp only [row, List.flatMap_cons, List.append_assoc]

theorem Parts.row_stops (hparts : hand.Parts separator closing) (items : List α)
    (rest : List Char) : hand.stops (hand.row separator closing items ++ rest) := by
  cases items with
  | nil => exact hparts.closing_stops rest
  | cons a more =>
      rw [row_cons]
      exact hparts.separator_stops _

theorem Parts.cons_tells (hparts : hand.Parts separator closing) {a b : α} (ha : hand.Tells a)
    (hb : hand.legible b)
    (hmore : hand.row separator closing items ++ rest =
        hand.row separator closing others ++ rest' ->
      items.map hand.shown = others.map hand.shown ∧ rest = rest')
    (h : hand.written a ++ (hand.row separator closing items ++ rest) =
      hand.written b ++ (hand.row separator closing others ++ rest')) :
    (a :: items).map hand.shown = (b :: others).map hand.shown ∧ rest = rest' := by
  have hfirst := ha hb (hparts.row_stops _ _) (hparts.row_stops _ _) h
  have hothers := hmore hfirst.right
  constructor
  · rw [List.map_cons, List.map_cons, hfirst.left, hothers.left]
  · exact hothers.right

theorem Parts.row_tells (hparts : hand.Parts separator closing)
    (hitems : forall a, a ∈ items -> hand.legible a ∧ hand.Tells a)
    (hothers : forall b, b ∈ others -> hand.legible b)
    (h : hand.row separator closing items ++ rest = hand.row separator closing others ++ rest') :
    items.map hand.shown = others.map hand.shown ∧ rest = rest' := by
  induction items generalizing others with
  | nil =>
      cases others with
      | nil => exact ⟨rfl, List.append_cancel_left h⟩
      | cons b others =>
          rw [row_cons] at h
          exact absurd h.symm (hparts.apart (hothers b List.mem_cons_self))
  | cons a items ih =>
      rcases List.forall_mem_cons.mp hitems with ⟨ha, hitems⟩
      rw [row_cons] at h
      cases others with
      | nil => exact absurd h (hparts.apart ha.left)
      | cons b others =>
          rcases List.forall_mem_cons.mp hothers with ⟨hb, hothers⟩
          rw [row_cons] at h
          exact hparts.cons_tells ha.right hb (ih hitems hothers) (List.append_cancel_left h)

theorem Parts.list_tells (hparts : hand.Parts [',', ' '] [')'])
    (hclosing : forall {a : α} {rest rest' : List Char}, hand.legible a ->
      hand.written a ++ rest ≠ ')' :: rest')
    (hitems : forall a, a ∈ items -> hand.legible a ∧ hand.Tells a)
    (hothers : forall b, b ∈ others -> hand.legible b)
    (h : hand.list items ++ rest = hand.list others ++ rest') :
    items.map hand.shown = others.map hand.shown ∧ rest = rest' := by
  cases items with
  | nil =>
      cases others with
      | nil => exact ⟨rfl, List.append_cancel_left h⟩
      | cons b others =>
          rw [list, list, List.append_assoc] at h
          exact absurd h.symm (hclosing (hothers b List.mem_cons_self))
  | cons a items =>
      rcases List.forall_mem_cons.mp hitems with ⟨ha, hitems⟩
      cases others with
      | nil =>
          rw [list, list, List.append_assoc] at h
          exact absurd h (hclosing ha.left)
      | cons b others =>
          rcases List.forall_mem_cons.mp hothers with ⟨hb, hothers⟩
          rw [list, list, List.append_assoc, List.append_assoc] at h
          exact hparts.cons_tells ha.right hb (hparts.row_tells hitems hothers) h

end Hand

theorem toList_intercalate_cons (separator a : String) (more : List String) :
    (separator.intercalate (a :: more)).toList =
      a.toList ++ more.flatMap fun b => separator.toList ++ b.toList := by
  induction more generalizing a with
  | nil => simp
  | cons b more ih => simp [String.intercalate_cons_cons, ih]

theorem Hand.toList_list {α : Type} (hand : Hand α) {print : α -> String}
    (hprint : forall a, (print a).toList = hand.written a) (items : List α) :
    (", ".intercalate (items.map print)).toList ++ [')'] = hand.list items := by
  cases items with
  | nil => rfl
  | cons a more =>
      rw [List.map_cons, toList_intercalate_cons, List.flatMap_map]
      simp [Hand.list, Hand.row, hprint]

/-!
## Where a word ends
-/

def Apart (rest : List Char) : Prop :=
  forall c, rest.head? = some c -> Script.isWordChar c = false ∧ c.isDigit = false

def Detached (rest : List Char) : Prop :=
  Apart rest ∧ rest.head? ≠ some '('

theorem apart_parenthesis (rest : List Char) : Apart ('(' :: rest) := by
  intro c hc
  cases hc
  decide

theorem detached_cons {c : Char}
    (h : (Script.isWordChar c = false ∧ c.isDigit = false) ∧ c ≠ '(') (rest : List Char) :
    Detached (c :: rest) := by
  constructor
  · intro d hd
    cases hd
    exact h.left
  · intro hhead
    cases hhead
    exact h.right rfl

theorem append_inj_of_stop {isOne : Char -> Bool} {front front' rest rest' : List Char}
    (hfront : forall c, c ∈ front -> isOne c = true)
    (hfront' : forall c, c ∈ front' -> isOne c = true)
    (hstop : forall c, rest.head? = some c -> isOne c = false)
    (hstop' : forall c, rest'.head? = some c -> isOne c = false)
    (h : front ++ rest = front' ++ rest') : front = front' ∧ rest = rest' := by
  have htaken := Token.takeWhile_append_of_stop hfront hstop
  rw [h] at htaken
  have htaken' := Token.takeWhile_append_of_stop hfront' hstop'
  constructor
  · rw [<- htaken.left, htaken'.left]
  · rw [<- htaken.right, htaken'.right]

theorem append_cons_inj {c : Char} {front front' rest rest' : List Char} (h : c ∉ front)
    (h' : c ∉ front') (heq : front ++ c :: rest = front' ++ c :: rest') :
    front = front' ∧ rest = rest' := by
  have hother : forall {chars : List Char}, c ∉ chars ->
      forall d, d ∈ chars -> (d != c) = true := by
    intro chars hchars d hd
    rw [bne_iff_ne]
    intro hsame
    exact hchars (hsame ▸ hd)
  have hstop : forall more d, (c :: more).head? = some d -> (d != c) = false := by
    intro more d hd
    cases hd
    exact bne_self_eq_false c
  have hparts := append_inj_of_stop (hother h) (hother h') (hstop rest) (hstop rest') heq
  exact ⟨hparts.left, List.tail_eq_of_cons_eq hparts.right⟩

def nameHand : Hand String where
  legible name := Token.Worded name.toList
  written := String.toList
  shown := id
  stops := Apart

theorem nameHand_tells {name : String} (h : Token.Worded name.toList) :
    nameHand.Tells name := by
  intro other rest rest' hother hrest hrest' heq
  have hparts := append_inj_of_stop (Token.isWordChar_of_worded h) (Token.isWordChar_of_worded hother)
    (fun c hc => (hrest c hc).left) (fun c hc => (hrest' c hc).left) heq
  exact ⟨String.toList_inj.mp hparts.left, hparts.right⟩

theorem exists_digits {n : Int} (h : 0 ≤ n) :
    exists m : Nat, n = m ∧ (toString n).toList = Nat.toDigits 10 m := by
  rcases Int.eq_ofNat_of_zero_le h with ⟨m, hm⟩
  exists m
  constructor
  · exact hm
  · rw [hm]
    exact String.toList_ofList

theorem int_tells {n k : Int} (hn : 0 ≤ n) (hk : 0 ≤ k) {rest rest' : List Char}
    (hrest : Apart rest) (hrest' : Apart rest')
    (h : (toString n).toList ++ rest = (toString k).toList ++ rest') : n = k ∧ rest = rest' := by
  rcases exists_digits hn with ⟨m, hm, hdigits⟩
  rcases exists_digits hk with ⟨l, hl, hdigits'⟩
  rw [hdigits, hdigits'] at h
  have hparts := append_inj_of_stop (Token.isDigit_of_mem_toDigits m) (Token.isDigit_of_mem_toDigits l)
    (fun c hc => (hrest c hc).right) (fun c hc => (hrest' c hc).right) h
  rw [<- hdigits, <- hdigits', String.toList_inj] at hparts
  exact ⟨Int.repr_inj.mp hparts.left, hparts.right⟩

theorem str_tells {text text' : String} (h : '"' ∉ text.toList) (h' : '"' ∉ text'.toList)
    {rest rest' : List Char}
    (heq : text.toList ++ '"' :: rest = text'.toList ++ '"' :: rest') :
    text = text' ∧ rest = rest' := by
  have hparts := append_cons_inj h h' heq
  exact ⟨String.toList_inj.mp hparts.left, hparts.right⟩

/-!
## How texts begin
-/

inductive Opening where
  | letter
  | digit
  | sign (c : Char)
deriving DecidableEq

def Opening.ofChar (c : Char) : Opening :=
  if Script.isLetter c then .letter else if c.isDigit then .digit else .sign c

def Opens (chars : List Char) (opening : Opening) : Prop :=
  chars.head?.map Opening.ofChar = some opening

theorem Opens.append {chars : List Char} {opening : Opening} (h : Opens chars opening)
    (rest : List Char) : Opens (chars ++ rest) opening := by
  cases chars with
  | nil => cases h
  | cons c more => exact h

theorem Opens.eq_of_append {chars chars' rest rest' : List Char} {opening opening' : Opening}
    (h : Opens chars opening) (h' : Opens chars' opening')
    (heq : chars ++ rest = chars' ++ rest') : opening = opening' := by
  have hopens := h.append rest
  rw [heq] at hopens
  exact Option.some.inj (hopens.symm.trans (h'.append rest'))

theorem opens_of_eq_cons {chars more : List Char} {c : Char} (h : chars ++ [] = c :: more) :
    Opens chars (Opening.ofChar c) := by
  rw [List.append_nil] at h
  rw [h]
  rfl

theorem opens_word {chars : List Char} (h : Token.Worded chars) : Opens chars .letter := by
  cases h with
  | intro hletter _ =>
      show some (Opening.ofChar _) = _
      rw [Opening.ofChar, if_pos hletter]

theorem opens_int {n : Int} (h : 0 ≤ n) : Opens (toString n).toList .digit := by
  rcases exists_digits h with ⟨m, _, hdigits⟩
  rw [hdigits]
  cases hchars : Nat.toDigits 10 m with
  | nil => exact absurd hchars Nat.toDigits_ne_nil
  | cons c more =>
      have hdigit := Token.isDigit_of_mem_toDigits m c (hchars ▸ List.mem_cons_self)
      have hletter : Script.isLetter c = false := by
        apply Token.isLetter_eq_false_of_isDigit
        rw [Script.isDigit, hdigit, Bool.true_or]
      show some (Opening.ofChar c) = _
      rw [Opening.ofChar, hletter, if_neg Bool.false_ne_true, if_pos hdigit]

theorem nameHand_parts : nameHand.Parts [',', ' '] [')'] where
  separator_stops rest := (detached_cons (by decide) _).left
  closing_stops rest := (detached_cons (by decide) _).left
  apart _ heq := by cases heq

theorem nameHand_ne_closing {name : String} {rest rest' : List Char}
    (h : nameHand.legible name) : nameHand.written name ++ rest ≠ ')' :: rest' := by
  intro heq
  have hopens : Opens [')'] (.sign ')') := rfl
  cases (opens_word h).eq_of_append hopens heq

end Lisan
