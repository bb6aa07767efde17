import Lisan.Proofs.Token.Spelling
import Lisan.Proofs.Tree.View

/-!
# Texts one behind the other

Blanks, and symbols that always stand alone, end every lexeme but an open quote, and no text
with tokens leaves a quote open. So the tokens of two texts with a line feed between them
are those of the first text and then those of the second, further down by the lines of the
first.
-/

namespace Lisan

namespace Position

def lines (chars : List Char) : Nat :=
  chars.count '\n' + 1

theorem next_lower (n : Nat) (place : Position) (c : Char) :
    (place.lower n).next c = (place.next c).lower n := by
  rw [next, next]
  split
  · simp only [lower, mk.injEq, and_true]
    omega
  · rfl

theorem after_lower (n : Nat) (place : Position) (chars : List Char) :
    (place.lower n).after chars = (place.after chars).lower n := by
  induction chars generalizing place with
  | nil => rfl
  | cons c rest ih => rw [after_cons, after_cons, next_lower, ih]

theorem line_after (place : Position) (chars : List Char) :
    (place.after chars).line = place.line + chars.count '\n' := by
  induction chars generalizing place with
  | nil => simp
  | cons c rest ih =>
      rw [after_cons, ih, next]
      split
      · rename_i hc
        rw [hc, List.count_cons_self]
        show place.line + 1 + _ = _
        omega
      · rename_i hc
        rw [List.count_cons_of_ne hc]

theorem after_lineFeed (chars : List Char) :
    start.after (chars ++ ['\n']) = start.lower (lines chars) := by
  have hline : (start.after chars).line = 1 + chars.count '\n' := line_after start chars
  rw [after_append, after_cons, after_nil, next, if_pos rfl, hline, lower, lines, mk.injEq]
  refine ⟨?_, rfl⟩
  show _ = (1 : Int) + _
  omega

end Position

namespace Token

/-!
## What ends a lexeme
-/

/-- A character with which no lexeme goes on unless it is in quotes: a blank, or a symbol that
always stands alone. -/
def separates (c : Char) : Bool :=
  Script.isBlank c || (symbol? c).isSome

theorem separates_of_isBlank {c : Char} (h : Script.isBlank c = true) : separates c = true := by
  rw [separates, h, Bool.true_or]

theorem sign_of_symbol? {c : Char} {kind : Kind} (h : symbol? c = some kind) :
    kind ∈ signs ∧ kind.text.toList = [c] := by
  unfold symbol? at h
  split at h <;> cases h <;> exact ⟨by decide, rfl⟩

theorem class_of_separates {c : Char} (h : separates c = true) :
    c ≠ '"' ∧ Script.isWordChar c = false ∧ Script.isDigit c = false := by
  rcases Bool.or_eq_true_iff.mp h with hblank | hsymbol
  · simp only [Script.isBlank, Bool.or_eq_true, beq_iff_eq] at hblank
    rcases hblank with ((rfl | rfl) | rfl) | rfl <;> decide
  · unfold symbol? at hsymbol
    split at hsymbol <;> first | decide | cases hsymbol

theorem Spells.of_separates {chars : List Char} {meaning : Except Flaw Kind} {c : Char}
    (h : Spells chars meaning) (hc : c ∈ chars.tail) (hseparates : separates c = true) :
    exists body closing, chars = '"' :: (body ++ closing) ∧ '"' ∉ body ∧
      closing ⊆ ['"'] := by
  rcases class_of_separates hseparates with ⟨_, hword, hdigit⟩
  have hworded : Not (Worded chars) := by
    rintro ⟨_, htail⟩
    rw [htail c hc] at hword
    cases hword
  have hnumbered : Not (Numbered chars) := by
    rintro ⟨_, htail⟩
    rw [htail c hc] at hdigit
    cases hdigit
  -- only within quotes a lexeme goes on with such a character
  cases h with
  | @sign kind hkind =>
      have htable : forall kind, kind ∈ signs ->
          kind.text.toList.tail.all (fun c => !separates c) = true := by
        decide
      have hplain := List.all_eq_true.mp (htable kind hkind) c hc
      rw [hseparates] at hplain
      cases hplain
  | @quoted body hbody => exact ⟨body, ['"'], rfl, hbody, fun _ hd => hd⟩
  | @unterminated body hbody =>
      exact ⟨body, [], by rw [List.append_nil], hbody, List.nil_subset _⟩
  | keyword h => exact absurd h hworded
  | name h => exact absurd h hworded
  | number h => exact absurd h hnumbered
  | largeNumber h => exact absurd h hnumbered
  | strange => cases hc

theorem Longest.append_of_separates {chars rest : List Char} {meaning : Except Flaw Kind}
    {c : Char} (h : Longest chars rest meaning) (hopen : openQuote false chars = false)
    (hseparates : separates c = true) (more : List Char) :
    Longest chars (rest ++ c :: more) meaning := by
  refine ⟨h.spells, ?_⟩
  intro other meant hother hprefix
  rw [<- List.append_assoc] at hprefix
  -- a longer lexeme would have to reach over the character, and so to be in quotes
  rcases List.prefix_or_prefix_of_prefix hprefix (List.prefix_append _ _) with
    hwithin | ⟨beyond, rfl⟩
  · exact h.longest hother hwithin
  · cases beyond with
    | nil => exact h.longest hother (by rw [List.append_nil])
    | cons d beyond =>
        rw [List.prefix_append_right_inj, List.cons_prefix_cons] at hprefix
        rcases hprefix with ⟨rfl, _⟩
        rcases spells_head h.spells with ⟨first, tail, rfl, _⟩
        have hmem : d ∈ (first :: tail ++ rest ++ d :: beyond).tail :=
          List.mem_append_right (tail ++ rest) List.mem_cons_self
        rcases hother.of_separates hmem hseparates with ⟨body, closing, hsplit, hbody, hclosing⟩
        rw [List.append_assoc, List.cons_append, List.cons.injEq] at hsplit
        rcases hsplit with ⟨rfl, hsplit⟩
        have hquote : '"' ∈ tail := by
          by_contra hmem
          have hstill : openQuote true tail = false := hopen
          rw [openQuote_of_not_mem true hmem] at hstill
          cases hstill
        -- the quote that closes the lexeme is behind the body of the longer one
        rcases List.append_eq_append_iff.mp hsplit with ⟨within, rfl, _⟩ | ⟨within, _, rfl⟩
        · exact absurd (List.mem_append_left _ hquote) hbody
        · have hquoted := hclosing (List.mem_append_right within
            (List.mem_append_right rest List.mem_cons_self))
          exact absurd (List.mem_singleton.mp hquoted) (class_of_separates hseparates).left

theorem Longest.append_blank {chars rest : List Char} {kind : Kind} {c : Char}
    (h : Longest chars rest (.ok kind)) (hblank : Script.isBlank c = true)
    (more : List Char) : Longest chars (rest ++ c :: more) (.ok kind) :=
  h.append_of_separates h.spells.openQuote_eq (separates_of_isBlank hblank) more

/-!
## Cutting two texts
-/

theorem Cut.blanks_append {place : Position} {blanks text : List Char} {tokens : List Token}
    (hblanks : Blank blanks) (h : Cut (place.after blanks) text tokens) :
    Cut place (blanks ++ text) tokens := by
  have hblank : forall {others}, Blank others -> Blank (blanks ++ others) := by
    intro others hothers c hc
    rcases List.mem_append.mp hc with hc | hc
    · exact hblanks c hc
    · exact hothers c hc
  cases h with
  | done hothers =>
      rw [<- Position.after_append]
      exact .done (hblank hothers)
  | lexeme hothers hlongest hrest =>
      rw [<- Position.after_append, <- List.append_assoc] at hrest
      rw [<- Position.after_append, <- List.append_assoc]
      exact .lexeme (hblank hothers) hlongest hrest

theorem Cut.exists_front {place : Position} {text : List Char} {tokens : List Token}
    (h : Cut place text tokens) :
    exists front, tokens = front ++ [⟨.eof, place.after text⟩] ∧
      forall token, token ∈ front -> token.isEof = false := by
  induction h with
  | done => exact ⟨[], rfl, fun token htoken => absurd htoken List.not_mem_nil⟩
  | @lexeme place blanks chars rest kind tokens hblanks hlongest _ ih =>
      rcases ih with ⟨front, rfl, hfront⟩
      refine ⟨⟨kind, place.after blanks⟩ :: front, ?_, ?_⟩
      · rw [<- Position.after_append, List.append_assoc]
        rfl
      · intro token htoken
        rcases List.mem_cons.mp htoken with rfl | htoken
        · exact beq_eq_false_iff_ne.mpr (kind_ne_eof_of_spells hlongest.spells)
        · exact hfront token htoken

theorem Cut.lower {place : Position} {text : List Char} {tokens : List Token} (n : Nat)
    (h : Cut place text tokens) :
    Cut (place.lower n) text (tokens.map (Token.lower n)) := by
  induction h with
  | @done place blanks hblanks =>
      have hdone : Cut (place.lower n) blanks _ := .done hblanks
      rw [Position.after_lower] at hdone
      exact hdone
  | @lexeme place blanks chars rest kind tokens hblanks hlongest _ ih =>
      rw [<- Position.after_lower] at ih
      have hall := Cut.lexeme hblanks hlongest ih
      rw [Position.after_lower] at hall
      exact hall

theorem Cut.ne_nil {place : Position} {text : List Char} {tokens : List Token}
    (h : Cut place text tokens) : tokens ≠ [] := by
  cases h with
  | done => exact List.cons_ne_nil _ _
  | lexeme => exact List.cons_ne_nil _ _

theorem Cut.append_lineFeed {place : Position} {text more : List Char}
    {tokens others : List Token} (h : Cut place text tokens)
    (hmore : Cut (place.after (text ++ ['\n'])) more others) :
    Cut place (text ++ '\n' :: more) (tokens.dropLast ++ others) := by
  induction h with
  | @done place blanks hblanks =>
      have hfeed : Blank (blanks ++ ['\n']) := by
        intro c hc
        rcases List.mem_append.mp hc with hc | hc
        · exact hblanks c hc
        · rw [List.mem_singleton.mp hc]
          rfl
      have hall := hmore.blanks_append hfeed
      rw [List.append_assoc] at hall
      exact hall
  | @lexeme place blanks chars rest kind found hblanks hlongest hrest ih =>
      have hplace : place.after (blanks ++ (chars ++ rest) ++ ['\n']) =
          (place.after (blanks ++ chars)).after (rest ++ ['\n']) := by
        simp only [Position.after_append]
      rw [hplace] at hmore
      rw [List.append_assoc, List.append_assoc, List.dropLast_cons_of_ne_nil hrest.ne_nil]
      exact .lexeme hblanks (hlongest.append_blank rfl more) (ih hmore)

def joined (s t : String) : String :=
  s ++ "\n" ++ t

theorem toList_joined (s t : String) : (joined s t).toList = s.toList ++ '\n' :: t.toList := by
  simp [joined]

theorem cut_of_ofText {text : String} {tokens : List Token} (h : ofText text = .ok tokens) :
    Cut .start text.toList tokens := by
  rcases cut_or_fails text.toList .start with ⟨found, hfound⟩ | ⟨e, he⟩
  · rw [ofText_of_cut hfound] at h
    cases h
    exact hfound
  · rw [ofText_of_fails he] at h
    cases h

theorem ofText_joined {s t : String} {tokens others : List Token}
    (hs : ofText s = .ok tokens) (ht : ofText t = .ok others) :
    ofText (joined s t) =
      .ok (tokens.dropLast ++ others.map (Token.lower (Position.lines s.toList))) := by
  have hothers := (cut_of_ofText ht).lower (Position.lines s.toList)
  rw [<- Position.after_lineFeed] at hothers
  have hall := (cut_of_ofText hs).append_lineFeed hothers
  rw [<- toList_joined] at hall
  exact ofText_of_cut hall

end Token
end Lisan
