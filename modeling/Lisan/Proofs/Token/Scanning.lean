import Lisan.Proofs.Token.Cursor
import Lisan.Proofs.Token.Lexeme
import Mathlib.Data.List.TakeWhile
import Mathlib.Data.Nat.Find

/-!
# Scanning and lexemes

A scan takes the blanks and the longest lexeme that come next, and gives what the
lexeme spells. So the tokens of a text are those of its longest lexemes, and a text
that has none fails with its first flaw.
-/

namespace Lisan
namespace Token

/-!
## Classes of characters
-/

def isUnclassed (c : Char) : Bool :=
  !Script.isBlank c && c != '"' && !Script.isLetter c && !Script.isDigit c

theorem isUnclassed_of_sign {kind : Kind} {c : Char} (hkind : kind ∈ signs)
    (hhead : kind.text.toList.head? = some c) : isUnclassed c = true := by
  have htable : forall kind, kind ∈ signs ->
      kind.text.toList.head?.all isUnclassed = true := by
    decide
  have hall := htable kind hkind
  rw [hhead] at hall
  exact hall

theorem class_of_sign {kind : Kind} {c : Char} (hkind : kind ∈ signs)
    (hhead : kind.text.toList.head? = some c) :
    Script.isBlank c = false ∧ c ≠ '"' ∧ Script.isLetter c = false ∧
      Script.isDigit c = false := by
  have hclass := isUnclassed_of_sign hkind hhead
  simp only [isUnclassed, Bool.and_eq_true, Bool.not_eq_true', bne_iff_ne] at hclass
  rcases hclass with ⟨⟨⟨hblank, hquote⟩, hletter⟩, hdigit⟩
  exact ⟨hblank, hquote, hletter, hdigit⟩

theorem not_sign_of_class {c : Char}
    (hclass : c = '"' ∨ Script.isLetter c = true ∨ Script.isDigit c = true) :
    forall kind, kind ∈ signs -> kind.text.toList.head? ≠ some c := by
  intro kind hkind hhead
  rcases class_of_sign hkind hhead with ⟨_, hquote, hletter, hdigit⟩
  rcases hclass with hclass | hclass | hclass
  · exact hquote hclass
  · rw [hletter] at hclass
    cases hclass
  · rw [hdigit] at hclass
    cases hclass

theorem no_sign {c : Char} (h : forall kind, kind ∈ signs -> kind.text.toList.head? ≠ some c) :
    extensible? c = none ∧ symbol? c = none := by
  constructor
  · unfold extensible?
    split
    · exact absurd rfl (h .assign (by decide))
    · exact absurd rfl (h .bang (by decide))
    · exact absurd rfl (h .greater (by decide))
    · exact absurd rfl (h .less (by decide))
    · rfl
  · unfold symbol?
    split
    · exact absurd rfl (h .plus (by decide))
    · exact absurd rfl (h .minus (by decide))
    · exact absurd rfl (h .star (by decide))
    · exact absurd rfl (h .slash (by decide))
    · exact absurd rfl (h .dot (by decide))
    · exact absurd rfl (h .comma (by decide))
    · exact absurd rfl (h .openParen (by decide))
    · exact absurd rfl (h .closeParen (by decide))
    · exact absurd rfl (h .openBrace (by decide))
    · exact absurd rfl (h .closeBrace (by decide))
    · rfl

theorem isLetter_eq_false_of_isDigit {c : Char} (h : Script.isDigit c = true) :
    Script.isLetter c = false := by
  rw [Script.isDigit, Bool.or_eq_true] at h
  rw [Script.isLetter, Bool.and_eq_false_iff, decide_eq_false_iff_not, decide_eq_false_iff_not]
  rcases h with hascii | hindic
  · simp only [Char.isDigit, Bool.and_eq_true, decide_eq_true_eq] at hascii
    have hnine : c ≤ '9' := hascii.right
    exact .inl fun hletter => absurd (Char.le_trans hletter hnine) (by decide)
  · simp only [Script.isIndicDigit, Bool.and_eq_true, decide_eq_true_eq] at hindic
    exact .inr fun hletter => absurd (Char.le_trans hindic.left hletter) (by decide)

theorem isWordChar_of_worded {chars : List Char} (h : Worded chars) :
    forall c, c ∈ chars -> Script.isWordChar c = true := by
  cases h with
  | intro hletter htail =>
      intro c hc
      rcases List.mem_cons.mp hc with hhead | hc
      · rw [hhead, Script.isWordChar, hletter, Bool.true_or]
      · exact htail c hc

theorem isDigit_of_mem_toDigits (n : Nat) :
    forall c, c ∈ Nat.toDigits 10 n -> c.isDigit = true := by
  intro c hc
  exact Nat.isDigit_of_mem_toDigits (b := 10) (by decide) (by decide) hc

theorem isBlank_eq_false {c : Char} (h : Script.isLetter c = true ∨ Script.isDigit c = true) :
    Script.isBlank c = false := by
  cases hblank : Script.isBlank c with
  | false => rfl
  | true =>
      simp only [Script.isBlank, Bool.or_eq_true, beq_iff_eq] at hblank
      rcases hblank with ((rfl | rfl) | rfl) | rfl <;> revert h <;> decide

/-!
## Every text has a longest lexeme
-/

theorem exists_spells_of_worded {chars : List Char} (h : Worded chars) :
    exists kind, Spells chars (.ok kind) := by
  by_cases hkeyword : exists kind, kind ∈ Kind.keywords ∧
      normal chars = Script.normalize kind.text
  · rcases hkeyword with ⟨kind, hkind, hnormal⟩
    exact ⟨kind, .keyword h hkind hnormal⟩
  · refine ⟨_, .name h ?_⟩
    intro kind hkind hnormal
    exact hkeyword ⟨kind, hkind, hnormal⟩

theorem exists_spells_of_numbered {chars : List Char} (h : Numbered chars) :
    exists meaning, Spells chars meaning := by
  by_cases hrange : Integer.InRange (numeral chars)
  · exact ⟨_, .number h hrange⟩
  · exact ⟨_, .largeNumber h hrange⟩

theorem exists_spells_singleton {c : Char} (h : Script.isBlank c = false) :
    exists meaning, Spells [c] meaning := by
  by_cases hsign : exists kind, kind ∈ signs ∧ kind.text.toList.head? = some c
  · have htable : forall kind, kind ∈ signs ->
        exists alone, alone ∈ signs ∧ alone.text.toList = kind.text.toList.take 1 := by
      decide
    rcases hsign with ⟨kind, hkind, hhead⟩
    rcases List.head?_eq_some_iff.mp hhead with ⟨tail, htail⟩
    rcases htable kind hkind with ⟨alone, halone, htext⟩
    have hspells := Spells.sign halone
    rw [htext, htail] at hspells
    exact ⟨_, hspells⟩
  · by_cases hquote : c = '"'
    · rw [hquote]
      exact ⟨_, .unterminated List.not_mem_nil⟩
    · have hnone : forall d, d ∈ ([] : List Char) -> False := fun d => List.not_mem_nil
      cases hletter : Script.isLetter c with
      | true =>
          rcases exists_spells_of_worded (.intro hletter fun d hd => (hnone d hd).elim)
            with ⟨kind, hkind⟩
          exact ⟨_, hkind⟩
      | false =>
          cases hdigit : Script.isDigit c with
          | true =>
              exact exists_spells_of_numbered (.intro hdigit fun d hd => (hnone d hd).elim)
          | false =>
              refine ⟨_, .strange ⟨h, ?_, hquote, hletter, hdigit⟩⟩
              intro kind hkind hhead
              exact hsign ⟨kind, hkind, hhead⟩

theorem exists_longest {c : Char} (h : Script.isBlank c = false) (behind : List Char) :
    exists chars rest meaning, c :: behind = chars ++ rest ∧ Longest chars rest meaning := by
  classical
  let text := c :: behind
  let Begins := fun length : Nat => exists meaning, Spells (text.take length) meaning
  have hfirst : Begins 1 := exists_spells_singleton h
  have hone : 1 ≤ text.length := Nat.succ_le_succ (Nat.zero_le _)
  -- every character begins some lexeme, so there is a greatest length
  rcases Nat.findGreatest_spec hone hfirst with ⟨meaning, hmeaning⟩
  let length := Nat.findGreatest Begins text.length
  refine ⟨text.take length, text.drop length, meaning, (List.take_append_drop _ _).symm,
    hmeaning, ?_⟩
  intro other meant hother hprefix
  rw [List.take_append_drop] at hprefix
  have hlength : other.length ≤ text.length := hprefix.length_le
  have hbegins : Begins other.length := by
    show exists meaning, Spells (text.take other.length) meaning
    rw [<- List.prefix_iff_eq_take.mp hprefix]
    exact ⟨meant, hother⟩
  rw [List.length_take, Nat.min_eq_left (Nat.findGreatest_le _)]
  exact Nat.le_findGreatest hlength hbegins

/-!
## Where a longest lexeme ends
-/

namespace Longest

variable {chars rest : List Char} {meaning : Except Flaw Kind}

theorem not_spells {d : Char} (h : Longest chars rest meaning) (hhead : rest.head? = some d)
    (meant : Except Flaw Kind) : Not (Spells (chars ++ [d]) meant) := by
  intro hspells
  rcases List.head?_eq_some_iff.mp hhead with ⟨behind, rfl⟩
  have hprefix : chars ++ [d] <+: chars ++ d :: behind := ⟨behind, by simp⟩
  have hlength := h.longest hspells hprefix
  rw [List.length_append, List.length_singleton] at hlength
  exact Nat.not_succ_le_self _ hlength

theorem worded_stop (h : Longest chars rest meaning) (hworded : Worded chars) {d : Char}
    (hhead : rest.head? = some d) : Script.isWordChar d = false := by
  cases hd : Script.isWordChar d with
  | false => rfl
  | true =>
      have hlonger : Worded (chars ++ [d]) := by
        cases hworded with
        | intro hc htail =>
            refine .intro hc ?_
            intro other hother
            rcases List.mem_append.mp hother with hother | hother
            · exact htail other hother
            · rw [List.mem_singleton.mp hother]
              exact hd
      rcases exists_spells_of_worded hlonger with ⟨kind, hkind⟩
      exact absurd hkind (h.not_spells hhead _)

theorem numbered_stop (h : Longest chars rest meaning) (hnumbered : Numbered chars) {d : Char}
    (hhead : rest.head? = some d) : Script.isDigit d = false := by
  cases hd : Script.isDigit d with
  | false => rfl
  | true =>
      have hlonger : Numbered (chars ++ [d]) := by
        cases hnumbered with
        | intro hc htail =>
            refine .intro hc ?_
            intro other hother
            rcases List.mem_append.mp hother with hother | hother
            · exact htail other hother
            · rw [List.mem_singleton.mp hother]
              exact hd
      rcases exists_spells_of_numbered hlonger with ⟨meant, hmeant⟩
      exact absurd hmeant (h.not_spells hhead _)

theorem unterminated_stop {body : List Char} (h : Longest ('"' :: body) rest meaning)
    (hbody : '"' ∉ body) : rest = [] := by
  cases rest with
  | nil => rfl
  | cons d behind =>
      by_cases hd : d = '"'
      · rw [hd] at h
        exact absurd (.quoted hbody) (h.not_spells rfl _)
      · have hlonger : '"' ∉ body ++ [d] := by
          intro hmem
          rcases List.mem_append.mp hmem with hmem | hmem
          · exact hbody hmem
          · exact hd (List.mem_singleton.mp hmem).symm
        exact absurd (.unterminated hlonger) (h.not_spells rfl _)

end Longest

/-!
## A scan takes the longest lexeme
-/

def placed (place : Position) : Except Flaw Kind -> Except ScanError Token
  | .ok kind => .ok ⟨kind, place⟩
  | .error flaw => .error ⟨place, flaw⟩

theorem takeWhile_append_of_stop {isOne : Char -> Bool} {front rest : List Char}
    (hfront : forall c, c ∈ front -> isOne c = true)
    (hstop : forall c, rest.head? = some c -> isOne c = false) :
    (front ++ rest).takeWhile isOne = front ∧ (front ++ rest).dropWhile isOne = rest := by
  rw [List.takeWhile_append_of_pos hfront, List.dropWhile_append_of_pos hfront]
  cases rest with
  | nil => simp
  | cons c behind =>
      have hc : Not (isOne c = true) := by
        rw [hstop c rfl]
        exact Bool.false_ne_true
      rw [List.takeWhile_cons_of_neg hc, List.dropWhile_cons_of_neg hc, List.append_nil]
      exact ⟨rfl, rfl⟩

theorem ofWord_of_keyword {chars : List Char} {kind : Kind} (hkind : kind ∈ Kind.keywords)
    (hnormal : normal chars = Script.normalize kind.text) :
    Kind.ofWord (normal chars) = kind := by
  have htable : forall kind, kind ∈ Kind.keywords ->
      Kind.ofWord (Script.normalize kind.text) = kind := by
    decide +kernel
  rw [hnormal]
  exact htable kind hkind

theorem ofWord_of_name {chars : List Char}
    (h : forall kind, kind ∈ Kind.keywords -> normal chars ≠ Script.normalize kind.text) :
    Kind.ofWord (normal chars) = .name (normal chars) := by
  have hnone : Kind.keyword? (normal chars) = none := by
    rw [Kind.keyword?, List.find?_eq_none]
    intro kind hkind
    rw [beq_iff_eq]
    exact fun hnormal => h kind hkind hnormal.symm
  rw [Kind.ofWord, hnone]
  rfl

namespace Cursor

variable {cursor : Cursor} {before behind : List Char} {c : Char}

/-- The scan of a lexeme that begins with the character gives the result, and then the
cursor stands behind the lexeme. -/
def Scans (cursor : Cursor) (c : Char) (before chars rest : List Char)
    (meaning : Except Flaw Kind) : Prop :=
  (cursor.scanLexeme c).1 = placed (Position.start.after before) meaning ∧
    (cursor.scanLexeme c).2.Stands before chars rest

theorem token_of_stands {lexeme : List Char} (h : cursor.Stands before lexeme behind)
    (kind : Kind) : cursor.token kind = placed (Position.start.after before) (.ok kind) := by
  rw [token, h.start]
  rfl

theorem flaw_of_stands {lexeme : List Char} (h : cursor.Stands before lexeme behind)
    (flaw : Flaw) :
    cursor.flaw flaw = placed (Position.start.after before) (.error flaw) := by
  rw [Cursor.flaw, h.start]
  rfl

theorem scanLexeme_word (hletter : Script.isLetter c = true) :
    cursor.scanLexeme c = cursor.scanWord := by
  have hsigns := not_sign_of_class (.inr (.inl hletter))
  have hquote : (c == '"') = false := by
    rw [beq_eq_false_iff_ne]
    rintro rfl
    cases hletter
  rw [scanLexeme, (no_sign hsigns).left, (no_sign hsigns).right]
  simp only [hquote, hletter, if_true, Bool.false_eq_true, if_false]

theorem word_scans {tail rest : List Char} {kind : Kind}
    (h : cursor.Stands before [c] (tail ++ rest))
    (hlongest : Longest (c :: tail) rest (.ok kind)) (hworded : Worded (c :: tail))
    (hkind : Kind.ofWord (normal (c :: tail)) = kind) :
    cursor.Scans c before (c :: tail) rest (.ok kind) := by
  have hstop : forall d, rest.head? = some d -> Script.isWordChar d = false :=
    fun d hd => hlongest.worded_stop hworded hd
  cases hworded with
  | intro hletter htail =>
      have hlast := consumeWhile_stands Script.isWordChar h
      rcases takeWhile_append_of_stop htail hstop with ⟨htaken, hleft⟩
      rw [htaken, hleft] at hlast
      rw [Scans, scanLexeme_word hletter]
      refine ⟨?_, hlast⟩
      show (cursor.consumeWhile Script.isWordChar).token _ = _
      rw [token_of_stands hlast, text_of_stands hlast]
      show placed _ (.ok (Kind.ofWord (normal (c :: tail)))) = _
      rw [hkind]

theorem scanLexeme_number (hdigit : Script.isDigit c = true) :
    cursor.scanLexeme c = cursor.scanNumber := by
  have hsigns := not_sign_of_class (.inr (.inr hdigit))
  have hletter := isLetter_eq_false_of_isDigit hdigit
  have hquote : (c == '"') = false := by
    rw [beq_eq_false_iff_ne]
    rintro rfl
    cases hdigit
  rw [scanLexeme, (no_sign hsigns).left, (no_sign hsigns).right]
  simp only [hquote, hletter, hdigit, if_true, Bool.false_eq_true, if_false]

theorem scanNumber_of_fit? {chars : List Char} {value : Int}
    (htext : (cursor.consumeWhile Script.isDigit).text = String.ofList chars)
    (hfit : Integer.fit? (numeral chars) = some value) :
    cursor.scanNumber.1 = (cursor.consumeWhile Script.isDigit).token (.int value) := by
  rw [numeral, normal] at hfit
  simp only [scanNumber, htext, hfit]

theorem scanNumber_of_not_fit? {chars : List Char}
    (htext : (cursor.consumeWhile Script.isDigit).text = String.ofList chars)
    (hfit : Integer.fit? (numeral chars) = none) :
    cursor.scanNumber.1 =
      (cursor.consumeWhile Script.isDigit).flaw (.numberOutOfRange (normal chars)) := by
  rw [numeral, normal] at hfit
  simp only [scanNumber, htext, hfit, normal]

theorem number_scans {tail rest : List Char} {meaning : Except Flaw Kind}
    (h : cursor.Stands before [c] (tail ++ rest))
    (hlongest : Longest (c :: tail) rest meaning) (hnumbered : Numbered (c :: tail))
    (hmeaning : meaning =
      match Integer.fit? (numeral (c :: tail)) with
      | some value => .ok (.int value)
      | none => .error (.numberOutOfRange (normal (c :: tail)))) :
    cursor.Scans c before (c :: tail) rest meaning := by
  have hstop : forall d, rest.head? = some d -> Script.isDigit d = false :=
    fun d hd => hlongest.numbered_stop hnumbered hd
  cases hnumbered with
  | intro hdigit htail =>
      have hlast := consumeWhile_stands Script.isDigit h
      rcases takeWhile_append_of_stop htail hstop with ⟨htaken, hleft⟩
      rw [htaken, hleft] at hlast
      rw [Scans, scanLexeme_number hdigit, scanNumber_snd]
      refine ⟨?_, hlast⟩
      have htext := text_of_stands hlast
      rw [hmeaning]
      cases hfit : Integer.fit? (numeral (c :: tail)) with
      | some value =>
          rw [scanNumber_of_fit? htext hfit]
          exact token_of_stands hlast (.int value)
      | none =>
          rw [scanNumber_of_not_fit? htext hfit]
          exact flaw_of_stands hlast (.numberOutOfRange (normal (c :: tail)))

theorem scanLexeme_quote : cursor.scanLexeme '"' = cursor.scanQuoted :=
  rfl

theorem not_quote_of_mem {body : List Char} (hbody : '"' ∉ body) :
    forall d, d ∈ body -> (d != '"') = true := by
  intro d hd
  rw [bne_iff_ne]
  rintro rfl
  exact hbody hd

theorem scanQuoted_of_some {last : Cursor}
    (h : (cursor.consumeWhile (· != '"')).consume = (some c, last)) :
    cursor.scanQuoted.1 =
      last.token (.str (last.slice (last.startIndex + 1) (last.index - 1))) := by
  rw [scanQuoted, h]

theorem scanQuoted_of_none {last : Cursor}
    (h : (cursor.consumeWhile (· != '"')).consume = (none, last)) :
    cursor.scanQuoted.1 = last.flaw .unterminatedString := by
  rw [scanQuoted, h]

theorem quoted_scans {body rest : List Char}
    (h : cursor.Stands before ['"'] (body ++ ['"'] ++ rest)) (hbody : '"' ∉ body) :
    cursor.Scans '"' before ('"' :: (body ++ ['"'])) rest
      (.ok (.str (String.ofList body))) := by
  have hstop : forall d, (['"'] ++ rest).head? = some d -> (d != '"') = false := by
    intro d hd
    cases hd
    rfl
  have hclosing := consumeWhile_stands (· != '"') h
  rcases takeWhile_append_of_stop (not_quote_of_mem hbody) hstop with ⟨htaken, hleft⟩
  rw [List.append_assoc, htaken, hleft] at hclosing
  have hlast := consume_stands hclosing
  have hfirst := consume_fst_of_stands hclosing
  rw [List.append_assoc] at hlast
  rw [Scans, scanLexeme_quote, scanQuoted_snd, scanQuoted_of_some (Prod.ext hfirst rfl)]
  refine ⟨?_, hlast⟩
  rw [slice_quoted hlast]
  exact token_of_stands hlast _

theorem unterminated_scans {body : List Char} (h : cursor.Stands before ['"'] body)
    (hbody : '"' ∉ body) :
    cursor.Scans '"' before ('"' :: body) [] (.error .unterminatedString) := by
  have hend : forall d, ([] : List Char).head? = some d -> (d != '"') = false := by
    intro d hd
    cases hd
  have hlast := consumeWhile_stands (· != '"') h
  rcases takeWhile_append_of_stop (not_quote_of_mem hbody) hend with ⟨htaken, hleft⟩
  rw [List.append_nil] at htaken hleft
  rw [htaken, hleft] at hlast
  have hconsume := consume_of_stands_nil hlast
  rw [Scans, scanLexeme_quote, scanQuoted_snd, scanQuoted_of_none hconsume, hconsume]
  exact ⟨flaw_of_stands hlast _, hlast⟩

/-!
## Signs
-/

theorem sign_cases {kind : Kind} (hkind : kind ∈ signs) :
    (exists c, kind.text.toList = [c] ∧ extensible? c = none ∧ symbol? c = some kind) ∨
      (exists c extended, kind.text.toList = [c] ∧ extensible? c = some (kind, extended) ∧
        extended ∈ signs ∧ extended.text.toList = [c, '=']) ∨
      exists c alone, kind.text.toList = [c, '='] ∧ extensible? c = some (alone, kind) := by
  simp only [signs, List.mem_cons, List.not_mem_nil, or_false] at hkind
  rcases hkind with rfl | rfl | rfl | rfl | rfl | rfl | rfl | rfl | hsymbol
  · exact .inr (.inl ⟨'=', .equal, rfl, rfl, by decide, rfl⟩)
  · exact .inr (.inr ⟨'=', .assign, rfl, rfl⟩)
  · exact .inr (.inl ⟨'!', .notEqual, rfl, rfl, by decide, rfl⟩)
  · exact .inr (.inr ⟨'!', .bang, rfl, rfl⟩)
  · exact .inr (.inl ⟨'>', .greaterEqual, rfl, rfl, by decide, rfl⟩)
  · exact .inr (.inr ⟨'>', .greater, rfl, rfl⟩)
  · exact .inr (.inl ⟨'<', .lessEqual, rfl, rfl, by decide, rfl⟩)
  · exact .inr (.inr ⟨'<', .less, rfl, rfl⟩)
  · rcases hsymbol with rfl | rfl | rfl | rfl | rfl | rfl | rfl | rfl | rfl | rfl <;>
      exact .inl ⟨_, rfl, rfl, rfl⟩

theorem scanLexeme_symbol {kind : Kind} (hextensible : extensible? c = none)
    (hsymbol : symbol? c = some kind) :
    cursor.scanLexeme c = (cursor.token kind, cursor) := by
  rw [scanLexeme, hextensible, hsymbol]

theorem scanLexeme_extensible {alone extended : Kind}
    (hextensible : extensible? c = some (alone, extended)) :
    cursor.scanLexeme c =
      ((cursor.expect '=').2.token (if (cursor.expect '=').1 then extended else alone),
        (cursor.expect '=').2) := by
  rw [scanLexeme, hextensible]

theorem sign_scans {tail rest : List Char} {kind : Kind}
    (h : cursor.Stands before [c] (tail ++ rest))
    (hlongest : Longest (c :: tail) rest (.ok kind)) (hkind : kind ∈ signs)
    (htext : kind.text.toList = c :: tail) :
    cursor.Scans c before (c :: tail) rest (.ok kind) := by
  rcases sign_cases hkind with ⟨d, hd, hnone, hsymbol⟩ |
    ⟨d, extended, hd, hextensible, hextended, hspelled⟩ | ⟨d, alone, hd, hextensible⟩
  · cases htext.symm.trans hd
    rw [Scans, scanLexeme_symbol hnone hsymbol]
    exact ⟨token_of_stands h kind, h⟩
  · cases htext.symm.trans hd
    have hhead : rest.head? ≠ some '=' := by
      intro hhead
      have hspells := Spells.sign hextended
      rw [hspelled] at hspells
      exact hlongest.not_spells hhead _ hspells
    rcases expect_stands_of_ne h hhead with ⟨hfound, hlast⟩
    rw [Scans, scanLexeme_extensible hextensible, hfound]
    exact ⟨token_of_stands hlast kind, hlast⟩
  · cases htext.symm.trans hd
    rcases expect_stands_of_eq h with ⟨hfound, hlast⟩
    rw [Scans, scanLexeme_extensible hextensible, hfound]
    exact ⟨token_of_stands hlast kind, hlast⟩

theorem strange_scans {rest : List Char} (h : cursor.Stands before [c] rest)
    (hstrange : Strange c) :
    cursor.Scans c before [c] rest (.error (.unknownCharacter c)) := by
  have hquote : (c == '"') = false := beq_eq_false_iff_ne.mpr hstrange.notQuote
  have hscan : cursor.scanLexeme c = (cursor.flaw (.unknownCharacter c), cursor) := by
    rw [scanLexeme, (no_sign hstrange.notSign).left, (no_sign hstrange.notSign).right]
    simp only [hquote, hstrange.notLetter, hstrange.notDigit, Bool.false_eq_true, if_false]
  rw [Scans, hscan]
  exact ⟨flaw_of_stands h _, h⟩

/-!
## Lexemes behind blanks
-/

theorem longest_scans {tail rest : List Char} {meaning : Except Flaw Kind}
    (h : cursor.Stands before [c] (tail ++ rest)) (hlongest : Longest (c :: tail) rest meaning) :
    cursor.Scans c before (c :: tail) rest meaning := by
  generalize hchars : c :: tail = chars at hlongest
  have hspells := hlongest.spells
  cases hspells with
  | @sign kind hkind =>
      rw [<- hchars] at hlongest ⊢
      exact sign_scans h hlongest hkind hchars.symm
  | @quoted body hbody =>
      cases hchars
      exact quoted_scans h hbody
  | @unterminated body hbody =>
      cases hchars
      have hrest := hlongest.unterminated_stop hbody
      rw [hrest, List.append_nil] at h
      rw [hrest]
      exact unterminated_scans h hbody
  | keyword hworded hkind hnormal =>
      subst hchars
      exact word_scans h hlongest hworded (ofWord_of_keyword hkind hnormal)
  | name hworded hnormal =>
      subst hchars
      exact word_scans h hlongest hworded (ofWord_of_name hnormal)
  | number hnumbered hrange =>
      subst hchars
      have hfit := Integer.fit?_eq_some_iff.mpr ⟨hrange, rfl⟩
      exact number_scans h hlongest hnumbered (by rw [hfit])
  | largeNumber hnumbered hrange =>
      subst hchars
      have hfit := Integer.fit?_eq_none_iff.mpr hrange
      exact number_scans h hlongest hnumbered (by rw [hfit])
  | strange hstrange =>
      cases hchars
      exact strange_scans h hstrange

end Cursor

theorem spells_head {chars : List Char} {meaning : Except Flaw Kind} (h : Spells chars meaning) :
    exists c tail, chars = c :: tail ∧ Script.isBlank c = false := by
  have hworded : forall {chars}, Worded chars ->
      exists c tail, chars = c :: tail ∧ Script.isBlank c = false := by
    intro chars hworded
    cases hworded with
    | intro hletter _ => exact ⟨_, _, rfl, isBlank_eq_false (.inl hletter)⟩
  have hnumbered : forall {chars}, Numbered chars ->
      exists c tail, chars = c :: tail ∧ Script.isBlank c = false := by
    intro chars hnumbered
    cases hnumbered with
    | intro hdigit _ => exact ⟨_, _, rfl, isBlank_eq_false (.inr hdigit)⟩
  cases h with
  | @sign kind hkind =>
      cases htext : kind.text.toList with
      | nil =>
          have hsome : forall kind, kind ∈ signs -> kind.text.toList ≠ [] := by decide
          exact absurd htext (hsome kind hkind)
      | cons c tail =>
          have hhead : kind.text.toList.head? = some c := by rw [htext, List.head?_cons]
          exact ⟨c, tail, rfl, (class_of_sign hkind hhead).left⟩
  | quoted => exact ⟨_, _, rfl, rfl⟩
  | unterminated => exact ⟨_, _, rfl, rfl⟩
  | keyword h => exact hworded h
  | name h => exact hworded h
  | number h => exact hnumbered h
  | largeNumber h => exact hnumbered h
  | strange h => exact ⟨_, _, rfl, h.notBlank⟩

namespace Cursor

variable {cursor : Cursor} {before lexeme behind blanks chars rest : List Char}

theorem skipBlanks_stands_of_blank (h : cursor.Stands before lexeme (blanks ++ behind))
    (hblanks : Blank blanks)
    (hbehind : forall c, behind.head? = some c -> Script.isBlank c = false) :
    cursor.skipBlanks.Stands (before ++ lexeme ++ blanks) [] behind := by
  have hskipped := skipBlanks_stands h
  rcases takeWhile_append_of_stop hblanks hbehind with ⟨htaken, hleft⟩
  rw [htaken, hleft] at hskipped
  exact hskipped

theorem scan_of_blank (h : cursor.Stands before lexeme blanks) (hblanks : Blank blanks) :
    cursor.scan.1 = .ok ⟨.eof, Position.start.after (before ++ lexeme ++ blanks)⟩ := by
  rw [<- List.append_nil blanks] at h
  have hend : forall c, ([] : List Char).head? = some c -> Script.isBlank c = false := by
    intro c hc
    cases hc
  have hskipped := skipBlanks_stands_of_blank h hblanks hend
  rw [scan, consume_of_stands_nil hskipped]
  exact token_of_stands hskipped .eof

theorem scan_of_longest {meaning : Except Flaw Kind}
    (h : cursor.Stands before lexeme (blanks ++ (chars ++ rest))) (hblanks : Blank blanks)
    (hlongest : Longest chars rest meaning) :
    cursor.scan.1 = placed (Position.start.after (before ++ lexeme ++ blanks)) meaning ∧
      cursor.scan.2.Stands (before ++ lexeme ++ blanks) chars rest := by
  rcases spells_head hlongest.spells with ⟨c, tail, rfl, hc⟩
  have hhead : forall d, (c :: tail ++ rest).head? = some d -> Script.isBlank d = false := by
    intro d hd
    cases hd
    exact hc
  have hskipped := skipBlanks_stands_of_blank h hblanks hhead
  have hnext := consume_stands hskipped
  have hfirst : cursor.skipBlanks.consume.1 = some c := consume_fst_of_stands hskipped
  have hscan : cursor.scan = cursor.skipBlanks.consume.2.scanLexeme c := by
    have hconsume : cursor.skipBlanks.consume = (some c, cursor.skipBlanks.consume.2) :=
      Prod.ext hfirst rfl
    rw [scan, hconsume]
  rw [hscan]
  exact longest_scans hnext hlongest

end Cursor

/-!
## All tokens of a text
-/

theorem kind_ne_eof_of_spells {chars : List Char} {kind : Kind} (h : Spells chars (.ok kind)) :
    kind ≠ .eof := by
  rintro rfl
  cases h with
  | sign hkind => exact absurd hkind (by decide)
  | keyword _ hkind _ => exact absurd hkind (by decide)

namespace Cursor

variable {cursor : Cursor} {before lexeme behind : List Char}

theorem tokens_of_error {e : ScanError} (h : cursor.scan.1 = .error e) :
    cursor.tokens = .error e := by
  rw [tokens]
  split
  · simp_all
  · simp_all

theorem tokens_of_end {token : Token} (h : cursor.scan.1 = .ok token)
    (hend : token.isEof = true) : cursor.tokens = .ok [token] := by
  rw [tokens]
  split
  · simp_all
  · simp_all

theorem tokens_of_token {token : Token} (h : cursor.scan.1 = .ok token)
    (hend : token.isEof = false) :
    cursor.tokens = (cursor.scan.2.tokens).map (token :: ·) := by
  rw [tokens]
  split
  · simp_all
  · simp_all

theorem place_after {place : Position} {blanks chars : List Char}
    (hplace : place = Position.start.after (before ++ lexeme)) :
    place.after (blanks ++ chars) =
      Position.start.after (before ++ lexeme ++ blanks ++ chars) := by
  rw [hplace, <- Position.after_append, List.append_assoc _ blanks]

theorem tokens_of_cut {place : Position} {found : List Token} (hcut : Cut place behind found)
    (h : cursor.Stands before lexeme behind)
    (hplace : place = Position.start.after (before ++ lexeme)) :
    cursor.tokens = .ok found := by
  induction hcut generalizing cursor before lexeme with
  | done hblanks =>
      have hscan := scan_of_blank h hblanks
      rw [tokens_of_end hscan rfl, hplace, Position.after_append _ (before ++ lexeme)]
  | lexeme hblanks hlongest _ ih =>
      rcases scan_of_longest h hblanks hlongest with ⟨hscan, hlast⟩
      have hend := kind_ne_eof_of_spells hlongest.spells
      rw [tokens_of_token hscan (beq_eq_false_iff_ne.mpr hend), ih hlast (place_after hplace),
        hplace, Position.after_append _ (before ++ lexeme)]
      rfl

theorem tokens_of_fails {place : Position} {e : ScanError} (hfails : Fails place behind e)
    (h : cursor.Stands before lexeme behind)
    (hplace : place = Position.start.after (before ++ lexeme)) :
    cursor.tokens = .error e := by
  induction hfails generalizing cursor before lexeme with
  | flaw hblanks hlongest =>
      rcases scan_of_longest h hblanks hlongest with ⟨hscan, _⟩
      rw [tokens_of_error hscan, hplace, Position.after_append _ (before ++ lexeme)]
  | later hblanks hlongest _ ih =>
      rcases scan_of_longest h hblanks hlongest with ⟨hscan, hlast⟩
      have hend := kind_ne_eof_of_spells hlongest.spells
      rw [tokens_of_token hscan (beq_eq_false_iff_ne.mpr hend), ih hlast (place_after hplace)]
      rfl

end Cursor

theorem blank_or_longest (behind : List Char) :
    Blank behind ∨ exists blanks chars rest meaning,
      behind = blanks ++ (chars ++ rest) ∧ Blank blanks ∧ Longest chars rest meaning := by
  have hsplit := List.takeWhile_append_dropWhile (p := Script.isBlank) (l := behind)
  have hblank : Blank (behind.takeWhile Script.isBlank) :=
    fun c hc => List.mem_takeWhile_imp hc
  cases hfollowing : behind.dropWhile Script.isBlank with
  | nil =>
      rw [hfollowing, List.append_nil] at hsplit
      rw [hsplit] at hblank
      exact .inl hblank
  | cons c tail =>
      have hhead := List.head?_dropWhile_not Script.isBlank behind
      rw [hfollowing] at hhead hsplit
      rcases exists_longest hhead tail with ⟨chars, rest, meaning, htext, hlongest⟩
      rw [htext] at hsplit
      exact .inr ⟨_, chars, rest, meaning, hsplit.symm, hblank, hlongest⟩

theorem length_lt_of_longest {blanks chars rest : List Char} {meaning : Except Flaw Kind}
    (h : Longest chars rest meaning) : rest.length < (blanks ++ (chars ++ rest)).length := by
  rcases spells_head h.spells with ⟨d, others, hchars, _⟩
  rw [hchars]
  simp only [List.length_append, List.length_cons]
  omega

theorem cut_or_fails (behind : List Char) (place : Position) :
    (exists found, Cut place behind found) ∨ exists e, Fails place behind e := by
  rcases blank_or_longest behind with
    hblank | ⟨blanks, chars, rest, meaning, hbehind, hblank, hlongest⟩
  · exact .inl ⟨_, .done hblank⟩
  · have hlength : rest.length < behind.length := by
      rw [hbehind]
      exact length_lt_of_longest hlongest
    rw [hbehind]
    cases meaning with
    | error flaw => exact .inr ⟨_, .flaw hblank hlongest⟩
    | ok kind =>
        rcases cut_or_fails rest (place.after (blanks ++ chars)) with ⟨found, hfound⟩ | ⟨e, he⟩
        · exact .inl ⟨_, .lexeme hblank hlongest hfound⟩
        · exact .inr ⟨_, .later hblank hlongest he⟩
termination_by behind.length

theorem ofText_of_cut {text : String} {found : List Token} (h : Cut .start text.toList found) :
    ofText text = .ok found :=
  Cursor.tokens_of_cut h (Cursor.ofText_stands text) rfl

theorem ofText_of_fails {text : String} {e : ScanError} (h : Fails .start text.toList e) :
    ofText text = .error e :=
  Cursor.tokens_of_fails h (Cursor.ofText_stands text) rfl

/-- The tokens of a text are those of its longest lexemes, and then the one that marks
the end. Every other text fails, with the flaw of the first longest lexeme that has one. -/
theorem ofText_eq_iff (text : String) :
    (forall found, ofText text = .ok found <-> Cut .start text.toList found) ∧
      forall e, ofText text = .error e <-> Fails .start text.toList e := by
  have hstands := Cursor.ofText_stands text
  have hcut : forall {found}, Cut .start text.toList found -> ofText text = .ok found :=
    fun h => Cursor.tokens_of_cut h hstands rfl
  have hfails : forall {e}, Fails .start text.toList e -> ofText text = .error e :=
    fun h => Cursor.tokens_of_fails h hstands rfl
  constructor
  · intro found
    refine ⟨?_, hcut⟩
    intro h
    rcases cut_or_fails text.toList .start with ⟨other, hother⟩ | ⟨e, he⟩
    · rw [hcut hother] at h
      cases h
      exact hother
    · rw [hfails he] at h
      cases h
  · intro e
    refine ⟨?_, hfails⟩
    intro h
    rcases cut_or_fails text.toList .start with ⟨other, hother⟩ | ⟨e', he⟩
    · rw [hcut hother] at h
      cases h
    · rw [hfails he] at h
      cases h
      exact he

end Token
end Lisan
