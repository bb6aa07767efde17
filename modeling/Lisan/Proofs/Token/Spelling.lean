import Lisan.Capability
import Lisan.Interpretation
import Lisan.Proofs.Token.Scanning

/-!
# Spelling variants of a text

Two texts are spelled alike if they are the same within quotes, and outside of them each
character of the one is a variant of the character of the other. Folding a character
changes none of the classes that scanning looks at, so such texts are cut at the same
places, and are the same program.
-/

namespace Lisan

/-!
## Folding keeps the classes of characters
-/

namespace Script

theorem fold_cases (c : Char) :
    fold c = c ∨ (c, fold c) ∈ variants ∨ isDigit c = true ∧ isDigit (fold c) = true := by
  by_cases hdigit : isIndicDigit c = true
  · have htable : forall n, n < 10 ->
        isDigit (fold (Char.ofNat (n + '\u0660'.toNat))) = true := by
      decide +kernel
    rcases exists_of_isIndicDigit hdigit with ⟨n, hn, hc⟩
    refine .inr (.inr ⟨?_, ?_⟩)
    · rw [isDigit, hdigit, Bool.or_true]
    · rw [hc]
      exact htable n hn
  · have hfold : fold c = (variants.lookup c).getD c := if_neg hdigit
    cases hlookup : variants.lookup c with
    | none =>
        rw [hlookup] at hfold
        exact .inl hfold
    | some d =>
        rw [hlookup] at hfold
        rw [hfold]
        exact .inr (.inl (mem_of_lookup_eq_some hlookup))

theorem isLetter_fold (c : Char) : isLetter (fold c) = isLetter c := by
  rcases fold_cases c with hsame | hvariant | ⟨hdigit, hfold⟩
  · rw [hsame]
  · have htable : forall pair, pair ∈ variants -> isLetter pair.2 = isLetter pair.1 := by
      decide
    exact htable _ hvariant
  · rw [Token.isLetter_eq_false_of_isDigit hdigit, Token.isLetter_eq_false_of_isDigit hfold]

theorem isDigit_fold (c : Char) : isDigit (fold c) = isDigit c := by
  rcases fold_cases c with hsame | hvariant | ⟨hdigit, hfold⟩
  · rw [hsame]
  · have htable : forall pair, pair ∈ variants -> isDigit pair.2 = isDigit pair.1 := by
      decide
    exact htable _ hvariant
  · rw [hdigit, hfold]

def isPlain (c : Char) : Bool :=
  !isLetter c && !isDigit c

theorem isPlain_fold (c : Char) : isPlain (fold c) = isPlain c := by
  rw [isPlain, isPlain, isLetter_fold, isDigit_fold]

theorem fold_of_isPlain {c : Char} (h : isPlain c = true) : fold c = c := by
  simp only [isPlain, Bool.and_eq_true, Bool.not_eq_true'] at h
  rcases fold_cases c with hsame | hvariant | ⟨hdigit, _⟩
  · exact hsame
  · have htable : forall pair, pair ∈ variants -> isLetter pair.1 = true := by
      decide
    have hletter := htable _ hvariant
    rw [h.left] at hletter
    cases hletter
  · rw [h.right] at hdigit
    cases hdigit

variable {c d : Char}

theorem isLetter_eq_of_fold_eq (h : fold c = fold d) : isLetter c = isLetter d := by
  rw [<- isLetter_fold, h, isLetter_fold]

theorem isDigit_eq_of_fold_eq (h : fold c = fold d) : isDigit c = isDigit d := by
  rw [<- isDigit_fold, h, isDigit_fold]

theorem eq_of_fold_eq (h : fold c = fold d) (hc : isPlain c = true) : c = d := by
  have hd : isPlain d = true := by
    rw [<- isPlain_fold, <- h, isPlain_fold, hc]
  rw [fold_of_isPlain hc, fold_of_isPlain hd] at h
  exact h

theorem eq_iff_of_fold_eq (h : fold c = fold d) {sign : Char} (hsign : isPlain sign = true) :
    c = sign <-> d = sign := by
  constructor
  · rintro rfl
    exact (eq_of_fold_eq h hsign).symm
  · rintro rfl
    exact (eq_of_fold_eq h.symm hsign).symm

theorem isWordChar_eq_of_fold_eq (h : fold c = fold d) : isWordChar c = isWordChar d := by
  have hline : (c == '_') = (d == '_') :=
    Bool.eq_iff_iff.mpr (by simpa using eq_iff_of_fold_eq h rfl)
  rw [isWordChar, isWordChar, isLetter_eq_of_fold_eq h, hline]

end Script

namespace Token

/-!
## Texts that are spelled alike
-/

def openQuote (quoted : Bool) (chars : List Char) : Bool :=
  chars.foldl (fun quoted c => if c = '"' then !quoted else quoted) quoted

/-- Characters that are spelled alike, where a quote may be open before them. -/
inductive Variants : Bool -> List Char -> List Char -> Prop where
  | nil {quoted : Bool} : Variants quoted [] []
  | cons {quoted : Bool} {c d : Char} {rest other : List Char} :
      Script.fold c = Script.fold d -> (quoted = true -> c = d) ->
      Variants (openQuote quoted [c]) rest other -> Variants quoted (c :: rest) (d :: other)

namespace Variants

variable {quoted : Bool} {chars other front back : List Char}

theorem openQuote_eq {c d : Char} (h : Script.fold c = Script.fold d) :
    openQuote quoted [c] = openQuote quoted [d] := by
  have hquote : c = '"' <-> d = '"' := Script.eq_iff_of_fold_eq h rfl
  simp only [openQuote, List.foldl_cons, List.foldl_nil, hquote]

theorem symm (h : Variants quoted chars other) : Variants quoted other chars := by
  induction h with
  | nil => exact .nil
  | cons hfold hsame _ ih =>
      rw [openQuote_eq hfold] at ih
      exact .cons hfold.symm (fun hquoted => (hsame hquoted).symm) ih

theorem length_eq (h : Variants quoted chars other) : chars.length = other.length := by
  induction h with
  | nil => rfl
  | cons _ _ _ ih => rw [List.length_cons, List.length_cons, ih]

theorem map_fold_eq (h : Variants quoted chars other) :
    chars.map Script.fold = other.map Script.fold := by
  induction h with
  | nil => rfl
  | cons hfold _ _ ih => rw [List.map_cons, List.map_cons, hfold, ih]

theorem split (h : Variants quoted (front ++ back) other) :
    exists front' back', other = front' ++ back' ∧ Variants quoted front front' ∧
      Variants (openQuote quoted front) back back' := by
  induction front generalizing quoted other with
  | nil => exact ⟨[], other, rfl, .nil, h⟩
  | cons c front ih =>
      cases h with
      | cons hfold hsame hrest =>
          rcases ih hrest with ⟨front', back', rfl, hfront, hback⟩
          exact ⟨_ :: front', back', rfl, .cons hfold hsame hfront, hback⟩

theorem eq_of_isPlain (h : Variants quoted chars other)
    (hplain : forall c, c ∈ chars -> Script.isPlain c = true) : other = chars := by
  induction h with
  | nil => rfl
  | cons hfold _ _ ih =>
      rw [Script.eq_of_fold_eq hfold (hplain _ List.mem_cons_self),
        ih fun c hc => hplain c (List.mem_cons_of_mem _ hc)]

theorem append {front' back' : List Char} (hfront : Variants quoted front front')
    (hback : Variants (openQuote quoted front) back back') :
    Variants quoted (front ++ back) (front' ++ back') := by
  induction hfront with
  | nil => exact hback
  | cons hfold hsame _ ih => exact .cons hfold hsame (ih hback)

theorem exists_of_mem (h : Variants quoted chars other) {d : Char} (hd : d ∈ other) :
    exists c, c ∈ chars ∧ Script.fold c = Script.fold d := by
  have hmem : Script.fold d ∈ other.map Script.fold := List.mem_map_of_mem hd
  rw [<- h.map_fold_eq] at hmem
  exact List.mem_map.mp hmem

theorem normal_eq (h : Variants quoted chars other) : normal chars = normal other := by
  simp only [normal, Script.normalize, String.toList_ofList, h.map_fold_eq]

theorem after_eq (h : Variants quoted chars other) (place : Position) :
    place.after chars = place.after other := by
  induction h generalizing place with
  | nil => rfl
  | @cons quoted c d rest other hfold _ _ ih =>
      have hline : c = '\n' <-> d = '\n' := Script.eq_iff_of_fold_eq hfold rfl
      have hnext : place.next c = place.next d := by
        simp only [Position.next, hline]
      rw [Position.after_cons, Position.after_cons, hnext, ih]

theorem eq_of_quoted (h : Variants quoted chars other) (hquoted : quoted = true)
    (hchars : '"' ∉ chars) : other = chars := by
  induction h with
  | nil => rfl
  | @cons quoted c d rest other _ hsame _ ih =>
      rw [List.mem_cons, not_or] at hchars
      have hopen : openQuote quoted [c] = true := by
        rw [openQuote, List.foldl_cons, if_neg (Ne.symm hchars.left), hquoted]
        rfl
      rw [hsame hquoted, ih hopen hchars.right]

end Variants

/-!
## Lexemes and their variants
-/

theorem openQuote_append (quoted : Bool) (front back : List Char) :
    openQuote quoted (front ++ back) = openQuote (openQuote quoted front) back := by
  rw [openQuote, List.foldl_append, openQuote, openQuote]

theorem openQuote_of_not_mem (quoted : Bool) {chars : List Char} (h : '"' ∉ chars) :
    openQuote quoted chars = quoted := by
  induction chars with
  | nil => rfl
  | cons c rest ih =>
      rw [List.mem_cons, not_or] at h
      rw [openQuote, List.foldl_cons, if_neg (Ne.symm h.left)]
      exact ih h.right

theorem isPlain_of_isBlank {c : Char} (h : Script.isBlank c = true) :
    Script.isPlain c = true := by
  simp only [Script.isBlank, Bool.or_eq_true, beq_iff_eq] at h
  rcases h with ((rfl | rfl) | rfl) | rfl <;> decide

theorem not_quote_of_isBlank {blanks : List Char} (h : Blank blanks) : '"' ∉ blanks := by
  intro hmem
  exact absurd (h '"' hmem) (by decide)

theorem isPlain_of_sign {kind : Kind} (hkind : kind ∈ signs) :
    forall c, c ∈ kind.text.toList -> Script.isPlain c = true := by
  have htable : forall kind, kind ∈ signs ->
      kind.text.toList.all Script.isPlain = true := by
    decide
  exact List.all_eq_true.mp (htable kind hkind)

theorem Worded.variant {chars other : List Char} (h : Worded chars)
    (hother : Variants false chars other) : Worded other := by
  cases h with
  | intro hletter htail =>
      cases hother with
      | cons hfold _ hrest =>
          refine .intro ?_ ?_
          · rw [<- Script.isLetter_eq_of_fold_eq hfold, hletter]
          · intro d hd
            rcases hrest.exists_of_mem hd with ⟨c, hc, hfold⟩
            rw [<- Script.isWordChar_eq_of_fold_eq hfold, htail c hc]

theorem Numbered.variant {chars other : List Char} (h : Numbered chars)
    (hother : Variants false chars other) : Numbered other := by
  cases h with
  | intro hdigit htail =>
      cases hother with
      | cons hfold _ hrest =>
          refine .intro ?_ ?_
          · rw [<- Script.isDigit_eq_of_fold_eq hfold, hdigit]
          · intro d hd
            rcases hrest.exists_of_mem hd with ⟨c, hc, hfold⟩
            rw [<- Script.isDigit_eq_of_fold_eq hfold, htail c hc]

theorem Variants.of_quote {behind other : List Char}
    (h : Variants false ('"' :: behind) other) :
    exists behind', other = '"' :: behind' ∧ Variants true behind behind' := by
  cases h with
  | cons hfold _ hrest =>
      rw [<- Script.eq_of_fold_eq hfold rfl]
      exact ⟨_, rfl, hrest⟩

theorem Spells.variant {chars other : List Char} {meaning : Except Flaw Kind}
    (h : Spells chars meaning) (hother : Variants false chars other) :
    Spells other meaning := by
  cases h with
  | sign hkind =>
      rw [hother.eq_of_isPlain (isPlain_of_sign hkind)]
      exact .sign hkind
  | @quoted body hbody =>
      rcases hother.of_quote with ⟨behind, rfl, hbehind⟩
      rcases hbehind.split with ⟨front, back, rfl, hfront, hback⟩
      have hquote : ['"'].all Script.isPlain = true := rfl
      rw [hfront.eq_of_quoted rfl hbody, hback.eq_of_isPlain (List.all_eq_true.mp hquote)]
      exact .quoted hbody
  | unterminated hbody =>
      rcases hother.of_quote with ⟨behind, rfl, hbehind⟩
      rw [hbehind.eq_of_quoted rfl hbody]
      exact .unterminated hbody
  | keyword hworded hkind hnormal =>
      rw [hother.normal_eq] at hnormal
      exact .keyword (hworded.variant hother) hkind hnormal
  | name hworded hnormal =>
      rw [hother.normal_eq] at hnormal ⊢
      exact .name (hworded.variant hother) hnormal
  | number hnumbered hrange =>
      rw [numeral, hother.normal_eq] at hrange ⊢
      exact .number (hnumbered.variant hother) hrange
  | largeNumber hnumbered hrange =>
      rw [numeral, hother.normal_eq] at hrange
      rw [hother.normal_eq]
      exact .largeNumber (hnumbered.variant hother) hrange
  | @strange c hstrange =>
      have hplain : forall d, d ∈ [c] -> Script.isPlain d = true := by
        intro d hd
        rw [List.mem_singleton.mp hd, Script.isPlain, hstrange.notLetter, hstrange.notDigit]
        rfl
      rw [hother.eq_of_isPlain hplain]
      exact .strange hstrange

theorem Spells.openQuote_eq {chars : List Char} {kind : Kind} (h : Spells chars (.ok kind)) :
    openQuote false chars = false := by
  have hworded : Worded chars -> '"' ∉ chars := by
    rintro ⟨hletter, htail⟩ hmem
    rcases List.mem_cons.mp hmem with rfl | hmem
    · cases hletter
    · exact absurd (htail _ hmem) (by decide)
  have hnumbered : Numbered chars -> '"' ∉ chars := by
    rintro ⟨hdigit, htail⟩ hmem
    rcases List.mem_cons.mp hmem with rfl | hmem
    · cases hdigit
    · exact absurd (htail _ hmem) (by decide)
  cases h with
  | sign hkind =>
      have htable : forall kind, kind ∈ signs -> '"' ∉ kind.text.toList := by decide
      exact openQuote_of_not_mem false (htable kind hkind)
  | @quoted body hbody =>
      show openQuote true (body ++ ['"']) = false
      rw [openQuote_append, openQuote_of_not_mem true hbody]
      rfl
  | keyword h => exact openQuote_of_not_mem false (hworded h)
  | name h => exact openQuote_of_not_mem false (hworded h)
  | number h => exact openQuote_of_not_mem false (hnumbered h)

theorem Longest.variant {chars rest chars' rest' : List Char} {meaning : Except Flaw Kind}
    (h : Longest chars rest meaning) (hchars : Variants false chars chars')
    (hrest : Variants (openQuote false chars) rest rest') : Longest chars' rest' meaning := by
  refine ⟨h.spells.variant hchars, ?_⟩
  rintro other meant hother ⟨behind, hbehind⟩
  have hback := (hchars.append hrest).symm
  rw [<- hbehind] at hback
  rcases hback.split with ⟨front, back, hsplit, hfront, _⟩
  have hlength := h.longest (hother.variant hfront) ⟨back, hsplit.symm⟩
  rw [hfront.length_eq, <- hchars.length_eq]
  exact hlength

/-!
## Texts and their variants
-/

theorem Variants.of_longest {blanks chars rest other : List Char} {meaning : Except Flaw Kind}
    (h : Variants false (blanks ++ (chars ++ rest)) other) (hblanks : Blank blanks)
    (hlongest : Longest chars rest meaning) :
    exists chars' rest', other = blanks ++ (chars' ++ rest') ∧ Variants false chars chars' ∧
      Longest chars' rest' meaning ∧ Variants (openQuote false chars) rest rest' := by
  rcases h.split with ⟨blanks', behind, rfl, hblanks', hbehind⟩
  rw [hblanks'.eq_of_isPlain fun c hc => isPlain_of_isBlank (hblanks c hc)]
  rw [openQuote_of_not_mem false (not_quote_of_isBlank hblanks)] at hbehind
  rcases hbehind.split with ⟨chars', rest', rfl, hchars, hrest⟩
  exact ⟨chars', rest', rfl, hchars, hlongest.variant hchars hrest, hrest⟩

theorem Variants.after_append_eq {quoted : Bool} {chars other : List Char}
    (h : Variants quoted chars other) (place : Position) (blanks : List Char) :
    place.after (blanks ++ other) = place.after (blanks ++ chars) := by
  rw [Position.after_append, Position.after_append, h.after_eq]

theorem Cut.variant {place : Position} {text other : List Char} {tokens : List Token}
    (h : Cut place text tokens) (hother : Variants false text other) :
    Cut place other tokens := by
  induction h generalizing other with
  | done hblanks =>
      rw [hother.eq_of_isPlain fun c hc => isPlain_of_isBlank (hblanks c hc)]
      exact .done hblanks
  | @lexeme place blanks chars rest kind tokens hblanks hlongest _ ih =>
      rcases hother.of_longest hblanks hlongest with ⟨chars', rest', rfl, hchars, hlongest', hrest⟩
      -- no quote is open behind a token, so the rest is a variant on its own
      rw [hlongest.spells.openQuote_eq] at hrest
      have hbehind := ih hrest
      rw [<- hchars.after_append_eq] at hbehind
      exact .lexeme hblanks hlongest' hbehind

theorem Fails.variant {place : Position} {text other : List Char} {e : ScanError}
    (h : Fails place text e) (hother : Variants false text other) : Fails place other e := by
  induction h generalizing other with
  | flaw hblanks hlongest =>
      rcases hother.of_longest hblanks hlongest with ⟨chars', rest', rfl, _, hlongest', _⟩
      exact .flaw hblanks hlongest'
  | later hblanks hlongest _ ih =>
      rcases hother.of_longest hblanks hlongest with ⟨chars', rest', rfl, hchars, hlongest', hrest⟩
      rw [hlongest.spells.openQuote_eq] at hrest
      have hbehind := ih hrest
      rw [<- hchars.after_append_eq] at hbehind
      exact .later hblanks hlongest' hbehind

theorem ofText_eq_of_variants {s t : String} (h : Variants false s.toList t.toList) :
    ofText s = ofText t := by
  rcases cut_or_fails s.toList .start with ⟨tokens, htokens⟩ | ⟨e, he⟩
  · exact (ofText_of_cut htokens).trans (ofText_of_cut (htokens.variant h)).symm
  · exact (ofText_of_fails he).trans (ofText_of_fails (he.variant h)).symm

/-!
## Texts compared by index
-/

/-- Two texts are spelled alike if they have the same number of characters and at each
index the same character, up to folding unless an odd number of quotes is before it. -/
structure SpelledAlike (s t : String) : Prop where
  length_eq : s.toList.length = t.toList.length
  char_eq : forall index (hs : index < s.toList.length) (ht : index < t.toList.length),
    if (s.toList.take index).count '"' % 2 = 1 then s.toList[index] = t.toList[index]
    else Script.fold s.toList[index] = Script.fold t.toList[index]

theorem openQuote_eq_xor (quoted : Bool) (chars : List Char) :
    openQuote quoted chars = (quoted ^^ decide (chars.count '"' % 2 = 1)) := by
  induction chars generalizing quoted with
  | nil => rw [List.count_nil, decide_eq_false (by omega), Bool.xor_false]; rfl
  | cons c rest ih =>
      rw [openQuote, List.foldl_cons]
      show openQuote _ rest = _
      rw [ih]
      by_cases hc : c = '"'
      · have hodd : decide ((rest.count '"' + 1) % 2 = 1) = !decide (rest.count '"' % 2 = 1) := by
          rw [<- decide_not]
          exact decide_eq_decide.mpr (by omega)
        rw [if_pos hc, hc, List.count_cons_self, hodd, Bool.not_xor, Bool.xor_not]
      · rw [if_neg hc, List.count_cons_of_ne hc]

theorem variants_of_char_eq {quoted : Bool} {chars other : List Char}
    (hlength : chars.length = other.length)
    (hchar : forall index (h : index < chars.length) (h' : index < other.length),
      if openQuote quoted (chars.take index) = true then chars[index] = other[index]
      else Script.fold chars[index] = Script.fold other[index]) :
    Variants quoted chars other := by
  induction chars generalizing quoted other with
  | nil =>
      rw [List.eq_nil_of_length_eq_zero hlength.symm]
      exact .nil
  | cons c rest ih =>
      cases other with
      | nil => cases hlength
      | cons d others =>
          have hfirst : if quoted = true then c = d else Script.fold c = Script.fold d :=
            hchar 0 (Nat.zero_lt_succ _) (Nat.zero_lt_succ _)
          have hbehind := ih (Nat.succ.inj hlength) fun index h h' =>
            hchar (index + 1) (Nat.succ_lt_succ h) (Nat.succ_lt_succ h')
          split at hfirst
          · rename_i hquoted
            exact .cons (congrArg _ hfirst) (fun _ => hfirst) hbehind
          · rename_i hquoted
            exact .cons hfirst (fun h => absurd h hquoted) hbehind

theorem SpelledAlike.variants {s t : String} (h : SpelledAlike s t) :
    Variants false s.toList t.toList := by
  refine variants_of_char_eq h.length_eq ?_
  intro index hs ht
  have hchar := h.char_eq index hs ht
  simp only [openQuote_eq_xor, Bool.false_xor, decide_eq_true_eq]
  exact hchar

end Token

variable {H : Type}

/-- Texts that are spelled alike have the same tokens at the same places, or the same
first flaw. So they are the same program, or fail to be one in the same way, and running
the one is running the other. -/
theorem interpret_eq_of_spelledAlike {s t : String} (h : Token.SpelledAlike s t) :
    Token.ofText s = Token.ofText t ∧
      (Program.ofText s : Except (Failure H) (Stmt H)) = Program.ofText t ∧
      forall (host : Host H) (fuel : Nat) (state : State H),
        Program.interpret host fuel s state = Program.interpret host fuel t state := by
  have htokens := Token.ofText_eq_of_variants h.variants
  have htree : (Program.ofText s : Except (Failure H) (Stmt H)) = Program.ofText t := by
    rw [Program.ofText, Program.ofText, htokens]
  refine ⟨htokens, htree, ?_⟩
  intro host fuel state
  rw [Program.interpret, Program.interpret, htree]

theorem interpret_eq_of_name_and_digit :
    Token.SpelledAlike "ق = \"ق\" + ١." "غ = \"ق\" + 1." ∧
      forall (fuel : Nat) (state : State Capability),
        Program.interpret Capability.host fuel "ق = \"ق\" + ١." state =
          Program.interpret Capability.host fuel "غ = \"ق\" + 1." state := by
  have halike : Token.SpelledAlike "ق = \"ق\" + ١." "غ = \"ق\" + 1." := by
    constructor
    · decide +kernel
    · decide +kernel
  exact ⟨halike, (interpret_eq_of_spelledAlike halike).right.right Capability.host⟩

end Lisan
