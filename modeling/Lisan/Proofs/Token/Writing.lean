import Lisan.Proofs.Token.Seam

/-!
# Writing tokens down

The text of a printable kind is a lexeme that spells this kind, and with a blank behind
it no longer lexeme begins there. So kinds that are written with blanks between them are
read back, and what scanning gives can always be written: all its kinds are printable.
-/

namespace Lisan
namespace Token

/-- The kinds that stand in texts: signs and keywords, integers that are not negative,
texts that no quote ends too early, and words in normal form that are no keyword. -/
inductive Kind.Printable : Kind -> Prop where
  | sign {kind : Kind} : kind ∈ signs -> Kind.Printable kind
  | keyword {kind : Kind} : kind ∈ Kind.keywords -> Kind.Printable kind
  | int {n : Int} : 0 ≤ n -> n ≤ Integer.greatest -> Kind.Printable (.int n)
  | str {text : String} : '"' ∉ text.toList -> Kind.Printable (.str text)
  | name {word : String} :
      Worded word.toList -> Script.normalize word = word ->
      (forall kind, kind ∈ Kind.keywords -> word ≠ Script.normalize kind.text) ->
      Kind.Printable (.name word)

structure Gap (gap : String) : Prop where
  ne_nil : gap.toList ≠ []
  blank : Blank gap.toList

def Kind.spread : List Kind -> List String -> String
  | [], _ => ""
  | [kind], _ => kind.text
  | kind :: next :: rest, gaps =>
      kind.text ++ (gaps.headD "" ++ Kind.spread (next :: rest) gaps.tail)

/-!
## The text of a printable kind
-/

theorem fold_of_isDigit {c : Char} (h : c.isDigit = true) : Script.fold c = c := by
  have hindic : Script.isIndicDigit c = false := by
    simp only [Char.isDigit, Bool.and_eq_true, decide_eq_true_eq] at h
    rw [Script.isIndicDigit, Bool.and_eq_false_iff, decide_eq_false_iff_not]
    have hnine : c ≤ '9' := h.right
    exact .inl fun hzero => absurd (Char.le_trans hzero hnine) (by decide)
  rw [Script.fold, hindic, if_neg Bool.false_ne_true, Script.foldLetter]
  cases hlookup : Script.variants.lookup c with
  | none => rfl
  | some d =>
      have htable : forall pair, pair ∈ Script.variants -> pair.1.isDigit = false := by
        decide
      rw [htable _ (Script.mem_of_lookup_eq_some hlookup)] at h
      cases h

theorem normal_of_isDigit {digits : List Char} (h : forall c, c ∈ digits -> c.isDigit = true) :
    normal digits = String.ofList digits := by
  rw [normal, Script.normalize, String.toList_ofList,
    List.map_congr_left fun c hc => fold_of_isDigit (h c hc), List.map_id']

theorem spells_toDigits {n : Nat} (h : (n : Int) ≤ Integer.greatest) :
    Spells (Nat.toDigits 10 n) (.ok (.int n)) := by
  have hdigits := isDigit_of_mem_toDigits n
  have hnumeral : numeral (Nat.toDigits 10 n) = n := by
    rw [numeral, normal_of_isDigit hdigits, String.toList_ofList, Integer.ofDigits,
      Nat.ofDigitChars_ten_toDigits]
    rfl
  have hrange : Integer.InRange (numeral (Nat.toDigits 10 n)) := by
    rw [hnumeral, Integer.InRange, Integer.least]
    omega
  have hnumbered : Numbered (Nat.toDigits 10 n) := by
    cases hchars : Nat.toDigits 10 n with
    | nil => exact absurd hchars Nat.toDigits_ne_nil
    | cons c rest =>
        rw [hchars] at hdigits
        have hdigit : forall d, d ∈ c :: rest -> Script.isDigit d = true := by
          intro d hd
          rw [Script.isDigit, hdigits d hd, Bool.true_or]
        exact .intro (hdigit c List.mem_cons_self)
          fun d hd => hdigit d (List.mem_cons_of_mem c hd)
  have hspells := Spells.number hnumbered hrange
  rw [hnumeral] at hspells
  exact hspells

theorem worded_of_keyword {kind : Kind} (h : kind ∈ Kind.keywords) : Worded kind.text.toList := by
  have htable : forall kind, kind ∈ Kind.keywords ->
      kind.text.toList.head?.any Script.isLetter = true ∧
        kind.text.toList.tail.all Script.isWordChar = true := by
    decide
  rcases htable kind h with ⟨hhead, htail⟩
  cases hchars : kind.text.toList with
  | nil =>
      rw [hchars] at hhead
      cases hhead
  | cons c rest =>
      rw [hchars] at hhead htail
      exact .intro hhead (List.all_eq_true.mp htail)

theorem Kind.Printable.spells {kind : Kind} (h : kind.Printable) :
    Spells kind.text.toList (.ok kind) := by
  cases h with
  | sign hkind => exact .sign hkind
  | keyword hkind =>
      refine .keyword (worded_of_keyword hkind) hkind ?_
      rw [normal, String.ofList_toList]
  | @int n hzero hgreatest =>
      rcases Int.eq_ofNat_of_zero_le hzero with ⟨m, rfl⟩
      have htext : (Kind.text (.int m)).toList = Nat.toDigits 10 m := by
        show (String.ofList (Nat.toDigits 10 m)).toList = _
        rw [String.toList_ofList]
      rw [htext]
      exact spells_toDigits hgreatest
  | @str text hquote =>
      have htext : (Kind.text (.str text)).toList = '"' :: (text.toList ++ ['"']) := by
        simp [Kind.text]
      have hspells := Spells.quoted hquote
      rw [String.ofList_toList, <- htext] at hspells
      exact hspells
  | @name word hworded hnormal hkeyword =>
      have hword : normal word.toList = word := by
        rw [normal, String.ofList_toList, hnormal]
      rw [<- hword] at hkeyword
      have hspells := Spells.name hworded hkeyword
      rw [hword] at hspells
      exact hspells

theorem longest_of_spells {chars : List Char} {meaning : Except Flaw Kind}
    (h : Spells chars meaning) : Longest chars [] meaning := by
  refine ⟨h, ?_⟩
  intro other meant _ hprefix
  rw [List.append_nil] at hprefix
  exact hprefix.length_le

theorem blank_nil : Blank [] :=
  fun _ hc => absurd hc List.not_mem_nil

theorem Cut.of_spells {chars : List Char} {kind : Kind} (place : Position)
    (h : Spells chars (.ok kind)) :
    Cut place chars [⟨kind, place⟩, ⟨.eof, place.after chars⟩] := by
  have hend : Cut (place.after ([] ++ chars)) [] _ := .done blank_nil
  have hcut := Cut.lexeme blank_nil (longest_of_spells h) hend
  rw [List.nil_append, List.append_nil] at hcut
  exact hcut

theorem Fails.of_spells {chars : List Char} {flaw : Flaw} (place : Position)
    (h : Spells chars (.error flaw)) : Fails place chars ⟨place, flaw⟩ := by
  have hfails : Fails place ([] ++ (chars ++ [])) ⟨place, flaw⟩ :=
    .flaw blank_nil (longest_of_spells h)
  rw [List.nil_append, List.append_nil] at hfails
  exact hfails

/-!
## Kinds with gaps between them
-/

theorem Gap.longest {gap : String} (hgap : Gap gap) {chars : List Char} {kind : Kind}
    (h : Spells chars (.ok kind)) (more : List Char) :
    Longest chars (gap.toList ++ more) (.ok kind) := by
  have hblank := hgap.blank
  cases hchars : gap.toList with
  | nil => exact absurd hchars hgap.ne_nil
  | cons c rest =>
      rw [hchars] at hblank
      exact (longest_of_spells h).append_blank (hblank c List.mem_cons_self) (rest ++ more)

theorem cut_of_spread {kinds : List Kind} {gaps : List String}
    (hkinds : forall kind, kind ∈ kinds -> kind.Printable)
    (hlength : kinds.length ≤ gaps.length + 1) (hgaps : forall gap, gap ∈ gaps -> Gap gap)
    (place : Position) :
    exists tokens, Cut place (Kind.spread kinds gaps).toList tokens ∧
      tokens.map Token.kind = kinds ++ [.eof] := by
  induction kinds, gaps using Kind.spread.induct generalizing place with
  | case1 gaps => exact ⟨_, .done blank_nil, rfl⟩
  | case2 kind gaps =>
      exact ⟨_, .of_spells place (hkinds kind List.mem_cons_self).spells, rfl⟩
  | case3 kind next rest gaps ih =>
      cases gaps with
      | nil => cases Nat.le_of_succ_le_succ hlength
      | cons gap gaps =>
          have hgap := hgaps gap List.mem_cons_self
          have hspells := (hkinds kind List.mem_cons_self).spells
          rcases ih (fun k hk => hkinds k (List.mem_cons_of_mem _ hk))
              (Nat.le_of_succ_le_succ hlength)
              (fun g hg => hgaps g (List.mem_cons_of_mem _ hg))
              ((place.after ([] ++ kind.text.toList)).after gap.toList) with
            ⟨tokens, hcut, hmap⟩
          have hall := Cut.lexeme blank_nil (hgap.longest hspells _) (hcut.blanks_append hgap.blank)
          refine ⟨⟨kind, place.after []⟩ :: tokens, ?_, ?_⟩
          · rw [Kind.spread, String.toList_append, String.toList_append]
            exact hall
          · rw [List.map_cons, hmap]
            rfl

/-!
## What scanning gives
-/

theorem Kind.Printable.of_spells {chars : List Char} {kind : Kind}
    (h : Spells chars (.ok kind)) : kind.Printable := by
  cases h with
  | sign hkind => exact .sign hkind
  | keyword _ hkind _ => exact .keyword hkind
  | @quoted body hbody =>
      refine .str ?_
      rw [String.toList_ofList]
      exact hbody
  | name hworded hnormal =>
      refine .name ?_ (Script.normalize_normalize _) hnormal
      rw [normal, Script.toList_normalize, String.toList_ofList]
      cases hworded with
      | @intro c rest hletter htail =>
          refine .intro ?_ ?_
          · rw [Script.isLetter_fold, hletter]
          · intro d hd
            rcases List.mem_map.mp hd with ⟨e, he, rfl⟩
            rw [Script.isWordChar_eq_of_fold_eq (Script.fold_fold e), htail e he]
  | number hnumbered hrange => exact .int (Int.natCast_nonneg _) hrange.right

theorem Cut.exists_printable {place : Position} {text : List Char} {tokens : List Token}
    (h : Cut place text tokens) :
    exists kinds, tokens.map Token.kind = kinds ++ [.eof] ∧
      forall kind, kind ∈ kinds -> kind.Printable := by
  induction h with
  | done => exact ⟨[], rfl, fun kind hkind => absurd hkind List.not_mem_nil⟩
  | @lexeme place blanks chars rest kind tokens _ hlongest _ ih =>
      rcases ih with ⟨kinds, hmap, hkinds⟩
      refine ⟨kind :: kinds, ?_, ?_⟩
      · rw [List.map_cons, hmap, List.cons_append]
      · intro other hother
        rcases List.mem_cons.mp hother with rfl | hother
        · exact .of_spells hlongest.spells
        · exact hkinds other hother

theorem exists_ofText_spread {kinds : List Kind} {gaps : List String}
    (hkinds : forall kind, kind ∈ kinds -> kind.Printable)
    (hlength : kinds.length ≤ gaps.length + 1) (hgaps : forall gap, gap ∈ gaps -> Gap gap) :
    exists tokens, ofText (Kind.spread kinds gaps) = .ok tokens ∧
      tokens.map Token.kind = kinds ++ [.eof] := by
  rcases cut_of_spread hkinds hlength hgaps .start with ⟨tokens, hcut, hmap⟩
  exact ⟨tokens, ofText_of_cut hcut, hmap⟩

/-- Printable kinds, written with whatever blanks between them, are read back. All kinds
of tokens of a text are printable, but for the end of the text; so they can be written,
with whatever blanks between them, and are read back as the kinds that they are. -/
theorem written_kinds_are_read_back :
    (forall (kinds : List Kind) (gaps : List String),
      (forall kind, kind ∈ kinds -> kind.Printable) -> kinds.length ≤ gaps.length + 1 ->
      (forall gap, gap ∈ gaps -> Gap gap) ->
      exists tokens, ofText (Kind.spread kinds gaps) = .ok tokens ∧
        tokens.map Token.kind = kinds ++ [.eof]) ∧
    forall (text : String) (tokens : List Token), ofText text = .ok tokens ->
      exists kinds, tokens.map Token.kind = kinds ++ [.eof] ∧
        (forall kind, kind ∈ kinds -> kind.Printable) ∧
        forall gaps : List String, kinds.length ≤ gaps.length + 1 ->
          (forall gap, gap ∈ gaps -> Gap gap) ->
          exists others, ofText (Kind.spread kinds gaps) = .ok others ∧
            others.map Token.kind = tokens.map Token.kind := by
  constructor
  · intro kinds gaps hkinds hlength hgaps
    exact exists_ofText_spread hkinds hlength hgaps
  · intro text tokens h
    rcases (cut_of_ofText h).exists_printable with ⟨kinds, hmap, hkinds⟩
    refine ⟨kinds, hmap, hkinds, ?_⟩
    intro gaps hlength hgaps
    rw [hmap]
    exact exists_ofText_spread hkinds hlength hgaps

theorem written_definition_is_read_back :
    let kinds : List Kind :=
      [.functionWord, .name "غ_", .int 9223372036854775807, .str "ق = ١", .less, .assign]
    let gaps := [" ", "\n\t", "\r", "  ", "\n"]
    Kind.spread kinds gaps = "داله غ_\n\t9223372036854775807\r\"ق = ١\"  <\n=" ∧
      exists tokens, ofText (Kind.spread kinds gaps) = .ok tokens ∧
        tokens.map Token.kind = kinds ++ [.eof] ∧
        exists found, tokens.map Token.kind = found ++ [.eof] ∧
          forall kind, kind ∈ found -> kind.Printable := by
  intro kinds gaps
  have hname : Kind.Printable (.name "غ_") :=
    .name (.intro (c := 'غ') rfl (List.all_eq_true.mp (by decide))) (by decide +kernel)
      (by decide +kernel)
  have hkinds : forall kind, kind ∈ kinds -> kind.Printable := by
    intro kind hkind
    simp only [kinds, List.mem_cons, List.not_mem_nil, or_false] at hkind
    rcases hkind with rfl | rfl | rfl | rfl | rfl | rfl
    · exact .keyword (by decide)
    · exact hname
    · exact .int (by decide) (by decide)
    · exact .str (by decide)
    · exact .sign (by decide)
    · exact .sign (by decide)
  have hgaps : forall gap, gap ∈ gaps -> Gap gap := by
    intro gap hgap
    simp only [gaps, List.mem_cons, List.not_mem_nil, or_false] at hgap
    rcases hgap with rfl | rfl | rfl | rfl | rfl <;> exact ⟨by decide, List.all_eq_true.mp (by decide)⟩
  rcases written_kinds_are_read_back.left kinds gaps hkinds (by decide) hgaps with
    ⟨tokens, hread, hmap⟩
  rcases written_kinds_are_read_back.right _ tokens hread with ⟨found, hfound, hprintable, _⟩
  exact ⟨by decide +kernel, tokens, hread, hmap, found, hfound, hprintable⟩

end Token
end Lisan
