/-!
# Script

The characters of a program text: letters, word characters, digits and blanks,
and the folding that makes spelling variants of a word one and the same word.
The main statement is that folding twice is folding once, so a folded text is a
normal form of its spelling class.
-/

namespace Lisan
namespace Script

/-!
## Character classes
-/

/-- Letters are the characters from hamza (`U+0621`) to yeh (`U+064A`). -/
def isLetter (c : Char) : Bool :=
  '\u0621' ≤ c && c ≤ '\u064a'

def isWordChar (c : Char) : Bool :=
  isLetter c || c == '_'

def isIndicDigit (c : Char) : Bool :=
  '\u0660' ≤ c && c ≤ '\u0669'

def isDigit (c : Char) : Bool :=
  c.isDigit || isIndicDigit c

def isBlank (c : Char) : Bool :=
  c == ' ' || c == '\t' || c == '\n' || c == '\r'

/-!
## Folding
-/

/-- Each letter variant beside the letter it is read as. -/
def variants : List (Char × Char) :=
  [('ق', 'غ'), ('ي', 'ى'), ('ج', 'ى'), ('ض', 'ظ'), ('ة', 'ه'),
   ('إ', 'ا'), ('أ', 'ا'), ('ئ', 'ا'), ('ء', 'ا'), ('آ', 'ا'), ('ؤ', 'ا')]

def foldLetter (c : Char) : Char :=
  (variants.lookup c).getD c

def foldDigit (c : Char) : Char :=
  Char.ofNat (c.toNat - '\u0660'.toNat + '0'.toNat)

/-- Folds a letter onto its canonical letter and a digit onto its ASCII digit.
Every other character stands for itself. -/
def fold (c : Char) : Char :=
  if isIndicDigit c then foldDigit c else foldLetter c

def normalize (text : String) : String :=
  String.ofList (text.toList.map fold)

theorem toList_normalize (text : String) :
    (normalize text).toList = text.toList.map fold := by
  simp [normalize]

/-!
## Folding twice is folding once
-/

theorem mem_of_lookup_eq_some {c d : Char} {pairs : List (Char × Char)}
    (h : pairs.lookup c = some d) : (c, d) ∈ pairs := by
  induction pairs with
  | nil => simp at h
  | cons pair rest ih =>
      rw [List.lookup_cons] at h
      split at h
      · have hc : c = pair.1 := by simp_all
        have hd : pair.2 = d := Option.some.inj h
        rw [hc, <- hd]
        exact List.mem_cons_self
      · exact List.mem_cons_of_mem _ (ih h)

theorem fold_of_mem_variants :
    ∀ pair ∈ variants, fold pair.2 = pair.2 := by
  decide

theorem exists_of_isIndicDigit {c : Char} (h : isIndicDigit c) :
    exists n, n < 10 ∧ c = Char.ofNat (n + '\u0660'.toNat) := by
  simp only [isIndicDigit, Bool.and_eq_true, decide_eq_true_eq, Char.le_def,
    UInt32.le_iff_toNat_le] at h
  refine ⟨c.toNat - '\u0660'.toNat, ?_, ?_⟩
  · have := h.2
    simp only [Char.toNat] at *
    change _ ≤ 1641 at this
    change _ - 1632 < 10
    omega
  · have hlow : '\u0660'.toNat ≤ c.toNat := h.1
    rw [Nat.sub_add_cancel hlow, Char.ofNat_toNat]

theorem fold_foldDigit {c : Char} (h : isIndicDigit c) :
    fold (foldDigit c) = foldDigit c := by
  have table : ∀ n < 10,
      fold (foldDigit (Char.ofNat (n + '\u0660'.toNat))) =
        foldDigit (Char.ofNat (n + '\u0660'.toNat)) := by
    decide +kernel
  rcases exists_of_isIndicDigit h with ⟨n, hn, hc⟩
  rw [hc]
  exact table n hn

theorem fold_fold (c : Char) : fold (fold c) = fold c := by
  by_cases hdigit : isIndicDigit c
  · rw [show fold c = foldDigit c from if_pos hdigit]
    exact fold_foldDigit hdigit
  · have hfold : fold c = (variants.lookup c).getD c := if_neg hdigit
    cases hlookup : variants.lookup c with
    | none => simp [hfold, hlookup]
    | some d =>
        have hd : fold c = d := by simp [hfold, hlookup]
        rw [hd]
        exact fold_of_mem_variants (c, d) (mem_of_lookup_eq_some hlookup)

theorem normalize_normalize (text : String) :
    normalize (normalize text) = normalize text := by
  have hfold : fold ∘ fold = fold := funext fold_fold
  simp [normalize, hfold]

end Script
end Lisan
