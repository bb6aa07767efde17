import Lisan.Integer
import Lisan.Script
import Mathlib.Data.List.Induction
import Mathlib.Data.Nat.Digits.Defs

/-!
# Decimals

What digits denote in base ten, whichever of the two alphabets each of them is of, and which
integer a text denotes: one or more ASCII digits behind at most one sign. Reading a text
gives what it denotes if that is an integer of the language, and the decimal text of an
integer denotes it.
-/

namespace Lisan
namespace Decimal

def digitValue (c : Char) : Nat :=
  if Script.isIndicDigit c then c.toNat - '\u0660'.toNat else c.toNat - '0'.toNat

/-- What digits denote in base ten. The last one counts ones. -/
def value (digits : List Char) : Nat :=
  Nat.ofDigits 10 (digits.reverse.map digitValue)

def asciiDigit (c : Char) : Char :=
  Nat.digitChar (digitValue c)

structure Unsigned (digits : List Char) : Prop where
  ne_nil : digits ≠ []
  isDigit : forall c, c ∈ digits -> c.isDigit = true

/-- Which integer a text denotes. It may have a sign, and any number of leading zeros. -/
inductive Denotes : List Char -> Int -> Prop where
  | unsigned {digits : List Char} : Unsigned digits -> Denotes digits (value digits)
  | positive {digits : List Char} : Unsigned digits -> Denotes ('+' :: digits) (value digits)
  | negative {digits : List Char} : Unsigned digits -> Denotes ('-' :: digits) (-value digits)

/-!
## Digits of both alphabets
-/

theorem exists_of_isDigit {c : Char} (h : c.isDigit = true) :
    exists n, n < 10 ∧ c = Char.ofNat (n + '0'.toNat) := by
  simp only [Char.isDigit, Bool.and_eq_true, decide_eq_true_eq, UInt32.le_iff_toNat_le] at h
  rcases h with ⟨hzero, hnine⟩
  refine ⟨c.toNat - '0'.toNat, ?_, ?_⟩
  · change c.toNat ≤ 57 at hnine
    change c.toNat - 48 < 10
    omega
  · rw [Nat.sub_add_cancel (show '0'.toNat ≤ c.toNat from hzero), Char.ofNat_toNat]

theorem digitValue_lt_and_fold {c : Char} (h : Script.isDigit c = true) :
    digitValue c < 10 ∧ Script.fold c = asciiDigit c := by
  have hascii : ∀ n < 10, digitValue (Char.ofNat (n + '0'.toNat)) < 10 ∧
      Script.fold (Char.ofNat (n + '0'.toNat)) = asciiDigit (Char.ofNat (n + '0'.toNat)) := by
    decide +kernel
  have hindic : ∀ n < 10, digitValue (Char.ofNat (n + '\u0660'.toNat)) < 10 ∧
      Script.fold (Char.ofNat (n + '\u0660'.toNat)) =
        asciiDigit (Char.ofNat (n + '\u0660'.toNat)) := by
    decide +kernel
  rcases Bool.or_eq_true_iff.mp h with h | h
  · rcases exists_of_isDigit h with ⟨n, hn, rfl⟩
    exact hascii n hn
  · rcases Script.exists_of_isIndicDigit h with ⟨n, hn, hc⟩
    rw [hc]
    exact hindic n hn

theorem digitValue_lt {c : Char} (h : Script.isDigit c = true) : digitValue c < 10 :=
  (digitValue_lt_and_fold h).left

theorem fold_eq_asciiDigit {c : Char} (h : Script.isDigit c = true) :
    Script.fold c = asciiDigit c :=
  (digitValue_lt_and_fold h).right

theorem isDigit_and_digitValue_digitChar {n : Nat} (h : n < 10) :
    (Nat.digitChar n).isDigit = true ∧ digitValue (Nat.digitChar n) = n := by
  have htable : ∀ n < 10,
      (Nat.digitChar n).isDigit = true ∧ digitValue (Nat.digitChar n) = n := by
    decide +kernel
  exact htable n h

/-!
## What digits denote
-/

theorem value_append_singleton (digits : List Char) (c : Char) :
    value (digits ++ [c]) = 10 * value digits + digitValue c := by
  rw [value, List.reverse_append, List.reverse_singleton, List.singleton_append, List.map_cons,
    Nat.ofDigits_cons, Nat.add_comm]
  rfl

theorem value_map_asciiDigit {digits : List Char}
    (h : forall c, c ∈ digits -> Script.isDigit c = true) :
    value (digits.map asciiDigit) = value digits := by
  have hvalues : forall c, c ∈ digits.reverse -> digitValue (asciiDigit c) = digitValue c :=
    fun c hc => (isDigit_and_digitValue_digitChar (digitValue_lt (h c (List.mem_reverse.mp hc)))).right
  rw [value, <- List.map_reverse, List.map_map]
  exact congrArg (Nat.ofDigits 10) (List.map_congr_left hvalues)

theorem digitValue_of_isDigit {c : Char} (h : c.isDigit = true) :
    digitValue c = c.toNat - '0'.toNat := by
  have htable : ∀ n < 10, Script.isIndicDigit (Char.ofNat (n + '0'.toNat)) = false := by
    decide +kernel
  rcases exists_of_isDigit h with ⟨n, hn, rfl⟩
  rw [digitValue, htable n hn, if_neg Bool.false_ne_true]

theorem ofDigits_eq_value {digits : List Char} (h : forall c, c ∈ digits -> c.isDigit = true) :
    Integer.ofDigits digits = value digits := by
  have hvalue : Nat.ofDigitChars 10 digits 0 = value digits := by
    induction digits using List.reverseRecOn with
    | nil => rfl
    | append_singleton digits c ih =>
        have hc := digitValue_of_isDigit (h c List.mem_concat_self)
        rw [Nat.ofDigitChars_append, ih fun d hd => h d (List.mem_append_left _ hd),
          Nat.ofDigitChars_cons, Nat.ofDigitChars_nil, value_append_singleton, hc]
  rw [Integer.ofDigits, hvalue]
  rfl

/-!
## Reading texts
-/

theorem unsigned?_eq_some_iff {digits : List Char} {n : Int} :
    Integer.unsigned? digits = some n <-> Unsigned digits ∧ (value digits : Int) = n := by
  by_cases hnil : digits = []
  · rw [hnil]
    exact iff_of_false nofun fun h => h.left.ne_nil rfl
  · by_cases hall : digits.all Char.isDigit = true
    · have hdigits := List.all_eq_true.mp hall
      rw [Integer.unsigned?, if_neg (by simpa using hnil), if_pos hall, Option.some_inj,
        ofDigits_eq_value hdigits]
      exact (and_iff_right ⟨hnil, hdigits⟩).symm
    · rw [Integer.unsigned?, if_neg (by simpa using hnil), if_neg hall]
      exact iff_of_false nofun fun h => hall (List.all_eq_true.mpr h.left.isDigit)

theorem Unsigned.signed? {digits : List Char} (h : Unsigned digits) :
    Integer.signed? digits = Integer.unsigned? digits := by
  unfold Integer.signed?
  split
  · exact absurd (h.isDigit '-' List.mem_cons_self) (by decide)
  · exact absurd (h.isDigit '+' List.mem_cons_self) (by decide)
  · rfl

theorem signed?_eq_some_iff {chars : List Char} {n : Int} :
    Integer.signed? chars = some n <-> Denotes chars n := by
  constructor
  · intro h
    unfold Integer.signed? at h
    split at h
    · rcases Option.map_eq_some_iff.mp h with ⟨m, hm, rfl⟩
      rcases unsigned?_eq_some_iff.mp hm with ⟨hdigits, rfl⟩
      exact .negative hdigits
    · rcases unsigned?_eq_some_iff.mp h with ⟨hdigits, rfl⟩
      exact .positive hdigits
    · rcases unsigned?_eq_some_iff.mp h with ⟨hdigits, rfl⟩
      exact .unsigned hdigits
  · intro h
    cases h with
    | unsigned hdigits =>
        rw [hdigits.signed?]
        exact unsigned?_eq_some_iff.mpr ⟨hdigits, rfl⟩
    | positive hdigits => exact unsigned?_eq_some_iff.mpr ⟨hdigits, rfl⟩
    | negative hdigits =>
        exact Option.map_eq_some_iff.mpr ⟨_, unsigned?_eq_some_iff.mpr ⟨hdigits, rfl⟩, rfl⟩

theorem read?_eq_some_iff {text : String} {n : Int} :
    Integer.read? text = some n <-> Denotes text.toList n ∧ Integer.InRange n := by
  rw [Integer.read?, Option.bind_eq_some_iff]
  constructor
  · rintro ⟨m, hm, hfit⟩
    rcases Integer.fit?_eq_some_iff.mp hfit with ⟨hrange, rfl⟩
    exact ⟨signed?_eq_some_iff.mp hm, hrange⟩
  · rintro ⟨hdenotes, hrange⟩
    exact ⟨n, signed?_eq_some_iff.mpr hdenotes, Integer.fit?_eq_some_iff.mpr ⟨hrange, rfl⟩⟩

theorem read?_eq_none_iff {text : String} :
    Integer.read? text = none <->
      forall n, Denotes text.toList n -> Not (Integer.InRange n) := by
  rw [Option.eq_none_iff_forall_ne_some]
  simp only [ne_eq, read?_eq_some_iff, not_and]

/-!
## Decimal texts
-/

theorem unsigned_toDigits (n : Nat) : Unsigned (Nat.toDigits 10 n) where
  ne_nil := Nat.toDigits_ne_nil
  isDigit := fun _ hc => Nat.isDigit_of_mem_toDigits (b := 10) (by decide) (by decide) hc

theorem value_toDigits (n : Nat) : value (Nat.toDigits 10 n) = n := by
  have hvalue := ofDigits_eq_value (unsigned_toDigits n).isDigit
  rw [Integer.ofDigits, Nat.ofDigitChars_ten_toDigits] at hvalue
  exact (Int.ofNat_inj.mp hvalue).symm

theorem toList_toString_natCast (n : Nat) : (toString (n : Int)).toList = Nat.toDigits 10 n := by
  show (String.ofList (Nat.toDigits 10 n)).toList = _
  rw [String.toList_ofList]

theorem toList_toString_negSucc (n : Nat) :
    (toString (Int.negSucc n)).toList = '-' :: Nat.toDigits 10 (n + 1) := by
  show ("-" ++ String.ofList (Nat.toDigits 10 (n + 1))).toList = _
  simp

theorem denotes_toString (n : Int) : Denotes (toString n).toList n := by
  cases n with
  | ofNat m =>
      have h := Denotes.unsigned (unsigned_toDigits m)
      rw [value_toDigits, <- toList_toString_natCast] at h
      exact h
  | negSucc m =>
      have h := Denotes.negative (unsigned_toDigits (m + 1))
      rw [value_toDigits, <- toList_toString_negSucc] at h
      exact h

end Decimal
end Lisan
