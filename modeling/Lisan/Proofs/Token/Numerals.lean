import Lisan.Proofs.Decimal
import Lisan.Proofs.Token.Writing

/-!
# Numerals

A row of digits is one lexeme, whichever alphabet each digit is of. It spells what it denotes
in base ten if that is an integer of the language. If not, its flaw shows all of its digits,
each of them as an ASCII digit.
-/

namespace Lisan

theorem Position.after_of_not_mem {chars : List Char} (h : '\n' ∉ chars) (place : Position) :
    place.after chars = ⟨place.line, place.column + chars.length⟩ := by
  induction chars generalizing place with
  | nil => rw [after_nil, List.length_nil, Int.natCast_zero, Int.add_zero]
  | cons c rest ih =>
      rw [List.mem_cons, not_or] at h
      rw [after_cons, ih h.right, next, if_neg (Ne.symm h.left), List.length_cons, mk.injEq]
      refine ⟨rfl, ?_⟩
      show place.column + 1 + _ = _
      omega

namespace Token

open Decimal

variable {chars : List Char}

theorem normal_eq_map_asciiDigit (h : forall c, c ∈ chars -> Script.isDigit c = true) :
    normal chars = String.ofList (chars.map asciiDigit) := by
  rw [normal, Script.normalize, String.toList_ofList,
    List.map_congr_left fun c hc => fold_eq_asciiDigit (h c hc)]

theorem numeral_eq_value (h : forall c, c ∈ chars -> Script.isDigit c = true) :
    numeral chars = value chars := by
  have hascii : forall c, c ∈ chars.map asciiDigit -> c.isDigit = true := by
    intro c hc
    rcases List.mem_map.mp hc with ⟨d, hd, rfl⟩
    exact (isDigit_and_digitValue_digitChar (digitValue_lt (h d hd))).left
  rw [numeral, normal_eq_map_asciiDigit h, String.toList_ofList, ofDigits_eq_value hascii,
    value_map_asciiDigit h]

theorem Numbered.isDigit (h : Numbered chars) :
    forall c, c ∈ chars -> Script.isDigit c = true := by
  cases h with
  | intro hdigit htail => exact List.forall_mem_cons.mpr ⟨hdigit, htail⟩

theorem numbered_of_ne_nil (hne : chars ≠ [])
    (h : forall c, c ∈ chars -> Script.isDigit c = true) : Numbered chars := by
  cases chars with
  | nil => exact absurd rfl hne
  | cons c rest =>
      rw [List.forall_mem_cons] at h
      exact .intro h.left h.right

theorem Numbered.spells_int (h : Numbered chars) (hvalue : (value chars : Int) ≤ Integer.greatest) :
    Spells chars (.ok (.int (value chars))) := by
  have hnumeral := numeral_eq_value h.isDigit
  have hrange : Integer.InRange (numeral chars) := by
    rw [hnumeral, Integer.InRange, Integer.least]
    omega
  rw [<- hnumeral]
  exact .number h hrange

theorem Numbered.spells_flaw (h : Numbered chars)
    (hvalue : Integer.greatest < (value chars : Int)) :
    Spells chars (.error (.numberOutOfRange (String.ofList (chars.map asciiDigit)))) := by
  have hrange : Not (Integer.InRange (numeral chars)) := by
    rw [numeral_eq_value h.isDigit, Integer.InRange]
    omega
  rw [<- normal_eq_map_asciiDigit h.isDigit]
  exact .largeNumber h hrange

/-- A row of digits of either alphabet is one token, of the integer that the digits denote in
base ten. If the language has no such integer the row fails, and shows all of its digits. -/
theorem ofText_of_digits {text : String} (hne : text ≠ "")
    (hdigits : forall c, c ∈ text.toList -> Script.isDigit c = true) :
    ((value text.toList : Int) ≤ Integer.greatest ->
      ofText text =
        .ok [⟨.int (value text.toList), ⟨1, 1⟩⟩, ⟨.eof, ⟨1, 1 + text.length⟩⟩]) ∧
    (Integer.greatest < (value text.toList : Int) ->
      ofText text =
        .error ⟨⟨1, 1⟩, .numberOutOfRange (String.ofList (text.toList.map asciiDigit))⟩) := by
  have hnumbered : Numbered text.toList :=
    numbered_of_ne_nil (fun h => hne (String.toList_eq_nil_iff.mp h)) hdigits
  constructor
  · intro hvalue
    have hcut := Cut.of_spells .start (hnumbered.spells_int hvalue)
    have hline : '\n' ∉ text.toList := fun hmem => absurd (hdigits '\n' hmem) (by decide)
    rw [Position.after_of_not_mem hline, String.length_toList] at hcut
    exact ofText_of_cut hcut
  · intro hvalue
    have hfails := Fails.of_spells .start (hnumbered.spells_flaw hvalue)
    exact ofText_of_fails hfails

theorem ofText_of_greatest_digits :
    ofText "٠0922٣٣٧2036854٧٧5807" =
        .ok [⟨.int Integer.greatest, ⟨1, 1⟩⟩, ⟨.eof, ⟨1, 22⟩⟩] ∧
      ofText "٠0922٣٣٧2036854٧٧5808" =
        .error ⟨⟨1, 1⟩, .numberOutOfRange "009223372036854775808"⟩ := by
  have hread := (ofText_of_digits (show "٠0922٣٣٧2036854٧٧5807" ≠ "" by decide)
    (List.all_eq_true.mp (by decide))).left (by decide)
  have hfailed := (ofText_of_digits (show "٠0922٣٣٧2036854٧٧5808" ≠ "" by decide)
    (List.all_eq_true.mp (by decide))).right (by decide)
  exact ⟨hread, hfailed⟩

end Token
end Lisan
