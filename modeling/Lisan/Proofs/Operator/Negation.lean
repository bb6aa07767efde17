import Lisan.Proofs.Decimal
import Lisan.Proofs.Operator.Arithmetic
import Lisan.Proofs.Tree.Range
import Lisan.Proofs.Value

/-!
# Negation of texts

Negation takes a text for the integer that it denotes, and for zero if it denotes none of
the language. It looks at the texts of values only, so it cannot tell values that are equal.
-/

namespace Lisan
namespace Operator

open Decimal

variable {H : Type} {v w : Value H}

inductive NegatedAlike (v w : Value H) : Prop where
  | value (n : Int) :
      unary .minus v = .ok (.int n) -> unary .minus w = .ok (.int n) -> NegatedAlike v w
  | overflow :
      unary .minus v = .error (.error (.overflow .minus)) ->
      unary .minus w = .error (.error (.overflow .minus)) -> NegatedAlike v w

/-!
## What a text stands for
-/

theorem numeral_of_denotes {text : String} {n : Int} (h : Denotes text.toList n)
    (hrange : Integer.InRange n) : Numeral (.str text : Value H) n :=
  .spelled (read?_eq_some_iff.mpr ⟨h, hrange⟩)

theorem numeral_of_not_denotes {text : String}
    (h : forall n, Denotes text.toList n -> Not (Integer.InRange n)) :
    Numeral (.str text : Value H) 0 :=
  .unspelled (read?_eq_none_iff.mpr h)

theorem exists_numeral_str (text : String) : exists n, Numeral (.str text : Value H) n := by
  cases hread : Integer.read? text with
  | none => exact ⟨0, .unspelled hread⟩
  | some n => exact ⟨n, .spelled hread⟩

theorem numeral_of_text? {text : String} {n : Int} (hranged : v.Ranged fun _ => True)
    (htext : v.text? = some text) (h : Numeral (.str text : Value H) n) : Numeral v n := by
  cases v with
  | str other =>
      cases htext
      exact h
  | int m =>
      cases htext
      have hread : Integer.read? (toString m) = some m :=
        read?_eq_some_iff.mpr ⟨denotes_toString m, hranged⟩
      cases h with
      | spelled hn =>
          rw [hread] at hn
          cases hn
          exact .int n
      | unspelled hnone =>
          rw [hread] at hnone
          cases hnone
  | function params body => cases htext
  | native params handle => cases htext

/-!
## Negating equal values
-/

theorem unary_minus_of_numeral {n : Int} (h : Numeral v n) : unary .minus v = exact .minus (-n) :=
  negate_of_numeral h

theorem NegatedAlike.of_numeral {n : Int} (hv : Numeral v n) (hw : Numeral w n) :
    NegatedAlike v w := by
  have hvalue := unary_minus_of_numeral hv
  have hother := unary_minus_of_numeral hw
  by_cases hrange : Integer.InRange (-n)
  · rw [exact_of_inRange hrange] at hvalue hother
    exact .value (-n) hvalue hother
  · rw [exact_of_not_inRange hrange] at hvalue hother
    exact .overflow hvalue hother

theorem NegatedAlike.of_sameText (hv : v.Ranged fun _ => True) (hw : w.Ranged fun _ => True)
    (h : v.SameText w) : NegatedAlike v w := by
  rcases h with ⟨text, htext, hother⟩
  rcases exists_numeral_str (H := H) text with ⟨n, hn⟩
  exact .of_numeral (numeral_of_text? hv htext hn) (numeral_of_text? hw hother hn)

theorem same_toString (n : Int) : (Value.int n : Value H).same (.str (toString n)) = true :=
  Value.same_iff_sameText.mpr ⟨toString n, rfl, rfl⟩

theorem unary_minus_str_of_denotes {text : String} {n : Int} (h : Denotes text.toList n)
    (hrange : Integer.InRange n) (hleast : n ≠ Integer.least) :
    unary .minus (.str text : Value H) = .ok (.int (-n)) := by
  rw [unary_minus_of_numeral (numeral_of_denotes h hrange),
    exact_of_inRange ((Integer.inRange_neg_iff hrange).mpr hleast)]

theorem unary_minus_str_of_denotes_least {text : String} (h : Denotes text.toList Integer.least) :
    unary .minus (.str text : Value H) = .error (.error (.overflow .minus)) := by
  rw [unary_minus_of_numeral (numeral_of_denotes h (by decide)), exact_of_not_inRange (by decide)]

theorem unary_minus_str_of_not_denotes {text : String}
    (h : forall n, Denotes text.toList n -> Not (Integer.InRange n)) :
    unary .minus (.str text : Value H) = .ok (.int 0) := by
  rw [unary_minus_of_numeral (numeral_of_not_denotes h)]
  rfl

/-- A text is negated as the integer that it denotes, and as zero if it denotes none of the
language. Values that are equal are negated alike, in particular an integer and its decimal
text, which denotes it. -/
theorem negation_respects_equality :
    (forall text : String,
      (forall n, Denotes text.toList n -> Integer.least < n -> n ≤ Integer.greatest ->
        unary .minus (.str text : Value H) = .ok (.int (-n))) ∧
      (Denotes text.toList Integer.least ->
        unary .minus (.str text : Value H) = .error (.error (.overflow .minus))) ∧
      ((forall n, Denotes text.toList n -> Not (Integer.InRange n)) ->
        unary .minus (.str text : Value H) = .ok (.int 0))) ∧
    (forall v w : Value H, v.Ranged (fun _ => True) -> w.Ranged (fun _ => True) ->
      v.same w = true -> NegatedAlike v w) ∧
    forall n, Integer.InRange n ->
      (Value.int n : Value H).same (.str (toString n)) = true ∧
        Denotes (toString n).toList n ∧
        NegatedAlike (.int n : Value H) (.str (toString n)) := by
  refine ⟨?_, ?_, ?_⟩
  · intro text
    refine ⟨?_, unary_minus_str_of_denotes_least, unary_minus_str_of_not_denotes⟩
    intro n hdenotes hleast hgreatest
    exact unary_minus_str_of_denotes hdenotes ⟨Int.le_of_lt hleast, hgreatest⟩
      (Int.ne_of_gt hleast)
  · intro v w hv hw h
    exact .of_sameText hv hw (Value.same_iff_sameText.mp h)
  · intro n hn
    have hsame : (Value.int n : Value H).same (.str (toString n)) = true := same_toString n
    exact ⟨hsame, denotes_toString n, .of_sameText hn trivial (Value.same_iff_sameText.mp hsame)⟩

theorem negation_of_numerals :
    (unary .minus (.str "+0040" : Value Empty) = .ok (.int (-40))) ∧
      unary .minus (.str "-9223372036854775808" : Value Empty) =
        .error (.error (.overflow .minus)) ∧
      unary .minus (.str "9223372036854775808" : Value Empty) = .ok (.int 0) ∧
      unary .minus (.str "٤" : Value Empty) = .ok (.int 0) ∧
      NegatedAlike (.str "9223372036854775807" : Value Empty) (.int Integer.greatest) ∧
      NegatedAlike (.int Integer.least : Value Empty) (.str (toString Integer.least)) := by
  rcases negation_respects_equality (H := Empty) with ⟨htexts, hsame, hints⟩
  have hforty : Denotes "+0040".toList 40 :=
    signed?_eq_some_iff.mp (by decide +kernel)
  have hleast : Denotes "-9223372036854775808".toList Integer.least :=
    signed?_eq_some_iff.mp (by decide +kernel)
  have hlarge : forall n, Denotes "9223372036854775808".toList n -> Not (Integer.InRange n) :=
    read?_eq_none_iff.mp (by decide +kernel)
  have hindic : forall n, Denotes "٤".toList n -> Not (Integer.InRange n) :=
    read?_eq_none_iff.mp (by decide +kernel)
  have hgreatest : NegatedAlike (.str "9223372036854775807" : Value Empty)
      (.int Integer.greatest) :=
    hsame _ _ trivial (show Integer.InRange Integer.greatest by decide) (by decide +kernel)
  refine ⟨(htexts "+0040").left 40 hforty (by decide) (by decide), (htexts _).right.left hleast,
    (htexts _).right.right hlarge, (htexts _).right.right hindic, hgreatest, ?_⟩
  exact (hints Integer.least (by decide)).right.right

end Operator
end Lisan
