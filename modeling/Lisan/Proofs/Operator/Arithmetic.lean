import Lisan.Proofs.Operator.Rules

/-!
# Arithmetic

Arithmetic on the integers of the language gives the exact result or an error, and never
another integer. Sums, differences and products overflow where the exact result is out of
range. A quotient is cut off toward zero, and negating and dividing by minus one overflow at
the least integer and nowhere else.
-/

namespace Lisan
namespace Integer

theorem inRange_zero : InRange 0 := by
  decide

theorem inRange_one : InRange 1 := by
  decide

theorem inRange_neg_iff {n : Int} (h : InRange n) : InRange (-n) <-> n ≠ least := by
  simp only [InRange, least, greatest] at *
  omega

theorem inRange_of_natAbs_le_half {n q : Int} (h : InRange n) (hq : q.natAbs ≤ n.natAbs / 2) :
    InRange q := by
  simp only [InRange, least, greatest] at *
  omega

theorem inRange_tdiv_iff {n m : Int} (h : InRange n) (hm : m ≠ 0) :
    InRange (n.tdiv m) <-> Not (n = least ∧ m = -1) := by
  have hcases : m = 1 ∨ m = -1 ∨ 2 ≤ m.natAbs := by omega
  rcases hcases with rfl | rfl | hlarge
  · rw [Int.tdiv_one]
    exact iff_of_true h fun hboth => absurd hboth.right (by decide)
  · rw [Int.tdiv_neg, Int.tdiv_one, inRange_neg_iff h]
    exact not_congr (and_iff_left rfl).symm
  · have hhalf : (n.tdiv m).natAbs ≤ n.natAbs / 2 := by
      rw [Int.natAbs_tdiv]
      exact Nat.div_le_div_left hlarge Nat.two_pos
    refine iff_of_true (inRange_of_natAbs_le_half h hhalf) ?_
    intro hcorner
    rw [hcorner.right] at hlarge
    exact absurd hlarge (by decide)

/-- The quotient of two integers, cut off toward zero: what is left of the one is smaller
than the other, and is nothing or has the sign of the one. -/
def IsQuotient (n m q : Int) : Prop :=
  exists r, n = m * q + r ∧ r.natAbs < m.natAbs ∧ (r = 0 ∨ r.sign = n.sign)

theorem isQuotient_tdiv {n m : Int} (h : m ≠ 0) : IsQuotient n m (n.tdiv m) := by
  refine ⟨n.tmod m, (Int.mul_tdiv_add_tmod n m).symm, ?_, ?_⟩
  · rw [Int.natAbs_tmod]
    exact Nat.mod_lt _ (Int.natAbs_pos.mpr h)
  · by_cases hdvd : m ∣ n
    · exact .inl (Int.tmod_eq_zero_of_dvd hdvd)
    · right
      rw [Int.sign_tmod, if_neg hdvd]

end Integer

namespace Operator

variable {H : Type}

/-- The result is the integer if the language has it, and else the overflow of the
operator. -/
structure Exactly (result : Except (Halt H) (Value H)) (kind : Token.Kind) (n : Int) : Prop where
  value_iff : result = .ok (.int n) <-> Integer.InRange n
  overflow_iff : result = .error (.error (.overflow kind)) <-> Not (Integer.InRange n)

theorem exactly_exact (kind : Token.Kind) (n : Int) :
    Exactly (exact kind n : Except (Halt H) (Value H)) kind n := by
  by_cases h : Integer.InRange n
  · rw [exact_of_inRange h]
    exact ⟨iff_of_true rfl h, iff_of_false nofun (not_not_intro h)⟩
  · rw [exact_of_not_inRange h]
    exact ⟨iff_of_false nofun h, iff_of_true rfl h⟩

theorem exactly_of_computes {kind : Token.Kind} {n m result : Int}
    (h : Computes kind n m result) :
    Exactly (binary (.int n) kind (.int m) : Except (Halt H) (Value H)) kind result := by
  rw [binary_of_computes h]
  exact exactly_exact kind result

theorem exactly_negate (n : Int) :
    Exactly (unary .minus (.int n) : Except (Halt H) (Value H)) .minus (-n) :=
  exactly_exact .minus (-n)

structure ExactArithmetic (H : Type) (n m : Int) : Prop where
  plus : Exactly (binary (.int n) .plus (.int m) : Except (Halt H) (Value H)) .plus (n + m)
  minus : Exactly (binary (.int n) .minus (.int m) : Except (Halt H) (Value H)) .minus (n - m)
  star : Exactly (binary (.int n) .star (.int m) : Except (Halt H) (Value H)) .star (n * m)
  divisionByZero : m = 0 -> (binary (.int n) .slash (.int m) : Except (Halt H) (Value H)) =
    .error (.error .divisionByZero)
  quotient : m ≠ 0 -> Not (n = Integer.least ∧ m = -1) -> exists q,
    (binary (.int n) .slash (.int m) : Except (Halt H) (Value H)) = .ok (.int q) ∧
      Integer.IsQuotient n m q
  quotientOverflow : n = Integer.least ∧ m = -1 ->
    (binary (.int n) .slash (.int m) : Except (Halt H) (Value H)) =
      .error (.error (.overflow .slash))
  negation : n ≠ Integer.least ->
    (unary .minus (.int n) : Except (Halt H) (Value H)) = .ok (.int (-n))
  negationOverflow : n = Integer.least ->
    (unary .minus (.int n) : Except (Halt H) (Value H)) = .error (.error (.overflow .minus))

theorem exactArithmetic_of_inRange {n m : Int} (hn : Integer.InRange n) :
    ExactArithmetic H n m where
  plus := exactly_of_computes (.plus n m)
  minus := exactly_of_computes (.minus n m)
  star := exactly_of_computes (.star n m)
  divisionByZero := by
    intro hm
    rw [hm]
    rfl
  quotient := by
    intro hm hcorner
    have hexactly := exactly_of_computes (H := H) (.slash (n := n) hm)
    have hrange := (Integer.inRange_tdiv_iff hn hm).mpr hcorner
    exact ⟨n.tdiv m, hexactly.value_iff.mpr hrange, Integer.isQuotient_tdiv hm⟩
  quotientOverflow := by
    intro hcorner
    have hm : m ≠ 0 := by
      rw [hcorner.right]
      decide
    have hexactly := exactly_of_computes (H := H) (.slash (n := n) hm)
    have hrange := not_congr (Integer.inRange_tdiv_iff hn hm)
    exact hexactly.overflow_iff.mpr (hrange.mpr (not_not_intro hcorner))
  negation := by
    intro hleast
    exact (exactly_negate n).value_iff.mpr ((Integer.inRange_neg_iff hn).mpr hleast)
  negationOverflow := by
    intro hleast
    have hrange := not_congr (Integer.inRange_neg_iff hn)
    exact (exactly_negate n).overflow_iff.mpr (hrange.mpr (not_not_intro hleast))

example :
    (binary (.int Integer.least) .slash (.int (-1)) : Except (Halt H) (Value H)) =
        .error (.error (.overflow .slash)) ∧
      (binary (.int Integer.least) .slash (.int (-2)) : Except (Halt H) (Value H)) =
        .ok (.int 4611686018427387904) ∧
      (binary (.int (-7)) .slash (.int 2) : Except (Halt H) (Value H)) = .ok (.int (-3)) := by
  refine ⟨rfl, rfl, rfl⟩

end Operator
end Lisan
