import Lisan.Proofs.Operator.Rules
import Lisan.Proofs.Value

/-!
# Comparison

The six operators that compare say one thing together. On texts and integers each of them
holds or is denied, one operand is less than, equal to or greater than the other and not two
of these, and the other three operators are the negations. Where a function is among the
operands it equals nothing, and the operators that need an order or a sum refuse it.

Integers and texts are compared in ways of their own. What both have in common is that the
operands are seen as two things of one linear order, and everything follows from that.
-/

namespace Lisan
namespace Operator

variable {H : Type} {v w : Value H} {kind : Token.Kind}

def Holds (v : Value H) (kind : Token.Kind) (w : Value H) : Prop :=
  binary v kind w = .ok (.int 1)

def Denied (v : Value H) (kind : Token.Kind) (w : Value H) : Prop :=
  binary v kind w = .ok (.int 0)

def truthSigns : List Token.Kind :=
  [.equal, .notEqual] ++ comparisonSigns

/-- What the operators say of two operands fits together. -/
structure Consistent (v w : Value H) : Prop where
  decided : forall kind, kind ∈ truthSigns -> Holds v kind w ∨ Denied v kind w
  trichotomy : ∃! kind, kind ∈ [Token.Kind.less, .equal, .greater] ∧ Holds v kind w
  lessEqual_iff : Holds v .lessEqual w <-> Denied v .greater w
  greaterEqual_iff : Holds v .greaterEqual w <-> Denied v .less w
  flipped : binary v .less w = binary w .greater v
  notEqual_iff : Holds v .notEqual w <-> Denied v .equal w
  equal_iff : Holds v .equal w <-> v.SameText w

/-- The operands are not equal, and the operators that work on integers and on texts refuse
them because of the culprit. -/
structure Refused (v w culprit : Value H) : Prop where
  equal : Denied v .equal w
  notEqual : Holds v .notEqual w
  unexpected : forall kind, kind ∈ sameTypeSigns ->
    binary v kind w = .error (.error (.unexpectedValue culprit))

/-!
## Truth values
-/

inductive Tells (v : Value H) (kind : Token.Kind) (w : Value H) (p : Prop) : Prop where
  | holds : Holds v kind w -> p -> Tells v kind w p
  | denied : Denied v kind w -> Not p -> Tells v kind w p

section Truth

variable {p : Prop}

theorem not_holds_of_denied (h : Denied v kind w) : Not (Holds v kind w) := by
  intro hholds
  rw [Holds, show binary v kind w = _ from h] at hholds
  cases hholds

theorem Tells.holds_iff (h : Tells v kind w p) : Holds v kind w <-> p := by
  cases h with
  | holds hholds hp => exact iff_of_true hholds hp
  | denied hdenied hp => exact iff_of_false (not_holds_of_denied hdenied) hp

theorem Tells.denied_iff (h : Tells v kind w p) : Denied v kind w <-> Not p := by
  cases h with
  | holds hholds hp =>
      exact iff_of_false (fun hdenied => not_holds_of_denied hdenied hholds) (not_not_intro hp)
  | denied hdenied hp => exact iff_of_true hdenied hp

theorem Tells.decided (h : Tells v kind w p) : Holds v kind w ∨ Denied v kind w := by
  cases h with
  | holds hholds => exact .inl hholds
  | denied hdenied => exact .inr hdenied

theorem Tells.binary_eq {v' w' : Value H} {kind' : Token.Kind} (h : Tells v kind w p)
    (h' : Tells v' kind' w' p) : binary v kind w = binary v' kind' w' := by
  cases h with
  | holds hholds hp => exact hholds.trans (h'.holds_iff.mpr hp).symm
  | denied hdenied hp => exact hdenied.trans (h'.denied_iff.mpr hp).symm

theorem same_iff_sameText : Same v w <-> v.SameText w :=
  same_iff.symm.trans Value.same_iff_sameText

theorem tells_equal (v w : Value H) : Tells v .equal w (v.SameText w) := by
  by_cases h : Same v w
  · exact .holds (binary_of_binaryRule (.equalHolds h)) (same_iff_sameText.mp h)
  · exact .denied (binary_of_binaryRule (.equalFails h)) (h ∘ same_iff_sameText.mpr)

theorem tells_notEqual (v w : Value H) : Tells v .notEqual w (Not (v.SameText w)) := by
  by_cases h : Same v w
  · exact .denied (binary_of_binaryRule (.notEqualFails h)) (not_not_intro (same_iff_sameText.mp h))
  · exact .holds (binary_of_binaryRule (.notEqualHolds h)) (h ∘ same_iff_sameText.mpr)

theorem tells_ints {n m : Int} (h : Compares kind n m p) :
    Tells (.int n : Value H) kind (.int m) p := by
  by_cases hp : p
  · exact .holds (binary_of_binaryRule (.intsHold h hp)) hp
  · exact .denied (binary_of_binaryRule (.intsFail h hp)) hp

theorem tells_texts {s t : String} (htexts : Texts v w s t) (h : Compares kind s t p) :
    Tells v kind w p := by
  by_cases hp : p
  · exact .holds (binary_of_binaryRule (.textsHold htexts h hp)) hp
  · exact .denied (binary_of_binaryRule (.textsFail htexts h hp)) hp

end Truth

/-!
## Operands of one order
-/

/-- The operators see the operands as two things of one linear order. -/
structure Ranked [LinearOrder α] (v w : Value H) (a b : α) : Prop where
  tells : forall {kind : Token.Kind} {p : Prop}, Compares kind a b p -> Tells v kind w p
  sameText_iff : v.SameText w <-> a = b

theorem ranked_ints (n m : Int) : Ranked (.int n : Value H) (.int m) n m where
  tells := tells_ints
  sameText_iff := by rw [<- Value.same_iff_sameText, Value.same, beq_iff_eq]

theorem Texts.text? {s t : String} (h : Texts v w s t) :
    v.text? = some s ∧ w.text? = some t := by
  cases h <;> exact ⟨rfl, rfl⟩

theorem Texts.ranked {s t : String} (h : Texts v w s t) : Ranked v w s t where
  tells := tells_texts h
  sameText_iff := by simp [Value.SameText, h.text?, eq_comm]

theorem Texts.flip {s t : String} (h : Texts v w s t) : Texts w v t s := by
  cases h with
  | both s t => exact .both t s
  | left s m => exact .right m s
  | right n t => exact .left t n

def orderSign : Ordering -> Token.Kind
  | .lt => .less
  | .eq => .equal
  | .gt => .greater

theorem mem_orderSigns_iff :
    kind ∈ [Token.Kind.less, .equal, .greater] <-> exists order, orderSign order = kind := by
  constructor
  · intro h
    simp only [List.mem_cons, List.not_mem_nil, or_false] at h
    rcases h with rfl | rfl | rfl
    · exact ⟨.lt, rfl⟩
    · exact ⟨.eq, rfl⟩
    · exact ⟨.gt, rfl⟩
  · intro h
    rcases h with ⟨order, rfl⟩
    cases order <;> simp [orderSign]

section Order

variable [LinearOrder α] {a b : α}

theorem Ranked.equal_iff (h : Ranked v w a b) : Holds v .equal w <-> a = b :=
  (tells_equal v w).holds_iff.trans h.sameText_iff

theorem Ranked.decided (h : Ranked v w a b) (hkind : kind ∈ truthSigns) :
    Holds v kind w ∨ Denied v kind w := by
  rcases List.mem_append.mp hkind with hequality | hcomparison
  · simp only [List.mem_cons, List.not_mem_nil, or_false] at hequality
    rcases hequality with rfl | rfl
    · exact (tells_equal v w).decided
    · exact (tells_notEqual v w).decided
  · rcases exists_compares a b hcomparison with ⟨p, hcompares⟩
    exact (h.tells hcompares).decided

theorem Ranked.orderSign_iff (h : Ranked v w a b) (order : Ordering) :
    Holds v (orderSign order) w <-> compare a b = order := by
  cases order with
  | lt => exact (h.tells (.less a b)).holds_iff.trans compare_lt_iff_lt.symm
  | eq => exact h.equal_iff.trans compare_eq_iff_eq.symm
  | gt => exact (h.tells (.greater a b)).holds_iff.trans compare_gt_iff_gt.symm

theorem Ranked.trichotomy (h : Ranked v w a b) :
    ∃! kind, kind ∈ [Token.Kind.less, .equal, .greater] ∧ Holds v kind w := by
  refine ⟨orderSign (compare a b), ⟨mem_orderSigns_iff.mpr ⟨_, rfl⟩, ?_⟩, ?_⟩
  · exact (h.orderSign_iff _).mpr rfl
  · intro kind h
    rcases h with ⟨hkind, hholds⟩
    rcases mem_orderSigns_iff.mp hkind with ⟨order, rfl⟩
    rw [(h.orderSign_iff order).mp hholds]

theorem Ranked.consistent (h : Ranked v w a b) (h' : Ranked w v b a) : Consistent v w where
  decided := fun _ hkind => h.decided hkind
  trichotomy := h.trichotomy
  lessEqual_iff := by
    rw [(h.tells (.lessEqual a b)).holds_iff, (h.tells (.greater a b)).denied_iff, not_lt]
  greaterEqual_iff := by
    rw [(h.tells (.greaterEqual a b)).holds_iff, (h.tells (.less a b)).denied_iff, not_lt]
  flipped := (h.tells (.less a b)).binary_eq (h'.tells (.greater b a))
  notEqual_iff := by
    rw [(tells_notEqual v w).holds_iff, (tells_equal v w).denied_iff]
  equal_iff := (tells_equal v w).holds_iff

end Order

/-!
## Operands that can be called
-/

theorem not_sameText_of_callable (h : v.Callable ∨ w.Callable) : Not (v.SameText w) := by
  intro hsame
  rcases hsame with ⟨text, hv, hw⟩
  rcases h with h | h
  · rw [Value.text?_eq_none_iff_callable.mpr h] at hv
    cases hv
  · rw [Value.text?_eq_none_iff_callable.mpr h] at hw
    cases hw

theorem refused_of_pair {culprit : Value H} (h : v.Callable ∨ w.Callable)
    (hpair : pair v w = .error (.error (.unexpectedValue culprit))) : Refused v w culprit where
  equal := (tells_equal v w).denied_iff.mpr (not_sameText_of_callable h)
  notEqual := (tells_notEqual v w).holds_iff.mpr (not_sameText_of_callable h)
  unexpected := fun _ hkind => binary_of_pair_error hkind hpair

theorem consistent_of_not_callable (hv : Not v.Callable) (hw : Not w.Callable) :
    Consistent v w := by
  rcases operands_cases v w with ⟨n, m, rfl, rfl⟩ | ⟨s, t, htexts⟩ | hcallable | ⟨-, hcallable⟩
  · exact (ranked_ints n m).consistent (ranked_ints m n)
  · exact htexts.ranked.consistent htexts.flip.ranked
  · exact absurd (Value.text?_eq_none_iff_callable.mp hcallable) hv
  · exact absurd (Value.text?_eq_none_iff_callable.mp hcallable) hw

/-!
## All operands
-/

/-- The operators that compare are consistent on texts and integers, and of a function they
only say that it is equal to nothing: in the place of an order or of a sum the leftmost
function is refused by name. -/
theorem comparisons_agree (v w : Value H) :
    (Not v.Callable -> Not w.Callable -> Consistent v w) ∧
      (v.Callable -> Refused v w v) ∧
      (Not v.Callable -> w.Callable -> Refused v w w) := by
  refine ⟨consistent_of_not_callable, ?_, ?_⟩
  · intro hv
    have hpair := pair_of_noTextLeft (w := w) (Value.text?_eq_none_iff_callable.mpr hv)
    exact refused_of_pair (.inl hv) hpair
  · intro hv hw
    have hleft : v.text? ≠ none := fun h => hv (Value.text?_eq_none_iff_callable.mp h)
    have hpair := pair_of_noTextRight hleft (Value.text?_eq_none_iff_callable.mpr hw)
    exact refused_of_pair (.inr hw) hpair

example :
    (binary (.int 9) .less (.int 10) : Except (Halt H) (Value H)) = .ok (.int 1) ∧
      (binary (.int 9) .less (.str "10") : Except (Halt H) (Value H)) = .ok (.int 0) := by
  constructor <;> rfl

end Operator
end Lisan
