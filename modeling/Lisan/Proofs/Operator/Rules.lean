import Lisan.Operator
import Mathlib.Data.String.Basic

/-!
# Rules of the operators

What an operator gives for its operands, as a relation with one rule for each
case of the language. An operator function gives what its rules say and nothing
else.
-/

namespace Lisan

/-- What a run that is over has ended with: a value, or an error of the program. -/
abbrev Ending (H : Type) :=
  Except (RuntimeError H) (Value H)

namespace Operator

variable {H : Type}

/-!
## Unary operators
-/

/-- The integer that negation takes a value for. A text that spells none stands
for zero. -/
inductive Numeral : Value H -> Int -> Prop where
  | int (n : Int) : Numeral (.int n) n
  | spelled {text : String} {n : Int} :
      Integer.read? text = some n -> Numeral (.str text) n
  | unspelled {text : String} :
      Integer.read? text = none -> Numeral (.str text) 0

inductive UnaryRule : Token.Kind -> Value H -> Ending H -> Prop where
  | notTrue {v : Value H} : v.truthy = true -> UnaryRule .bang v (.ok (.int 0))
  | notFalse {v : Value H} : v.truthy = false -> UnaryRule .bang v (.ok (.int 1))
  | minus {v : Value H} {n : Int} :
      Numeral v n -> Integer.InRange (-n) -> UnaryRule .minus v (.ok (.int (-n)))
  | minusOverflow {v : Value H} {n : Int} :
      Numeral v n -> Not (Integer.InRange (-n)) ->
      UnaryRule .minus v (.error (.overflow .minus))
  | minusUnexpected {v : Value H} :
      v.text? = none -> UnaryRule .minus v (.error (.unexpectedValue v))

theorem mapError_error_injective {ending other : Ending H}
    (h : ending.mapError Halt.error = other.mapError Halt.error) : ending = other := by
  cases ending <;> cases other <;> simp_all [Except.mapError]

theorem exact_of_inRange {kind : Token.Kind} {n : Int} (h : Integer.InRange n) :
    (exact kind n : Except (Halt H) (Value H)) = .ok (.int n) := by
  simp [exact, Integer.fit?, h]

theorem exact_of_not_inRange {kind : Token.Kind} {n : Int} (h : Not (Integer.InRange n)) :
    (exact kind n : Except (Halt H) (Value H)) = .error (.error (.overflow kind)) := by
  simp [exact, Integer.fit?, h]

theorem negate_of_numeral {v : Value H} {n : Int} (h : Numeral v n) :
    negate v = exact .minus (-n) := by
  cases h with
  | int => rfl
  | spelled hread => simp [negate, hread]
  | unspelled hread => simp [negate, hread]

theorem exists_unaryRule_minus (v : Value H) : exists ending, UnaryRule .minus v ending := by
  have hnumeral : forall {n : Int}, Numeral v n -> exists ending, UnaryRule .minus v ending := by
    intro n hn
    by_cases hrange : Integer.InRange (-n)
    · exact ⟨_, .minus hn hrange⟩
    · exact ⟨_, .minusOverflow hn hrange⟩
  cases v with
  | int n => exact hnumeral (.int n)
  | str text =>
      cases hread : Integer.read? text with
      | none => exact hnumeral (.unspelled hread)
      | some n => exact hnumeral (.spelled hread)
  | function params body => exact ⟨_, .minusUnexpected rfl⟩
  | native params handle => exact ⟨_, .minusUnexpected rfl⟩

def unarySigns : List Token.Kind :=
  [.bang, .minus]

theorem exists_unaryRule {kind : Token.Kind} (h : kind ∈ unarySigns) (v : Value H) :
    exists ending, UnaryRule kind v ending := by
  simp only [unarySigns, List.mem_cons, List.not_mem_nil, or_false] at h
  rcases h with rfl | rfl
  · cases htruthy : v.truthy with
    | true => exact ⟨_, .notTrue htruthy⟩
    | false => exact ⟨_, .notFalse htruthy⟩
  · exact exists_unaryRule_minus v

theorem unary_of_not_mem {kind : Token.Kind} (h : kind ∉ unarySigns) (v : Value H) :
    unary kind v = .error (.noOperator .unary kind) := by
  cases kind <;> first | rfl | simp [unarySigns] at h

theorem unary_of_unaryRule {kind : Token.Kind} {v : Value H} {ending : Ending H}
    (h : UnaryRule kind v ending) : unary kind v = ending.mapError .error := by
  cases h with
  | notTrue htruthy => simp [unary, htruthy, Value.ofBool, Except.mapError]
  | notFalse htruthy => simp [unary, htruthy, Value.ofBool, Except.mapError]
  | minus hnumeral hrange =>
      change negate v = _
      rw [negate_of_numeral hnumeral, exact_of_inRange hrange]
      rfl
  | minusOverflow hnumeral hrange =>
      change negate v = _
      rw [negate_of_numeral hnumeral, exact_of_not_inRange hrange]
      rfl
  | minusUnexpected htext =>
      cases v with
      | function params body => rfl
      | native params handle => rfl
      | _ => simp [Value.text?] at htext

theorem unary_eq_iff {kind : Token.Kind} {v : Value H} {ending : Ending H} :
    unary kind v = ending.mapError .error <-> UnaryRule kind v ending := by
  constructor
  · intro h
    by_cases hkind : kind ∈ unarySigns
    · rcases exists_unaryRule hkind v with ⟨other, hrule⟩
      rw [unary_of_unaryRule hrule] at h
      rw [<- mapError_error_injective h]
      exact hrule
    · rw [unary_of_not_mem hkind] at h
      cases ending <;> simp [Except.mapError] at h
  · exact unary_of_unaryRule

/-!
## Binary operators
-/

inductive Computes : Token.Kind -> Int -> Int -> Int -> Prop where
  | plus (n m : Int) : Computes .plus n m (n + m)
  | minus (n m : Int) : Computes .minus n m (n - m)
  | star (n m : Int) : Computes .star n m (n * m)
  | slash {n m : Int} : m ≠ 0 -> Computes .slash n m (n.tdiv m)

inductive Compares [LT α] [LE α] : Token.Kind -> α -> α -> Prop -> Prop where
  | greater (a b : α) : Compares .greater a b (b < a)
  | greaterEqual (a b : α) : Compares .greaterEqual a b (b ≤ a)
  | less (a b : α) : Compares .less a b (a < b)
  | lessEqual (a b : α) : Compares .lessEqual a b (a ≤ b)

inductive Texts : Value H -> Value H -> String -> String -> Prop where
  | both (s t : String) : Texts (.str s) (.str t) s t
  | left (s : String) (m : Int) : Texts (.str s) (.int m) s (toString m)
  | right (n : Int) (t : String) : Texts (.int n) (.str t) (toString n) t

/-- The values that are equal. An integer equals its decimal text, and no function
equals anything. -/
inductive Same : Value H -> Value H -> Prop where
  | texts (s : String) : Same (.str s) (.str s)
  | ints (n : Int) : Same (.int n) (.int n)
  | intText (n : Int) : Same (.int n) (.str (toString n))
  | textInt (n : Int) : Same (.str (toString n)) (.int n)

def integerSigns : List Token.Kind :=
  [.minus, .star, .slash]

def comparisonSigns : List Token.Kind :=
  [.greater, .greaterEqual, .less, .lessEqual]

def sameTypeSigns : List Token.Kind :=
  .plus :: comparisonSigns

inductive BinaryRule : Value H -> Token.Kind -> Value H -> Ending H -> Prop where
  | equalHolds {v w : Value H} : Same v w -> BinaryRule v .equal w (.ok (.int 1))
  | equalFails {v w : Value H} : Not (Same v w) -> BinaryRule v .equal w (.ok (.int 0))
  | notEqualHolds {v w : Value H} :
      Not (Same v w) -> BinaryRule v .notEqual w (.ok (.int 1))
  | notEqualFails {v w : Value H} : Same v w -> BinaryRule v .notEqual w (.ok (.int 0))
  | exact {kind : Token.Kind} {n m result : Int} :
      Computes kind n m result -> Integer.InRange result ->
      BinaryRule (.int n) kind (.int m) (.ok (.int result))
  | overflow {kind : Token.Kind} {n m result : Int} :
      Computes kind n m result -> Not (Integer.InRange result) ->
      BinaryRule (.int n) kind (.int m) (.error (.overflow kind))
  | divisionByZero {n : Int} :
      BinaryRule (.int n) .slash (.int 0) (.error .divisionByZero)
  | join {v w : Value H} {s t : String} :
      Texts v w s t -> BinaryRule v .plus w (.ok (.str (s ++ t)))
  | intsHold {kind : Token.Kind} {n m : Int} {p : Prop} :
      Compares kind n m p -> p -> BinaryRule (.int n) kind (.int m) (.ok (.int 1))
  | intsFail {kind : Token.Kind} {n m : Int} {p : Prop} :
      Compares kind n m p -> Not p -> BinaryRule (.int n) kind (.int m) (.ok (.int 0))
  | textsHold {kind : Token.Kind} {v w : Value H} {s t : String} {p : Prop} :
      Texts v w s t -> Compares kind s t p -> p -> BinaryRule v kind w (.ok (.int 1))
  | textsFail {kind : Token.Kind} {v w : Value H} {s t : String} {p : Prop} :
      Texts v w s t -> Compares kind s t p -> Not p -> BinaryRule v kind w (.ok (.int 0))
  | noTextLeft {kind : Token.Kind} {v w : Value H} :
      kind ∈ sameTypeSigns -> v.text? = none ->
      BinaryRule v kind w (.error (.unexpectedValue v))
  | noTextRight {kind : Token.Kind} {v w : Value H} :
      kind ∈ sameTypeSigns -> v.text? ≠ none -> w.text? = none ->
      BinaryRule v kind w (.error (.unexpectedValue w))
  | noIntegerLeft {kind : Token.Kind} {v w : Value H} :
      kind ∈ integerSigns -> (forall n, v ≠ .int n) ->
      BinaryRule v kind w (.error (.unexpectedValue v))
  | noIntegerRight {kind : Token.Kind} {n : Int} {w : Value H} :
      kind ∈ integerSigns -> (forall m, w ≠ .int m) ->
      BinaryRule (.int n) kind w (.error (.unexpectedValue w))

theorem same_iff {v w : Value H} : v.same w = true <-> Same v w := by
  constructor
  · intro h
    cases v <;> cases w <;> simp only [Value.same, beq_iff_eq, Bool.false_eq_true] at h
    · rw [h]
      exact .texts _
    · rw [h]
      exact .textInt _
    · rw [<- h]
      exact .intText _
    · rw [h]
      exact .ints _
  · intro h
    cases h <;> simp [Value.same]

theorem same_eq_false_iff {v w : Value H} : v.same w = false <-> Not (Same v w) := by
  rw [<- same_iff, Bool.not_eq_true]

theorem pair_of_texts {v w : Value H} {s t : String} (h : Texts v w s t) :
    pair v w = .ok (.texts s t) := by
  cases h <;> rfl

theorem pair_of_noTextLeft {v w : Value H} (h : v.text? = none) :
    pair v w = .error (.error (.unexpectedValue v)) := by
  cases v with
  | str s => cases h
  | int n => cases h
  | function params body => rfl
  | native params handle => rfl

theorem pair_of_noTextRight {v w : Value H} (hv : v.text? ≠ none) (hw : w.text? = none) :
    pair v w = .error (.error (.unexpectedValue w)) := by
  cases v with
  | function params body => exact absurd rfl hv
  | native params handle => exact absurd rfl hv
  | _ => cases w <;> first | rfl | cases hw

theorem operands_cases (v w : Value H) :
    (exists n m, v = .int n ∧ w = .int m) ∨ (exists s t, Texts v w s t) ∨
      v.text? = none ∨ (v.text? ≠ none ∧ w.text? = none) := by
  cases v with
  | function params body => exact .inr (.inr (.inl rfl))
  | native params handle => exact .inr (.inr (.inl rfl))
  | str s =>
      cases w with
      | str t => exact .inr (.inl ⟨s, t, .both s t⟩)
      | int m => exact .inr (.inl ⟨s, _, .left s m⟩)
      | _ => exact .inr (.inr (.inr ⟨by simp [Value.text?], rfl⟩))
  | int n =>
      cases w with
      | str t => exact .inr (.inl ⟨_, t, .right n t⟩)
      | int m => exact .inl ⟨n, m, rfl, rfl⟩
      | _ => exact .inr (.inr (.inr ⟨by simp [Value.text?], rfl⟩))

section Comparison

variable [LinearOrder α]

theorem comparison_of_compares {kind : Token.Kind} {a b : α} {p : Prop} [Decidable p]
    (h : Compares kind a b p) :
    (comparison (compare a b) kind : Except (Halt H) (Value H)) =
      .ok (.ofBool (decide p)) := by
  have hcongr : forall {holds : Bool}, (holds = true <-> p) -> holds = decide p := by
    intro holds hiff
    rw [Bool.eq_iff_iff, hiff, decide_eq_true_iff]
  cases h with
  | greater =>
      rw [<- hcongr (Ordering.isGT_iff_eq_gt.trans compare_gt_iff_gt)]
      rfl
  | greaterEqual =>
      rw [<- hcongr (Ordering.isGE_iff_ne_lt.trans compare_ge_iff_ge)]
      rfl
  | less =>
      rw [<- hcongr (Ordering.isLT_iff_eq_lt.trans compare_lt_iff_lt)]
      rfl
  | lessEqual =>
      rw [<- hcongr (Ordering.isLE_iff_ne_gt.trans compare_le_iff_le)]
      rfl

theorem exists_compares {kind : Token.Kind} (a b : α)
    (h : kind ∈ comparisonSigns) : exists p, Compares kind a b p := by
  simp only [comparisonSigns, List.mem_cons, List.not_mem_nil, or_false] at h
  rcases h with rfl | rfl | rfl | rfl
  · exact ⟨_, .greater a b⟩
  · exact ⟨_, .greaterEqual a b⟩
  · exact ⟨_, .less a b⟩
  · exact ⟨_, .lessEqual a b⟩

theorem Compares.mem_comparisonSigns {kind : Token.Kind} {a b : α} {p : Prop}
    (h : Compares kind a b p) : kind ∈ comparisonSigns := by
  cases h <;> simp [comparisonSigns]

end Comparison

theorem binary_of_comparisonSign {kind : Token.Kind} (h : kind ∈ comparisonSigns)
    (v w : Value H) :
    binary v kind w = (do comparison (<- pair v w).order kind) := by
  simp only [comparisonSigns, List.mem_cons, List.not_mem_nil, or_false] at h
  rcases h with rfl | rfl | rfl | rfl <;> rfl

theorem binary_of_integerSign {kind : Token.Kind} (h : kind ∈ integerSigns)
    (v w : Value H) :
    binary v kind w = (do let (n, m) <- integers v w; integer n kind m) := by
  simp only [integerSigns, List.mem_cons, List.not_mem_nil, or_false] at h
  rcases h with rfl | rfl | rfl <;> rfl

theorem binary_of_computes {kind : Token.Kind} {n m result : Int}
    (h : Computes kind n m result) :
    (binary (.int n) kind (.int m) : Except (Halt H) (Value H)) = exact kind result := by
  cases h with
  | plus => rfl
  | minus => rfl
  | star => rfl
  | slash hzero =>
      change divide n m = _
      rw [divide, if_neg hzero]

theorem binary_of_comparedInts {kind : Token.Kind} {n m : Int} {p : Prop} [Decidable p]
    (h : Compares kind n m p) :
    (binary (.int n) kind (.int m) : Except (Halt H) (Value H)) = .ok (.ofBool (decide p)) := by
  rw [binary_of_comparisonSign h.mem_comparisonSigns]
  exact comparison_of_compares h

theorem binary_of_comparedTexts {kind : Token.Kind} {v w : Value H} {s t : String} {p : Prop}
    [Decidable p] (htexts : Texts v w s t) (h : Compares kind s t p) :
    binary v kind w = .ok (.ofBool (decide p)) := by
  rw [binary_of_comparisonSign h.mem_comparisonSigns, pair_of_texts htexts]
  exact comparison_of_compares h

theorem binary_of_pair_error {kind : Token.Kind} {v w : Value H} {halt : Halt H}
    (hkind : kind ∈ sameTypeSigns) (h : pair v w = .error halt) :
    binary v kind w = .error halt := by
  rcases List.mem_cons.mp hkind with rfl | hkind
  · change (pair v w >>= add) = _
    rw [h]
    rfl
  · rw [binary_of_comparisonSign hkind, h]
    rfl

theorem integers_of_noIntegerLeft {v : Value H} (h : forall n, v ≠ .int n) (w : Value H) :
    integers v w = .error (.error (.unexpectedValue v)) := by
  cases v with
  | int n => exact absurd rfl (h n)
  | _ => rfl

theorem integers_of_noIntegerRight {w : Value H} (h : forall m, w ≠ .int m) (n : Int) :
    integers (.int n) w = .error (.error (.unexpectedValue w)) := by
  cases w with
  | int m => exact absurd rfl (h m)
  | _ => rfl

theorem binary_of_binaryRule {v w : Value H} {kind : Token.Kind} {ending : Ending H}
    (h : BinaryRule v kind w ending) : binary v kind w = ending.mapError .error := by
  cases h with
  | equalHolds hsame => simp [binary, same_iff.mpr hsame, Value.ofBool, Except.mapError]
  | equalFails hsame => simp [binary, same_eq_false_iff.mpr hsame, Value.ofBool, Except.mapError]
  | notEqualHolds hsame => simp [binary, same_eq_false_iff.mpr hsame, Value.ofBool, Except.mapError]
  | notEqualFails hsame => simp [binary, same_iff.mpr hsame, Value.ofBool, Except.mapError]
  | exact hcomputes hrange =>
      rw [binary_of_computes hcomputes, exact_of_inRange hrange]
      rfl
  | overflow hcomputes hrange =>
      rw [binary_of_computes hcomputes, exact_of_not_inRange hrange]
      rfl
  | divisionByZero => rfl
  | join htexts =>
      change (pair v w >>= add) = _
      rw [pair_of_texts htexts]
      rfl
  | @intsHold _ _ _ p hcompares hp =>
      have : Decidable p := .isTrue hp
      rw [binary_of_comparedInts hcompares, decide_eq_true hp]
      rfl
  | @intsFail _ _ _ p hcompares hp =>
      have : Decidable p := .isFalse hp
      rw [binary_of_comparedInts hcompares, decide_eq_false hp]
      rfl
  | @textsHold _ _ _ _ _ p htexts hcompares hp =>
      have : Decidable p := .isTrue hp
      rw [binary_of_comparedTexts htexts hcompares, decide_eq_true hp]
      rfl
  | @textsFail _ _ _ _ _ p htexts hcompares hp =>
      have : Decidable p := .isFalse hp
      rw [binary_of_comparedTexts htexts hcompares, decide_eq_false hp]
      rfl
  | noTextLeft hkind hv => exact binary_of_pair_error hkind (pair_of_noTextLeft hv)
  | noTextRight hkind hv hw => exact binary_of_pair_error hkind (pair_of_noTextRight hv hw)
  | noIntegerLeft hkind hv =>
      rw [binary_of_integerSign hkind, integers_of_noIntegerLeft hv]
      rfl
  | noIntegerRight hkind hw =>
      rw [binary_of_integerSign hkind, integers_of_noIntegerRight hw]
      rfl

theorem binaryRule_of_computes {kind : Token.Kind} {n m result : Int}
    (h : Computes kind n m result) :
    exists ending : Ending H, BinaryRule (.int n) kind (.int m) ending := by
  by_cases hrange : Integer.InRange result
  · exact ⟨_, .exact h hrange⟩
  · exact ⟨_, .overflow h hrange⟩

theorem exists_binaryRule_of_sameTypeSign {kind : Token.Kind} (hkind : kind ∈ sameTypeSigns)
    (v w : Value H) : exists ending, BinaryRule v kind w ending := by
  rcases operands_cases v w with ⟨n, m, rfl, rfl⟩ | ⟨s, t, htexts⟩ | hv | ⟨hv, hw⟩
  · rcases List.mem_cons.mp hkind with rfl | hcomparison
    · exact binaryRule_of_computes (.plus n m)
    · rcases exists_compares n m hcomparison with ⟨p, hcompares⟩
      by_cases hp : p
      · exact ⟨_, .intsHold hcompares hp⟩
      · exact ⟨_, .intsFail hcompares hp⟩
  · rcases List.mem_cons.mp hkind with rfl | hcomparison
    · exact ⟨_, .join htexts⟩
    · rcases exists_compares s t hcomparison with ⟨p, hcompares⟩
      by_cases hp : p
      · exact ⟨_, .textsHold htexts hcompares hp⟩
      · exact ⟨_, .textsFail htexts hcompares hp⟩
  · exact ⟨_, .noTextLeft hkind hv⟩
  · exact ⟨_, .noTextRight hkind hv hw⟩

theorem exists_binaryRule_of_integerSign {kind : Token.Kind} (hkind : kind ∈ integerSigns)
    (v w : Value H) : exists ending, BinaryRule v kind w ending := by
  by_cases hv : exists n, v = .int n
  · rcases hv with ⟨n, rfl⟩
    by_cases hw : exists m, w = .int m
    · rcases hw with ⟨m, rfl⟩
      simp only [integerSigns, List.mem_cons, List.not_mem_nil, or_false] at hkind
      rcases hkind with rfl | rfl | rfl
      · exact binaryRule_of_computes (.minus n m)
      · exact binaryRule_of_computes (.star n m)
      · by_cases hzero : m = 0
        · rw [hzero]
          exact ⟨_, .divisionByZero⟩
        · exact binaryRule_of_computes (.slash hzero)
    · exact ⟨_, .noIntegerRight hkind (not_exists.mp hw)⟩
  · exact ⟨_, .noIntegerLeft hkind (not_exists.mp hv)⟩

def binarySigns : List Token.Kind :=
  [.equal, .notEqual] ++ sameTypeSigns ++ integerSigns

theorem exists_binaryRule {kind : Token.Kind} (h : kind ∈ binarySigns) (v w : Value H) :
    exists ending, BinaryRule v kind w ending := by
  rw [binarySigns, List.mem_append, List.mem_append] at h
  rcases h with (hequality | hsameType) | hinteger
  · simp only [List.mem_cons, List.not_mem_nil, or_false] at hequality
    by_cases hsame : Same v w
    · rcases hequality with rfl | rfl
      · exact ⟨_, .equalHolds hsame⟩
      · exact ⟨_, .notEqualFails hsame⟩
    · rcases hequality with rfl | rfl
      · exact ⟨_, .equalFails hsame⟩
      · exact ⟨_, .notEqualHolds hsame⟩
  · exact exists_binaryRule_of_sameTypeSign hsameType v w
  · exact exists_binaryRule_of_integerSign hinteger v w

theorem binary_of_not_mem {kind : Token.Kind} (h : kind ∉ binarySigns) (v w : Value H) :
    binary v kind w = .error (.noOperator .binary kind) := by
  cases kind <;>
    first
    | rfl
    | simp [binarySigns, sameTypeSigns, comparisonSigns, integerSigns] at h

theorem binary_eq_iff {v w : Value H} {kind : Token.Kind} {ending : Ending H} :
    binary v kind w = ending.mapError .error <-> BinaryRule v kind w ending := by
  constructor
  · intro h
    by_cases hkind : kind ∈ binarySigns
    · rcases exists_binaryRule hkind v w with ⟨other, hrule⟩
      rw [binary_of_binaryRule hrule] at h
      rw [<- mapError_error_injective h]
      exact hrule
    · rw [binary_of_not_mem hkind] at h
      cases ending <;> simp [Except.mapError] at h
  · exact binary_of_binaryRule

end Operator
end Lisan
