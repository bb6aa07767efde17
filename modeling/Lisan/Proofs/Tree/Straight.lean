import Lisan.Proofs.Tree.Shape

/-!
# Straight trees

A tree is straight if it repeats nothing and makes no function: it has no loop, no
declaration and no literal that is a function. Only a function with a body could take its
evaluation to another tree, so evaluation is nested no deeper than the tree itself.
-/

namespace Lisan

variable {H : Type}

/-- No function has a body: the only functions are those of the host, with handles that are
admitted. -/
def Shape.bodiless (admitted : H -> Prop) : Shape H :=
  ⟨fun _ => False, admitted⟩

/-!
## Straightness
-/

inductive Expr.Straight (admitted : H -> Prop) : Expr H -> Prop where
  | assign {target : String} {value : Expr H} :
      Expr.Straight admitted value -> Expr.Straight admitted (.assign target value)
  | var (name : String) : Expr.Straight admitted (.var name)
  | binary {left right : Expr H} {operator : Token} :
      Expr.Straight admitted left -> Expr.Straight admitted right ->
      Expr.Straight admitted (.binary left operator right)
  | unary {operator : Token} {operand : Expr H} :
      Expr.Straight admitted operand -> Expr.Straight admitted (.unary operator operand)
  | call {callee : Expr H} {args : List (Expr H)} :
      Expr.Straight admitted callee -> (forall arg, arg ∈ args -> Expr.Straight admitted arg) ->
      Expr.Straight admitted (.call callee args)
  | literal {value : Value H} :
      value.Formed (.bodiless admitted) -> Expr.Straight admitted (.literal value)
  | group {inner : Expr H} :
      Expr.Straight admitted inner -> Expr.Straight admitted (.group inner)

inductive Stmt.Straight (admitted : H -> Prop) : Stmt H -> Prop where
  | branch {condition : Expr H} {onTrue onFalse : Stmt H} :
      condition.Straight admitted -> Stmt.Straight admitted onTrue ->
      Stmt.Straight admitted onFalse ->
      Stmt.Straight admitted (.branch condition onTrue onFalse)
  | expr {value : Expr H} : value.Straight admitted -> Stmt.Straight admitted (.expr value)
  | block {body : List (Stmt H)} :
      (forall s, s ∈ body -> Stmt.Straight admitted s) -> Stmt.Straight admitted (.block body)

/-!
## Depth
-/

mutual

def Expr.depth : Expr H -> Nat
  | .assign _ value => value.depth + 1
  | .var _ => 1
  | .binary left _ right => max left.depth right.depth + 1
  | .unary _ operand => operand.depth + 1
  | .call callee args => max callee.depth (Expr.depthAll args) + 1
  | .literal _ => 1
  | .group inner => inner.depth + 1

def Expr.depthAll : List (Expr H) -> Nat
  | [] => 0
  | e :: rest => max e.depth (Expr.depthAll rest)

end

mutual

def Stmt.depth : Stmt H -> Nat
  | .branch condition onTrue onFalse =>
      max condition.depth (max onTrue.depth onFalse.depth) + 1
  | .loop condition body => max condition.depth body.depth + 1
  | .expr value => value.depth + 1
  | .block body => Stmt.depthAll body + 1
  | .define _ _ body => body.depth + 1

def Stmt.depthAll : List (Stmt H) -> Nat
  | [] => 0
  | s :: rest => max s.depth (Stmt.depthAll rest)

end

theorem Expr.depth_pos (e : Expr H) : 0 < e.depth := by
  cases e <;> exact Nat.succ_pos _

theorem Stmt.depth_pos (s : Stmt H) : 0 < s.depth := by
  cases s <;> exact Nat.succ_pos _

/-!
## Strays
-/

/-- A token in the place of an operator, with the family that it should be of, unless it is
one of the signs of that family. -/
def Operator.stray (family : Family) (signs : List Token.Kind) (operator : Token) :
    List (Family × Token.Kind) :=
  if operator.kind ∈ signs then [] else [(family, operator.kind)]

section Operators

variable {family : Operator.Family} {signs : List Token.Kind} {operator : Token}

theorem Operator.stray_eq_nil (h : operator.kind ∈ signs) : stray family signs operator = [] :=
  if_pos h

theorem Operator.mem_of_stray_subset {strays : List (Family × Token.Kind)}
    (h : stray family signs operator ⊆ strays) (hkind : operator.kind ∉ signs) :
    (family, operator.kind) ∈ strays := by
  rw [stray, if_neg hkind] at h
  exact h List.mem_cons_self

end Operators

mutual

def Expr.strays : Expr H -> List (Operator.Family × Token.Kind)
  | .assign _ value => value.strays
  | .var _ => []
  | .binary left operator right =>
      Operator.stray .binary Operator.binarySigns operator ++ (left.strays ++ right.strays)
  | .unary operator operand =>
      Operator.stray .unary Operator.unarySigns operator ++ operand.strays
  | .call callee args => callee.strays ++ Expr.straysAll args
  | .literal _ => []
  | .group inner => inner.strays

def Expr.straysAll : List (Expr H) -> List (Operator.Family × Token.Kind)
  | [] => []
  | e :: rest => e.strays ++ Expr.straysAll rest

end

mutual

def Stmt.strays : Stmt H -> List (Operator.Family × Token.Kind)
  | .branch condition onTrue onFalse => condition.strays ++ (onTrue.strays ++ onFalse.strays)
  | .loop condition body => condition.strays ++ body.strays
  | .expr value => value.strays
  | .block body => Stmt.straysAll body
  | .define _ _ body => body.strays

def Stmt.straysAll : List (Stmt H) -> List (Operator.Family × Token.Kind)
  | [] => []
  | s :: rest => s.strays ++ Stmt.straysAll rest

end

/-!
A well-formed tree has no strays.
-/

section Formed

variable {shape : Shape H}

mutual

theorem Expr.strays_eq_nil : forall e : Expr H, e.Formed shape -> e.strays = []
  | .assign _ value, .assign hvalue => value.strays_eq_nil hvalue
  | .var _, .var _ => rfl
  | .binary left operator right, .binary hleft hoperator hright => by
      rw [strays, Operator.stray_eq_nil hoperator, left.strays_eq_nil hleft,
        right.strays_eq_nil hright]
      rfl
  | .unary operator operand, .unary hoperator hoperand => by
      rw [strays, Operator.stray_eq_nil hoperator, operand.strays_eq_nil hoperand]
      rfl
  | .call callee args, .call hcallee hargs => by
      rw [strays, callee.strays_eq_nil hcallee, straysAll_eq_nil args hargs]
      rfl
  | .literal _, .literal _ => rfl
  | .group inner, .group hinner => inner.strays_eq_nil hinner

theorem Expr.straysAll_eq_nil : forall es : List (Expr H),
    (forall e, e ∈ es -> e.Formed shape) -> Expr.straysAll es = []
  | [], _ => rfl
  | e :: rest, h => by
      rw [List.forall_mem_cons] at h
      rw [straysAll, e.strays_eq_nil h.left, straysAll_eq_nil rest h.right]
      rfl

end

mutual

theorem Stmt.strays_eq_nil : forall s : Stmt H, s.Formed shape -> s.strays = []
  | .branch condition onTrue onFalse, .branch hcondition _ honTrue _ honFalse => by
      rw [strays, condition.strays_eq_nil hcondition, onTrue.strays_eq_nil honTrue,
        onFalse.strays_eq_nil honFalse]
      rfl
  | .loop condition body, .loop hcondition _ hbody => by
      rw [strays, condition.strays_eq_nil hcondition, body.strays_eq_nil hbody]
      rfl
  | .expr value, .expr hvalue => value.strays_eq_nil hvalue
  | .block body, .block hbody => straysAll_eq_nil body hbody
  | .define _ _ body, .define _ hbody => body.strays_eq_nil hbody

theorem Stmt.straysAll_eq_nil : forall body : List (Stmt H),
    (forall s, s ∈ body -> s.Formed shape) -> Stmt.straysAll body = []
  | [], _ => rfl
  | s :: rest, h => by
      rw [List.forall_mem_cons] at h
      rw [straysAll, s.strays_eq_nil h.left, straysAll_eq_nil rest h.right]
      rfl

end

end Formed

/-!
## Fitting trees

A straight tree fits fuel that is at least its depth. Its parts then fit fuel less by one.
-/

/-- The tree is straight, nested no deeper than the fuel, and has no strays but those. -/
structure Expr.Fits (admitted : H -> Prop) (strays : List (Operator.Family × Token.Kind))
    (fuel : Nat) (e : Expr H) : Prop where
  straight : e.Straight admitted
  depth_le : e.depth ≤ fuel
  strays_subset : e.strays ⊆ strays

structure Stmt.Fits (admitted : H -> Prop) (strays : List (Operator.Family × Token.Kind))
    (fuel : Nat) (s : Stmt H) : Prop where
  straight : s.Straight admitted
  depth_le : s.depth ≤ fuel
  strays_subset : s.strays ⊆ strays

section Fits

variable {admitted : H -> Prop} {strays : List (Operator.Family × Token.Kind)} {fuel : Nat}

theorem Expr.fits_of_all {es : List (Expr H)} (hstraight : forall e, e ∈ es -> e.Straight admitted)
    (hdepth : Expr.depthAll es ≤ fuel) (hstrays : Expr.straysAll es ⊆ strays) :
    forall e, e ∈ es -> e.Fits admitted strays fuel := by
  induction es with
  | nil => exact fun e he => absurd he List.not_mem_nil
  | cons e rest ih =>
      rw [depthAll, Nat.max_le] at hdepth
      rw [straysAll, List.append_subset] at hstrays
      rw [List.forall_mem_cons] at hstraight
      rw [List.forall_mem_cons]
      exact ⟨⟨hstraight.left, hdepth.left, hstrays.left⟩,
        ih hstraight.right hdepth.right hstrays.right⟩

theorem Stmt.fits_of_all {body : List (Stmt H)}
    (hstraight : forall s, s ∈ body -> s.Straight admitted)
    (hdepth : Stmt.depthAll body ≤ fuel) (hstrays : Stmt.straysAll body ⊆ strays) :
    forall s, s ∈ body -> s.Fits admitted strays fuel := by
  induction body with
  | nil => exact fun s hs => absurd hs List.not_mem_nil
  | cons s rest ih =>
      rw [depthAll, Nat.max_le] at hdepth
      rw [straysAll, List.append_subset] at hstrays
      rw [List.forall_mem_cons] at hstraight
      rw [List.forall_mem_cons]
      exact ⟨⟨hstraight.left, hdepth.left, hstrays.left⟩,
        ih hstraight.right hdepth.right hstrays.right⟩

namespace Expr.Fits

variable {left right operand callee inner value : Expr H} {args : List (Expr H)}

theorem not_zero {e : Expr H} (h : e.Fits admitted strays 0) : False :=
  absurd h.depth_le (Nat.not_le_of_lt e.depth_pos)

theorem assign {target : String} (h : (Expr.assign target value).Fits admitted strays (fuel + 1)) :
    value.Fits admitted strays fuel := by
  cases h.straight with
  | assign hvalue => exact ⟨hvalue, Nat.le_of_succ_le_succ h.depth_le, h.strays_subset⟩

theorem group (h : (Expr.group inner).Fits admitted strays (fuel + 1)) :
    inner.Fits admitted strays fuel := by
  cases h.straight with
  | group hinner => exact ⟨hinner, Nat.le_of_succ_le_succ h.depth_le, h.strays_subset⟩

theorem unary {operator : Token}
    (h : (Expr.unary operator operand).Fits admitted strays (fuel + 1)) :
    operand.Fits admitted strays fuel ∧
      Operator.stray .unary Operator.unarySigns operator ⊆ strays := by
  rcases List.append_subset.mp h.strays_subset with ⟨hoperator, hstrays⟩
  cases h.straight with
  | unary hoperand => exact ⟨⟨hoperand, Nat.le_of_succ_le_succ h.depth_le, hstrays⟩, hoperator⟩

theorem binary {operator : Token}
    (h : (Expr.binary left operator right).Fits admitted strays (fuel + 1)) :
    left.Fits admitted strays fuel ∧ right.Fits admitted strays fuel ∧
      Operator.stray .binary Operator.binarySigns operator ⊆ strays := by
  rcases List.append_subset.mp h.strays_subset with ⟨hoperator, hstrays⟩
  rcases List.append_subset.mp hstrays with ⟨hleftStrays, hrightStrays⟩
  rcases Nat.max_le.mp (Nat.le_of_succ_le_succ h.depth_le) with ⟨hleftDepth, hrightDepth⟩
  cases h.straight with
  | binary hleft hright =>
      exact ⟨⟨hleft, hleftDepth, hleftStrays⟩, ⟨hright, hrightDepth, hrightStrays⟩, hoperator⟩

theorem call (h : (Expr.call callee args).Fits admitted strays (fuel + 1)) :
    callee.Fits admitted strays fuel ∧ forall arg, arg ∈ args -> arg.Fits admitted strays fuel := by
  rcases List.append_subset.mp h.strays_subset with ⟨hcalleeStrays, hargsStrays⟩
  rcases Nat.max_le.mp (Nat.le_of_succ_le_succ h.depth_le) with ⟨hcalleeDepth, hargsDepth⟩
  cases h.straight with
  | call hcallee hargs =>
      exact ⟨⟨hcallee, hcalleeDepth, hcalleeStrays⟩, fits_of_all hargs hargsDepth hargsStrays⟩

end Expr.Fits

namespace Stmt.Fits

variable {condition value : Expr H} {onTrue onFalse : Stmt H} {body : List (Stmt H)}

theorem not_zero {s : Stmt H} (h : s.Fits admitted strays 0) : False :=
  absurd h.depth_le (Nat.not_le_of_lt s.depth_pos)

theorem expr (h : (Stmt.expr value).Fits admitted strays (fuel + 1)) :
    value.Fits admitted strays fuel := by
  cases h.straight with
  | expr hvalue => exact ⟨hvalue, Nat.le_of_succ_le_succ h.depth_le, h.strays_subset⟩

theorem branch (h : (Stmt.branch condition onTrue onFalse).Fits admitted strays (fuel + 1)) :
    condition.Fits admitted strays fuel ∧ onTrue.Fits admitted strays fuel ∧
      onFalse.Fits admitted strays fuel := by
  rcases List.append_subset.mp h.strays_subset with ⟨hconditionStrays, hstrays⟩
  rcases List.append_subset.mp hstrays with ⟨honTrueStrays, honFalseStrays⟩
  rcases Nat.max_le.mp (Nat.le_of_succ_le_succ h.depth_le) with ⟨hconditionDepth, hdepth⟩
  rcases Nat.max_le.mp hdepth with ⟨honTrueDepth, honFalseDepth⟩
  cases h.straight with
  | branch hcondition honTrue honFalse =>
      exact ⟨⟨hcondition, hconditionDepth, hconditionStrays⟩,
        ⟨honTrue, honTrueDepth, honTrueStrays⟩, ⟨honFalse, honFalseDepth, honFalseStrays⟩⟩

theorem block (h : (Stmt.block body).Fits admitted strays (fuel + 1)) :
    forall s, s ∈ body -> s.Fits admitted strays fuel := by
  cases h.straight with
  | block hbody => exact fits_of_all hbody (Nat.le_of_succ_le_succ h.depth_le) h.strays_subset

end Stmt.Fits
end Fits

end Lisan
