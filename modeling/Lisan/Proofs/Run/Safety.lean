import Lisan.Capability
import Lisan.Proofs.Run.Invariant
import Lisan.Proofs.Tree.Shape

/-!
# Safety of runs

A run of a well-formed tree on a store of well-formed values never meets a token in
the place of an operator that is none, and leaves such a store wherever it is left.
-/

namespace Lisan

variable {H : Type}

/-!
## Stores and states
-/

def Store.Formed (shape : Shape H) (store : Store H) : Prop :=
  forall ⦃key : String⦄ ⦃value : Value H⦄, store.table[key]? = some value -> value.Formed shape

def State.Formed (shape : Shape H) (state : State H) : Prop :=
  state.store.Formed shape

variable {shape : Shape H}

theorem Store.formed_empty : (Store.empty : Store H).Formed shape :=
  all_empty

theorem Store.Formed.assign {store : Store H} (h : store.Formed shape) (name : String)
    {value : Value H} (hvalue : value.Formed shape) : (store.assign name value).Formed shape :=
  All.assign h name hvalue

/-!
## Endings
-/

inductive RuntimeError.Formed (shape : Shape H) : RuntimeError H -> Prop where
  | notCallable {value : Value H} :
      value.Formed shape -> RuntimeError.Formed shape (.notCallable value)
  | unexpectedValue {value : Value H} :
      value.Formed shape -> RuntimeError.Formed shape (.unexpectedValue value)
  | divisionByZero : RuntimeError.Formed shape .divisionByZero
  | overflow (operator : Token.Kind) : RuntimeError.Formed shape (.overflow operator)

/-- A halt that is not for want of an operator. -/
inductive Halt.Formed (shape : Shape H) : Halt H -> Prop where
  | error {e : RuntimeError H} : e.Formed shape -> Halt.Formed shape (.error e)
  | outOfFuel : Halt.Formed shape .outOfFuel

theorem Halt.Formed.ne_noOperator {halt : Halt H} (h : halt.Formed shape)
    (family : Operator.Family) (kind : Token.Kind) : halt ≠ .noOperator family kind := by
  intro hhalt
  rw [hhalt] at h
  cases h

inductive Ending.Formed (shape : Shape H) : Ending H -> Prop where
  | ok {value : Value H} : value.Formed shape -> Ending.Formed shape (.ok value)
  | error {e : RuntimeError H} : e.Formed shape -> Ending.Formed shape (.error e)

theorem Operator.UnaryRule.formed {kind : Token.Kind} {v : Value H} {ending : Ending H}
    (h : Operator.UnaryRule kind v ending) (hv : v.Formed shape) : ending.Formed shape := by
  cases h with
  | notTrue => exact .ok (.int 0)
  | notFalse => exact .ok (.int 1)
  | minus => exact .ok (.int _)
  | minusOverflow => exact .error (.overflow _)
  | minusUnexpected => exact .error (.unexpectedValue hv)

theorem Operator.BinaryRule.formed {kind : Token.Kind} {v w : Value H} {ending : Ending H}
    (h : Operator.BinaryRule v kind w ending) (hv : v.Formed shape) (hw : w.Formed shape) :
    ending.Formed shape := by
  cases h with
  | overflow => exact .error (.overflow _)
  | divisionByZero => exact .error .divisionByZero
  | join => exact .ok (.str _)
  | noTextLeft => exact .error (.unexpectedValue hv)
  | noTextRight => exact .error (.unexpectedValue hw)
  | noIntegerLeft => exact .error (.unexpectedValue hv)
  | noIntegerRight => exact .error (.unexpectedValue hw)
  | _ => exact .ok (.int _)

/-!
## Runs that keep all values well-formed
-/

abbrev Kept (shape : Shape H) (post : α -> Prop) :
    EStateM.Result (Halt H) (State H) α -> Prop :=
  Ensured (State.Formed shape) (Halt.Formed shape) post

/-- The functions of the host keep all values well-formed, as far as their handles are
admitted. -/
def Host.Keeps (host : Host H) (shape : Shape H) : Prop :=
  forall ⦃handle : H⦄, shape.handle handle -> forall ⦃state : State H⦄, state.Formed shape ->
    (host handle state).1.Formed shape ∧ (host handle state).2.Formed shape

theorem Capability.host_keeps_say (body : Stmt Capability -> Prop) :
    Capability.host.Keeps ⟨body, fun handle => handle = .say⟩ := by
  intro handle hhandle state hstate
  cases (show handle = .say from hhandle)
  have hlast : (sayText state).Formed ⟨body, fun handle => handle = .say⟩ := by
    rw [State.Formed, store_sayText]
    exact hstate
  exact ⟨.int 1, hlast⟩

def Shape.invariant (shape : Shape H) : Invariant H where
  value := Value.Formed shape
  handle := shape.handle
  halt := Halt.Formed shape
  expr _ := Expr.Formed shape
  stmt _ := Stmt.Formed shape

theorem Ending.Formed.kept {ending : Ending H} (h : ending.Formed shape) :
    shape.invariant.ending ending := by
  cases h with
  | ok hvalue => exact hvalue
  | error he => exact Halt.Formed.error he

variable {host : Host H}

theorem Host.Keeps.closed (hhost : host.Keeps shape) : shape.invariant.Closed host where
  default := Value.formed_default
  starvedExpr _ := .outOfFuel
  starvedStmt _ := .outOfFuel
  literal h := by cases h with | literal hvalue => exact hvalue
  assign h := by cases h with | assign hvalue => exact hvalue
  group h := by cases h with | group hinner => exact hinner
  operand h := by cases h with | unary _ hoperand => exact hoperand
  unary h hv := by
    cases h with
    | unary hkind _ =>
        exact Invariant.result_unary (fun _ hrule => (hrule.formed hv).kept)
          (fun hnone => absurd hkind hnone)
  operands h := by cases h with | binary hleft _ hright => exact ⟨hleft, hright⟩
  binary h hv hw := by
    cases h with
    | binary _ hkind _ =>
        exact Invariant.result_binary (fun _ hrule => (hrule.formed hv hw).kept)
          (fun hnone => absurd hkind hnone)
  call h := by cases h with | call hcallee hargs => exact ⟨hcallee, hargs⟩
  notCallable hv := .error (.notCallable hv)
  function hv _ := by cases hv with | function _ hbody => exact hbody
  native hv := by cases hv with | native hhandle => exact hhandle
  called hhandle hstate := hhost hhandle hstate
  expr h := by cases h with | expr hvalue => exact hvalue
  branch h := by
    cases h with | branch hcondition _ honTrue _ honFalse => exact ⟨hcondition, honTrue, honFalse⟩
  loop h := by
    cases h with | loop hcondition _ hbody => exact ⟨.outOfFuel, hcondition, hbody⟩
  block h := by cases h with | block hbody => exact hbody
  define h := by cases h with | define hblock hbody => exact Value.Formed.function hblock hbody

theorem Host.Keeps.exec_kept (hhost : host.Keeps shape) {s : Stmt H} (hs : s.Formed shape)
    {state : State H} (hstate : state.Formed shape) (fuel : Nat) :
    Kept shape (Value.Formed shape) (s.exec host fuel state) :=
  (hhost.closed.run fuel).right s hs hstate

theorem Host.Keeps.reaches_safe (hhost : host.Keeps shape) {start reached : Task H × State H}
    (hreaches : Reaches host start reached) (htask : shape.invariant.task start.1)
    (hstate : start.2.Formed shape) :
    reached.2.Formed shape ∧
      (forall ending state', Ends host reached.1 reached.2 ending state' ->
        state'.Formed shape) ∧
      forall fuel count, Kept shape (Value.Formed shape)
        (reached.1.run host fuel count reached.2) := by
  rcases hhost.closed.reaches hreaches htask hstate with ⟨hreached, hstate'⟩
  refine ⟨hstate', ?_, ?_⟩
  · intro ending last hends
    exact (hhost.closed.ends hends hreached hstate').right
  · intro fuel count
    exact hhost.closed.task_run hreached fuel count hstate'

end Lisan
