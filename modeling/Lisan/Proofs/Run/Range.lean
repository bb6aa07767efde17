import Lisan.Capability
import Lisan.Proofs.Grammar.Range
import Lisan.Proofs.Operator.Arithmetic
import Lisan.Proofs.Run.Invariant

/-!
# Runs within the range of integers

Operators give integers of the language or errors. So a run that starts within range stays
within range: in the values and errors that it ends with, and in all states that it passes
through, whether it ends or not.
-/

namespace Lisan

variable {H : Type}

/-!
## States and endings
-/

def State.Ranged (admitted : H -> Prop) (state : State H) : Prop :=
  state.store.All (Value.Ranged admitted)

def RuntimeError.Ranged (admitted : H -> Prop) : RuntimeError H -> Prop
  | .notCallable value => value.Ranged admitted
  | .unexpectedValue value => value.Ranged admitted
  | .divisionByZero => True
  | .overflow _ => True

def Ending.Ranged (admitted : H -> Prop) : Ending H -> Prop
  | .ok value => value.Ranged admitted
  | .error e => e.Ranged admitted

def Halt.Ranged (admitted : H -> Prop) : Halt H -> Prop
  | .error e => e.Ranged admitted
  | .noOperator _ _ => True
  | .outOfFuel => True

/-- The functions of the host that are admitted give values within range, and leave such
states, where they find such states. -/
def Host.KeepsRange (host : Host H) (admitted : H -> Prop) : Prop :=
  forall ⦃handle : H⦄, admitted handle -> forall ⦃state : State H⦄, state.Ranged admitted ->
    (host handle state).1.Ranged admitted ∧ (host handle state).2.Ranged admitted

variable {admitted : H -> Prop}

theorem State.Ranged.assign {state : State H} (h : state.Ranged admitted) (name : String)
    {value : Value H} (hvalue : value.Ranged admitted) :
    (state.assign name value).Ranged admitted :=
  Store.All.assign h name hvalue

theorem Capability.host_keepsRange_say :
    Capability.host.KeepsRange fun capability => capability = .say := by
  intro capability hcapability state hstate
  cases hcapability
  have hlast : (sayText state).Ranged fun capability => capability = .say := by
    rw [State.Ranged, store_sayText]
    exact hstate
  exact ⟨Integer.inRange_one, hlast⟩

/-!
## Operators
-/

theorem Operator.UnaryRule.ranged {kind : Token.Kind} {v : Value H} {ending : Ending H}
    (h : Operator.UnaryRule kind v ending) (hv : v.Ranged admitted) : ending.Ranged admitted := by
  cases h with
  | notTrue => exact Integer.inRange_zero
  | notFalse => exact Integer.inRange_one
  | minus _ hrange => exact hrange
  | minusOverflow => trivial
  | minusUnexpected => exact hv

theorem Operator.BinaryRule.ranged {kind : Token.Kind} {v w : Value H} {ending : Ending H}
    (h : Operator.BinaryRule v kind w ending) (hv : v.Ranged admitted)
    (hw : w.Ranged admitted) : ending.Ranged admitted := by
  cases h with
  | exact _ hrange => exact hrange
  | overflow => trivial
  | divisionByZero => trivial
  | join => trivial
  | noTextLeft => exact hv
  | noTextRight => exact hw
  | noIntegerLeft => exact hv
  | noIntegerRight => exact hw
  | _ => first | exact Integer.inRange_one | exact Integer.inRange_zero

/-!
## Runs
-/

def Invariant.ranged (admitted : H -> Prop) : Invariant H where
  value := Value.Ranged admitted
  handle := admitted
  halt := Halt.Ranged admitted
  expr _ := Expr.Ranged admitted
  stmt _ := Stmt.Ranged admitted

theorem Ending.ranged_iff {ending : Ending H} :
    ending.Ranged admitted <-> (Invariant.ranged admitted).ending ending := by
  cases ending with
  | ok value => exact Iff.rfl
  | error e => exact Iff.rfl

theorem Host.KeepsRange.closed {host : Host H} (hhost : host.KeepsRange admitted) :
    (Invariant.ranged admitted).Closed host where
  default := show Value.Ranged admitted .default from Value.ranged_default
  starvedExpr _ := trivial
  starvedStmt _ := trivial
  literal h := h
  assign h := h
  group h := h
  operand h := h
  unary _ hv :=
    Invariant.result_unary (fun _ hrule => Ending.ranged_iff.mp (hrule.ranged hv))
      (fun _ => trivial)
  operands h := h
  binary _ hv hw :=
    Invariant.result_binary (fun _ hrule => Ending.ranged_iff.mp (hrule.ranged hv hw))
      (fun _ => trivial)
  call h := ⟨h.left, Expr.allRanged_iff.mp h.right⟩
  notCallable hv := hv
  function hv _ := hv
  native hv := hv
  called hhandle hstate := hhost hhandle hstate
  expr h := h
  branch h := h
  loop h := ⟨trivial, h⟩
  block h := Stmt.allRanged_iff.mp h
  define h := h

theorem Host.KeepsRange.ends_ranged {host : Host H} (hhost : host.KeepsRange admitted)
    {task : Task H} {state last : State H} {ending : Ending H}
    (hends : Ends host task state ending last) (htask : (Invariant.ranged admitted).task task)
    (hstate : state.Ranged admitted) : ending.Ranged admitted ∧ last.Ranged admitted := by
  rcases hhost.closed.ends hends htask hstate with ⟨hending, hlast⟩
  exact ⟨Ending.ranged_iff.mpr hending, hlast⟩

/-- Arithmetic on integers of the language gives the exact result or an error. From a state
within range, whose functions of the host stay within range, the program of a text passes
through states within range only, and so does all that it starts; and where that ends, the
value or the error and the state that it leaves are within range. -/
theorem arithmetic_never_wraps {host : Host H} (hhost : host.KeepsRange admitted) :
    (forall n m : Int, Integer.InRange n -> Integer.InRange m ->
      Operator.ExactArithmetic H n m) ∧
    forall (text : String) (tree : Stmt H) (state : State H), Program.ofText text = .ok tree ->
      state.Ranged admitted ->
      (forall (task : Task H) (reached : State H),
        Reaches host (.exec tree, state) (task, reached) ->
          reached.Ranged admitted ∧
          forall ending last, Ends host task reached ending last ->
            ending.Ranged admitted ∧ last.Ranged admitted) ∧
      forall fuel ending last, tree.exec host fuel state = Ending.outcome ending last ->
        ending.Ranged admitted ∧ last.Ranged admitted := by
  constructor
  · intro n m hn _
    exact Operator.exactArithmetic_of_inRange hn
  · intro text tree state htext hstate
    have htree : tree.Ranged admitted := Program.ranged_of_ofText htext
    constructor
    · intro task reached hreaches
      rcases hhost.closed.reaches hreaches (fun _ => htree) hstate with ⟨htask, hreached⟩
      exact ⟨hreached, fun _ _ hends => hhost.ends_ranged hends htask hreached⟩
    · intro fuel ending last hrun
      exact hhost.ends_ranged ((run_sound fuel).right tree hrun) (fun _ => htree) hstate

theorem greatest_plus_one_never_wraps :
    let admitted := fun capability : Capability => capability = .say
    let text := "ا = 9223372036854775807. ا + 1."
    let tree : Stmt Capability := .block
      [.expr (.assign "ا" (.literal (.int 9223372036854775807))),
        .expr (.binary (.var "ا") ⟨.plus, ⟨1, 28⟩⟩ (.literal (.int 1)))]
    let state : State Capability := Run.initial .withSay
    let last := state.assign "ا" (.int 9223372036854775807)
    Capability.host.KeepsRange admitted ∧ Program.ofText text = .ok tree ∧
      state.Ranged admitted ∧
      Ends Capability.host (.exec tree) state (.error (.overflow .plus)) last ∧
      last.Ranged admitted := by
  intro admitted text tree state last
  have hhost : Capability.host.KeepsRange admitted := Capability.host_keepsRange_say
  have htext : Program.ofText text = .ok tree := by
    have htokens : (Token.ofText text).toOption =
        some [⟨.name "ا", ⟨1, 1⟩⟩, ⟨.assign, ⟨1, 3⟩⟩, ⟨.int 9223372036854775807, ⟨1, 5⟩⟩,
          ⟨.dot, ⟨1, 24⟩⟩, ⟨.name "ا", ⟨1, 26⟩⟩, ⟨.plus, ⟨1, 28⟩⟩, ⟨.int 1, ⟨1, 30⟩⟩,
          ⟨.dot, ⟨1, 31⟩⟩, ⟨.eof, ⟨1, 32⟩⟩] := by
      decide +kernel
    exact Program.ofText_of_toOption htokens rfl
  have hempty : (Run.initial .empty : State Capability).Ranged admitted := Store.all_empty
  have hstate : state.Ranged admitted := hempty.assign Capability.sayName rfl
  have hsum : Ends Capability.host
      (.eval (.binary (.var "ا") ⟨.plus, ⟨1, 28⟩⟩ (.literal (.int 1)))) last
      (.error (.overflow .plus)) last :=
    .binary (.var_assign state "ا" _) .literal (.overflow (.plus _ _) (by decide))
  have hends : Ends Capability.host (.exec tree) state (.error (.overflow .plus)) last :=
    .block (.next (.expr (.assign .literal)) (.rowError (.expr hsum)))
  have hranged := ((arithmetic_never_wraps hhost).right text tree state htext hstate).left
  exact ⟨hhost, htext, hstate, hends, ((hranged _ state .refl).right _ last hends).right⟩

end Lisan
