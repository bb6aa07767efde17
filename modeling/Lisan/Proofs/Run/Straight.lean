import Lisan.Capability
import Lisan.Proofs.Grammar.Shapes
import Lisan.Proofs.Run.Safety
import Lisan.Proofs.Run.View
import Lisan.Proofs.Tree.Straight

/-!
# Straight runs

Where all functions that are stored are those of the host, a straight tree has no way to
another tree. So its run is over with as much fuel as the tree is deep, and it leaves no other
functions behind.
-/

namespace Lisan

variable {H : Type}

/-!
## Runs that finish
-/

/-- A halt that is not for want of fuel: an error of the program, or a panic at one of the
strays. -/
inductive Halt.Definite (admitted : H -> Prop) (strays : List (Operator.Family × Token.Kind)) :
    Halt H -> Prop where
  | error {e : RuntimeError H} :
      e.Formed (.bodiless admitted) -> Halt.Definite admitted strays (.error e)
  | panic {family : Operator.Family} {kind : Token.Kind} :
      (family, kind) ∈ strays -> Halt.Definite admitted strays (.noOperator family kind)

abbrev Finished (admitted : H -> Prop) (strays : List (Operator.Family × Token.Kind))
    (post : α -> Prop) : EStateM.Result (Halt H) (State H) α -> Prop :=
  Ensured (State.Formed (.bodiless admitted)) (Halt.Definite admitted strays) post

variable {admitted : H -> Prop} {strays : List (Operator.Family × Token.Kind)}

theorem Finished.not_starved {post : α -> Prop}
    {outcome : EStateM.Result (Halt H) (State H) α} (h : Finished admitted strays post outcome) :
    Not (Starved outcome) := by
  rintro ⟨state, rfl⟩
  cases h with
  | error hhalt _ => cases hhalt

def Invariant.straight (admitted : H -> Prop) (strays : List (Operator.Family × Token.Kind)) :
    Invariant H where
  value := Value.Formed (.bodiless admitted)
  handle := admitted
  halt := Halt.Definite admitted strays
  expr fuel e := e.Fits admitted strays fuel
  stmt fuel s := s.Fits admitted strays fuel

theorem Ending.Formed.definite {ending : Ending H} (h : ending.Formed (.bodiless admitted)) :
    (Invariant.straight admitted strays).ending ending := by
  cases h with
  | ok hvalue => exact hvalue
  | error he => exact Halt.Definite.error he

theorem Host.Keeps.closed_straight {host : Host H} (hhost : host.Keeps (.bodiless admitted)) :
    (Invariant.straight admitted strays).Closed host where
  default := Value.formed_default
  starvedExpr h := h.not_zero.elim
  starvedStmt h := h.not_zero.elim
  literal h := by cases h.straight with | literal hvalue => exact hvalue
  assign h := h.assign
  group h := h.group
  operand h := h.unary.left
  unary h hv :=
    Invariant.result_unary (fun _ hrule => (hrule.formed hv).definite)
      (fun hnone => .panic (Operator.mem_of_stray_subset h.unary.right hnone))
  operands h := ⟨h.binary.left, h.binary.right.left⟩
  binary h hv hw :=
    Invariant.result_binary (fun _ hrule => (hrule.formed hv hw).definite)
      (fun hnone => .panic (Operator.mem_of_stray_subset h.binary.right.right hnone))
  call h := h.call
  notCallable hv := .error (.notCallable hv)
  -- no function has a body, so there is no way to another tree
  function hv _ := by cases hv with | function hbody => exact hbody.elim
  native hv := by cases hv with | native hhandle => exact hhandle
  called hhandle hstate := hhost hhandle hstate
  expr h := h.expr
  branch h := h.branch
  loop h := by cases h.straight
  block h := h.block
  define h := by cases h.straight

/-- A straight tree, run where all functions that are stored are those of the host, finishes
with as much fuel as it is deep, and does the same with more: it ends with a value, an error,
or a panic at a token that is no operator, which trees of texts do not have. It leaves no
function but those of the host. Of these is asked that they give and store no others. -/
theorem straight_finishes {host : Host H} {admitted : H -> Prop}
    (hhost : host.Keeps (.bodiless admitted)) {s : Stmt H} (hs : s.Straight admitted)
    {state : State H} (hstate : state.Formed (.bodiless admitted)) :
    (exists outcome : Outcome H,
      (forall fuel, s.depth ≤ fuel -> s.exec host fuel state = outcome) ∧
      Finished admitted s.strays (Value.Formed (.bodiless admitted)) outcome) ∧
    ((exists text, Program.ofText text = .ok s) -> s.strays = []) := by
  have hfinished : forall fuel, s.depth ≤ fuel ->
      Finished admitted s.strays (Value.Formed (.bodiless admitted)) (s.exec host fuel state) :=
    fun fuel hfuel => (hhost.closed_straight.run fuel).right s
      ⟨hs, hfuel, List.Subset.refl _⟩ hstate
  have hconcludes : forall fuel, s.depth ≤ fuel ->
      Concludes (fun fuel => s.exec host fuel) state (s.exec host fuel state) :=
    fun fuel hfuel => exec_concludes (hfinished fuel hfuel).not_starved
  refine ⟨⟨s.exec host s.depth state, ?_, hfinished s.depth (Nat.le_refl _)⟩, ?_⟩
  · intro fuel hfuel
    exact (hconcludes fuel hfuel).unique (hconcludes s.depth (Nat.le_refl _))
  · rintro ⟨text, htext⟩
    have hformed : s.Formed (.operators fun _ => False) :=
      Program.formed_of_ofText (fun _ => trivial) htext
    exact s.strays_eq_nil hformed

theorem straight_panic_finishes :
    let sum : Expr Capability :=
      .binary (.literal (.int 1)) ⟨.plus, .start⟩ (.literal (.int 2))
    let handBuilt : Expr Capability := .binary sum ⟨.comma, .start⟩ (.var "ي")
    let s : Stmt Capability :=
      .block [.expr (.call (.var Capability.sayName) [sum]), .expr handBuilt]
    let admitted : Capability -> Prop := fun handle => handle = .say
    s.depth = 5 ∧ s.strays = [(.binary, .comma)] ∧
      exists last : State Capability, last.said = #["3"] ∧ last.Formed (.bodiless admitted) ∧
        forall fuel, 5 ≤ fuel -> s.exec Capability.host fuel (Run.initial Store.withSay) =
          .error (.noOperator .binary .comma) last := by
  intro sum handBuilt s admitted
  have hsum : sum.Straight admitted := .binary (.literal (.int 1)) (.literal (.int 2))
  have hs : s.Straight admitted := by
    refine .block (List.forall_mem_cons.mpr ⟨.expr (.call (.var _) ?_), ?_⟩)
    · exact List.forall_mem_singleton.mpr hsum
    · exact List.forall_mem_singleton.mpr (.expr (.binary hsum (.var "ي")))
  have hstate : (Run.initial Store.withSay).Formed (.bodiless admitted) :=
    Store.formed_empty.assign Capability.sayName (.native rfl)
  rcases (straight_finishes (Capability.host_keeps_say _) hs hstate).left with
    ⟨outcome, hruns, hfinished⟩
  rw [<- hruns 5 (Nat.le_refl 5)] at hfinished hruns
  refine ⟨rfl, rfl, _, ?_, ?_, hruns⟩
  · decide +kernel
  · cases hfinished with
    | error _ hlast => exact hlast

/-- The one function that is lent gives no function of a program and stores nothing, but the
function that it gives stores one. -/
theorem straight_run_stores_lent_function :
    let stored : Value Capability := .function [] (.block [])
    let lent : Value Capability := .native [] (.set "ف" stored)
    let lender : Capability := .constant lent
    let tree : Stmt Capability := .block
      [.expr (.assign "ه" (.call (.var "ن") [])), .expr (.call (.var "ه") [])]
    let state : State Capability := (Run.initial .empty).assign "ن" (.native [] lender)
    Program.ofText "ه = ن(). ه()." = .ok tree ∧ tree.Straight (fun _ => False) ∧
      state.store.All (fun value => value = .native [] lender) ∧
      (forall found, Capability.host lender found = (lent, found)) ∧
      exists fuel last, tree.exec Capability.host fuel state = .ok .default last ∧
        last.store.get "ف" = stored := by
  intro stored lent lender tree state
  have htext : Program.ofText "ه = ن(). ه()." = .ok tree := by
    have htokens : (Token.ofText "ه = ن(). ه().").toOption =
        some [⟨.name "ه", ⟨1, 1⟩⟩, ⟨.assign, ⟨1, 3⟩⟩, ⟨.name "ن", ⟨1, 5⟩⟩, ⟨.openParen, ⟨1, 6⟩⟩,
          ⟨.closeParen, ⟨1, 7⟩⟩, ⟨.dot, ⟨1, 8⟩⟩, ⟨.name "ه", ⟨1, 10⟩⟩, ⟨.openParen, ⟨1, 11⟩⟩,
          ⟨.closeParen, ⟨1, 12⟩⟩, ⟨.dot, ⟨1, 13⟩⟩, ⟨.eof, ⟨1, 14⟩⟩] := by
      decide +kernel
    exact Program.ofText_of_toOption htokens rfl
  have hcall (name : String) : (Expr.call (.var name) []).Straight (fun _ : Capability => False) :=
    .call (.var name) fun _ harg => absurd harg List.not_mem_nil
  have htree : tree.Straight (fun _ => False) := by
    refine .block (List.forall_mem_cons.mpr ⟨.expr (.assign (hcall "ن")), ?_⟩)
    exact List.forall_mem_singleton.mpr (.expr (hcall "ه"))
  have hstate : state.store.All (fun value => value = .native [] lender) :=
    Store.All.assign Store.all_empty "ن" rfl
  refine ⟨htext, htree, hstate, fun _ => rfl, ?_⟩
  let middle := state.assign "ه" lent
  have hlender : Ends Capability.host (.eval (.var "ن")) state (.ok (.native [] lender)) state :=
    .var_assign _ "ن" _
  have hlent : Ends Capability.host (.eval (.var "ه")) middle (.ok lent) middle :=
    .var_assign state "ه" lent
  have hends : Ends Capability.host (.exec tree) state (.ok .default) (middle.assign "ف" stored) :=
    .block (.next (.expr (.assign (.callNative hlender .enterHost)))
      (.next (.expr (.callNative hlent .enterHost)) .done))
  rcases (finishes_of_ends hends).exists_fuel with ⟨fuel, hrun⟩
  exact ⟨fuel, _, hrun, Store.get_assign_self _ _ _⟩

end Lisan
