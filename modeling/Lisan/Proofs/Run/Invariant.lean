import Lisan.Proofs.Run.Ensures

/-!
# Invariants of runs

What is asked of values goes on to hold in a run, if it is asked of the trees that are run and
of the functions of the host as well, and comes down from each of them to its parts. What a
run with some fuel comes to, where it ends and what it passes through is read off such laws.
-/

namespace Lisan

variable {H : Type}

/-- What is asked of values, of functions of the host, of halts, and of trees that are run with
so much fuel. -/
structure Invariant (H : Type) where
  value : Value H -> Prop
  handle : H -> Prop
  halt : Halt H -> Prop
  expr : Nat -> Expr H -> Prop
  stmt : Nat -> Stmt H -> Prop

namespace Invariant

def state (inv : Invariant H) (state : State H) : Prop :=
  state.store.All inv.value

def result (inv : Invariant H) : Except (Halt H) (Value H) -> Prop
  | .ok value => inv.value value
  | .error halt => inv.halt halt

def ending (inv : Invariant H) (ending : Ending H) : Prop :=
  inv.result (ending.mapError .error)

def callee (inv : Invariant H) : Callee H -> Prop
  | .body s => forall fuel, inv.stmt fuel s
  | .host handle => inv.handle handle

def task (inv : Invariant H) : Task H -> Prop
  | .eval e => forall fuel, inv.expr fuel e
  | .exec s => forall fuel, inv.stmt fuel s
  | .rounds condition body last =>
      (forall fuel, inv.expr fuel condition) ∧ (forall fuel, inv.stmt fuel body) ∧
        inv.value last
  | .row rest last => (forall s, s ∈ rest -> forall fuel, inv.stmt fuel s) ∧ inv.value last
  | .apply _ args callee =>
      (forall arg, arg ∈ args -> forall fuel, inv.expr fuel arg) ∧ inv.callee callee

/-- The invariant comes down from a tree to its parts, for which there is less fuel, and from a
function to its body. Operators and functions of the host give only what has it. -/
structure Closed (inv : Invariant H) (host : Host H) : Prop where
  default : inv.value .default
  starvedExpr {e : Expr H} : inv.expr 0 e -> inv.halt .outOfFuel
  starvedStmt {s : Stmt H} : inv.stmt 0 s -> inv.halt .outOfFuel
  literal {fuel : Nat} {value : Value H} : inv.expr (fuel + 1) (.literal value) -> inv.value value
  assign {fuel : Nat} {target : String} {value : Expr H} :
    inv.expr (fuel + 1) (.assign target value) -> inv.expr fuel value
  group {fuel : Nat} {inner : Expr H} : inv.expr (fuel + 1) (.group inner) -> inv.expr fuel inner
  operand {fuel : Nat} {operator : Token} {operand : Expr H} :
    inv.expr (fuel + 1) (.unary operator operand) -> inv.expr fuel operand
  unary {fuel : Nat} {operator : Token} {operand : Expr H} {v : Value H} :
    inv.expr (fuel + 1) (.unary operator operand) -> inv.value v ->
    inv.result (Operator.unary operator.kind v)
  operands {fuel : Nat} {left right : Expr H} {operator : Token} :
    inv.expr (fuel + 1) (.binary left operator right) ->
    inv.expr fuel left ∧ inv.expr fuel right
  binary {fuel : Nat} {left right : Expr H} {operator : Token} {v w : Value H} :
    inv.expr (fuel + 1) (.binary left operator right) -> inv.value v -> inv.value w ->
    inv.result (Operator.binary v operator.kind w)
  call {fuel : Nat} {callee : Expr H} {args : List (Expr H)} :
    inv.expr (fuel + 1) (.call callee args) ->
    inv.expr fuel callee ∧ forall arg, arg ∈ args -> inv.expr fuel arg
  notCallable {v : Value H} : inv.value v -> inv.halt (.error (.notCallable v))
  function {params : List String} {body : Stmt H} :
    inv.value (.function params body) -> forall fuel, inv.stmt fuel body
  native {params : List String} {handle : H} :
    inv.value (.native params handle) -> inv.handle handle
  called {handle : H} {state : State H} : inv.handle handle -> inv.state state ->
    inv.value (host handle state).1 ∧ inv.state (host handle state).2
  expr {fuel : Nat} {value : Expr H} : inv.stmt (fuel + 1) (.expr value) -> inv.expr fuel value
  branch {fuel : Nat} {condition : Expr H} {onTrue onFalse : Stmt H} :
    inv.stmt (fuel + 1) (.branch condition onTrue onFalse) ->
    inv.expr fuel condition ∧ inv.stmt fuel onTrue ∧ inv.stmt fuel onFalse
  loop {fuel : Nat} {condition : Expr H} {body : Stmt H} :
    inv.stmt (fuel + 1) (.loop condition body) ->
    inv.halt .outOfFuel ∧ inv.expr fuel condition ∧ inv.stmt fuel body
  block {fuel : Nat} {body : List (Stmt H)} :
    inv.stmt (fuel + 1) (.block body) -> forall s, s ∈ body -> inv.stmt fuel s
  define {fuel : Nat} {name : String} {params : List String} {body : Stmt H} :
    inv.stmt (fuel + 1) (.define name params body) -> inv.value (.function params body)

variable {inv : Invariant H}

/-!
## Operators

An operator gives what one of its rules says. Only a token that is no operator is left over.
-/

theorem result_unary {kind : Token.Kind} {v : Value H}
    (hrule : forall ending, Operator.UnaryRule kind v ending -> inv.ending ending)
    (hnone : kind ∉ Operator.unarySigns -> inv.halt (.noOperator .unary kind)) :
    inv.result (Operator.unary kind v) := by
  by_cases hkind : kind ∈ Operator.unarySigns
  · rcases Operator.exists_unaryRule hkind v with ⟨ending, hending⟩
    rw [Operator.unary_of_unaryRule hending]
    exact hrule ending hending
  · rw [Operator.unary_of_not_mem hkind]
    exact hnone hkind

theorem result_binary {kind : Token.Kind} {v w : Value H}
    (hrule : forall ending, Operator.BinaryRule v kind w ending -> inv.ending ending)
    (hnone : kind ∉ Operator.binarySigns -> inv.halt (.noOperator .binary kind)) :
    inv.result (Operator.binary v kind w) := by
  by_cases hkind : kind ∈ Operator.binarySigns
  · rcases Operator.exists_binaryRule hkind v w with ⟨ending, hending⟩
    rw [Operator.binary_of_binaryRule hending]
    exact hrule ending hending
  · rw [Operator.binary_of_not_mem hkind]
    exact hnone hkind

/-!
## States and arguments
-/

abbrev Keeps (inv : Invariant H) (post : α -> Prop) (run : Run H α) : Prop :=
  Ensures inv.state inv.halt post run

theorem state_assign {state : State H} (h : inv.state state) (name : String) {value : Value H}
    (hvalue : inv.value value) : inv.state (state.assign name value) :=
  Store.All.assign h name hvalue

namespace Keeps

theorem assign (name : String) {value : Value H} (h : inv.value value) :
    inv.Keeps (fun _ => True) (Run.assign name value) :=
  Ensures.assign fun _ hstate => state_assign hstate name h

theorem ofExcept {result : Except (Halt H) (Value H)} (h : inv.result result) :
    inv.Keeps inv.value (Run.ofExcept result) := by
  cases result with
  | ok value => exact Ensures.pure h
  | error halt => exact Ensures.throw h

theorem bindArguments {evaluate : Expr H -> Run H (Value H)} (params : List String)
    {args : List (Expr H)} (h : forall arg, arg ∈ args -> inv.Keeps inv.value (evaluate arg)) :
    inv.Keeps (fun _ => True) (Run.bindArguments evaluate params args) :=
  Ensures.bindArguments (fun name _ => Keeps.assign name) params h

end Keeps

namespace Closed

variable {host : Host H}

/-!
## Runs with some fuel
-/

section Fuel

variable {fuel : Nat}

theorem callHost (h : inv.Closed host) {handle : H} (hhandle : inv.handle handle) :
    inv.Keeps inv.value (Run.callHost host handle) :=
  Ensures.callHost fun _ hstate => h.called hhandle hstate

theorem eval_succ (h : inv.Closed host)
    (heval : forall e, inv.expr fuel e -> inv.Keeps inv.value (e.eval host fuel))
    (hexec : forall s, inv.stmt fuel s -> inv.Keeps inv.value (s.exec host fuel))
    {e : Expr H} (he : inv.expr (fuel + 1) e) :
    inv.Keeps inv.value (e.eval host (fuel + 1)) := by
  cases e with
  | literal value => exact Ensures.pure (h.literal he)
  | var name =>
      apply Ensures.bind Ensures.get
      intro state hstate
      exact Ensures.pure (Store.All.get hstate h.default name)
  | assign target value =>
      apply Ensures.bind (heval value (h.assign he))
      intro result hresult
      apply Ensures.bind (Keeps.assign target hresult)
      intro _ _
      exact Ensures.pure hresult
  | group inner => exact heval inner (h.group he)
  | unary operator operand =>
      apply Ensures.bind (heval operand (h.operand he))
      intro v hv
      exact Keeps.ofExcept (h.unary he hv)
  | binary left operator right =>
      rcases h.operands he with ⟨hleft, hright⟩
      apply Ensures.bind (heval left hleft)
      intro v hv
      apply Ensures.bind (heval right hright)
      intro w hw
      exact Keeps.ofExcept (h.binary he hv hw)
  | call callee args =>
      rcases h.call he with ⟨hcallee, hargs⟩
      have hargs := fun arg harg => heval arg (hargs arg harg)
      apply Ensures.bind (heval callee hcallee)
      intro v hv
      cases v with
      | str text => exact Ensures.throw (h.notCallable hv)
      | int n => exact Ensures.throw (h.notCallable hv)
      | function params body =>
          apply Ensures.bind (Keeps.bindArguments params hargs)
          intro _ _
          exact hexec body (h.function hv fuel)
      | native params handle =>
          apply Ensures.bind (Keeps.bindArguments params hargs)
          intro _ _
          exact h.callHost (h.native hv)

theorem exec_succ (h : inv.Closed host)
    (heval : forall e, inv.expr fuel e -> inv.Keeps inv.value (e.eval host fuel))
    (hexec : forall s, inv.stmt fuel s -> inv.Keeps inv.value (s.exec host fuel))
    {s : Stmt H} (hs : inv.stmt (fuel + 1) s) :
    inv.Keeps inv.value (s.exec host (fuel + 1)) := by
  cases s with
  | expr value => exact heval value (h.expr hs)
  | branch condition onTrue onFalse =>
      rcases h.branch hs with ⟨hcondition, honTrue, honFalse⟩
      apply Ensures.bind (heval condition hcondition)
      intro test _
      apply Ensures.bind Ensures.get
      intro state _
      cases test.truthy || state.store.overrideActive with
      | true => exact hexec onTrue honTrue
      | false => exact hexec onFalse honFalse
  | loop condition body =>
      rcases h.loop hs with ⟨hstarved, hcondition, hbody⟩
      exact Ensures.repeatWhile hstarved (heval condition hcondition) (hexec body hbody) fuel
        h.default
  | block body =>
      exact Ensures.sequence (fun s hmem => hexec s (h.block hs s hmem)) h.default
  | define name params body =>
      apply Ensures.bind (Keeps.assign name (h.define hs))
      intro _ _
      exact Ensures.pure (h.define hs)

theorem run (h : inv.Closed host) (fuel : Nat) :
    (forall e, inv.expr fuel e -> inv.Keeps inv.value (e.eval host fuel)) ∧
      forall s, inv.stmt fuel s -> inv.Keeps inv.value (s.exec host fuel) := by
  induction fuel with
  | zero =>
      constructor
      · intro e he
        exact Ensures.throw (h.starvedExpr he)
      · intro s hs
        exact Ensures.throw (h.starvedStmt hs)
  | succ fuel ih =>
      constructor
      · intro e he
        exact h.eval_succ ih.left ih.right he
      · intro s hs
        exact h.exec_succ ih.left ih.right hs

end Fuel

/-!
## What a run passes through
-/

theorem task_run (h : inv.Closed host) {task : Task H} (htask : inv.task task)
    (fuel count : Nat) : inv.Keeps inv.value (task.run host fuel count) := by
  rcases h.run fuel with ⟨heval, hexec⟩
  cases task with
  | eval e => exact heval e (htask fuel)
  | exec s => exact hexec s (htask fuel)
  | rounds condition body last =>
      rcases htask with ⟨hcondition, hbody, hlast⟩
      exact Ensures.repeatWhile (h.starvedExpr (hcondition 0)) (heval condition (hcondition fuel))
        (hexec body (hbody fuel)) count hlast
  | row rest last =>
      exact Ensures.sequence (fun s hmem => hexec s (htask.left s hmem fuel)) htask.right
  | apply params args callee =>
      rcases htask with ⟨hargs, hcallee⟩
      have hargs := fun arg harg => heval arg (hargs arg harg fuel)
      apply Ensures.bind (Keeps.bindArguments params hargs)
      intro _ _
      cases callee with
      | body s => exact hexec s (hcallee fuel)
      | host handle => exact h.callHost hcallee

theorem ends (h : inv.Closed host) {task : Task H} {state state' : State H}
    {ending : Ending H} (hends : Ends host task state ending state') (htask : inv.task task)
    (hstate : inv.state state) : inv.ending ending ∧ inv.state state' := by
  -- what a task ends in, its run comes to with some fuel
  rcases (finishes_of_ends hends).exists_fuel with ⟨fuel, hrun⟩
  have hkept := h.task_run htask fuel fuel hstate
  rw [hrun] at hkept
  cases ending with
  | ok value =>
      cases hkept with
      | ok hvalue hstate' => exact ⟨hvalue, hstate'⟩
  | error e =>
      cases hkept with
      | error hhalt hstate' => exact ⟨hhalt, hstate'⟩

theorem starts (h : inv.Closed host) {task started : Task H} {state state' : State H}
    (hstarts : Starts host (task, state) (started, state')) (htask : inv.task task)
    (hstate : inv.state state) : inv.task started ∧ inv.state state' := by
  cases hstarts with
  | assign => exact ⟨fun fuel => h.assign (htask (fuel + 1)), hstate⟩
  | group => exact ⟨fun fuel => h.group (htask (fuel + 1)), hstate⟩
  | unary => exact ⟨fun fuel => h.operand (htask (fuel + 1)), hstate⟩
  | left => exact ⟨fun fuel => (h.operands (htask (fuel + 1))).left, hstate⟩
  | right hleft =>
      have hoperands := fun fuel => h.operands (htask (fuel + 1))
      -- the right operand starts where the left one has ended
      have hmiddle := (h.ends hleft (fun fuel => (hoperands fuel).left) hstate).right
      exact ⟨fun fuel => (hoperands fuel).right, hmiddle⟩
  | callee => exact ⟨fun fuel => (h.call (htask (fuel + 1))).left, hstate⟩
  | callFunction hcallee =>
      have hparts := fun fuel => h.call (htask (fuel + 1))
      rcases h.ends hcallee (fun fuel => (hparts fuel).left) hstate with ⟨hfunction, hmiddle⟩
      exact ⟨⟨fun arg harg fuel => (hparts fuel).right arg harg, h.function hfunction⟩, hmiddle⟩
  | callNative hcallee =>
      have hparts := fun fuel => h.call (htask (fuel + 1))
      rcases h.ends hcallee (fun fuel => (hparts fuel).left) hstate with ⟨hnative, hmiddle⟩
      exact ⟨⟨fun arg harg fuel => (hparts fuel).right arg harg, h.native hnative⟩, hmiddle⟩
  | arg => exact ⟨htask.left _ List.mem_cons_self, hstate⟩
  | bound harg =>
      rcases htask with ⟨hargs, hcallee⟩
      rw [List.forall_mem_cons] at hargs
      rcases h.ends harg hargs.left hstate with ⟨hvalue, hmiddle⟩
      exact ⟨⟨hargs.right, hcallee⟩, state_assign hmiddle _ hvalue⟩
  | surplus harg =>
      rcases htask with ⟨hargs, hcallee⟩
      rw [List.forall_mem_cons] at hargs
      exact ⟨⟨hargs.right, hcallee⟩, (h.ends harg hargs.left hstate).right⟩
  | body => exact ⟨htask.right, hstate⟩
  | expr => exact ⟨fun fuel => h.expr (htask (fuel + 1)), hstate⟩
  | condition => exact ⟨fun fuel => (h.branch (htask (fuel + 1))).left, hstate⟩
  | onTrue htest _ =>
      have hparts := fun fuel => h.branch (htask (fuel + 1))
      have hmiddle := (h.ends htest (fun fuel => (hparts fuel).left) hstate).right
      exact ⟨fun fuel => (hparts fuel).right.left, hmiddle⟩
  | onFalse htest _ _ =>
      have hparts := fun fuel => h.branch (htask (fuel + 1))
      have hmiddle := (h.ends htest (fun fuel => (hparts fuel).left) hstate).right
      exact ⟨fun fuel => (hparts fuel).right.right, hmiddle⟩
  | loop =>
      have hparts := fun fuel => (h.loop (htask (fuel + 1))).right
      exact ⟨⟨fun fuel => (hparts fuel).left, fun fuel => (hparts fuel).right, h.default⟩, hstate⟩
  | test => exact ⟨htask.left, hstate⟩
  | round htest _ => exact ⟨htask.right.left, (h.ends htest htask.left hstate).right⟩
  | again htest _ hround =>
      rcases htask with ⟨hcondition, hbody, _⟩
      have htested := (h.ends htest hcondition hstate).right
      rcases h.ends hround hbody htested with ⟨hvalue, hmiddle⟩
      exact ⟨⟨hcondition, hbody, hvalue⟩, hmiddle⟩
  | block => exact ⟨⟨fun s hmem fuel => h.block (htask (fuel + 1)) s hmem, h.default⟩, hstate⟩
  | first => exact ⟨htask.left _ List.mem_cons_self, hstate⟩
  | rest hs =>
      have hrest := htask.left
      rw [List.forall_mem_cons] at hrest
      rcases h.ends hs hrest.left hstate with ⟨hvalue, hmiddle⟩
      exact ⟨⟨hrest.right, hvalue⟩, hmiddle⟩

theorem reaches (h : inv.Closed host) {start reached : Task H × State H}
    (hreaches : Reaches host start reached) (htask : inv.task start.1)
    (hstate : inv.state start.2) : inv.task reached.1 ∧ inv.state reached.2 := by
  induction hreaches with
  | refl => exact ⟨htask, hstate⟩
  | tail _ hstarts ih => exact h.starts hstarts ih.left ih.right

end Closed
end Invariant
end Lisan
