import Lisan.Proofs.Run.View
import Lisan.Proofs.Tree.Effect
import Mathlib.Data.List.Forall2

/-!
# Runs in lockstep

Two runs of trees that stand for each other, with the same fuel, go through the same
steps. A link says what of the one run stands for what of the other. What holds of a
link for one step holds for whole runs; and a property of one run is one of this run
linked with itself.
-/

namespace Lisan

variable {H : Type} {host : Host H}

/-!
## Links
-/

/-- What of two runs stands for each other, which effects the trees may have, and whether
every branch takes its first side. -/
structure Link (H : Type) where
  value : Value H -> Value H -> Prop
  expr : Expr H -> Expr H -> Prop
  stmt : Stmt H -> Stmt H -> Prop
  state : State H -> State H -> Prop
  allowed : Effect H -> Prop
  forced : Prop

inductive Value.Linked (link : Link H) : Value H -> Value H -> Prop where
  | str (text : String) : Value.Linked link (.str text) (.str text)
  | int (n : Int) : Value.Linked link (.int n) (.int n)
  | function {params : List String} {body body' : Stmt H} :
      Effect.Params link.allowed params -> link.stmt body body' ->
      Value.Linked link (.function params body) (.function params body')
  | native {params : List String} {handle : H} :
      Effect.Params link.allowed params -> link.allowed (.call handle) ->
      Value.Linked link (.native params handle) (.native params handle)

inductive Expr.Linked (link : Link H) : Expr H -> Expr H -> Prop where
  | assign {target : String} {value value' : Expr H} :
      link.allowed (Effect.ofName target) -> link.expr value value' ->
      Expr.Linked link (.assign target value) (.assign target value')
  | var (name : String) : Expr.Linked link (.var name) (.var name)
  | binary {left right left' right' : Expr H} (operator : Token) :
      link.expr left left' -> link.expr right right' ->
      Expr.Linked link (.binary left operator right) (.binary left' operator right')
  | unary {operand operand' : Expr H} (operator : Token) :
      link.expr operand operand' ->
      Expr.Linked link (.unary operator operand) (.unary operator operand')
  | call {callee callee' : Expr H} {args args' : List (Expr H)} :
      link.expr callee callee' -> List.Forall₂ link.expr args args' ->
      Expr.Linked link (.call callee args) (.call callee' args')
  | literal {value value' : Value H} :
      link.value value value' -> Expr.Linked link (.literal value) (.literal value')
  | group {inner inner' : Expr H} :
      link.expr inner inner' -> Expr.Linked link (.group inner) (.group inner')

inductive Stmt.Linked (link : Link H) : Stmt H -> Stmt H -> Prop where
  | branch {condition condition' : Expr H} {onTrue onFalse onTrue' onFalse' : Stmt H} :
      link.expr condition condition' -> link.stmt onTrue onTrue' ->
      (Not link.forced -> link.stmt onFalse onFalse') ->
      Stmt.Linked link (.branch condition onTrue onFalse) (.branch condition' onTrue' onFalse')
  | loop {condition condition' : Expr H} {body body' : Stmt H} :
      link.expr condition condition' -> link.stmt body body' ->
      Stmt.Linked link (.loop condition body) (.loop condition' body')
  | expr {value value' : Expr H} :
      link.expr value value' -> Stmt.Linked link (.expr value) (.expr value')
  | block {body body' : List (Stmt H)} :
      List.Forall₂ link.stmt body body' -> Stmt.Linked link (.block body) (.block body')
  | define {name : String} {params : List String} {body body' : Stmt H} :
      link.allowed (Effect.ofName name) ->
      link.value (.function params body) (.function params body') ->
      Stmt.Linked link (.define name params body) (.define name params body')

/-- What one step of two runs needs of a link. -/
structure Link.Holds (link : Link H) (host : Host H) : Prop where
  str : forall text, link.value (.str text) (.str text)
  int : forall n, link.value (.int n) (.int n)
  value : forall ⦃v v' : Value H⦄, link.value v v' -> v.Linked link v'
  expr : forall ⦃e e' : Expr H⦄, link.expr e e' -> e.Linked link e'
  stmt : forall ⦃s s' : Stmt H⦄, link.stmt s s' -> s.Linked link s'
  get : forall ⦃state state' : State H⦄, link.state state state' -> forall name,
    link.value (state.store.get name) (state'.store.get name)
  overrideActive : forall ⦃state state' : State H⦄, link.state state state' ->
    state.store.overrideActive = state'.store.overrideActive
  forced : link.forced -> forall ⦃state state' : State H⦄, link.state state state' ->
    state.store.overrideActive = true
  assign : forall ⦃state state' : State H⦄, link.state state state' ->
    forall ⦃name : String⦄, link.allowed (Effect.ofName name) ->
    forall ⦃v v' : Value H⦄, link.value v v' ->
    link.state (state.assign name v) (state'.assign name v')
  callHost : forall ⦃state state' : State H⦄, link.state state state' ->
    forall ⦃handle : H⦄, link.allowed (.call handle) ->
    link.value (host handle state).1 (host handle state').1 ∧
      link.state (host handle state).2 (host handle state').2

theorem Value.Linked.truthy_eq {link : Link H} {v v' : Value H} (h : v.Linked link v') :
    v.truthy = v'.truthy := by
  cases h <;> rfl

/-!
## Pairs of outcomes
-/

inductive RuntimeError.Paired (value : Value H -> Value H -> Prop) :
    RuntimeError H -> RuntimeError H -> Prop where
  | notCallable {v v' : Value H} :
      value v v' -> RuntimeError.Paired value (.notCallable v) (.notCallable v')
  | unexpectedValue {v v' : Value H} :
      value v v' -> RuntimeError.Paired value (.unexpectedValue v) (.unexpectedValue v')
  | divisionByZero : RuntimeError.Paired value .divisionByZero .divisionByZero
  | overflow (operator : Token.Kind) :
      RuntimeError.Paired value (.overflow operator) (.overflow operator)

inductive Halt.Paired (value : Value H -> Value H -> Prop) : Halt H -> Halt H -> Prop where
  | error {e e' : RuntimeError H} : e.Paired value e' -> Halt.Paired value (.error e) (.error e')
  | noOperator (family : Operator.Family) (kind : Token.Kind) :
      Halt.Paired value (.noOperator family kind) (.noOperator family kind)
  | outOfFuel : Halt.Paired value .outOfFuel .outOfFuel

/-- Both runs end with a result, or both halt, in like ways and in like states. -/
inductive Paired (value : Value H -> Value H -> Prop) (related : State H -> State H -> Prop)
    (post : α -> β -> Prop) :
    EStateM.Result (Halt H) (State H) α -> EStateM.Result (Halt H) (State H) β -> Prop where
  | ok {a : α} {b : β} {state state' : State H} :
      post a b -> related state state' -> Paired value related post (.ok a state) (.ok b state')
  | error {halt halt' : Halt H} {state state' : State H} :
      halt.Paired value halt' -> related state state' ->
      Paired value related post (.error halt state) (.error halt' state')

def Outcome.Paired (value : Value H -> Value H -> Prop)
    (related : State H -> State H -> Prop) : Outcome H -> Outcome H -> Prop :=
  Lisan.Paired value related value

section Coarser

variable {value value' : Value H -> Value H -> Prop}
  {related related' : State H -> State H -> Prop}
  (hvalue : forall ⦃v w : Value H⦄, value v w -> value' v w)
  (hrelated : forall ⦃state other : State H⦄, related state other -> related' state other)

include hvalue

theorem RuntimeError.Paired.coarsen {e e' : RuntimeError H} (h : e.Paired value e') :
    e.Paired value' e' := by
  cases h with
  | notCallable hv => exact .notCallable (hvalue hv)
  | unexpectedValue hv => exact .unexpectedValue (hvalue hv)
  | divisionByZero => exact .divisionByZero
  | overflow operator => exact .overflow operator

theorem Halt.Paired.coarsen {halt halt' : Halt H} (h : halt.Paired value halt') :
    halt.Paired value' halt' := by
  cases h with
  | error he => exact .error (he.coarsen hvalue)
  | noOperator family kind => exact .noOperator family kind
  | outOfFuel => exact .outOfFuel

include hrelated

theorem Outcome.Paired.coarsen {outcome outcome' : Outcome H}
    (h : Outcome.Paired value related outcome outcome') :
    Outcome.Paired value' related' outcome outcome' := by
  cases h with
  | ok hv hstate => exact .ok (hvalue hv) (hrelated hstate)
  | error hhalt hstate => exact .error (hhalt.coarsen hvalue) (hrelated hstate)

end Coarser

theorem Halt.eq_of_paired {halt halt' : Halt H} (h : halt.Paired Eq halt') : halt = halt' := by
  cases h with
  | error he =>
      cases he with
      | notCallable hv => rw [hv]
      | unexpectedValue hv => rw [hv]
      | divisionByZero => rfl
      | overflow operator => rfl
  | noOperator family kind => rfl
  | outOfFuel => rfl

/-!
## Operators
-/

namespace Operator

inductive Paired (value : Value H -> Value H -> Prop) (post : α -> β -> Prop) :
    Except (Halt H) α -> Except (Halt H) β -> Prop where
  | ok {a : α} {b : β} : post a b -> Operator.Paired value post (.ok a) (.ok b)
  | error {halt halt' : Halt H} :
      halt.Paired value halt' -> Operator.Paired value post (.error halt) (.error halt')

theorem Paired.bind {value : Value H -> Value H -> Prop} {x x' : Except (Halt H) α}
    {f : α -> Except (Halt H) (Value H)} (h : Operator.Paired value Eq x x')
    (hf : forall a, Operator.Paired value value (f a) (f a)) :
    Operator.Paired value value (x >>= f) (x' >>= f) := by
  cases h with
  | ok ha =>
      rw [ha]
      exact hf _
  | error hhalt => exact .error hhalt

variable {link : Link H} (hlink : link.Holds host)

include hlink

theorem ofBool_linked (b : Bool) : link.value (.ofBool b) (.ofBool b) := by
  cases b with
  | true => exact hlink.int 1
  | false => exact hlink.int 0

theorem exact_paired (kind : Token.Kind) (n : Int) :
    Operator.Paired link.value link.value (exact kind n) (exact kind n) := by
  unfold exact
  split
  · exact .ok (hlink.int _)
  · exact .error (.error (.overflow kind))

theorem negate_paired {v v' : Value H} (h : link.value v v') :
    Operator.Paired link.value link.value (negate v) (negate v') := by
  cases hlink.value h with
  | str text => exact exact_paired hlink _ _
  | int n => exact exact_paired hlink _ _
  | function => exact .error (.error (.unexpectedValue h))
  | native => exact .error (.error (.unexpectedValue h))

theorem unary_paired (kind : Token.Kind) {v v' : Value H} (h : link.value v v') :
    Operator.Paired link.value link.value (unary kind v) (unary kind v') := by
  unfold unary
  split
  · rw [(hlink.value h).truthy_eq]
    exact .ok (ofBool_linked hlink _)
  · exact negate_paired hlink h
  · exact .error (.noOperator _ _)

section Operands

variable {left right left' right' : Value H} (hleft : link.value left left')
  (hright : link.value right right')

include hleft hright

theorem same_linked : left.same right = left'.same right' := by
  cases hlink.value hleft <;> cases hlink.value hright <;> rfl

theorem pair_paired : Operator.Paired link.value Eq (pair left right) (pair left' right') := by
  cases hlink.value hleft <;> cases hlink.value hright <;>
    first
      | exact .ok rfl
      | exact .error (.error (.unexpectedValue hleft))
      | exact .error (.error (.unexpectedValue hright))

theorem integers_paired :
    Operator.Paired link.value Eq (integers left right) (integers left' right') := by
  cases hlink.value hleft <;> cases hlink.value hright <;>
    first
      | exact .ok rfl
      | exact .error (.error (.unexpectedValue hleft))
      | exact .error (.error (.unexpectedValue hright))

end Operands

theorem add_paired (operands : Pair) :
    Operator.Paired link.value link.value (add operands) (add operands) := by
  cases operands with
  | ints n m => exact exact_paired hlink _ _
  | texts s t => exact .ok (hlink.str _)

theorem comparison_paired (order : Ordering) (kind : Token.Kind) :
    Operator.Paired link.value link.value (comparison order kind) (comparison order kind) := by
  unfold comparison
  split
  · exact .ok (ofBool_linked hlink _)
  · exact .ok (ofBool_linked hlink _)
  · exact .ok (ofBool_linked hlink _)
  · exact .ok (ofBool_linked hlink _)
  · exact .error (.noOperator _ _)

theorem integer_paired (n m : Int) (kind : Token.Kind) :
    Operator.Paired link.value link.value (integer n kind m) (integer n kind m) := by
  unfold integer
  split
  · exact exact_paired hlink _ _
  · exact exact_paired hlink _ _
  · unfold divide
    split
    · exact .error (.error .divisionByZero)
    · exact exact_paired hlink _ _
  · exact .error (.noOperator _ _)

theorem binary_paired (kind : Token.Kind) {left right left' right' : Value H}
    (hleft : link.value left left') (hright : link.value right right') :
    Operator.Paired link.value link.value (binary left kind right)
      (binary left' kind right') := by
  have hpair := pair_paired hlink hleft hright
  have hintegers := integers_paired hlink hleft hright
  unfold binary
  rw [same_linked hlink hleft hright]
  split
  · exact .ok (ofBool_linked hlink _)
  · exact .ok (ofBool_linked hlink _)
  · exact hpair.bind (add_paired hlink)
  all_goals first
    | exact hpair.bind fun operands => comparison_paired hlink operands.order _
    | exact hintegers.bind fun operands => integer_paired hlink operands.1 operands.2 _
    | exact .error (.noOperator _ _)

end Operator

/-!
## Steps of two runs
-/

/-- From states that are linked, the runs come to what is linked. -/
def InStep (link : Link H) (post : α -> β -> Prop) (run : Run H α) (run' : Run H β) : Prop :=
  forall ⦃state state' : State H⦄, link.state state state' ->
    Paired link.value link.state post (run state) (run' state')

namespace InStep

variable {link : Link H} {post : α -> β -> Prop} {after : γ -> δ -> Prop}

theorem pure {a : α} {b : β} (h : post a b) :
    InStep link post (return a : Run H α) (return b : Run H β) :=
  fun _ _ hstate => .ok h hstate

theorem throw {halt halt' : Halt H} (h : halt.Paired link.value halt') :
    InStep link post (throw halt : Run H α) (throw halt' : Run H β) :=
  fun _ _ hstate => .error h hstate

theorem bind {run : Run H α} {run' : Run H β} {f : α -> Run H γ} {f' : β -> Run H δ}
    (h : InStep link post run run')
    (hf : forall a b, post a b -> InStep link after (f a) (f' b)) :
    InStep link after (run >>= f) (run' >>= f') := by
  intro state state' hstate
  have hfirst := h hstate
  cases hresult : run state with
  | ok a middle =>
      rw [hresult] at hfirst
      cases hresult' : run' state' with
      | ok b middle' =>
          rw [hresult'] at hfirst
          cases hfirst with
          | ok hab hmiddle =>
              rw [Run.bind_of_ok hresult, Run.bind_of_ok hresult']
              exact hf a b hab hmiddle
      | error halt' middle' =>
          rw [hresult'] at hfirst
          cases hfirst
  | error halt middle =>
      rw [hresult] at hfirst
      cases hresult' : run' state' with
      | ok b middle' =>
          rw [hresult'] at hfirst
          cases hfirst
      | error halt' middle' =>
          rw [hresult'] at hfirst
          cases hfirst with
          | error hhalt hmiddle =>
              rw [Run.bind_of_error hresult, Run.bind_of_error hresult']
              exact .error hhalt hmiddle

theorem get : InStep link link.state (get : Run H (State H)) get :=
  fun _ _ hstate => .ok hstate hstate

theorem ofExcept {result result' : Except (Halt H) (Value H)}
    (h : Operator.Paired link.value link.value result result') :
    InStep link link.value (Run.ofExcept result) (Run.ofExcept result') := by
  cases h with
  | ok hv => exact InStep.pure hv
  | error hhalt => exact InStep.throw hhalt

theorem sequence {execute execute' : Stmt H -> Run H (Value H)}
    (hexecute : forall s s', link.stmt s s' -> InStep link link.value (execute s) (execute' s'))
    {rest rest' : List (Stmt H)} (hrest : List.Forall₂ link.stmt rest rest')
    {last last' : Value H} (hlast : link.value last last') :
    InStep link link.value (Run.sequence execute rest last)
      (Run.sequence execute' rest' last') := by
  induction hrest generalizing last last' with
  | nil => exact InStep.pure hlast
  | cons hs _ ih =>
      apply InStep.bind (hexecute _ _ hs)
      intro v v' hv
      exact ih hv

variable (hlink : link.Holds host)

include hlink

theorem assign {name : String} (hname : link.allowed (Effect.ofName name)) {v v' : Value H}
    (hv : link.value v v') :
    InStep link (fun _ _ : Unit => True) (Run.assign name v) (Run.assign name v') :=
  fun _ _ hstate => .ok trivial (hlink.assign hstate hname hv)

theorem callHost {handle : H} (h : link.allowed (.call handle)) :
    InStep link link.value (Run.callHost host handle) (Run.callHost host handle) :=
  fun _ _ hstate => .ok (hlink.callHost hstate h).left (hlink.callHost hstate h).right

theorem repeatWhile {condition condition' body body' : Run H (Value H)}
    (hcondition : InStep link link.value condition condition')
    (hbody : InStep link link.value body body') (count : Nat) {last last' : Value H}
    (hlast : link.value last last') :
    InStep link link.value (Run.repeatWhile condition body count last)
      (Run.repeatWhile condition' body' count last') := by
  induction count generalizing last last' with
  | zero => exact InStep.throw .outOfFuel
  | succ count ih =>
      apply InStep.bind hcondition
      intro test test' htest
      rw [(hlink.value htest).truthy_eq]
      cases test'.truthy with
      | true =>
          apply InStep.bind hbody
          intro v v' hv
          exact ih hv
      | false => exact InStep.pure hlast

theorem bindArguments {evaluate evaluate' : Expr H -> Run H (Value H)}
    (hevaluate : forall e e', link.expr e e' ->
      InStep link link.value (evaluate e) (evaluate' e'))
    {params : List String} (hparams : Effect.Params link.allowed params)
    {args args' : List (Expr H)} (hargs : List.Forall₂ link.expr args args') :
    InStep link (fun _ _ : Unit => True) (Run.bindArguments evaluate params args)
      (Run.bindArguments evaluate' params args') := by
  induction hargs generalizing params with
  | nil =>
      simp only [Run.bindArguments]
      exact InStep.pure trivial
  | cons harg _ ih =>
      cases params with
      | nil =>
          apply InStep.bind (hevaluate _ _ harg)
          intro _ _ _
          exact ih hparams
      | cons param params =>
          rcases List.forall_mem_cons.mp hparams with ⟨hparam, hrest⟩
          apply InStep.bind (hevaluate _ _ harg)
          intro v v' hv
          apply InStep.bind (InStep.assign hlink hparam hv)
          intro _ _ _
          exact ih hrest

end InStep

/-!
## Evaluation
-/

section Evaluation

variable {link : Link H} {fuel : Nat}

def EvalInStep (link : Link H) (host : Host H) (fuel : Nat) : Prop :=
  forall e e' : Expr H, link.expr e e' ->
    InStep link link.value (e.eval host fuel) (e'.eval host fuel)

def ExecInStep (link : Link H) (host : Host H) (fuel : Nat) : Prop :=
  forall s s' : Stmt H, link.stmt s s' ->
    InStep link link.value (s.exec host fuel) (s'.exec host fuel)

theorem eval_inStep_succ (hlink : link.Holds host) (heval : EvalInStep link host fuel)
    (hexec : ExecInStep link host fuel) : EvalInStep link host (fuel + 1) := by
  intro e e' h
  cases hlink.expr h with
  | literal hvalue => exact InStep.pure hvalue
  | var name =>
      apply InStep.bind InStep.get
      intro state state' hstate
      exact InStep.pure (hlink.get hstate name)
  | assign htarget hvalue =>
      apply InStep.bind (heval _ _ hvalue)
      intro v v' hv
      apply InStep.bind (InStep.assign hlink htarget hv)
      intro _ _ _
      exact InStep.pure hv
  | group hinner => exact heval _ _ hinner
  | unary operator hoperand =>
      apply InStep.bind (heval _ _ hoperand)
      intro v v' hv
      exact InStep.ofExcept (Operator.unary_paired hlink operator.kind hv)
  | binary operator hleft hright =>
      apply InStep.bind (heval _ _ hleft)
      intro v v' hv
      apply InStep.bind (heval _ _ hright)
      intro w w' hw
      exact InStep.ofExcept (Operator.binary_paired hlink operator.kind hv hw)
  | call hcallee hargs =>
      apply InStep.bind (heval _ _ hcallee)
      intro v v' hv
      cases hlink.value hv with
      | str text => exact InStep.throw (.error (.notCallable hv))
      | int n => exact InStep.throw (.error (.notCallable hv))
      | function hparams hbody =>
          apply InStep.bind (InStep.bindArguments hlink heval hparams hargs)
          intro _ _ _
          exact hexec _ _ hbody
      | native hparams hhandle =>
          apply InStep.bind (InStep.bindArguments hlink heval hparams hargs)
          intro _ _ _
          exact InStep.callHost hlink hhandle

theorem exec_inStep_succ (hlink : link.Holds host) (heval : EvalInStep link host fuel)
    (hexec : ExecInStep link host fuel) : ExecInStep link host (fuel + 1) := by
  intro s s' h
  have hdefault : link.value .default .default := hlink.int 1000
  cases hlink.stmt h with
  | expr hvalue => exact heval _ _ hvalue
  | branch hcondition honTrue honFalse =>
      apply InStep.bind (heval _ _ hcondition)
      intro test test' htest
      apply InStep.bind InStep.get
      intro state state' hstate
      rw [(hlink.value htest).truthy_eq, <- hlink.overrideActive hstate]
      cases hfirst : test'.truthy || state.store.overrideActive with
      | true => exact hexec _ _ honTrue
      | false =>
          -- the second side is taken, so the link is not one in which branches are forced
          have hoverride := (Bool.or_eq_false_iff.mp hfirst).right
          have hunforced : Not link.forced := by
            intro hforced
            rw [hlink.forced hforced hstate] at hoverride
            cases hoverride
          exact hexec _ _ (honFalse hunforced)
  | loop hcondition hbody =>
      exact InStep.repeatWhile hlink (heval _ _ hcondition) (hexec _ _ hbody) fuel hdefault
  | block hbody => exact InStep.sequence hexec hbody hdefault
  | define hname hfunction =>
      apply InStep.bind (InStep.assign hlink hname hfunction)
      intro _ _ _
      exact InStep.pure hfunction

theorem run_inStep (hlink : link.Holds host) (fuel : Nat) :
    EvalInStep link host fuel ∧ ExecInStep link host fuel := by
  induction fuel with
  | zero => exact ⟨fun _ _ _ => InStep.throw .outOfFuel, fun _ _ _ => InStep.throw .outOfFuel⟩
  | succ fuel ih =>
      exact ⟨eval_inStep_succ hlink ih.left ih.right, exec_inStep_succ hlink ih.left ih.right⟩

end Evaluation

/-!
## Runs that agree
-/

theorem starved_iff_of_paired {value : Value H -> Value H -> Prop}
    {related : State H -> State H -> Prop} {outcome outcome' : Outcome H}
    (h : Outcome.Paired value related outcome outcome') :
    Starved outcome <-> Starved outcome' := by
  constructor
  · intro hstarved
    rcases hstarved with ⟨state, rfl⟩
    cases h with
    | error hhalt _ =>
        cases hhalt
        exact ⟨_, rfl⟩
  · intro hstarved
    rcases hstarved with ⟨state, rfl⟩
    cases h with
    | error hhalt _ =>
        cases hhalt
        exact ⟨_, rfl⟩

theorem agree_of_inStep {link : Link H} (hlink : link.Holds host) {s s' : Stmt H}
    (hs : link.stmt s s') {state state' : State H} (hstate : link.state state state') :
    Agree (Outcome.Paired link.value link.state) (fun fuel => s.exec host fuel)
      (fun fuel => s'.exec host fuel) state state' := by
  have hpaired : forall fuel, Outcome.Paired link.value link.state
      (s.exec host fuel state) (s'.exec host fuel state') :=
    fun fuel => (run_inStep hlink fuel).right s s' hs hstate
  -- the fuel that one run needs is enough for the other
  apply agree_of_leads
  · intro fuel hend
    rw [starved_iff_of_paired (hpaired fuel)] at hend
    exact ⟨_, exec_concludes hend, hpaired fuel⟩
  · intro fuel hend
    rw [<- starved_iff_of_paired (hpaired fuel)] at hend
    exact ⟨_, exec_concludes hend, hpaired fuel⟩

/-!
## States that keep within some effects
-/

def State.Within (allowed : Effect H -> Prop) (state : State H) : Prop :=
  forall ⦃key : String⦄ ⦃value : Value H⦄,
    state.store.table[key]? = some value -> value.Within allowed

/-- The functions of the host that may be called keep all values within the effects. -/
def Host.Within (host : Host H) (allowed : Effect H -> Prop) : Prop :=
  forall ⦃handle : H⦄, allowed (.call handle) -> forall ⦃state : State H⦄,
    state.Within allowed ->
    (host handle state).1.Within allowed ∧ (host handle state).2.Within allowed

section Within

variable {allowed : Effect H -> Prop}

theorem State.within_empty (said : Array String) :
    (⟨Store.empty, said⟩ : State H).Within allowed :=
  Store.all_empty

theorem State.Within.get {state : State H} (h : state.Within allowed) (name : String) :
    (state.store.get name).Within allowed :=
  Store.All.get h (Value.within_int 1000) name

theorem State.Within.assign {state : State H} (h : state.Within allowed) (name : String)
    {value : Value H} (hvalue : value.Within allowed) :
    (state.assign name value).Within allowed :=
  Store.All.assign h name hvalue

end Within

theorem Capability.host_within_say (names : String -> Prop) :
    Capability.host.Within (Effect.Among names fun handle => handle = .say) := by
  intro handle hhandle state hstate
  cases (show handle = .say from hhandle)
  have hlast : (sayText state).Within (Effect.Among names fun handle => handle = .say) := by
    rw [State.Within, store_sayText]
    exact hstate
  exact ⟨Value.within_int 1, hlast⟩

/-!
## Runs of the same tree
-/

def Link.same (allowed : Effect H -> Prop) (related : State H -> State H -> Prop) :
    Link H where
  value v v' := v = v' ∧ v.Within allowed
  expr e e' := e = e' ∧ e.Within allowed
  stmt s s' := s = s' ∧ s.Within allowed
  state state state' := related state state' ∧ state.Within allowed
  allowed := allowed
  forced := False

section Same

variable {allowed : Effect H -> Prop} {related : State H -> State H -> Prop}

theorem Value.linked_same {v : Value H} (h : v.Within allowed) :
    v.Linked (.same allowed related) v := by
  cases v with
  | str text => exact .str text
  | int n => exact .int n
  | function params body =>
      rw [Value.within_function] at h
      exact .function h.left ⟨rfl, h.right⟩
  | native params handle =>
      rw [Value.within_native] at h
      exact .native h.left h.right

theorem Expr.linked_same {e : Expr H} (h : e.Within allowed) :
    e.Linked (.same allowed related) e := by
  cases e with
  | assign target value =>
      rw [Expr.within_assign] at h
      exact .assign h.left ⟨rfl, h.right⟩
  | var name => exact .var name
  | binary left operator right =>
      rw [Expr.within_binary] at h
      exact .binary operator ⟨rfl, h.left⟩ ⟨rfl, h.right⟩
  | unary operator operand => exact .unary operator ⟨rfl, h⟩
  | call callee args =>
      rw [Expr.within_call] at h
      exact .call ⟨rfl, h.left⟩ (List.forall₂_same.mpr fun arg harg => ⟨rfl, h.right arg harg⟩)
  | literal value => exact .literal ⟨rfl, h⟩
  | group inner => exact .group ⟨rfl, h⟩

theorem Stmt.linked_same {s : Stmt H} (h : s.Within allowed) :
    s.Linked (.same allowed related) s := by
  cases s with
  | branch condition onTrue onFalse =>
      rw [Stmt.within_branch] at h
      exact .branch ⟨rfl, h.left⟩ ⟨rfl, h.right.left⟩ fun _ => ⟨rfl, h.right.right⟩
  | loop condition body =>
      rw [Stmt.within_loop] at h
      exact .loop ⟨rfl, h.left⟩ ⟨rfl, h.right⟩
  | expr value => exact .expr ⟨rfl, h⟩
  | block body =>
      rw [Stmt.within_block] at h
      exact .block (List.forall₂_same.mpr fun s hs => ⟨rfl, h s hs⟩)
  | define name params body =>
      rw [Stmt.within_define] at h
      exact .define h.left ⟨rfl, h.right⟩

theorem Link.same_holds
    (hget : forall ⦃state state' : State H⦄, related state state' -> forall name,
      state.store.get name = state'.store.get name)
    (hoverride : forall ⦃state state' : State H⦄, related state state' ->
      state.store.overrideActive = state'.store.overrideActive)
    (hassign : forall ⦃state state' : State H⦄, related state state' ->
      forall ⦃name : String⦄, allowed (Effect.ofName name) -> forall v,
      related (state.assign name v) (state'.assign name v))
    (hwithin : host.Within allowed)
    (hhost : forall ⦃handle : H⦄, allowed (.call handle) ->
      forall ⦃state state' : State H⦄, related state state' -> state.Within allowed ->
      (host handle state).1 = (host handle state').1 ∧
        related (host handle state).2 (host handle state').2) :
    (Link.same allowed related).Holds host where
  str text := ⟨rfl, Value.within_str text⟩
  int n := ⟨rfl, Value.within_int n⟩
  value := by
    intro v v' h
    rcases h with ⟨rfl, hv⟩
    exact Value.linked_same hv
  expr := by
    intro e e' h
    rcases h with ⟨rfl, he⟩
    exact Expr.linked_same he
  stmt := by
    intro s s' h
    rcases h with ⟨rfl, hs⟩
    exact Stmt.linked_same hs
  get _ _ hstate name := ⟨hget hstate.left name, hstate.right.get name⟩
  overrideActive _ _ hstate := hoverride hstate.left
  forced := False.elim
  assign := by
    intro state state' hstate name hname v v' h
    rcases h with ⟨rfl, hv⟩
    exact ⟨hassign hstate.left hname v, hstate.right.assign name hv⟩
  callHost := by
    intro state state' hstate handle hhandle
    rcases hhost hhandle hstate.left hstate.right with ⟨hvalue, hrelated⟩
    rcases hwithin hhandle hstate.right with ⟨hv, hlast⟩
    exact ⟨⟨hvalue, hv⟩, hrelated, hlast⟩

end Same

/-!
## What every run keeps
-/

inductive Leaves (P : State H -> Prop) : EStateM.Result ε (State H) α -> Prop where
  | ok {a : α} {state : State H} : P state -> Leaves P (.ok a state)
  | error {e : ε} {state : State H} : P state -> Leaves P (.error e state)

structure Host.Maintains (host : Host H) (P : State H -> Prop) : Prop where
  assign : forall ⦃state : State H⦄, P state -> forall name value, P (state.assign name value)
  call : forall ⦃state : State H⦄, P state -> forall handle, P (host handle state).2

theorem exec_leaves {P : State H -> Prop} (hhost : host.Maintains P) (fuel : Nat) (s : Stmt H)
    {state : State H} (hstate : P state) : Leaves P (s.exec host fuel state) := by
  have hany : forall value : Value H, value.Within fun _ => True := fun _ _ _ => trivial
  have hlink : (Link.same (fun _ => True) fun state state' => state = state' ∧ P state).Holds
      host := by
    apply Link.same_holds
    · intro state state' hrelated name
      rw [hrelated.left]
    · intro state state' hrelated
      rw [hrelated.left]
    · intro state state' hrelated name _ value
      rcases hrelated with ⟨rfl, hkept⟩
      exact ⟨rfl, hhost.assign hkept name value⟩
    · intro handle _ state _
      exact ⟨hany _, fun _ value _ => hany value⟩
    · intro handle _ state state' hrelated _
      rcases hrelated with ⟨rfl, hkept⟩
      exact ⟨rfl, rfl, hhost.call hkept handle⟩
  have hpaired := (run_inStep hlink fuel).right s s ⟨rfl, fun _ _ => trivial⟩
    ⟨⟨rfl, hstate⟩, fun _ value _ => hany value⟩
  cases hrun : s.exec host fuel state with
  | ok value last =>
      rw [hrun] at hpaired
      cases hpaired with
      | ok _ hlast => exact .ok hlast.left.right
  | error halt last =>
      rw [hrun] at hpaired
      cases hpaired with
      | error _ hlast => exact .error hlast.left.right

end Lisan
