import Lisan.Capability
import Lisan.Proofs.Run.Conclusion
import Lisan.Proofs.Tree.View

/-!
# Runs in a view

Trees that look alike do alike, whatever the view: from states that look alike they come
to outcomes that look alike, or both to none. A view shows of a name no less than which
variable it is, and of an operator no less than its kind, and no more of a tree matters
to a run. The fuel that two such trees need is not the same, since the groupings that a
view leaves out cost fuel; so one run is compared with what the other settles on.
-/

namespace Lisan

variable {H : Type} {view : View}

/-!
## What is seen of states and outcomes
-/

def Store.through (view : View) (store : Store H) : Store H :=
  ⟨store.table.map fun _ value => value.through view⟩

def State.through (view : View) (state : State H) : State H :=
  ⟨state.store.through view, state.said⟩

def RuntimeError.through (view : View) : RuntimeError H -> RuntimeError H
  | notCallable value => notCallable (value.through view)
  | unexpectedValue value => unexpectedValue (value.through view)
  | divisionByZero => divisionByZero
  | overflow operator => overflow operator

def Halt.through (view : View) : Halt H -> Halt H
  | error e => error (e.through view)
  | noOperator family kind => noOperator family kind
  | outOfFuel => outOfFuel

def Outcome.through (view : View) : Outcome H -> Outcome H
  | .ok value state => .ok (value.through view) (state.through view)
  | .error halt state => .error (halt.through view) (state.through view)

def Outcome.Alike (view : View) (outcome outcome' : Outcome H) : Prop :=
  outcome.through view = outcome'.through view

/-- The functions of the host do alike from states that look alike. -/
def Host.Respects (host : Host H) (view : View) : Prop :=
  forall ⦃handle : H⦄ ⦃state state' : State H⦄, state.through view = state'.through view ->
    (host handle state).1.through view = (host handle state').1.through view ∧
      (host handle state).2.through view = (host handle state').2.through view

namespace Store

variable {store store' : Store H}

theorem get?_through (view : View) (store : Store H) (name : String) :
    (store.through view).get? name = (store.get? name).map (Value.through view) := by
  simp only [get?, through, Std.ExtTreeMap.getElem?_map]

theorem get?_alike (h : store.through view = store'.through view) {name name' : String}
    (hname : Script.normalize name = Script.normalize name') :
    (store.get? name).map (Value.through view) =
      (store'.get? name').map (Value.through view) := by
  rw [<- get?_through, <- get?_through, h, <- get?_normalize, hname, get?_normalize]

theorem get_alike (h : store.through view = store'.through view) {name name' : String}
    (hname : Script.normalize name = Script.normalize name') :
    (store.get name).through view = (store'.get name').through view := by
  have hget := get?_alike h hname
  rw [get, get]
  cases hvalue : store.get? name <;> cases hvalue' : store'.get? name' <;>
    simp only [hvalue, hvalue', Option.map_some, Option.map_none, reduceCtorEq,
      Option.some.injEq] at hget
  · rfl
  · exact hget

theorem assign_through (view : View) (store : Store H) (name : String) (value : Value H) :
    (store.assign name value).through view =
      (store.through view).assign name (value.through view) := by
  simp only [assign, through, mk.injEq]
  apply Std.ExtTreeMap.ext_getElem?
  intro key
  simp only [Std.ExtTreeMap.getElem?_map, Std.ExtTreeMap.getElem?_insert]
  split
  · rfl
  · rfl

theorem assign_alike (h : store.through view = store'.through view) {name name' : String}
    (hname : Script.normalize name = Script.normalize name') {value value' : Value H}
    (hvalue : value.through view = value'.through view) :
    (store.assign name value).through view = (store'.assign name' value').through view := by
  rw [assign_through, assign_through, h, hvalue, assign, assign, hname]

end Store

theorem Value.truthy_through (view : View) (value : Value H) :
    (value.through view).truthy = value.truthy := by
  cases value <;> rfl

theorem Value.truthy_alike {value value' : Value H}
    (h : value.through view = value'.through view) : value.truthy = value'.truthy := by
  rw [<- truthy_through view, h, truthy_through]

theorem Value.text?_through (view : View) (value : Value H) :
    (value.through view).text? = value.text? := by
  cases value <;> rfl

theorem Store.overrideActive_alike {store store' : Store H}
    (h : store.through view = store'.through view) :
    store.overrideActive = store'.overrideActive := by
  have hget := get?_alike h (show Script.normalize overrideFlag = _ from rfl)
  rw [overrideActive_eq, overrideActive_eq]
  cases hvalue : store.get? overrideFlag <;> cases hvalue' : store'.get? overrideFlag <;>
    simp only [hvalue, hvalue', Option.map_some, Option.map_none, reduceCtorEq,
      Option.some.injEq] at hget
  · rfl
  · exact Value.truthy_alike hget

/-!
## Operators
-/

namespace Operator

def seen (view : View) : Except (Halt H) (Value H) -> Except (Halt H) (Value H)
  | .ok value => .ok (value.through view)
  | .error halt => .error (halt.through view)

theorem seen_ofBool (view : View) (b : Bool) :
    seen view (.ok (.ofBool b) : Except (Halt H) (Value H)) = .ok (.ofBool b) := by
  cases b <;> rfl

theorem seen_exact (view : View) (kind : Token.Kind) (n : Int) :
    seen view (exact kind n : Except (Halt H) (Value H)) = exact kind n := by
  unfold exact
  split <;> rfl

theorem negate_through (view : View) (value : Value H) :
    negate (value.through view) = seen view (negate value) := by
  cases value with
  | str text => exact (seen_exact view _ _).symm
  | int n => exact (seen_exact view _ _).symm
  | function params body => rfl
  | native params handle => rfl

theorem unary_through (view : View) (kind : Token.Kind) (value : Value H) :
    unary kind (value.through view) = seen view (unary kind value) := by
  unfold unary
  split
  · rw [seen_ofBool, Value.truthy_through]
  · exact negate_through view value
  · rfl

theorem same_through (view : View) (left right : Value H) :
    (left.through view).same (right.through view) = left.same right := by
  cases left <;> cases right <;> rfl

theorem pair_through (view : View) (left right : Value H) :
    pair (left.through view) (right.through view) =
      (pair left right).mapError (Halt.through view) := by
  cases left <;> cases right <;> rfl

theorem integers_through (view : View) (left right : Value H) :
    integers (left.through view) (right.through view) =
      (integers left right).mapError (Halt.through view) := by
  cases left <;> cases right <;> rfl

theorem unary_ne_outOfFuel (kind : Token.Kind) (value : Value H) :
    unary kind value ≠ .error .outOfFuel := by
  by_cases hkind : kind ∈ unarySigns
  · rcases exists_unaryRule hkind value with ⟨ending, hrule⟩
    rw [unary_of_unaryRule hrule]
    cases ending <;> simp [Except.mapError]
  · simp [unary_of_not_mem hkind]

theorem binary_ne_outOfFuel (left : Value H) (kind : Token.Kind) (right : Value H) :
    binary left kind right ≠ .error .outOfFuel := by
  by_cases hkind : kind ∈ binarySigns
  · rcases exists_binaryRule hkind left right with ⟨ending, hrule⟩
    rw [binary_of_binaryRule hrule]
    cases ending <;> simp [Except.mapError]
  · simp [binary_of_not_mem hkind]

theorem seen_bind {x : Except (Halt H) α} {f : α -> Except (Halt H) (Value H)}
    (hf : forall a, seen view (f a) = f a) :
    (x.mapError (Halt.through view) >>= f) = seen view (x >>= f) := by
  cases x with
  | ok a => exact (hf a).symm
  | error halt => rfl

theorem seen_add (view : View) (operands : Pair) :
    seen view (add operands : Except (Halt H) (Value H)) = add operands := by
  cases operands with
  | ints n m => exact seen_exact view _ _
  | texts s t => rfl

theorem seen_comparison (view : View) (order : Ordering) (kind : Token.Kind) :
    seen view (comparison order kind : Except (Halt H) (Value H)) = comparison order kind := by
  unfold comparison
  split
  · exact seen_ofBool view _
  · exact seen_ofBool view _
  · exact seen_ofBool view _
  · exact seen_ofBool view _
  · rfl

theorem seen_integer (view : View) (n m : Int) (kind : Token.Kind) :
    seen view (integer n kind m : Except (Halt H) (Value H)) = integer n kind m := by
  unfold integer
  split
  · exact seen_exact view _ _
  · exact seen_exact view _ _
  · unfold divide
    split
    · rfl
    · exact seen_exact view _ _
  · rfl

theorem binary_through (view : View) (left : Value H) (kind : Token.Kind) (right : Value H) :
    binary (left.through view) kind (right.through view) =
      seen view (binary left kind right) := by
  unfold binary
  rw [same_through, pair_through, integers_through]
  split
  · rw [seen_ofBool]
  · rw [seen_ofBool]
  · exact seen_bind (seen_add view)
  all_goals first
    | exact seen_bind fun operands => seen_comparison view operands.order _
    | exact seen_bind fun operands => seen_integer view operands.1 operands.2 _
    | rfl

end Operator

/-!
## Runs that follow each other
-/

inductive Followed (view : View) (alike : α -> β -> Prop) (run' : Nat -> Nat -> Run H β)
    (start' : State H) : EStateM.Result (Halt H) (State H) α -> Prop where
  | ok {a : α} {b : β} {state state' : State H} :
      alike a b -> state.through view = state'.through view ->
      Settles run' start' (.ok b state') -> Followed view alike run' start' (.ok a state)
  | error {halt halt' : Halt H} {state state' : State H} :
      halt ≠ .outOfFuel -> halt.through view = halt'.through view ->
      state.through view = state'.through view ->
      Settles run' start' (.error halt' state') ->
      Followed view alike run' start' (.error halt state)
  | starved {state : State H} : Followed view alike run' start' (.error .outOfFuel state)

/-- From states that look alike, the other run settles on what is alike. -/
def Follows (view : View) (alike : α -> β -> Prop) (run : Run H α)
    (run' : Nat -> Nat -> Run H β) : Prop :=
  forall ⦃state state' : State H⦄, state.through view = state'.through view ->
    Followed view alike run' state' (run state)

def Value.Alike (view : View) (value value' : Value H) : Prop :=
  value.through view = value'.through view

namespace Follows

variable {alike : α -> β -> Prop} {after : γ -> δ -> Prop} {run : Run H α}
  {run' : Nat -> Nat -> Run H β}

theorem pure {a : α} {b : β} (h : alike a b) :
    Follows view alike (return a : Run H α) (fun _ _ => return b) :=
  fun _ _ hstate => .ok h hstate (.of_forall fun _ _ => rfl)

theorem starve : Follows view alike (throw .outOfFuel : Run H α) run' :=
  fun _ _ _ => .starved

theorem throw {halt halt' : Halt H} (hhalt : halt ≠ .outOfFuel)
    (h : halt.through view = halt'.through view) :
    Follows view alike (throw halt : Run H α) (fun _ _ => throw halt') :=
  fun _ _ hstate => .error hhalt h hstate (.of_forall fun _ _ => rfl)

theorem of_settles {other : Nat -> Nat -> Run H β} (h : Follows view alike run other)
    (hsettles : forall {state : State H} {outcome : EStateM.Result (Halt H) (State H) β},
      Settles other state outcome -> Settles run' state outcome) :
    Follows view alike run run' := by
  intro state state' hstate
  have hrun := h hstate
  cases hresult : run state with
  | ok a last =>
      rw [hresult] at hrun
      cases hrun with
      | ok ha hlast hother => exact .ok ha hlast (hsettles hother)
  | error halt last =>
      rw [hresult] at hrun
      cases hrun with
      | error hhalt halike hlast hother => exact .error hhalt halike hlast (hsettles hother)
      | starved => exact .starved

theorem of_succ_fuel (h : Follows view alike run fun fuel count => run' (fuel + 1) count) :
    Follows view alike run run' :=
  h.of_settles .of_succ_fuel

theorem succ_fuel (h : Follows view alike run run') :
    Follows view alike run fun fuel count => run' (fuel + 1) count :=
  h.of_settles .succ_fuel

theorem of_succ_count (h : Follows view alike run fun fuel count => run' fuel (count + 1)) :
    Follows view alike run run' :=
  h.of_settles .of_succ_count

theorem diagonal (h : Follows view alike run run') :
    Follows view alike run fun fuel _ => run' fuel fuel :=
  h.of_settles .diagonal

theorem bind {f : α -> Run H γ} {f' : Nat -> Nat -> β -> Run H δ}
    (h : Follows view alike run run')
    (hf : forall a b, alike a b -> Follows view after (f a) fun fuel count => f' fuel count b) :
    Follows view after (run >>= f) (fun fuel count => run' fuel count >>= f' fuel count) := by
  intro state state' hstate
  have hrun := h hstate
  cases hresult : run state with
  | ok a middle =>
      rw [Run.bind_of_ok hresult]
      rw [hresult] at hrun
      cases hrun with
      | @ok a b middle middle' ha hmiddle hsettles =>
          have hnext := hf a b ha hmiddle
          cases hlast : f a middle with
          | ok c last =>
              rw [hlast] at hnext
              cases hnext with
              | ok hc hstates hsettles' => exact .ok hc hstates (.bind_ok hsettles hsettles')
          | error halt last =>
              rw [hlast] at hnext
              cases hnext with
              | error hhalt halike hstates hsettles' =>
                  exact .error hhalt halike hstates (.bind_ok hsettles hsettles')
              | starved => exact .starved
  | error halt last =>
      rw [Run.bind_of_error hresult]
      rw [hresult] at hrun
      cases hrun with
      | error hhalt halike hlast hsettles =>
          exact .error hhalt halike hlast (.bind_error hsettles)
      | starved => exact .starved

theorem get :
    Follows view (fun state state' : State H => state.through view = state'.through view)
      (get : Run H (State H)) (fun _ _ => get) :=
  fun _ _ hstate => .ok hstate hstate (.of_forall fun _ _ => rfl)

theorem assign {name name' : String} (hname : view.name name = view.name name')
    {value value' : Value H} (hvalue : value.Alike view value') :
    Follows view (fun _ _ : Unit => True) (Run.assign name value)
      (fun _ _ => Run.assign name' value') := by
  intro state state' hstate
  refine .ok trivial ?_ (.of_forall fun _ _ => rfl)
  rw [State.through, State.through, State.mk.injEq] at hstate ⊢
  have hnormal := view.normalize_eq_of_name_eq hname
  exact ⟨Store.assign_alike hstate.left hnormal hvalue, hstate.right⟩

theorem callHost {host : Host H} (hhost : host.Respects view) (handle : H) :
    Follows view (Value.Alike view) (Run.callHost host handle)
      (fun _ _ => Run.callHost host handle) :=
  fun _ _ hstate => .ok (hhost hstate).left (hhost hstate).right (.of_forall fun _ _ => rfl)

theorem ofExcept {result result' : Except (Halt H) (Value H)}
    (hfuel : result ≠ .error .outOfFuel)
    (h : Operator.seen view result = Operator.seen view result') :
    Follows view (Value.Alike view) (Run.ofExcept result) (fun _ _ => Run.ofExcept result') := by
  cases result with
  | ok value =>
      cases result' with
      | ok value' => exact Follows.pure (Except.ok.inj h)
      | error halt => cases h
  | error halt =>
      cases result' with
      | ok value' => cases h
      | error halt' =>
          refine Follows.throw ?_ (Except.error.inj h)
          rintro rfl
          exact hfuel rfl

theorem unary {kind : Token.Kind} {value value' : Value H} (h : value.Alike view value') :
    Follows view (Value.Alike view) (Run.ofExcept (Operator.unary kind value))
      (fun _ _ => Run.ofExcept (Operator.unary kind value')) := by
  refine Follows.ofExcept (Operator.unary_ne_outOfFuel kind value) ?_
  rw [<- Operator.unary_through, h, Operator.unary_through]

theorem binary {kind : Token.Kind} {left left' right right' : Value H}
    (hleft : left.Alike view left') (hright : right.Alike view right') :
    Follows view (Value.Alike view) (Run.ofExcept (Operator.binary left kind right))
      (fun _ _ => Run.ofExcept (Operator.binary left' kind right')) := by
  refine Follows.ofExcept (Operator.binary_ne_outOfFuel left kind right) ?_
  rw [<- Operator.binary_through, hleft, hright, Operator.binary_through]

/-!
## Rows, rounds and arguments
-/

theorem sequence {execute : Stmt H -> Run H (Value H)}
    {execute' : Nat -> Nat -> Stmt H -> Run H (Value H)}
    (hexecute : forall s s' : Stmt H, s.through view = s'.through view ->
      Follows view (Value.Alike view) (execute s) fun fuel count => execute' fuel count s')
    {rest rest' : List (Stmt H)}
    (hrest : Stmt.allThrough view rest = Stmt.allThrough view rest') {last last' : Value H}
    (hlast : last.Alike view last') :
    Follows view (Value.Alike view) (Run.sequence execute rest last)
      (fun fuel count => Run.sequence (execute' fuel count) rest' last') := by
  induction rest generalizing rest' last last' with
  | nil =>
      cases rest' with
      | nil => exact Follows.pure hlast
      | cons s' rest' => cases hrest
  | cons s rest ih =>
      cases rest' with
      | nil => cases hrest
      | cons s' rest' =>
          rcases List.cons.inj hrest with ⟨hs, hrest⟩
          apply Follows.bind (hexecute s s' hs)
          intro value value' hvalue
          exact ih hrest hvalue

theorem repeatWhile {condition body : Run H (Value H)}
    {condition' body' : Nat -> Run H (Value H)}
    (hcondition : Follows view (Value.Alike view) condition fun fuel _ => condition' fuel)
    (hbody : Follows view (Value.Alike view) body fun fuel _ => body' fuel) (count : Nat)
    {last last' : Value H} (hlast : last.Alike view last') :
    Follows view (Value.Alike view) (Run.repeatWhile condition body count last)
      (fun fuel rounds => Run.repeatWhile (condition' fuel) (body' fuel) rounds last') := by
  induction count generalizing last last' with
  | zero => exact Follows.starve
  | succ count ih =>
      -- this round uses up one of either count, and the rounds behind it have the others
      apply Follows.of_succ_count
      apply Follows.bind hcondition
      intro test test' htest
      rw [Value.truthy_alike htest]
      cases test'.truthy with
      | true =>
          apply Follows.bind hbody
          intro value value' hvalue
          exact ih hvalue
      | false => exact Follows.pure hlast

theorem bindArguments {evaluate : Expr H -> Run H (Value H)}
    {evaluate' : Nat -> Nat -> Expr H -> Run H (Value H)}
    (hevaluate : forall e e' : Expr H, e.through view = e'.through view ->
      Follows view (Value.Alike view) (evaluate e) fun fuel count => evaluate' fuel count e')
    {params params' : List String} (hparams : params.map view.name = params'.map view.name)
    {args args' : List (Expr H)} (hargs : Expr.allThrough view args = Expr.allThrough view args') :
    Follows view (fun _ _ : Unit => True) (Run.bindArguments evaluate params args)
      (fun fuel count => Run.bindArguments (evaluate' fuel count) params' args') := by
  induction args generalizing params params' args' with
  | nil =>
      cases args' with
      | nil =>
          simp only [Run.bindArguments]
          exact Follows.pure trivial
      | cons arg' args' => cases hargs
  | cons arg args ih =>
      cases args' with
      | nil => cases hargs
      | cons arg' args' =>
          rcases List.cons.inj hargs with ⟨harg, hargs⟩
          cases params with
          | nil =>
              cases params' with
              | nil =>
                  apply Follows.bind (hevaluate arg arg' harg)
                  intro value value' _
                  exact ih rfl hargs
              | cons param' params' => cases hparams
          | cons param params =>
              cases params' with
              | nil => cases hparams
              | cons param' params' =>
                  rcases List.cons.inj hparams with ⟨hparam, hparams⟩
                  apply Follows.bind (hevaluate arg arg' harg)
                  intro value value' hvalue
                  apply Follows.bind (Follows.assign hparam hvalue)
                  intro _ _ _
                  exact ih hparams hargs

end Follows

/-!
## Evaluation
-/

section Evaluation

variable {host : Host H}

theorem settles_of_bare {e : Expr H} {state : State H} {outcome : Outcome H}
    (h : Settles (fun fuel _ => (e.bare view).eval host fuel) state outcome) :
    Settles (fun fuel _ => e.eval host fuel) state outcome := by
  fun_induction Expr.bare view e with
  | case1 => exact h
  | case2 inner hgroups ih => exact .of_succ_fuel (ih h)
  | case3 => exact h

def EvalFollows (view : View) (host : Host H) (fuel : Nat) : Prop :=
  forall e e' : Expr H, e.through view = e'.through view ->
    Follows view (Value.Alike view) (e.eval host fuel) fun fuel' _ => e'.eval host fuel'

def ExecFollows (view : View) (host : Host H) (fuel : Nat) : Prop :=
  forall s s' : Stmt H, s.through view = s'.through view ->
    Follows view (Value.Alike view) (s.exec host fuel) fun fuel' _ => s'.exec host fuel'

variable {fuel : Nat}

theorem call_follows (hhost : host.Respects view) (heval : EvalFollows view host fuel)
    (hexec : ExecFollows view host fuel) {args args' : List (Expr H)}
    (hargs : Expr.allThrough view args = Expr.allThrough view args') (value value' : Value H) :
    value.Alike view value' -> Follows view (Value.Alike view)
      (match value with
        | .function params body => do
            Run.bindArguments (Expr.eval host fuel) params args
            body.exec host fuel
        | .native params handle => do
            Run.bindArguments (Expr.eval host fuel) params args
            Run.callHost host handle
        | value => throw (.error (.notCallable value)))
      (fun fuel' _ =>
        match value' with
        | .function params body => do
            Run.bindArguments (Expr.eval host fuel') params args'
            body.exec host fuel'
        | .native params handle => do
            Run.bindArguments (Expr.eval host fuel') params args'
            Run.callHost host handle
        | value => throw (.error (.notCallable value))) := by
  intro hvalue
  have hbind : forall {params params' : List String},
      params.map view.name = params'.map view.name ->
      Follows view (fun _ _ : Unit => True) (Run.bindArguments (Expr.eval host fuel) params args)
        fun fuel' _ => Run.bindArguments (Expr.eval host fuel') params' args' := by
    intro params params' hparams
    exact Follows.bindArguments heval hparams hargs
  cases Value.matched_of_through hvalue with
  | str text => exact Follows.throw (by simp) rfl
  | int n => exact Follows.throw (by simp) rfl
  | function hparams hbody =>
      apply Follows.bind (hbind hparams)
      intro _ _ _
      exact hexec _ _ hbody
  | native hparams =>
      apply Follows.bind (hbind hparams)
      intro _ _ _
      exact Follows.callHost hhost _

theorem eval_follows_of_matched (hhost : host.Respects view)
    (heval : EvalFollows view host fuel) (hexec : ExecFollows view host fuel)
    {e e' : Expr H} (h : e.Matched view e') :
    Follows view (Value.Alike view) (e.eval host (fuel + 1))
      (fun fuel' _ => e'.eval host fuel') := by
  apply Follows.of_succ_fuel
  cases h with
  | literal hvalue => exact Follows.pure hvalue
  | var hname =>
      apply Follows.bind Follows.get
      intro state state' hstate
      rw [State.through, State.through, State.mk.injEq] at hstate
      exact Follows.pure (Store.get_alike hstate.left (view.normalize_eq_of_name_eq hname))
  | assign htarget hvalue =>
      apply Follows.bind (heval _ _ hvalue)
      intro result result' hresult
      apply Follows.bind (Follows.assign htarget hresult)
      intro _ _ _
      exact Follows.pure hresult
  | group hinner => exact heval _ _ hinner
  | unary hkind hoperand =>
      apply Follows.bind (heval _ _ hoperand)
      intro v v' hv
      rw [hkind]
      exact Follows.unary hv
  | binary hleft hkind hright =>
      apply Follows.bind (heval _ _ hleft)
      intro v v' hv
      apply Follows.bind (heval _ _ hright)
      intro w w' hw
      rw [hkind]
      exact Follows.binary hv hw
  | call hcallee hargs =>
      apply Follows.bind (heval _ _ hcallee)
      intro v v' hv
      exact call_follows hhost heval hexec hargs v v' hv

theorem eval_follows_succ (hhost : host.Respects view)
    (heval : EvalFollows view host fuel) (hexec : ExecFollows view host fuel) :
    EvalFollows view host (fuel + 1) := by
  intro e e' h
  suffices hbared : Follows view (Value.Alike view) (e.eval host (fuel + 1))
      fun fuel' _ => (e'.bare view).eval host fuel' from hbared.of_settles settles_of_bare
  have hbare : e.through view = (e'.bare view).through view := by
    rw [Expr.through_bare, h]
  by_cases hunseen : exists inner, e = .group inner ∧ view.groups = false
  · -- the grouping is not seen: what is in it looks as the whole does, and needs less fuel
    rcases hunseen with ⟨inner, rfl, hgroups⟩
    rw [Expr.through, hgroups, if_neg Bool.false_ne_true] at hbare
    exact heval inner _ hbare
  · refine eval_follows_of_matched hhost heval hexec (Expr.matched_of_through hbare ?_ ?_)
    · intro inner he
      by_contra hgroups
      exact hunseen ⟨inner, he, eq_false_of_ne_true hgroups⟩
    · intro inner
      exact Expr.groups_of_bare_eq_group

theorem exec_follows_succ (heval : EvalFollows view host fuel)
    (hexec : ExecFollows view host fuel) : ExecFollows view host (fuel + 1) := by
  intro s s' h
  apply Follows.of_succ_fuel
  cases Stmt.matched_of_through h with
  | expr hvalue => exact heval _ _ hvalue
  | branch hcondition honTrue honFalse =>
      apply Follows.bind (heval _ _ hcondition)
      intro test test' htest
      apply Follows.bind Follows.get
      intro state state' hstate
      rw [State.through, State.through, State.mk.injEq] at hstate
      rw [Value.truthy_alike htest, Store.overrideActive_alike hstate.left]
      cases test'.truthy || state'.store.overrideActive with
      | true => exact hexec _ _ honTrue
      | false => exact hexec _ _ honFalse
  | loop hcondition hbody =>
      have hrounds := Follows.repeatWhile (heval _ _ hcondition) (hexec _ _ hbody) fuel
        (show (Value.default : Value H).Alike view .default from rfl)
      exact hrounds.diagonal
  | block hbody =>
      exact Follows.sequence hexec hbody rfl
  | define hname hparams hbody =>
      have hfunction : (Value.function _ _).Alike view (.function _ _) :=
        (Value.function.injEq _ _ _ _).mpr ⟨hparams, hbody⟩
      apply Follows.bind (Follows.assign hname hfunction)
      intro _ _ _
      exact Follows.pure hfunction

theorem run_follows (hhost : host.Respects view) (fuel : Nat) :
    EvalFollows view host fuel ∧ ExecFollows view host fuel := by
  induction fuel with
  | zero => exact ⟨fun _ _ _ => Follows.starve, fun _ _ _ => Follows.starve⟩
  | succ fuel ih =>
      exact ⟨eval_follows_succ hhost ih.left ih.right, exec_follows_succ ih.left ih.right⟩

end Evaluation

/-!
## Runs that agree
-/

theorem not_starved_ok {value : Value H} {state : State H} :
    Not (Starved (.ok value state : Outcome H)) := by
  intro hstarved
  rcases hstarved with ⟨other, hother⟩
  cases hother

theorem not_starved_error {halt : Halt H} {state : State H} (h : halt ≠ .outOfFuel) :
    Not (Starved (.error halt state : Outcome H)) := by
  rintro ⟨other, hother⟩
  cases hother
  exact h rfl

theorem Halt.ne_outOfFuel_of_through {halt halt' : Halt H}
    (h : halt.through view = halt'.through view) (hhalt : halt ≠ .outOfFuel) :
    halt' ≠ .outOfFuel := by
  rintro rfl
  cases halt with
  | outOfFuel => exact hhalt rfl
  | _ => cases h

theorem concludes_of_followed {run' : Nat -> Run H (Value H)} {state' : State H}
    {outcome : Outcome H}
    (h : Followed view (Value.Alike view) (fun fuel _ => run' fuel) state' outcome)
    (hend : Not (Starved outcome)) :
    exists outcome', Concludes run' state' outcome' ∧ outcome.Alike view outcome' := by
  cases h with
  | ok hvalue hstate hsettles =>
      refine ⟨_, ⟨hsettles, not_starved_ok⟩, ?_⟩
      exact (EStateM.Result.ok.injEq _ _ _ _).mpr ⟨hvalue, hstate⟩
  | error hhalt halike hstate hsettles =>
      refine ⟨_, ⟨hsettles, not_starved_error (Halt.ne_outOfFuel_of_through halike hhalt)⟩, ?_⟩
      exact (EStateM.Result.error.injEq _ _ _ _).mpr ⟨halike, hstate⟩
  | starved => exact absurd ⟨_, rfl⟩ hend

theorem agree_of_follows {run run' : Nat -> Run H (Value H)}
    (hthere : forall fuel, Follows view (Value.Alike view) (run fuel) fun fuel' _ => run' fuel')
    (hback : forall fuel, Follows view (Value.Alike view) (run' fuel) fun fuel' _ => run fuel')
    {state state' : State H} (hstate : state.through view = state'.through view) :
    Agree (Outcome.Alike view) run run' state state' := by
  apply agree_of_leads
  · intro fuel hend
    exact concludes_of_followed (hthere fuel hstate) hend
  · intro fuel hend
    rcases concludes_of_followed (hback fuel hstate.symm) hend with ⟨outcome, houtcome, halike⟩
    exact ⟨outcome, houtcome, halike.symm⟩

/-!
## Fuel that suffices
-/

theorem Store.through_whole (store : Store H) : store.through .whole = store := by
  cases store with
  | mk table =>
      rw [through, mk.injEq]
      apply Std.ExtTreeMap.ext_getElem?
      intro key
      rw [Std.ExtTreeMap.getElem?_map, funext Value.through_whole, Option.map_id']

theorem State.through_whole (state : State H) : state.through .whole = state := by
  rw [through, Store.through_whole]

theorem Halt.through_whole (halt : Halt H) : halt.through .whole = halt := by
  cases halt with
  | error e =>
      cases e <;> simp only [through, RuntimeError.through, Value.through_whole]
  | noOperator family kind => rfl
  | outOfFuel => rfl

theorem Outcome.through_whole (outcome : Outcome H) :
    Outcome.through .whole outcome = outcome := by
  cases outcome with
  | ok value state => rw [through, Value.through_whole, State.through_whole]
  | error halt state => rw [through, Halt.through_whole, State.through_whole]

theorem Host.respects_whole (host : Host H) : host.Respects .whole := by
  intro handle state state' hstate
  rw [State.through_whole, State.through_whole] at hstate
  rw [hstate]
  exact ⟨rfl, rfl⟩

theorem Outcome.eq_of_alike_whole {outcome outcome' : Outcome H}
    (h : outcome.Alike .whole outcome') : outcome = outcome' := by
  rw [Outcome.Alike, through_whole, through_whole] at h
  exact h

theorem Follows.concludes {run : Nat -> Run H (Value H)} {fuel : Nat} {state : State H}
    (h : Follows .whole (Value.Alike .whole) (run fuel) fun fuel' _ => run fuel')
    (hend : Not (Starved (run fuel state))) : Concludes run state (run fuel state) := by
  rcases concludes_of_followed (h rfl) hend with ⟨outcome, hconcludes, halike⟩
  rw [Outcome.eq_of_alike_whole halike]
  exact hconcludes

theorem eval_concludes {host : Host H} {e : Expr H} {fuel : Nat} {state : State H}
    (h : Not (Starved (e.eval host fuel state))) :
    Concludes (fun fuel => e.eval host fuel) state (e.eval host fuel state) := by
  -- seen in whole, a run is followed by itself with whatever more of fuel
  have hfollows := (run_follows host.respects_whole fuel).left e e rfl
  exact Follows.concludes hfollows h

theorem exec_concludes {host : Host H} {s : Stmt H} {fuel : Nat} {state : State H}
    (h : Not (Starved (s.exec host fuel state))) :
    Concludes (fun fuel => s.exec host fuel) state (s.exec host fuel state) := by
  have hfollows := (run_follows host.respects_whole fuel).right s s rfl
  exact Follows.concludes hfollows h

theorem Agree.alike {alike : Outcome H -> Outcome H -> Prop} {host : Host H} {s s' : Stmt H}
    {state state' : State H} {fuel fuel' : Nat}
    (h : Agree alike (fun fuel => s.exec host fuel) (fun fuel => s'.exec host fuel) state state')
    (hend : Not (Starved (s.exec host fuel state)))
    (hend' : Not (Starved (s'.exec host fuel' state'))) :
    alike (s.exec host fuel state) (s'.exec host fuel' state') := by
  rcases h with ⟨hdiverges, _⟩ | ⟨outcome, outcome', hconcludes, hconcludes', halike⟩
  · exact absurd (hdiverges fuel) hend
  · rw [(exec_concludes hend).unique hconcludes, (exec_concludes hend').unique hconcludes']
    exact halike

/-!
## What programs are lent
-/

theorem Value.display_through (view : View) (value : Value H) :
    (value.through view).display = value.display := by
  cases value <;> rfl

theorem Store.size_through (view : View) (store : Store H) :
    (store.through view).size = store.size :=
  Std.ExtTreeMap.size_map

theorem Store.text?_alike {store store' : Store H} (h : store.through view = store'.through view)
    (name : String) :
    (store.get? name).bind Value.text? = (store'.get? name).bind Value.text? := by
  have hget := get?_alike h (show Script.normalize name = _ from rfl)
  have htext : forall found : Option (Value H),
      (found.map (Value.through view)).bind Value.text? = found.bind Value.text? := by
    intro found
    cases found with
    | none => rfl
    | some value => exact Value.text?_through view value
  rw [<- htext, hget, htext]

theorem Capability.host_respects (view : View) : Capability.host.Respects view := by
  intro capability state state' hstate
  have hparts := hstate
  rw [State.through, State.through, State.mk.injEq] at hparts
  rcases hparts with ⟨hstore, hsaid⟩
  have hget : forall name, (state.store.get name).through view =
      (state'.store.get name).through view := fun name => Store.get_alike hstore rfl
  cases capability with
  | say =>
      refine ⟨rfl, ?_⟩
      show (sayText state).through view = (sayText state').through view
      rw [sayText, sayText, Store.text?_alike hstore]
      cases (state'.store.get? sayParam).bind Value.text? with
      | none => exact hstate
      | some text => simp only [State.through, hstore, hsaid]
  | default => exact ⟨rfl, hstate⟩
  | constant value => exact ⟨rfl, hstate⟩
  | get name => exact ⟨hget name, hstate⟩
  | set name value =>
      refine ⟨rfl, ?_⟩
      show State.through view ⟨_, _⟩ = State.through view ⟨_, _⟩
      rw [State.through, State.through, hsaid, Store.assign_alike hstore rfl rfl]
  | copy source target =>
      refine ⟨hget source, ?_⟩
      show State.through view ⟨_, _⟩ = State.through view ⟨_, _⟩
      rw [State.through, State.through, hsaid, Store.assign_alike hstore rfl (hget source)]
  | record name =>
      have hdisplay : (state.store.get name).display = (state'.store.get name).display := by
        rw [<- Value.display_through view, hget, Value.display_through]
      refine ⟨rfl, ?_⟩
      show State.through view ⟨_, _⟩ = State.through view ⟨_, _⟩
      rw [State.through, State.through, hstore, hsaid, hdisplay]
  | count =>
      have hsize : state.store.size = state'.store.size := by
        rw [<- Store.size_through view, hstore, Store.size_through]
      refine ⟨?_, hstate⟩
      show Value.through view (.int _) = Value.through view (.int _)
      rw [hsize]

end Lisan
