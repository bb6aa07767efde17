import Lisan.Proofs.Run.Rules

/-!
# Evaluation and its rules

An evaluation with enough fuel ends exactly where the rules of evaluation end.
-/

namespace Lisan

variable {H : Type} {host : Host H}

def Ending.outcome : Ending H -> State H -> EStateM.Result (Halt H) (State H) (Value H)
  | .ok value, state => .ok value state
  | .error e, state => .error (.error e) state

namespace Run

/-!
## Steps of a run
-/

theorem bind_of_ok {x : Run H α} {f : α -> Run H β} {state middle : State H} {value : α}
    (h : x state = .ok value middle) : (x >>= f) state = f value middle := by
  show EStateM.bind x f state = _
  rw [EStateM.bind, h]

theorem bind_of_error {x : Run H α} {f : α -> Run H β} {state state' : State H}
    {halt : Halt H} (h : x state = .error halt state') :
    (x >>= f) state = .error halt state' := by
  show EStateM.bind x f state = _
  rw [EStateM.bind, h]

theorem ends_of_bind {x : Run H α} {f : α -> Run H (Value H)} {state state' : State H}
    {ending : Ending H} (h : (x >>= f) state = ending.outcome state') :
    (exists value middle, x state = .ok value middle ∧
      f value middle = ending.outcome state') ∨
    (exists e, x state = .error (.error e) state' ∧ ending = .error e) := by
  cases hx : x state with
  | ok value middle =>
      rw [bind_of_ok hx] at h
      exact .inl ⟨value, middle, rfl, h⟩
  | error halt middle =>
      rw [bind_of_error hx] at h
      cases ending with
      | ok value => cases h
      | error e =>
          cases h
          exact .inr ⟨e, rfl, rfl⟩

theorem ofExcept_eq_outcome_iff {result : Except (Halt H) (Value H)} {ending : Ending H}
    {state state' : State H} :
    ofExcept result state = ending.outcome state' <->
      result = ending.mapError .error ∧ state = state' := by
  cases result with
  | ok value =>
      cases ending with
      | ok v =>
          show EStateM.Result.ok value state = .ok v state' <-> Except.ok value = .ok v ∧ _
          simp
      | error e =>
          show EStateM.Result.ok value state = .error _ state' <-> Except.ok value = .error _ ∧ _
          simp
  | error halt =>
      cases ending with
      | ok v =>
          show EStateM.Result.error halt state = .ok v state' <-> Except.error halt = .ok v ∧ _
          simp
      | error e =>
          show EStateM.Result.error halt state = .error (.error e) state' <->
            Except.error halt = .error (.error e) ∧ _
          simp

end Run

def Callee.run (host : Host H) (fuel : Nat) : Callee H -> Run H (Value H)
  | .body s => s.exec host fuel
  | .host handle => Run.callHost host handle

/-- A task as a run. The count bounds the rounds of a loop that are left. -/
def Task.run (host : Host H) (fuel count : Nat) : Task H -> Run H (Value H)
  | .eval e => e.eval host fuel
  | .exec s => s.exec host fuel
  | .rounds condition body last =>
      Run.repeatWhile (condition.eval host fuel) (body.exec host fuel) count last
  | .row rest last => Run.sequence (Stmt.exec host fuel) rest last
  | .apply params args callee => do
      Run.bindArguments (Expr.eval host fuel) params args
      callee.run host fuel

theorem apply_cons_run {host : Host H} {fuel count : Nat} {param : String}
    {params : List String} {arg : Expr H} {args : List (Expr H)} {callee : Callee H} :
    (Task.apply (param :: params) (arg :: args) callee).run host fuel count = (do
      let value <- arg.eval host fuel
      Run.assign param value
      (Task.apply params args callee).run host fuel count) := by
  simp only [Task.run, Run.bindArguments, bind_assoc]

theorem apply_nil_cons_run {host : Host H} {fuel count : Nat} {arg : Expr H}
    {args : List (Expr H)} {callee : Callee H} :
    (Task.apply [] (arg :: args) callee).run host fuel count = (do
      let _ <- arg.eval host fuel
      (Task.apply [] args callee).run host fuel count) := by
  simp only [Task.run, Run.bindArguments, bind_assoc]

theorem apply_done_run {host : Host H} {fuel count : Nat} {params : List String}
    {callee : Callee H} :
    (Task.apply params [] callee).run host fuel count = callee.run host fuel := by
  simp only [Task.run, Run.bindArguments, pure_bind]

/-!
## A run that ends follows the rules
-/

def Sound (host : Host H) (run : Run H (Value H)) (task : Task H) : Prop :=
  forall ⦃state : State H⦄ ⦃ending : Ending H⦄ ⦃state' : State H⦄,
    run state = ending.outcome state' -> Ends host task state ending state'

namespace Sound

variable {run : Run H (Value H)} {task : Task H} {state state' : State H}

theorem ok {v : Value H} (hsound : Sound host run task) (h : run state = .ok v state') :
    Ends host task state (.ok v) state' :=
  have hending : run state = Ending.outcome (.ok v) state' := h
  hsound hending

theorem error {e : RuntimeError H} (hsound : Sound host run task)
    (h : run state = .error (.error e) state') : Ends host task state (.error e) state' :=
  have hending : run state = Ending.outcome (.error e) state' := h
  hsound hending

end Sound

theorem eq_of_ok_eq_outcome {v : Value H} {ending : Ending H} {state state' : State H}
    (h : EStateM.Result.ok v state = ending.outcome state') :
    ending = .ok v ∧ state' = state := by
  cases ending with
  | ok w =>
      cases h
      exact ⟨rfl, rfl⟩
  | error e => cases h

theorem eq_of_error_eq_outcome {e : RuntimeError H} {ending : Ending H}
    {state state' : State H}
    (h : EStateM.Result.error (.error e) state = ending.outcome state') :
    ending = .error e ∧ state' = state := by
  cases ending with
  | ok w => cases h
  | error e' =>
      cases h
      exact ⟨rfl, rfl⟩

theorem outcome_injective {ending other : Ending H} {state state' : State H}
    (h : ending.outcome state = other.outcome state') : ending = other ∧ state = state' := by
  cases ending with
  | ok v =>
      rcases eq_of_ok_eq_outcome h with ⟨rfl, rfl⟩
      exact ⟨rfl, rfl⟩
  | error e =>
      rcases eq_of_error_eq_outcome h with ⟨rfl, rfl⟩
      exact ⟨rfl, rfl⟩

theorem outOfFuel_ne_outcome {ending : Ending H} {state state' : State H} :
    EStateM.Result.error .outOfFuel state ≠ ending.outcome state' := by
  intro h
  cases ending <;> cases h

section Soundness

variable {fuel : Nat}

theorem rounds_sound {condition : Expr H} {body : Stmt H}
    (hcondition : Sound host (condition.eval host fuel) (.eval condition))
    (hbody : Sound host (body.exec host fuel) (.exec body)) (count : Nat) (last : Value H) :
    Sound host (Task.run host fuel count (.rounds condition body last))
      (.rounds condition body last) := by
  induction count generalizing last with
  | zero =>
      intro state ending state' h
      exact absurd h outOfFuel_ne_outcome
  | succ count ih =>
      intro state ending state' h
      rcases Run.ends_of_bind h with ⟨test, tested, htest, h⟩ | ⟨e, he, rfl⟩
      · cases htruthy : test.truthy with
        | true =>
            rw [htruthy] at h
            rcases Run.ends_of_bind h with ⟨v, middle, hv, h⟩ | ⟨e, he, rfl⟩
            · exact .again (hcondition.ok htest) htruthy (hbody.ok hv) (ih v h)
            · exact .bodyError (hcondition.ok htest) htruthy (hbody.error he)
        | false =>
            rw [htruthy] at h
            rcases eq_of_ok_eq_outcome h with ⟨rfl, rfl⟩
            exact .stop (hcondition.ok htest) htruthy
      · exact .conditionError (hcondition.error he)

theorem row_sound (hexec : forall s, Sound host (Stmt.exec host fuel s) (.exec s))
    (count : Nat) (rest : List (Stmt H)) (last : Value H) :
    Sound host (Task.run host fuel count (.row rest last)) (.row rest last) := by
  induction rest generalizing last with
  | nil =>
      intro state ending state' h
      rcases eq_of_ok_eq_outcome h with ⟨rfl, rfl⟩
      exact .done
  | cons s rest ih =>
      intro state ending state' h
      rcases Run.ends_of_bind h with ⟨v, middle, hv, h⟩ | ⟨e, he, rfl⟩
      · exact .next ((hexec s).ok hv) (ih v h)
      · exact .rowError ((hexec s).error he)

theorem apply_sound (heval : forall e, Sound host (Expr.eval host fuel e) (.eval e))
    (hexec : forall s, Sound host (Stmt.exec host fuel s) (.exec s))
    (count : Nat) (params : List String) (args : List (Expr H)) (callee : Callee H) :
    Sound host (Task.run host fuel count (.apply params args callee))
      (.apply params args callee) := by
  induction args generalizing params with
  | nil =>
      intro state ending state' h
      rw [apply_done_run] at h
      cases callee with
      | body s => exact .enterBody (hexec s h)
      | host handle =>
          rcases eq_of_ok_eq_outcome h with ⟨rfl, rfl⟩
          exact .enterHost
  | cons arg args ih =>
      intro state ending state' h
      cases params with
      | nil =>
          rw [apply_nil_cons_run] at h
          rcases Run.ends_of_bind h with ⟨v, middle, hv, h⟩ | ⟨e, he, rfl⟩
          · exact .surplus ((heval arg).ok hv) (ih [] h)
          · exact .argError ((heval arg).error he)
      | cons param params =>
          rw [apply_cons_run] at h
          rcases Run.ends_of_bind h with ⟨v, middle, hv, h⟩ | ⟨e, he, rfl⟩
          · exact .bound ((heval arg).ok hv) (ih params h)
          · exact .argError ((heval arg).error he)

theorem eval_sound_succ (heval : forall e, Sound host (Expr.eval host fuel e) (.eval e))
    (hexec : forall s, Sound host (Stmt.exec host fuel s) (.exec s)) (e : Expr H) :
    Sound host (Expr.eval host (fuel + 1) e) (.eval e) := by
  intro state ending state' h
  cases e with
  | literal value =>
      rcases eq_of_ok_eq_outcome h with ⟨rfl, rfl⟩
      exact .literal
  | var name =>
      rcases eq_of_ok_eq_outcome h with ⟨rfl, rfl⟩
      exact .var
  | assign target value =>
      rcases Run.ends_of_bind h with ⟨v, middle, hv, h⟩ | ⟨e, he, rfl⟩
      · rcases eq_of_ok_eq_outcome h with ⟨rfl, rfl⟩
        exact .assign ((heval value).ok hv)
      · exact .assignError ((heval value).error he)
  | group inner => exact .group (heval inner h)
  | unary operator operand =>
      rcases Run.ends_of_bind h with ⟨v, middle, hv, h⟩ | ⟨e, he, rfl⟩
      · rcases Run.ofExcept_eq_outcome_iff.mp h with ⟨hresult, rfl⟩
        exact .unary ((heval operand).ok hv) (Operator.unary_eq_iff.mp hresult)
      · exact .unaryError ((heval operand).error he)
  | binary left operator right =>
      rcases Run.ends_of_bind h with ⟨v, middle, hv, h⟩ | ⟨e, he, rfl⟩
      · rcases Run.ends_of_bind h with ⟨w, last, hw, h⟩ | ⟨e, he, rfl⟩
        · rcases Run.ofExcept_eq_outcome_iff.mp h with ⟨hresult, rfl⟩
          exact .binary ((heval left).ok hv) ((heval right).ok hw)
            (Operator.binary_eq_iff.mp hresult)
        · exact .rightError ((heval left).ok hv) ((heval right).error he)
      · exact .leftError ((heval left).error he)
  | call callee args =>
      rcases Run.ends_of_bind h with ⟨v, middle, hv, h⟩ | ⟨e, he, rfl⟩
      · cases v with
        | function params body =>
            have happly := apply_sound heval hexec fuel params args (.body body)
            exact .callFunction ((heval callee).ok hv) (happly h)
        | native params handle =>
            have happly := apply_sound heval hexec fuel params args (.host handle)
            exact .callNative ((heval callee).ok hv) (happly h)
        | str text =>
            rcases eq_of_error_eq_outcome h with ⟨rfl, rfl⟩
            exact .notCallable ((heval callee).ok hv) (by simp [Value.text?])
        | int n =>
            rcases eq_of_error_eq_outcome h with ⟨rfl, rfl⟩
            exact .notCallable ((heval callee).ok hv) (by simp [Value.text?])
      · exact .calleeError ((heval callee).error he)

theorem exec_sound_succ (heval : forall e, Sound host (Expr.eval host fuel e) (.eval e))
    (hexec : forall s, Sound host (Stmt.exec host fuel s) (.exec s)) (s : Stmt H) :
    Sound host (Stmt.exec host (fuel + 1) s) (.exec s) := by
  intro state ending state' h
  cases s with
  | expr value => exact .expr (heval value h)
  | branch condition onTrue onFalse =>
      rcases Run.ends_of_bind h with ⟨test, middle, htest, h⟩ | ⟨e, he, rfl⟩
      · rcases Run.ends_of_bind h with ⟨_, _, hget, h⟩ | ⟨e, he, rfl⟩
        · cases hget
          cases hforced : test.truthy || middle.store.overrideActive with
          | true =>
              rw [hforced] at h
              rw [Bool.or_eq_true] at hforced
              exact .branchTrue ((heval condition).ok htest) hforced (hexec onTrue h)
          | false =>
              rw [hforced] at h
              rw [Bool.or_eq_false_iff] at hforced
              exact .branchFalse ((heval condition).ok htest) hforced.left hforced.right
                (hexec onFalse h)
        · cases he
      · exact .branchError ((heval condition).error he)
  | loop condition body =>
      have hrounds := rounds_sound (heval condition) (hexec body) fuel .default
      exact .loop (hrounds h)
  | block body =>
      have hrow := row_sound hexec fuel body .default
      exact .block (hrow h)
  | define name params body =>
      rcases eq_of_ok_eq_outcome h with ⟨rfl, rfl⟩
      exact .define

end Soundness

theorem run_sound (fuel : Nat) :
    (forall e, Sound host (Expr.eval host fuel e) (.eval e)) ∧
      (forall s, Sound host (Stmt.exec host fuel s) (.exec s)) := by
  induction fuel with
  | zero =>
      constructor
      · intro e state ending state' h
        exact absurd h outOfFuel_ne_outcome
      · intro s state ending state' h
        exact absurd h outOfFuel_ne_outcome
  | succ fuel ih =>
      constructor
      · exact eval_sound_succ ih.left ih.right
      · exact exec_sound_succ ih.left ih.right

/-!
## The rules are followed with enough fuel
-/

/-- With enough fuel and enough rounds the run has the outcome. -/
def Settles (run : Nat -> Nat -> Run H α) (state : State H)
    (outcome : EStateM.Result (Halt H) (State H) α) : Prop :=
  exists bound, forall ⦃fuel count : Nat⦄,
    bound ≤ fuel -> bound ≤ count -> run fuel count state = outcome

namespace Settles

variable {run : Nat -> Nat -> Run H α} {state middle state' : State H}
  {outcome : EStateM.Result (Halt H) (State H) α}

theorem of_forall (h : forall fuel count, run fuel count state = outcome) :
    Settles run state outcome :=
  ⟨0, fun fuel count _ _ => h fuel count⟩

theorem of_succ_fuel (h : Settles (fun fuel count => run (fuel + 1) count) state outcome) :
    Settles run state outcome := by
  rcases h with ⟨bound, hrun⟩
  refine ⟨bound + 1, ?_⟩
  intro fuel count hfuel hcount
  cases fuel with
  | zero => cases hfuel
  | succ fuel => exact hrun (Nat.le_of_succ_le_succ hfuel) (Nat.le_of_succ_le hcount)

theorem succ_fuel (h : Settles run state outcome) :
    Settles (fun fuel count => run (fuel + 1) count) state outcome := by
  rcases h with ⟨bound, hrun⟩
  refine ⟨bound, ?_⟩
  intro fuel count hfuel hcount
  exact hrun (Nat.le_succ_of_le hfuel) hcount

theorem of_succ_count (h : Settles (fun fuel count => run fuel (count + 1)) state outcome) :
    Settles run state outcome := by
  rcases h with ⟨bound, hrun⟩
  refine ⟨bound + 1, ?_⟩
  intro fuel count hfuel hcount
  cases count with
  | zero => cases hcount
  | succ count => exact hrun (Nat.le_of_succ_le hfuel) (Nat.le_of_succ_le_succ hcount)

theorem diagonal (h : Settles run state outcome) :
    Settles (fun fuel _ => run fuel fuel) state outcome := by
  rcases h with ⟨bound, hrun⟩
  refine ⟨bound, ?_⟩
  -- fuel that is enough is enough of a count as well
  intro fuel count hfuel _
  exact hrun hfuel hfuel

theorem bind_ok {value : α} {next : Nat -> Nat -> α -> Run H β}
    {last : EStateM.Result (Halt H) (State H) β}
    (h : Settles run state (.ok value middle))
    (hnext : Settles (fun fuel count => next fuel count value) middle last) :
    Settles (fun fuel count => run fuel count >>= next fuel count) state last := by
  rcases h with ⟨bound, hrun⟩
  rcases hnext with ⟨bound', hrun'⟩
  refine ⟨max bound bound', ?_⟩
  intro fuel count hfuel hcount
  have hfirst := hrun (le_of_max_le_left hfuel) (le_of_max_le_left hcount)
  have hlast := hrun' (le_of_max_le_right hfuel) (le_of_max_le_right hcount)
  exact (Run.bind_of_ok hfirst).trans hlast

theorem bind_error {halt : Halt H} {next : Nat -> Nat -> α -> Run H β}
    (h : Settles run state (.error halt state')) :
    Settles (fun fuel count => run fuel count >>= next fuel count) state
      (.error halt state') := by
  rcases h with ⟨bound, hrun⟩
  refine ⟨bound, ?_⟩
  intro fuel count hfuel hcount
  exact Run.bind_of_error (hrun hfuel hcount)

end Settles

def Task.Finishes (host : Host H) (task : Task H) (state : State H) (ending : Ending H)
    (state' : State H) : Prop :=
  Settles (fun fuel count => task.run host fuel count) state (ending.outcome state')

namespace Task.Finishes

variable {state middle state' : State H} {ending : Ending H}

theorem assign {target : String} {value : Expr H} {v : Value H}
    (h : Task.Finishes host (.eval value) state (.ok v) state') :
    Task.Finishes host (.eval (.assign target value)) state (.ok v) (state'.assign target v) := by
  apply Settles.of_succ_fuel
  show Settles (fun fuel _ => do
    let result <- value.eval host fuel
    Run.assign target result
    return result) _ _
  apply Settles.bind_ok h
  exact .of_forall fun _ _ => rfl

theorem unary {operator : Token} {operand : Expr H} {v : Value H}
    (h : Task.Finishes host (.eval operand) state (.ok v) state')
    (hrule : Operator.UnaryRule operator.kind v ending) :
    Task.Finishes host (.eval (.unary operator operand)) state ending state' := by
  apply Settles.of_succ_fuel
  show Settles (fun fuel _ => do
    let value <- operand.eval host fuel
    Run.ofExcept (Operator.unary operator.kind value)) _ _
  apply Settles.bind_ok h
  apply Settles.of_forall
  intro _ _
  exact Run.ofExcept_eq_outcome_iff.mpr ⟨Operator.unary_of_unaryRule hrule, rfl⟩

theorem binary {left right : Expr H} {operator : Token} {v w : Value H}
    (hleft : Task.Finishes host (.eval left) state (.ok v) middle)
    (hright : Task.Finishes host (.eval right) middle (.ok w) state')
    (hrule : Operator.BinaryRule v operator.kind w ending) :
    Task.Finishes host (.eval (.binary left operator right)) state ending state' := by
  apply Settles.of_succ_fuel
  show Settles (fun fuel _ => do
    let leftValue <- left.eval host fuel
    let rightValue <- right.eval host fuel
    Run.ofExcept (Operator.binary leftValue operator.kind rightValue)) _ _
  apply Settles.bind_ok hleft
  apply Settles.bind_ok hright
  apply Settles.of_forall
  intro _ _
  exact Run.ofExcept_eq_outcome_iff.mpr ⟨Operator.binary_of_binaryRule hrule, rfl⟩

theorem rightError {left right : Expr H} {operator : Token} {v : Value H}
    {e : RuntimeError H} (hleft : Task.Finishes host (.eval left) state (.ok v) middle)
    (hright : Task.Finishes host (.eval right) middle (.error e) state') :
    Task.Finishes host (.eval (.binary left operator right)) state (.error e) state' := by
  apply Settles.of_succ_fuel
  show Settles (fun fuel _ => do
    let leftValue <- left.eval host fuel
    let rightValue <- right.eval host fuel
    Run.ofExcept (Operator.binary leftValue operator.kind rightValue)) _ _
  apply Settles.bind_ok hleft
  exact Settles.bind_error hright

theorem call {callee : Expr H} {args : List (Expr H)} {v : Value H}
    (hcallee : Task.Finishes host (.eval callee) state (.ok v) middle)
    (h : Settles (fun fuel count =>
      match v with
      | .function params body =>
          (Task.apply params args (.body body)).run host fuel count
      | .native params handle =>
          (Task.apply params args (.host handle)).run host fuel count
      | value => throw (.error (.notCallable value))) middle (ending.outcome state')) :
    Task.Finishes host (.eval (.call callee args)) state ending state' := by
  apply Settles.of_succ_fuel
  exact Settles.bind_ok hcallee h

theorem bound {param : String} {params : List String} {arg : Expr H}
    {args : List (Expr H)} {callee : Callee H} {v : Value H}
    (harg : Task.Finishes host (.eval arg) state (.ok v) middle)
    (h : Task.Finishes host (.apply params args callee) (middle.assign param v) ending state') :
    Task.Finishes host (.apply (param :: params) (arg :: args) callee) state ending state' := by
  simp only [Task.Finishes, apply_cons_run]
  exact Settles.bind_ok harg h

theorem surplus {arg : Expr H} {args : List (Expr H)} {callee : Callee H} {v : Value H}
    (harg : Task.Finishes host (.eval arg) state (.ok v) middle)
    (h : Task.Finishes host (.apply [] args callee) middle ending state') :
    Task.Finishes host (.apply [] (arg :: args) callee) state ending state' := by
  simp only [Task.Finishes, apply_nil_cons_run]
  exact Settles.bind_ok harg h

theorem argError {params : List String} {arg : Expr H} {args : List (Expr H)}
    {callee : Callee H} {e : RuntimeError H}
    (h : Task.Finishes host (.eval arg) state (.error e) state') :
    Task.Finishes host (.apply params (arg :: args) callee) state (.error e) state' := by
  cases params with
  | nil =>
      simp only [Task.Finishes, apply_nil_cons_run]
      exact Settles.bind_error h
  | cons param params =>
      simp only [Task.Finishes, apply_cons_run]
      exact Settles.bind_error h

theorem branch {condition : Expr H} {onTrue onFalse : Stmt H} {test : Value H}
    {forced : Bool} (hcondition : Task.Finishes host (.eval condition) state (.ok test) middle)
    (hforced : (test.truthy || middle.store.overrideActive) = forced)
    (h : Task.Finishes host (.exec (if forced then onTrue else onFalse)) middle ending state') :
    Task.Finishes host (.exec (.branch condition onTrue onFalse)) state ending state' := by
  apply Settles.of_succ_fuel
  show Settles (fun fuel _ => do
    let test <- condition.eval host fuel
    if test.truthy || (<- get).store.overrideActive then
      onTrue.exec host fuel
    else
      onFalse.exec host fuel) _ _
  apply Settles.bind_ok hcondition
  have hget : Settles (fun _ _ => (get : Run H (State H))) middle (.ok middle middle) :=
    .of_forall fun _ _ => rfl
  apply Settles.bind_ok hget
  rw [hforced]
  cases forced with
  | true => exact h
  | false => exact h

theorem stop {condition : Expr H} {body : Stmt H} {last test : Value H}
    (hcondition : Task.Finishes host (.eval condition) state (.ok test) state')
    (hfalse : test.truthy = false) :
    Task.Finishes host (.rounds condition body last) state (.ok last) state' := by
  apply Settles.of_succ_count
  show Settles (fun fuel count => do
    let test <- condition.eval host fuel
    if test.truthy then
      let value <- body.exec host fuel
      Run.repeatWhile (condition.eval host fuel) (body.exec host fuel) count value
    else
      return last) _ _
  apply Settles.bind_ok hcondition
  rw [hfalse]
  exact .of_forall fun _ _ => rfl

theorem round {condition : Expr H} {body : Stmt H} {last test : Value H}
    (hcondition : Task.Finishes host (.eval condition) state (.ok test) middle)
    (htrue : test.truthy = true)
    (h : Settles (fun fuel count => do
      (Task.rounds condition body (<- body.exec host fuel)).run host fuel count)
      middle (ending.outcome state')) :
    Task.Finishes host (.rounds condition body last) state ending state' := by
  apply Settles.of_succ_count
  show Settles (fun fuel count => do
    let test <- condition.eval host fuel
    if test.truthy then
      let value <- body.exec host fuel
      Run.repeatWhile (condition.eval host fuel) (body.exec host fuel) count value
    else
      return last) _ _
  apply Settles.bind_ok hcondition
  rw [htrue]
  exact h

end Task.Finishes

theorem finishes_of_ends {task : Task H} {state state' : State H} {ending : Ending H}
    (h : Ends host task state ending state') :
    Task.Finishes host task state ending state' := by
  induction h with
  | literal => exact .of_succ_fuel (.of_forall fun _ _ => rfl)
  | var => exact .of_succ_fuel (.of_forall fun _ _ => rfl)
  | assign _ ih => exact Task.Finishes.assign ih
  | assignError _ ih => exact .of_succ_fuel (.bind_error ih)
  | group _ ih => exact .of_succ_fuel ih
  | unary _ hrule ih => exact Task.Finishes.unary ih hrule
  | unaryError _ ih => exact .of_succ_fuel (.bind_error ih)
  | binary _ _ hrule ihleft ihright => exact Task.Finishes.binary ihleft ihright hrule
  | leftError _ ih => exact .of_succ_fuel (.bind_error ih)
  | rightError _ _ ihleft ihright => exact Task.Finishes.rightError ihleft ihright
  | callFunction _ _ ihcallee ih => exact Task.Finishes.call ihcallee ih
  | callNative _ _ ihcallee ih => exact Task.Finishes.call ihcallee ih
  | @notCallable callee args v state state' _ htext ih =>
      apply Task.Finishes.call ih
      cases v with
      | function params body => exact absurd rfl htext
      | native params handle => exact absurd rfl htext
      | str text => exact .of_forall fun _ _ => rfl
      | int n => exact .of_forall fun _ _ => rfl
  | calleeError _ ih => exact .of_succ_fuel (.bind_error ih)
  | bound _ _ iharg ih => exact Task.Finishes.bound iharg ih
  | surplus _ _ iharg ih => exact Task.Finishes.surplus iharg ih
  | argError _ ih => exact Task.Finishes.argError ih
  | enterBody _ ih =>
      simp only [Task.Finishes, apply_done_run]
      exact ih
  | enterHost =>
      simp only [Task.Finishes, apply_done_run]
      exact .of_forall fun _ _ => rfl
  | expr _ ih => exact .of_succ_fuel ih
  | branchTrue _ hforced _ ihcondition ih =>
      rw [<- Bool.or_eq_true] at hforced
      exact Task.Finishes.branch ihcondition hforced ih
  | branchFalse _ htest hoverride _ ihcondition ih =>
      have hforced := Bool.or_eq_false_iff.mpr ⟨htest, hoverride⟩
      exact Task.Finishes.branch ihcondition hforced ih
  | branchError _ ih => exact .of_succ_fuel (.bind_error ih)
  | loop _ ih => exact .of_succ_fuel (.diagonal ih)
  | stop _ hfalse ih => exact Task.Finishes.stop ih hfalse
  | again _ htrue _ _ ihcondition ihbody ih =>
      apply Task.Finishes.round ihcondition htrue
      exact .bind_ok ihbody ih
  | conditionError _ ih => exact .of_succ_count (.bind_error ih)
  | bodyError _ htrue _ ihcondition ihbody =>
      apply Task.Finishes.round ihcondition htrue
      exact .bind_error ihbody
  | block _ ih => exact .of_succ_fuel ih
  | done => exact .of_forall fun _ _ => rfl
  | next _ _ ihs ih =>
      apply Settles.bind_ok ihs
      exact ih
  | rowError _ ih => exact .bind_error ih
  | define => exact .of_succ_fuel (.of_forall fun _ _ => rfl)

theorem Task.Finishes.exists_fuel {task : Task H} {state state' : State H} {ending : Ending H}
    (h : Task.Finishes host task state ending state') :
    exists fuel, task.run host fuel fuel state = ending.outcome state' := by
  rcases h with ⟨bound, hrun⟩
  exact ⟨bound, hrun (Nat.le_refl bound) (Nat.le_refl bound)⟩

theorem ends_unique {task : Task H} {state first second : State H} {ending other : Ending H}
    (hfirst : Ends host task state ending first) (hsecond : Ends host task state other second) :
    ending = other ∧ first = second := by
  rcases finishes_of_ends hfirst with ⟨bound, hrun⟩
  rcases finishes_of_ends hsecond with ⟨bound', hrun'⟩
  have h := hrun (Nat.le_max_left bound bound') (Nat.le_max_left bound bound')
  have h' := hrun' (Nat.le_max_right bound bound') (Nat.le_max_right bound bound')
  exact outcome_injective (h.symm.trans h')

/-- An expression or a statement ends, with whatever fuel, in exactly the way that the
rules of evaluation derive for it. -/
theorem terminates_iff_ends (host : Host H) :
    (forall (e : Expr H) (state : State H) (ending : Ending H) (state' : State H),
      (exists fuel, e.eval host fuel state = ending.outcome state') <->
        Ends host (.eval e) state ending state') ∧
    (forall (s : Stmt H) (state : State H) (ending : Ending H) (state' : State H),
      (exists fuel, s.exec host fuel state = ending.outcome state') <->
        Ends host (.exec s) state ending state') := by
  constructor
  · intro e state ending state'
    constructor
    · rintro ⟨fuel, h⟩
      exact (run_sound fuel).left e h
    · intro h
      exact (finishes_of_ends h).exists_fuel
  · intro s state ending state'
    constructor
    · rintro ⟨fuel, h⟩
      exact (run_sound fuel).right s h
    · intro h
      exact (finishes_of_ends h).exists_fuel

end Lisan
