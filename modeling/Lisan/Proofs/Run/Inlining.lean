import Lisan.Proofs.Run.View

/-!
# Calls and inlined bodies

The call of a function does what a block does in its place: one statement for each
argument, which assigns it to the parameter in the same place if there is one, and then
the body. Nothing else is special about a call; in particular it has no variables of its
own.
-/

namespace Lisan

variable {H : Type}

/-!
## The block that a call stands for
-/

namespace Stmt

/-- One statement for each argument, in order: the assignment to the parameter in the same
place, or the argument alone if there is none. -/
def bindings (params : List String) (args : List (Expr H)) : List (Stmt H) :=
  args.mapIdx fun place arg =>
    match params[place]? with
    | some param => .expr (.assign param arg)
    | none => .expr arg

def inlined (params : List String) (args : List (Expr H)) (body : Stmt H) : Stmt H :=
  .block (bindings params args ++ [body])

theorem bindings_nil (params : List String) : bindings params ([] : List (Expr H)) = [] :=
  rfl

theorem bindings_cons (param : String) (params : List String) (arg : Expr H)
    (args : List (Expr H)) :
    bindings (param :: params) (arg :: args) =
      .expr (.assign param arg) :: bindings params args := by
  simp [bindings, List.mapIdx_cons]

theorem bindings_surplus (arg : Expr H) (args : List (Expr H)) :
    bindings [] (arg :: args) = .expr arg :: bindings [] args := by
  simp [bindings, List.mapIdx_cons]

end Stmt

/-!
## What a call does behind its callee
-/

namespace Run

theorem sequence_singleton (execute : Stmt H -> Run H (Value H)) (s : Stmt H)
    (last : Value H) : sequence execute [s] last = execute s :=
  bind_pure (execute s)

def enter (host : Host H) (params : List String) (args : List (Expr H)) (body : Stmt H)
    (fuel : Nat) : Run H (Value H) := do
  bindArguments (Expr.eval host fuel) params args
  body.exec host fuel

variable (host : Host H) (body : Stmt H) (fuel : Nat)

theorem enter_nil (params : List String) :
    enter host params [] body fuel = body.exec host fuel := by
  rw [enter, bindArguments, pure_bind]

theorem enter_cons (param : String) (params : List String) (arg : Expr H)
    (args : List (Expr H)) :
    enter host (param :: params) (arg :: args) body fuel =
      (Expr.assign param arg).eval host (fuel + 1) >>= fun _ =>
        enter host params args body fuel := by
  rw [enter, bindArguments, Expr.eval]
  simp only [bind_assoc, pure_bind]
  rfl

theorem enter_surplus (arg : Expr H) (args : List (Expr H)) :
    enter host [] (arg :: args) body fuel =
      arg.eval host fuel >>= fun _ => enter host [] args body fuel := by
  rw [enter, bindArguments, bind_assoc]
  rfl

theorem concludes_call_iff {host : Host H} {callee : Expr H} {args : List (Expr H)}
    {params : List String} {body : Stmt H} {state middle : State H}
    (hcallee : Concludes (fun fuel => callee.eval host fuel) state
      (.ok (.function params body) middle)) {outcome : Outcome H} :
    Concludes (fun fuel => (Expr.call callee args).eval host fuel) state outcome <->
      Concludes (enter host params args body) middle outcome := by
  rcases hcallee.settles with ⟨bound, hbound⟩
  have hstep : forall fuel, bound ≤ fuel ->
      (Expr.call callee args).eval host (fuel + 1) state = enter host params args body fuel middle := by
    intro fuel hfuel
    rw [Expr.eval]
    exact Run.bind_of_ok (hbound hfuel hfuel)
  constructor
  · intro h
    rcases h.settles with ⟨enough, hrun⟩
    refine ⟨⟨max bound enough, ?_⟩, h.notStarved⟩
    intro fuel count hfuel hcount
    show enter host params args body fuel middle = outcome
    rw [<- hstep fuel (le_of_max_le_left hfuel)]
    exact hrun (Nat.le_succ_of_le (le_of_max_le_right hfuel)) (le_of_max_le_right hcount)
  · intro h
    rcases h.settles with ⟨enough, hrun⟩
    refine ⟨Settles.of_succ_fuel ⟨max bound enough, ?_⟩, h.notStarved⟩
    intro fuel count hfuel hcount
    show (Expr.call callee args).eval host (fuel + 1) state = outcome
    rw [hstep fuel (le_of_max_le_left hfuel)]
    exact hrun (le_of_max_le_right hfuel) (le_of_max_le_right hcount)

end Run

/-!
## The call follows the block, and the block the call
-/

section Entering

variable (host : Host H) (fuel : Nat)

theorem eval_follows_self (e : Expr H) :
    Follows .whole (Value.Alike .whole) (e.eval host fuel) fun fuel' _ => e.eval host fuel' :=
  (run_follows host.respects_whole fuel).left e e rfl

theorem exec_follows_self (s : Stmt H) :
    Follows .whole (Value.Alike .whole) (s.exec host fuel) fun fuel' _ => s.exec host fuel' :=
  (run_follows host.respects_whole fuel).right s s rfl

theorem exec_expr_follows (e : Expr H) :
    Follows .whole (Value.Alike .whole) ((Stmt.expr e).exec host fuel) fun fuel' _ =>
      e.eval host fuel' :=
  (exec_follows_self host fuel (.expr e)).succ_fuel

theorem follows_exec_expr (e : Expr H) :
    Follows .whole (Value.Alike .whole) (e.eval host fuel) fun fuel' _ =>
      (Stmt.expr e).exec host fuel' :=
  Follows.of_succ_fuel (eval_follows_self host fuel e)

variable (body : Stmt H)

theorem enter_follows_row (params : List String) (args : List (Expr H)) (last : Value H) :
    Follows .whole (Value.Alike .whole) (Run.enter host params args body fuel) fun fuel' _ =>
      Run.sequence (Stmt.exec host fuel') (Stmt.bindings params args ++ [body]) last := by
  induction args generalizing params last with
  | nil =>
      simp only [Run.enter_nil, Stmt.bindings_nil, List.nil_append, Run.sequence_singleton]
      exact exec_follows_self host fuel body
  | cons arg args ih =>
      cases params with
      | nil =>
          rw [Run.enter_surplus, Stmt.bindings_surplus]
          apply Follows.bind (follows_exec_expr host fuel arg)
          intro _ value _
          exact ih [] value
      | cons param params =>
          rw [Run.enter_cons, Stmt.bindings_cons]
          apply Follows.bind (follows_exec_expr host (fuel + 1) (.assign param arg))
          intro _ value _
          exact ih params value

theorem row_follows_enter (params : List String) (args : List (Expr H)) (last : Value H) :
    Follows .whole (Value.Alike .whole)
      (Run.sequence (Stmt.exec host fuel) (Stmt.bindings params args ++ [body]) last)
      fun fuel' _ => Run.enter host params args body fuel' := by
  induction args generalizing params last with
  | nil =>
      simp only [Run.enter_nil, Stmt.bindings_nil, List.nil_append, Run.sequence_singleton]
      exact exec_follows_self host fuel body
  | cons arg args ih =>
      cases params with
      | nil =>
          simp only [Run.enter_surplus, Stmt.bindings_surplus]
          apply Follows.bind (exec_expr_follows host fuel arg)
          intro value _ _
          exact ih [] value
      | cons param params =>
          simp only [Run.enter_cons, Stmt.bindings_cons]
          apply Follows.bind (exec_expr_follows host fuel (.assign param arg)).succ_fuel
          intro value _ _
          exact ih params value

end Entering

/-- From the state that the callee leaves, a block of the bindings and the body comes to
what the call comes to: neither comes to an end, or both do, with the same value or the
same halt and in the same state. -/
theorem call_agrees_with_inlined {host : Host H} {callee : Expr H} {params : List String}
    {body : Stmt H} {fuel : Nat} {state middle : State H}
    (hcallee : callee.eval host fuel state = .ok (.function params body) middle)
    (args : List (Expr H)) :
    Agree Eq (fun fuel => (Expr.call callee args).eval host fuel)
      (fun fuel => (Stmt.inlined params args body).exec host fuel) state middle := by
  have hreturns : Concludes (fun fuel => callee.eval host fuel) state
      (.ok (.function params body) middle) := by
    rw [<- hcallee]
    apply eval_concludes
    rw [hcallee]
    exact not_starved_ok
  -- the block takes one of its fuel before the first statement
  have hthere : forall fuel, Follows .whole (Value.Alike .whole)
      (Run.enter host params args body fuel)
      fun fuel' _ => (Stmt.inlined params args body).exec host fuel' :=
    fun fuel => Follows.of_succ_fuel (enter_follows_row host fuel body params args .default)
  have hback : forall fuel, Follows .whole (Value.Alike .whole)
      ((Stmt.inlined params args body).exec host fuel)
      fun fuel' _ => Run.enter host params args body fuel' := by
    intro fuel
    cases fuel with
    | zero => exact Follows.starve
    | succ fuel => exact row_follows_enter host fuel body params args .default
  apply agree_of_leads
  · intro fuel hend
    have henters := (Run.concludes_call_iff hreturns).mp (eval_concludes hend)
    rcases henters.exists_fuel with ⟨enough, henough⟩
    rw [<- henough] at hend ⊢
    rcases concludes_of_followed (hthere enough rfl) hend with ⟨outcome, hconcludes, halike⟩
    exact ⟨outcome, hconcludes, Outcome.eq_of_alike_whole halike⟩
  · intro fuel hend
    rcases concludes_of_followed (hback fuel rfl) hend with ⟨outcome, hconcludes, halike⟩
    exact ⟨outcome, (Run.concludes_call_iff hreturns).mpr hconcludes,
      (Outcome.eq_of_alike_whole halike).symm⟩

theorem rebinding_call_agrees_with_inlined :
    let callee : Expr Capability := .var "ق"
    let body : Stmt Capability := .expr (.binary (.var "ى") ⟨.minus, ⟨1, 1⟩⟩ (.var "غ"))
    let args : List (Expr Capability) :=
      [.literal (.int 5), .assign "غ" (.literal (.int 3)), .assign "ج" (.literal (.int 9))]
    let function : Value Capability := .function ["ي", "ى"] body
    let state : State Capability := ⟨Store.empty.assign "غ" function, #[]⟩
    Stmt.inlined ["ي", "ى"] args body =
        .block [.expr (.assign "ي" (.literal (.int 5))),
          .expr (.assign "ى" (.assign "غ" (.literal (.int 3)))),
          .expr (.assign "ج" (.literal (.int 9))), body] ∧
      callee.eval Capability.host 1 state = .ok function state ∧
      (exists last, (Expr.call callee args).eval Capability.host 5 state = .ok (.int 6) last) ∧
      Agree Eq (fun fuel => (Expr.call callee args).eval Capability.host fuel)
        (fun fuel => (Stmt.inlined ["ي", "ى"] args body).exec Capability.host fuel)
        state state := by
  intro callee body args function state
  have hcallee : callee.eval Capability.host 1 state = .ok function state := rfl
  exact ⟨rfl, hcallee, ⟨_, rfl⟩, call_agrees_with_inlined hcallee args⟩

end Lisan
