import Lisan.Proofs.Run.Agreement

/-!
# What runs ensure

From a state with an invariant, a run comes to a result with some property or to a halt of
some kind, and leaves a state with the invariant. What is ensured of the parts of a run is
ensured of the whole.
-/

namespace Lisan

variable {H : Type}

/-- A result with the property or a halt of the kind, in a state with the invariant. -/
inductive Ensured (inv : State H -> Prop) (halts : Halt H -> Prop) (post : α -> Prop) :
    EStateM.Result (Halt H) (State H) α -> Prop where
  | ok {a : α} {state : State H} :
      post a -> inv state -> Ensured inv halts post (.ok a state)
  | error {halt : Halt H} {state : State H} :
      halts halt -> inv state -> Ensured inv halts post (.error halt state)

def Ensures (inv : State H -> Prop) (halts : Halt H -> Prop) (post : α -> Prop)
    (run : Run H α) : Prop :=
  forall ⦃state : State H⦄, inv state -> Ensured inv halts post (run state)

namespace Ensures

variable {inv : State H -> Prop} {halts : Halt H -> Prop}
variable {post : α -> Prop} {after : β -> Prop}

theorem pure {a : α} (h : post a) : Ensures inv halts post (return a : Run H α) :=
  fun _ hstate => .ok h hstate

theorem throw {halt : Halt H} (h : halts halt) :
    Ensures inv halts post (throw halt : Run H α) :=
  fun _ hstate => .error h hstate

theorem bind {x : Run H α} {f : α -> Run H β} (hx : Ensures inv halts post x)
    (hf : forall a, post a -> Ensures inv halts after (f a)) :
    Ensures inv halts after (x >>= f) := by
  intro state hstate
  have hfirst := hx hstate
  cases hresult : x state with
  | ok a middle =>
      rw [Run.bind_of_ok hresult]
      rw [hresult] at hfirst
      cases hfirst with
      | ok ha hmiddle => exact hf a ha hmiddle
  | error halt middle =>
      rw [Run.bind_of_error hresult]
      rw [hresult] at hfirst
      cases hfirst with
      | error hhalt hmiddle => exact .error hhalt hmiddle

theorem get : Ensures inv halts inv (get : Run H (State H)) :=
  fun _ hstate => .ok hstate hstate

theorem assign {name : String} {value : Value H}
    (h : forall state, inv state -> inv (state.assign name value)) :
    Ensures inv halts (fun _ => True) (Run.assign name value) :=
  fun state hstate => .ok trivial (h state hstate)

theorem callHost {host : Host H} {handle : H} {post : Value H -> Prop}
    (h : forall state, inv state -> post (host handle state).1 ∧ inv (host handle state).2) :
    Ensures inv halts post (Run.callHost host handle) :=
  fun state hstate => .ok (h state hstate).left (h state hstate).right

section Repeated

variable {post : Value H -> Prop}

theorem repeatWhile {condition body : Run H (Value H)} (hfuel : halts .outOfFuel)
    (hcondition : Ensures inv halts post condition) (hbody : Ensures inv halts post body)
    (count : Nat) {last : Value H} (hlast : post last) :
    Ensures inv halts post (Run.repeatWhile condition body count last) := by
  induction count generalizing last with
  | zero => exact Ensures.throw hfuel
  | succ count ih =>
      apply Ensures.bind hcondition
      intro test _
      cases test.truthy with
      | true =>
          apply Ensures.bind hbody
          intro value hvalue
          exact ih hvalue
      | false => exact Ensures.pure hlast

theorem sequence {execute : Stmt H -> Run H (Value H)} {rest : List (Stmt H)}
    (hrest : forall s, s ∈ rest -> Ensures inv halts post (execute s)) {last : Value H}
    (hlast : post last) : Ensures inv halts post (Run.sequence execute rest last) := by
  induction rest generalizing last with
  | nil => exact Ensures.pure hlast
  | cons s rest ih =>
      rw [List.forall_mem_cons] at hrest
      apply Ensures.bind hrest.left
      intro value hvalue
      exact ih hrest.right hvalue

theorem bindArguments {evaluate : Expr H -> Run H (Value H)}
    (hassign : forall name value, post value ->
      Ensures inv halts (fun _ => True) (Run.assign name value))
    (params : List String) {args : List (Expr H)}
    (hargs : forall arg, arg ∈ args -> Ensures inv halts post (evaluate arg)) :
    Ensures inv halts (fun _ => True) (Run.bindArguments evaluate params args) := by
  induction args generalizing params with
  | nil =>
      rw [Run.bindArguments]
      exact Ensures.pure trivial
  | cons arg args ih =>
      rw [List.forall_mem_cons] at hargs
      cases params with
      | nil =>
          apply Ensures.bind hargs.left
          intro _ _
          exact ih [] hargs.right
      | cons param params =>
          apply Ensures.bind hargs.left
          intro value hvalue
          apply Ensures.bind (hassign param value hvalue)
          intro _ _
          exact ih params hargs.right

end Repeated

end Ensures
end Lisan
