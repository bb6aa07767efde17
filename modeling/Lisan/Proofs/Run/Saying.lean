import Lisan.Proofs.Run.Unbound

/-!
# What runs say

A run takes no notice of what was said before it and only adds to it: its outcome is the same,
and so are the texts that it adds. They are what its calls of functions of the host say, one
behind the other.
-/

namespace Lisan

variable {H : Type}

/-!
## Calls of the host
-/

structure HostCall (H : Type) where
  handle : H
  store : Store H

def Host.texts (host : Host H) (call : HostCall H) : List String :=
  (host call.handle (Run.initial call.store)).2.said.toList

def Host.textsOf (host : Host H) (calls : List (HostCall H)) : Array String :=
  (calls.flatMap host.texts).toArray

/-- The function looks at nothing but the store, and only adds to what was said. -/
def Host.OnlyAdds (host : Host H) (handle : H) : Prop :=
  forall store said, host handle ⟨store, said⟩ =
    ((host handle (Run.initial store)).1,
      ⟨(host handle (Run.initial store)).2.store, said ++ host.textsOf [⟨handle, store⟩]⟩)

theorem Host.append_textsOf_nil (host : Host H) (said : Array String) :
    said ++ host.textsOf [] = said :=
  Array.append_empty

theorem Host.textsOf_append (host : Host H) (calls others : List (HostCall H)) :
    host.textsOf (calls ++ others) = host.textsOf calls ++ host.textsOf others := by
  rw [textsOf, List.flatMap_append, <- List.append_toArray]
  rfl

abbrev HostCalls (H : Type) :=
  Store H -> List (HostCall H)

namespace HostCalls

def none : HostCalls H :=
  fun _ => []

def andThen (calls : HostCalls H) (run : Run H α) (next : α -> HostCalls H) : HostCalls H :=
  fun store =>
    calls store ++
      match run (Run.initial store) with
      | .ok value last => next value last.store
      | .error _ _ => []

def arguments (calls : Expr H -> HostCalls H) (evaluate : Expr H -> Run H (Value H)) :
    List String -> List (Expr H) -> HostCalls H
  | _, [] => none
  | [], arg :: args =>
      (calls arg).andThen (evaluate arg) fun _ => arguments calls evaluate [] args
  | param :: params, arg :: args =>
      (calls arg).andThen (evaluate arg) fun value store =>
        arguments calls evaluate params args (store.assign param value)

def rounds (condition body : Run H (Value H)) (conditionCalls bodyCalls : HostCalls H) :
    Nat -> HostCalls H
  | 0 => none
  | count + 1 =>
      conditionCalls.andThen condition fun test =>
        if test.truthy then
          bodyCalls.andThen body fun _ => rounds condition body conditionCalls bodyCalls count
        else
          none

def row (calls : Stmt H -> HostCalls H) (execute : Stmt H -> Run H (Value H)) :
    List (Stmt H) -> HostCalls H
  | [] => none
  | s :: rest => (calls s).andThen (execute s) fun _ => row calls execute rest

theorem andThen_none (calls : HostCalls H) (run : Run H α) :
    (calls.andThen run fun _ => none) = calls := by
  funext store
  rw [andThen]
  cases run (Run.initial store) <;> exact List.append_nil _

end HostCalls

mutual

/-- The calls of functions of the host as an expression is evaluated, from first to last. A
call is made once all its arguments are bound, and not at all if one of them halts. -/
def Expr.calls (host : Host H) : Nat -> Expr H -> HostCalls H
  | 0, _ => .none
  | fuel + 1, e =>
      match e with
      | .literal _ => .none
      | .var _ => .none
      | .assign _ value => value.calls host fuel
      | .group inner => inner.calls host fuel
      | .unary _ operand => operand.calls host fuel
      | .binary left _ right =>
          (left.calls host fuel).andThen (left.eval host fuel) fun _ => right.calls host fuel
      | .call callee args =>
          let bound := fun params =>
            (HostCalls.arguments (Expr.calls host fuel) (Expr.eval host fuel) params args).andThen
              (Run.bindArguments (Expr.eval host fuel) params args)
          (callee.calls host fuel).andThen (callee.eval host fuel) fun
            | .function params body => bound params fun _ => body.calls host fuel
            -- the one place where a function of the host is called, with its parameters bound
            | .native params handle => bound params fun _ store => [⟨handle, store⟩]
            | _ => .none

def Stmt.calls (host : Host H) : Nat -> Stmt H -> HostCalls H
  | 0, _ => .none
  | fuel + 1, s =>
      match s with
      | .expr value => value.calls host fuel
      | .branch condition onTrue onFalse =>
          (condition.calls host fuel).andThen (condition.eval host fuel) fun test store =>
            (if test.truthy || store.overrideActive then onTrue.calls host fuel
              else onFalse.calls host fuel) store
      | .loop condition body =>
          HostCalls.rounds (condition.eval host fuel) (body.exec host fuel)
            (condition.calls host fuel) (body.calls host fuel) fuel
      | .block body => HostCalls.row (Stmt.calls host fuel) (Stmt.exec host fuel) body
      | .define _ _ _ => .none

end

/-!
## Runs that only add
-/

def Store.Within (allowed : Effect H -> Prop) (store : Store H) : Prop :=
  store.All (Value.Within allowed)

inductive Added (host : Host H) (admitted : H -> Prop) (post : α -> Prop) (run : Run H α)
    (store : Store H) (calls : List (HostCall H)) : Prop where
  | ok {value : α} {last : Store H} :
      post value -> last.Within (Effect.Calls admitted) ->
      (forall said, run ⟨store, said⟩ = .ok value ⟨last, said ++ host.textsOf calls⟩) ->
      Added host admitted post run store calls
  | error {halt : Halt H} {last : Store H} :
      last.Within (Effect.Calls admitted) ->
      (forall said, run ⟨store, said⟩ = .error halt ⟨last, said ++ host.textsOf calls⟩) ->
      Added host admitted post run store calls

/-- From a store with no functions of the host but those that are admitted, the run ends alike
whatever was said before, and adds what its calls say. -/
def Adds (host : Host H) (admitted : H -> Prop) (post : α -> Prop) (run : Run H α)
    (calls : HostCalls H) : Prop :=
  forall ⦃store : Store H⦄, store.Within (Effect.Calls admitted) ->
    Added host admitted post run store (calls store)

variable {host : Host H} {admitted : H -> Prop}

theorem Added.of_eq {post : α -> Prop} {run run' : Run H α} {store store' : Store H}
    {calls : List (HostCall H)} (h : Added host admitted post run' store' calls)
    (hrun : forall said, run ⟨store, said⟩ = run' ⟨store', said⟩) :
    Added host admitted post run store calls := by
  cases h with
  | ok hvalue hlast hrun' => exact .ok hvalue hlast fun said => (hrun said).trans (hrun' said)
  | error hlast hrun' => exact .error hlast fun said => (hrun said).trans (hrun' said)

namespace Adds

variable {post : α -> Prop} {after : β -> Prop} {calls : HostCalls H}

theorem pure {value : α} (h : post value) :
    Adds host admitted post (return value : Run H α) .none := by
  intro store hstore
  apply Added.ok h hstore
  intro said
  rw [HostCalls.none, Host.append_textsOf_nil]
  rfl

theorem throw (halt : Halt H) : Adds host admitted post (throw halt : Run H α) .none := by
  intro store hstore
  apply Added.error hstore
  intro said
  rw [HostCalls.none, Host.append_textsOf_nil]
  rfl

theorem ofExcept {result : Except (Halt H) α}
    (h : forall value, result = .ok value -> post value) :
    Adds host admitted post (Run.ofExcept result) .none := by
  cases result with
  | ok value => exact Adds.pure (h value rfl)
  | error halt => exact Adds.throw halt

theorem andThen {x : Run H α} {f : α -> Run H β} {next : α -> HostCalls H}
    (hx : Adds host admitted post x calls)
    (hf : forall value, post value -> Adds host admitted after (f value) (next value)) :
    Adds host admitted after (x >>= f) (calls.andThen x next) := by
  intro store hstore
  rw [HostCalls.andThen]
  cases hx hstore with
  | @ok value last hvalue hlast hrun =>
      -- what comes next starts from the store that is left, and its texts stand behind
      rw [Run.initial, hrun]
      cases hf value hvalue hlast with
      | ok hvalue' hlast' hrun' =>
          apply Added.ok hvalue' hlast'
          intro said
          rw [Run.bind_of_ok (hrun said), hrun', Host.textsOf_append, Array.append_assoc]
      | error hlast' hrun' =>
          apply Added.error hlast'
          intro said
          rw [Run.bind_of_ok (hrun said), hrun', Host.textsOf_append, Array.append_assoc]
  | error hlast hrun =>
      rw [Run.initial, hrun, List.append_nil]
      apply Added.error hlast
      intro said
      rw [Run.bind_of_error (hrun said)]

theorem andSilent {x : Run H α} {f : α -> Run H β} (hx : Adds host admitted post x calls)
    (hf : forall value, post value -> Adds host admitted after (f value) .none) :
    Adds host admitted after (x >>= f) calls := by
  rw [<- HostCalls.andThen_none calls x]
  exact andThen hx hf

theorem assign {x : Run H α} (hx : Adds host admitted post x calls) (name : String)
    {value : Value H} (hvalue : value.Within (Effect.Calls admitted)) :
    Adds host admitted post (Run.assign name value >>= fun _ => x)
      (fun store => calls (store.assign name value)) :=
  fun _ hstore => (hx (Store.All.assign hstore name hvalue)).of_eq fun _ => rfl

theorem callHost (hwithin : host.Within (Effect.Calls admitted)) {handle : H}
    (hadmitted : admitted handle) (honly : host.OnlyAdds handle) :
    Adds host admitted (Value.Within (Effect.Calls admitted)) (Run.callHost host handle)
      (fun store => [⟨handle, store⟩]) := by
  intro store hstore
  have hstate : (Run.initial store).Within (Effect.Calls admitted) := hstore
  have hcall := hwithin (show Effect.Calls admitted (.call handle) from hadmitted) hstate
  apply Added.ok hcall.left hcall.right
  intro said
  show EStateM.Result.ok (host handle ⟨store, said⟩).1 (host handle ⟨store, said⟩).2 = _
  rw [honly store said]

theorem look (f : Store H -> Run H α) (next : Store H -> HostCalls H)
    (h : forall store : Store H, store.Within (Effect.Calls admitted) ->
      Adds host admitted post (f store) (next store)) :
    Adds host admitted post (do f (<- get).store) (fun store => next store store) :=
  fun store hstore => (h store hstore hstore).of_eq fun _ => rfl

theorem choose (b : Bool) {x y : Run H α} {others : HostCalls H}
    (hx : Adds host admitted post x calls) (hy : Adds host admitted post y others) :
    Adds host admitted post (if b then x else y) (if b then calls else others) := by
  cases b with
  | true => exact hx
  | false => exact hy

theorem repeatWhile {condition body : Run H (Value H)} {conditionCalls bodyCalls : HostCalls H}
    (hcondition : Adds host admitted (Value.Within (Effect.Calls admitted)) condition
      conditionCalls)
    (hbody : Adds host admitted (Value.Within (Effect.Calls admitted)) body bodyCalls)
    (count : Nat) {last : Value H} (hlast : last.Within (Effect.Calls admitted)) :
    Adds host admitted (Value.Within (Effect.Calls admitted))
      (Run.repeatWhile condition body count last)
      (HostCalls.rounds condition body conditionCalls bodyCalls count) := by
  induction count generalizing last with
  | zero => exact Adds.throw .outOfFuel
  | succ count ih =>
      apply Adds.andThen hcondition
      intro test _
      cases test.truthy with
      | true =>
          apply Adds.andThen hbody
          intro value hvalue
          exact ih hvalue
      | false => exact Adds.pure hlast

theorem sequence {execute : Stmt H -> Run H (Value H)} {calls : Stmt H -> HostCalls H}
    {rest : List (Stmt H)}
    (hrest : forall s, s ∈ rest ->
      Adds host admitted (Value.Within (Effect.Calls admitted)) (execute s) (calls s))
    {last : Value H} (hlast : last.Within (Effect.Calls admitted)) :
    Adds host admitted (Value.Within (Effect.Calls admitted)) (Run.sequence execute rest last)
      (HostCalls.row calls execute rest) := by
  induction rest generalizing last with
  | nil => exact Adds.pure hlast
  | cons s rest ih =>
      rw [List.forall_mem_cons] at hrest
      apply Adds.andThen hrest.left
      intro value hvalue
      exact ih hrest.right hvalue

theorem bindArguments {evaluate : Expr H -> Run H (Value H)} {calls : Expr H -> HostCalls H}
    (params : List String) {args : List (Expr H)}
    (hargs : forall arg, arg ∈ args ->
      Adds host admitted (Value.Within (Effect.Calls admitted)) (evaluate arg) (calls arg)) :
    Adds host admitted (fun _ => True) (Run.bindArguments evaluate params args)
      (HostCalls.arguments calls evaluate params args) := by
  induction args generalizing params with
  | nil =>
      rw [Run.bindArguments, HostCalls.arguments]
      exact Adds.pure trivial
  | cons arg args ih =>
      rw [List.forall_mem_cons] at hargs
      cases params with
      | nil =>
          apply Adds.andThen hargs.left
          intro value _
          exact ih [] hargs.right
      | cons param params =>
          apply Adds.andThen hargs.left
          intro value hvalue
          exact Adds.assign (ih params hargs.right) param hvalue

end Adds

/-!
## Evaluation
-/

theorem Operator.within_of_unary {allowed : Effect H -> Prop} {kind : Token.Kind}
    {v result : Value H} (h : unary kind v = .ok result) : result.Within allowed := by
  have hrule : UnaryRule kind v (.ok result) := unary_eq_iff.mp h
  cases hrule <;> exact Value.within_int _

theorem Operator.within_of_binary {allowed : Effect H -> Prop} {kind : Token.Kind}
    {v w result : Value H} (h : binary v kind w = .ok result) : result.Within allowed := by
  have hrule : BinaryRule v kind w (.ok result) := binary_eq_iff.mp h
  cases hrule with
  | join => exact Value.within_str _
  | _ => exact Value.within_int _

section Evaluation

variable {fuel : Nat}

def EvalAdds (host : Host H) (admitted : H -> Prop) (fuel : Nat) : Prop :=
  forall e : Expr H, e.Within (Effect.Calls admitted) ->
    Adds host admitted (Value.Within (Effect.Calls admitted)) (e.eval host fuel)
      (e.calls host fuel)

def ExecAdds (host : Host H) (admitted : H -> Prop) (fuel : Nat) : Prop :=
  forall s : Stmt H, s.Within (Effect.Calls admitted) ->
    Adds host admitted (Value.Within (Effect.Calls admitted)) (s.exec host fuel)
      (s.calls host fuel)

theorem eval_adds_succ (hwithin : host.Within (Effect.Calls admitted))
    (honly : forall handle, admitted handle -> host.OnlyAdds handle)
    (heval : EvalAdds host admitted fuel) (hexec : ExecAdds host admitted fuel) :
    EvalAdds host admitted (fuel + 1) := by
  intro e he
  cases e with
  | literal value => exact Adds.pure he
  | var name =>
      apply Adds.look (fun store => return store.get name) fun _ => .none
      intro store hstore
      exact Adds.pure (Store.All.get hstore (Value.within_int 1000) name)
  | assign target value =>
      rw [Expr.within_assign] at he
      apply Adds.andSilent (heval value he.right)
      intro result hresult
      exact Adds.assign (Adds.pure hresult) target hresult
  | group inner => exact heval inner he
  | unary operator operand =>
      apply Adds.andSilent (heval operand he)
      intro v _
      exact Adds.ofExcept fun result => Operator.within_of_unary
  | binary left operator right =>
      rw [Expr.within_binary] at he
      apply Adds.andThen (heval left he.left)
      intro v _
      apply Adds.andSilent (heval right he.right)
      intro w _
      exact Adds.ofExcept fun result => Operator.within_of_binary
  | call callee args =>
      rw [Expr.within_call] at he
      have hargs := fun arg harg => heval arg (he.right arg harg)
      apply Adds.andThen (heval callee he.left)
      intro v hv
      cases v with
      | str text => exact Adds.throw _
      | int n => exact Adds.throw _
      | function params body =>
          rw [Value.within_function] at hv
          apply Adds.andThen (Adds.bindArguments params hargs)
          intro _ _
          exact hexec body hv.right
      | native params handle =>
          rw [Value.within_native] at hv
          apply Adds.andThen (Adds.bindArguments params hargs)
          intro _ _
          exact Adds.callHost hwithin hv.right (honly handle hv.right)

theorem exec_adds_succ (heval : EvalAdds host admitted fuel)
    (hexec : ExecAdds host admitted fuel) : ExecAdds host admitted (fuel + 1) := by
  intro s hs
  cases s with
  | expr value => exact heval value hs
  | branch condition onTrue onFalse =>
      rw [Stmt.within_branch] at hs
      rw [Stmt.exec, Stmt.calls]
      apply Adds.andThen (heval condition hs.left)
      intro test _
      apply Adds.look
        (fun store => if test.truthy || store.overrideActive then onTrue.exec host fuel
          else onFalse.exec host fuel)
        (fun store => if test.truthy || store.overrideActive then onTrue.calls host fuel
          else onFalse.calls host fuel)
      intro store _
      exact Adds.choose _ (hexec onTrue hs.right.left) (hexec onFalse hs.right.right)
  | loop condition body =>
      rw [Stmt.within_loop] at hs
      exact Adds.repeatWhile (heval condition hs.left) (hexec body hs.right) fuel
        (Value.within_int 1000)
  | block body =>
      rw [Stmt.within_block] at hs
      exact Adds.sequence (fun s hmem => hexec s (hs s hmem)) (Value.within_int 1000)
  | define name params body =>
      rw [Stmt.within_define] at hs
      exact Adds.assign (Adds.pure hs.right) name hs.right

theorem run_adds (hwithin : host.Within (Effect.Calls admitted))
    (honly : forall handle, admitted handle -> host.OnlyAdds handle) (fuel : Nat) :
    EvalAdds host admitted fuel ∧ ExecAdds host admitted fuel := by
  induction fuel with
  | zero => exact ⟨fun _ _ => Adds.throw .outOfFuel, fun _ _ => Adds.throw .outOfFuel⟩
  | succ fuel ih =>
      exact ⟨eval_adds_succ hwithin honly ih.left ih.right, exec_adds_succ ih.left ih.right⟩

end Evaluation

/-!
## Outcomes
-/

def Outcome.of : Except (Halt H) (Value H) -> State H -> Outcome H
  | .ok value, state => .ok value state
  | .error halt, state => .error halt state

theorem Outcome.of_inj {result result' : Except (Halt H) (Value H)} {state state' : State H}
    (h : Outcome.of result state = Outcome.of result' state') :
    result = result' ∧ state = state' := by
  cases result with
  | ok value =>
      cases result' with
      | ok value' =>
          cases h
          exact ⟨rfl, rfl⟩
      | error halt' => cases h
  | error halt =>
      cases result' with
      | ok value' => cases h
      | error halt' =>
          cases h
          exact ⟨rfl, rfl⟩

theorem starved_of_iff {result : Except (Halt H) (Value H)} {state : State H} :
    Starved (Outcome.of result state) <-> result = .error .outOfFuel := by
  constructor
  · rintro ⟨last, hlast⟩
    exact (Outcome.of_inj (show Outcome.of result state = .of (.error .outOfFuel) last from
      hlast)).left
  · rintro rfl
    exact ⟨state, rfl⟩

theorem Added.exists_result {post : Value H -> Prop} {run : Run H (Value H)} {store : Store H}
    {calls : List (HostCall H)} (h : Added host admitted post run store calls) :
    exists result last, forall said,
      run ⟨store, said⟩ = Outcome.of result ⟨last, said ++ host.textsOf calls⟩ := by
  cases h with
  | @ok value last _ _ hrun => exact ⟨.ok value, last, hrun⟩
  | @error halt last _ hrun => exact ⟨.error halt, last, hrun⟩

theorem diverges_or_concludes {s : Stmt H} {store : Store H} {texts : Nat -> Array String}
    (hruns : forall fuel, exists result last, forall said,
      s.exec host fuel ⟨store, said⟩ = Outcome.of result ⟨last, said ++ texts fuel⟩) :
    (forall said, Diverges (fun fuel => s.exec host fuel) ⟨store, said⟩) ∨
      exists result last added,
        (forall said, Concludes (fun fuel => s.exec host fuel) ⟨store, said⟩
          (Outcome.of result ⟨last, said ++ added⟩)) ∧
        exists bound, forall fuel, bound ≤ fuel -> texts fuel = added := by
  by_cases hend : exists fuel, Not (Starved (s.exec host fuel (Run.initial store)))
  · rcases hend with ⟨fuel, hend⟩
    rcases hruns fuel with ⟨result, last, hrun⟩
    rw [Run.initial, hrun, starved_of_iff] at hend
    have hconcludes : forall said, Concludes (fun fuel => s.exec host fuel) ⟨store, said⟩
        (Outcome.of result ⟨last, said ++ texts fuel⟩) := by
      intro said
      rw [<- hrun]
      apply exec_concludes
      rw [hrun, starved_of_iff]
      exact hend
    refine .inr ⟨result, last, texts fuel, hconcludes, ?_⟩
    -- with more fuel the run is the same, and so are the texts
    rcases (hconcludes #[]).settles with ⟨bound, hsettled⟩
    refine ⟨bound, ?_⟩
    intro more hmore
    rcases hruns more with ⟨result', last', hrun'⟩
    have hsame := Outcome.of_inj ((hrun' #[]).symm.trans (hsettled hmore hmore))
    have hsaid := congrArg State.said hsame.right
    rwa [Array.empty_append, Array.empty_append] at hsaid
  · left
    intro said fuel
    rcases hruns fuel with ⟨result, last, hrun⟩
    have hstarved := not_not.mp (not_exists.mp hend fuel)
    rw [Run.initial, hrun, starved_of_iff] at hstarved
    show Starved (s.exec host fuel ⟨store, said⟩)
    rw [hrun, starved_of_iff]
    exact hstarved

/-!
## Saying something
-/

/-- The text in the variable from which what is said is taken, or the text of the integer in
it. -/
def Store.words (store : Store H) : List String :=
  match store.get? Capability.sayParam with
  | some (.str text) => [text]
  | some (.int n) => [toString n]
  | _ => []

def Host.IsSay (host : Host H) (handle : H) : Prop :=
  forall store said, host handle ⟨store, said⟩ =
    (.ofBool true, ⟨store, said ++ store.words.toArray⟩)

theorem Host.IsSay.texts {handle : H} (h : host.IsSay handle) (store : Store H) :
    host.texts ⟨handle, store⟩ = store.words := by
  rw [Host.texts, Run.initial, h store #[]]
  exact congrArg Array.toList (Array.empty_append)

theorem Host.IsSay.onlyAdds {handle : H} (h : host.IsSay handle) : host.OnlyAdds handle := by
  intro store said
  rw [Host.textsOf, List.flatMap_singleton, h.texts, h store said, Run.initial, h store #[]]

theorem Capability.host_isSay_say : Capability.host.IsSay .say := by
  intro store said
  show (Value.ofBool true, sayText ⟨store, said⟩) = _
  rw [sayText, Store.words]
  cases store.get? sayParam with
  | none => rfl
  | some value =>
      cases value with
      | str text => rfl
      | int n => rfl
      | function params body => rfl
      | native params handle => rfl

/-- A run from a store has one result, leaves one store and adds the same texts, whatever was
said before: with any fuel, and so whether it concludes or diverges. The texts are what the
calls of the host's functions say in their order, as far as the run gets. A function that says
something says the words of the store that it finds, which are one text or none. -/
theorem runs_add_what_calls_say {host : Host H} {admitted : H -> Prop}
    (hwithin : host.Within (Effect.Calls admitted))
    (honly : forall handle, admitted handle -> host.OnlyAdds handle)
    {s : Stmt H} (hs : s.Within (Effect.Calls admitted))
    {store : Store H} (hstore : store.Within (Effect.Calls admitted)) :
    (forall fuel, exists result last, forall said,
      s.exec host fuel ⟨store, said⟩ =
        Outcome.of result ⟨last, said ++ host.textsOf (s.calls host fuel store)⟩) ∧
    ((forall said, Diverges (fun fuel => s.exec host fuel) ⟨store, said⟩) ∨
      exists result last texts,
        (forall said, Concludes (fun fuel => s.exec host fuel) ⟨store, said⟩
          (Outcome.of result ⟨last, said ++ texts⟩)) ∧
        exists bound, forall fuel, bound ≤ fuel ->
          host.textsOf (s.calls host fuel store) = texts) ∧
    (forall handle, host.IsSay handle -> host.OnlyAdds handle ∧
      forall found, host.texts ⟨handle, found⟩ = found.words) := by
  have hruns : forall fuel, exists result last, forall said,
      s.exec host fuel ⟨store, said⟩ =
        Outcome.of result ⟨last, said ++ host.textsOf (s.calls host fuel store)⟩ :=
    fun fuel => ((run_adds hwithin honly fuel).right s hs hstore).exists_result
  exact ⟨hruns, diverges_or_concludes hruns, fun handle hsay => ⟨hsay.onlyAdds, hsay.texts⟩⟩

theorem nested_calls_add_in_order :
    let say : List (Expr Capability) -> Expr Capability := .call (.var Capability.sayName)
    let s : Stmt Capability := .block
      [.expr (say [say [.literal (.str "ا")]]), .expr (say []),
        .expr (.call (.literal (.int 7)) [])]
    Capability.host.IsSay .say ∧
    (s.calls Capability.host 6 Store.withSay).map (fun call => call.store.words) =
      [["ا"], ["1"], ["1"]] ∧
    exists last, forall said,
      Concludes (fun fuel => s.exec Capability.host fuel) ⟨Store.withSay, said⟩
        (.error (.error (.notCallable (.int 7))) ⟨last, said ++ #["ا", "1", "1"]⟩) := by
  intro say s
  let admitted : Capability -> Prop := fun handle => handle = .say
  have hsay : Capability.sayFunction.Within (Effect.Calls admitted) :=
    Value.within_native.mpr ⟨fun _ _ => trivial, rfl⟩
  have hs : s.Within (Effect.Calls admitted) := by
    simp [s, say]
  have honly : forall handle, admitted handle -> Capability.host.OnlyAdds handle := by
    intro handle hhandle
    rw [show handle = .say from hhandle]
    exact Capability.host_isSay_say.onlyAdds
  have hstore : Store.withSay.Within (Effect.Calls admitted) :=
    Store.All.assign Store.all_empty Capability.sayName hsay
  refine ⟨Capability.host_isSay_say, ?_⟩
  rcases (runs_add_what_calls_say (Capability.host_within_say _) honly hs hstore).right.left with
    hdiverges | ⟨result, last, texts, hconcludes, _⟩
  · rcases hdiverges #[] 6 with ⟨state, hstate⟩
    cases hstate
  · have hend : Not (Starved (s.exec Capability.host 6 ⟨Store.withSay, #[]⟩)) := by
      rintro ⟨state, hstate⟩
      cases hstate
    have hsame := (hconcludes #[]).unique (exec_concludes hend)
    have hrun : exists final, s.exec Capability.host 6 ⟨Store.withSay, #[]⟩ =
        Outcome.of (.error (.error (.notCallable (.int 7)))) final ∧
          final.said = #["ا", "1", "1"] :=
      ⟨_, rfl, by decide +kernel⟩
    rcases hrun with ⟨final, hrun, hsaid⟩
    rcases Outcome.of_inj (hsame.trans hrun) with ⟨rfl, rfl⟩
    have htexts : texts = #["ا", "1", "1"] := Array.empty_append.symm.trans hsaid
    rw [htexts] at hconcludes
    exact ⟨by decide +kernel, last, hconcludes⟩

inductive Lender where
  | give
  | count

def Host.lender : Host Lender
  | .give, state => (.native [] .count, state)
  | .count, state => (.int state.said.size, state)

/-- The store has no function but the one that only adds, and yet the run counts what was
said. -/
theorem runs_count_through_lent_function :
    let tree : Stmt Lender := .block
      [.expr (.assign "ه" (.call (.var "ن") [])), .expr (.call (.var "ه") [])]
    let store : Store Lender := Store.empty.assign "ن" (.native [] .give)
    store.All (fun value => value = .native [] .give) ∧ Host.lender.OnlyAdds .give ∧
      (exists last, tree.exec .lender 5 ⟨store, #[]⟩ = .ok (.int 0) last) ∧
      (exists last, tree.exec .lender 5 ⟨store, #["ا"]⟩ = .ok (.int 1) last) ∧
      Not ((forall said, Diverges (fun fuel => tree.exec .lender fuel) ⟨store, said⟩) ∨
        exists result last texts, forall said,
          Concludes (fun fuel => tree.exec .lender fuel) ⟨store, said⟩
            (Outcome.of result ⟨last, said ++ texts⟩)) := by
  intro tree store
  have hstore : store.All (fun value => value = .native [] .give) :=
    Store.All.assign Store.all_empty "ن" rfl
  have honly : Host.lender.OnlyAdds .give := fun _ _ => rfl
  have hnone : exists last, tree.exec .lender 5 ⟨store, #[]⟩ = .ok (.int 0) last := ⟨_, rfl⟩
  have hsome : exists last, tree.exec .lender 5 ⟨store, #["ا"]⟩ = .ok (.int 1) last :=
    ⟨_, rfl⟩
  refine ⟨hstore, honly, hnone, hsome, ?_⟩
  have hconcludes : forall said n, (exists last,
      tree.exec .lender 5 ⟨store, said⟩ = .ok (.int n) last) -> exists last,
      Concludes (fun fuel => tree.exec .lender fuel) ⟨store, said⟩
        (Outcome.of (.ok (.int n)) last) := by
    rintro said n ⟨last, hrun⟩
    refine ⟨last, ?_⟩
    rw [Outcome.of, <- hrun]
    apply exec_concludes
    rw [hrun]
    exact not_starved_ok
  rcases hconcludes #[] 0 hnone with ⟨_, hnone⟩
  rcases hconcludes #["ا"] 1 hsome with ⟨_, hsome⟩
  rintro (hdiverges | ⟨result, last, texts, hresult⟩)
  · exact hnone.not_diverges (hdiverges #[])
  · have hzero := (Outcome.of_inj ((hresult #[]).unique hnone)).left
    have hone := (Outcome.of_inj ((hresult #["ا"]).unique hsome)).left
    rw [hzero] at hone
    cases hone

end Lisan
