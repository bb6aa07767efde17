import Lisan.Proofs.Run.Lockstep

/-!
# Forced branches

While the variable is true that forces every branch to its first side, second sides are
never run. Nobody can tell then whether they have been swapped for others, here or in the
bodies of functions, as long as nobody writes that variable.
-/

namespace Lisan

variable {H : Type}

/-!
## Trees with other second sides
-/

mutual

/-- Values that are the same but for second sides of branches, which have been swapped. -/
inductive Value.Swapped (swap : Stmt H -> Stmt H -> Prop) : Value H -> Value H -> Prop where
  | str (text : String) : Value.Swapped swap (.str text) (.str text)
  | int (n : Int) : Value.Swapped swap (.int n) (.int n)
  | function (params : List String) {body body' : Stmt H} :
      Stmt.Swapped swap body body' ->
      Value.Swapped swap (.function params body) (.function params body')
  | native (params : List String) (handle : H) :
      Value.Swapped swap (.native params handle) (.native params handle)

inductive Expr.Swapped (swap : Stmt H -> Stmt H -> Prop) : Expr H -> Expr H -> Prop where
  | assign (target : String) {value value' : Expr H} :
      Expr.Swapped swap value value' ->
      Expr.Swapped swap (.assign target value) (.assign target value')
  | var (name : String) : Expr.Swapped swap (.var name) (.var name)
  | binary {left right left' right' : Expr H} (operator : Token) :
      Expr.Swapped swap left left' -> Expr.Swapped swap right right' ->
      Expr.Swapped swap (.binary left operator right) (.binary left' operator right')
  | unary {operand operand' : Expr H} (operator : Token) :
      Expr.Swapped swap operand operand' ->
      Expr.Swapped swap (.unary operator operand) (.unary operator operand')
  | call {callee callee' : Expr H} {args args' : List (Expr H)} :
      Expr.Swapped swap callee callee' -> List.Forall₂ (Expr.Swapped swap) args args' ->
      Expr.Swapped swap (.call callee args) (.call callee' args')
  | literal {value value' : Value H} :
      Value.Swapped swap value value' -> Expr.Swapped swap (.literal value) (.literal value')
  | group {inner inner' : Expr H} :
      Expr.Swapped swap inner inner' -> Expr.Swapped swap (.group inner) (.group inner')

inductive Stmt.Swapped (swap : Stmt H -> Stmt H -> Prop) : Stmt H -> Stmt H -> Prop where
  | branch {condition condition' : Expr H} {onTrue onFalse onTrue' onFalse' : Stmt H} :
      Expr.Swapped swap condition condition' -> Stmt.Swapped swap onTrue onTrue' ->
      swap onFalse onFalse' ->
      Stmt.Swapped swap (.branch condition onTrue onFalse) (.branch condition' onTrue' onFalse')
  | loop {condition condition' : Expr H} {body body' : Stmt H} :
      Expr.Swapped swap condition condition' -> Stmt.Swapped swap body body' ->
      Stmt.Swapped swap (.loop condition body) (.loop condition' body')
  | expr {value value' : Expr H} :
      Expr.Swapped swap value value' -> Stmt.Swapped swap (.expr value) (.expr value')
  | block {body body' : List (Stmt H)} :
      List.Forall₂ (Stmt.Swapped swap) body body' ->
      Stmt.Swapped swap (.block body) (.block body')
  | define (name : String) (params : List String) {body body' : Stmt H} :
      Stmt.Swapped swap body body' ->
      Stmt.Swapped swap (.define name params body) (.define name params body')

end

structure State.Swapped (swap : Stmt H -> Stmt H -> Prop) (state state' : State H) : Prop where
  values : forall key : String, Option.Rel (Value.Swapped swap)
    state.store.table[key]? state'.store.table[key]?
  said : state.said = state'.said

variable {swap : Stmt H -> Stmt H -> Prop}

theorem Value.Swapped.truthy_eq {v v' : Value H} (h : v.Swapped swap v') :
    v.truthy = v'.truthy := by
  cases h <;> rfl

theorem Value.Swapped.text?_eq {v v' : Value H} (h : v.Swapped swap v') :
    v.text? = v'.text? := by
  cases h <;> rfl

section Found

variable {found found' : Option (Value H)} (h : Option.Rel (Value.Swapped swap) found found')

include h

theorem Value.Swapped.getD_default :
    (found.getD .default).Swapped swap (found'.getD .default) := by
  cases h with
  | none => exact .int 1000
  | some hvalue => exact hvalue

theorem Value.Swapped.any_truthy_eq : found.any Value.truthy = found'.any Value.truthy := by
  cases h with
  | none => rfl
  | some hvalue => exact hvalue.truthy_eq

theorem Value.Swapped.bind_text?_eq : found.bind Value.text? = found'.bind Value.text? := by
  cases h with
  | none => rfl
  | some hvalue => exact hvalue.text?_eq

end Found

namespace State.Swapped

variable {state state' : State H}

theorem get? (h : state.Swapped swap state') (name : String) :
    Option.Rel (Value.Swapped swap) (state.store.get? name) (state'.store.get? name) :=
  h.values (Script.normalize name)

theorem get (h : state.Swapped swap state') (name : String) :
    (state.store.get name).Swapped swap (state'.store.get name) :=
  Value.Swapped.getD_default (h.get? name)

theorem overrideActive_eq (h : state.Swapped swap state') :
    state.store.overrideActive = state'.store.overrideActive := by
  rw [Store.overrideActive_eq, Store.overrideActive_eq]
  exact Value.Swapped.any_truthy_eq (h.get? Store.overrideFlag)

theorem assign (h : state.Swapped swap state') (name : String) {v v' : Value H}
    (hv : v.Swapped swap v') : (state.assign name v).Swapped swap (state'.assign name v') := by
  constructor
  · intro key
    rw [State.table_assign, State.table_assign]
    split
    · exact .some hv
    · exact h.values key
  · exact h.said

end State.Swapped

/-!
## Who spares the variable
-/

/-- All effects but writing the variable that forces branches, and calling functions of the
host that are not admitted. -/
def Effect.Spares (admitted : H -> Prop) : Effect H -> Prop :=
  Effect.Among (fun name => name ≠ Script.normalize Store.overrideFlag) admitted

def Host.SparesFlag (host : Host H) (admitted : H -> Prop) : Prop :=
  forall ⦃handle : H⦄, admitted handle -> forall state : State H,
    (host handle state).2.store.get? Store.overrideFlag = state.store.get? Store.overrideFlag

/-- The admitted functions of the host do the same but for second sides of branches. -/
def Host.Commutes (host : Host H) (swap : Stmt H -> Stmt H -> Prop) (admitted : H -> Prop) :
    Prop :=
  forall ⦃handle : H⦄, admitted handle -> forall ⦃state state' : State H⦄,
    state.Swapped swap state' ->
    (host handle state).1.Swapped swap (host handle state').1 ∧
      (host handle state).2.Swapped swap (host handle state').2

variable {admitted : H -> Prop}

theorem Store.overrideActive_of_get?_eq {store store' : Store H}
    (h : store'.get? overrideFlag = store.get? overrideFlag) :
    store'.overrideActive = store.overrideActive := by
  rw [overrideActive_eq, h, overrideActive_eq]

theorem State.overrideActive_assign {state : State H} {name : String}
    (hname : Script.normalize name ≠ Script.normalize Store.overrideFlag) (v : Value H) :
    (state.assign name v).store.overrideActive = state.store.overrideActive := by
  apply Store.overrideActive_of_get?_eq
  rw [State.assign, Store.get?_assign, if_neg hname]

/-!
## The link
-/

def Link.swapped (swap : Stmt H -> Stmt H -> Prop) (admitted : H -> Prop) : Link H where
  value v v' := v.Within (Effect.Spares admitted) ∧ v.Swapped swap v'
  expr e e' := e.Within (Effect.Spares admitted) ∧ e.Swapped swap e'
  stmt s s' := s.Within (Effect.Spares admitted) ∧ s.Swapped swap s'
  state state state' := state.Within (Effect.Spares admitted) ∧
    state.store.overrideActive = true ∧ state.Swapped swap state'
  allowed := Effect.Spares admitted
  forced := True

theorem Value.Swapped.linked {v v' : Value H} (h : v.Swapped swap v')
    (hv : v.Within (Effect.Spares admitted)) : v.Linked (.swapped swap admitted) v' := by
  cases h with
  | str text => exact .str text
  | int n => exact .int n
  | function params hbody =>
      rw [Value.within_function] at hv
      exact .function hv.left ⟨hv.right, hbody⟩
  | native params handle =>
      rw [Value.within_native] at hv
      exact .native hv.left hv.right

theorem Expr.Swapped.linked {e e' : Expr H} (h : e.Swapped swap e')
    (he : e.Within (Effect.Spares admitted)) : e.Linked (.swapped swap admitted) e' := by
  cases h with
  | assign target hvalue =>
      rw [Expr.within_assign] at he
      exact .assign he.left ⟨he.right, hvalue⟩
  | var name => exact .var name
  | binary operator hleft hright =>
      rw [Expr.within_binary] at he
      exact .binary operator ⟨he.left, hleft⟩ ⟨he.right, hright⟩
  | unary operator hoperand => exact .unary operator ⟨he, hoperand⟩
  | call hcallee hargs =>
      rw [Expr.within_call] at he
      exact .call ⟨he.left, hcallee⟩ ((List.forall₂_and_left _ _).mpr ⟨he.right, hargs⟩)
  | literal hvalue => exact .literal ⟨he, hvalue⟩
  | group hinner => exact .group ⟨he, hinner⟩

theorem Stmt.Swapped.linked {s s' : Stmt H} (h : s.Swapped swap s')
    (hs : s.Within (Effect.Spares admitted)) : s.Linked (.swapped swap admitted) s' := by
  cases h with
  | branch hcondition honTrue _ =>
      rw [Stmt.within_branch] at hs
      exact .branch ⟨hs.left, hcondition⟩ ⟨hs.right.left, honTrue⟩ fun h => absurd trivial h
  | loop hcondition hbody =>
      rw [Stmt.within_loop] at hs
      exact .loop ⟨hs.left, hcondition⟩ ⟨hs.right, hbody⟩
  | expr hvalue => exact .expr ⟨hs, hvalue⟩
  | block hbody =>
      rw [Stmt.within_block] at hs
      exact .block ((List.forall₂_and_left _ _).mpr ⟨hs, hbody⟩)
  | define name params hbody =>
      rw [Stmt.within_define] at hs
      exact .define hs.left ⟨hs.right, .function params hbody⟩

theorem Link.swapped_holds {host : Host H} (hwithin : host.Within (Effect.Spares admitted))
    (hflag : host.SparesFlag admitted) (hswap : host.Commutes swap admitted) :
    (Link.swapped swap admitted).Holds host where
  str text := ⟨Value.within_str text, .str text⟩
  int n := ⟨Value.within_int n, .int n⟩
  value _ _ h := h.right.linked h.left
  expr _ _ h := h.right.linked h.left
  stmt _ _ h := h.right.linked h.left
  get _ _ hstate name := ⟨hstate.left.get name, hstate.right.right.get name⟩
  overrideActive _ _ hstate := hstate.right.right.overrideActive_eq
  forced _ _ _ hstate := hstate.right.left
  assign := by
    intro state state' h name hname v v' hv
    rcases h with ⟨hstate, hactive, hswapped⟩
    have hraised : (state.assign name v).store.overrideActive = state.store.overrideActive :=
      State.overrideActive_assign hname v
    exact ⟨hstate.assign name hv.left, hraised.trans hactive, hswapped.assign name hv.right⟩
  callHost := by
    intro state state' h handle hhandle
    rcases h with ⟨hstate, hactive, hswapped⟩
    rcases hwithin hhandle hstate with ⟨hv, hlast⟩
    rcases hswap hhandle hswapped with ⟨hvalue, hstates⟩
    have hraised := Store.overrideActive_of_get?_eq (hflag hhandle state)
    exact ⟨⟨hv, hvalue⟩, hlast, hraised.trans hactive, hstates⟩

/-- From a state in which every branch is forced to its first side, second sides can be
swapped for whatever others, in the statement and in all stored functions: both runs
diverge, or both conclude, with the same value or the same error and in the same state, but
for second sides in functions, which are swapped there too. -/
theorem forced_runs_agree {host : Host H} (hwithin : host.Within (Effect.Spares admitted))
    (hflag : host.SparesFlag admitted) (hswap : host.Commutes swap admitted)
    {s s' : Stmt H} (hs : s.Within (Effect.Spares admitted)) (hswapped : s.Swapped swap s')
    {state state' : State H} (hstate : state.Within (Effect.Spares admitted))
    (hactive : state.store.overrideActive = true) (hstates : state.Swapped swap state') :
    Agree (Outcome.Paired (Value.Swapped swap) (State.Swapped swap))
      (fun fuel => s.exec host fuel) (fun fuel => s'.exec host fuel) state state' := by
  have hlink := Link.swapped_holds hwithin hflag hswap
  have hagree := agree_of_inStep hlink ⟨hs, hswapped⟩ ⟨hstate, hactive, hstates⟩
  apply hagree.imp
  intro outcome outcome' hpaired
  exact hpaired.coarsen (fun _ _ h => h.right) fun _ _ h => h.right.right

theorem Capability.host_commutes_say (swap : Stmt Capability -> Stmt Capability -> Prop) :
    Capability.host.Commutes swap fun handle => handle = .say := by
  intro handle hhandle state state' hstate
  cases hhandle
  have hlast : (sayText state).Swapped swap (sayText state') := by
    rw [sayText, sayText, Value.Swapped.bind_text?_eq (hstate.get? sayParam)]
    cases (state'.store.get? sayParam).bind Value.text? with
    | none => exact hstate
    | some text => exact ⟨hstate.values, congrArg (fun said => said.push text) hstate.said⟩
  exact ⟨.int 1, hlast⟩

theorem Capability.host_sparesFlag_say :
    Capability.host.SparesFlag fun handle => handle = .say := by
  intro handle hhandle state
  cases hhandle
  show (sayText state).store.get? Store.overrideFlag = _
  rw [store_sayText]

theorem forced_say_agrees :
    let dead : Stmt Capability := .loop (.literal (.int 1)) (.block [])
    let empty : Stmt Capability := .block []
    let tell : Stmt Capability := .expr (.call (.literal Capability.sayFunction) [.var "ى"])
    let body (second : Stmt Capability) := Stmt.branch (.literal (.int 0)) tell second
    let s (second : Stmt Capability) :=
      Stmt.branch (.literal (.str "")) (.expr (.call (.var "غ") [.literal (.int 5)])) second
    let raised : State Capability := ⟨Store.empty.assign Store.overrideFlag (.int 1), #[]⟩
    let state (second : Stmt Capability) := raised.assign "غ" (.function ["ى"] (body second))
    let swap (second second' : Stmt Capability) := second = dead ∧ second' = empty
    (exists last, (s dead).exec Capability.host 9 (state dead) = .ok (.int 1) last ∧
      last.said = #["5"]) ∧
    Agree (Outcome.Paired (Value.Swapped swap) (State.Swapped swap))
      (fun fuel => (s dead).exec Capability.host fuel)
      (fun fuel => (s empty).exec Capability.host fuel) (state dead) (state empty) := by
  intro dead empty tell body s raised state swap
  let spares : Effect Capability -> Prop := Effect.Spares fun handle => handle = .say
  have htell : tell.Within spares := by
    have hsay : Capability.sayFunction.Within spares :=
      Value.within_native.mpr ⟨Effect.params_among.mpr (by decide), rfl⟩
    simpa [tell] using hsay
  have hdead : dead.Within spares := by simp [dead]
  have hbody : (body dead).Within spares :=
    Stmt.within_branch.mpr ⟨Value.within_int 0, htell, hdead⟩
  have hstored : (Value.function ["ى"] (body dead)).Within spares :=
    Value.within_function.mpr ⟨Effect.params_among.mpr (by decide), hbody⟩
  have hs : (s dead).Within spares := by simp [s, hdead]
  have hraised : raised.Within spares :=
    (State.within_empty #[]).assign Store.overrideFlag (Value.within_int 1)
  have hswapped : raised.Swapped swap raised := by
    have hempty : State.Swapped swap ⟨Store.empty, #[]⟩ ⟨Store.empty, #[]⟩ := by
      constructor
      · intro key
        simp only [Store.empty, Std.ExtTreeMap.getElem?_empty]
        exact .none
      · rfl
    exact hempty.assign Store.overrideFlag (.int 1)
  have htold : tell.Swapped swap tell :=
    .expr (.call (.literal (.native _ _)) (.cons (.var "ى") .nil))
  have hbodies : (body dead).Swapped swap (body empty) :=
    .branch (.literal (.int 0)) htold ⟨rfl, rfl⟩
  have hcalls : (s dead).Swapped swap (s empty) :=
    .branch (.literal (.str "")) (.expr (.call (.var "غ") (.cons (.literal (.int 5)) .nil)))
      ⟨rfl, rfl⟩
  have hwithin : Capability.host.Within spares := Capability.host_within_say _
  constructor
  · exact ⟨_, rfl, rfl⟩
  · exact forced_runs_agree hwithin Capability.host_sparesFlag_say
      (Capability.host_commutes_say swap) hs hcalls (hraised.assign "غ" hstored) rfl
      (hswapped.assign "غ" (.function ["ى"] hbodies))

end Lisan
