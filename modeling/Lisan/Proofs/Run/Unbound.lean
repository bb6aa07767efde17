import Lisan.Proofs.Run.Lockstep

/-!
# Variables without a value

A variable without a value behaves as one with the default value. Programs cannot tell,
whatever they do, unless it is the variable that forces branches: that one is false
without a value and true with the default one.
-/

namespace Lisan

variable {H : Type} {name : String}

/-!
## Filled states
-/

/-- The state in which the name has a value: the default one, if it has no other. -/
def State.fill (name : String) (state : State H) : State H :=
  if state.store.contains name then state else state.assign name .default

def Outcome.fill (name : String) : Outcome H -> Outcome H
  | .ok value state => .ok value (state.fill name)
  | .error halt state => .error halt (state.fill name)

namespace State

theorem ext_table {state state' : State H}
    (htable : forall key : String, state.store.table[key]? = state'.store.table[key]?)
    (hsaid : state.said = state'.said) : state = state' := by
  rcases state with ⟨⟨table⟩, said⟩
  rcases state' with ⟨⟨table'⟩, said'⟩
  have heq : table = table' := Std.ExtTreeMap.ext_getElem? fun {key} => htable key
  rw [heq, show said = said' from hsaid]

theorem fill_of_unbound {state : State H} (h : state.store.get? name = none) :
    state.fill name = state.assign name .default := by
  rw [fill, Store.contains_eq_isSome_get?, h, Option.isSome_none, if_neg Bool.false_ne_true]

theorem fill_of_bound {state : State H} {value : Value H}
    (h : state.store.get? name = some value) : state.fill name = state := by
  rw [fill, Store.contains_eq_isSome_get?, h, Option.isSome_some, if_pos rfl]

theorem said_fill (name : String) (state : State H) : (state.fill name).said = state.said := by
  rw [fill]
  split <;> rfl

theorem table_fill (state : State H) (key : String) :
    (state.fill name).store.table[key]? =
      if Script.normalize name = key then some (state.store.get name)
      else state.store.table[key]? := by
  cases hvalue : state.store.get? name with
  | none => rw [fill_of_unbound hvalue, table_assign, Store.get, hvalue, Option.getD_none]
  | some value =>
      rw [fill_of_bound hvalue, Store.get, hvalue, Option.getD_some]
      split
      · rename_i hkey
        rw [<- hkey]
        exact hvalue
      · rfl

theorem get?_fill (state : State H) (other : String) :
    (state.fill name).store.get? other =
      if Script.normalize name = Script.normalize other then some (state.store.get name)
      else state.store.get? other :=
  table_fill state (Script.normalize other)

theorem get_fill (name : String) (state : State H) (other : String) :
    (state.fill name).store.get other = state.store.get other := by
  rw [Store.get, get?_fill]
  split
  · rename_i hname
    rw [Option.getD_some, Store.get, Store.get, <- Store.get?_normalize, hname,
      Store.get?_normalize]
  · rfl

theorem overrideActive_fill (hname : Script.normalize name ≠ Script.normalize Store.overrideFlag)
    (state : State H) : (state.fill name).store.overrideActive = state.store.overrideActive := by
  rw [Store.overrideActive_eq, get?_fill, if_neg hname, Store.overrideActive_eq]

theorem get_assign (state : State H) (other : String) (v : Value H) :
    (state.assign other v).store.get name =
      if Script.normalize other = Script.normalize name then v else state.store.get name := by
  rw [Store.get, State.assign, Store.get?_assign]
  split
  · rfl
  · rfl

theorem fill_assign (state : State H) (other : String) (v : Value H) :
    (state.assign other v).fill name = (state.fill name).assign other v := by
  apply ext_table
  · intro key
    rw [table_fill, table_assign, table_assign, table_fill, get_assign]
    by_cases hsame : Script.normalize other = Script.normalize name
    · rw [if_pos hsame, hsame]
      split
      · rfl
      · rfl
    · rw [if_neg hsame]
      by_cases hkey : Script.normalize name = key
      · rw [if_pos hkey, if_pos hkey, if_neg fun hother => hsame (hother.trans hkey.symm)]
      · rw [if_neg hkey, if_neg hkey]
  · rw [said_fill, State.assign, State.assign, said_fill]

theorem fill_assign_default (state : State H) (h : state.store.get? name = none) :
    (state.assign name .default).fill name = state.fill name := by
  rw [fill_assign, fill_of_unbound h]
  apply ext_table
  · intro key
    rw [table_assign, table_assign]
    split
    · rfl
    · rfl
  · rfl

theorem eq_or_eq_of_fill_eq {state state' : State H} (h : state.fill name = state'.fill name) :
    state = state' ∨
      (state.store.get? name = none ∧ state' = state.assign name .default) ∨
      (state'.store.get? name = none ∧ state = state'.assign name .default) := by
  cases hvalue : state.store.get? name with
  | some value =>
      rw [fill_of_bound hvalue] at h
      cases hvalue' : state'.store.get? name with
      | some value' =>
          rw [fill_of_bound hvalue'] at h
          exact .inl h
      | none =>
          rw [fill_of_unbound hvalue'] at h
          exact .inr (.inr ⟨rfl, h⟩)
  | none =>
      cases hvalue' : state'.store.get? name with
      | some value' =>
          rw [fill_of_unbound hvalue, fill_of_bound hvalue'] at h
          exact .inr (.inl ⟨rfl, h.symm⟩)
      | none =>
          -- both are filled in the same place, and differ in no other
          left
          apply ext_table
          · intro key
            have hkey := congrArg (fun filled : State H => filled.store.table[key]?) h
            simp only [table_fill] at hkey
            by_cases hname : Script.normalize name = key
            · rw [<- hname]
              exact hvalue.trans hvalue'.symm
            · rw [if_neg hname, if_neg hname] at hkey
              exact hkey
          · rw [<- said_fill name state, h, said_fill]

end State

/-!
## Runs
-/

/-- The function of the host does alike whether the name has no value or the default one,
but for the value of the name itself. -/
def Host.BlindTo (host : Host H) (name : String) (handle : H) : Prop :=
  forall state : State H, state.store.get? name = none ->
    (host handle state).1 = (host handle (state.assign name .default)).1 ∧
      (host handle state).2.fill name = (host handle (state.assign name .default)).2.fill name

/-- All effects but calling functions of the host that are not admitted. -/
def Effect.Calls (admitted : H -> Prop) : Effect H -> Prop :=
  Effect.Among (fun _ => True) admitted

theorem Host.BlindTo.alike {host : Host H} {handle : H} (h : host.BlindTo name handle)
    {state state' : State H} (hfill : state.fill name = state'.fill name) :
    (host handle state).1 = (host handle state').1 ∧
      (host handle state).2.fill name = (host handle state').2.fill name := by
  rcases State.eq_or_eq_of_fill_eq hfill with rfl | ⟨hunbound, rfl⟩ | ⟨hunbound, rfl⟩
  · exact ⟨rfl, rfl⟩
  · exact h state hunbound
  · exact ⟨(h state' hunbound).left.symm, (h state' hunbound).right.symm⟩

theorem fill_link_holds {host : Host H} {admitted : H -> Prop}
    (hname : Script.normalize name ≠ Script.normalize Store.overrideFlag)
    (hwithin : host.Within (Effect.Calls admitted))
    (hblind : forall handle, admitted handle -> host.BlindTo name handle) :
    (Link.same (Effect.Calls admitted) fun state state' =>
      state.fill name = state'.fill name).Holds host := by
  apply Link.same_holds
  · intro state state' hfill other
    rw [<- State.get_fill name, hfill, State.get_fill]
  · intro state state' hfill
    rw [<- State.overrideActive_fill hname, hfill, State.overrideActive_fill hname]
  · intro state state' hfill other _ v
    rw [State.fill_assign, hfill, State.fill_assign]
  · exact hwithin
  · intro handle hhandle state state' hfill _
    exact (hblind handle hhandle).alike hfill

theorem Outcome.fill_eq_of_paired {allowed : Effect H -> Prop} {outcome outcome' : Outcome H}
    (h : Outcome.Paired (fun v v' => v = v' ∧ v.Within allowed)
      (fun state state' => state.fill name = state'.fill name ∧ state.Within allowed)
      outcome outcome') :
    Outcome.fill name outcome = Outcome.fill name outcome' := by
  cases h with
  | ok hv hstate => rw [fill, fill, hv.left, hstate.left]
  | error hhalt hstate =>
      have heq := Halt.eq_of_paired (hhalt.coarsen fun _ _ h => h.left)
      rw [fill, fill, heq, hstate.left]

theorem Capability.host_blindTo_say (hname : Script.normalize name ≠ Script.normalize sayParam) :
    Capability.host.BlindTo name .say := by
  intro state hunbound
  have hparam : (state.assign name .default).store.get? sayParam = state.store.get? sayParam := by
    rw [State.assign, Store.get?_assign, if_neg hname]
  have hlast : (sayText state).fill name = (sayText (state.assign name .default)).fill name := by
    rw [sayText, sayText, hparam]
    cases (state.store.get? sayParam).bind Value.text? with
    | none => exact (State.fill_assign_default state hunbound).symm
    | some text =>
        exact (State.fill_assign_default { state with said := state.said.push text }
          hunbound).symm
  exact ⟨rfl, hlast⟩

/-- A run from a state in which a name has no value, and the run from the state with the
default value in its place, both diverge or both conclude, with the same value, error or
panic, with the same said, and in states that are the same once they are filled. What the
host may do has to be alike too; saying something is, for all names but that of what is
said. -/
theorem unbound_runs_as_default :
    (forall {H : Type} {host : Host H} {admitted : H -> Prop} {name : String} {s : Stmt H}
        {state : State H},
      Script.normalize name ≠ Script.normalize Store.overrideFlag ->
      state.store.get? name = none ->
      s.Within (Effect.Calls admitted) -> state.Within (Effect.Calls admitted) ->
      host.Within (Effect.Calls admitted) ->
      (forall handle, admitted handle -> host.BlindTo name handle) ->
      Agree (fun outcome outcome' => Outcome.fill name outcome = Outcome.fill name outcome')
        (fun fuel => s.exec host fuel) (fun fuel => s.exec host fuel)
        state (state.assign name .default)) ∧
    forall name, Script.normalize name ≠ Script.normalize Capability.sayParam ->
      Capability.host.BlindTo name .say := by
  constructor
  · intro H host admitted name s state hname hunbound hs hstate hwithin hblind
    have hlink := fill_link_holds hname hwithin hblind
    have hfill := (State.fill_assign_default state hunbound).symm
    have hagree := agree_of_inStep hlink ⟨rfl, hs⟩ ⟨hfill, hstate⟩
    exact hagree.imp fun _ _ => Outcome.fill_eq_of_paired
  · intro name hname
    exact Capability.host_blindTo_say hname

theorem unbound_sum_runs_as_default :
    let sum : Expr Capability := .binary (.var "ي") ⟨.plus, .start⟩ (.literal (.int 1))
    let s : Stmt Capability := .expr (.call (.literal Capability.sayFunction) [sum])
    let state : State Capability := Run.initial Store.empty
    (exists last, s.exec Capability.host 5 state = .ok (.int 1) last ∧
      last.said = #["1001"] ∧ last.store.get? "ى" = none) ∧
    Agree (fun outcome outcome' => Outcome.fill "ى" outcome = Outcome.fill "ى" outcome')
      (fun fuel => s.exec Capability.host fuel) (fun fuel => s.exec Capability.host fuel)
      state (state.assign "ى" .default) := by
  intro sum s state
  let calls : Effect Capability -> Prop := Effect.Calls fun handle => handle = .say
  have hsay : Capability.sayFunction.Within calls :=
    Value.within_native.mpr ⟨fun _ _ => trivial, rfl⟩
  have hs : s.Within calls := by
    simpa [s, sum] using hsay
  have hblind : forall handle, handle = Capability.say ->
      Capability.host.BlindTo "ى" handle := by
    intro handle hhandle
    rw [hhandle]
    exact unbound_runs_as_default.right "ى" (by decide)
  constructor
  · exact ⟨_, rfl, by decide +kernel, rfl⟩
  · exact unbound_runs_as_default.left (by decide) rfl hs (State.within_empty #[])
      (Capability.host_within_say _) hblind

end Lisan
