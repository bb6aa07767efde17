import Lisan.Proofs.Run.Lockstep

/-!
# What runs write

A run writes no variables but those that the statement names, those that the functions
in its reach name, and those that the host writes by itself, and it takes the value of
none away. What is in reach does not grow: all that a run stores, and all that it calls,
was in its reach from the start.
-/

namespace Lisan

variable {H : Type}

/-!
## Frames
-/

/-- Variables that may not be written have the values that they had, and no variable has
lost its value. -/
structure Frame (may : Effect H -> Prop) (before after : State H) : Prop where
  get? : forall name, Not (may (.ofName name)) ->
    after.store.get? name = before.store.get? name
  contains : forall name, before.store.contains name = true ->
    after.store.contains name = true

/-- The functions of the host that may be called write nothing but their own. -/
def Host.Frames (host : Host H) (own allowed : Effect H -> Prop) : Prop :=
  forall ⦃handle : H⦄, allowed (.call handle) -> forall ⦃state : State H⦄,
    state.Within allowed -> Frame own state (host handle state).2

namespace Frame

variable {may : Effect H -> Prop} {state middle state' : State H}

theorem refl : Frame may state state :=
  ⟨fun _ _ => rfl, fun _ hname => hname⟩

theorem trans (h : Frame may state middle) (h' : Frame may middle state') :
    Frame may state state' where
  get? name hname := (h'.get? name hname).trans (h.get? name hname)
  contains name hname := h'.contains name (h.contains name hname)

theorem mono {own : Effect H -> Prop} (himp : forall effect, own effect -> may effect)
    (h : Frame own state state') : Frame may state state' where
  get? name hname := h.get? name fun hown => hname (himp _ hown)
  contains := h.contains

theorem assign {name : String} (hname : may (.ofName name)) (value : Value H) :
    Frame may state (state.assign name value) where
  get? other hother := by
    have hne : Script.normalize name ≠ Script.normalize other := by
      intro heq
      rw [Effect.ofName, heq] at hname
      exact hother hname
    rw [State.assign, Store.get?_assign, if_neg hne]
  contains other hother := by
    rw [Store.contains_eq_isSome_get?] at hother ⊢
    rw [State.assign, Store.get?_assign]
    split
    · rfl
    · exact hother

end Frame

/-!
## What is in reach
-/

/-- The effects of the statement, those of the values of the state, and what the host
does of its own: the variables that it writes, and the functions that it hands out. -/
inductive Footprint (s : Stmt H) (state : State H) (own : Effect H -> Prop) :
    Effect H -> Prop where
  | stmt {effect : Effect H} : effect ∈ s.effects -> Footprint s state own effect
  | stored {key : String} {value : Value H} {effect : Effect H} :
      state.store.table[key]? = some value -> effect ∈ value.effects ->
      Footprint s state own effect
  | own {effect : Effect H} : own effect -> Footprint s state own effect

namespace Footprint

variable {s : Stmt H} {state : State H} {own allowed : Effect H -> Prop}

theorem stmt_within : s.Within (Footprint s state own) :=
  fun _ heffect => .stmt heffect

theorem state_within : state.Within (Footprint s state own) :=
  fun _ _ hvalue _ heffect => .stored hvalue heffect

theorem allowed_of (hs : s.Within allowed) (hstate : state.Within allowed)
    (hown : forall effect, own effect -> allowed effect) {effect : Effect H}
    (h : Footprint s state own effect) : allowed effect := by
  cases h with
  | stmt heffect => exact hs effect heffect
  | stored hvalue heffect => exact hstate hvalue effect heffect
  | own heffect => exact hown effect heffect

end Footprint

/-!
## Runs
-/

section Runs

variable {host : Host H} {own allowed : Effect H -> Prop}

theorem frame_link_holds (hown : forall effect, own effect -> allowed effect)
    (hwithin : host.Within allowed) (hframes : host.Frames own allowed) (start : State H) :
    (Link.same allowed fun state state' => state = state' ∧ Frame allowed start state).Holds
      host := by
  apply Link.same_holds
  · intro state state' hrelated name
    rw [hrelated.left]
  · intro state state' hrelated
    rw [hrelated.left]
  · intro state state' hrelated name hname v
    rcases hrelated with ⟨rfl, hframe⟩
    exact ⟨rfl, hframe.trans (Frame.assign hname v)⟩
  · exact hwithin
  · intro handle hhandle state state' hrelated hstate
    rcases hrelated with ⟨rfl, hframe⟩
    have hcall : Frame allowed state (host handle state).2 :=
      Frame.mono hown (hframes hhandle hstate)
    exact ⟨rfl, rfl, hframe.trans hcall⟩

theorem framed_of_run (hown : forall effect, own effect -> allowed effect)
    (hwithin : host.Within allowed) (hframes : host.Frames own allowed)
    {s : Stmt H} (hs : s.Within allowed) {state state' : State H} (hstate : state.Within allowed)
    {fuel : Nat} {ending : Ending H} (hrun : s.exec host fuel state = ending.outcome state') :
    Frame allowed state state' ∧ state'.Within allowed := by
  -- the run is paired with itself, and its outcome cannot but be its own
  have hlink := frame_link_holds hown hwithin hframes state
  have hpaired := (run_inStep hlink fuel).right s s ⟨rfl, hs⟩ ⟨⟨rfl, Frame.refl⟩, hstate⟩
  rw [hrun] at hpaired
  cases ending with
  | ok value =>
      cases hpaired with
      | ok _ hlast => exact ⟨hlast.left.right, hlast.right⟩
  | error e =>
      cases hpaired with
      | error _ hlast => exact ⟨hlast.left.right, hlast.right⟩

end Runs

/-- Wherever a run ends, with a value or with an error, the variables out of its reach
have the values that they had, whatever had a value has one, and nothing has come into
reach. -/
theorem run_writes_within_footprint {host : Host H} {own : Effect H -> Prop} {s : Stmt H}
    {state state' : State H} {fuel : Nat} {ending : Ending H}
    (hwithin : host.Within (Footprint s state own))
    (hframes : host.Frames own (Footprint s state own))
    (hrun : s.exec host fuel state = ending.outcome state') :
    (forall name, Not (Footprint s state own (.ofName name)) ->
        state'.store.get? name = state.store.get? name) ∧
      (forall name, state.store.contains name = true -> state'.store.contains name = true) ∧
      forall effect, Footprint s state' own effect -> Footprint s state own effect := by
  have hown : forall effect, own effect -> Footprint s state own effect :=
    fun _ => .own
  rcases framed_of_run hown hwithin hframes Footprint.stmt_within Footprint.state_within hrun
    with ⟨hframe, hstate'⟩
  refine ⟨hframe.get?, hframe.contains, ?_⟩
  intro effect heffect
  exact heffect.allowed_of Footprint.stmt_within hstate' hown

theorem handed_call_writes_within_footprint :
    let handed : Value Capability := .native ["ه"] (.set "ل" (.int 7))
    let s : Stmt Capability := .expr (.call (.var "غ") [.literal handed])
    let stored : Value Capability := .function ["ي"] (.expr (.call (.var "ى") [.literal (.int 5)]))
    let state : State Capability := ⟨Store.empty.assign "غ" stored, #[]⟩
    let own : Effect Capability -> Prop := fun effect => effect = .ofName "ل"
    exists state', s.exec Capability.host 8 state = Ending.outcome (.ok .default) state' ∧
      Not (Footprint s state own (.ofName "ق")) ∧
      (forall name, Not (Footprint s state own (.ofName name)) ->
        state'.store.get? name = state.store.get? name) ∧
      (forall name, state.store.contains name = true -> state'.store.contains name = true) ∧
      forall effect, Footprint s state' own effect -> Footprint s state own effect := by
  intro handed s stored state own
  let among : Effect Capability -> Prop :=
    Effect.Among (fun name => name ∈ ["ى", "ه", "ل"]) fun handle => handle = .set "ل" (.int 7)
  have hhanded : handed.Within among :=
    Value.within_native.mpr ⟨Effect.params_among.mpr (by decide), rfl⟩
  have hstored : stored.Within among := by
    refine Value.within_function.mpr ⟨Effect.params_among.mpr (by decide), ?_⟩
    simp [Value.within_int]
  have hs : s.Within among := by
    simp only [s, Stmt.within_expr, Expr.within_call, Expr.within_var, List.mem_singleton]
    simpa using hhanded
  have hstate : state.Within among := (State.within_empty _).assign "غ" hstored
  have hown : forall effect, own effect -> among effect := by
    intro effect heffect
    rw [show effect = .ofName "ل" from heffect]
    show Script.normalize "ل" ∈ ["ى", "ه", "ل"]
    decide
  have hcall : forall handle, Footprint s state own (.call handle) ->
      handle = .set "ل" (.int 7) :=
    fun _ hhandle => hhandle.allowed_of hs hstate hown
  have hwithin : Capability.host.Within (Footprint s state own) := by
    intro handle hhandle before hbefore
    rw [hcall handle hhandle]
    exact ⟨Value.within_int 1000, hbefore.assign "ل" (Value.within_int 7)⟩
  have hframes : Capability.host.Frames own (Footprint s state own) := by
    intro handle hhandle before _
    rw [hcall handle hhandle]
    have hset : own (.ofName "ل") := rfl
    exact Frame.assign hset (.int 7)
  have hspared : Not (Footprint s state own (.ofName "ق")) := by
    intro hname
    have hmem : Script.normalize "ق" ∈ ["ى", "ه", "ل"] := hname.allowed_of hs hstate hown
    revert hmem
    decide
  have hrun : s.exec Capability.host 8 state = Ending.outcome (.ok .default) _ := rfl
  exact ⟨_, hrun, hspared, run_writes_within_footprint hwithin hframes hrun⟩

end Lisan
