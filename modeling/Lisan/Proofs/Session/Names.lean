import Lisan.Capability
import Lisan.Proofs.Run.Lockstep
import Lisan.Session
import Mathlib.Data.Set.Card

/-!
# Names of stored variables

Whatever a session is asked to do, its stores are maps of spelling classes: each class of
names has one entry at most, under the normal form of the class, and every spelling finds
it. This holds as long as the functions of the host write stores in no other way than by
giving values to names.
-/

namespace Lisan

variable {H : Type}

namespace Store

variable {store : Store H}

/-!
## Stored names
-/

def names (store : Store H) : List String :=
  store.toList.map Prod.fst

theorem names_eq_keys (store : Store H) : store.names = store.table.keys :=
  Std.ExtTreeMap.map_fst_toList_eq_keys

theorem mem_names_iff {name : String} : name ∈ store.names <-> name ∈ store.table := by
  rw [names_eq_keys, Std.ExtTreeMap.mem_keys]

theorem nodup_names (store : Store H) : store.names.Nodup := by
  rw [names_eq_keys]
  apply Std.ExtTreeMap.distinct_keys.imp
  intro name other hdistinct heq
  rw [heq] at hdistinct
  exact hdistinct Std.ReflCmp.compare_self

theorem length_names (store : Store H) : store.names.length = store.size := by
  rw [names_eq_keys]
  exact Std.ExtTreeMap.length_keys

theorem contains_iff_mem_names (name : String) :
    store.contains name = true <-> Script.normalize name ∈ store.names := by
  rw [mem_names_iff]
  exact Std.ExtTreeMap.contains_iff_mem

def Normal (store : Store H) : Prop :=
  forall name, name ∈ store.names -> Script.normalize name = name

theorem normal_empty : (empty : Store H).Normal := by
  intro name hname
  rw [mem_names_iff] at hname
  exact absurd hname Std.ExtTreeMap.not_mem_empty

theorem Normal.assign (h : store.Normal) (name : String) (value : Value H) :
    (store.assign name value).Normal := by
  intro other hother
  rw [mem_names_iff, Store.assign, Std.ExtTreeMap.mem_insert] at hother
  rcases hother with hsame | hother
  · rw [<- Std.LawfulEqCmp.eq_of_compare hsame, Script.normalize_normalize]
  · exact h other (mem_names_iff.mpr hother)

/-!
## Maps of spelling classes
-/

/-- The store is a map of spelling classes. -/
structure Classed (store : Store H) : Prop where
  names_nodup : store.names.Nodup
  names_normal : forall name, name ∈ store.names -> Script.normalize name = name
  get?_assign : forall name other value,
    (store.assign name value).get? other =
      if Script.normalize other = Script.normalize name then some value else store.get? other
  contains_iff : forall name,
    store.contains name = true <-> exists value, store.get? name = some value
  contains_iff_mem_names : forall name,
    store.contains name = true <-> Script.normalize name ∈ store.names
  size_eq : store.size =
    Set.ncard {normal | exists name, store.contains name = true ∧ Script.normalize name = normal}
  overrideActive_iff : forall name, Script.normalize name = Script.normalize overrideFlag ->
    (store.overrideActive = true <->
      exists value, store.get? name = some value ∧ value.truthy = true)

theorem Normal.classes_eq (h : store.Normal) :
    {normal | exists name, store.contains name = true ∧ Script.normalize name = normal} =
      (store.names.toFinset : Set String) := by
  ext normal
  rw [Set.mem_ofPred_eq, List.coe_toFinset, Set.mem_ofPred_eq]
  constructor
  · intro hclass
    rcases hclass with ⟨name, hname, hnormal⟩
    rw [<- hnormal]
    exact (contains_iff_mem_names name).mp hname
  · intro hmem
    have hnormal := h normal hmem
    exists normal
    constructor
    · rw [contains_iff_mem_names, hnormal]
      exact hmem
    · exact hnormal

theorem Normal.classed (h : store.Normal) : store.Classed where
  names_nodup := nodup_names store
  names_normal := h
  get?_assign := by
    intro name other value
    rw [Store.get?_assign]
    exact if_congr eq_comm rfl rfl
  contains_iff := by
    intro name
    rw [contains_eq_isSome_get?, Option.isSome_iff_exists]
  contains_iff_mem_names := contains_iff_mem_names
  size_eq := by
    rw [h.classes_eq, Set.ncard_coe_finset, List.toFinset_card_of_nodup (nodup_names store),
      length_names]
  overrideActive_iff := by
    intro name hname
    rw [overrideActive_eq, Option.any_eq_true, <- get?_normalize, <- hname, get?_normalize]

end Store

/-!
## Hosts that only give values to names
-/

inductive Store.Written (store : Store H) : Store H -> Prop where
  | refl : Store.Written store store
  | assign {other : Store H} (name : String) (value : Value H) :
      Store.Written store other -> Store.Written store (other.assign name value)

theorem Store.Normal.written {store other : Store H} (h : store.Normal)
    (hwritten : store.Written other) : other.Normal := by
  induction hwritten with
  | refl => exact h
  | assign name value _ ih => exact ih.assign name value

def Host.OnlyAssigns (host : Host H) : Prop :=
  forall (handle : H) (state : State H), state.store.Written (host handle state).2.store

theorem Host.OnlyAssigns.maintains {host : Host H} (h : host.OnlyAssigns) :
    host.Maintains fun state => state.store.Normal where
  assign _ hstate name value := Store.Normal.assign hstate name value
  call state hstate handle := Store.Normal.written hstate (h handle state)

theorem Capability.host_onlyAssigns : host.OnlyAssigns := by
  intro capability state
  cases capability with
  | say =>
      show state.store.Written (sayText state).store
      rw [store_sayText]
      exact .refl
  | default => exact .refl
  | constant value => exact .refl
  | get name => exact .refl
  | set name value => exact .assign name value .refl
  | copy source target => exact .assign target _ .refl
  | record name => exact .refl
  | count => exact .refl

/-!
## Sessions
-/

namespace Session

/-- Sessions that come from the empty one by whatever commands, each with fuel of its
own. A session may take any store that was reached as the one it keeps, so that stores
can be kept in any number. -/
inductive Reached (host : Host H) : Session H -> Prop where
  | empty : Reached host Session.empty
  | step {session : Session H} (fuel : Nat) (command : Command H) :
      Reached host session -> Reached host (session.step host fuel command).2
  | keep {session other : Session H} :
      Reached host session -> Reached host other ->
        Reached host { session with kept := other.state.store }

structure Holds (P : Store H -> Prop) (session : Session H) : Prop where
  state : P session.state.store
  kept : P session.kept

variable {host : Host H} {session : Session H} {P : Store H -> Prop}

theorem settle_holds (h : session.Holds P)
    {outcome : EStateM.Result (Failure H) (State H) (Value H)}
    (hleaves : Leaves (fun state => P state.store) outcome) :
    (session.settle outcome).2.Holds P := by
  cases hleaves with
  | ok hstate => exact ⟨hstate, h.kept⟩
  | error hstate => exact ⟨hstate, h.kept⟩

theorem runTree_leaves {P : State H -> Prop} (hhost : host.Maintains P) (fuel : Nat)
    (tree : Stmt H) {state : State H} (hstate : P state) :
    Leaves P (Program.runTree host fuel tree state) := by
  have hleaves := exec_leaves hhost fuel tree hstate
  rw [Program.runTree]
  cases hrun : tree.exec host fuel state with
  | ok value last =>
      rw [hrun] at hleaves
      cases hleaves with
      | ok hlast => exact .ok hlast
  | error halt last =>
      rw [hrun] at hleaves
      cases hleaves with
      | error hlast => exact .error hlast

theorem interpret_leaves {P : State H -> Prop} (hhost : host.Maintains P) (fuel : Nat)
    (text : String) {state : State H} (hstate : P state) :
    Leaves P (Program.interpret host fuel text state) := by
  rw [Program.interpret]
  cases Program.ofText text with
  | ok tree => exact runTree_leaves hhost fuel tree hstate
  | error e => exact .error hstate

theorem step_holds (hhost : host.Maintains fun state => P state.store) (h : session.Holds P)
    (fuel : Nat) (command : Command H) : (session.step host fuel command).2.Holds P := by
  cases command with
  | evaluate text => exact settle_holds h (interpret_leaves hhost fuel text h.state)
  | evaluateTree tree => exact settle_holds h (runTree_leaves hhost fuel tree h.state)
  | interpret text =>
      have hleaves := interpret_leaves hhost fuel text h.state
      rw [step]
      cases hrun : Program.interpret host fuel text session.state with
      | ok value state =>
          rw [hrun] at hleaves
          exact settle_holds h hleaves
      | error e state =>
          -- the store is the one from before
          exact settle_holds h (.error h.state)
  | assign name value => exact ⟨hhost.assign h.state name value, h.kept⟩
  | defineNative name params handle => exact ⟨hhost.assign h.state name _, h.kept⟩
  | save => exact ⟨h.state, h.state⟩
  | restore => exact ⟨h.kept, h.kept⟩

theorem Reached.holds (hempty : P .empty) (hhost : host.Maintains fun state => P state.store)
    (h : Reached host session) : session.Holds P := by
  induction h with
  | empty => exact ⟨hempty, hempty⟩
  | step fuel command _ ih => exact step_holds hhost ih fuel command
  | keep _ _ ih ihother => exact ⟨ih.state, ihother.state⟩

/-- Both stores of a session, whatever it was asked to do, are maps of spelling classes. -/
theorem stores_classed (hhost : host.OnlyAssigns) (h : Reached host session) :
    session.state.store.Classed ∧ session.kept.Classed := by
  have hnormal := h.holds Store.normal_empty hhost.maintains
  exact ⟨hnormal.state.classed, hnormal.kept.classed⟩

theorem halted_session_stores_classed :
    let halted : Stmt Capability :=
      .block [.expr (.call (.var "قلم") []), .expr (.call (.var "جبل") [])]
    let session := (empty.step Capability.host 0
      (.defineNative "غلم" ["ق"] (.set "واسطة" (.int 1)))).2
    let last := ((session.step Capability.host 9 (.evaluateTree halted)).2.step
      Capability.host 0 (.assign "غلم" (.int 2))).2
    Capability.host.OnlyAssigns ∧ Reached Capability.host last ∧
      (session.step Capability.host 9 (.evaluateTree halted)).1 =
        .error (.halt (.error (.notCallable .default))) ∧
      last.state.store.get? "قلم" = some (.int 2) ∧ last.state.store.overrideActive = true ∧
      last.state.store.Classed ∧ last.kept.Classed := by
  intro halted session last
  have hreached : Reached Capability.host last :=
    .step 0 _ (.step 9 _ (.step 0 _ .empty))
  constructor
  · exact Capability.host_onlyAssigns
  constructor
  · exact hreached
  constructor
  · rfl
  constructor
  · rfl
  constructor
  · rfl
  · exact stores_classed Capability.host_onlyAssigns hreached

end Session
end Lisan
