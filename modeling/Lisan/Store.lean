import Lisan.Value
import Std.Data.ExtTreeMap

/-!
# Stores

The one table of variables that all of a run shares. A name stands for all of
its spelling variants: every operation that takes a name takes it in normal
form.
-/

namespace Lisan

structure Store (H : Type) where
  table : Std.ExtTreeMap String (Value H)

namespace Store

variable {H : Type}

def empty : Store H :=
  ⟨∅⟩

def get? (store : Store H) (name : String) : Option (Value H) :=
  store.table[Script.normalize name]?

/-- The value of a name. A name without a value reads as the default. -/
def get (store : Store H) (name : String) : Value H :=
  (store.get? name).getD .default

def contains (store : Store H) (name : String) : Bool :=
  store.table.contains (Script.normalize name)

def assign (store : Store H) (name : String) (value : Value H) : Store H :=
  ⟨store.table.insert (Script.normalize name) value⟩

def defineNative (store : Store H) (name : String) (params : List String) (handle : H) :
    Store H :=
  store.assign name (.native (params.map Script.normalize) handle)

def size (store : Store H) : Nat :=
  store.table.size

def isEmpty (store : Store H) : Bool :=
  store.table.isEmpty

def toList (store : Store H) : List (String × Value H) :=
  store.table.toList

def overrideFlag : String :=
  "واسطه"

/-- Whether every branch is forced to its first side. The name of the variable is looked
up as it stands: it is a normal form. -/
def overrideActive (store : Store H) : Bool :=
  store.table[overrideFlag]?.any Value.truthy

/-!
## Reading what was written
-/

theorem get?_assign (store : Store H) (name other : String) (value : Value H) :
    (store.assign name value).get? other =
      if Script.normalize name = Script.normalize other then some value
      else store.get? other := by
  simp [get?, assign, Std.ExtTreeMap.getElem?_insert]

theorem get_assign_self (store : Store H) (name : String) (value : Value H) :
    (store.assign name value).get name = value := by
  rw [get, get?_assign, if_pos rfl, Option.getD_some]

theorem get?_normalize (store : Store H) (name : String) :
    store.get? (Script.normalize name) = store.get? name := by
  simp [get?, Script.normalize_normalize]

theorem assign_normalize (store : Store H) (name : String) (value : Value H) :
    store.assign (Script.normalize name) value = store.assign name value := by
  simp [assign, Script.normalize_normalize]

theorem normalize_overrideFlag : Script.normalize overrideFlag = overrideFlag := by
  decide +kernel

theorem overrideActive_eq (store : Store H) :
    store.overrideActive = (store.get? overrideFlag).any Value.truthy := by
  rw [overrideActive, get?, normalize_overrideFlag]

theorem contains_eq_isSome_get? (store : Store H) (name : String) :
    store.contains name = (store.get? name).isSome := by
  simp [contains, get?]

/-!
## All values of a store
-/

def All (p : Value H -> Prop) (store : Store H) : Prop :=
  forall ⦃key : String⦄ ⦃value : Value H⦄, store.table[key]? = some value -> p value

section All

variable {p : Value H -> Prop} {store : Store H}

theorem all_empty : (empty : Store H).All p := by
  intro key value h
  rw [empty, Std.ExtTreeMap.getElem?_empty] at h
  cases h

theorem All.get (h : store.All p) (hdefault : p .default) (name : String) :
    p (store.get name) := by
  rw [Store.get]
  cases hvalue : store.get? name with
  | none => exact hdefault
  | some value => exact h hvalue

theorem All.assign (h : store.All p) (name : String) {value : Value H} (hvalue : p value) :
    (store.assign name value).All p := by
  intro key other hother
  rw [Store.assign, Std.ExtTreeMap.getElem?_insert] at hother
  split at hother
  · cases hother
    exact hvalue
  · exact h hother

end All
end Store
end Lisan
