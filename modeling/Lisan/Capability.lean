import Lisan.Run

/-!
# Capabilities

What a host lends to programs: saying something, and simple dealings with the
store. Each one is plain data, and `Capability.host` says what it does.
-/

namespace Lisan

inductive Capability where
  | say
  | default
  | constant (value : Value Capability)
  | get (name : String)
  | set (name : String) (value : Value Capability)
  | copy (source target : String)
  | record (name : String)
  | count

namespace Capability

def sayName : String :=
  "غول"

/-- The variable from which what is said is taken. -/
def sayParam : String :=
  "الكلام"

def sayFunction : Value Capability :=
  .native [sayParam] say

def sayText (state : State Capability) : State Capability :=
  match (state.store.get? sayParam).bind Value.text? with
  | some text => { state with said := state.said.push text }
  | none => state

theorem store_sayText (state : State Capability) : (sayText state).store = state.store := by
  rw [sayText]
  split <;> rfl

def host : Host Capability
  | say, state => (.ofBool true, sayText state)
  | default, state => (.default, state)
  | constant value, state => (value, state)
  | get name, state => (state.store.get name, state)
  | set name value, state => (.default, { state with store := state.store.assign name value })
  | copy source target, state =>
      let value := state.store.get source
      (value, { state with store := state.store.assign target value })
  | record name, state =>
      (.int 42, { state with said := state.said.push (state.store.get name).display })
  | count, state => (.int (Int.ofNat state.store.size), state)

end Capability

def Store.withSay : Store Capability :=
  Store.empty.assign Capability.sayName Capability.sayFunction

end Lisan
