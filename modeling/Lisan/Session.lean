import Lisan.Interpretation

/-!
# Sessions

A session runs programs one behind the other on one store, and can go back to a
store that it kept.
-/

namespace Lisan

structure Session (H : Type) where
  state : State H
  kept : Store H

namespace Session

variable {H : Type}

inductive Command (H : Type) where
  | evaluate (text : String)
  | evaluateTree (tree : Stmt H)
  | interpret (text : String)
  | assign (name : String) (value : Value H)
  | defineNative (name : String) (params : List String) (handle : H)
  | save
  | restore

def empty : Session H :=
  ⟨Run.initial .empty, .empty⟩

def mapStore (change : Store H -> Store H) (session : Session H) : Session H :=
  { session with state := { session.state with store := change session.state.store } }

def settle (session : Session H) :
    EStateM.Result (Failure H) (State H) (Value H) ->
      Except (Failure H) (Option (Value H)) × Session H
  | .ok value state => (.ok (some value), { session with state := state })
  | .error e state => (.error e, { session with state := state })

/-- Does what a command asks. A program evaluated in a session leaves behind all
that it did. A program that is interpreted leaves its store behind only if it
ends with a value; what it said is said in any case. -/
def step (host : Host H) (fuel : Nat) (session : Session H) :
    Command H -> Except (Failure H) (Option (Value H)) × Session H
  | .evaluate text => session.settle (Program.interpret host fuel text session.state)
  | .evaluateTree tree => session.settle (Program.runTree host fuel tree session.state)
  | .interpret text =>
      match Program.interpret host fuel text session.state with
      | .ok value state => session.settle (.ok value state)
      | .error e state =>
          session.settle (.error e { state with store := session.state.store })
  | .assign name value => (.ok none, session.mapStore (·.assign name value))
  | .defineNative name params handle =>
      (.ok none, session.mapStore (·.defineNative name params handle))
  | .save => (.ok none, { session with kept := session.state.store })
  | .restore => (.ok none, session.mapStore fun _ => session.kept)

end Session
end Lisan
