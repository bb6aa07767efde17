import Lisan.Failure
import Lisan.Run

/-!
# Interpretation

From the text of a program to its value: its tokens, its tree, its run. The
first failure of any stage ends it, and what a run did before it failed stays
done.
-/

namespace Lisan
namespace Program

variable {H : Type}

def ofText (text : String) : Except (Failure H) (Stmt H) :=
  match Token.ofText text with
  | .error e => .error (.scan e)
  | .ok tokens =>
      match ofTokens tokens with
      | .error e => .error (.parse e)
      | .ok tree => .ok tree

def runTree (host : Host H) (fuel : Nat) (tree : Stmt H) :
    EStateM (Failure H) (State H) (Value H) :=
  fun state =>
    match tree.exec host fuel state with
    | .ok value state => .ok value state
    | .error h state => .error (.halt h) state

def interpret (host : Host H) (fuel : Nat) (text : String) :
    EStateM (Failure H) (State H) (Value H) :=
  fun state =>
    match ofText text with
    | .error e => .error e state
    | .ok tree => runTree host fuel tree state

/-- More fuel than any machine burns. -/
def ampleFuel : Nat :=
  1000000000000000000

end Program
end Lisan
