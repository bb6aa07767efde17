import Lisan.Proofs.Operator.Rules
import Lisan.Run
import Mathlib.Logic.Relation

/-!
# Rules of evaluation

How a run ends, as a relation with one rule for each case of the language. Operands
are evaluated from left to right, and the first error ends the run; what was done
before it stays done.
-/

namespace Lisan

variable {H : Type}

def State.assign (state : State H) (name : String) (value : Value H) : State H :=
  { state with store := state.store.assign name value }

theorem State.table_assign (state : State H) (name key : String) (value : Value H) :
    (state.assign name value).store.table[key]? =
      if Script.normalize name = key then some value else state.store.table[key]? := by
  simp [State.assign, Store.assign, Std.ExtTreeMap.getElem?_insert]

inductive Callee (H : Type) where
  | body (body : Stmt H)
  | host (handle : H)

/-- What a run can be about: an expression, a statement, the rounds of a loop that
are left, the statements of a block that are left, or the arguments of a call that are
left, with what the call does behind them. -/
inductive Task (H : Type) where
  | eval (e : Expr H)
  | exec (s : Stmt H)
  | rounds (condition : Expr H) (body : Stmt H) (last : Value H)
  | row (rest : List (Stmt H)) (last : Value H)
  | apply (params : List String) (args : List (Expr H)) (callee : Callee H)

/-- `Ends host task state ending state'`: the task, started in the one state, ends
with the value or the error, and leaves the other state. -/
inductive Ends (host : Host H) : Task H -> State H -> Ending H -> State H -> Prop where
  | literal {value : Value H} {state : State H} :
      Ends host (.eval (.literal value)) state (.ok value) state
  | var {name : String} {state : State H} :
      Ends host (.eval (.var name)) state (.ok (state.store.get name)) state
  | assign {target : String} {value : Expr H} {v : Value H} {state state' : State H} :
      Ends host (.eval value) state (.ok v) state' ->
      Ends host (.eval (.assign target value)) state (.ok v) (state'.assign target v)
  | assignError {target : String} {value : Expr H} {e : RuntimeError H}
      {state state' : State H} :
      Ends host (.eval value) state (.error e) state' ->
      Ends host (.eval (.assign target value)) state (.error e) state'
  | group {inner : Expr H} {ending : Ending H} {state state' : State H} :
      Ends host (.eval inner) state ending state' ->
      Ends host (.eval (.group inner)) state ending state'
  | unary {operator : Token} {operand : Expr H} {v : Value H} {ending : Ending H}
      {state state' : State H} :
      Ends host (.eval operand) state (.ok v) state' ->
      Operator.UnaryRule operator.kind v ending ->
      Ends host (.eval (.unary operator operand)) state ending state'
  | unaryError {operator : Token} {operand : Expr H} {e : RuntimeError H}
      {state state' : State H} :
      Ends host (.eval operand) state (.error e) state' ->
      Ends host (.eval (.unary operator operand)) state (.error e) state'
  | binary {left right : Expr H} {operator : Token} {v w : Value H} {ending : Ending H}
      {state middle state' : State H} :
      Ends host (.eval left) state (.ok v) middle ->
      Ends host (.eval right) middle (.ok w) state' ->
      Operator.BinaryRule v operator.kind w ending ->
      Ends host (.eval (.binary left operator right)) state ending state'
  | leftError {left right : Expr H} {operator : Token} {e : RuntimeError H}
      {state state' : State H} :
      Ends host (.eval left) state (.error e) state' ->
      Ends host (.eval (.binary left operator right)) state (.error e) state'
  | rightError {left right : Expr H} {operator : Token} {v : Value H}
      {e : RuntimeError H} {state middle state' : State H} :
      Ends host (.eval left) state (.ok v) middle ->
      Ends host (.eval right) middle (.error e) state' ->
      Ends host (.eval (.binary left operator right)) state (.error e) state'
  | callFunction {callee : Expr H} {args : List (Expr H)} {params : List String}
      {body : Stmt H} {ending : Ending H} {state middle state' : State H} :
      Ends host (.eval callee) state (.ok (.function params body)) middle ->
      Ends host (.apply params args (.body body)) middle ending state' ->
      Ends host (.eval (.call callee args)) state ending state'
  | callNative {callee : Expr H} {args : List (Expr H)} {params : List String}
      {handle : H} {ending : Ending H} {state middle state' : State H} :
      Ends host (.eval callee) state (.ok (.native params handle)) middle ->
      Ends host (.apply params args (.host handle)) middle ending state' ->
      Ends host (.eval (.call callee args)) state ending state'
  | notCallable {callee : Expr H} {args : List (Expr H)} {v : Value H}
      {state state' : State H} :
      Ends host (.eval callee) state (.ok v) state' -> v.text? ≠ none ->
      Ends host (.eval (.call callee args)) state (.error (.notCallable v)) state'
  | calleeError {callee : Expr H} {args : List (Expr H)} {e : RuntimeError H}
      {state state' : State H} :
      Ends host (.eval callee) state (.error e) state' ->
      Ends host (.eval (.call callee args)) state (.error e) state'
  | bound {param : String} {params : List String} {arg : Expr H} {args : List (Expr H)}
      {callee : Callee H} {v : Value H} {ending : Ending H} {state middle state' : State H} :
      Ends host (.eval arg) state (.ok v) middle ->
      Ends host (.apply params args callee) (middle.assign param v) ending state' ->
      Ends host (.apply (param :: params) (arg :: args) callee) state ending state'
  | surplus {arg : Expr H} {args : List (Expr H)} {callee : Callee H} {v : Value H}
      {ending : Ending H} {state middle state' : State H} :
      Ends host (.eval arg) state (.ok v) middle ->
      Ends host (.apply [] args callee) middle ending state' ->
      Ends host (.apply [] (arg :: args) callee) state ending state'
  | argError {params : List String} {arg : Expr H} {args : List (Expr H)}
      {callee : Callee H} {e : RuntimeError H} {state state' : State H} :
      Ends host (.eval arg) state (.error e) state' ->
      Ends host (.apply params (arg :: args) callee) state (.error e) state'
  | enterBody {params : List String} {body : Stmt H} {ending : Ending H}
      {state state' : State H} :
      Ends host (.exec body) state ending state' ->
      Ends host (.apply params [] (.body body)) state ending state'
  | enterHost {params : List String} {handle : H} {state : State H} :
      Ends host (.apply params [] (.host handle)) state
        (.ok (host handle state).1) (host handle state).2
  | expr {value : Expr H} {ending : Ending H} {state state' : State H} :
      Ends host (.eval value) state ending state' ->
      Ends host (.exec (.expr value)) state ending state'
  | branchTrue {condition : Expr H} {onTrue onFalse : Stmt H} {test : Value H}
      {ending : Ending H} {state middle state' : State H} :
      Ends host (.eval condition) state (.ok test) middle ->
      test.truthy = true ∨ middle.store.overrideActive = true ->
      Ends host (.exec onTrue) middle ending state' ->
      Ends host (.exec (.branch condition onTrue onFalse)) state ending state'
  | branchFalse {condition : Expr H} {onTrue onFalse : Stmt H} {test : Value H}
      {ending : Ending H} {state middle state' : State H} :
      Ends host (.eval condition) state (.ok test) middle ->
      test.truthy = false -> middle.store.overrideActive = false ->
      Ends host (.exec onFalse) middle ending state' ->
      Ends host (.exec (.branch condition onTrue onFalse)) state ending state'
  | branchError {condition : Expr H} {onTrue onFalse : Stmt H} {e : RuntimeError H}
      {state state' : State H} :
      Ends host (.eval condition) state (.error e) state' ->
      Ends host (.exec (.branch condition onTrue onFalse)) state (.error e) state'
  | loop {condition : Expr H} {body : Stmt H} {ending : Ending H}
      {state state' : State H} :
      Ends host (.rounds condition body .default) state ending state' ->
      Ends host (.exec (.loop condition body)) state ending state'
  | stop {condition : Expr H} {body : Stmt H} {last test : Value H}
      {state state' : State H} :
      Ends host (.eval condition) state (.ok test) state' -> test.truthy = false ->
      Ends host (.rounds condition body last) state (.ok last) state'
  | again {condition : Expr H} {body : Stmt H} {last test v : Value H}
      {ending : Ending H} {state tested middle state' : State H} :
      Ends host (.eval condition) state (.ok test) tested -> test.truthy = true ->
      Ends host (.exec body) tested (.ok v) middle ->
      Ends host (.rounds condition body v) middle ending state' ->
      Ends host (.rounds condition body last) state ending state'
  | conditionError {condition : Expr H} {body : Stmt H} {last : Value H}
      {e : RuntimeError H} {state state' : State H} :
      Ends host (.eval condition) state (.error e) state' ->
      Ends host (.rounds condition body last) state (.error e) state'
  | bodyError {condition : Expr H} {body : Stmt H} {last test : Value H}
      {e : RuntimeError H} {state tested state' : State H} :
      Ends host (.eval condition) state (.ok test) tested -> test.truthy = true ->
      Ends host (.exec body) tested (.error e) state' ->
      Ends host (.rounds condition body last) state (.error e) state'
  | block {body : List (Stmt H)} {ending : Ending H} {state state' : State H} :
      Ends host (.row body .default) state ending state' ->
      Ends host (.exec (.block body)) state ending state'
  | done {last : Value H} {state : State H} :
      Ends host (.row [] last) state (.ok last) state
  | next {s : Stmt H} {rest : List (Stmt H)} {last v : Value H} {ending : Ending H}
      {state middle state' : State H} :
      Ends host (.exec s) state (.ok v) middle ->
      Ends host (.row rest v) middle ending state' ->
      Ends host (.row (s :: rest) last) state ending state'
  | rowError {s : Stmt H} {rest : List (Stmt H)} {last : Value H} {e : RuntimeError H}
      {state state' : State H} :
      Ends host (.exec s) state (.error e) state' ->
      Ends host (.row (s :: rest) last) state (.error e) state'
  | define {name : String} {params : List String} {body : Stmt H} {state : State H} :
      Ends host (.exec (.define name params body)) state (.ok (.function params body))
        (state.assign name (.function params body))

theorem Ends.var_assign {host : Host H} (state : State H) (name : String) (value : Value H) :
    Ends host (.eval (.var name)) (state.assign name value) (.ok value)
      (state.assign name value) := by
  have hvar : Ends host (.eval (.var name)) (state.assign name value)
      (.ok ((state.store.assign name value).get name)) (state.assign name value) := .var
  rwa [Store.get_assign_self] at hvar

/-!
## What a run passes through
-/

/-- The tasks that a task starts by itself, with the states in which it starts them. -/
inductive Starts (host : Host H) : Task H × State H -> Task H × State H -> Prop where
  | assign {target : String} {value : Expr H} {state : State H} :
      Starts host (.eval (.assign target value), state) (.eval value, state)
  | group {inner : Expr H} {state : State H} :
      Starts host (.eval (.group inner), state) (.eval inner, state)
  | unary {operator : Token} {operand : Expr H} {state : State H} :
      Starts host (.eval (.unary operator operand), state) (.eval operand, state)
  | left {left right : Expr H} {operator : Token} {state : State H} :
      Starts host (.eval (.binary left operator right), state) (.eval left, state)
  | right {left right : Expr H} {operator : Token} {v : Value H} {state middle : State H} :
      Ends host (.eval left) state (.ok v) middle ->
      Starts host (.eval (.binary left operator right), state) (.eval right, middle)
  | callee {callee : Expr H} {args : List (Expr H)} {state : State H} :
      Starts host (.eval (.call callee args), state) (.eval callee, state)
  | callFunction {callee : Expr H} {args : List (Expr H)} {params : List String}
      {body : Stmt H} {state middle : State H} :
      Ends host (.eval callee) state (.ok (.function params body)) middle ->
      Starts host (.eval (.call callee args), state) (.apply params args (.body body), middle)
  | callNative {callee : Expr H} {args : List (Expr H)} {params : List String}
      {handle : H} {state middle : State H} :
      Ends host (.eval callee) state (.ok (.native params handle)) middle ->
      Starts host (.eval (.call callee args), state) (.apply params args (.host handle), middle)
  | arg {params : List String} {arg : Expr H} {args : List (Expr H)} {callee : Callee H}
      {state : State H} :
      Starts host (.apply params (arg :: args) callee, state) (.eval arg, state)
  | bound {param : String} {params : List String} {arg : Expr H} {args : List (Expr H)}
      {callee : Callee H} {v : Value H} {state middle : State H} :
      Ends host (.eval arg) state (.ok v) middle ->
      Starts host (.apply (param :: params) (arg :: args) callee, state)
        (.apply params args callee, middle.assign param v)
  | surplus {arg : Expr H} {args : List (Expr H)} {callee : Callee H} {v : Value H}
      {state middle : State H} :
      Ends host (.eval arg) state (.ok v) middle ->
      Starts host (.apply [] (arg :: args) callee, state) (.apply [] args callee, middle)
  | body {params : List String} {s : Stmt H} {state : State H} :
      Starts host (.apply params [] (.body s), state) (.exec s, state)
  | expr {value : Expr H} {state : State H} :
      Starts host (.exec (.expr value), state) (.eval value, state)
  | condition {condition : Expr H} {onTrue onFalse : Stmt H} {state : State H} :
      Starts host (.exec (.branch condition onTrue onFalse), state) (.eval condition, state)
  | onTrue {condition : Expr H} {onTrue onFalse : Stmt H} {test : Value H}
      {state middle : State H} :
      Ends host (.eval condition) state (.ok test) middle ->
      test.truthy = true ∨ middle.store.overrideActive = true ->
      Starts host (.exec (.branch condition onTrue onFalse), state) (.exec onTrue, middle)
  | onFalse {condition : Expr H} {onTrue onFalse : Stmt H} {test : Value H}
      {state middle : State H} :
      Ends host (.eval condition) state (.ok test) middle ->
      test.truthy = false -> middle.store.overrideActive = false ->
      Starts host (.exec (.branch condition onTrue onFalse), state) (.exec onFalse, middle)
  | loop {condition : Expr H} {body : Stmt H} {state : State H} :
      Starts host (.exec (.loop condition body), state)
        (.rounds condition body .default, state)
  | test {condition : Expr H} {body : Stmt H} {last : Value H} {state : State H} :
      Starts host (.rounds condition body last, state) (.eval condition, state)
  | round {condition : Expr H} {body : Stmt H} {last test : Value H}
      {state tested : State H} :
      Ends host (.eval condition) state (.ok test) tested -> test.truthy = true ->
      Starts host (.rounds condition body last, state) (.exec body, tested)
  | again {condition : Expr H} {body : Stmt H} {last test v : Value H}
      {state tested middle : State H} :
      Ends host (.eval condition) state (.ok test) tested -> test.truthy = true ->
      Ends host (.exec body) tested (.ok v) middle ->
      Starts host (.rounds condition body last, state) (.rounds condition body v, middle)
  | block {body : List (Stmt H)} {state : State H} :
      Starts host (.exec (.block body), state) (.row body .default, state)
  | first {s : Stmt H} {rest : List (Stmt H)} {last : Value H} {state : State H} :
      Starts host (.row (s :: rest) last, state) (.exec s, state)
  | rest {s : Stmt H} {rest : List (Stmt H)} {last v : Value H} {state middle : State H} :
      Ends host (.exec s) state (.ok v) middle ->
      Starts host (.row (s :: rest) last, state) (.row rest v, middle)

abbrev Reaches (host : Host H) : Task H × State H -> Task H × State H -> Prop :=
  Relation.ReflTransGen (Starts host)

end Lisan
