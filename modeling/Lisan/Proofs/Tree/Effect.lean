import Lisan.Script
import Lisan.Tree

/-!
# Effects of trees

What a tree may do to a state, by itself or in the bodies of the functions that it holds:
write the variables that it names, and call the functions of the host that it holds. A
tree keeps within some effects if all that it may do is among these.
-/

namespace Lisan

variable {H : Type}

/-- To write a variable, known by the normal form of its name, or to call a function of
the host. -/
inductive Effect (H : Type) where
  | write (name : String)
  | call (handle : H)

def Effect.ofName (name : String) : Effect H :=
  .write (Script.normalize name)

def Effect.Among (names : String -> Prop) (handles : H -> Prop) : Effect H -> Prop
  | .write name => names name
  | .call handle => handles handle

mutual

def Value.effects : Value H -> List (Effect H)
  | .str _ => []
  | .int _ => []
  | .function params body => params.map Effect.ofName ++ body.effects
  | .native params handle => params.map Effect.ofName ++ [.call handle]

def Expr.effects : Expr H -> List (Effect H)
  | .assign target value => Effect.ofName target :: value.effects
  | .var _ => []
  | .binary left _ right => left.effects ++ right.effects
  | .unary _ operand => operand.effects
  | .call callee args => callee.effects ++ Expr.effectsAll args
  | .literal value => value.effects
  | .group inner => inner.effects

def Expr.effectsAll : List (Expr H) -> List (Effect H)
  | [] => []
  | e :: rest => e.effects ++ Expr.effectsAll rest

def Stmt.effects : Stmt H -> List (Effect H)
  | .branch condition onTrue onFalse => condition.effects ++ (onTrue.effects ++ onFalse.effects)
  | .loop condition body => condition.effects ++ body.effects
  | .expr value => value.effects
  | .block body => Stmt.effectsAll body
  | .define name params body =>
      Effect.ofName name :: (params.map Effect.ofName ++ body.effects)

def Stmt.effectsAll : List (Stmt H) -> List (Effect H)
  | [] => []
  | s :: rest => s.effects ++ Stmt.effectsAll rest

end

theorem Expr.effectsAll_eq_flatMap (es : List (Expr H)) :
    Expr.effectsAll es = es.flatMap Expr.effects := by
  induction es with
  | nil => rfl
  | cons e rest ih => rw [Expr.effectsAll, ih, List.flatMap_cons]

theorem Stmt.effectsAll_eq_flatMap (body : List (Stmt H)) :
    Stmt.effectsAll body = body.flatMap Stmt.effects := by
  induction body with
  | nil => rfl
  | cons s rest ih => rw [Stmt.effectsAll, ih, List.flatMap_cons]

/-!
## Trees that keep within some effects
-/

def Effect.AllIn (allowed : Effect H -> Prop) (effects : List (Effect H)) : Prop :=
  forall effect, effect ∈ effects -> allowed effect

def Value.Within (allowed : Effect H -> Prop) (value : Value H) : Prop :=
  Effect.AllIn allowed value.effects

def Expr.Within (allowed : Effect H -> Prop) (e : Expr H) : Prop :=
  Effect.AllIn allowed e.effects

def Stmt.Within (allowed : Effect H -> Prop) (s : Stmt H) : Prop :=
  Effect.AllIn allowed s.effects

def Effect.Params (allowed : Effect H -> Prop) (params : List String) : Prop :=
  forall param, param ∈ params -> allowed (Effect.ofName param)

namespace Effect

variable {allowed : Effect H -> Prop}

theorem allIn_nil : AllIn allowed [] := by
  intro effect heffect
  cases heffect

theorem allIn_cons {effect : Effect H} {rest : List (Effect H)} :
    AllIn allowed (effect :: rest) <-> allowed effect ∧ AllIn allowed rest :=
  List.forall_mem_cons

theorem allIn_append {front back : List (Effect H)} :
    AllIn allowed (front ++ back) <-> AllIn allowed front ∧ AllIn allowed back :=
  List.forall_mem_append

theorem allIn_params {params : List String} :
    AllIn allowed (params.map ofName) <-> Params allowed params :=
  List.forall_mem_map

theorem params_among {names : String -> Prop} {handles : H -> Prop} {params : List String} :
    Params (Among names handles) params <->
      forall param, param ∈ params -> names (Script.normalize param) :=
  Iff.rfl

end Effect

variable {allowed : Effect H -> Prop}

namespace Value

@[simp] theorem within_str (text : String) : (str text : Value H).Within allowed :=
  Effect.allIn_nil

@[simp] theorem within_int (n : Int) : (int n : Value H).Within allowed :=
  Effect.allIn_nil

@[simp] theorem within_function {params : List String} {body : Stmt H} :
    (function params body).Within allowed <->
      Effect.Params allowed params ∧ body.Within allowed := by
  rw [Within, effects, Effect.allIn_append, Effect.allIn_params]
  rfl

@[simp] theorem within_native {params : List String} {handle : H} :
    (native params handle).Within allowed <->
      Effect.Params allowed params ∧ allowed (.call handle) := by
  rw [Within, effects, Effect.allIn_append, Effect.allIn_params, Effect.allIn_cons]
  simp only [Effect.allIn_nil, and_true]

end Value

namespace Expr

@[simp] theorem within_assign {target : String} {value : Expr H} :
    (assign target value).Within allowed <->
      allowed (Effect.ofName target) ∧ value.Within allowed :=
  Effect.allIn_cons

@[simp] theorem within_var (name : String) : (var name : Expr H).Within allowed :=
  Effect.allIn_nil

@[simp] theorem within_binary {left right : Expr H} {operator : Token} :
    (binary left operator right).Within allowed <->
      left.Within allowed ∧ right.Within allowed :=
  Effect.allIn_append

@[simp] theorem within_unary {operator : Token} {operand : Expr H} :
    (unary operator operand).Within allowed <-> operand.Within allowed :=
  Iff.rfl

@[simp] theorem within_call {callee : Expr H} {args : List (Expr H)} :
    (call callee args).Within allowed <->
      callee.Within allowed ∧ forall arg, arg ∈ args -> arg.Within allowed := by
  rw [Within, effects, Effect.allIn_append, effectsAll_eq_flatMap]
  exact and_congr_right fun _ => List.forall_mem_flatMap

@[simp] theorem within_literal {value : Value H} :
    (literal value).Within allowed <-> value.Within allowed :=
  Iff.rfl

@[simp] theorem within_group {inner : Expr H} :
    (group inner).Within allowed <-> inner.Within allowed :=
  Iff.rfl

end Expr

namespace Stmt

@[simp] theorem within_branch {condition : Expr H} {onTrue onFalse : Stmt H} :
    (branch condition onTrue onFalse).Within allowed <->
      condition.Within allowed ∧ onTrue.Within allowed ∧ onFalse.Within allowed := by
  rw [Within, effects, Effect.allIn_append, Effect.allIn_append]
  rfl

@[simp] theorem within_loop {condition : Expr H} {body : Stmt H} :
    (loop condition body).Within allowed <->
      condition.Within allowed ∧ body.Within allowed :=
  Effect.allIn_append

@[simp] theorem within_expr {value : Expr H} :
    (expr value).Within allowed <-> value.Within allowed :=
  Iff.rfl

@[simp] theorem within_block {body : List (Stmt H)} :
    (block body).Within allowed <-> forall s, s ∈ body -> s.Within allowed := by
  rw [Within, effects, effectsAll_eq_flatMap]
  exact List.forall_mem_flatMap

@[simp] theorem within_define {name : String} {params : List String} {body : Stmt H} :
    (define name params body).Within allowed <->
      allowed (Effect.ofName name) ∧ (Value.function params body).Within allowed :=
  Effect.allIn_cons

end Stmt

end Lisan
