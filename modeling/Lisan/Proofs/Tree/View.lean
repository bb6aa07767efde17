import Lisan.Tree
import Lisan.Script

/-!
# Views of trees

A view says what is seen of a tree: how its names look, how its operators look, and
whether its groupings are seen at all. Two trees look alike in a view if it shows the
same of both. Looking twice is looking once, in the view that joins the two.
-/

namespace Lisan

variable {H : Type}

/-- What is seen of trees. A name stays a spelling variant of itself, and an operator
stays of its kind. -/
structure View where
  name : String -> String
  operator : Token -> Token
  groups : Bool
  normalize_name : forall text, Script.normalize (name text) = Script.normalize text
  kind_operator : forall token, (operator token).kind = token.kind

/-!
## Four views
-/

def Position.lower (lines : Nat) (place : Position) : Position :=
  ⟨place.line + lines, place.column⟩

def Token.lower (lines : Nat) (token : Token) : Token :=
  ⟨token.kind, token.start.lower lines⟩

namespace View

def whole : View where
  name := id
  operator := id
  groups := true
  normalize_name := fun _ => rfl
  kind_operator := fun _ => rfl

def lower (lines : Nat) : View where
  name := id
  operator := Token.lower lines
  groups := true
  normalize_name := fun _ => rfl
  kind_operator := fun _ => rfl

def placeless : View where
  name := id
  operator := fun token => ⟨token.kind, .start⟩
  groups := true
  normalize_name := fun _ => rfl
  kind_operator := fun _ => rfl

/-- What has no meaning is not seen: the places of operators, the spelling of names,
and the groupings. -/
def meaning : View where
  name := Script.normalize
  operator := fun token => ⟨token.kind, .start⟩
  groups := false
  normalize_name := Script.normalize_normalize
  kind_operator := fun _ => rfl

def andThen (first second : View) : View where
  name := second.name ∘ first.name
  operator := second.operator ∘ first.operator
  groups := first.groups && second.groups
  normalize_name := by
    intro text
    rw [Function.comp_apply, second.normalize_name, first.normalize_name]
  kind_operator := by
    intro token
    rw [Function.comp_apply, second.kind_operator, first.kind_operator]

theorem ext {view other : View} (hname : view.name = other.name)
    (hoperator : view.operator = other.operator) (hgroups : view.groups = other.groups) :
    view = other := by
  cases view
  cases other
  cases hname
  cases hoperator
  cases hgroups
  rfl

@[simp] theorem whole_name : whole.name = id :=
  rfl

@[simp] theorem whole_operator : whole.operator = id :=
  rfl

@[simp] theorem whole_groups : whole.groups = true :=
  rfl

theorem lower_andThen_placeless (lines : Nat) : (lower lines).andThen placeless = placeless :=
  ext rfl rfl rfl

theorem meaning_andThen_meaning : meaning.andThen meaning = meaning :=
  ext (funext Script.normalize_normalize) rfl rfl

theorem normalize_eq_of_name_eq (view : View) {name other : String}
    (h : view.name name = view.name other) : Script.normalize name = Script.normalize other := by
  rw [<- view.normalize_name name, h, view.normalize_name]

end View

/-!
## What is seen of a tree
-/

mutual

def Value.through (view : View) : Value H -> Value H
  | .str text => .str text
  | .int n => .int n
  | .function params body => .function (params.map view.name) (body.through view)
  | .native params handle => .native (params.map view.name) handle

def Expr.through (view : View) : Expr H -> Expr H
  | .assign target value => .assign (view.name target) (value.through view)
  | .var name => .var (view.name name)
  | .binary left operator right =>
      .binary (left.through view) (view.operator operator) (right.through view)
  | .unary operator operand => .unary (view.operator operator) (operand.through view)
  | .call callee args => .call (callee.through view) (Expr.allThrough view args)
  | .literal value => .literal (value.through view)
  | .group inner => if view.groups then .group (inner.through view) else inner.through view

def Expr.allThrough (view : View) : List (Expr H) -> List (Expr H)
  | [] => []
  | e :: rest => e.through view :: Expr.allThrough view rest

def Stmt.through (view : View) : Stmt H -> Stmt H
  | .branch condition onTrue onFalse =>
      .branch (condition.through view) (onTrue.through view) (onFalse.through view)
  | .loop condition body => .loop (condition.through view) (body.through view)
  | .expr value => .expr (value.through view)
  | .block body => .block (Stmt.allThrough view body)
  | .define name params body =>
      .define (view.name name) (params.map view.name) (body.through view)

def Stmt.allThrough (view : View) : List (Stmt H) -> List (Stmt H)
  | [] => []
  | s :: rest => s.through view :: Stmt.allThrough view rest

end

theorem Expr.allThrough_eq_map (view : View) (es : List (Expr H)) :
    Expr.allThrough view es = es.map (Expr.through view) := by
  induction es with
  | nil => rfl
  | cons e rest ih => rw [Expr.allThrough, ih, List.map_cons]

theorem Stmt.allThrough_eq_map (view : View) (body : List (Stmt H)) :
    Stmt.allThrough view body = body.map (Stmt.through view) := by
  induction body with
  | nil => rfl
  | cons s rest ih => rw [Stmt.allThrough, ih, List.map_cons]

mutual

theorem Value.through_whole : forall value : Value H, value.through .whole = value
  | .str _ => rfl
  | .int _ => rfl
  | .function params body => by
      simp only [Value.through, View.whole_name, List.map_id, Stmt.through_whole body]
  | .native params handle => by
      simp only [Value.through, View.whole_name, List.map_id]

theorem Expr.through_whole : forall e : Expr H, e.through .whole = e
  | .assign target value => by
      simp only [Expr.through, View.whole_name, id_eq, Expr.through_whole value]
  | .var _ => rfl
  | .binary left operator right => by
      simp only [Expr.through, View.whole_operator, id_eq, Expr.through_whole left,
        Expr.through_whole right]
  | .unary operator operand => by
      simp only [Expr.through, View.whole_operator, id_eq, Expr.through_whole operand]
  | .call callee args => by
      simp only [Expr.through, Expr.through_whole callee, Expr.allThrough_whole args]
  | .literal value => by
      simp only [Expr.through, Value.through_whole value]
  | .group inner => by
      simp only [Expr.through, View.whole_groups, if_true, Expr.through_whole inner]

theorem Expr.allThrough_whole : forall es : List (Expr H), Expr.allThrough .whole es = es
  | [] => rfl
  | e :: rest => by
      simp only [Expr.allThrough, Expr.through_whole e, Expr.allThrough_whole rest]

theorem Stmt.through_whole : forall s : Stmt H, s.through .whole = s
  | .branch condition onTrue onFalse => by
      simp only [Stmt.through, Expr.through_whole condition, Stmt.through_whole onTrue,
        Stmt.through_whole onFalse]
  | .loop condition body => by
      simp only [Stmt.through, Expr.through_whole condition, Stmt.through_whole body]
  | .expr value => by
      simp only [Stmt.through, Expr.through_whole value]
  | .block body => by
      simp only [Stmt.through, Stmt.allThrough_whole body]
  | .define name params body => by
      simp only [Stmt.through, View.whole_name, id_eq, List.map_id, Stmt.through_whole body]

theorem Stmt.allThrough_whole : forall body : List (Stmt H), Stmt.allThrough .whole body = body
  | [] => rfl
  | s :: rest => by
      simp only [Stmt.allThrough, Stmt.through_whole s, Stmt.allThrough_whole rest]

end

section Twice

variable (first second : View)

mutual

theorem Value.through_through : forall value : Value H,
    (value.through first).through second = value.through (first.andThen second)
  | .str _ => rfl
  | .int _ => rfl
  | .function params body => by
      simp only [Value.through, List.map_map, Stmt.through_through body, View.andThen]
  | .native params handle => by
      simp only [Value.through, List.map_map, View.andThen]

theorem Expr.through_through : forall e : Expr H,
    (e.through first).through second = e.through (first.andThen second)
  | .assign target value => by
      simp only [Expr.through, Expr.through_through value]
      rfl
  | .var _ => rfl
  | .binary left operator right => by
      simp only [Expr.through, Expr.through_through left, Expr.through_through right]
      rfl
  | .unary operator operand => by
      simp only [Expr.through, Expr.through_through operand]
      rfl
  | .call callee args => by
      simp only [Expr.through, Expr.through_through callee, Expr.allThrough_allThrough args]
  | .literal value => by
      simp only [Expr.through, Value.through_through value]
  | .group inner => by
      have hinner := Expr.through_through inner
      have hgroups : (first.andThen second).groups = (first.groups && second.groups) := rfl
      cases hfirst : first.groups <;> cases hsecond : second.groups <;>
        simp [Expr.through, hgroups, hfirst, hsecond, hinner]

theorem Expr.allThrough_allThrough : forall es : List (Expr H),
    Expr.allThrough second (Expr.allThrough first es) =
      Expr.allThrough (first.andThen second) es
  | [] => rfl
  | e :: rest => by
      simp only [Expr.allThrough, Expr.through_through e, Expr.allThrough_allThrough rest]

theorem Stmt.through_through : forall s : Stmt H,
    (s.through first).through second = s.through (first.andThen second)
  | .branch condition onTrue onFalse => by
      simp only [Stmt.through, Expr.through_through condition, Stmt.through_through onTrue,
        Stmt.through_through onFalse]
  | .loop condition body => by
      simp only [Stmt.through, Expr.through_through condition, Stmt.through_through body]
  | .expr value => by
      simp only [Stmt.through, Expr.through_through value]
  | .block body => by
      simp only [Stmt.through, Stmt.allThrough_allThrough body]
  | .define name params body => by
      simp only [Stmt.through, List.map_map, Stmt.through_through body]
      rfl

theorem Stmt.allThrough_allThrough : forall body : List (Stmt H),
    Stmt.allThrough second (Stmt.allThrough first body) =
      Stmt.allThrough (first.andThen second) body
  | [] => rfl
  | s :: rest => by
      simp only [Stmt.allThrough, Stmt.through_through s, Stmt.allThrough_allThrough rest]

end

end Twice

/-!
## Trees that look alike

Each relation says how far two trees that look alike are made of parts that do. An
expression has to be freed of unseen groupings around it first.
-/

variable {view : View}

inductive Value.Matched (view : View) : Value H -> Value H -> Prop where
  | str (text : String) : Value.Matched view (.str text) (.str text)
  | int (n : Int) : Value.Matched view (.int n) (.int n)
  | function {params params' : List String} {body body' : Stmt H} :
      params.map view.name = params'.map view.name -> body.through view = body'.through view ->
      Value.Matched view (.function params body) (.function params' body')
  | native {params params' : List String} {handle : H} :
      params.map view.name = params'.map view.name ->
      Value.Matched view (.native params handle) (.native params' handle)

theorem Value.matched_of_through {v w : Value H} (h : v.through view = w.through view) :
    v.Matched view w := by
  cases v <;> cases w <;> simp only [through, reduceCtorEq, str.injEq, int.injEq,
    function.injEq, native.injEq] at h
  · rw [h]
    exact .str _
  · rw [h]
    exact .int _
  · exact .function h.left h.right
  · rw [h.right]
    exact .native h.left

def Expr.bare (view : View) : Expr H -> Expr H
  | .group inner => if view.groups then .group inner else inner.bare view
  | e => e

theorem Expr.through_bare (e : Expr H) : (e.bare view).through view = e.through view := by
  fun_induction Expr.bare view e with
  | case1 inner hgroups => rfl
  | case2 inner hgroups ih => rw [ih, Expr.through, if_neg hgroups]
  | case3 => rfl

theorem Expr.groups_of_bare_eq_group {e inner : Expr H} (h : e.bare view = .group inner) :
    view.groups = true := by
  fun_induction Expr.bare view e with
  | case1 inner hgroups => exact hgroups
  | case2 inner hgroups ih => exact ih h
  | case3 e hgroup => exact absurd h (hgroup inner)

inductive Expr.Matched (view : View) : Expr H -> Expr H -> Prop where
  | assign {target target' : String} {value value' : Expr H} :
      view.name target = view.name target' -> value.through view = value'.through view ->
      Expr.Matched view (.assign target value) (.assign target' value')
  | var {name name' : String} :
      view.name name = view.name name' -> Expr.Matched view (.var name) (.var name')
  | binary {left right left' right' : Expr H} {operator operator' : Token} :
      left.through view = left'.through view -> operator.kind = operator'.kind ->
      right.through view = right'.through view ->
      Expr.Matched view (.binary left operator right) (.binary left' operator' right')
  | unary {operand operand' : Expr H} {operator operator' : Token} :
      operator.kind = operator'.kind -> operand.through view = operand'.through view ->
      Expr.Matched view (.unary operator operand) (.unary operator' operand')
  | call {callee callee' : Expr H} {args args' : List (Expr H)} :
      callee.through view = callee'.through view ->
      Expr.allThrough view args = Expr.allThrough view args' ->
      Expr.Matched view (.call callee args) (.call callee' args')
  | literal {value value' : Value H} :
      value.through view = value'.through view ->
      Expr.Matched view (.literal value) (.literal value')
  | group {inner inner' : Expr H} :
      inner.through view = inner'.through view ->
      Expr.Matched view (.group inner) (.group inner')

theorem View.kind_eq_of_operator_eq {operator operator' : Token}
    (h : view.operator operator = view.operator operator') : operator.kind = operator'.kind := by
  rw [<- view.kind_operator operator, h, view.kind_operator]

theorem Expr.matched_of_through {e e' : Expr H} (h : e.through view = e'.through view)
    (he : forall inner, e = .group inner -> view.groups = true)
    (he' : forall inner, e' = .group inner -> view.groups = true) : e.Matched view e' := by
  cases e <;> cases e' <;> simp_all [through]
  · exact .assign h.left h.right
  · exact .var h
  · exact .binary h.left (View.kind_eq_of_operator_eq h.right.left) h.right.right
  · exact .unary (View.kind_eq_of_operator_eq h.left) h.right
  · exact .call h.left h.right
  · exact .literal h
  · exact .group h

inductive Stmt.Matched (view : View) : Stmt H -> Stmt H -> Prop where
  | branch {condition condition' : Expr H} {onTrue onFalse onTrue' onFalse' : Stmt H} :
      condition.through view = condition'.through view ->
      onTrue.through view = onTrue'.through view ->
      onFalse.through view = onFalse'.through view ->
      Stmt.Matched view (.branch condition onTrue onFalse) (.branch condition' onTrue' onFalse')
  | loop {condition condition' : Expr H} {body body' : Stmt H} :
      condition.through view = condition'.through view ->
      body.through view = body'.through view ->
      Stmt.Matched view (.loop condition body) (.loop condition' body')
  | expr {value value' : Expr H} :
      value.through view = value'.through view -> Stmt.Matched view (.expr value) (.expr value')
  | block {body body' : List (Stmt H)} :
      Stmt.allThrough view body = Stmt.allThrough view body' ->
      Stmt.Matched view (.block body) (.block body')
  | define {name name' : String} {params params' : List String} {body body' : Stmt H} :
      view.name name = view.name name' -> params.map view.name = params'.map view.name ->
      body.through view = body'.through view ->
      Stmt.Matched view (.define name params body) (.define name' params' body')

theorem Stmt.matched_of_through {s s' : Stmt H} (h : s.through view = s'.through view) :
    s.Matched view s' := by
  cases s <;> cases s' <;> simp only [through, reduceCtorEq, branch.injEq, loop.injEq,
    expr.injEq, block.injEq, define.injEq] at h
  · exact .branch h.left h.right.left h.right.right
  · exact .loop h.left h.right
  · exact .expr h
  · exact .block h
  · exact .define h.left h.right.left h.right.right

end Lisan
