import Lisan.Proofs.Value
import Lisan.Tree.Equality
import Mathlib.Data.List.Forall2

/-!
# Trees that are the same

A tree is made of its frame, in which no literal says what it holds, and of the values of
its literals, in the order in which they stand. Two trees are the same if and only if they
have the same frame and the same texts in the places of literals. So sameness of trees is
as good an equality as that of values: symmetric and transitive, and reflexive where no
literal can be called.
-/

namespace Lisan

variable {H : Type}

/-!
## Frames and literals
-/

mutual

/-- The expression with the same text in the place of every literal. -/
def Expr.frame : Expr H -> Expr H
  | .assign target value => .assign target value.frame
  | .var name => .var name
  | .binary left operator right => .binary left.frame operator right.frame
  | .unary operator operand => .unary operator operand.frame
  | .call callee args => .call callee.frame (Expr.frames args)
  | .literal _ => .literal (.str "")
  | .group inner => .group inner.frame

def Expr.frames : List (Expr H) -> List (Expr H)
  | [] => []
  | e :: rest => e.frame :: Expr.frames rest

end

mutual

def Stmt.frame : Stmt H -> Stmt H
  | .branch condition onTrue onFalse =>
      .branch condition.frame onTrue.frame onFalse.frame
  | .loop condition body => .loop condition.frame body.frame
  | .expr value => .expr value.frame
  | .block body => .block (Stmt.frames body)
  | .define name params body => .define name params body.frame

def Stmt.frames : List (Stmt H) -> List (Stmt H)
  | [] => []
  | s :: rest => s.frame :: Stmt.frames rest

end

mutual

/-- The values that the expression holds as literals, from left to right. A literal that
is a function holds a body, and the literals of that are not among them. -/
def Expr.literals : Expr H -> List (Value H)
  | .assign _ value => value.literals
  | .var _ => []
  | .binary left _ right => left.literals ++ right.literals
  | .unary _ operand => operand.literals
  | .call callee args => callee.literals ++ Expr.literalsAll args
  | .literal value => [value]
  | .group inner => inner.literals

def Expr.literalsAll : List (Expr H) -> List (Value H)
  | [] => []
  | e :: rest => e.literals ++ Expr.literalsAll rest

end

mutual

def Stmt.literals : Stmt H -> List (Value H)
  | .branch condition onTrue onFalse =>
      condition.literals ++ (onTrue.literals ++ onFalse.literals)
  | .loop condition body => condition.literals ++ body.literals
  | .expr value => value.literals
  | .block body => Stmt.literalsAll body
  | .define _ _ body => body.literals

def Stmt.literalsAll : List (Stmt H) -> List (Value H)
  | [] => []
  | s :: rest => s.literals ++ Stmt.literalsAll rest

end

mutual

theorem Expr.length_literals_frame : forall e : Expr H,
    e.frame.literals.length = e.literals.length
  | .assign _ value => by simp only [frame, literals, length_literals_frame value]
  | .var _ => rfl
  | .binary left _ right => by
      simp only [frame, literals, List.length_append, length_literals_frame left,
        length_literals_frame right]
  | .unary _ operand => by simp only [frame, literals, length_literals_frame operand]
  | .call callee args => by
      simp only [frame, literals, List.length_append, length_literals_frame callee,
        length_literalsAll_frames args]
  | .literal _ => rfl
  | .group inner => by simp only [frame, literals, length_literals_frame inner]

theorem Expr.length_literalsAll_frames : forall es : List (Expr H),
    (Expr.literalsAll (Expr.frames es)).length = (Expr.literalsAll es).length
  | [] => rfl
  | e :: rest => by
      simp only [frames, literalsAll, List.length_append, length_literals_frame e,
        length_literalsAll_frames rest]

end

mutual

theorem Stmt.length_literals_frame : forall s : Stmt H,
    s.frame.literals.length = s.literals.length
  | .branch condition onTrue onFalse => by
      simp only [frame, literals, List.length_append, condition.length_literals_frame,
        length_literals_frame onTrue, length_literals_frame onFalse]
  | .loop condition body => by
      simp only [frame, literals, List.length_append, condition.length_literals_frame,
        length_literals_frame body]
  | .expr value => value.length_literals_frame
  | .block body => length_literalsAll_frames body
  | .define _ _ body => length_literals_frame body

theorem Stmt.length_literalsAll_frames : forall body : List (Stmt H),
    (Stmt.literalsAll (Stmt.frames body)).length = (Stmt.literalsAll body).length
  | [] => rfl
  | s :: rest => by
      simp only [frames, literalsAll, List.length_append, length_literals_frame s,
        length_literalsAll_frames rest]

end

/-!
## Sameness
-/

def SameTexts : List (Value H) -> List (Value H) -> Prop :=
  List.Forall₂ Value.SameText

theorem SameTexts.symm {values others : List (Value H)} (h : SameTexts values others) :
    SameTexts others values :=
  (h.imp fun _ _ => Value.SameText.symm).flip

theorem SameTexts.trans {values others third : List (Value H)} (h : SameTexts values others)
    (h' : SameTexts others third) : SameTexts values third := by
  induction h generalizing third with
  | nil => exact h'
  | cons hv _ ih =>
      cases h' with
      | cons hw hrest => exact .cons (hv.trans hw) (ih hrest)

theorem sameTexts_self_iff {values : List (Value H)} :
    SameTexts values values <-> forall v, v ∈ values -> Not v.Callable := by
  rw [SameTexts, List.forall₂_same]
  simp only [Value.sameText_self_iff]

theorem sameTexts_append {front front' back back' : List (Value H)}
    (h : front.length = front'.length) :
    SameTexts (front ++ back) (front' ++ back') <->
      SameTexts front front' ∧ SameTexts back back' := by
  constructor
  · intro hboth
    have hfront := List.forall₂_take front.length hboth
    have hback := List.forall₂_drop front.length hboth
    rw [List.take_left, h, List.take_left] at hfront
    rw [List.drop_left, h, List.drop_left] at hback
    exact ⟨hfront, hback⟩
  · intro hboth
    exact List.rel_append hboth.left hboth.right

theorem and_sameTexts_append {p q : Prop} {front front' back back' : List (Value H)}
    (h : p -> front.length = front'.length) :
    (p ∧ SameTexts front front') ∧ (q ∧ SameTexts back back') <->
      (p ∧ q) ∧ SameTexts (front ++ back) (front' ++ back') := by
  constructor
  · intro hparts
    rcases hparts with ⟨⟨hp, hfront⟩, hq, hback⟩
    exact ⟨⟨hp, hq⟩, (sameTexts_append (h hp)).mpr ⟨hfront, hback⟩⟩
  · intro hwhole
    rcases hwhole with ⟨⟨hp, hq⟩, hboth⟩
    rcases (sameTexts_append (h hp)).mp hboth with ⟨hfront, hback⟩
    exact ⟨⟨hp, hfront⟩, hq, hback⟩

theorem Expr.length_literals_of_frame_eq {e e' : Expr H} (h : e.frame = e'.frame) :
    e.literals.length = e'.literals.length := by
  rw [<- e.length_literals_frame, h, e'.length_literals_frame]

theorem Stmt.length_literals_of_frame_eq {s s' : Stmt H} (h : s.frame = s'.frame) :
    s.literals.length = s'.literals.length := by
  rw [<- s.length_literals_frame, h, s'.length_literals_frame]

mutual

theorem Expr.same_iff : forall e e' : Expr H,
    e.same e' = true <-> e.frame = e'.frame ∧ SameTexts e.literals e'.literals
  | .assign target value, e' => by
      cases e' with
      | assign target' value' => simp [same, frame, literals, same_iff value value', and_assoc]
      | _ => simp [same, frame]
  | .var name, e' => by
      cases e' with
      | var name' => simp [same, frame, literals, SameTexts]
      | _ => simp [same, frame]
  | .binary left operator right, e' => by
      cases e' with
      | binary left' operator' right' =>
          simp only [same, frame, literals, Bool.and_eq_true, beq_iff_eq, binary.injEq,
            same_iff left left', same_iff right right']
          rw [and_assoc, <- and_assoc (a := operator = operator')]
          exact and_sameTexts_append length_literals_of_frame_eq
      | _ => simp [same, frame]
  | .unary operator operand, e' => by
      cases e' with
      | unary operator' operand' =>
          simp [same, frame, literals, same_iff operand operand', and_assoc]
      | _ => simp [same, frame]
  | .call callee args, e' => by
      cases e' with
      | call callee' args' =>
          simp only [same, frame, literals, Bool.and_eq_true, call.injEq,
            same_iff callee callee', sameAll_iff args args']
          exact and_sameTexts_append length_literals_of_frame_eq
      | _ => simp [same, frame]
  | .literal value, e' => by
      cases e' with
      | literal value' => simp [same, frame, literals, SameTexts, Value.same_iff_sameText]
      | _ => simp [same, frame]
  | .group inner, e' => by
      cases e' with
      | group inner' => simp [same, frame, literals, same_iff inner inner']
      | _ => simp [same, frame]

theorem Expr.sameAll_iff : forall es es' : List (Expr H),
    Expr.sameAll es es' = true <->
      Expr.frames es = Expr.frames es' ∧ SameTexts (Expr.literalsAll es) (Expr.literalsAll es')
  | [], es' => by
      cases es' with
      | nil => simp [sameAll, SameTexts, literalsAll]
      | cons e' rest' => simp [sameAll, frames]
  | e :: rest, es' => by
      cases es' with
      | nil => simp [sameAll, frames]
      | cons e' rest' =>
          simp only [sameAll, frames, literalsAll, Bool.and_eq_true, List.cons.injEq,
            same_iff e e', sameAll_iff rest rest']
          exact and_sameTexts_append length_literals_of_frame_eq

end

mutual

theorem Stmt.same_iff : forall s s' : Stmt H,
    s.same s' = true <-> s.frame = s'.frame ∧ SameTexts s.literals s'.literals
  | .branch condition onTrue onFalse, s' => by
      cases s' with
      | branch condition' onTrue' onFalse' =>
          simp only [same, frame, literals, Bool.and_eq_true, branch.injEq,
            condition.same_iff, same_iff onTrue onTrue', same_iff onFalse onFalse']
          rw [and_assoc, and_sameTexts_append length_literals_of_frame_eq]
          exact and_sameTexts_append Expr.length_literals_of_frame_eq
      | _ => simp [same, frame]
  | .loop condition body, s' => by
      cases s' with
      | loop condition' body' =>
          simp only [same, frame, literals, Bool.and_eq_true, loop.injEq, condition.same_iff,
            same_iff body body']
          exact and_sameTexts_append Expr.length_literals_of_frame_eq
      | _ => simp [same, frame]
  | .expr value, s' => by
      cases s' with
      | expr value' => simp [same, frame, literals, value.same_iff]
      | _ => simp [same, frame]
  | .block body, s' => by
      cases s' with
      | block body' => simp [same, frame, literals, sameAll_iff body body']
      | _ => simp [same, frame]
  | .define name params body, s' => by
      cases s' with
      | define name' params' body' =>
          simp [same, frame, literals, same_iff body body', and_assoc]
      | _ => simp [same, frame]

theorem Stmt.sameAll_iff : forall body body' : List (Stmt H),
    Stmt.sameAll body body' = true <->
      Stmt.frames body = Stmt.frames body' ∧
        SameTexts (Stmt.literalsAll body) (Stmt.literalsAll body')
  | [], body' => by
      cases body' with
      | nil => simp [sameAll, SameTexts, literalsAll]
      | cons s' rest' => simp [sameAll, frames]
  | s :: rest, body' => by
      cases body' with
      | nil => simp [sameAll, frames]
      | cons s' rest' =>
          simp only [sameAll, frames, literalsAll, Bool.and_eq_true, List.cons.injEq,
            same_iff s s', sameAll_iff rest rest']
          exact and_sameTexts_append length_literals_of_frame_eq

end

/-- Sameness of statements is symmetric and transitive, and a statement is the same as
itself if and only if none of its literals can be called. Two statements are the same if
and only if they have the same frame, and in the places of literals the same texts. -/
theorem same_is_partial_equivalence :
    (forall p q : Stmt H, p.same q = true -> q.same p = true) ∧
    (forall p q r : Stmt H, p.same q = true -> q.same r = true -> p.same r = true) ∧
    (forall p : Stmt H, p.same p = true <-> forall v, v ∈ p.literals -> Not v.Callable) ∧
    forall p q : Stmt H, p.same q = true <->
      p.frame = q.frame ∧ SameTexts p.literals q.literals := by
  refine ⟨?_, ?_, ?_, Stmt.same_iff⟩
  · intro p q h
    rw [Stmt.same_iff] at h ⊢
    exact ⟨h.left.symm, h.right.symm⟩
  · intro p q r h h'
    rw [Stmt.same_iff] at h h' ⊢
    exact ⟨h.left.trans h'.left, h.right.trans h'.right⟩
  · intro p
    rw [Stmt.same_iff, sameTexts_self_iff]
    exact and_iff_right rfl

example : (Expr.literal (.int (-5)) : Expr H).same (.literal (.str "-5")) = true := rfl

end Lisan
