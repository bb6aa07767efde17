import Lisan.Proofs.Grammar.Programs
import Lisan.Proofs.Tree.View

/-!
# Phrases in a view

A view that shows all names and groupings, and so changes nothing but the places of
tokens, can be looked through before reading or after: the tokens that it shows make up
the tree that it shows.
-/

namespace Lisan
namespace Grammar

variable {H : Type} {view : View}

/-- Of the tokens of each phrase the view shows a phrase of the other kind, and of the
tree what is seen. -/
def Carries (view : View) (see : α -> α) (Phrase Shown : List Token -> α -> Prop) : Prop :=
  forall ⦃tokens : List Token⦄ ⦃a : α⦄, Phrase tokens a ->
    Shown (tokens.map view.operator) (see a)

/-!
## Phrases in a row
-/

section Rows

variable {Item Shown : List Token -> α -> Prop} {see : α -> α}

theorem separated_carries (hitem : Carries view see Item Shown) :
    Carries view (List.map see) (Separated Item) (Separated Shown) := by
  intro tokens items h
  induction h with
  | single ha => exact .single (hitem ha)
  | more ha hcomma _ ih =>
      rw [List.map_append, List.map_cons]
      exact .more (hitem ha) ((view.kind_operator _).trans hcomma) ih

theorem listed_carries (hitem : Carries view see Item Shown) :
    Carries view (List.map see) (Listed Item) (Listed Shown) := by
  intro tokens items h
  cases h with
  | none hopening hclosing =>
      exact .none ((view.kind_operator _).trans hopening) ((view.kind_operator _).trans hclosing)
  | some hopening hitems hclosing =>
      rw [List.map_cons, List.map_append]
      exact .some ((view.kind_operator _).trans hopening) (separated_carries hitem hitems)
        ((view.kind_operator _).trans hclosing)

theorem repeated_carries (hitem : Carries view see Item Shown) :
    Carries view (List.map see) (Repeated Item) (Repeated Shown) := by
  intro tokens items h
  induction h with
  | nil => exact .nil
  | cons ha _ ih =>
      rw [List.map_append]
      exact .cons (hitem ha) ih

theorem repeated_append {front back : List Token} {items others : List α}
    (hfront : Repeated Item front items) (hback : Repeated Item back others) :
    Repeated Item (front ++ back) (items ++ others) := by
  induction hfront with
  | nil => exact hback
  | cons ha _ ih =>
      rw [List.append_assoc]
      exact .cons ha ih

end Rows

theorem named_carries (view : View) : Carries view id Named Named := by
  intro tokens name h
  cases h with
  | intro hname => exact .intro ((view.kind_operator _).trans hname)

/-!
## Expressions
-/

section Expressions

variable {Operand Inner Shown : List Token -> Expr H -> Prop}

theorem chain_carries {signs : List Token.Kind}
    (hoperand : Carries view (Expr.through view) Operand Shown) :
    Carries view (Expr.through view) (Chain signs Operand) (Chain signs Shown) := by
  intro tokens e h
  induction h with
  | single h => exact .single (hoperand h)
  | more _ hoperator hright ih =>
      rw [List.map_append, List.map_cons]
      rw [<- view.kind_operator] at hoperator
      exact .more ih hoperator (hoperand hright)

theorem prefixed_carries (hoperand : Carries view (Expr.through view) Operand Shown) :
    Carries view (Expr.through view) (Prefixed Operand) (Prefixed Shown) := by
  intro tokens e h
  induction h with
  | plain h => exact .plain (hoperand h)
  | more hoperator _ ih =>
      rw [<- view.kind_operator] at hoperator
      exact .more hoperator ih

variable (hname : view.name = id) (hgroups : view.groups = true)

include hname hgroups

theorem primary_carries (hinner : Carries view (Expr.through view) Inner Shown) :
    Carries view (Expr.through view) (Primary Inner) (Primary Shown) := by
  intro tokens e h
  cases h with
  | int hkind => exact .int ((view.kind_operator _).trans hkind)
  | str hkind => exact .str ((view.kind_operator _).trans hkind)
  | var hkind =>
      rw [Expr.through, hname]
      exact .var ((view.kind_operator _).trans hkind)
  | group hopening h hclosing =>
      rw [Expr.through, if_pos hgroups, List.map_cons, List.map_append]
      exact .group ((view.kind_operator _).trans hopening) (hinner h)
        ((view.kind_operator _).trans hclosing)

theorem called_carries (hinner : Carries view (Expr.through view) Inner Shown) :
    Carries view (Expr.through view) (Called Inner) (Called Shown) := by
  have hprimary := primary_carries hname hgroups hinner
  intro tokens e h
  cases h with
  | plain h => exact .plain (hprimary h)
  | call hcallee hargs =>
      rw [List.map_append, Expr.through, Expr.allThrough_eq_map]
      exact .call (hprimary hcallee) (listed_carries hinner hargs)

theorem assigned_carries (hinner : Carries view (Expr.through view) Inner Shown) :
    Carries view (Expr.through view) (Assigned Inner) (Assigned Shown) := by
  intro tokens e h
  cases h with
  | assign htarget hsign h =>
      rw [Expr.through, hname]
      exact .assign ((view.kind_operator _).trans htarget) ((view.kind_operator _).trans hsign)
        (hinner h)
  | plain h =>
      have hunary := prefixed_carries (called_carries hname hgroups hinner)
      exact .plain (chain_carries (chain_carries (chain_carries (chain_carries hunary))) h)

end Expressions

/-!
## Statements
-/

section Sentences

variable {Whole WholeShown : List Token -> Expr H -> Prop}
  {Inner Shown : List Token -> Stmt H -> Prop}

theorem braced_carries (hinner : Carries view (Stmt.through view) Inner Shown) :
    Carries view (Stmt.through view) (Braced Inner) (Braced Shown) := by
  intro tokens s h
  cases h with
  | intro hopening hbody hclosing =>
      rw [Stmt.through, Stmt.allThrough_eq_map, List.map_cons, List.map_append]
      exact .intro ((view.kind_operator _).trans hopening) (repeated_carries hinner hbody)
        ((view.kind_operator _).trans hclosing)

theorem sentence_carries (hname : view.name = id)
    (hwhole : Carries view (Expr.through view) Whole WholeShown)
    (hinner : Carries view (Stmt.through view) Inner Shown) :
    Carries view (Stmt.through view) (Sentence Whole Inner) (Sentence WholeShown Shown) := by
  have hblock := braced_carries hinner
  intro tokens s h
  cases h with
  | define hkeyword htarget hnames hbody =>
      have hparams := listed_carries (named_carries view) hnames
      rw [List.map_id] at hparams
      rw [Stmt.through, hname, List.map_id, id_eq, List.map_cons, List.map_cons, List.map_append]
      exact .define ((view.kind_operator _).trans hkeyword)
        ((view.kind_operator _).trans htarget) hparams (hblock hbody)
  | branch hkeyword hcondition honTrue =>
      rw [List.map_cons, List.map_append]
      exact .branch ((view.kind_operator _).trans hkeyword) (hwhole hcondition) (hblock honTrue)
  | branchElse hkeyword hcondition honTrue hotherwise honFalse =>
      rw [List.map_cons, List.map_append, List.map_append, List.map_cons]
      exact .branchElse ((view.kind_operator _).trans hkeyword) (hwhole hcondition)
        (hblock honTrue) ((view.kind_operator _).trans hotherwise) (hblock honFalse)
  | loop hkeyword hcondition hbody =>
      rw [List.map_cons, List.map_append]
      exact .loop ((view.kind_operator _).trans hkeyword) (hwhole hcondition) (hblock hbody)
  | block hbody => exact .block (hblock hbody)
  | simple hvalue hstop =>
      rw [List.map_append]
      exact .simple (hwhole hvalue) ((view.kind_operator _).trans hstop)

end Sentences

/-!
## Programs
-/

theorem program_through (hname : view.name = id) (hgroups : view.groups = true)
    {tokens rest : List Token} {body : List (Stmt H)} {bound : Nat}
    (h : program bound tokens = .ok body rest) :
    Repeated Statement (tokens.map view.operator) (body.map (Stmt.through view)) := by
  have hexpression : Carries view (Expr.through view)
      (fun tokens (e : Expr H) => Expression (tokens.map view.operator) (e.through view))
      Expression :=
    fun _ _ h => h
  have hstatement : Carries view (Stmt.through view)
      (fun tokens (s : Stmt H) => Statement (tokens.map view.operator) (s.through view))
      Statement :=
    fun _ _ h => h
  have hassigned := assigned_carries hname hgroups hexpression
  have hsentence := sentence_carries hname hexpression hstatement
  exact repeated_carries hstatement
    (repeated_of_program (fun h => .intro (hassigned h)) (fun h => .intro (hsentence h)) h)

end Grammar
end Lisan
