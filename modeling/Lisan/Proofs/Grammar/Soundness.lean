import Lisan.Proofs.Grammar.Statement
import Lisan.Proofs.Grammar.Reading

/-!
# Readers take only phrases

What a reader of the language takes off its tokens is a phrase of the tree that
it gives. Each level is shown for any reading of the expressions or statements
inside it; the two readers that call themselves are then settled by induction on
their depth, for every relation that is closed under the rules of one level.
-/

namespace Lisan
namespace Grammar

open Reader

variable {H : Type}

/-!
## Levels of expressions
-/

section Levels

variable {inner : Reader (Expr H)} {Inner : List Token -> Expr H -> Prop}

theorem primary_reads (hinner : Reads inner Inner) :
    Reads (primary inner) (Primary Inner) := by
  intro tokens rest e h
  unfold primary at h
  split at h
  · cases h
    exact ⟨[_], rfl, .int rfl⟩
  · cases h
    exact ⟨[_], rfl, .str rfl⟩
  · cases h
    exact ⟨[_], rfl, .var rfl⟩
  · rename_i place others
    rcases bind_eq_ok_iff.mp h with ⟨enclosed, mid, henclosed, h⟩
    rcases bind_eq_ok_iff.mp h with ⟨closed, last, hclosed, h⟩
    cases closed with
    | false => exact absurd h throw_ne_ok
    | true =>
        rcases of_accept_eq_true hclosed with ⟨closing, hclosing, hmid⟩
        rcases pure_eq_ok_iff.mp h with ⟨he, hlast⟩
        rcases hinner henclosed with ⟨used, hothers, hused⟩
        refine ⟨⟨.openParen, place⟩ :: (used ++ [closing]), ?_, ?_⟩
        · rw [hothers, hmid, hlast]
          simp
        · rw [<- he]
          exact .group rfl hused hclosing
  · exact absurd h refuse_ne_ok

theorem call_reads (hinner : Reads inner Inner) (bound : Nat) :
    Reads (call inner bound) (Called Inner) := by
  intro tokens rest e h
  rcases bind_eq_ok_iff.mp h with ⟨callee, mid, hcallee, h⟩
  rcases bind_eq_ok_iff.mp h with ⟨opened, behind, hopened, h⟩
  rcases primary_reads hinner hcallee with ⟨front, htokens, hfront⟩
  cases opened with
  | false =>
      rcases pure_eq_ok_iff.mp h with ⟨he, hbehind⟩
      refine ⟨front, ?_, ?_⟩
      · rw [htokens, <- of_accept_eq_false hopened, hbehind]
      · rw [<- he]
        exact .plain hfront
  | true =>
      rcases of_accept_eq_true hopened with ⟨opening, hopening, hmid⟩
      rcases bind_eq_ok_iff.mp h with ⟨args, last, hargs, h⟩
      rcases pure_eq_ok_iff.mp h with ⟨he, hlast⟩
      rcases items_reads hinner bound hargs with ⟨used, hbehind, hused⟩
      refine ⟨front ++ opening :: used, ?_, ?_⟩
      · rw [htokens, hmid, hbehind, hlast]
        simp
      · rw [<- he]
        exact .call hfront (hused hopening)

theorem unary_reads (hinner : Reads inner Inner) (bound : Nat) :
    forall depth, Reads (unary inner bound depth) (Prefixed (Called Inner)) := by
  intro depth
  induction depth with
  | zero =>
      intro tokens rest e h
      exact absurd h throw_ne_ok
  | succ depth ih =>
      intro tokens rest e h
      rcases bind_eq_ok_iff.mp h with ⟨taken, mid, htaken, h⟩
      cases taken with
      | none =>
          rcases call_reads hinner bound h with ⟨used, hmid, hused⟩
          rw [of_take?_eq_none htaken] at hmid
          exact ⟨used, hmid, .plain hused⟩
      | some operator =>
          rcases of_take?_eq_some htaken with ⟨hkind, htokens⟩
          rcases bind_eq_ok_iff.mp h with ⟨operand, last, hoperand, h⟩
          rcases pure_eq_ok_iff.mp h with ⟨he, hlast⟩
          rcases ih hoperand with ⟨used, hmid, hused⟩
          refine ⟨operator :: used, ?_, ?_⟩
          · rw [htokens, hmid, hlast]
            rfl
          · rw [<- he]
            exact .more (isUnary_iff.mp hkind) hused

section Chains

variable {level : Token.Kind -> Bool} {signs : List Token.Kind}
variable {operand : Reader (Expr H)} {Operand : List Token -> Expr H -> Prop}

theorem chainFrom_reads (hlevel : forall {kind}, level kind = true -> kind ∈ signs)
    (hoperand : Reads operand Operand) :
    forall bound left, Reads (chainFrom level operand bound left) fun used e =>
      forall {front}, Chain signs Operand front left ->
        Chain signs Operand (front ++ used) e := by
  intro bound
  induction bound with
  | zero =>
      intro left tokens rest e h
      exact absurd h throw_ne_ok
  | succ bound ih =>
      intro left tokens rest e h
      rcases bind_eq_ok_iff.mp h with ⟨taken, mid, htaken, h⟩
      cases taken with
      | none =>
          rcases pure_eq_ok_iff.mp h with ⟨he, hmid⟩
          refine ⟨[], ?_, ?_⟩
          · rw [<- hmid, of_take?_eq_none htaken]
            rfl
          · intro front hfront
            rw [<- he, List.append_nil]
            exact hfront
      | some operator =>
          rcases of_take?_eq_some htaken with ⟨hkind, htokens⟩
          rcases bind_eq_ok_iff.mp h with ⟨right, behind, hright, h⟩
          rcases hoperand hright with ⟨back, hmid, hback⟩
          rcases ih _ h with ⟨used, hbehind, hused⟩
          refine ⟨operator :: (back ++ used), ?_, ?_⟩
          · rw [htokens, hmid, hbehind]
            simp
          · intro front hfront
            have hchain := hused (.more hfront (hlevel hkind) hback)
            simpa using hchain

theorem chain_reads (hlevel : forall {kind}, level kind = true -> kind ∈ signs)
    (hoperand : Reads operand Operand) (bound : Nat) :
    Reads (chain level operand bound) (Chain signs Operand) := by
  intro tokens rest e h
  rcases bind_eq_ok_iff.mp h with ⟨first, mid, hfirst, h⟩
  rcases hoperand hfirst with ⟨front, htokens, hfront⟩
  rcases chainFrom_reads hlevel hoperand bound first h with ⟨used, hmid, hused⟩
  refine ⟨front ++ used, ?_, hused (.single hfront)⟩
  rw [htokens, hmid, List.append_assoc]

end Chains

theorem equality_reads (hinner : Reads inner Inner) (bound : Nat) :
    Reads (equality inner bound)
      (Chain [.equal, .notEqual]
        (Chain [.greater, .greaterEqual, .less, .lessEqual]
          (Chain [.plus, .minus]
            (Chain [.star, .slash]
              (Prefixed (Called Inner)))))) := by
  have hunary := unary_reads hinner bound bound
  have hfactor := chain_reads isMultiplicative_iff.mp hunary bound
  have hterm := chain_reads isAdditive_iff.mp hfactor bound
  have hcomparison := chain_reads isComparison_iff.mp hterm bound
  exact chain_reads isEquality_iff.mp hcomparison bound

theorem eq_singleton_of_chain_var {signs : List Token.Kind}
    {Operand : List Token -> Expr H -> Prop} {tokens : List Token} {name : String}
    (hoperand : Operand tokens (.var name) ->
      exists token : Token, token.kind = .name name ∧ tokens = [token])
    (h : Chain signs Operand tokens (.var name)) :
    exists token : Token, token.kind = .name name ∧ tokens = [token] := by
  cases h with
  | single hsingle => exact hoperand hsingle

theorem eq_singleton_of_called_var {tokens : List Token} {name : String}
    (h : Prefixed (Called Inner) tokens (.var name)) :
    exists token : Token, token.kind = .name name ∧ tokens = [token] := by
  cases h with
  | plain hcalled =>
      cases hcalled with
      | plain hprimary =>
          cases hprimary with
          | var hkind => exact ⟨_, hkind, rfl⟩

theorem assignment_reads (hinner : Reads inner Inner) (bound : Nat) :
    Reads (assignment inner bound) (Assigned Inner) := by
  intro tokens rest e h
  rcases bind_eq_ok_iff.mp h with ⟨left, mid, hleft, h⟩
  rcases bind_eq_ok_iff.mp h with ⟨taken, behind, htaken, h⟩
  rcases equality_reads hinner bound hleft with ⟨front, htokens, hfront⟩
  cases taken with
  | none =>
      rcases pure_eq_ok_iff.mp h with ⟨he, hbehind⟩
      refine ⟨front, ?_, ?_⟩
      · rw [htokens, <- of_take?_eq_none htaken, hbehind]
      · rw [<- he]
        exact .plain hfront
  | some sign =>
      rcases of_take?_eq_some htaken with ⟨hsign, hmid⟩
      rcases bind_eq_ok_iff.mp h with ⟨value, last, hvalue, h⟩
      rcases hinner hvalue with ⟨used, hbehind, hused⟩
      cases left with
      | var name =>
          rcases pure_eq_ok_iff.mp h with ⟨he, hlast⟩
          rcases eq_singleton_of_chain_var
            (eq_singleton_of_chain_var
              (eq_singleton_of_chain_var
                (eq_singleton_of_chain_var eq_singleton_of_called_var))) hfront with
            ⟨target, htarget, hsingle⟩
          refine ⟨target :: sign :: used, ?_, ?_⟩
          · rw [htokens, hsingle, hmid, hbehind, hlast]
            rfl
          · rw [<- he]
            exact .assign htarget (by simpa using hsign) hused
      | _ => exact absurd h throw_ne_ok

end Levels

/-- A relation that is closed under the rules of one level holds of all that is
read. -/
theorem expression_reads_of_closed {R : List Token -> Expr H -> Prop}
    (hclosed : forall {tokens e}, Assigned R tokens e -> R tokens e) :
    forall depth, Reads (expression depth) R := by
  intro depth
  induction depth with
  | zero =>
      intro tokens rest e h
      exact absurd h throw_ne_ok
  | succ depth ih =>
      intro tokens rest e h
      rcases assignment_reads ih (depth + 1) h with ⟨used, htokens, hused⟩
      exact ⟨used, htokens, hclosed hused⟩

/-!
## Statements
-/

section Sentences

variable {inner : Reader (Stmt H)} {Inner : List Token -> Stmt H -> Prop}
variable {Whole : List Token -> Expr H -> Prop}

theorem blockRest_reads (hinner : Reads inner Inner) (bound : Nat) :
    Reads (blockRest inner bound) fun used s =>
      forall {opening : Token}, opening.kind = .openBrace ->
        Braced Inner (opening :: used) s := by
  intro tokens rest s h
  rcases bind_eq_ok_iff.mp h with ⟨body, mid, hbody, h⟩
  rcases bind_eq_ok_iff.mp h with ⟨_, last, hclosing, h⟩
  rcases pure_eq_ok_iff.mp h with ⟨hs, hlast⟩
  rcases manyUntil_reads blockEnds_peeks hinner bound hbody with ⟨used, htokens, hused⟩
  rcases of_expect_eq_ok hclosing with ⟨closing, hkind, hmid⟩
  refine ⟨used ++ [closing], ?_, ?_⟩
  · rw [htokens, hmid, hlast]
    simp
  · intro opening hopening
    rw [<- hs]
    exact .intro hopening hused hkind

theorem block_reads (hinner : Reads inner Inner) (bound : Nat) :
    Reads (block inner bound) (Braced Inner) := by
  intro tokens rest s h
  rcases bind_eq_ok_iff.mp h with ⟨_, mid, hopening, h⟩
  rcases of_expect_eq_ok hopening with ⟨opening, hkind, htokens⟩
  rcases blockRest_reads hinner bound h with ⟨used, hmid, hused⟩
  refine ⟨opening :: used, ?_, hused hkind⟩
  rw [htokens, hmid]
  rfl

theorem declaration_reads (hinner : Reads inner Inner) (bound : Nat) :
    Reads (declaration inner bound) fun used s =>
      forall {keyword : Token}, keyword.kind = .functionWord ->
        Sentence Whole Inner (keyword :: used) s := by
  intro tokens rest s h
  rcases bind_eq_ok_iff.mp h with ⟨name, behind, hname, h⟩
  rcases bind_eq_ok_iff.mp h with ⟨_, opened, hopening, h⟩
  rcases bind_eq_ok_iff.mp h with ⟨params, mid, hparams, h⟩
  rcases bind_eq_ok_iff.mp h with ⟨body, last, hbody, h⟩
  rcases pure_eq_ok_iff.mp h with ⟨hs, hlast⟩
  rcases expectName_reads hname with ⟨front, htokens, hfront⟩
  rcases of_expect_eq_ok hopening with ⟨opening, hkind, hbehind⟩
  rcases items_reads expectName_reads bound hparams with ⟨names, hopened, hnames⟩
  rcases block_reads hinner bound hbody with ⟨used, hmid, hused⟩
  cases hfront with
  | @intro target _ htarget =>
      refine ⟨target :: ((opening :: names) ++ used), ?_, ?_⟩
      · rw [htokens, hbehind, hopened, hmid, hlast]
        simp
      · intro keyword hkeyword
        rw [<- hs]
        exact .define hkeyword htarget (hnames hkind) hused

theorem branch_reads (hwhole : forall depth, Reads (expression depth) Whole)
    (hinner : Reads inner Inner) (bound : Nat) :
    Reads (branch inner bound) fun used s =>
      forall {keyword : Token}, keyword.kind = .ifWord ->
        Sentence Whole Inner (keyword :: used) s := by
  intro tokens rest s h
  rcases bind_eq_ok_iff.mp h with ⟨condition, behind, hcondition, h⟩
  rcases bind_eq_ok_iff.mp h with ⟨onTrue, mid, honTrue, h⟩
  rcases bind_eq_ok_iff.mp h with ⟨onFalse, last, honFalse, h⟩
  rcases pure_eq_ok_iff.mp h with ⟨hs, hlast⟩
  rcases hwhole bound hcondition with ⟨front, htokens, hfront⟩
  rcases block_reads hinner bound honTrue with ⟨first, hbehind, hfirst⟩
  rcases bind_eq_ok_iff.mp honFalse with ⟨found, before, hfound, hother⟩
  cases found with
  | false =>
      rcases pure_eq_ok_iff.mp hother with ⟨hempty, hbefore⟩
      rw [of_accept_eq_false hfound] at hbefore
      refine ⟨front ++ first, ?_, ?_⟩
      · rw [htokens, hbehind, hbefore, hlast, List.append_assoc]
      · intro keyword hkeyword
        rw [<- hs, <- hempty]
        exact .branch hkeyword hfront hfirst
  | true =>
      rcases of_accept_eq_true hfound with ⟨otherwise, hotherwise, hmid⟩
      rcases block_reads hinner bound hother with ⟨second, hbefore, hsecond⟩
      refine ⟨front ++ (first ++ otherwise :: second), ?_, ?_⟩
      · rw [htokens, hbehind, hmid, hbefore, hlast]
        simp
      · intro keyword hkeyword
        rw [<- hs]
        exact .branchElse hkeyword hfront hfirst hotherwise hsecond

theorem loop_reads (hwhole : forall depth, Reads (expression depth) Whole)
    (hinner : Reads inner Inner) (bound : Nat) :
    Reads (loop inner bound) fun used s =>
      forall {keyword : Token}, keyword.kind = .whileWord ->
        Sentence Whole Inner (keyword :: used) s := by
  intro tokens rest s h
  rcases bind_eq_ok_iff.mp h with ⟨condition, behind, hcondition, h⟩
  rcases bind_eq_ok_iff.mp h with ⟨body, last, hbody, h⟩
  rcases pure_eq_ok_iff.mp h with ⟨hs, hlast⟩
  rcases hwhole bound hcondition with ⟨front, htokens, hfront⟩
  rcases block_reads hinner bound hbody with ⟨used, hbehind, hused⟩
  refine ⟨front ++ used, ?_, ?_⟩
  · rw [htokens, hbehind, hlast, List.append_assoc]
  · intro keyword hkeyword
    rw [<- hs]
    exact .loop hkeyword hfront hused

theorem simple_reads (hwhole : forall depth, Reads (expression depth) Whole)
    (bound : Nat) : Reads (simple bound) (Sentence Whole Inner) := by
  intro tokens rest s h
  rcases bind_eq_ok_iff.mp h with ⟨e, mid, he, h⟩
  rcases bind_eq_ok_iff.mp h with ⟨_, last, hstop, h⟩
  rcases pure_eq_ok_iff.mp h with ⟨hs, hlast⟩
  rcases hwhole bound he with ⟨front, htokens, hfront⟩
  rcases of_expect_eq_ok hstop with ⟨stop, hkind, hmid⟩
  refine ⟨front ++ [stop], ?_, ?_⟩
  · rw [htokens, hmid, hlast]
    simp
  · rw [<- hs]
    exact .simple hfront hkind

end Sentences

theorem statement_reads_of_closed {R : List Token -> Expr H -> Prop}
    {S : List Token -> Stmt H -> Prop}
    (hexpression : forall {tokens e}, Assigned R tokens e -> R tokens e)
    (hstatement : forall {tokens s}, Sentence R S tokens s -> S tokens s) :
    forall depth, Reads (statement depth) S := by
  have hwhole := expression_reads_of_closed hexpression
  intro depth
  induction depth with
  | zero =>
      intro tokens rest s h
      exact absurd h throw_ne_ok
  | succ depth ih =>
      intro tokens rest s h
      simp only [statement] at h
      split at h
      · rcases declaration_reads ih (depth + 1) h with ⟨used, hrest, hused⟩
        exact ⟨_ :: used, by rw [hrest]; rfl, hstatement (hused rfl)⟩
      · rcases branch_reads hwhole ih (depth + 1) h with ⟨used, hrest, hused⟩
        exact ⟨_ :: used, by rw [hrest]; rfl, hstatement (hused rfl)⟩
      · rcases loop_reads hwhole ih (depth + 1) h with ⟨used, hrest, hused⟩
        exact ⟨_ :: used, by rw [hrest]; rfl, hstatement (hused rfl)⟩
      · rcases blockRest_reads ih (depth + 1) h with ⟨used, hrest, hused⟩
        exact ⟨_ :: used, by rw [hrest]; rfl, hstatement (.block (hused rfl))⟩
      · rcases simple_reads hwhole (depth + 1) h with ⟨used, htokens, hused⟩
        exact ⟨used, htokens, hstatement hused⟩

theorem repeated_of_program {R : List Token -> Expr H -> Prop}
    {S : List Token -> Stmt H -> Prop}
    (hexpression : forall {tokens e}, Assigned R tokens e -> R tokens e)
    (hstatement : forall {tokens s}, Sentence R S tokens s -> S tokens s)
    {bound : Nat} {tokens rest : List Token} {body : List (Stmt H)}
    (h : program bound tokens = .ok body rest) : Repeated S tokens body := by
  have hinner := statement_reads_of_closed hexpression hstatement bound
  rcases manyUntil_reads atEnd_peeks hinner bound h with ⟨used, htokens, hused⟩
  have hend : rest = [] := List.isEmpty_iff.mp (answer_of_manyUntil atEnd_peeks h)
  rw [htokens, hend, List.append_nil]
  exact hused

end Grammar
end Lisan
