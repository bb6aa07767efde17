import Lisan.Interpretation
import Lisan.Proofs.Grammar.Programs
import Lisan.Proofs.Operator.Rules
import Lisan.Proofs.Token.Seam

/-!
# Productions

What is to be shown of all that is read from texts. It is enough to show it of each form
of expression and of statement, given that it holds of their parts: the levels on which
operators bind need not be told apart.
-/

namespace Lisan
namespace Grammar

variable {H : Type}

/-!
## Parts of a row
-/

section Rows

variable {Item : List Token -> α -> Prop} {tokens : List Token} {items : List α}

theorem Separated.exists_part (h : Separated Item tokens items) :
    forall a, a ∈ items -> exists part, part ⊆ tokens ∧ Item part a := by
  induction h with
  | @single tokens a ha =>
      intro b hb
      rw [List.mem_singleton.mp hb]
      exact ⟨tokens, List.Subset.refl tokens, ha⟩
  | @more front back comma a others ha _ _ ih =>
      intro b hb
      rcases List.mem_cons.mp hb with hb | hb
      · rw [hb]
        exact ⟨front, List.subset_append_left _ _, ha⟩
      · rcases ih b hb with ⟨part, hpart, hitem⟩
        have hback : back ⊆ front ++ comma :: back :=
          List.subset_append_of_subset_right _ (List.subset_cons_self _ _)
        exact ⟨part, List.Subset.trans hpart hback, hitem⟩

theorem Listed.exists_part (h : Listed Item tokens items) :
    forall a, a ∈ items -> exists part, part ⊆ tokens ∧ Item part a := by
  cases h with
  | none => exact fun a ha => absurd ha List.not_mem_nil
  | @some opening closing tokens _ _ hitems _ =>
      intro a ha
      rcases hitems.exists_part a ha with ⟨part, hpart, hitem⟩
      have hinner : tokens ⊆ opening :: (tokens ++ [closing]) :=
        List.subset_cons_of_subset _ (List.subset_append_left _ _)
      exact ⟨part, List.Subset.trans hpart hinner, hitem⟩

theorem Repeated.exists_part (h : Repeated Item tokens items) :
    forall a, a ∈ items -> exists part, part ⊆ tokens ∧ Item part a := by
  induction h with
  | nil => exact fun a ha => absurd ha List.not_mem_nil
  | @cons front back a others ha _ ih =>
      intro b hb
      rcases List.mem_cons.mp hb with hb | hb
      · rw [hb]
        exact ⟨front, List.subset_append_left _ _, ha⟩
      · rcases ih b hb with ⟨part, hpart, hitem⟩
        exact ⟨part, List.Subset.trans hpart (List.subset_append_right _ _), hitem⟩

end Rows

/-!
## Forms of expressions
-/

/-- The relation holds of an expression of any form if it holds of the parts. -/
structure Productions (R : List Token -> Expr H -> Prop) : Prop where
  int : forall {token : Token} {n : Int}, token.kind = .int n -> R [token] (.literal (.int n))
  str : forall {token : Token} {text : String},
    token.kind = .str text -> R [token] (.literal (.str text))
  var : forall {token : Token} {name : String}, token.kind = .name name -> R [token] (.var name)
  group : forall {opening closing : Token} {tokens : List Token} {e : Expr H},
    opening.kind = .openParen -> R tokens e -> closing.kind = .closeParen ->
    R (opening :: (tokens ++ [closing])) (.group e)
  call : forall {front back : List Token} {callee : Expr H} {args : List (Expr H)},
    Primary R front callee -> R front callee -> Listed R back args ->
    R (front ++ back) (.call callee args)
  unary : forall {operator : Token} {tokens : List Token} {e : Expr H},
    operator.kind ∈ Operator.unarySigns -> R tokens e -> R (operator :: tokens) (.unary operator e)
  binary : forall {front back : List Token} {operator : Token} {left right : Expr H},
    R front left -> operator.kind ∈ Operator.binarySigns -> R back right ->
    R (front ++ operator :: back) (.binary left operator right)
  assign : forall {target sign : Token} {name : String} {tokens : List Token} {value : Expr H},
    target.kind = .name name -> sign.kind = .assign -> R tokens value ->
    R (target :: sign :: tokens) (.assign name value)

namespace Productions

variable {R : List Token -> Expr H -> Prop} {tokens : List Token} {e : Expr H}

theorem primary (hforms : Productions R) (h : Primary R tokens e) : R tokens e := by
  cases h with
  | int hkind => exact hforms.int hkind
  | str hkind => exact hforms.str hkind
  | var hkind => exact hforms.var hkind
  | group hopening hinner hclosing => exact hforms.group hopening hinner hclosing

theorem prefixed (hforms : Productions R) (h : Prefixed (Called R) tokens e) : R tokens e := by
  induction h with
  | plain hcalled =>
      cases hcalled with
      | plain hprimary => exact hforms.primary hprimary
      | call hcallee hargs => exact hforms.call hcallee (hforms.primary hcallee) hargs
  | more hkind _ ih => exact hforms.unary hkind ih

theorem chain (hforms : Productions R) {signs : List Token.Kind}
    (hsigns : signs ⊆ Operator.binarySigns) {Operand : List Token -> Expr H -> Prop}
    (hoperand : forall {tokens e}, Operand tokens e -> R tokens e)
    (h : Chain signs Operand tokens e) : R tokens e := by
  induction h with
  | single h => exact hoperand h
  | more _ hkind hright ih => exact hforms.binary ih (hsigns hkind) (hoperand hright)

theorem assigned (hforms : Productions R) (h : Assigned R tokens e) : R tokens e := by
  cases h with
  | assign htarget hsign hvalue => exact hforms.assign htarget hsign hvalue
  | plain h =>
      have hfactor : [Token.Kind.star, .slash] ⊆ Operator.binarySigns := by decide
      have hterm : [Token.Kind.plus, .minus] ⊆ Operator.binarySigns := by decide
      have hcomparison : [Token.Kind.greater, .greaterEqual, .less, .lessEqual] ⊆
          Operator.binarySigns := by decide
      have hequality : [Token.Kind.equal, .notEqual] ⊆ Operator.binarySigns := by decide
      exact hforms.chain hequality (hforms.chain hcomparison
        (hforms.chain hterm (hforms.chain hfactor hforms.prefixed))) h

end Productions
end Grammar

/-!
## Programs
-/

namespace Program

open Grammar

variable {H : Type}

theorem exists_of_ofText {text : String} {tree : Stmt H} (h : ofText text = .ok tree) :
    exists tokens, Token.ofText text = .ok tokens ∧ ofTokens tokens = .ok tree := by
  simp only [ofText] at h
  split at h
  · cases h
  · rename_i tokens htokens
    split at h
    · cases h
    · rename_i hread
      cases h
      exact ⟨tokens, htokens, hread⟩

theorem ofText_of_ofTokens {text : String} {tokens : List Token} {tree : Stmt H}
    (htokens : Token.ofText text = .ok tokens) (h : ofTokens tokens = .ok tree) :
    (ofText text : Except (Failure H) (Stmt H)) = .ok tree := by
  simp only [ofText, htokens, h]

theorem eq_ok_of_toOption {result : Except α β} {value : β}
    (h : result.toOption = some value) : result = .ok value := by
  cases result with
  | error e => cases h
  | ok found =>
      cases h
      rfl

theorem ofText_of_toOption {text : String} {tokens : List Token} {tree : Stmt H}
    (htokens : (Token.ofText text).toOption = some tokens) (h : ofTokens tokens = .ok tree) :
    (ofText text : Except (Failure H) (Stmt H)) = .ok tree :=
  ofText_of_ofTokens (eq_ok_of_toOption htokens) h

variable {R : List Token -> Expr H -> Prop} {S : List Token -> Stmt H -> Prop}

theorem exists_repeated_of_ofTokens (hexpression : Productions R)
    (hstatement : forall {tokens s}, Sentence R S tokens s -> S tokens s)
    {tokens : List Token} {tree : Stmt H} (h : ofTokens tokens = .ok tree) :
    exists body, tree = .block body ∧ Repeated S (beforeEnd tokens) body := by
  rcases exists_of_ofTokens h with ⟨body, rest, htree, hread⟩
  exact ⟨body, htree, repeated_of_program hexpression.assigned hstatement hread⟩

theorem exists_repeated_of_ofText (hexpression : Productions R)
    (hstatement : forall {tokens s}, Sentence R S tokens s -> S tokens s)
    {text : String} {tree : Stmt H} (h : ofText text = .ok tree) :
    exists tokens mark body, Token.ofText text = .ok (tokens ++ [⟨.eof, mark⟩]) ∧
      tree = .block body ∧ Repeated S tokens body := by
  rcases exists_of_ofText h with ⟨all, hall, hread⟩
  rcases (Token.cut_of_ofText hall).exists_front with ⟨tokens, hfront, htokens⟩
  rcases exists_repeated_of_ofTokens hexpression hstatement hread with ⟨body, htree, hbody⟩
  rw [hfront, beforeEnd_append htokens rfl []] at hbody
  rw [hfront] at hall
  exact ⟨tokens, _, body, hall, htree, hbody⟩

end Program
end Lisan
