import Lisan.Proofs.Grammar.Printed
import Lisan.Proofs.Operator.Arithmetic
import Lisan.Proofs.Tree.Range

/-!
# Ranges of the trees that are read

A token of a text spells an integer of the language or none, so the tree of a text is within
range. It holds no function of the host, whichever are admitted.
-/

namespace Lisan
namespace Grammar

variable {H : Type} {admitted : H -> Prop}

theorem inRange_of_printable {n : Int} (h : Token.Kind.Printable (.int n)) :
    Integer.InRange n := by
  rcases bounds_of_printable h with ⟨hnonneg, hgreatest⟩
  exact ⟨le_trans Integer.inRange_zero.left hnonneg, hgreatest⟩

def RangedExpression (admitted : H -> Prop) (tokens : List Token) (e : Expr H) : Prop :=
  Printable tokens -> e.Ranged admitted

def RangedStatement (admitted : H -> Prop) (tokens : List Token) (s : Stmt H) : Prop :=
  Printable tokens -> s.Ranged admitted

theorem expression_ranged : Productions (RangedExpression admitted) where
  int hkind htokens := by
    rw [printable_cons, hkind] at htokens
    exact inRange_of_printable htokens.left
  str _ _ := trivial
  var _ _ := trivial
  group _ hinner _ htokens := by
    rw [printable_cons, printable_append] at htokens
    exact hinner htokens.right.left
  call _ hcallee hargs htokens := by
    rw [printable_append] at htokens
    refine ⟨hcallee htokens.left, Expr.allRanged_iff.mpr ?_⟩
    intro arg harg
    rcases hargs.exists_part arg harg with ⟨part, hpart, hranged⟩
    exact hranged (htokens.right.of_subset hpart)
  unary _ hoperand htokens := hoperand (printable_cons.mp htokens).right
  binary hleft _ hright htokens := by
    rw [printable_append, printable_cons] at htokens
    exact ⟨hleft htokens.left, hright htokens.right.right⟩
  assign _ _ hvalue htokens := by
    rw [printable_cons, printable_cons] at htokens
    exact hvalue htokens.right.right

theorem block_ranged {tokens : List Token} {body : List (Stmt H)}
    (h : Repeated (RangedStatement admitted) tokens body) :
    RangedStatement admitted tokens (.block body) := by
  intro htokens
  apply Stmt.allRanged_iff.mpr
  intro s hs
  rcases h.exists_part s hs with ⟨part, hpart, hranged⟩
  exact hranged (htokens.of_subset hpart)

theorem braced_ranged {tokens : List Token} {s : Stmt H}
    (h : Braced (RangedStatement admitted) tokens s) : RangedStatement admitted tokens s := by
  intro htokens
  cases h with
  | intro _ hbody _ =>
      rw [printable_cons, printable_append] at htokens
      exact block_ranged hbody htokens.right.left

theorem sentence_ranged {tokens : List Token} {s : Stmt H}
    (h : Sentence (RangedExpression admitted) (RangedStatement admitted) tokens s) :
    RangedStatement admitted tokens s := by
  intro htokens
  cases h with
  | define _ _ _ hbody =>
      rw [printable_cons, printable_cons, printable_append] at htokens
      have hranged := braced_ranged hbody htokens.right.right.right
      exact hranged
  | branch _ hcondition honTrue =>
      rw [printable_cons, printable_append] at htokens
      rcases htokens with ⟨_, htest, hblock⟩
      exact ⟨hcondition htest, braced_ranged honTrue hblock, trivial⟩
  | branchElse _ hcondition honTrue _ honFalse =>
      rw [printable_cons, printable_append, printable_append, printable_cons] at htokens
      rcases htokens with ⟨_, htest, hblock, _, hother⟩
      exact ⟨hcondition htest, braced_ranged honTrue hblock, braced_ranged honFalse hother⟩
  | loop _ hcondition hbody =>
      rw [printable_cons, printable_append] at htokens
      rcases htokens with ⟨_, htest, hblock⟩
      exact ⟨hcondition htest, braced_ranged hbody hblock⟩
  | block hbody => exact braced_ranged hbody htokens
  | simple hvalue _ =>
      rw [printable_append] at htokens
      exact hvalue htokens.left

end Grammar

theorem Program.ranged_of_ofText {H : Type} {admitted : H -> Prop} {text : String}
    {tree : Stmt H} (h : Program.ofText text = .ok tree) : tree.Ranged admitted := by
  rcases exists_repeated_of_ofText Grammar.expression_ranged Grammar.sentence_ranged h with
    ⟨tokens, mark, body, htokens, rfl, hbody⟩
  exact Grammar.block_ranged hbody (printable_of_ofText htokens)

end Lisan
