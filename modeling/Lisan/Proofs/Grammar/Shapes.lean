import Lisan.Proofs.Grammar.Productions
import Lisan.Proofs.Tree.Shape

/-!
# Shapes of the trees that are read

The tree of a text is well-formed, whatever is asked of bodies that all blocks have.
-/

namespace Lisan
namespace Grammar

variable {H : Type} {shape : Shape H}

theorem expression_formed : Productions fun _ (e : Expr H) => e.Formed shape where
  int _ := .literal (.int _)
  str _ := .literal (.str _)
  var _ := .var _
  group _ hinner _ := .group hinner
  call _ hcallee hargs := by
    apply Expr.Formed.call hcallee
    intro arg harg
    rcases hargs.exists_part arg harg with ⟨_, _, hformed⟩
    exact hformed
  unary hkind hoperand := .unary hkind hoperand
  binary hleft hkind hright := .binary hleft hkind hright
  assign _ _ hvalue := .assign hvalue

theorem block_formed {tokens : List Token} {body : List (Stmt H)}
    (h : Repeated (fun _ (s : Stmt H) => s.Formed shape) tokens body) :
    (Stmt.block body).Formed shape := by
  apply Stmt.Formed.block
  intro s hs
  rcases h.exists_part s hs with ⟨_, _, hformed⟩
  exact hformed

theorem braced_formed (hbody : forall body, shape.body (.block body)) {tokens : List Token}
    {s : Stmt H} (h : Braced (fun _ (s : Stmt H) => s.Formed shape) tokens s) :
    shape.body s ∧ s.Formed shape := by
  cases h with
  | intro _ h _ => exact ⟨hbody _, block_formed h⟩

theorem sentence_formed (hbody : forall body, shape.body (.block body)) {tokens : List Token}
    {s : Stmt H}
    (h : Sentence (fun _ (e : Expr H) => e.Formed shape) (fun _ s => s.Formed shape) tokens s) :
    s.Formed shape := by
  cases h with
  | define _ _ _ h =>
      have hblock := braced_formed hbody h
      exact .define hblock.left hblock.right
  | branch _ hcondition honTrue =>
      have hempty : (Stmt.block [] : Stmt H).Formed shape :=
        .block fun s hs => absurd hs List.not_mem_nil
      have hblock := braced_formed hbody honTrue
      exact .branch hcondition hblock.left hblock.right (hbody []) hempty
  | branchElse _ hcondition honTrue _ honFalse =>
      have hblock := braced_formed hbody honTrue
      have hother := braced_formed hbody honFalse
      exact .branch hcondition hblock.left hblock.right hother.left hother.right
  | loop _ hcondition h =>
      have hblock := braced_formed hbody h
      exact .loop hcondition hblock.left hblock.right
  | block h => exact (braced_formed hbody h).right
  | simple h _ => exact .expr h

end Grammar

namespace Program

open Grammar

variable {H : Type} {shape : Shape H}

theorem formed_of_ofTokens (hbody : forall body, shape.body (.block body))
    {tokens : List Token} {tree : Stmt H} (h : ofTokens tokens = .ok tree) :
    tree.Formed shape := by
  rcases exists_repeated_of_ofTokens expression_formed (sentence_formed hbody) h with
    ⟨body, htree, hrepeated⟩
  rw [htree]
  exact block_formed hrepeated

theorem formed_of_ofText (hbody : forall body, shape.body (.block body))
    {text : String} {tree : Stmt H} (h : ofText text = .ok tree) : tree.Formed shape := by
  rcases exists_of_ofText h with ⟨tokens, _, hread⟩
  exact formed_of_ofTokens hbody hread

end Program
end Lisan
