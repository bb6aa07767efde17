import Lisan.Proofs.Grammar.Completeness
import Lisan.Proofs.Grammar.Soundness
import Lisan.Proofs.Parsing.Ends

/-!
# Programs and the grammar

A list of tokens has a tree if and only if it is a row of statements, and the
tree is the block of these. No list of tokens is such a row in two ways.
-/

namespace Lisan
namespace Program

open Grammar

variable {H : Type}

theorem repeated_statement_unique {tokens : List Token} {body other : List (Stmt H)}
    (hbody : Repeated Statement tokens body) (hother : Repeated Statement tokens other) :
    body = other := by
  have hread := program_of_repeated hbody (Nat.lt_succ_self _)
  rw [program_of_repeated hother (Nat.lt_succ_self _)] at hread
  cases hread
  rfl

theorem ofTokens_of_program {tokens rest : List Token} {body : List (Stmt H)}
    (h : program ((beforeEnd tokens).length + 1) (beforeEnd tokens) = .ok body rest) :
    ofTokens tokens = .ok (.block body) := by
  rw [ofTokens_eq_read, h]

theorem exists_of_ofTokens {tokens : List Token} {tree : Stmt H}
    (h : ofTokens tokens = .ok tree) :
    exists body rest, tree = .block body ∧
      program ((beforeEnd tokens).length + 1) (beforeEnd tokens) = .ok body rest := by
  rw [ofTokens_eq_read] at h
  split at h
  · rename_i body rest hread
    cases h
    exact ⟨body, rest, rfl, hread⟩
  · cases h

theorem ofTokens_eq_ok_iff {tokens : List Token} {mark : Token}
    (htokens : forall token, token ∈ tokens -> token.isEof = false)
    (hmark : mark.isEof = true) :
    (forall tree : Stmt H,
      ofTokens (tokens ++ [mark]) = .ok tree <->
        exists body, tree = .block body ∧ Repeated Statement tokens body) ∧
    (forall body other : List (Stmt H),
      Repeated Statement tokens body -> Repeated Statement tokens other -> body = other) := by
  have hbefore : beforeEnd (tokens ++ [mark]) = tokens := beforeEnd_append htokens hmark []
  refine ⟨?_, fun body other => repeated_statement_unique⟩
  intro tree
  constructor
  · intro h
    rcases exists_of_ofTokens h with ⟨body, rest, htree, hread⟩
    rw [hbefore] at hread
    exact ⟨body, htree, repeated_of_program .intro .intro hread⟩
  · intro h
    rcases h with ⟨body, htree, hbody⟩
    rw [htree]
    apply ofTokens_of_program
    rw [hbefore]
    exact program_of_repeated hbody (Nat.lt_succ_self _)

theorem repeated_statement_branch :
    let at_ (kind : Token.Kind) (column : Int) : Token := ⟨kind, ⟨1, column⟩⟩
    let tokens := [at_ .ifWord 1, at_ (.name "a") 2, at_ .openBrace 3, at_ (.name "b") 4,
      at_ .assign 5, at_ (.int 1) 6, at_ .plus 7, at_ (.int 2) 8, at_ .star 9,
      at_ (.int 3) 10, at_ .dot 11, at_ .closeBrace 12]
    let tree : Stmt Empty := .branch (.var "a")
      (.block [.expr (.assign "b" (.binary (.literal (.int 1)) (at_ .plus 7)
        (.binary (.literal (.int 2)) (at_ .star 9) (.literal (.int 3)))))])
      (.block [])
    (forall token, token ∈ tokens -> token.isEof = false) ∧
      (at_ .eof 13).isEof = true ∧
      ofTokens (tokens ++ [at_ .eof 13]) = .ok (.block [tree]) ∧
      exists body, Stmt.block [tree] = .block body ∧ Repeated Statement tokens body := by
  intro at_ tokens tree
  have htokens : forall token, token ∈ tokens -> token.isEof = false := by decide
  have htree : ofTokens (tokens ++ [at_ .eof 13]) = .ok (.block [tree]) := rfl
  refine ⟨htokens, rfl, htree, ?_⟩
  exact ((ofTokens_eq_ok_iff htokens rfl).1 _).mp htree

end Program
end Lisan
