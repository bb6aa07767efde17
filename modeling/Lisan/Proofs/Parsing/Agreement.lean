import Lisan.Parsing.Statement
import Lisan.Proofs.Grammar.Deciding
import Lisan.Proofs.Parsing.Reading

/-!
# Parsing agrees with the readers of the language

Each function of the parser agrees with the reader of the same phrase, if its bound is not
below that of the reader.
-/

namespace Lisan
namespace Parsing

open Grammar

variable {H : Type}

/-!
## Expressions
-/

section Levels

variable {inner : Parsing (Expr H)} {inner' : Reader (Expr H)} (hinner : Agrees inner inner')
  {count bound : Nat} (hbound : count ≤ bound)

include hinner

theorem primary_agrees : Agrees (primary inner) (Grammar.primary inner') := by
  intro parser rest mark h
  rcases begins_or_clear opensPrimary rest with ⟨⟨kind, place⟩, others, rfl, hkind⟩ | hclear
  · have hnext := h.advance.left
    rw [primary, get_bind_run, h.peek_cons, bind_of_ok (consume_of_faces h)]
    cases kind with
    | int value => exact .ok hnext
    | str text => exact .ok hnext
    | name name => exact .ok hnext
    | openParen =>
        have hclosing : Token.Kind.closeParen ≠ .eof := by decide
        have hgrouping := hinner.bind fun e =>
          .accepted hclosing (.pure (Expr.group e)) (.blame ⟨.openParen, place⟩)
        exact hgrouping hnext
    | _ => cases hkind
  · have hother : opensPrimary parser.peek.kind = false := h.peek_eq_false opensPrimary rfl hclear
    rcases refuse_taken_agreed (α := Expr H) h hother with ⟨last, hlast, hrefused⟩
    rw [primary_of_clear inner' hclear, primary, get_bind_run, bind_of_ok hlast]
    generalize parser.peek = token at hother hrefused ⊢
    cases hkind : token.kind with
    | int value => simp [hkind, opensPrimary] at hother
    | str text => simp [hkind, opensPrimary] at hother
    | name name => simp [hkind, opensPrimary] at hother
    | openParen => simp [hkind, opensPrimary] at hother
    | _ => exact hrefused

include hbound

theorem call_agrees : Agrees (call inner bound) (Grammar.call inner' count) :=
  (primary_agrees hinner).bind fun callee => .accepted (by decide)
    (items_agrees hinner hbound fun args => .pure (Expr.call callee args)) (.pure callee)

theorem unary_agrees {depth limit : Nat} (h : depth ≤ limit) :
    Agrees (unary inner bound limit) (Grammar.unary inner' count depth) := by
  induction depth generalizing limit with
  | zero => exact .starve
  | succ depth ih =>
      cases limit with
      | zero => exact absurd h (Nat.not_succ_le_zero depth)
      | succ limit =>
          have hoperand := ih (Nat.le_of_succ_le_succ h)
          exact .take (acceptAny_tests (by decide) isUnary_iff)
            (f := fun operator => do
              let operand <- unary inner bound limit
              return Expr.unary operator operand)
            (fun operator _ => hoperand.bind fun operand => .pure (Expr.unary operator operand))
            (call_agrees hinner hbound)

end Levels

section Chains

variable {operators : List Token.Kind} {level : Token.Kind -> Bool}
  {operand : Parsing (Expr H)} {operand' : Reader (Expr H)}

theorem chainFrom_agrees (htest : Tests (acceptAny operators) level)
    (hoperand : Agrees operand operand') {count bound : Nat} (h : count ≤ bound) (left : Expr H) :
    Agrees (chainFrom operators operand bound left) (Grammar.chainFrom level operand' count left) := by
  induction count generalizing bound left with
  | zero => exact .starve
  | succ count ih =>
      cases bound with
      | zero => exact absurd h (Nat.not_succ_le_zero count)
      | succ bound =>
          exact .take htest
            (f := fun operator => do
              let right <- operand
              chainFrom operators operand bound (.binary left operator right))
            (fun operator _ => hoperand.bind fun right =>
              ih (Nat.le_of_succ_le_succ h) (.binary left operator right))
            (.pure left)

theorem chain_agrees (hend : .eof ∉ operators)
    (hlevel : forall {kind}, level kind = true <-> kind ∈ operators)
    (hoperand : Agrees operand operand') {count bound : Nat} (h : count ≤ bound) :
    Agrees (chain operators operand bound) (Grammar.chain level operand' count) :=
  hoperand.bind fun first => chainFrom_agrees (acceptAny_tests hend hlevel) hoperand h first

end Chains

theorem equality_agrees {inner : Parsing (Expr H)} {inner' : Reader (Expr H)}
    (hinner : Agrees inner inner') {count bound : Nat} (h : count ≤ bound) :
    Agrees (equality inner bound) (Grammar.equality inner' count) := by
  have hfactor : Agrees (factor inner bound) (Grammar.factor inner' count) :=
    chain_agrees (by decide) isMultiplicative_iff (unary_agrees hinner h h) h
  have hterm : Agrees (term inner bound) (Grammar.term inner' count) :=
    chain_agrees (by decide) isAdditive_iff hfactor h
  have hcomparison : Agrees (comparison inner bound) (Grammar.comparison inner' count) :=
    chain_agrees (by decide) isComparison_iff hterm h
  exact chain_agrees (by decide) isEquality_iff hcomparison h

theorem assignTo_agrees (left : Expr H) (sign : Token) (value : Expr H) :
    Agrees (assignTo left sign value) (Grammar.assignTo left sign value) := by
  cases left with
  | var name => exact .pure (Expr.assign name value)
  | _ => exact .blame sign

theorem assignment_agrees {inner : Parsing (Expr H)} {inner' : Reader (Expr H)}
    (hinner : Agrees inner inner') {count bound : Nat} (h : count ≤ bound) :
    Agrees (assignment inner bound) (Grammar.assignment inner' count) :=
  (equality_agrees hinner h).bind fun left =>
    .take (accept_tests .assign (by decide))
      (f := fun sign => do
        let value <- inner
        assignTo left sign value)
      (fun sign _ => hinner.bind fun value => assignTo_agrees left sign value) (.pure left)

theorem expression_agrees {count bound : Nat} (h : count ≤ bound) :
    Agrees (expression bound : Parsing (Expr H)) (Grammar.expression count) := by
  induction count generalizing bound with
  | zero => exact .starve
  | succ count ih =>
      cases bound with
      | zero => exact absurd h (Nat.not_succ_le_zero count)
      | succ bound => exact assignment_agrees (ih (Nat.le_of_succ_le_succ h)) h

/-!
## Statements
-/

theorem blockEnds_eq {parser : Parser} {rest : List Token} {mark : Token}
    (h : parser.Faces rest mark) :
    blockEnds parser = (rest.head?.any (·.kind == .closeBrace) || rest.isEmpty) := by
  rw [blockEnds, h.atEnd_eq, Parser.isNext]
  cases rest with
  | nil => rw [List.isEmpty_nil, Bool.or_true, Bool.or_true]
  | cons token others => rw [h.peek_cons, List.head?_cons, Option.any_some]

section Sentences

variable {inner : Parsing (Stmt H)} {inner' : Reader (Stmt H)} (hinner : Agrees inner inner')
  {count bound : Nat} (hbound : count ≤ bound)

include hinner hbound

theorem block_agrees : Agrees (block inner bound) (Grammar.blockRest inner' count) :=
  (manyUntil_agrees Reader.blockEnds_peeks blockEnds_eq hinner hbound).bind fun body =>
    (expect_agrees _ (by decide)).bind fun _ => .pure (Stmt.block body)

theorem braced_agrees {f : Stmt H -> Parsing α} {f' : Stmt H -> Reader α}
    (hf : forall s, Agrees (f s) (f' s)) :
    Agrees (do
      expect .openBrace
      let s <- block inner bound
      f s) (Grammar.block inner' count >>= f') := by
  rw [Grammar.block, bind_assoc]
  exact (expect_agrees _ (by decide)).bind fun _ => (block_agrees hinner hbound).bind hf

theorem declaration_agrees :
    Agrees (declaration inner bound) (Grammar.declaration inner' count) :=
  expectName_agrees.bind fun name => (expect_agrees _ (by decide)).bind fun _ =>
    items_agrees expectName_agrees hbound fun params =>
      braced_agrees hinner hbound fun body => .pure (Stmt.define name params body)

theorem otherwise_agrees : Agrees (otherwise inner bound) (Grammar.otherwise inner' count) := by
  refine .accepted (by decide) ?_ (.pure (Stmt.block []))
  rw [<- bind_pure (Grammar.block inner' count), <- bind_pure (block inner bound)]
  exact braced_agrees hinner hbound .pure

theorem branch_agrees : Agrees (branch inner bound) (Grammar.branch inner' count) :=
  (expression_agrees hbound).bind fun condition => braced_agrees hinner hbound fun onTrue =>
    (otherwise_agrees hinner hbound).bind fun onFalse =>
      .pure (Stmt.branch condition onTrue onFalse)

theorem loop_agrees : Agrees (loop inner bound) (Grammar.loop inner' count) :=
  (expression_agrees hbound).bind fun condition => braced_agrees hinner hbound fun body =>
    .pure (Stmt.loop condition body)

omit hinner in
theorem simple_agrees : Agrees (simple bound : Parsing (Stmt H)) (Grammar.simple count) :=
  (expression_agrees hbound).bind fun e => (expect_agrees _ (by decide)).bind fun _ =>
    .pure (Stmt.expr e)

end Sentences

theorem statement_succ (depth : Nat) :
    (Grammar.statement (depth + 1) : Reader (Stmt H)) = (do
      if (<- Reader.accept .functionWord) then
        Grammar.declaration (Grammar.statement depth) (depth + 1)
      else if (<- Reader.accept .ifWord) then
        Grammar.branch (Grammar.statement depth) (depth + 1)
      else if (<- Reader.accept .whileWord) then
        Grammar.loop (Grammar.statement depth) (depth + 1)
      else if (<- Reader.accept .openBrace) then
        Grammar.blockRest (Grammar.statement depth) (depth + 1)
      else
        Grammar.simple (depth + 1)) := by
  funext tokens
  cases tokens with
  | nil => rfl
  | cons token rest =>
      rcases token with ⟨kind, place⟩
      cases kind <;> rfl

theorem statement_agrees {count bound : Nat} (h : count ≤ bound) :
    Agrees (statement bound : Parsing (Stmt H)) (Grammar.statement count) := by
  induction count generalizing bound with
  | zero => exact .starve
  | succ count ih =>
      cases bound with
      | zero => exact absurd h (Nat.not_succ_le_zero count)
      | succ bound =>
          have hinner := ih (Nat.le_of_succ_le_succ h)
          rw [statement_succ]
          exact .accepted (by decide) (declaration_agrees hinner h)
            (.accepted (by decide) (branch_agrees hinner h)
              (.accepted (by decide) (loop_agrees hinner h)
                (.accepted (by decide) (block_agrees hinner h) (simple_agrees h))))

theorem program_agrees {count bound : Nat} (h : count ≤ bound) :
    Agrees (program bound : Parsing (List (Stmt H))) (Grammar.program count) :=
  manyUntil_agrees Reader.atEnd_peeks Parser.Faces.atEnd_eq (statement_agrees h) h

end Parsing
end Lisan
