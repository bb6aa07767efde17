import Lisan.Proofs.Grammar.Productions
import Lisan.Proofs.Token.Places

/-!
# Places of operators

The operators of a program, read from left to right, are the tokens of its text that are
operators, each with the place that it has there. So all places of a text are exact: those
of its tokens, of its flaws, and of the operators in its tree.
-/

namespace Lisan

variable {H : Type}

/-!
## Operators of trees
-/

mutual

def Value.operators : Value H -> List Token
  | .str _ => []
  | .int _ => []
  | .function _ body => body.operators
  | .native _ _ => []

def Expr.operators : Expr H -> List Token
  | .assign _ value => value.operators
  | .var _ => []
  | .binary left operator right => left.operators ++ operator :: right.operators
  | .unary operator operand => operator :: operand.operators
  | .call callee args => callee.operators ++ Expr.operatorsAll args
  | .literal value => value.operators
  | .group inner => inner.operators

def Expr.operatorsAll : List (Expr H) -> List Token
  | [] => []
  | e :: rest => e.operators ++ Expr.operatorsAll rest

def Stmt.operators : Stmt H -> List Token
  | .branch condition onTrue onFalse =>
      condition.operators ++ (onTrue.operators ++ onFalse.operators)
  | .loop condition body => condition.operators ++ body.operators
  | .expr value => value.operators
  | .block body => Stmt.operatorsAll body
  | .define _ _ body => body.operators

def Stmt.operatorsAll : List (Stmt H) -> List Token
  | [] => []
  | s :: rest => s.operators ++ Stmt.operatorsAll rest

end

theorem Expr.operatorsAll_eq_flatMap (es : List (Expr H)) :
    Expr.operatorsAll es = es.flatMap Expr.operators := by
  induction es with
  | nil => rfl
  | cons e rest ih => rw [Expr.operatorsAll, ih, List.flatMap_cons]

theorem Stmt.operatorsAll_eq_flatMap (body : List (Stmt H)) :
    Stmt.operatorsAll body = body.flatMap Stmt.operators := by
  induction body with
  | nil => rfl
  | cons s rest ih => rw [Stmt.operatorsAll, ih, List.flatMap_cons]

/-!
## Operators among tokens
-/

def Token.isOperator (token : Token) : Bool :=
  decide (token.kind ∈ Operator.binarySigns ++ Operator.unarySigns)

def Token.operatorsOf (tokens : List Token) : List Token :=
  tokens.filter Token.isOperator

namespace Token

theorem operatorsOf_append (front back : List Token) :
    operatorsOf (front ++ back) = operatorsOf front ++ operatorsOf back :=
  List.filter_append front back

theorem operatorsOf_cons_binary {token : Token} (h : token.kind ∈ Operator.binarySigns)
    (rest : List Token) : operatorsOf (token :: rest) = token :: operatorsOf rest :=
  List.filter_cons_of_pos (decide_eq_true (List.mem_append_left _ h))

theorem operatorsOf_cons_unary {token : Token} (h : token.kind ∈ Operator.unarySigns)
    (rest : List Token) : operatorsOf (token :: rest) = token :: operatorsOf rest :=
  List.filter_cons_of_pos (decide_eq_true (List.mem_append_right _ h))

theorem operatorsOf_cons {token : Token} {kind : Kind} (hkind : token.kind = kind)
    (h : kind ∉ Operator.binarySigns ++ Operator.unarySigns) (rest : List Token) :
    operatorsOf (token :: rest) = operatorsOf rest := by
  apply List.filter_cons_of_neg
  rw [isOperator, hkind, decide_eq_true_eq]
  exact h

theorem operatorsOf_cons_of_not_sign {token : Token} {kind : Kind} (hkind : token.kind = kind)
    (h : kind ∉ signs) (rest : List Token) : operatorsOf (token :: rest) = operatorsOf rest := by
  have hsigns : Operator.binarySigns ++ Operator.unarySigns ⊆ signs := by decide
  exact operatorsOf_cons hkind (fun hmem => h (hsigns hmem)) rest

end Token

/-!
## Operators of what is read
-/

namespace Grammar

open Token (operatorsOf operatorsOf_append operatorsOf_cons operatorsOf_cons_of_not_sign)

section Rows

variable {Item : List Token -> α -> Prop} {operators : α -> List Token}
variable {tokens : List Token} {items : List α}

theorem separated_operators
    (hitem : forall tokens a, Item tokens a -> operators a = operatorsOf tokens)
    (h : Separated Item tokens items) : items.flatMap operators = operatorsOf tokens := by
  induction h with
  | single ha => rw [List.flatMap_singleton, hitem _ _ ha]
  | more ha hcomma _ ih =>
      rw [List.flatMap_cons, hitem _ _ ha, ih, operatorsOf_append,
        operatorsOf_cons hcomma (by decide)]

theorem listed_operators
    (hitem : forall tokens a, Item tokens a -> operators a = operatorsOf tokens)
    (h : Listed Item tokens items) : items.flatMap operators = operatorsOf tokens := by
  cases h with
  | none hopening hclosing =>
      rw [operatorsOf_cons hopening (by decide), operatorsOf_cons hclosing (by decide)]
      rfl
  | some hopening hitems hclosing =>
      rw [operatorsOf_cons hopening (by decide), operatorsOf_append,
        operatorsOf_cons hclosing (by decide), separated_operators hitem hitems]
      exact (List.append_nil _).symm

theorem repeated_operators
    (hitem : forall tokens a, Item tokens a -> operators a = operatorsOf tokens)
    (h : Repeated Item tokens items) : items.flatMap operators = operatorsOf tokens := by
  induction h with
  | nil => rfl
  | cons ha _ ih => rw [List.flatMap_cons, hitem _ _ ha, ih, operatorsOf_append]

end Rows

theorem expression_operators :
    Productions fun tokens (e : Expr H) => e.operators = operatorsOf tokens where
  int hkind := (operatorsOf_cons_of_not_sign hkind (by simp [Token.signs]) []).symm
  str hkind := (operatorsOf_cons_of_not_sign hkind (by simp [Token.signs]) []).symm
  var hkind := (operatorsOf_cons_of_not_sign hkind (by simp [Token.signs]) []).symm
  group hopening hinner hclosing := by
    rw [Expr.operators, hinner, operatorsOf_cons hopening (by decide), operatorsOf_append,
      operatorsOf_cons hclosing (by decide)]
    exact (List.append_nil _).symm
  call _ hcallee hargs := by
    rw [Expr.operators, hcallee, Expr.operatorsAll_eq_flatMap, listed_operators (fun _ _ harg => harg) hargs,
      operatorsOf_append]
  unary hkind hoperand := by
    rw [Expr.operators, hoperand, Token.operatorsOf_cons_unary hkind]
  binary hleft hkind hright := by
    rw [Expr.operators, hleft, hright, operatorsOf_append, Token.operatorsOf_cons_binary hkind]
  assign htarget hsign hvalue := by
    rw [Expr.operators, hvalue, operatorsOf_cons_of_not_sign htarget (by simp [Token.signs]),
      operatorsOf_cons hsign (by decide)]

theorem block_operators {tokens : List Token} {body : List (Stmt H)}
    (h : Repeated (fun tokens (s : Stmt H) => s.operators = operatorsOf tokens) tokens body) :
    (Stmt.block body).operators = operatorsOf tokens := by
  rw [Stmt.operators, Stmt.operatorsAll_eq_flatMap]
  exact repeated_operators (fun _ _ hs => hs) h

theorem braced_operators {tokens : List Token} {s : Stmt H}
    (h : Braced (fun tokens (s : Stmt H) => s.operators = operatorsOf tokens) tokens s) :
    s.operators = operatorsOf tokens := by
  cases h with
  | intro hopening hbody hclosing =>
      rw [block_operators hbody, operatorsOf_cons hopening (by decide), operatorsOf_append,
        operatorsOf_cons hclosing (by decide)]
      exact (List.append_nil _).symm

theorem names_operators {tokens : List Token} {names : List String}
    (h : Listed Named tokens names) : operatorsOf tokens = [] := by
  have hnamed : forall tokens name, Named tokens name -> [] = operatorsOf tokens := by
    intro tokens name hname
    cases hname with
    | intro hkind =>
        exact (operatorsOf_cons_of_not_sign hkind (by simp [Token.signs]) []).symm
  rw [<- listed_operators hnamed h]
  simp

theorem sentence_operators {tokens : List Token} {s : Stmt H}
    (h : Sentence (fun tokens (e : Expr H) => e.operators = operatorsOf tokens)
      (fun tokens s => s.operators = operatorsOf tokens) tokens s) :
    s.operators = operatorsOf tokens := by
  cases h with
  | define hkeyword htarget hparams hbody =>
      rw [Stmt.operators, braced_operators hbody, operatorsOf_cons hkeyword (by decide),
        operatorsOf_cons_of_not_sign htarget (by simp [Token.signs]), operatorsOf_append,
        names_operators hparams, List.nil_append]
  | branch hkeyword hcondition honTrue =>
      rw [Stmt.operators, hcondition, braced_operators honTrue,
        operatorsOf_cons hkeyword (by decide), operatorsOf_append]
      simp [Stmt.operators, Stmt.operatorsAll]
  | branchElse hkeyword hcondition honTrue hother honFalse =>
      rw [Stmt.operators, hcondition, braced_operators honTrue, braced_operators honFalse,
        operatorsOf_cons hkeyword (by decide), operatorsOf_append, operatorsOf_append,
        operatorsOf_cons hother (by decide)]
  | loop hkeyword hcondition hbody =>
      rw [Stmt.operators, hcondition, braced_operators hbody,
        operatorsOf_cons hkeyword (by decide), operatorsOf_append]
  | block hbody => exact braced_operators hbody
  | simple hvalue hstop =>
      rw [Stmt.operators, hvalue, operatorsOf_append, operatorsOf_cons hstop (by decide)]
      exact (List.append_nil _).symm

end Grammar

namespace Program

open Grammar

theorem operators_of_ofText {text : String} {tree : Stmt H} (h : ofText text = .ok tree) :
    exists tokens, Token.ofText text = .ok tokens ∧ tree.operators = Token.operatorsOf tokens := by
  rcases exists_repeated_of_ofText expression_operators sentence_operators h with
    ⟨tokens, mark, body, htokens, htree, hbody⟩
  exists tokens ++ [⟨.eof, mark⟩]
  constructor
  · exact htokens
  · rw [htree, block_operators hbody, Token.operatorsOf_append]
    exact (List.append_nil _).symm

/-- The places of a text that is not too long are exact. All tokens begin where they say, in
the order of their places, and the last marks the end of the text; so does the flaw of a
text that has no tokens, and whatever scans give. No cursor counts further than 32 bits go.
The operators of the tree are those of the text, at their places. -/
theorem places_are_exact {text : String} (hlength : text.length ≤ 2 ^ 31 - 2) :
    (forall tokens, Token.ofText text = .ok tokens ->
      Token.Located [] text.toList (tokens.map .ok) ∧
        (exists front, tokens = front ++ [⟨.eof, Position.behind text.toList⟩]) ∧
        tokens.Pairwise fun token other => token.start.Precedes other.start) ∧
    (forall e, Token.ofText text = .error e ->
      exists front : List Token,
        Token.Located [] text.toList (front.map .ok ++ [.error e])) ∧
    (forall count, Token.Located [] text.toList ((Token.Cursor.ofText text).scanMany count)) ∧
    (forall cursor, (Token.Cursor.ofText text).Visits cursor ->
      cursor.Visits cursor.scan.2 ∧ cursor.start.Fits ∧ cursor.position.Fits) ∧
    forall tree : Stmt H, ofText text = .ok tree ->
      exists tokens, Token.ofText text = .ok tokens ∧
        tree.operators = Token.operatorsOf tokens := by
  have hlocated : forall count,
      Token.Located [] text.toList ((Token.Cursor.ofText text).scanMany count) :=
    fun count => (Token.Cursor.ofText_stands text).scanMany_located count
  constructor
  · intro tokens h
    constructor
    · rw [<- Token.Cursor.scanMany_of_tokens_eq_ok h]
      exact hlocated tokens.length
    constructor
    · rcases (Token.cut_of_ofText h).exists_front with ⟨front, hfront, _⟩
      rw [Position.start_after] at hfront
      exact ⟨front, hfront⟩
    · exact (Token.cut_of_ofText h).ordered.right
  constructor
  · intro e h
    rcases Token.Cursor.scanMany_of_tokens_eq_error h with ⟨front, hfront⟩
    exists front
    rw [<- hfront]
    exact hlocated (front.length + 1)
  constructor
  · exact hlocated
  constructor
  · intro cursor hvisits
    constructor
    · exact cursor.scan_visits
    · exact (hvisits.divides (Token.Cursor.ofText_divides text)).fits hlength
  · intro tree h
    exact operators_of_ofText h

theorem places_of_three_lines :
    let text := "غ = \"ق\n\" >= ١.\r\n\t!ه."
    let tokens : List Token := [⟨.name "غ", ⟨1, 1⟩⟩, ⟨.assign, ⟨1, 3⟩⟩, ⟨.str "ق\n", ⟨1, 5⟩⟩,
      ⟨.greaterEqual, ⟨2, 3⟩⟩, ⟨.int 1, ⟨2, 6⟩⟩, ⟨.dot, ⟨2, 7⟩⟩, ⟨.bang, ⟨3, 2⟩⟩,
      ⟨.name "ه", ⟨3, 3⟩⟩, ⟨.dot, ⟨3, 4⟩⟩, ⟨.eof, ⟨3, 5⟩⟩]
    let tree : Stmt Empty := .block [
      .expr (.assign "غ" (.binary (.literal (.str "ق\n")) ⟨.greaterEqual, ⟨2, 3⟩⟩
        (.literal (.int 1)))),
      .expr (.unary ⟨.bang, ⟨3, 2⟩⟩ (.var "ه"))]
    text.length ≤ 2 ^ 31 - 2 ∧ Token.ofText text = .ok tokens ∧
      Token.Located [] text.toList (tokens.map .ok) ∧ ofText text = .ok tree ∧
      exists found, Token.ofText text = .ok found ∧
        [⟨.greaterEqual, ⟨2, 3⟩⟩, ⟨.bang, ⟨3, 2⟩⟩] = Token.operatorsOf found := by
  intro text tokens tree
  have hlength : text.length ≤ 2 ^ 31 - 2 := by decide +kernel
  have htokens : (Token.ofText text).toOption = some tokens := by decide +kernel
  have hscan : Token.ofText text = .ok tokens := eq_ok_of_toOption htokens
  have htree : ofText text = .ok tree := ofText_of_toOption htokens rfl
  rcases places_are_exact (H := Empty) hlength with ⟨hexact, _, _, _, hoperators⟩
  exact ⟨hlength, hscan, (hexact tokens hscan).left, htree, hoperators tree htree⟩

end Program
end Lisan
