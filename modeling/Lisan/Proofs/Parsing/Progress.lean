import Lisan.Program
import Lisan.Proofs.Parsing.Reading

/-!
# Progress of parsing

A parser goes on, never back, and not beyond the first mark of the end. Whatever parses an
expression or a statement takes at least one token if it succeeds. So what is repeated is
repeated less often than there are tokens, and a bound above the number of tokens that are
left is never reached.
-/

namespace Lisan
namespace Parser

/-- Where the tokens end: the place of the first mark of the end, or, if there is none, the
place behind the last token. -/
def limit (parser : Parser) : Nat :=
  parser.tokens.findIdx Token.isEof

structure Bounded (parser : Parser) : Prop where
  le : parser.current ≤ parser.limit
  fallback : parser.fallback.isEof = true

structure Onward (parser last : Parser) : Prop where
  tokens : last.tokens = parser.tokens
  fallback : last.fallback = parser.fallback
  le : parser.current ≤ last.current
  le_limit : last.current ≤ parser.limit

variable {parser middle last : Parser}

theorem atEnd_eq_false_of_lt (h : parser.current < parser.limit) : parser.atEnd = false := by
  have hsize : parser.current < parser.tokens.size := Nat.lt_of_lt_of_le h Array.findIdx_le_size
  rw [atEnd, peek, Array.getElem?_eq_getElem hsize, Option.getD_some]
  exact Array.not_of_lt_findIdx h

theorem Bounded.atEnd_iff (h : parser.Bounded) :
    parser.atEnd = true <-> parser.current = parser.limit := by
  constructor
  · intro hend
    apply Nat.le_antisymm h.le
    apply Nat.le_of_not_lt
    intro hlt
    rw [atEnd_eq_false_of_lt hlt] at hend
    cases hend
  · intro hlimit
    rw [atEnd, peek, hlimit]
    by_cases hsize : parser.limit < parser.tokens.size
    · rw [Array.getElem?_eq_getElem hsize, Option.getD_some]
      exact Array.findIdx_getElem
    · rw [Array.getElem?_eq_none (Nat.le_of_not_lt hsize), Option.getD_none]
      exact h.fallback

theorem Bounded.lt_limit (h : parser.Bounded) (hend : parser.atEnd = false) :
    parser.current < parser.limit := by
  apply Nat.lt_of_le_of_ne h.le
  intro hlimit
  rw [h.atEnd_iff.mpr hlimit] at hend
  cases hend

namespace Onward

theorem refl (h : parser.Bounded) : parser.Onward parser :=
  ⟨rfl, rfl, Nat.le_refl _, h.le⟩

theorem limit_eq (h : parser.Onward last) : last.limit = parser.limit := by
  rw [limit, h.tokens, limit]

theorem bounded (h : parser.Onward last) (hparser : parser.Bounded) : last.Bounded where
  le := by
    rw [h.limit_eq]
    exact h.le_limit
  fallback := by
    rw [h.fallback]
    exact hparser.fallback

theorem trans (h : parser.Onward middle) (h' : middle.Onward last) : parser.Onward last where
  tokens := h'.tokens.trans h.tokens
  fallback := h'.fallback.trans h.fallback
  le := Nat.le_trans h.le h'.le
  le_limit := by
    rw [<- h.limit_eq]
    exact h'.le_limit

theorem eq_of_limit (h : parser.Onward last) (hlimit : parser.current = parser.limit) :
    last = parser := by
  have hcurrent : last.current = parser.current := by
    apply Nat.le_antisymm _ h.le
    rw [hlimit]
    exact h.le_limit
  rcases last with ⟨tokens, current, fallback⟩
  rw [show tokens = _ from h.tokens, show current = _ from hcurrent,
    show fallback = _ from h.fallback]

theorem advance (h : parser.Bounded) (hend : parser.atEnd = false) :
    parser.Onward parser.advance :=
  ⟨rfl, rfl, Nat.le_succ _, h.lt_limit hend⟩

end Onward
end Parser

namespace Parsing

/-!
## What a parsing takes
-/

/-- What is come to by taking tokens: at least so many for a result, or a token that is
refused. -/
inductive Moved (parser : Parser) (least : Nat) : EStateM.Result SyntaxError Parser α -> Prop where
  | ok {a : α} {last : Parser} :
      parser.Onward last -> parser.current + least ≤ last.current ->
      Moved parser least (.ok a last)
  | error {token : Token} {last : Parser} :
      parser.Onward last -> Moved parser least (.error (.unexpected token) last)

/-- Where fewer tokens are left than the bound says, the parsing takes at least so many for a
result, or refuses a token. -/
def Advances (least bound : Nat) (parsing : Parsing α) : Prop :=
  forall ⦃parser : Parser⦄, parser.Bounded -> parser.limit < parser.current + bound ->
    Moved parser least (parsing parser)

def Takes (test : Parsing Bool) : Prop :=
  forall parser : Parser, (parser.atEnd = false ∧ test parser = .ok true parser.advance) ∨
    test parser = .ok false parser

variable {parser : Parser} {least least' bound bound' : Nat}

theorem Moved.error_of_limit {result : EStateM.Result SyntaxError Parser α}
    (h : Moved parser 1 result) (hlimit : parser.current = parser.limit) :
    exists token, result = .error (.unexpected token) parser := by
  cases h with
  | ok honward hleast =>
      rw [honward.eq_of_limit hlimit] at hleast
      exact absurd hleast (Nat.not_succ_le_self _)
  | @error token _ honward => exact ⟨token, by rw [honward.eq_of_limit hlimit]⟩

theorem Moved.mono {result : EStateM.Result SyntaxError Parser α} (h : Moved parser least result)
    (hleast : least' ≤ least) : Moved parser least' result := by
  cases h with
  | ok honward hmoved =>
      exact .ok honward (Nat.le_trans (Nat.add_le_add_left hleast _) hmoved)
  | error honward => exact .error honward

theorem Moved.onward {e : SyntaxError} {last : Parser}
    (h : Moved parser least (.error e last : EStateM.Result SyntaxError Parser α)) :
    parser.Onward last := by
  cases h with
  | error honward => exact honward

theorem Moved.behind {middle : Parser} (h : parser.Onward middle)
    (hmiddle : parser.current + least ≤ middle.current)
    {result : EStateM.Result SyntaxError Parser α} (hresult : Moved middle least' result) :
    Moved parser (least + least') result := by
  cases hresult with
  | ok honward hmoved =>
      refine .ok (h.trans honward) ?_
      rw [<- Nat.add_assoc]
      exact Nat.le_trans (Nat.add_le_add_right hmiddle least') hmoved
  | error honward => exact .error (h.trans honward)

namespace Advances

variable {parsing : Parsing α}

theorem mono (h : Advances least bound parsing) (hleast : least' ≤ least)
    (hbound : bound' ≤ bound) : Advances least' bound' parsing := by
  intro parser hparser hleft
  exact (h hparser (Nat.lt_of_lt_of_le hleft (Nat.add_le_add_left hbound _))).mono hleast

theorem of_le (h : Advances least bound parsing) (hbound : bound' ≤ bound) :
    Advances least bound' parsing :=
  h.mono (Nat.le_refl least) hbound

theorem any (h : Advances least bound parsing) : Advances 0 bound parsing :=
  h.mono (Nat.zero_le least) (Nat.le_refl bound)

theorem zero : Advances least 0 parsing :=
  fun _ hparser hleft => absurd hparser.le (Nat.not_le_of_lt hleft)

theorem pure (a : α) : Advances 0 bound (return a) :=
  fun _ hparser _ => .ok (.refl hparser) (Nat.le_refl _)

theorem blame (token : Token) : Advances least bound (throw (.unexpected token) : Parsing α) :=
  fun _ hparser _ => .error (.refl hparser)

theorem refuse : Advances least bound (refuse : Parsing α) :=
  fun _ hparser _ => .error (.refl hparser)

theorem look {f : Parser -> Parsing α} (h : forall parser, Advances least bound (f parser)) :
    Advances least bound (do f (<- get)) :=
  fun parser hparser hleft => h parser hparser hleft

theorem choose (b : Bool) {other : Parsing α} (h : Advances least bound parsing)
    (hother : Advances least bound other) :
    Advances least bound (if b then parsing else other) := by
  cases b with
  | false => exact hother
  | true => exact h

theorem onward {middle : Parser} (h : Advances least' (bound - least) parsing)
    (hparser : parser.Bounded) (hleft : parser.limit < parser.current + bound)
    (honward : parser.Onward middle) (hmiddle : parser.current + least ≤ middle.current) :
    Moved parser (least + least') (parsing middle) := by
  have hrest : middle.limit < middle.current + (bound - least) := by
    have hlimit := honward.limit_eq
    have hle := honward.le_limit
    omega
  exact .behind honward hmiddle (h (honward.bounded hparser) hrest)

theorem bind {f : α -> Parsing β} (h : Advances least bound parsing)
    (hf : forall a, Advances least' (bound - least) (f a)) :
    Advances (least + least') bound (parsing >>= f) := by
  intro parser hparser hleft
  have hfirst := h hparser hleft
  cases hresult : parsing parser with
  | ok a middle =>
      rw [hresult] at hfirst
      rw [bind_of_ok hresult]
      cases hfirst with
      | ok honward hmoved => exact (hf a).onward hparser hleft honward hmoved
  | error e middle =>
      rw [hresult] at hfirst
      rw [bind_of_error hresult]
      cases hfirst with
      | error honward => exact .error honward

theorem andThen {f : α -> Parsing β} (h : Advances least bound parsing)
    (hf : forall a, Advances least' bound (f a)) :
    Advances (least + least') bound (parsing >>= f) :=
  h.bind fun a => (hf a).of_le (Nat.sub_le bound least)

theorem tested {test : Parsing Bool} {other : Parsing α} (htest : Takes test)
    (h : Advances (least - 1) (bound - 1) parsing) (hother : Advances least bound other) :
    Advances least bound (do if (<- test) then parsing else other) := by
  intro parser hparser hleft
  rcases htest parser with ⟨hend, htaken⟩ | hnone
  -- the token that is taken counts for what has to be taken, and is one less ahead
  · rw [bind_of_ok htaken]
    exact (h.onward hparser hleft (.advance hparser hend) (Nat.le_refl _)).mono (by omega)
  · rw [bind_of_ok hnone]
    exact hother hparser hleft

end Advances

/-!
## Single tokens
-/

theorem consume_advances : Advances 0 bound consume := by
  intro parser hparser _
  rw [consume, get_bind_run]
  cases hend : parser.atEnd with
  | false => exact .ok (.advance hparser hend) (Nat.le_succ _)
  | true => exact .ok (.refl hparser) (Nat.le_refl _)

theorem consume_of_not_atEnd (h : parser.atEnd = false) :
    consume parser = .ok () parser.advance := by
  rw [consume, get_bind_run, h]
  rfl

theorem accept_advances (wanted : Token.Kind) : Advances 0 bound (accept wanted) :=
  .look fun parser => .choose (parser.isNext wanted)
    (consume_advances.bind fun _ => .pure true) (.pure false)

theorem acceptAny_advances (kinds : List Token.Kind) : Advances 0 bound (acceptAny kinds) := by
  induction kinds with
  | nil => exact .pure false
  | cons wanted others ih =>
      exact (accept_advances wanted).bind fun found => .choose found (.pure true) ih

theorem atEnd_eq_false_of_isNext {wanted : Token.Kind} (hend : wanted ≠ .eof)
    (h : parser.isNext wanted = true) : parser.atEnd = false := by
  rw [Parser.atEnd, Token.isEof, beq_iff_eq.mp h]
  exact beq_eq_false_iff_ne.mpr hend

theorem accept_takes {wanted : Token.Kind} (hend : wanted ≠ .eof) : Takes (accept wanted) := by
  intro parser
  rw [accept, get_bind_run]
  cases hnext : parser.isNext wanted with
  | false => exact .inr rfl
  | true =>
      have hnotEnd := atEnd_eq_false_of_isNext hend hnext
      refine .inl ⟨hnotEnd, ?_⟩
      rw [if_pos rfl, bind_of_ok (consume_of_not_atEnd hnotEnd)]
      rfl

theorem acceptAny_takes {kinds : List Token.Kind} (hend : .eof ∉ kinds) :
    Takes (acceptAny kinds) := by
  induction kinds with
  | nil => exact fun _ => .inr rfl
  | cons wanted others ih =>
      rw [List.mem_cons, not_or] at hend
      intro parser
      rw [acceptAny]
      rcases accept_takes (Ne.symm hend.left) parser with ⟨hnotEnd, htaken⟩ | hnone
      · rw [bind_of_ok htaken]
        exact .inl ⟨hnotEnd, rfl⟩
      · rw [bind_of_ok hnone]
        exact ih hend.right parser

theorem expect_advances {wanted : Token.Kind} (hend : wanted ≠ .eof) :
    Advances 1 bound (expect wanted) :=
  .tested (accept_takes hend) (.pure ()) .refuse

theorem expectName_advances : Advances 1 bound expectName := by
  intro parser hparser hleft
  rw [expectName, get_bind_run]
  cases hkind : parser.peek.kind with
  | name name =>
      have hend : parser.atEnd = false := by
        rw [Parser.atEnd, Token.isEof, hkind]
        rfl
      show Moved parser 1 ((consume >>= fun _ => return name) parser)
      rw [bind_of_ok (consume_of_not_atEnd hend)]
      exact .ok (.advance hparser hend) (Nat.le_refl _)
  | _ => exact .error (.refl hparser)

/-!
## Rows
-/

section Rows

variable {item : Parsing α} (hitem : Advances 1 bound item) {count : Nat}

include hitem

theorem manyUntil_advances (stop : Parser -> Bool) (h : bound ≤ count) :
    Advances 0 bound (manyUntil stop item count) := by
  induction count generalizing bound with
  | zero =>
      rw [Nat.le_zero.mp h]
      exact .zero
  | succ count ih =>
      have hrest := ih (hitem.of_le (Nat.sub_le bound 1)) (Nat.sub_le_of_le_add h)
      have hgoOn := hitem.bind fun first => hrest.andThen fun others => .pure (first :: others)
      exact .look fun parser => .choose (stop parser) (.pure [])
        hgoOn.any

theorem moreItems_advances (h : bound ≤ count) : Advances 0 bound (moreItems item count) := by
  induction count generalizing bound with
  | zero =>
      rw [Nat.le_zero.mp h]
      exact .zero
  | succ count ih =>
      have hfirst := hitem.of_le (Nat.sub_le bound 1)
      have hrest := ih hfirst (Nat.sub_le_of_le_add h)
      have hgoOn := hfirst.andThen fun first => hrest.andThen fun others =>
        .pure (first :: others)
      exact .tested (accept_takes (by decide))
        hgoOn.any (.pure [])

theorem items_advances (h : bound ≤ count) : Advances 0 bound (items item count) := by
  have hgoOn := hitem.andThen fun first => (moreItems_advances hitem h).andThen fun others =>
    .pure (first :: others)
  exact .look fun parser => .choose (parser.isNext .closeParen) (.pure []) hgoOn.any

end Rows

/-!
## Expressions

Below a level stands a whole expression only behind a token, so it has one token less before
it.
-/

variable {H : Type}

section Levels

variable {inner : Parsing (Expr H)} (hinner : Advances 1 (bound - 1) inner)

include hinner

theorem primary_advances : Advances 1 bound (primary inner) := by
  intro parser hparser hleft
  rw [primary, get_bind_run]
  cases hend : parser.atEnd with
  | true =>
      have hkind : parser.peek.kind = .eof := beq_iff_eq.mp hend
      have hconsume : consume parser = .ok () parser := by
        rw [consume, get_bind_run, hend]
        rfl
      rw [bind_of_ok hconsume, hkind]
      exact .error (.refl hparser)
  | false =>
      have hclosing : Takes (accept .closeParen) := accept_takes (by decide)
      rw [bind_of_ok (consume_of_not_atEnd hend)]
      generalize parser.peek = token
      have hadvance : parser.Onward parser.advance := .advance hparser hend
      have hrefused : Advances 0 (bound - 1) (throw (.unexpected token) : Parsing (Expr H)) :=
        .blame token
      show Moved parser (1 + 0) _
      apply Advances.onward _ hparser hleft hadvance (Nat.le_refl _)
      cases token.kind with
      | int value => exact .pure _
      | str text => exact .pure _
      | name name => exact .pure _
      | openParen => exact (hinner.andThen fun e =>
          .tested hclosing (.pure (Expr.group e)) hrefused).any
      | _ => exact .blame token

variable {count : Nat} (hbound : bound ≤ count)

include hbound

theorem call_advances : Advances 1 bound (call inner count) := by
  have hclosing : Token.Kind.closeParen ≠ .eof := by decide
  have hitems := items_advances hinner (Nat.le_trans (Nat.sub_le bound 1) hbound)
  exact (primary_advances hinner).andThen fun callee => .tested (accept_takes (by decide))
    (hitems.andThen fun args => (expect_advances hclosing).andThen fun _ =>
      .pure (Expr.call callee args)).any
    (.pure callee)

theorem unary_advances {limit : Nat} (h : bound ≤ limit) :
    Advances 1 bound (unary inner count limit) := by
  induction limit generalizing bound with
  | zero =>
      rw [Nat.le_zero.mp h]
      exact .zero
  | succ limit ih =>
      have hoperand := ih (hinner.of_le (Nat.sub_le _ 1))
        (Nat.le_trans (Nat.sub_le bound 1) hbound) (Nat.sub_le_of_le_add h)
      exact .tested (acceptAny_takes (by decide))
        (.look fun parser =>
          (hoperand.andThen fun operand => .pure (Expr.unary parser.previous operand)).any)
        (call_advances hinner hbound)

end Levels

section Chains

variable {operators : List Token.Kind} (hend : .eof ∉ operators) {operand : Parsing (Expr H)}
  (hoperand : Advances 1 bound operand) {count : Nat} (hbound : bound ≤ count)

include hend hoperand hbound

theorem chainFrom_advances (left : Expr H) :
    Advances 0 bound (chainFrom operators operand count left) := by
  induction count generalizing bound left with
  | zero =>
      rw [Nat.le_zero.mp hbound]
      exact .zero
  | succ count ih =>
      have hright := hoperand.of_le (Nat.sub_le bound 1)
      have hrest := ih hright (Nat.sub_le_of_le_add hbound)
      exact .tested (acceptAny_takes hend)
        (.look fun parser =>
          (hright.andThen fun right => hrest (.binary left parser.previous right)).any)
        (.pure left)

theorem chain_advances : Advances 1 bound (chain operators operand count) :=
  hoperand.andThen fun first => chainFrom_advances hend hoperand hbound first

end Chains

section Levels

variable {inner : Parsing (Expr H)} (hinner : Advances 1 (bound - 1) inner) {count : Nat}
  (hbound : bound ≤ count)

include hinner hbound

theorem factor_advances : Advances 1 bound (factor inner count) :=
  chain_advances (by decide) (unary_advances hinner hbound hbound) hbound

theorem term_advances : Advances 1 bound (term inner count) :=
  chain_advances (by decide) (factor_advances hinner hbound) hbound

theorem comparison_advances : Advances 1 bound (comparison inner count) :=
  chain_advances (by decide) (term_advances hinner hbound) hbound

theorem equality_advances : Advances 1 bound (equality inner count) :=
  chain_advances (by decide) (comparison_advances hinner hbound) hbound

theorem assignment_advances : Advances 1 bound (assignment inner count) := by
  have hassignTo : forall (left : Expr H) (sign : Token) (value : Expr H) {bound : Nat},
      Advances 0 bound (assignTo left sign value) := by
    intro left sign value bound
    cases left with
    | var name => exact .pure _
    | _ => exact .blame sign
  exact (equality_advances hinner hbound).andThen fun left => .tested (accept_takes (by decide))
    (.look fun parser => (hinner.andThen fun value => hassignTo left parser.previous value).any)
    (.pure left)

end Levels

theorem expression_advances (bound : Nat) :
    Advances 1 bound (expression bound : Parsing (Expr H)) := by
  induction bound with
  | zero => exact .zero
  | succ depth ih =>
      have hinner : Advances 1 (depth + 1 - 1) (expression depth : Parsing (Expr H)) := ih
      exact assignment_advances hinner (Nat.le_refl _)

/-!
## Statements
-/

section Sentences

variable {inner : Parsing (Stmt H)} (hinner : Advances 1 bound inner) {count : Nat}
  (hbound : bound ≤ count)

include hinner hbound

theorem block_advances : Advances 1 bound (block inner count) :=
  (manyUntil_advances hinner blockEnds hbound).andThen fun body =>
    (expect_advances (by decide)).andThen fun _ => .pure (Stmt.block body)

theorem braced_advances {f : Stmt H -> Parsing α} (hf : forall s, Advances 0 bound (f s)) :
    Advances 1 bound (do
      expect .openBrace
      let s <- block inner count
      f s) := by
  have hopening : Token.Kind.openBrace ≠ .eof := by decide
  exact (expect_advances hopening).andThen fun _ =>
    ((block_advances hinner hbound).andThen hf).any

theorem declaration_advances : Advances 1 bound (declaration inner count) := by
  have hopening : Token.Kind.openParen ≠ .eof := by decide
  have hclosing : Token.Kind.closeParen ≠ .eof := by decide
  have hparams := items_advances expectName_advances hbound
  exact expectName_advances.andThen fun name =>
    ((expect_advances hopening).andThen fun _ => hparams.andThen fun params =>
      (expect_advances hclosing).andThen fun _ => braced_advances hinner hbound fun body =>
        .pure (Stmt.define name params body)).any

theorem otherwise_advances : Advances 0 bound (otherwise inner count) := by
  have hbraced := braced_advances hinner hbound .pure
  rw [bind_pure] at hbraced
  exact .tested (accept_takes (by decide)) (hbraced.of_le (Nat.sub_le bound 1)).any
    (.pure (Stmt.block []))

theorem branch_advances : Advances 1 bound (branch inner count) :=
  ((expression_advances count).of_le hbound).andThen fun condition =>
    (braced_advances hinner hbound fun onTrue => (otherwise_advances hinner hbound).andThen
      fun onFalse => .pure (Stmt.branch condition onTrue onFalse)).any

theorem loop_advances : Advances 1 bound (loop inner count) :=
  ((expression_advances count).of_le hbound).andThen fun condition =>
    (braced_advances hinner hbound fun body => .pure (Stmt.loop condition body)).any

omit hinner in
theorem simple_advances : Advances 1 bound (simple count : Parsing (Stmt H)) := by
  have hdot : Token.Kind.dot ≠ .eof := by decide
  exact ((expression_advances count).of_le hbound).andThen fun e =>
    ((expect_advances hdot).andThen fun _ => .pure (Stmt.expr e)).any

end Sentences

theorem statement_advances (bound : Nat) :
    Advances 1 bound (statement bound : Parsing (Stmt H)) := by
  induction bound with
  | zero => exact .zero
  | succ depth ih =>
      -- the keyword or the brace in front is a token that the rest does not have before it
      have hbound := Nat.le_succ depth
      have hsimple : Advances 1 (depth + 1) (simple (depth + 1) : Parsing (Stmt H)) :=
        simple_advances (Nat.le_refl _)
      exact .tested (accept_takes (by decide)) (declaration_advances ih hbound).any
        (.tested (accept_takes (by decide)) (branch_advances ih hbound).any
          (.tested (accept_takes (by decide)) (loop_advances ih hbound).any
            (.tested (accept_takes (by decide)) (block_advances ih hbound).any hsimple)))

theorem program_advances (bound : Nat) :
    Advances 0 bound (program bound : Parsing (List (Stmt H))) :=
  manyUntil_advances (statement_advances bound) Parser.atEnd (Nat.le_refl bound)

/-!
## From every place
-/

/-- A result is for at least one token, and nothing is taken at the limit: the parsing fails
there and stays where it is. -/
def Progresses (parser : Parser) (parse : Parsing α) : Prop :=
  Moved parser 1 (parse parser) ∧ (parser.current = parser.limit ->
    exists token, parse parser = .error (.unexpected token) parser)

theorem Advances.progresses {parse : Parsing α} (h : Advances 1 bound parse)
    (hparser : parser.Bounded) (hbound : parser.limit < parser.current + bound) :
    Progresses parser parse :=
  ⟨h hparser hbound, (h hparser hbound).error_of_limit⟩

def ofExpressions (bound : Nat) : List (Parsing (Expr H)) :=
  let whole := expression bound
  [whole, assignment whole bound, equality whole bound, comparison whole bound,
    term whole bound, factor whole bound, unary whole bound bound, call whole bound,
    primary whole]

def ofStatements (bound : Nat) : List (Parsing (Stmt H)) :=
  let whole := statement bound
  [whole, declaration whole bound, branch whole bound, loop whole bound, block whole bound,
    simple bound]

theorem ofExpressions_advance :
    forall parse, parse ∈ (ofExpressions bound : List (Parsing (Expr H))) ->
      Advances 1 bound parse := by
  have hwhole := expression_advances (H := H) bound
  have hinner := hwhole.of_le (Nat.sub_le bound 1)
  have hbound := Nat.le_refl bound
  simp only [ofExpressions, List.forall_mem_cons]
  exact ⟨hwhole, assignment_advances hinner hbound, equality_advances hinner hbound,
    comparison_advances hinner hbound, term_advances hinner hbound,
    factor_advances hinner hbound, unary_advances hinner hbound hbound,
    call_advances hinner hbound, primary_advances hinner, nofun⟩

theorem ofStatements_advance :
    forall parse, parse ∈ (ofStatements bound : List (Parsing (Stmt H))) ->
      Advances 1 bound parse := by
  have hwhole := statement_advances (H := H) bound
  have hbound := Nat.le_refl bound
  simp only [ofStatements, List.forall_mem_cons]
  exact ⟨hwhole, declaration_advances hwhole hbound, branch_advances hwhole hbound,
    loop_advances hwhole hbound, block_advances hwhole hbound, simple_advances hbound,
    nofun⟩

end Parsing

namespace Parser

def standing (tokens : List Token) (cursor : Nat) : Parser :=
  { ofTokens tokens with current := cursor }

theorem limit_standing (tokens : List Token) (cursor : Nat) :
    (standing tokens cursor).limit = tokens.findIdx Token.isEof :=
  List.findIdx_toArray

theorem bounded_standing {tokens : List Token} {cursor : Nat}
    (h : cursor ≤ tokens.findIdx Token.isEof) : (standing tokens cursor).Bounded where
  le := by
    rw [limit_standing]
    exact h
  fallback := rfl

theorem limit_ofTokens_lt (tokens : List Token) :
    (ofTokens tokens).limit < (ofTokens tokens).current + (tokens.length + 1) := by
  show _ < 0 + (tokens.length + 1)
  rw [Nat.zero_add, Nat.lt_succ_iff]
  exact Array.findIdx_le_size

end Parser

/-- From every place in a list of tokens up to the first mark of the end, with a bound above
the number of tokens up to there: whatever parses an expression or a statement takes a token
if it succeeds, and goes back or beyond that mark in no case; at the mark it fails and stays
where it is. The same but for the taking of a token holds of what takes single tokens, and of
the parsing of a program. No bound is ever reached, so every list of tokens has a tree or a
token that is to blame. -/
theorem Parsing.makes_progress {H : Type} (tokens : List Token) :
    (forall cursor bound : Nat, cursor ≤ tokens.findIdx Token.isEof ->
      tokens.findIdx Token.isEof < cursor + bound ->
      let parser := Parser.standing tokens cursor
      (forall parse, parse ∈ (ofExpressions bound : List (Parsing (Expr H))) ->
        Progresses parser parse) ∧
      (forall parse, parse ∈ (ofStatements bound : List (Parsing (Stmt H))) ->
        Progresses parser parse) ∧
      Moved parser 0 (consume parser) ∧ Moved parser 0 (expectName parser) ∧
      (forall wanted, Moved parser 0 (accept wanted parser) ∧
        Moved parser 0 (expect wanted parser)) ∧
      (forall kinds, Moved parser 0 (acceptAny kinds parser)) ∧
      Moved parser 0 ((program bound : Parsing (List (Stmt H))) parser)) ∧
    ((exists tree : Stmt H, Program.ofTokens tokens = .ok tree) ∨
      exists token, (Program.ofTokens tokens : Except SyntaxError (Stmt H)) =
        .error (.unexpected token)) := by
  constructor
  · intro cursor bound hcursor hbound parser
    have hparser : parser.Bounded := Parser.bounded_standing hcursor
    rw [<- Parser.limit_standing tokens cursor] at hbound
    refine ⟨fun parse hparse => (ofExpressions_advance parse hparse).progresses hparser hbound,
      fun parse hparse => (ofStatements_advance parse hparse).progresses hparser hbound,
      consume_advances hparser hbound, expectName_advances.any hparser hbound, ?_,
      fun kinds => acceptAny_advances kinds hparser hbound,
      program_advances bound hparser hbound⟩
    intro wanted
    have haccept : Advances 0 bound (accept wanted) := accept_advances wanted
    have hexpect : Advances 0 bound (expect wanted) :=
      haccept.andThen fun found => .choose found (.pure ()) .refuse
    exact ⟨haccept hparser hbound, hexpect hparser hbound⟩
  · have hparser : (Parser.ofTokens tokens).Bounded := Parser.bounded_standing (Nat.zero_le _)
    have hmoved := program_advances (H := H) (tokens.length + 1) hparser
      (Parser.limit_ofTokens_lt tokens)
    rw [Program.ofTokens]
    generalize program _ _ = result at hmoved
    cases hmoved with
    | ok => exact .inl ⟨_, rfl⟩
    | error => exact .inr ⟨_, rfl⟩

theorem Parsing.open_block_makes_progress :
    let number : Expr Empty := .literal (.int 1)
    let tokens : List Token := [⟨.openBrace, ⟨1, 1⟩⟩, ⟨.openParen, ⟨1, 2⟩⟩, ⟨.int 1, ⟨1, 3⟩⟩,
      ⟨.closeParen, ⟨1, 4⟩⟩, ⟨.dot, ⟨1, 5⟩⟩, ⟨.eof, ⟨1, 6⟩⟩, ⟨.closeBrace, ⟨2, 1⟩⟩]
    let before := Parser.standing tokens 1
    let atMark := Parser.standing tokens 5
    tokens.findIdx Token.isEof = 5 ∧
      expression 5 before = .ok (.group number) (Parser.standing tokens 4) ∧
      Moved before 1 ((expression 5 : Parsing (Expr Empty)) before) ∧
      exists token, (statement 1 : Parsing (Stmt Empty)) atMark =
        .error (.unexpected token) atMark := by
  intro number tokens before atMark
  have hlimit : tokens.findIdx Token.isEof = 5 := by decide
  have hexpressions := ((makes_progress (H := Empty) tokens).left 1 5 (by decide) (by decide)).left
  have hstatements := ((makes_progress (H := Empty) tokens).left 5 1 (by decide)
    (by decide)).right.left
  refine ⟨hlimit, rfl, ?_, ?_⟩
  · exact (hexpressions (expression 5) List.mem_cons_self).left
  · have hatMark : atMark.current = atMark.limit :=
      ((Parser.limit_standing tokens 5).trans hlimit).symm
    exact (hstatements (statement 1) List.mem_cons_self).right hatMark

end Lisan
