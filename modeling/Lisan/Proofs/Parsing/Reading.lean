import Lisan.Parsing
import Lisan.Proofs.Grammar.Decision

/-!
# Parsers and readers

A parser faces the tokens up to the first mark of the end, and neither what is behind that
mark nor the tokens that were taken make a difference. So parsing agrees with a reader of
these tokens alone: it comes to the same result and then faces what the reader leaves, or it
stops where the reader does, and for the same reason. Where the reader was not allowed to go
deep enough, nothing is said.
-/

namespace Lisan

def SyntaxError.ofStop (endMark : Token) : Grammar.Stop -> SyntaxError
  | .unexpected token => unexpected token
  | .unexpectedEnd => unexpected endMark
  | .tooDeep => tooDeep

namespace Parser

/-- The tokens that are still to be taken, and then the mark of the end. -/
structure Faces (parser : Parser) (rest : List Token) (mark : Token) : Prop where
  ahead : exists behind, parser.tokens.toList.drop parser.current ++ [parser.fallback] =
    rest ++ mark :: behind
  notEnd : forall token, token ∈ rest -> token.isEof = false
  isEnd : mark.isEof = true

variable {parser : Parser} {token mark : Token} {rest : List Token}

theorem head?_ahead (parser : Parser) :
    (parser.tokens.toList.drop parser.current ++ [parser.fallback]).head? =
      some parser.peek := by
  rw [List.head?_append, List.head?_drop, Array.getElem?_toList, peek]
  cases parser.tokens[parser.current]? <;> rfl

theorem Faces.head?_eq (h : parser.Faces rest mark) :
    (rest ++ [mark]).head? = some parser.peek := by
  rcases h.ahead with ⟨behind, hahead⟩
  rw [<- head?_ahead, hahead]
  cases rest <;> rfl

theorem Faces.peek_nil (h : parser.Faces [] mark) : parser.peek = mark :=
  (Option.some.inj h.head?_eq).symm

theorem Faces.peek_cons (h : parser.Faces (token :: rest) mark) : parser.peek = token :=
  (Option.some.inj h.head?_eq).symm

theorem Faces.atEnd_eq (h : parser.Faces rest mark) : parser.atEnd = rest.isEmpty := by
  cases rest with
  | nil => rw [atEnd, h.peek_nil, h.isEnd, List.isEmpty_nil]
  | cons token others =>
      rw [atEnd, h.peek_cons, h.notEnd token List.mem_cons_self, List.isEmpty_cons]

theorem Faces.peek_eq_false (h : parser.Faces rest mark) (wanted : Token.Kind -> Bool)
    (hend : wanted .eof = false) (hclear : Grammar.Reader.Clear wanted rest) :
    wanted parser.peek.kind = false := by
  cases rest with
  | nil => rw [h.peek_nil, beq_iff_eq.mp h.isEnd, hend]
  | cons token others =>
      rw [h.peek_cons]
      exact hclear token rfl

theorem Faces.advance (h : parser.Faces (token :: rest) mark) :
    parser.advance.Faces rest mark ∧ parser.advance.previous = token := by
  refine ⟨⟨?_, fun other hother => h.notEnd other (List.mem_cons_of_mem token hother), h.isEnd⟩,
    h.peek_cons⟩
  rcases h.ahead with ⟨behind, hahead⟩
  exists behind
  show parser.tokens.toList.drop (parser.current + 1) ++ [parser.fallback] = _
  rw [<- List.tail_drop]
  cases hdrop : parser.tokens.toList.drop parser.current with
  | nil => simp [hdrop] at hahead
  | cons first others =>
      rw [hdrop] at hahead
      exact (List.cons.inj hahead).right

/-- The parser stands before the token that a reader stopped at, or behind it, if it was taken
where a primary expression had to begin. -/
inductive StopsAt (parser : Parser) (mark : Token) : List Token -> Grammar.Stop -> Prop where
  | before {rest : List Token} {stop : Grammar.Stop} :
      parser.Faces rest mark -> StopsAt parser mark rest stop
  | behind {token : Token} {others : List Token} :
      parser.Faces others mark -> parser.previous = token ->
      Grammar.opensPrimary token.kind = false ->
      StopsAt parser mark (token :: others) (.unexpected token)

end Parser

namespace Parsing

open Grammar
open Grammar.Reader (Clear clear_cons)

inductive Agreed (mark : Token) : EStateM.Result Stop (List Token) α ->
    EStateM.Result SyntaxError Parser α -> Prop where
  | ok {a : α} {rest : List Token} {parser : Parser} :
      parser.Faces rest mark -> Agreed mark (.ok a rest) (.ok a parser)
  | error {stop : Stop} {rest : List Token} {parser : Parser} :
      parser.StopsAt mark rest stop ->
      Agreed mark (.error stop rest) (.error (.ofStop mark stop) parser)
  | starved {rest : List Token} {result : EStateM.Result SyntaxError Parser α} :
      Agreed mark (.error .tooDeep rest) result

/-- The parsing agrees with the reader of the tokens that the parser faces. -/
def Agrees (parsing : Parsing α) (reader : Reader α) : Prop :=
  forall ⦃parser : Parser⦄ ⦃rest : List Token⦄ ⦃mark : Token⦄,
    parser.Faces rest mark -> Agreed mark (reader rest) (parsing parser)

structure Tests (test : Parsing Bool) (wanted : Token.Kind -> Bool) : Prop where
  taken : forall {parser : Parser} {token : Token} {rest : List Token} {mark : Token},
    parser.Faces (token :: rest) mark -> wanted token.kind = true ->
    test parser = .ok true parser.advance
  left : forall {parser : Parser} {rest : List Token} {mark : Token},
    parser.Faces rest mark -> Clear wanted rest -> test parser = .ok false parser

theorem bind_of_ok {x : Parsing α} {f : α -> Parsing β} {parser last : Parser} {a : α}
    (h : x parser = .ok a last) : (x >>= f) parser = f a last := by
  simp [bind, EStateM.bind, h]

theorem bind_of_error {x : Parsing α} {f : α -> Parsing β} {parser last : Parser}
    {e : SyntaxError} (h : x parser = .error e last) : (x >>= f) parser = .error e last := by
  simp [bind, EStateM.bind, h]

theorem bind_congr_run {x y : Parsing α} {f : α -> Parsing β} {parser : Parser}
    (h : x parser = y parser) : (x >>= f) parser = (y >>= f) parser := by
  simp only [bind, EStateM.bind, h]

theorem get_bind_run {f : Parser -> Parsing α} {parser : Parser} :
    ((do f (<- get)) : Parsing α) parser = f parser parser :=
  rfl

namespace Agrees

variable {parsing : Parsing α} {reader : Reader α}

theorem pure (a : α) : Agrees (return a) (return a) :=
  fun _ _ _ h => .ok h

theorem blame (token : Token) :
    Agrees (throw (.unexpected token) : Parsing α) (throw (.unexpected token)) :=
  fun _ _ _ h => .error (.before h)

theorem starve : Agrees parsing (throw .tooDeep) :=
  fun _ _ _ _ => .starved

theorem bind {f : α -> Parsing β} {f' : α -> Reader β} (h : Agrees parsing reader)
    (hf : forall a, Agrees (f a) (f' a)) : Agrees (parsing >>= f) (reader >>= f') := by
  intro parser rest mark hfaces
  have hfirst := h hfaces
  cases hread : reader rest with
  | ok a others =>
      rw [hread] at hfirst
      rw [Reader.bind_of_ok hread]
      generalize hparsing : parsing parser = result at hfirst
      cases hfirst with
      | ok hnext =>
          rw [bind_of_ok hparsing]
          exact hf a hnext
  | error stop others =>
      rw [hread] at hfirst
      have hreader : (reader >>= f') rest = .error stop others := by
        simp [Bind.bind, EStateM.bind, hread]
      rw [hreader]
      generalize hparsing : parsing parser = result at hfirst
      cases hfirst with
      | error hstops =>
          rw [bind_of_error hparsing]
          exact .error hstops
      | starved => exact .starved

theorem choose (b : Bool) {other : Parsing α} {other' : Reader α} (h : Agrees parsing reader)
    (hother : Agrees other other') :
    Agrees (if b then parsing else other) (if b then reader else other') := by
  cases b with
  | false => exact hother
  | true => exact h

end Agrees

/-!
## Single tokens
-/

theorem consume_at_mark {parser : Parser} {mark : Token} (h : parser.Faces [] mark) :
    consume parser = .ok () parser := by
  rw [consume, get_bind_run, h.atEnd_eq]
  rfl

theorem consume_of_faces {parser : Parser} {token mark : Token} {rest : List Token}
    (h : parser.Faces (token :: rest) mark) : consume parser = .ok () parser.advance := by
  rw [consume, get_bind_run, h.atEnd_eq]
  rfl

theorem accept_tests (wanted : Token.Kind) (hend : wanted ≠ .eof) :
    Tests (accept wanted) (· == wanted) := by
  constructor
  · intro parser token rest mark h hwanted
    rw [accept, get_bind_run, Parser.isNext, h.peek_cons, hwanted, if_pos rfl,
      bind_of_ok (consume_of_faces h)]
    rfl
  · intro parser rest mark h hclear
    have hother : parser.isNext wanted = false :=
      h.peek_eq_false (· == wanted) (beq_eq_false_iff_ne.mpr hend.symm) hclear
    rw [accept, get_bind_run, hother, if_neg Bool.false_ne_true]
    rfl

theorem acceptAny_tests {kinds : List Token.Kind} {wanted : Token.Kind -> Bool}
    (hend : .eof ∉ kinds) (hwanted : forall {kind}, wanted kind = true <-> kind ∈ kinds) :
    Tests (acceptAny kinds) wanted := by
  induction kinds generalizing wanted with
  | nil =>
      refine ⟨fun _ h => absurd (hwanted.mp h) List.not_mem_nil, fun _ _ => rfl⟩
  | cons first others ih =>
      rw [List.mem_cons, not_or] at hend
      have hfirst := accept_tests first (Ne.symm hend.left)
      have hothers : Tests (acceptAny others) (others.contains ·) :=
        ih hend.right List.contains_iff_mem
      have hkinds : forall kind, wanted kind = (kind == first || others.contains kind) := by
        intro kind
        rw [Bool.eq_iff_iff, hwanted]
        simp
      constructor
      · intro parser token rest mark h htoken
        cases hkind : token.kind == first with
        | true =>
            rw [acceptAny, bind_of_ok (hfirst.taken h hkind)]
            rfl
        | false =>
            rw [hkinds, hkind, Bool.false_or] at htoken
            rw [acceptAny, bind_of_ok (hfirst.left h (clear_cons hkind))]
            exact hothers.taken h htoken
      · intro parser rest mark h hclear
        have hnot : Clear (· == first) rest := Reader.clear_mono hclear fun kind hkind => by
          rw [hkinds, hkind, Bool.true_or]
        rw [acceptAny, bind_of_ok (hfirst.left h hnot)]
        exact hothers.left h (Reader.clear_mono hclear fun kind hkind => by
          rw [hkinds, hkind, Bool.or_true])

theorem Agrees.take {test : Parsing Bool} {wanted : Token.Kind -> Bool}
    {f : Token -> Parsing α} {g : Parsing α} {f' : Option Token -> Reader α}
    (htest : Tests test wanted)
    (hf : forall token, wanted token.kind = true -> Agrees (f token) (f' (some token)))
    (hg : Agrees g (f' none)) :
    Agrees (do if (<- test) then f (<- get).previous else g) (Reader.take? wanted >>= f') := by
  intro parser rest mark h
  rcases begins_or_clear wanted rest with ⟨token, others, rfl, hwanted⟩ | hclear
  · rw [bind_of_ok (htest.taken h hwanted), Reader.bind_of_ok (Reader.take?_cons hwanted)]
    show Agreed mark (f' (some token) others) (f parser.advance.previous parser.advance)
    rw [h.advance.right]
    exact hf token hwanted h.advance.left
  · rw [bind_of_ok (htest.left h hclear), Reader.bind_of_ok (Reader.take?_of_clear hclear)]
    exact hg h

theorem accept_agrees (wanted : Token.Kind) (hend : wanted ≠ .eof) :
    Agrees (accept wanted) (Reader.accept wanted) := by
  intro parser rest mark h
  rcases next_cases wanted rest with ⟨token, others, rfl, hkind⟩ | hclear
  · rw [(accept_tests wanted hend).taken h (beq_iff_eq.mpr hkind), Reader.accept_cons hkind]
    exact .ok h.advance.left
  · rw [(accept_tests wanted hend).left h hclear, Reader.accept_of_clear hclear]
    exact .ok h

theorem Agrees.accepted {wanted : Token.Kind} (hend : wanted ≠ .eof) {parsing other : Parsing α}
    {reader other' : Reader α} (h : Agrees parsing reader) (hother : Agrees other other') :
    Agrees (do if (<- accept wanted) then parsing else other)
      (do if (<- Reader.accept wanted) then reader else other') :=
  (accept_agrees wanted hend).bind fun found => .choose found h hother

theorem refuse_agreed {parser : Parser} {rest : List Token} {mark : Token}
    (h : parser.Faces rest mark) :
    Agreed mark (Reader.refuse rest : EStateM.Result Stop (List Token) α)
      (.error (.unexpected parser.peek) parser) := by
  cases rest with
  | nil =>
      rw [h.peek_nil]
      exact .error (.before h)
  | cons token others =>
      rw [h.peek_cons]
      exact .error (.before h)

theorem refuse_taken_agreed {parser : Parser} {rest : List Token} {mark : Token}
    (h : parser.Faces rest mark) (hother : opensPrimary parser.peek.kind = false) :
    exists last, consume parser = .ok () last ∧
      Agreed mark (Reader.refuse rest : EStateM.Result Stop (List Token) α)
        (.error (.unexpected parser.peek) last) := by
  cases rest with
  | nil => exact ⟨parser, consume_at_mark h, refuse_agreed h⟩
  | cons token others =>
      rw [h.peek_cons] at hother ⊢
      exact ⟨parser.advance, consume_of_faces h,
        .error (.behind h.advance.left h.advance.right hother)⟩

theorem expect_agrees (wanted : Token.Kind) (hend : wanted ≠ .eof) :
    Agrees (expect wanted) (Reader.expect wanted) := by
  intro parser rest mark h
  rcases next_cases wanted rest with ⟨token, others, rfl, hkind⟩ | hclear
  · rw [expect, bind_of_ok ((accept_tests wanted hend).taken h (beq_iff_eq.mpr hkind)),
      Reader.expect_cons hkind]
    exact .ok h.advance.left
  · rw [expect, bind_of_ok ((accept_tests wanted hend).left h hclear), expect_of_clear hclear]
    exact refuse_agreed h

theorem expectName_agrees : Agrees expectName Reader.expectName := by
  intro parser rest mark h
  rcases begins_or_clear isName rest with ⟨⟨kind, place⟩, others, rfl, hname⟩ | hclear
  · cases kind with
    | name name =>
        rw [Reader.expectName_cons rfl, expectName, get_bind_run, h.peek_cons]
        show Agreed mark _ ((consume >>= fun _ => return name) parser)
        rw [bind_of_ok (consume_of_faces h)]
        exact .ok h.advance.left
    | _ => cases hname
  · rw [expectName_of_clear hclear, expectName, get_bind_run]
    have hother : isName parser.peek.kind = false := h.peek_eq_false isName rfl hclear
    cases hkind : parser.peek.kind with
    | name name =>
        rw [hkind] at hother
        cases hother
    | _ => exact refuse_agreed h

/-!
## Rows
-/

theorem items_run (item : Parsing α) (bound : Nat) (parser : Parser) :
    items item bound parser = (if parser.isNext .closeParen then return [] else do
      let first <- item
      let others <- moreItems item bound
      return first :: others) parser :=
  rfl

theorem manyUntil_agrees {stop : Parser -> Bool} {test : Reader Bool}
    {answer : List Token -> Bool} {item : Parsing α} {item' : Reader α}
    (htest : Reader.Peeks test answer)
    (hstop : forall {parser rest mark}, Parser.Faces parser rest mark -> stop parser = answer rest)
    (hitem : Agrees item item') {count bound : Nat} (h : count ≤ bound) :
    Agrees (manyUntil stop item bound) (Reader.manyUntil test item' count) := by
  induction count generalizing bound with
  | zero => exact .starve
  | succ count ih =>
      cases bound with
      | zero => exact absurd h (Nat.not_succ_le_zero count)
      | succ bound =>
          have hrest := ih (Nat.le_of_succ_le_succ h)
          intro parser rest mark hfaces
          have hgoOn := hitem.bind fun first => hrest.bind fun others => .pure (first :: others)
          rw [Reader.manyUntil, Reader.bind_of_ok (htest rest), manyUntil, get_bind_run,
            hstop hfaces]
          exact Agrees.choose (answer rest) (.pure []) hgoOn hfaces

theorem moreItems_agrees {item : Parsing α} {item' : Reader α} (hitem : Agrees item item')
    {count bound : Nat} (h : count ≤ bound) :
    Agrees (moreItems item bound) (Reader.moreItems item' count) := by
  induction count generalizing bound with
  | zero => exact .starve
  | succ count ih =>
      cases bound with
      | zero => exact absurd h (Nat.not_succ_le_zero count)
      | succ bound =>
          have hrest := ih (Nat.le_of_succ_le_succ h)
          exact .accepted (by decide)
            (hitem.bind fun first => hrest.bind fun others => .pure (first :: others)) (.pure [])

theorem items_agrees {item : Parsing α} {item' : Reader α} (hitem : Agrees item item')
    {count bound : Nat} (h : count ≤ bound) {f : List α -> Parsing β} {f' : List α -> Reader β}
    (hf : forall xs, Agrees (f xs) (f' xs)) :
    Agrees (do
      let xs <- items item bound
      expect .closeParen
      f xs) (Reader.items item' count >>= f') := by
  have hclosing : Agrees (expect .closeParen) (Reader.expect .closeParen) :=
    expect_agrees _ (by decide)
  intro parser rest mark hfaces
  rw [bind_congr_run (items_run item bound parser)]
  rcases next_cases .closeParen rest with ⟨token, others, rfl, hkind⟩ | hclear
  · have hnone : Reader.items item' count (token :: others) = .ok [] others := by
      rw [Reader.items, Reader.bind_of_ok (Reader.accept_cons hkind)]
      rfl
    have hrest := hclosing.bind (fun _ => hf []) hfaces
    rw [Reader.bind_of_ok (Reader.expect_cons hkind)] at hrest
    rw [Reader.bind_of_ok hnone, Parser.isNext, hfaces.peek_cons, hkind]
    exact hrest
  · have hsome := (hitem.bind fun first => (moreItems_agrees hitem h).bind fun others =>
      hclosing.bind fun _ => hf (first :: others)) hfaces
    have hread : Reader.items item' count >>= f' = (do
        if (<- Reader.accept .closeParen) then f' []
        else
          let first <- item'
          let others <- Reader.moreItems item' count
          Reader.expect .closeParen
          f' (first :: others)) := by
      rw [Reader.items, bind_assoc]
      congr 1
      funext closed
      cases closed <;> simp only [bind_assoc, pure_bind, Bool.false_eq_true, if_true, if_false]
    have hother : parser.isNext .closeParen = false :=
      hfaces.peek_eq_false (· == .closeParen) rfl hclear
    rw [hread, Reader.bind_of_ok (Reader.accept_of_clear hclear), hother]
    simp only [bind_assoc, pure_bind, Bool.false_eq_true, if_false]
    exact hsome

end Parsing
end Lisan
