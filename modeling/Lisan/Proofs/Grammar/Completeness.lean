import Lisan.Proofs.Grammar.Statement
import Lisan.Proofs.Grammar.Reading

/-!
# Readers take every phrase

A reader of the language takes each phrase off its tokens if the bound is above
the number of tokens of the phrase and the next token cannot go on with it. A
reader looks one token ahead, so what matters of a phrase that follows is its
first token; these are settled first.
-/

namespace Lisan
namespace Grammar

open Reader

variable {H : Type}

/-!
## First tokens
-/

def opensPrimary : Token.Kind -> Bool
  | .int _ | .str _ | .name _ | .openParen => true
  | _ => false

def opensExpression (kind : Token.Kind) : Bool :=
  opensPrimary kind || isUnary kind

def opensStatement (kind : Token.Kind) : Bool :=
  opensExpression kind ||
    kind matches .functionWord | .ifWord | .whileWord | .openBrace

section Levels

variable {Inner : List Token -> Expr H -> Prop}

theorem primary_begins {tokens : List Token} {e : Expr H} (h : Primary Inner tokens e) :
    Begins opensPrimary tokens := by
  cases h with
  | int hkind => exact ⟨_, _, rfl, by rw [hkind]; rfl⟩
  | str hkind => exact ⟨_, _, rfl, by rw [hkind]; rfl⟩
  | var hkind => exact ⟨_, _, rfl, by rw [hkind]; rfl⟩
  | group hopening _ _ => exact ⟨_, _, rfl, by rw [hopening]; rfl⟩

theorem called_begins {tokens : List Token} {e : Expr H} (h : Called Inner tokens e) :
    Begins opensPrimary tokens := by
  cases h with
  | plain hprimary => exact primary_begins hprimary
  | call hprimary _ => exact begins_append (primary_begins hprimary) _

theorem prefixed_begins {tokens : List Token} {e : Expr H}
    (h : Prefixed (Called Inner) tokens e) : Begins opensExpression tokens := by
  cases h with
  | plain hcalled =>
      refine begins_mono (called_begins hcalled) ?_
      intro kind hkind
      simp [opensExpression, hkind]
  | more hoperator _ =>
      exact ⟨_, _, rfl, by simp [opensExpression, isUnary_iff.mpr hoperator]⟩

theorem chain_begins {signs : List Token.Kind} {Operand : List Token -> Expr H -> Prop}
    {wanted : Token.Kind -> Bool} {tokens : List Token} {e : Expr H}
    (hoperand : forall {tokens e}, Operand tokens e -> Begins wanted tokens)
    (h : Chain signs Operand tokens e) : Begins wanted tokens := by
  induction h with
  | single hsingle => exact hoperand hsingle
  | more _ _ _ ih => exact begins_append ih _

theorem assigned_begins {tokens : List Token} {e : Expr H} (h : Assigned Inner tokens e) :
    Begins opensExpression tokens := by
  cases h with
  | assign htarget _ _ => exact ⟨_, _, rfl, by rw [htarget]; rfl⟩
  | plain hchain =>
      exact chain_begins (chain_begins (chain_begins (chain_begins prefixed_begins))) hchain

end Levels

theorem expression_begins {tokens : List Token} {e : Expr H} (h : Expression tokens e) :
    Begins opensExpression tokens := by
  cases h with
  | intro hassigned => exact assigned_begins hassigned

theorem braced_begins {Inner : List Token -> Stmt H -> Prop} {tokens : List Token}
    {s : Stmt H} (h : Braced Inner tokens s) : Begins (· == .openBrace) tokens := by
  cases h with
  | intro hopening _ _ => exact ⟨_, _, rfl, by simp [hopening]⟩

theorem sentence_begins {Whole : List Token -> Expr H -> Prop}
    {Inner : List Token -> Stmt H -> Prop} {tokens : List Token} {s : Stmt H}
    (hwhole : forall {tokens e}, Whole tokens e -> Begins opensExpression tokens)
    (h : Sentence Whole Inner tokens s) : Begins opensStatement tokens := by
  cases h with
  | define hkeyword _ _ _ => exact ⟨_, _, rfl, by rw [hkeyword]; rfl⟩
  | branch hkeyword _ _ => exact ⟨_, _, rfl, by rw [hkeyword]; rfl⟩
  | branchElse hkeyword _ _ _ _ => exact ⟨_, _, rfl, by rw [hkeyword]; rfl⟩
  | loop hkeyword _ _ => exact ⟨_, _, rfl, by rw [hkeyword]; rfl⟩
  | block hbraced =>
      refine begins_mono (braced_begins hbraced) ?_
      intro kind hkind
      rw [beq_iff_eq.mp hkind]
      rfl
  | simple hexpression _ =>
      refine begins_append (begins_mono (hwhole hexpression) ?_) _
      intro kind hkind
      simp [opensStatement, hkind]

theorem statement_begins {tokens : List Token} {s : Stmt H} (h : Statement tokens s) :
    Begins opensStatement tokens := by
  cases h with
  | intro hsentence => exact sentence_begins expression_begins hsentence

/-!
## Levels of expressions
-/

def extendsEquality (kind : Token.Kind) : Bool :=
  kind == .openParen || isMultiplicative kind || isAdditive kind || isComparison kind ||
    isEquality kind

def extendsExpression (kind : Token.Kind) : Bool :=
  extendsEquality kind || kind == .assign

theorem accepts_weaken {reader : Reader α} {Phrase : List Token -> α -> Prop}
    {Follow Stronger : List Token -> Prop} {bound : Nat}
    (h : Accepts reader Phrase Follow bound)
    (hfollow : forall {rest}, Stronger rest -> Follow rest) :
    Accepts reader Phrase Stronger bound := by
  intro used rest a hphrase hbound hrest
  exact h hphrase hbound (hfollow hrest)

section Levels

variable {inner : Reader (Expr H)} {Inner : List Token -> Expr H -> Prop} {depth : Nat}

theorem primary_accepts (hinner : Accepts inner Inner (Clear extendsExpression) depth) :
    Accepts (primary inner) (Primary Inner) (fun _ => True) (depth + 2) := by
  intro used rest e h hbound _
  cases h with
  | @int token n hkind =>
      rcases token with ⟨kind, place⟩
      change kind = .int n at hkind
      rw [hkind]
      rfl
  | @str token text hkind =>
      rcases token with ⟨kind, place⟩
      change kind = .str text at hkind
      rw [hkind]
      rfl
  | @var token name hkind =>
      rcases token with ⟨kind, place⟩
      change kind = .name name at hkind
      rw [hkind]
      rfl
  | @group opening closing tokens e hopening hused hclosing =>
      rcases opening with ⟨kind, place⟩
      change kind = .openParen at hopening
      simp only [List.length_cons, List.length_append, List.length_nil] at hbound
      have hclear : Clear extendsExpression (closing :: rest) :=
        clear_cons (by rw [hclosing]; rfl)
      have hread := hinner hused (by omega) hclear
      rw [hopening, List.cons_append, List.append_assoc]
      change grouping _ inner (tokens ++ closing :: rest) = _
      unfold grouping
      rw [bind_of_ok hread, bind_of_ok (accept_cons hclosing)]
      rfl

theorem call_accepts (hinner : Accepts inner Inner (Clear extendsExpression) depth)
    (hbegins : forall {tokens e}, Inner tokens e -> Begins opensExpression tokens) :
    Accepts (call inner (depth + 1)) (Called Inner) (Clear (· == .openParen)) (depth + 1) := by
  intro used rest e h hbound hfollow
  cases h with
  | plain hprimary =>
      unfold call
      rw [bind_of_ok (primary_accepts hinner hprimary (by omega) True.intro),
        bind_of_ok (accept_of_clear hfollow)]
      rfl
  | @call front back callee args hprimary hlisted =>
      simp only [List.length_append] at hbound
      have hcomma : forall comma rest, comma.kind = .comma ->
          Clear extendsExpression (comma :: rest) := by
        intro comma rest hkind
        exact clear_cons (by rw [hkind]; rfl)
      have hclosing : forall closing rest, closing.kind = .closeParen ->
          Clear extendsExpression (closing :: rest) := by
        intro closing rest hkind
        exact clear_cons (by rw [hkind]; rfl)
      have hstart : forall {front e}, Inner front e -> forall rest,
          Clear (· == .closeParen) (front ++ rest) := by
        intro front e hphrase rest
        apply clear_of_begins (begins_append (hbegins hphrase) rest)
        intro kind hkind
        cases kind <;> simp_all [opensExpression, opensPrimary, isUnary]
      have hcount : back.length < depth + 1 := by omega
      rcases items_of_listed hinner hcomma hclosing hstart hlisted (by omega) hcount rest
        with ⟨opening, others, hopening, hback, hitems⟩
      unfold call
      rw [List.append_assoc,
        bind_of_ok (primary_accepts hinner hprimary (by omega) True.intro), hback,
        List.cons_append, bind_of_ok (accept_cons hopening), if_pos rfl, bind_of_ok hitems]
      rfl

theorem unary_accepts (hinner : Accepts inner Inner (Clear extendsExpression) depth)
    (hbegins : forall {tokens e}, Inner tokens e -> Begins opensExpression tokens)
    {used rest : List Token} {e : Expr H} (h : Prefixed (Called Inner) used e)
    (hfollow : Clear (· == .openParen) rest) :
    forall count, used.length < depth + 1 -> used.length < count ->
      unary inner (depth + 1) count (used ++ rest) = .ok e rest := by
  induction h with
  | @plain tokens e hcalled =>
      intro count hbound hcount
      have hclear : Clear isUnary (tokens ++ rest) := by
        apply clear_of_begins (begins_append (called_begins hcalled) rest)
        intro kind hkind
        cases kind <;> simp_all [opensPrimary, isUnary]
      cases count with
      | zero => exact absurd hcount (Nat.not_lt_zero _)
      | succ count =>
          unfold unary
          rw [bind_of_ok (take?_of_clear hclear)]
          exact call_accepts hinner hbegins hcalled hbound hfollow
  | more hoperator _ ih =>
      intro count hbound hcount
      simp only [List.length_cons] at hbound hcount
      cases count with
      | zero => exact absurd hcount (Nat.not_lt_zero _)
      | succ count =>
          unfold unary
          rw [List.cons_append, bind_of_ok (take?_cons (isUnary_iff.mpr hoperator))]
          change (unary inner (depth + 1) count >>= _) _ = _
          rw [bind_of_ok (ih count (by omega) (by omega))]
          rfl

section Chains

variable {level : Token.Kind -> Bool} {signs : List Token.Kind} {bound : Nat}
variable {operand : Reader (Expr H)} {Operand : List Token -> Expr H -> Prop}
variable {Follow : List Token -> Prop}

theorem chainFrom_cons {operator : Token} {tokens : List Token} (count : Nat) (left : Expr H)
    (h : level operator.kind = true) :
    chainFrom level operand (count + 1) left (operator :: tokens) =
      (operand >>= fun right =>
        chainFrom level operand count (.binary left operator right)) tokens := by
  rw [chainFrom, bind_of_ok (take?_cons h)]

theorem chainFrom_of_clear {tokens : List Token} (count : Nat) (left : Expr H)
    (h : Clear level tokens) :
    chainFrom level operand (count + 1) left tokens = .ok left tokens := by
  rw [chainFrom, bind_of_ok (take?_of_clear h)]
  rfl

theorem chain_eq_chainFrom (hlevel : forall {kind}, kind ∈ signs -> level kind = true)
    (hoperand : Accepts operand Operand Follow bound)
    (hsign : forall {operator : Token} {rest}, operator.kind ∈ signs ->
      Follow (operator :: rest))
    {used : List Token} {e : Expr H} (h : Chain signs Operand used e) :
    forall rest, used.length < bound -> Follow rest ->
      exists count, bound ≤ used.length + count ∧
        chain level operand bound (used ++ rest) =
          chainFrom level operand count e rest := by
  induction h with
  | single hsingle =>
      intro rest hbound hfollow
      refine ⟨bound, by omega, ?_⟩
      unfold chain
      rw [bind_of_ok (hoperand hsingle hbound hfollow)]
  | @more front back operator left right _ hmem hback ih =>
      intro rest hbound hfollow
      simp only [List.length_append, List.length_cons] at hbound
      rcases ih (operator :: (back ++ rest)) (by omega) (hsign hmem) with
        ⟨count, hcount, hchain⟩
      cases count with
      | zero => omega
      | succ count =>
          -- each operator takes one from the count, and adds a token or more to those used
          refine ⟨count, ?_, ?_⟩
          · simp only [List.length_append, List.length_cons]
            omega
          · rw [List.append_assoc, List.cons_append, hchain,
              chainFrom_cons count left (hlevel hmem),
              bind_of_ok (hoperand hback (by omega) hfollow)]

theorem chain_accepts (hlevel : forall {kind}, kind ∈ signs -> level kind = true)
    (hoperand : Accepts operand Operand Follow bound)
    (hsign : forall {operator : Token} {rest}, operator.kind ∈ signs ->
      Follow (operator :: rest)) :
    Accepts (chain level operand bound) (Chain signs Operand)
      (fun rest => Follow rest ∧ Clear level rest) bound := by
  intro used rest e h hbound hfollow
  rcases chain_eq_chainFrom hlevel hoperand hsign h rest hbound hfollow.1 with
    ⟨count, hcount, hchain⟩
  cases count with
  | zero => omega
  | succ count =>
      rw [hchain, chainFrom_of_clear count e hfollow.2]

end Chains

theorem equality_accepts (hinner : Accepts inner Inner (Clear extendsExpression) depth)
    (hbegins : forall {tokens e}, Inner tokens e -> Begins opensExpression tokens) :
    Accepts (equality inner (depth + 1))
      (Chain [.equal, .notEqual]
        (Chain [.greater, .greaterEqual, .less, .lessEqual]
          (Chain [.plus, .minus]
            (Chain [.star, .slash]
              (Prefixed (Called Inner))))))
      (Clear extendsEquality) (depth + 1) := by
  have hunary : Accepts (unary inner (depth + 1) (depth + 1)) (Prefixed (Called Inner))
      (Clear (· == .openParen)) (depth + 1) := by
    intro used rest e h hbound hfollow
    exact unary_accepts hinner hbegins h hfollow (depth + 1) hbound hbound
  have hfactor := chain_accepts isMultiplicative_iff.mpr hunary (by
    intro operator rest hmem
    apply clear_cons
    cases hkind : operator.kind <;> simp_all)
  have hterm := chain_accepts isAdditive_iff.mpr hfactor (by
    intro operator rest hmem
    constructor <;> apply clear_cons <;>
      cases hkind : operator.kind <;> simp_all [isMultiplicative])
  have hcomparison := chain_accepts isComparison_iff.mpr hterm (by
    intro operator rest hmem
    refine ⟨⟨?_, ?_⟩, ?_⟩ <;> apply clear_cons <;>
      cases hkind : operator.kind <;> simp_all [isMultiplicative, isAdditive])
  have hequality := chain_accepts isEquality_iff.mpr hcomparison (by
    intro operator rest hmem
    refine ⟨⟨⟨?_, ?_⟩, ?_⟩, ?_⟩ <;> apply clear_cons <;>
      cases hkind : operator.kind <;>
      simp_all [isMultiplicative, isAdditive, isComparison])
  refine accepts_weaken hequality ?_
  intro rest hfollow
  refine ⟨⟨⟨⟨?_, ?_⟩, ?_⟩, ?_⟩, ?_⟩ <;> apply clear_mono hfollow <;> intro kind hkind <;>
    simp_all [extendsEquality]

theorem assignment_accepts (hinner : Accepts inner Inner (Clear extendsExpression) depth)
    (hbegins : forall {tokens e}, Inner tokens e -> Begins opensExpression tokens) :
    Accepts (assignment inner (depth + 1)) (Assigned Inner) (Clear extendsExpression)
      (depth + 1) := by
  intro used rest e h hbound hfollow
  have hequality := equality_accepts hinner hbegins
  cases h with
  | @assign target sign name tokens value htarget hsign hvalue =>
      simp only [List.length_cons] at hbound
      have hclear : Clear extendsEquality (sign :: (tokens ++ rest)) :=
        clear_cons (by rw [hsign]; rfl)
      have hvariable := hequality
        (.single (.single (.single (.single (.plain (.plain (.var htarget)))))))
        (by simp; omega) hclear
      have htaken : take? (· == .assign) (sign :: (tokens ++ rest)) =
          .ok (some sign) (tokens ++ rest) :=
        take?_cons (by rw [hsign]; rfl)
      unfold assignment
      rw [List.cons_append, List.cons_append]
      rw [List.singleton_append] at hvariable
      rw [bind_of_ok hvariable, bind_of_ok htaken]
      change (inner >>= _) _ = _
      rw [bind_of_ok (hinner hvalue (by omega) hfollow)]
      rfl
  | plain hchain =>
      have hends : Clear extendsEquality rest := by
        apply clear_mono hfollow
        intro kind hkind
        simp [extendsExpression, hkind]
      have hunassigned : Clear (· == .assign) rest := by
        apply clear_mono hfollow
        intro kind hkind
        simp [extendsExpression, hkind]
      unfold assignment
      rw [bind_of_ok (hequality hchain hbound hends),
        bind_of_ok (take?_of_clear hunassigned)]
      rfl

end Levels

theorem expression_accepts (depth : Nat) :
    Accepts (expression depth) (Expression : List Token -> Expr H -> Prop)
      (Clear extendsExpression) depth := by
  induction depth with
  | zero =>
      intro used rest e _ hbound _
      exact absurd hbound (Nat.not_lt_zero _)
  | succ depth ih =>
      intro used rest e h hbound hfollow
      cases h with
      | intro hassigned =>
          exact assignment_accepts ih expression_begins hassigned hbound hfollow

/-!
## Statements
-/

section Sentences

variable {inner : Reader (Stmt H)} {Inner : List Token -> Stmt H -> Prop} {depth : Nat}

theorem opensStatement_stops {kind : Token.Kind} (h : opensStatement kind = true) :
    (kind == .elseWord) = false ∧ (kind == .closeBrace) = false := by
  cases kind <;> simp_all [opensStatement, opensExpression, opensPrimary, isUnary]

theorem blockRest_of_braced (hinner : Accepts inner Inner (Clear (· == .elseWord)) depth)
    (hbegins : forall {tokens s}, Inner tokens s -> Begins opensStatement tokens)
    {used : List Token} {s : Stmt H} (h : Braced Inner used s)
    (hbound : used.length < depth + 2) (rest : List Token) :
    exists opening others, opening.kind = Token.Kind.openBrace ∧ used = opening :: others ∧
      blockRest inner (depth + 1) (others ++ rest) = .ok s rest := by
  cases h with
  | @intro opening closing tokens body hopening hbody hclosing =>
      refine ⟨opening, _, hopening, rfl, ?_⟩
      simp only [List.length_cons, List.length_append, List.length_nil] at hbound
      have hstart : forall {front a}, Inner front a -> forall rest,
          0 < front.length ∧
            ((front ++ rest).head?.any (·.kind == .closeBrace) ||
              (front ++ rest).isEmpty) = false ∧
            Clear (· == .elseWord) (front ++ rest) := by
        intro front a hphrase rest
        rcases hbegins hphrase with ⟨token, others, hfront, hopens⟩
        have hstops := opensStatement_stops hopens
        rw [hfront]
        refine ⟨by simp, by simpa using hstops.2, ?_⟩
        exact clear_cons hstops.1
      have hanswer : ((closing :: rest).head?.any (·.kind == .closeBrace) ||
          (closing :: rest).isEmpty) = true := by
        simp [hclosing]
      have hfollow : Clear (· == .elseWord) (closing :: rest) :=
        clear_cons (by rw [hclosing]; rfl)
      have hread := manyUntil_of_repeated blockEnds_peeks hinner hstart hbody hanswer hfollow
        (depth + 1) (by omega) (by omega)
      unfold blockRest
      rw [List.append_assoc, List.singleton_append, bind_of_ok hread,
        bind_of_ok (expect_cons hclosing)]
      rfl

theorem block_accepts (hinner : Accepts inner Inner (Clear (· == .elseWord)) depth)
    (hbegins : forall {tokens s}, Inner tokens s -> Begins opensStatement tokens) :
    Accepts (block inner (depth + 1)) (Braced Inner) (fun _ => True) (depth + 2) := by
  intro used rest s h hbound _
  rcases blockRest_of_braced hinner hbegins h hbound rest with
    ⟨opening, others, hopening, hused, hread⟩
  unfold block
  rw [hused, List.cons_append, bind_of_ok (expect_cons hopening)]
  exact hread

theorem declaration_of_define (hinner : Accepts inner Inner (Clear (· == .elseWord)) depth)
    (hbegins : forall {tokens s}, Inner tokens s -> Begins opensStatement tokens)
    {target : Token} {name : String} {names braced : List Token} {params : List String}
    {body : Stmt H} (htarget : target.kind = .name name) (hnames : Listed Named names params)
    (hbody : Braced Inner braced body) (hbound : names.length + braced.length < depth)
    (rest : List Token) :
    declaration inner (depth + 1) (target :: (names ++ (braced ++ rest))) =
      .ok (.define name params body) rest := by
  have hstart : forall {front a}, Named front a -> forall rest,
      Clear (· == .closeParen) (front ++ rest) := by
    intro front a hnamed rest
    cases hnamed with
    | intro hkind => exact clear_cons (by rw [hkind]; rfl)
  have hcount : names.length < depth + 1 := by omega
  rcases items_of_listed (expectName_accepts (depth + 1)) (fun _ _ _ => True.intro)
    (fun _ _ _ => True.intro) hstart hnames (by omega) hcount (braced ++ rest) with
    ⟨opening, others, hopening, hlisted, hitems⟩
  have hblock : block inner (depth + 1) (braced ++ rest) = .ok body rest :=
    block_accepts hinner hbegins hbody (by omega) True.intro
  unfold declaration
  rw [bind_of_ok (expectName_cons htarget), hlisted, List.cons_append,
    bind_of_ok (expect_cons hopening), bind_of_ok hitems, bind_of_ok hblock]
  rfl

theorem clear_extendsExpression_braced {braced : List Token} {body : Stmt H}
    (h : Braced Inner braced body) (rest : List Token) :
    Clear extendsExpression (braced ++ rest) := by
  apply clear_of_begins (begins_append (braced_begins h) rest)
  intro kind hkind
  rw [beq_iff_eq.mp hkind]
  rfl

theorem branch_of_branch (hinner : Accepts inner Inner (Clear (· == .elseWord)) depth)
    (hbegins : forall {tokens s}, Inner tokens s -> Begins opensStatement tokens)
    {tokens braced : List Token} {condition : Expr H} {onTrue : Stmt H}
    (hcondition : Expression tokens condition) (honTrue : Braced Inner braced onTrue)
    (hbound : tokens.length + braced.length < depth) {rest : List Token}
    (hfollow : Clear (· == .elseWord) rest) :
    branch inner (depth + 1) (tokens ++ (braced ++ rest)) =
      .ok (.branch condition onTrue (.block [])) rest := by
  have htest : expression (depth + 1) (tokens ++ (braced ++ rest)) =
      .ok condition (braced ++ rest) :=
    expression_accepts (depth + 1) hcondition (by omega)
      (clear_extendsExpression_braced honTrue rest)
  have hblock : block inner (depth + 1) (braced ++ rest) = .ok onTrue rest :=
    block_accepts hinner hbegins honTrue (by omega) True.intro
  have hother : otherwise inner (depth + 1) rest = .ok (.block []) rest := by
    unfold otherwise
    rw [bind_of_ok (accept_of_clear hfollow)]
    rfl
  unfold branch
  rw [bind_of_ok htest, bind_of_ok hblock, bind_of_ok hother]
  rfl

theorem branch_of_branchElse (hinner : Accepts inner Inner (Clear (· == .elseWord)) depth)
    (hbegins : forall {tokens s}, Inner tokens s -> Begins opensStatement tokens)
    {tokens braced other : List Token} {keyword : Token} {condition : Expr H}
    {onTrue onFalse : Stmt H} (hcondition : Expression tokens condition)
    (honTrue : Braced Inner braced onTrue) (hkeyword : keyword.kind = .elseWord)
    (honFalse : Braced Inner other onFalse)
    (hbound : tokens.length + braced.length + other.length < depth) (rest : List Token) :
    branch inner (depth + 1) (tokens ++ (braced ++ keyword :: (other ++ rest))) =
      .ok (.branch condition onTrue onFalse) rest := by
  have htest : expression (depth + 1) (tokens ++ (braced ++ keyword :: (other ++ rest))) =
      .ok condition (braced ++ keyword :: (other ++ rest)) :=
    expression_accepts (depth + 1) hcondition (by omega)
      (clear_extendsExpression_braced honTrue _)
  have hblock : block inner (depth + 1) (braced ++ keyword :: (other ++ rest)) =
      .ok onTrue (keyword :: (other ++ rest)) :=
    block_accepts hinner hbegins honTrue (by omega) True.intro
  have hother : otherwise inner (depth + 1) (keyword :: (other ++ rest)) =
      .ok onFalse rest := by
    unfold otherwise
    rw [bind_of_ok (accept_cons hkeyword)]
    exact block_accepts hinner hbegins honFalse (by omega) True.intro
  unfold branch
  rw [bind_of_ok htest, bind_of_ok hblock, bind_of_ok hother]
  rfl

theorem loop_of_loop (hinner : Accepts inner Inner (Clear (· == .elseWord)) depth)
    (hbegins : forall {tokens s}, Inner tokens s -> Begins opensStatement tokens)
    {tokens braced : List Token} {condition : Expr H} {body : Stmt H}
    (hcondition : Expression tokens condition) (hbody : Braced Inner braced body)
    (hbound : tokens.length + braced.length < depth) (rest : List Token) :
    loop inner (depth + 1) (tokens ++ (braced ++ rest)) =
      .ok (.loop condition body) rest := by
  have htest : expression (depth + 1) (tokens ++ (braced ++ rest)) =
      .ok condition (braced ++ rest) :=
    expression_accepts (depth + 1) hcondition (by omega)
      (clear_extendsExpression_braced hbody rest)
  have hblock : block inner (depth + 1) (braced ++ rest) = .ok body rest :=
    block_accepts hinner hbegins hbody (by omega) True.intro
  unfold loop
  rw [bind_of_ok htest, bind_of_ok hblock]
  rfl

theorem simple_of_simple {tokens : List Token} {stop : Token} {e : Expr H} {bound : Nat}
    (he : Expression tokens e) (hstop : stop.kind = .dot) (hbound : tokens.length < bound)
    (rest : List Token) :
    simple bound (tokens ++ stop :: rest) = .ok (.expr e) rest := by
  have hclear : Clear extendsExpression (stop :: rest) :=
    clear_cons (by rw [hstop]; rfl)
  unfold simple
  rw [bind_of_ok (expression_accepts bound he hbound hclear), bind_of_ok (expect_cons hstop)]
  rfl

theorem statement_of_sentence
    (hinner : Accepts (statement depth) Inner (Clear (· == .elseWord)) depth)
    (hbegins : forall {tokens s}, Inner tokens s -> Begins opensStatement tokens) :
    Accepts (statement (depth + 1)) (Sentence Expression Inner) (Clear (· == .elseWord))
      (depth + 1) := by
  intro used rest s h hbound hfollow
  cases h with
  | @define keyword target name names braced params body hkeyword htarget hnames hbody =>
      rcases keyword with ⟨kind, place⟩
      change kind = .functionWord at hkeyword
      simp only [List.length_cons, List.length_append] at hbound
      have hread := declaration_of_define hinner hbegins htarget hnames hbody (by omega) rest
      rw [hkeyword, List.cons_append, List.cons_append, List.append_assoc]
      exact hread
  | @branch keyword tokens braced condition onTrue hkeyword hcondition honTrue =>
      rcases keyword with ⟨kind, place⟩
      change kind = .ifWord at hkeyword
      simp only [List.length_cons, List.length_append] at hbound
      have hread := branch_of_branch hinner hbegins hcondition honTrue (by omega) hfollow
      rw [hkeyword, List.cons_append, List.append_assoc]
      exact hread
  | @branchElse keyword otherwise tokens braced other condition onTrue onFalse hkeyword
      hcondition honTrue hotherwise honFalse =>
      rcases keyword with ⟨kind, place⟩
      change kind = .ifWord at hkeyword
      simp only [List.length_cons, List.length_append] at hbound
      have hread := branch_of_branchElse hinner hbegins hcondition honTrue hotherwise honFalse
        (by omega) rest
      rw [hkeyword, List.cons_append, List.append_assoc, List.append_assoc, List.cons_append]
      exact hread
  | @loop keyword tokens braced condition body hkeyword hcondition hbody =>
      rcases keyword with ⟨kind, place⟩
      change kind = .whileWord at hkeyword
      simp only [List.length_cons, List.length_append] at hbound
      have hread := loop_of_loop hinner hbegins hcondition hbody (by omega) rest
      rw [hkeyword, List.cons_append, List.append_assoc]
      exact hread
  | block hbraced =>
      rcases blockRest_of_braced hinner hbegins hbraced (by omega) rest with
        ⟨⟨kind, place⟩, others, hopening, hused, hread⟩
      change kind = .openBrace at hopening
      rw [hused, hopening, List.cons_append]
      exact hread
  | @simple tokens stop e he hstop =>
      simp only [List.length_append, List.length_cons, List.length_nil] at hbound
      have hread := simple_of_simple he hstop (show tokens.length < depth + 1 by omega) rest
      rcases expression_begins he with ⟨⟨kind, place⟩, others, htokens, hopens⟩
      rw [List.append_assoc, List.singleton_append, <- hread, htokens]
      cases kind <;> first
        | rfl
        | simp [opensExpression, opensPrimary, isUnary] at hopens

end Sentences

theorem statement_accepts (depth : Nat) :
    Accepts (statement depth) (Statement : List Token -> Stmt H -> Prop)
      (Clear (· == .elseWord)) depth := by
  induction depth with
  | zero =>
      intro used rest s _ hbound _
      exact absurd hbound (Nat.not_lt_zero _)
  | succ depth ih =>
      intro used rest s h hbound hfollow
      cases h with
      | intro hsentence =>
          exact statement_of_sentence ih statement_begins hsentence hbound hfollow

theorem program_of_repeated {tokens : List Token} {body : List (Stmt H)} {bound : Nat}
    (h : Repeated Statement tokens body) (hbound : tokens.length < bound) :
    program bound tokens = .ok body [] := by
  have hstart : forall {front : List Token} {s : Stmt H}, Statement front s -> forall rest,
      0 < front.length ∧ (front ++ rest).isEmpty = false ∧
        Clear (· == .elseWord) (front ++ rest) := by
    intro front s hphrase rest
    rcases statement_begins hphrase with ⟨token, others, hfront, hopens⟩
    rw [hfront]
    exact ⟨by simp, rfl, clear_cons (opensStatement_stops hopens).1⟩
  have hread := manyUntil_of_repeated atEnd_peeks (statement_accepts bound) hstart h
    List.isEmpty_nil (clear_nil _) bound hbound hbound
  rw [List.append_nil] at hread
  exact hread

end Grammar
end Lisan
