import Lisan.Proofs.Grammar.Decision
import Lisan.Proofs.Grammar.Soundness

/-!
# The readers of the language

The readers of the language decide the loose grammar, level by level: what each takes is
the only phrase that can be there, and what each refuses goes on with no phrase. None of
them is too deep for the tokens that it is given.
-/

namespace Lisan
namespace Grammar

open Reader
open scoped Computability

variable {H : Type}

/-!
## Expressions
-/

section Levels

def expressions (H : Type) : Language Token :=
  yield (LooseExpression : List Token -> Expr H -> Prop)

variable {Inner : List Token -> Expr H -> Prop}

theorem heads_primary : Heads opensPrimary (yield (Primary Inner)) :=
  fun _ h => primary_begins h.choose_spec

theorem heads_called : Heads opensPrimary (yield (Called Inner)) :=
  fun _ h => called_begins h.choose_spec

theorem looseExpression_begins {tokens : List Token} {e : Expr H}
    (h : LooseExpression tokens e) : Begins opensExpression tokens := by
  have hequality : forall {tokens : List Token} {e : Expr H},
      Equality LooseExpression tokens e -> Begins opensExpression tokens :=
    chain_begins (chain_begins (chain_begins (chain_begins prefixed_begins)))
  cases h with
  | intro h =>
      cases h with
      | assign hleft _ _ => exact begins_append (hequality hleft) _
      | plain h => exact hequality h

theorem heads_expressions : Heads opensExpression (expressions H) :=
  fun _ h => looseExpression_begins h.choose_spec

theorem expression_of_read {depth : Nat} {tokens used rest : List Token} {e : Expr H}
    (hread : expression depth tokens = .ok e rest) (htokens : tokens = used ++ rest) :
    Expression used e := by
  have hreads : Reads (expression depth) (Expression : List Token -> Expr H -> Prop) :=
    expression_reads_of_closed (fun h => .intro h) depth
  rcases hreads hread with ⟨strict, hstrict, he⟩
  rw [htokens, List.append_left_inj] at hstrict
  rw [hstrict]
  exact he

theorem isUnary_apart {kind : Token.Kind} (h : isUnary kind = true) :
    (!endsPrimary kind) = true ∧ opensPrimary kind = false := by
  cases kind <;> first
    | exact ⟨rfl, rfl⟩
    | cases h

theorem isMultiplicative_apart {kind : Token.Kind} (h : isMultiplicative kind = true) :
    (!endsPrimary kind) = true ∧ (kind == .openParen) = false := by
  cases kind <;> first
    | exact ⟨rfl, rfl⟩
    | cases h

theorem isAdditive_apart {kind : Token.Kind} (h : isAdditive kind = true) :
    (!endsPrimary kind) = true ∧ (kind == .openParen || isMultiplicative kind) = false := by
  cases kind <;> first
    | exact ⟨rfl, rfl⟩
    | cases h

theorem isComparison_apart {kind : Token.Kind} (h : isComparison kind = true) :
    (!endsPrimary kind) = true ∧
      (kind == .openParen || isMultiplicative kind || isAdditive kind) = false := by
  cases kind <;> first
    | exact ⟨rfl, rfl⟩
    | cases h

theorem isEquality_apart {kind : Token.Kind} (h : isEquality kind = true) :
    (!endsPrimary kind) = true ∧ (kind == .openParen || isMultiplicative kind ||
      isAdditive kind || isComparison kind) = false := by
  cases kind <;> first
    | exact ⟨rfl, rfl⟩
    | cases h

theorem leadsExpression_apart {kind : Token.Kind} (h : leadsExpression kind = true) :
    (!endsPrimary kind) = true := by
  cases kind <;> first
    | rfl
    | cases h

theorem primary_of_clear (inner : Reader (Expr H)) {tokens : List Token}
    (h : Clear opensPrimary tokens) : primary inner tokens = refuse tokens := by
  unfold primary
  split
  · cases h _ rfl
  · cases h _ rfl
  · cases h _ rfl
  · cases h _ rfl
  · rfl

variable {depth : Nat}
  (hinner : Decides H (expression depth : Reader (Expr H)) (expressions H) extendsExpression
    leadsExpression depth)

include hinner

theorem grouping_decides {opening : Token} {before tokens : List Token}
    (hbefore : Behind (fun kind => !endsPrimary kind) before) (hopening : opening.kind = .openParen)
    (hbound : tokens.length < depth) (after : Token.Kind -> Bool) :
    Decided H (expressions H * sign .closeParen) after (before ++ [opening]) tokens
      (grouping opening (expression depth : Reader (Expr H)) tokens) := by
  have hleads : Behind leadsExpression (before ++ [opening]) :=
    behind_concat before (by rw [hopening]; rfl)
  have hfits : Fits (sign .closeParen) after extendsExpression :=
    (heads_sign .closeParen).fits (test_of_beq rfl)
  refine (hinner hleads hbound).bind hfits ⟨[⟨.closeParen, .start⟩], mem_sign rfl⟩ ?_
  intro used rest e hread htokens _
  rcases next_cases .closeParen rest with ⟨closing, behind, rfl, hkind⟩ | hclear
  · have hwanted : (closing.kind == .closeParen) = true := beq_iff_eq.mpr hkind
    rw [bind_of_ok (accept_cons hkind)]
    exact .single hwanted _
  · rw [bind_of_ok (accept_of_clear hclear)]
    refine .error (List.nil_append rest).symm ⟨[⟨.closeParen, .start⟩], mem_sign rfl⟩ ?_
    -- no sentence closes the grouping here, whatever is behind it
    refine .unclosed ?_ ?_
    · intro sentence behind hsentence hbehind hpasses
      exact (heads_sign .closeParen).averse hclear hsentence hbehind hpasses.head?
    · rw [List.append_nil, List.append_assoc, List.singleton_append]
      exact .intro hbefore hopening (expression_of_read hread htokens) hclear

theorem primary_decides {before tokens : List Token}
    (hbefore : Behind (fun kind => !endsPrimary kind) before) (hbound : tokens.length < depth + 1)
    (after : Token.Kind -> Bool) :
    Decided H (yield (Primary (LooseExpression : List Token -> Expr H -> Prop))) after before tokens
      (primary (expression depth : Reader (Expr H)) tokens) := by
  rw [yield_primary]
  rcases begins_or_clear opensPrimary tokens with ⟨⟨kind, place⟩, rest, rfl, hkind⟩ | hclear
  · have hleaf : isLeaf kind = true -> forall e : Expr H,
        Decided H (one isLeaf + sign .openParen * (expressions H * sign .closeParen)) after before
          (⟨kind, place⟩ :: rest) (.ok e rest) := by
      intro hleaf e
      refine (Decided.single hleaf e).choose ((heads_sign .openParen).mul.averse ?_)
      refine clear_cons ?_
      cases kind <;> first
        | rfl
        | cases hleaf
    cases kind with
    | int value => exact hleaf rfl _
    | str text => exact hleaf rfl _
    | name name => exact hleaf rfl _
    | openParen =>
        have hrest : rest.length < depth := Nat.lt_of_succ_lt_succ hbound
        have hopening : (⟨.openParen, place⟩ : Token).kind = .openParen := rfl
        have hgroup := grouping_decides hinner hbefore hopening hrest after
        exact (Decided.cons rfl hgroup).choose_right
          ((heads_one isLeaf).averse (clear_cons rfl))
    | _ => cases hkind
  · have hleaf : Clear isLeaf tokens := clear_mono hclear fun kind hkind => by
      cases kind <;> first
        | rfl
        | cases hkind
    have hopening : Clear (· == .openParen) tokens := clear_mono hclear (test_of_beq rfl)
    have hsome : [⟨.int 0, .start⟩] ∈ one isLeaf := mem_one rfl
    rw [primary_of_clear _ hclear]
    exact .refuse ⟨_, .inl hsome⟩
      (((heads_one isLeaf).averse hleaf).add ((heads_sign .openParen).mul.averse hopening))

theorem call_decides {before tokens : List Token}
    (hbefore : Behind (fun kind => !endsPrimary kind) before)
    (hbound : tokens.length < depth + 1) :
    Decided H (yield (Called (LooseExpression : List Token -> Expr H -> Prop))) (· == .openParen)
      before tokens (call (expression depth : Reader (Expr H)) (depth + 1) tokens) := by
  rw [yield_called]
  refine (primary_decides hinner hbefore hbound fun _ => false).bind (fits_none _ _)
    ⟨[], .inr rfl⟩ ?_
  intro used rest callee _ htokens hused
  rcases next_cases .openParen rest with ⟨opening, behind, rfl, hkind⟩ | hclear
  · have hwanted : (opening.kind == .openParen) = true := beq_iff_eq.mpr hkind
    have hlength := heads_primary.length_pos hused
    rw [htokens, List.length_append, List.length_cons] at hbound
    have hleads : Behind leadsExpression (before ++ used ++ [opening]) :=
      behind_concat _ (by rw [hkind]; rfl)
    rw [bind_of_ok (accept_cons hkind), if_pos rfl]
    refine (Decided.cons hwanted ?_).choose (averse_unit ⟨opening, behind, rfl, hwanted⟩)
    have hitems := items_decides hinner heads_expressions rfl rfl rfl rfl hleads
      (by omega) (show behind.length < depth + 1 by omega) (· == .openParen)
    exact hitems.map _
  · rw [bind_of_ok (accept_of_clear hclear), if_neg Bool.false_ne_true]
    exact (Decided.pure callee).choose_right ((heads_sign .openParen).mul.averse hclear)

theorem unary_decides :
    forall count {before tokens : List Token}, Behind (fun kind => !endsPrimary kind) before ->
      tokens.length < depth + 1 -> tokens.length < count ->
      Decided H (yield (Prefixed (Called (LooseExpression : List Token -> Expr H -> Prop))))
        (· == .openParen) before tokens
        (unary (expression depth : Reader (Expr H)) (depth + 1) count tokens) := by
  intro count
  induction count with
  | zero => exact fun _ _ hcount => absurd hcount (Nat.not_lt_zero _)
  | succ count ih =>
      intro before tokens hbefore hbound hcount
      rw [yield_prefixed]
      rcases begins_or_clear isUnary tokens with ⟨operator, rest, rfl, hkind⟩ | hclear
      · simp only [List.length_cons] at hbound hcount
        rcases isUnary_apart hkind with ⟨hoperator, hprimary⟩
        have hoperand := ih (behind_concat before hoperator) (show rest.length < depth + 1 by omega)
          (by omega)
        rw [unary, bind_of_ok (take?_cons hkind)]
        exact (Decided.cons hkind (hoperand.map _)).choose
          (heads_called.averse (clear_cons hprimary))
      · rw [unary, bind_of_ok (take?_of_clear hclear)]
        exact (call_decides hinner hbefore hbound).choose_right
          ((heads_one isUnary).mul.averse hclear)

section Chains

omit hinner

variable {level clash allowed : Token.Kind -> Bool} {signs : List Token.Kind} {bound : Nat}
  {operand : Reader (Expr H)} {Operand : List Token -> Expr H -> Prop}

theorem links_fit {O : Language Token}
    (hlevel : forall {kind}, level kind = true -> allowed kind = true ∧ clash kind = false) :
    Fits (one level * O)∗ (fun kind => clash kind || level kind) clash := by
  refine (heads_one level).mul.star_fits (fun kind hkind => (hlevel hkind).2) ?_
  intro kind hkind
  rw [hkind, Bool.true_or]

theorem chainFrom_decides (hoperand : Decides H operand (yield Operand) clash allowed bound)
    (hlevel : forall {kind}, level kind = true -> allowed kind = true ∧ clash kind = false) :
    forall count left {before tokens : List Token}, tokens.length < bound ->
      tokens.length < count ->
      Decided H (one level * yield Operand)∗ (fun kind => clash kind || level kind) before tokens
        (chainFrom level operand count left tokens) := by
  intro count
  induction count with
  | zero => exact fun _ _ _ _ hcount => absurd hcount (Nat.not_lt_zero _)
  | succ count ih =>
      intro left before tokens hbound hcount
      rw [<- one_add_mul_kstar, mul_assoc]
      rcases begins_or_clear level tokens with ⟨operator, rest, rfl, hkind⟩ | hclear
      · simp only [List.length_cons] at hbound hcount
        have hends : Begins (fun kind => clash kind || level kind) (operator :: rest) :=
          ⟨operator, rest, rfl, by simp only [hkind, Bool.or_true]⟩
        rw [chainFrom_cons count left hkind]
        refine (Decided.cons hkind ?_).choose_right (averse_unit hends)
        refine (hoperand (behind_concat before (hlevel hkind).1) (by omega)).bind
          (links_fit hlevel) ⟨[], Language.nil_mem_kstar _⟩ ?_
        intro used behind right _ hrest _
        rw [hrest, List.length_append] at hbound hcount
        exact ih _ (by omega) (by omega)
      · rw [chainFrom_of_clear count left hclear]
        exact (Decided.pure left).choose ((heads_one level).mul.averse hclear)

theorem chain_decides (hsigns : forall {kind}, level kind = true <-> kind ∈ signs)
    (hoperand : Decides H operand (yield Operand) clash allowed bound)
    (hlevel : forall {kind}, level kind = true -> allowed kind = true ∧ clash kind = false) :
    Decides H (chain level operand bound) (yield (Chain signs Operand))
      (fun kind => clash kind || level kind) allowed bound := by
  intro before tokens hbefore hbound
  rw [yield_chain hsigns]
  refine (hoperand hbefore hbound).bind (links_fit hlevel) ⟨[], Language.nil_mem_kstar _⟩ ?_
  intro used rest first _ htokens _
  rw [htokens, List.length_append] at hbound
  exact chainFrom_decides hoperand hlevel bound first (by omega) (by omega)

end Chains

theorem equality_decides :
    Decides H (equality (expression depth : Reader (Expr H)) (depth + 1))
      (yield (Equality (LooseExpression : List Token -> Expr H -> Prop))) extendsEquality
      (fun kind => !endsPrimary kind) (depth + 1) := by
  have hunary : Decides H (unary (expression depth : Reader (Expr H)) (depth + 1) (depth + 1))
      (yield (Prefixed (Called (LooseExpression : List Token -> Expr H -> Prop))))
      (· == .openParen) (fun kind => !endsPrimary kind) (depth + 1) := by
    intro before tokens hbefore hbound
    exact unary_decides hinner (depth + 1) hbefore hbound hbound
  have hfactor := chain_decides isMultiplicative_iff hunary isMultiplicative_apart
  have hterm := chain_decides isAdditive_iff hfactor isAdditive_apart
  have hcomparison := chain_decides isComparison_iff hterm isComparison_apart
  exact chain_decides isEquality_iff hcomparison isEquality_apart

omit hinner in
theorem assignTo_decides {before left right rest : List Token} {sign : Token}
    {target value : Expr H} (hbefore : Behind leadsExpression before)
    (hleft : Equality Expression left target) (hsign : sign.kind = .assign)
    (hright : Expression right value) (clash : Token.Kind -> Bool) :
    Decided H 1 clash (before ++ left ++ [sign] ++ right) rest
      (assignTo target sign value rest) := by
  by_cases hname : exists name, target = .var name
  · rcases hname with ⟨name, rfl⟩
    exact .pure _
  · have hother : forall name, target ≠ .var name := fun name htarget => hname ⟨name, htarget⟩
    have hthrow : assignTo target sign value rest = .error (.unexpected sign) rest := by
      unfold assignTo
      split
      · exact absurd rfl (hother _)
      · rfl
    rw [hthrow]
    refine .error (List.nil_append rest).symm ⟨[], rfl⟩ (.mistargeted ?_)
    have htext : before ++ left ++ [sign] ++ right ++ [] = before ++ (left ++ sign :: right) := by
      simp
    rw [htext]
    exact .intro hbefore hleft hother hsign hright

theorem assignment_decides :
    Decides H (assignment (expression depth : Reader (Expr H)) (depth + 1)) (expressions H)
      extendsExpression leadsExpression (depth + 1) := by
  intro before tokens hbefore hbound
  have hprimary : Behind (fun kind => !endsPrimary kind) before :=
    hbefore.mono fun _ => leadsExpression_apart
  have hstrict : Reads (expression depth) (Expression : List Token -> Expr H -> Prop) :=
    expression_reads_of_closed (fun h => .intro h) depth
  have hfits : Fits (sign .assign * expressions H + 1) extendsExpression extendsEquality := by
    refine ((heads_sign .assign).mul.fits (test_of_beq rfl)).add (fits_unit ?_)
    intro kind hkind
    rw [extendsExpression, hkind, Bool.true_or]
  rw [expressions, yield_looseExpression, yield_looselyAssigned]
  refine (equality_decides hinner hprimary hbound).bind hfits ⟨[], .inr rfl⟩ ?_
  intro left rest target hread htokens hleft
  rcases equality_reads hstrict (depth + 1) hread with ⟨used, hused, htarget⟩
  rw [htokens, List.append_left_inj] at hused
  rw [<- hused] at htarget
  rcases begins_or_clear (· == .assign) rest with ⟨sign, behind, rfl, hkind⟩ | hclear
  · have hsign : sign.kind = .assign := beq_iff_eq.mp hkind
    have hends : Begins extendsExpression (sign :: behind) :=
      ⟨sign, behind, rfl, by rw [hsign]; rfl⟩
    have hleads : Behind leadsExpression (before ++ left ++ [sign]) :=
      behind_concat _ (by rw [hsign]; rfl)
    have hbehind : behind.length < depth := by
      rw [htokens, List.length_append, List.length_cons] at hbound
      omega
    rw [bind_of_ok (take?_cons hkind)]
    refine (Decided.cons hkind ?_).choose (averse_unit hends)
    rw [<- mul_one (yield LooseExpression)]
    refine (hinner hleads hbehind).bind (fits_unit fun kind hkind => hkind) ⟨[], rfl⟩ ?_
    intro right last value hvalue hright _
    -- the target is looked at only now, when the right side has been read
    exact assignTo_decides hbefore htarget hsign (expression_of_read hvalue hright) _
  · rw [bind_of_ok (take?_of_clear hclear)]
    exact (Decided.pure target).choose_right ((heads_sign .assign).mul.averse hclear)

end Levels

theorem expression_decides (depth : Nat) :
    Decides H (expression depth : Reader (Expr H)) (expressions H) extendsExpression
      leadsExpression depth := by
  induction depth with
  | zero => exact fun _ _ _ hbound => absurd hbound (Nat.not_lt_zero _)
  | succ depth ih => exact assignment_decides ih

/-!
## Statements
-/

section Sentences

def statements (H : Type) : Language Token :=
  yield (LooseStatement : List Token -> Stmt H -> Prop)

def blocks (H : Type) : Language Token :=
  yield (Braced (LooseStatement : List Token -> Stmt H -> Prop))

theorem heads_statements : Heads opensStatement (statements H) := by
  rintro tokens ⟨s, ⟨h⟩⟩
  exact sentence_begins looseExpression_begins h

theorem heads_blocks : Heads (· == .openBrace) (blocks H) :=
  fun _ h => braced_begins h.choose_spec

theorem blocks_nonempty : exists sentence, sentence ∈ blocks H := by
  have hbody : Repeated (LooseStatement : List Token -> Stmt H -> Prop) [] [] := .nil
  have hopening : (⟨.openBrace, .start⟩ : Token).kind = .openBrace := rfl
  have hclosing : (⟨.closeBrace, .start⟩ : Token).kind = .closeBrace := rfl
  exact ⟨_, mem_yield (.intro hopening hbody hclosing)⟩

theorem braced_ends {Inner : List Token -> Stmt H -> Prop} {tokens : List Token} {s : Stmt H}
    (h : Braced Inner tokens s) (before : List Token) :
    Behind leadsExpression (before ++ tokens) := by
  cases h with
  | intro _ _ hclosing =>
      rw [<- List.cons_append, <- List.append_assoc]
      exact behind_concat _ (by rw [hclosing]; rfl)

theorem behind_statement (before : List Token) {used : List Token} (hused : used ∈ statements H) :
    Behind leadsExpression (before ++ used) := by
  rcases hused with ⟨s, ⟨h⟩⟩
  cases h with
  | define _ _ _ hbody =>
      rw [<- List.cons_append, <- List.cons_append, <- List.append_assoc]
      exact braced_ends hbody _
  | branch _ _ honTrue =>
      rw [<- List.cons_append, <- List.append_assoc]
      exact braced_ends honTrue _
  | @branchElse keyword otherwise tokens block other _ _ _ _ _ _ _ honFalse =>
      have hsplit : before ++ keyword :: (tokens ++ (block ++ otherwise :: other)) =
          before ++ keyword :: (tokens ++ (block ++ [otherwise])) ++ other := by
        simp
      rw [hsplit]
      exact braced_ends honFalse _
  | loop _ _ hbody =>
      rw [<- List.cons_append, <- List.append_assoc]
      exact braced_ends hbody _
  | block hbody => exact braced_ends hbody _
  | simple _ hstop =>
      rw [<- List.append_assoc]
      exact behind_concat _ (by rw [hstop]; rfl)

theorem blockEnds_iff (tokens : List Token) :
    (tokens.head?.any (·.kind == .closeBrace) || tokens.isEmpty) = true <->
      Clear (· != .closeBrace) tokens := by
  cases tokens with
  | nil => simp [Clear]
  | cons token rest => simp [Clear]

theorem blocks_fit (M : Language Token) (after : Token.Kind -> Bool) :
    Fits (blocks H * M) after extendsExpression :=
  heads_blocks.mul.fits (test_of_beq rfl)

variable {depth : Nat}
  (hinner : Decides H (statement depth : Reader (Stmt H)) (statements H) (· == .elseWord)
    leadsExpression depth)

include hinner

theorem blockRest_decides {before tokens : List Token} (hbefore : Behind leadsExpression before)
    (hbound : tokens.length < depth) (after : Token.Kind -> Bool) :
    Decided H ((statements H)∗ * sign .closeBrace) after before tokens
      (blockRest (statement depth : Reader (Stmt H)) (depth + 1) tokens) := by
  have hbody := manyUntil_decides blockEnds_peeks blockEnds_iff hinner heads_statements
    behind_statement
    (fun kind hkind => by rw [bne, (opensStatement_stops hkind).2]; rfl)
    (fun kind hkind => (opensStatement_stops hkind).1) (test_of_beq rfl)
    (depth + 1) hbefore hbound (by omega)
  have hfits : Fits (sign .closeBrace) after (· != .closeBrace) := by
    refine (heads_sign .closeBrace).fits ?_
    intro kind hkind
    rw [bne, hkind]
    rfl
  refine hbody.bind hfits ⟨[⟨.closeBrace, .start⟩], mem_sign rfl⟩ ?_
  intro used rest body _ _ _
  exact (Decided.expect .closeBrace).map _

theorem block_decides {before tokens : List Token} (hbound : tokens.length < depth + 1)
    (after : Token.Kind -> Bool) :
    Decided H (blocks H) after before tokens
      (block (statement depth : Reader (Stmt H)) (depth + 1) tokens) := by
  rw [blocks, yield_braced]
  refine (Decided.expect .openBrace).bind (fits_none _ _) ?_ ?_
  · exact ⟨_, Language.append_mem_mul (Language.nil_mem_kstar _)
      (mem_sign (show (⟨.closeBrace, .start⟩ : Token).kind = .closeBrace from rfl))⟩
  · rintro _ rest _ _ rfl ⟨opening, hopening, rfl⟩
    have hleads : Behind leadsExpression (before ++ [opening]) :=
      behind_concat before (test_of_beq rfl _ hopening)
    exact blockRest_decides hinner hleads (Nat.lt_of_succ_lt_succ hbound) after

theorem declaration_decides {before tokens : List Token} (hbound : tokens.length < depth + 1)
    (after : Token.Kind -> Bool) :
    Decided H (declared (blocks H)) after before tokens
      (declaration (statement depth : Reader (Stmt H)) (depth + 1) tokens) := by
  have hnames : Decides H expectName (one isName) (fun _ => false) (fun _ => true) (depth + 1) :=
    fun _ _ _ _ => .expectName
  have hname : [⟨.name "", .start⟩] ∈ one isName := mem_one rfl
  have hparams : [⟨.closeParen, .start⟩] ∈ listRest (one isName) := .inl (mem_sign rfl)
  have hopening : [⟨.openParen, .start⟩] ∈ sign .openParen := mem_sign rfl
  rcases blocks_nonempty (H := H) with ⟨body, hbody⟩
  have hbehind := Language.append_mem_mul hparams hbody
  refine Decided.expectName.bind (fits_none _ _) ⟨_, Language.append_mem_mul hopening hbehind⟩ ?_
  intro used rest name _ htokens _
  rw [htokens, List.length_append] at hbound
  refine (Decided.expect .openParen).bind (fits_none _ _) ⟨_, hbehind⟩ ?_
  intro used' rest' _ _ hrest _
  rw [hrest, List.length_append] at hbound
  have hrest' : rest'.length < depth + 1 := by omega
  refine (items_decides hnames (heads_one isName) rfl rfl rfl rfl (fun _ _ => rfl) hrest' hrest'
    fun _ => false).bind (fits_none _ _) ⟨_, hbody⟩ ?_
  intro used'' rest'' params _ hlast _
  rw [hlast, List.length_append] at hrest'
  exact (block_decides hinner (by omega) after).map _

theorem otherwise_decides {before tokens : List Token} (hbound : tokens.length < depth + 1) :
    Decided H (sign .elseWord * blocks H + 1) (· == .elseWord) before tokens
      (otherwise (statement depth : Reader (Stmt H)) (depth + 1) tokens) := by
  rcases next_cases .elseWord tokens with ⟨keyword, rest, rfl, hkind⟩ | hclear
  · have hwanted : (keyword.kind == .elseWord) = true := beq_iff_eq.mpr hkind
    have hrest : rest.length < depth + 1 := Nat.lt_of_succ_lt hbound
    rw [otherwise, bind_of_ok (accept_cons hkind), if_pos rfl]
    exact (Decided.cons hwanted (block_decides hinner hrest _)).choose
      (averse_unit ⟨keyword, rest, rfl, hwanted⟩)
  · rw [otherwise, bind_of_ok (accept_of_clear hclear), if_neg Bool.false_ne_true]
    exact (Decided.pure _).choose_right ((heads_sign .elseWord).mul.averse hclear)

theorem branch_decides {before tokens : List Token} (hbefore : Behind leadsExpression before)
    (hbound : tokens.length < depth + 1) :
    Decided H (branched (expressions H) (blocks H)) (· == .elseWord) before tokens
      (branch (statement depth : Reader (Stmt H)) (depth + 1) tokens) := by
  rcases blocks_nonempty (H := H) with ⟨onTrue, honTrue⟩
  have hempty : [] ∈ sign .elseWord * blocks H + 1 := .inr rfl
  refine (expression_decides (depth + 1) hbefore hbound).bind (blocks_fit _ _)
    ⟨_, Language.append_mem_mul honTrue hempty⟩ ?_
  intro used rest condition _ htokens _
  rw [htokens, List.length_append] at hbound
  have hrest : rest.length < depth + 1 := by omega
  refine (block_decides hinner hrest fun _ => false).bind (fits_none _ _) ⟨_, hempty⟩ ?_
  intro used' rest' first _ hlast _
  rw [hlast, List.length_append] at hrest
  exact (otherwise_decides hinner (by omega)).map _

theorem loop_decides {before tokens : List Token} (hbefore : Behind leadsExpression before)
    (hbound : tokens.length < depth + 1) (after : Token.Kind -> Bool) :
    Decided H (looped (expressions H) (blocks H)) after before tokens
      (loop (statement depth : Reader (Stmt H)) (depth + 1) tokens) := by
  have hfits := blocks_fit (H := H) 1 after
  rw [mul_one] at hfits
  refine (expression_decides (depth + 1) hbefore hbound).bind hfits blocks_nonempty ?_
  intro used rest condition _ htokens _
  rw [htokens, List.length_append] at hbound
  exact (block_decides hinner (by omega) after).map _

omit hinner in
theorem simple_decides {before tokens : List Token} (hbefore : Behind leadsExpression before)
    (hbound : tokens.length < depth + 1) (after : Token.Kind -> Bool) :
    Decided H (expressions H * sign .dot) after before tokens
      (simple (depth + 1) tokens : EStateM.Result Stop (List Token) (Stmt H)) := by
  have hfits : Fits (sign .dot) after extendsExpression :=
    (heads_sign .dot).fits (test_of_beq rfl)
  refine (expression_decides (depth + 1) hbefore hbound).bind hfits
    ⟨[⟨.dot, .start⟩], mem_sign rfl⟩ ?_
  intro used rest e _ _ _
  exact (Decided.expect .dot).map _

def opensClause : Token.Kind -> Bool
  | .functionWord | .ifWord | .whileWord | .openBrace => true
  | _ => false

omit hinner in
theorem statement_of_clear {tokens : List Token} (h : Clear opensClause tokens) :
    (statement (depth + 1) tokens : EStateM.Result Stop (List Token) (Stmt H)) =
      simple (depth + 1) tokens := by
  cases tokens with
  | nil => rfl
  | cons token rest =>
      rcases token with ⟨kind, place⟩
      have hkind : opensClause kind = false := h _ rfl
      cases kind <;> first
        | rfl
        | cases hkind

theorem statement_decides_succ :
    Decides H (statement (depth + 1) : Reader (Stmt H)) (statements H) (· == .elseWord)
      leadsExpression (depth + 1) := by
  intro before tokens hbefore hbound
  have hdefine : Heads (· == .functionWord) (sign .functionWord * declared (blocks H)) :=
    (heads_sign .functionWord).mul
  have hbranch : Heads (· == .ifWord) (sign .ifWord * branched (expressions H) (blocks H)) :=
    (heads_sign .ifWord).mul
  have hloop : Heads (· == .whileWord) (sign .whileWord * looped (expressions H) (blocks H)) :=
    (heads_sign .whileWord).mul
  have hblock : Heads (· == .openBrace) (blocks H) := heads_blocks
  have hsimple : Heads opensExpression (expressions H * sign .dot) := heads_expressions.mul
  rw [statements, yield_looseStatement, yield_sentence]
  rcases begins_or_clear opensClause tokens with ⟨⟨kind, place⟩, rest, rfl, hkind⟩ | hclear
  · have hrest : rest.length < depth := Nat.lt_of_succ_lt_succ hbound
    have hleads : leadsExpression kind = true ->
        Behind leadsExpression (before ++ [⟨kind, place⟩]) := fun h => behind_concat before h
    cases kind with
    | functionWord =>
        have hread : Decided H (declared (blocks H)) (· == .elseWord)
            (before ++ [⟨.functionWord, place⟩]) rest
            (declaration (statement depth : Reader (Stmt H)) (depth + 1) rest) :=
          declaration_decides hinner (Nat.lt_succ_of_lt hrest) _
        exact (Decided.cons rfl hread).choose ((hbranch.averse (clear_cons rfl)).add
          ((hloop.averse (clear_cons rfl)).add
            ((hblock.averse (clear_cons rfl)).add (hsimple.averse (clear_cons rfl)))))
    | ifWord =>
        have hread := branch_decides hinner (hleads rfl) (Nat.lt_succ_of_lt hrest)
        exact ((Decided.cons rfl hread).choose ((hloop.averse (clear_cons rfl)).add
          ((hblock.averse (clear_cons rfl)).add (hsimple.averse (clear_cons rfl))))).choose_right
            (hdefine.averse (clear_cons rfl))
    | whileWord =>
        have hread := loop_decides hinner (hleads rfl) (Nat.lt_succ_of_lt hrest) (· == .elseWord)
        exact (((Decided.cons rfl hread).choose ((hblock.averse (clear_cons rfl)).add
          (hsimple.averse (clear_cons rfl)))).choose_right
            (hbranch.averse (clear_cons rfl))).choose_right (hdefine.averse (clear_cons rfl))
    | openBrace =>
        have hread := blockRest_decides hinner (hleads rfl) hrest (· == .elseWord)
        have hbraced : Decided H (blocks H) (· == .elseWord) before (⟨.openBrace, place⟩ :: rest)
            (blockRest (statement depth : Reader (Stmt H)) (depth + 1) rest) := by
          rw [blocks, yield_braced]
          exact .cons rfl hread
        exact (((hbraced.choose (hsimple.averse (clear_cons rfl))).choose_right
          (hloop.averse (clear_cons rfl))).choose_right
            (hbranch.averse (clear_cons rfl))).choose_right (hdefine.averse (clear_cons rfl))
    | _ => cases hkind
  · have hother : forall kind, opensClause kind = true -> Clear (· == kind) tokens := by
      intro kind hkind
      refine clear_mono hclear ?_
      intro other hother
      rw [beq_iff_eq.mp hother, hkind]
    rw [statement_of_clear hclear]
    exact ((((simple_decides hbefore hbound _).choose_right
      (hblock.averse (hother .openBrace rfl))).choose_right
        (hloop.averse (hother .whileWord rfl))).choose_right
          (hbranch.averse (hother .ifWord rfl))).choose_right
            (hdefine.averse (hother .functionWord rfl))

end Sentences

theorem statement_decides (depth : Nat) :
    Decides H (statement depth : Reader (Stmt H)) (statements H) (· == .elseWord)
      leadsExpression depth := by
  induction depth with
  | zero => exact fun _ _ _ hbound => absurd hbound (Nat.not_lt_zero _)
  | succ depth ih => exact statement_decides_succ ih

theorem program_decides {tokens : List Token} {bound : Nat} (hbound : tokens.length < bound) :
    Decided H (statements H)∗ (fun _ => true) [] tokens
      (program bound tokens : EStateM.Result Stop (List Token) (List (Stmt H))) := by
  have hanswer : forall tokens : List Token,
      tokens.isEmpty = true <-> Clear (fun _ => true) tokens := by
    intro tokens
    cases tokens with
    | nil => simp [Clear]
    | cons token rest => simp [Clear]
  exact manyUntil_decides atEnd_peeks hanswer (statement_decides bound) heads_statements
    behind_statement (fun _ _ => rfl) (fun kind hkind => (opensStatement_stops hkind).1)
    (fun _ _ => rfl) bound (behind_nil _) hbound hbound

end Grammar
end Lisan
