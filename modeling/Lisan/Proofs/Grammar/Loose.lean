import Lisan.Proofs.Grammar.Completeness
import Mathlib.Computability.Language
import Mathlib.Order.CompletePartialOrder

/-!
# The loose grammar

A reader finds out that the target of an assignment is no name only when it has read the
whole assignment. Up to there it reads by a looser grammar, in which any equality may
stand to the left of an equals sign. This module gives that grammar and, for each of its
phrases, the language of tokens that make up such phrases, as an equation between
languages.
-/

namespace Lisan
namespace Grammar

open scoped Computability

variable {H : Type}

/-!
## Phrases
-/

/-- The tree of an equals sign and what stands on its two sides. One that assigns to
anything but a name is no tree of the language, and stands for none. -/
def assigned (left : Expr H) (sign : Token) (value : Expr H) : Expr H :=
  match left with
  | .var name => .assign name value
  | left => .binary left sign value

/-- An assignment to anything that can stand to the left of an equals sign, or the chains
of operators. -/
inductive LooselyAssigned (Inner : List Token -> Expr H -> Prop) :
    List Token -> Expr H -> Prop where
  | assign {front back : List Token} {sign : Token} {left value : Expr H} :
      Chain [.equal, .notEqual]
        (Chain [.greater, .greaterEqual, .less, .lessEqual]
          (Chain [.plus, .minus]
            (Chain [.star, .slash]
              (Prefixed (Called Inner))))) front left ->
      sign.kind = .assign -> Inner back value ->
      LooselyAssigned Inner (front ++ sign :: back) (assigned left sign value)
  | plain {tokens : List Token} {e : Expr H} :
      Chain [.equal, .notEqual]
        (Chain [.greater, .greaterEqual, .less, .lessEqual]
          (Chain [.plus, .minus]
            (Chain [.star, .slash]
              (Prefixed (Called Inner))))) tokens e ->
      LooselyAssigned Inner tokens e

inductive LooseExpression : List Token -> Expr H -> Prop where
  | intro {tokens : List Token} {e : Expr H} :
      LooselyAssigned LooseExpression tokens e -> LooseExpression tokens e

inductive LooseStatement : List Token -> Stmt H -> Prop where
  | intro {tokens : List Token} {s : Stmt H} :
      Sentence LooseExpression LooseStatement tokens s -> LooseStatement tokens s

abbrev Equality (Inner : List Token -> Expr H -> Prop) : List Token -> Expr H -> Prop :=
  Chain [.equal, .notEqual]
    (Chain [.greater, .greaterEqual, .less, .lessEqual]
      (Chain [.plus, .minus]
        (Chain [.star, .slash]
          (Prefixed (Called Inner)))))

/-!
## Languages
-/

/-- The tokens that make up phrases. -/
def yield (Phrase : List Token -> α -> Prop) : Language Token :=
  { tokens | exists a, Phrase tokens a }

def one (wanted : Token.Kind -> Bool) : Language Token :=
  { tokens | exists token : Token, wanted token.kind = true ∧ tokens = [token] }

def sign (kind : Token.Kind) : Language Token :=
  one (· == kind)

theorem mem_yield {Phrase : List Token -> α -> Prop} {tokens : List Token} {a : α}
    (h : Phrase tokens a) : tokens ∈ yield Phrase :=
  ⟨a, h⟩

theorem mem_of_le {L M : Language Token} (h : L ≤ M) {tokens : List Token}
    (htokens : tokens ∈ L) : tokens ∈ M :=
  h htokens

theorem exists_of_mem_mul {L M : Language Token} {tokens : List Token}
    (h : tokens ∈ L * M) :
    exists front back, tokens = front ++ back ∧ front ∈ L ∧ back ∈ M := by
  rcases Language.mem_mul.mp h with ⟨front, hfront, back, hback, rfl⟩
  exact ⟨front, back, rfl, hfront, hback⟩

theorem mem_one {wanted : Token.Kind -> Bool} {token : Token}
    (h : wanted token.kind = true) : [token] ∈ one wanted :=
  ⟨token, h, rfl⟩

theorem mem_sign {kind : Token.Kind} {token : Token} (h : token.kind = kind) :
    [token] ∈ sign kind :=
  mem_one (beq_iff_eq.mpr h)

theorem mem_one_mul_iff {wanted : Token.Kind -> Bool} {L : Language Token}
    {tokens : List Token} :
    tokens ∈ one wanted * L <->
      exists token rest, tokens = token :: rest ∧ wanted token.kind = true ∧ rest ∈ L := by
  rw [Language.mem_mul]
  constructor
  · rintro ⟨_, ⟨token, htoken, rfl⟩, rest, hrest, rfl⟩
    exact ⟨token, rest, rfl, htoken, hrest⟩
  · rintro ⟨token, rest, rfl, htoken, hrest⟩
    exact ⟨[token], mem_one htoken, rest, hrest, rfl⟩

theorem mem_sign_mul_iff {kind : Token.Kind} {L : Language Token} {tokens : List Token} :
    tokens ∈ sign kind * L <->
      exists token rest, tokens = token :: rest ∧ token.kind = kind ∧ rest ∈ L := by
  simp only [sign, mem_one_mul_iff, beq_iff_eq]

/-!
## Phrases in a row
-/

section Rows

variable {Item : List Token -> α -> Prop}

theorem yield_repeated : yield (Repeated Item) = (yield Item)∗ := by
  apply le_antisymm
  · rintro tokens ⟨items, h⟩
    induction h with
    | nil => exact Language.nil_mem_kstar _
    | cons ha _ ih => exact mem_of_le mul_kstar_le_kstar (Language.append_mem_mul (mem_yield ha) ih)
  · apply kstar_le_of_mul_le_right
    · rintro tokens rfl
      exact mem_yield .nil
    · intro tokens h
      rcases exists_of_mem_mul h with ⟨front, back, rfl, ⟨a, ha⟩, ⟨items, hitems⟩⟩
      exact mem_yield (.cons ha hitems)

theorem separated_append {tokens back : List Token} {items : List α} {comma : Token} {a : α}
    (h : Separated Item tokens items) (hcomma : comma.kind = .comma) (ha : Item back a) :
    Separated Item (tokens ++ comma :: back) (items ++ [a]) := by
  induction h with
  | single hfirst => exact .more hfirst hcomma (.single ha)
  | more hfirst hsign _ ih =>
      rw [List.append_assoc]
      exact .more hfirst hsign ih

theorem yield_separated :
    yield (Separated Item) = yield Item * (sign .comma * yield Item)∗ := by
  apply le_antisymm
  · rintro tokens ⟨items, h⟩
    induction h with
    | @single tokens a ha =>
        rw [<- List.append_nil tokens]
        exact Language.append_mem_mul (mem_yield ha) (Language.nil_mem_kstar _)
    | @more front back comma a others ha hcomma _ ih =>
        have hback := mem_sign_mul_iff.mpr ⟨comma, back, rfl, hcomma, ih⟩
        rw [<- mul_assoc] at hback
        exact Language.append_mem_mul (mem_yield ha) (mem_of_le mul_kstar_le_kstar hback)
  · apply mul_kstar_le
    · rintro tokens ⟨a, ha⟩
      exact mem_yield (.single ha)
    · intro tokens h
      rcases exists_of_mem_mul h with ⟨front, others, rfl, ⟨items, hitems⟩, hothers⟩
      rcases mem_sign_mul_iff.mp hothers with ⟨comma, back, rfl, hcomma, a, ha⟩
      exact mem_yield (separated_append hitems hcomma ha)

def listRest (items : Language Token) : Language Token :=
  sign .closeParen + items * ((sign .comma * items)∗ * sign .closeParen)

theorem yield_listed : yield (Listed Item) = sign .openParen * listRest (yield Item) := by
  rw [listRest, <- mul_assoc, <- yield_separated]
  apply le_antisymm
  · rintro tokens ⟨items, h⟩
    cases h with
    | none hopening hclosing =>
        exact mem_sign_mul_iff.mpr ⟨_, _, rfl, hopening, .inl (mem_sign hclosing)⟩
    | some hopening hitems hclosing =>
        refine mem_sign_mul_iff.mpr ⟨_, _, rfl, hopening, .inr ?_⟩
        exact Language.append_mem_mul (mem_yield hitems) (mem_sign hclosing)
  · intro tokens h
    rcases mem_sign_mul_iff.mp h with ⟨opening, rest, rfl, hopening, hrest⟩
    rcases hrest with ⟨closing, hclosing, rfl⟩ | hrest
    · exact mem_yield (.none hopening (beq_iff_eq.mp hclosing))
    · rcases exists_of_mem_mul hrest with ⟨used, _, rfl, ⟨items, hitems⟩, closing, hclosing, rfl⟩
      exact mem_yield (.some hopening hitems (beq_iff_eq.mp hclosing))

end Rows

def isName : Token.Kind -> Bool
  | .name _ => true
  | _ => false

theorem yield_named : yield Named = one isName := by
  apply le_antisymm
  · rintro tokens ⟨name, ⟨hkind⟩⟩
    exact mem_one (by rw [hkind]; rfl)
  · rintro tokens ⟨⟨kind, place⟩, hkind, rfl⟩
    cases kind <;> first
      | exact mem_yield (.intro rfl)
      | cases hkind

/-!
## Expressions
-/

section Expressions

variable {Operand Inner : List Token -> Expr H -> Prop}

theorem yield_chain {signs : List Token.Kind} {level : Token.Kind -> Bool}
    (hlevel : forall {kind}, level kind = true <-> kind ∈ signs) :
    yield (Chain signs Operand) = yield Operand * (one level * yield Operand)∗ := by
  apply le_antisymm
  · rintro tokens ⟨e, h⟩
    induction h with
    | @single tokens e h =>
        rw [<- List.append_nil tokens]
        exact Language.append_mem_mul (mem_yield h) (Language.nil_mem_kstar _)
    | @more front back operator left right _ hoperator hright ih =>
        have hback : operator :: back ∈ one level * yield Operand :=
          mem_one_mul_iff.mpr ⟨operator, back, rfl, hlevel.mpr hoperator, mem_yield hright⟩
        have hchain := Language.append_mem_mul ih hback
        rw [mul_assoc] at hchain
        exact mem_of_le (mul_le_mul_right kstar_mul_le_kstar _) hchain
  · apply mul_kstar_le
    · rintro tokens ⟨e, h⟩
      exact mem_yield (.single h)
    · intro tokens h
      rcases exists_of_mem_mul h with ⟨front, others, rfl, ⟨left, hleft⟩, hothers⟩
      rcases mem_one_mul_iff.mp hothers with ⟨operator, back, rfl, hoperator, right, hright⟩
      exact mem_yield (.more hleft (hlevel.mp hoperator) hright)

theorem yield_prefixed :
    yield (Prefixed Operand) = one isUnary * yield (Prefixed Operand) + yield Operand := by
  apply le_antisymm
  · rintro tokens ⟨e, h⟩
    cases h with
    | plain h => exact .inr (mem_yield h)
    | more hoperator h =>
        exact .inl (mem_one_mul_iff.mpr
          ⟨_, _, rfl, isUnary_iff.mpr hoperator, mem_yield h⟩)
  · rintro tokens (h | ⟨e, h⟩)
    · rcases mem_one_mul_iff.mp h with ⟨operator, rest, rfl, hoperator, e, h⟩
      exact mem_yield (.more (isUnary_iff.mp hoperator) h)
    · exact mem_yield (.plain h)

def isLeaf : Token.Kind -> Bool
  | .int _ | .str _ | .name _ => true
  | _ => false

theorem yield_primary :
    yield (Primary Inner) = one isLeaf + sign .openParen * (yield Inner * sign .closeParen) := by
  apply le_antisymm
  · rintro tokens ⟨e, h⟩
    cases h with
    | int hkind => exact .inl (mem_one (by rw [hkind]; rfl))
    | str hkind => exact .inl (mem_one (by rw [hkind]; rfl))
    | var hkind => exact .inl (mem_one (by rw [hkind]; rfl))
    | group hopening h hclosing =>
        refine .inr (mem_sign_mul_iff.mpr ⟨_, _, rfl, hopening, ?_⟩)
        exact Language.append_mem_mul (mem_yield h) (mem_sign hclosing)
  · rintro tokens (⟨⟨kind, place⟩, hkind, rfl⟩ | h)
    · cases kind <;> first
        | exact mem_yield (.int rfl)
        | exact mem_yield (.str rfl)
        | exact mem_yield (.var rfl)
        | cases hkind
    · rcases mem_sign_mul_iff.mp h with ⟨opening, rest, rfl, hopening, hrest⟩
      rcases exists_of_mem_mul hrest with ⟨used, _, rfl, ⟨e, he⟩, closing, hclosing, rfl⟩
      exact mem_yield (.group hopening he (beq_iff_eq.mp hclosing))

theorem yield_called :
    yield (Called Inner) =
      yield (Primary Inner) * (sign .openParen * listRest (yield Inner) + 1) := by
  rw [<- yield_listed]
  apply le_antisymm
  · rintro tokens ⟨e, h⟩
    cases h with
    | plain h =>
        rw [<- List.append_nil tokens]
        exact Language.append_mem_mul (mem_yield h) (.inr rfl)
    | call hcallee hargs =>
        exact Language.append_mem_mul (mem_yield hcallee) (.inl (mem_yield hargs))
  · intro tokens h
    rcases exists_of_mem_mul h with ⟨front, back, rfl, ⟨callee, hcallee⟩, ⟨args, hargs⟩ | rfl⟩
    · exact mem_yield (.call hcallee hargs)
    · rw [List.append_nil]
      exact mem_yield (.plain hcallee)

theorem yield_looselyAssigned :
    yield (LooselyAssigned Inner) =
      yield (Equality Inner) * (sign .assign * yield Inner + 1) := by
  apply le_antisymm
  · rintro tokens ⟨e, h⟩
    cases h with
    | assign hleft hsign hvalue =>
        exact Language.append_mem_mul (mem_yield hleft)
          (.inl (mem_sign_mul_iff.mpr ⟨_, _, rfl, hsign, mem_yield hvalue⟩))
    | plain h =>
        rw [<- List.append_nil tokens]
        exact Language.append_mem_mul (mem_yield h) (.inr rfl)
  · intro tokens h
    rcases exists_of_mem_mul h with ⟨front, back, rfl, ⟨left, hleft⟩, hback | rfl⟩
    · rcases mem_sign_mul_iff.mp hback with ⟨sign, rest, rfl, hsign, value, hvalue⟩
      exact mem_yield (.assign hleft hsign hvalue)
    · rw [List.append_nil]
      exact mem_yield (.plain hleft)

end Expressions

theorem yield_looseExpression :
    yield (LooseExpression : List Token -> Expr H -> Prop) =
      yield (LooselyAssigned (LooseExpression : List Token -> Expr H -> Prop)) := by
  apply le_antisymm
  · rintro tokens ⟨e, ⟨h⟩⟩
    exact mem_yield h
  · rintro tokens ⟨e, h⟩
    exact mem_yield (.intro h)

/-!
## Statements
-/

section Sentences

variable {Whole : List Token -> Expr H -> Prop} {Inner : List Token -> Stmt H -> Prop}

theorem yield_braced :
    yield (Braced Inner) = sign .openBrace * ((yield Inner)∗ * sign .closeBrace) := by
  rw [<- yield_repeated]
  apply le_antisymm
  · rintro tokens ⟨s, ⟨hopening, hbody, hclosing⟩⟩
    exact mem_sign_mul_iff.mpr
      ⟨_, _, rfl, hopening, Language.append_mem_mul (mem_yield hbody) (mem_sign hclosing)⟩
  · intro tokens h
    rcases mem_sign_mul_iff.mp h with ⟨opening, rest, rfl, hopening, hrest⟩
    rcases exists_of_mem_mul hrest with ⟨used, _, rfl, ⟨body, hbody⟩, closing, hclosing, rfl⟩
    exact mem_yield (.intro hopening hbody (beq_iff_eq.mp hclosing))

def declared (blocks : Language Token) : Language Token :=
  one isName * (sign .openParen * (listRest (one isName) * blocks))

def branched (conditions blocks : Language Token) : Language Token :=
  conditions * (blocks * (sign .elseWord * blocks + 1))

def looped (conditions blocks : Language Token) : Language Token :=
  conditions * blocks

theorem yield_sentence :
    yield (Sentence Whole Inner) =
      sign .functionWord * declared (yield (Braced Inner)) +
      (sign .ifWord * branched (yield Whole) (yield (Braced Inner)) +
      (sign .whileWord * looped (yield Whole) (yield (Braced Inner)) +
      (yield (Braced Inner) + yield Whole * sign .dot))) := by
  have hlisted : sign .openParen * (listRest (one isName) * yield (Braced Inner)) =
      yield (Listed Named) * yield (Braced Inner) := by
    rw [<- mul_assoc, yield_listed, yield_named]
  rw [declared, hlisted]
  apply le_antisymm
  · rintro tokens ⟨s, h⟩
    cases h with
    | define hkeyword htarget hnames hbody =>
        refine .inl (mem_sign_mul_iff.mpr ⟨_, _, rfl, hkeyword, ?_⟩)
        refine mem_one_mul_iff.mpr ⟨_, _, rfl, by rw [htarget]; rfl, ?_⟩
        exact Language.append_mem_mul (mem_yield hnames) (mem_yield hbody)
    | branch hkeyword hcondition honTrue =>
        refine .inr (.inl (mem_sign_mul_iff.mpr ⟨_, _, rfl, hkeyword, ?_⟩))
        have honly := Language.append_mem_mul (mem_yield honTrue)
          (show [] ∈ sign .elseWord * yield (Braced Inner) + 1 from .inr rfl)
        rw [List.append_nil] at honly
        exact Language.append_mem_mul (mem_yield hcondition) honly
    | branchElse hkeyword hcondition honTrue hotherwise honFalse =>
        refine .inr (.inl (mem_sign_mul_iff.mpr ⟨_, _, rfl, hkeyword, ?_⟩))
        exact Language.append_mem_mul (mem_yield hcondition)
          (Language.append_mem_mul (mem_yield honTrue)
            (.inl (mem_sign_mul_iff.mpr ⟨_, _, rfl, hotherwise, mem_yield honFalse⟩)))
    | loop hkeyword hcondition hbody =>
        refine .inr (.inr (.inl (mem_sign_mul_iff.mpr ⟨_, _, rfl, hkeyword, ?_⟩)))
        exact Language.append_mem_mul (mem_yield hcondition) (mem_yield hbody)
    | block hbody => exact .inr (.inr (.inr (.inl (mem_yield hbody))))
    | simple he hstop =>
        exact .inr (.inr (.inr (.inr (Language.append_mem_mul (mem_yield he) (mem_sign hstop)))))
  · rintro tokens (h | h | h | ⟨s, h⟩ | h)
    · rcases mem_sign_mul_iff.mp h with ⟨keyword, rest, rfl, hkeyword, hrest⟩
      rw [<- yield_named] at hrest
      rcases exists_of_mem_mul hrest with ⟨_, behind, rfl, ⟨name, ⟨htarget⟩⟩, hbehind⟩
      rcases exists_of_mem_mul hbehind with ⟨names, block, rfl, ⟨params, hparams⟩, ⟨body, hbody⟩⟩
      rw [List.singleton_append]
      exact mem_yield (.define hkeyword htarget hparams hbody)
    · rcases mem_sign_mul_iff.mp h with ⟨keyword, rest, rfl, hkeyword, hrest⟩
      rcases exists_of_mem_mul hrest with ⟨front, behind, rfl, ⟨condition, hcondition⟩, hbehind⟩
      rcases exists_of_mem_mul hbehind with ⟨block, other, rfl, ⟨onTrue, honTrue⟩, hother | rfl⟩
      · rcases mem_sign_mul_iff.mp hother with ⟨otherwise, back, rfl, hotherwise, onFalse, honFalse⟩
        exact mem_yield (.branchElse hkeyword hcondition honTrue hotherwise honFalse)
      · rw [List.append_nil]
        exact mem_yield (.branch hkeyword hcondition honTrue)
    · rcases mem_sign_mul_iff.mp h with ⟨keyword, rest, rfl, hkeyword, hrest⟩
      rcases exists_of_mem_mul hrest with
        ⟨front, block, rfl, ⟨condition, hcondition⟩, ⟨body, hbody⟩⟩
      exact mem_yield (.loop hkeyword hcondition hbody)
    · exact mem_yield (.block h)
    · rcases exists_of_mem_mul h with ⟨front, _, rfl, ⟨e, he⟩, stop, hstop, rfl⟩
      exact mem_yield (.simple he (beq_iff_eq.mp hstop))

theorem yield_looseStatement :
    yield (LooseStatement : List Token -> Stmt H -> Prop) =
      yield (Sentence LooseExpression (LooseStatement : List Token -> Stmt H -> Prop)) := by
  apply le_antisymm
  · rintro tokens ⟨s, ⟨h⟩⟩
    exact mem_yield h
  · rintro tokens ⟨s, h⟩
    exact mem_yield (.intro h)

end Sentences

/-!
## No phrase marks the end

A phrase refers to whole phrases only behind a token of its own, so what is said of the
tokens of all phrases below a length follows from one length for the next.
-/

def unended (bound : Nat) : Language Token :=
  { tokens | tokens.length < bound -> forall token, token ∈ tokens -> token.isEof = false }

section Unended

variable {L M : Language Token} {wanted : Token.Kind -> Bool} {bound : Nat}

theorem unit_le_unended : 1 ≤ unended bound := by
  intro tokens htokens _ token htoken
  rw [(Language.mem_one tokens).mp htokens] at htoken
  cases htoken

theorem mul_le_unended (hL : L ≤ unended bound) (hM : M ≤ unended bound) :
    L * M ≤ unended bound := by
  intro tokens htokens hlength token htoken
  rcases exists_of_mem_mul htokens with ⟨front, back, rfl, hfront, hback⟩
  rw [List.length_append] at hlength
  rcases List.mem_append.mp htoken with htoken | htoken
  · exact hL hfront (by omega) token htoken
  · exact hM hback (by omega) token htoken

theorem kstar_le_unended (hL : L ≤ unended bound) : L∗ ≤ unended bound :=
  kstar_le_of_mul_le_right unit_le_unended (mul_le_unended hL le_rfl)

theorem one_mul_le_unended (hwanted : wanted .eof = false) (hL : L ≤ unended bound) :
    one wanted * L ≤ unended (bound + 1) := by
  intro tokens htokens hlength token htoken
  rcases mem_one_mul_iff.mp htokens with ⟨first, rest, rfl, hfirst, hrest⟩
  rcases List.mem_cons.mp htoken with rfl | htoken
  · rw [Token.isEof, beq_eq_false_iff_ne]
    intro hkind
    rw [hkind, hwanted] at hfirst
    cases hfirst
  · exact hL hrest (Nat.lt_of_succ_lt_succ hlength) token htoken

theorem one_le_unended (hwanted : wanted .eof = false) : one wanted ≤ unended bound := by
  rintro tokens ⟨token, htoken, rfl⟩ _ other hother
  rw [List.mem_singleton.mp hother, Token.isEof, beq_eq_false_iff_ne]
  intro hkind
  rw [hkind, hwanted] at htoken
  cases htoken

theorem listRest_le_unended (hL : L ≤ unended bound) : listRest L ≤ unended bound := by
  have hclosing : sign .closeParen ≤ unended bound := one_le_unended rfl
  have hcomma : sign .comma * L ≤ unended bound := mul_le_unended (one_le_unended rfl) hL
  exact add_le hclosing
    (mul_le_unended hL (mul_le_unended (kstar_le_unended hcomma) hclosing))

theorem chain_le_unended {signs : List Token.Kind} {level : Token.Kind -> Bool}
    {Operand : List Token -> Expr H -> Prop}
    (hlevel : forall {kind}, level kind = true <-> kind ∈ signs) (heof : level .eof = false)
    (hoperand : yield Operand ≤ unended bound) : yield (Chain signs Operand) ≤ unended bound := by
  rw [yield_chain hlevel]
  exact mul_le_unended hoperand
    (kstar_le_unended (mul_le_unended (one_le_unended heof) hoperand))

theorem prefixed_le_unended {Operand : List Token -> Expr H -> Prop}
    (hoperand : yield Operand ≤ unended bound) : yield (Prefixed Operand) ≤ unended bound := by
  have hempty : [] ∉ one isUnary := by
    rintro ⟨token, _, htoken⟩
    cases htoken
  rw [(Language.self_eq_mul_add_iff hempty).mp yield_prefixed]
  exact mul_le_unended (kstar_le_unended (one_le_unended rfl)) hoperand

theorem called_le_unended {Inner : List Token -> Expr H -> Prop}
    (hinner : yield Inner ≤ unended bound) : yield (Called Inner) ≤ unended (bound + 1) := by
  have hprimary : yield (Primary Inner) ≤ unended (bound + 1) := by
    rw [yield_primary]
    exact add_le (one_le_unended rfl)
      (one_mul_le_unended rfl (mul_le_unended hinner (one_le_unended rfl)))
  rw [yield_called]
  exact mul_le_unended hprimary
    (add_le (one_mul_le_unended rfl (listRest_le_unended hinner)) unit_le_unended)

theorem looseExpression_le_unended (bound : Nat) :
    yield (LooseExpression : List Token -> Expr H -> Prop) ≤ unended bound := by
  induction bound with
  | zero => exact fun _ _ hlength => absurd hlength (Nat.not_lt_zero _)
  | succ bound ih =>
      have hequality := chain_le_unended isEquality_iff rfl (chain_le_unended isComparison_iff rfl
        (chain_le_unended isAdditive_iff rfl (chain_le_unended isMultiplicative_iff rfl
          (prefixed_le_unended (called_le_unended ih)))))
      rw [yield_looseExpression, yield_looselyAssigned]
      exact mul_le_unended hequality (add_le (one_mul_le_unended rfl ih) unit_le_unended)

theorem looseStatement_le_unended (bound : Nat) :
    yield (LooseStatement : List Token -> Stmt H -> Prop) ≤ unended bound := by
  induction bound with
  | zero => exact fun _ _ hlength => absurd hlength (Nat.not_lt_zero _)
  | succ bound ih =>
      have hwhole := looseExpression_le_unended (H := H) (bound + 1)
      have hblock : yield (Braced (LooseStatement : List Token -> Stmt H -> Prop)) ≤
          unended (bound + 1) := by
        rw [yield_braced]
        exact one_mul_le_unended rfl (mul_le_unended (kstar_le_unended ih) (one_le_unended rfl))
      have hname : one isName ≤ unended (bound + 1) := one_le_unended rfl
      have hsign : forall {kind : Token.Kind} {L : Language Token}, kind ≠ .eof ->
          L ≤ unended (bound + 1) -> sign kind * L ≤ unended (bound + 1) := by
        intro kind L hkind hL
        exact mul_le_unended (one_le_unended (beq_eq_false_iff_ne.mpr hkind.symm)) hL
      rw [yield_looseStatement, yield_sentence, declared, branched, looped]
      refine add_le (hsign nofun (mul_le_unended hname (hsign nofun
        (mul_le_unended (listRest_le_unended hname) hblock)))) ?_
      refine add_le (hsign nofun (mul_le_unended hwhole (mul_le_unended hblock
        (add_le (hsign nofun hblock) unit_le_unended)))) ?_
      refine add_le (hsign nofun (mul_le_unended hwhole hblock)) (add_le hblock ?_)
      exact mul_le_unended hwhole (one_le_unended rfl)

end Unended

/-- The tokens of some statements, one behind the other. -/
def LooseProgram (H : Type) (tokens : List Token) : Prop :=
  exists body : List (Stmt H), Repeated LooseStatement tokens body

theorem looseProgram_iff {tokens : List Token} :
    LooseProgram H tokens <->
      tokens ∈ (yield (LooseStatement : List Token -> Stmt H -> Prop))∗ := by
  rw [<- yield_repeated]
  rfl

theorem LooseProgram.isEof_eq_false {tokens : List Token} (h : LooseProgram H tokens) :
    forall token, token ∈ tokens -> token.isEof = false :=
  mem_of_le (kstar_le_unended (looseStatement_le_unended _)) (looseProgram_iff.mp h)
    (Nat.lt_succ_self _)

end Grammar
end Lisan
