import Lisan.Proofs.Grammar.Loose

/-!
# Readers that decide

A reader that looks one token ahead decides a language if it is never wrong about what it
has seen: what it takes is the only sentence of the language that can be there, and where
it refuses a token no sentence goes on with that token, though one goes on somehow. Of two
readers, one behind the other, each has to decide its language; this module says so for
every way in which readers are put together.

There are two faults that a reader blames on a token that it took before: a grouping that
is not closed, and an assignment to what is no name.
-/

namespace Lisan
namespace Grammar

open Reader
open scoped Computability

variable {H : Type}

/-!
## Texts that begin in the same way
-/

def Passes (text read : List Token) (next : Option Token) : Prop :=
  exists behind, text = read ++ behind ∧ behind.head? = next

theorem Passes.head? {text read rest : List Token} (h : Passes text read rest.head?) :
    text.head? = (read ++ rest).head? := by
  rcases h with ⟨behind, rfl, hbehind⟩
  cases read with
  | nil => exact hbehind
  | cons token read => rfl

theorem Passes.of_cons {token other : Token} {text read : List Token} {next : Option Token}
    (h : Passes (token :: text) (other :: read) next) : token = other ∧ Passes text read next := by
  rcases h with ⟨behind, htext, hbehind⟩
  rw [List.cons_append, List.cons.injEq] at htext
  exact ⟨htext.left, behind, htext.right, hbehind⟩

theorem Passes.of_append {front text read : List Token} {next : Option Token}
    (h : Passes (front ++ text) (front ++ read) next) : Passes text read next := by
  rcases h with ⟨behind, htext, hbehind⟩
  rw [List.append_assoc] at htext
  exact ⟨behind, List.append_cancel_left htext, hbehind⟩

theorem Passes.front {text front read rest : List Token}
    (h : Passes text (front ++ read) rest.head?) : Passes text front (read ++ rest).head? := by
  rcases h with ⟨behind, rfl, hbehind⟩
  refine ⟨read ++ behind, List.append_assoc _ _ _, ?_⟩
  cases read with
  | nil => exact hbehind
  | cons token read => rfl

/-!
## Languages and what was read
-/

section Languages

variable (L : Language Token) (clash : Token.Kind -> Bool)

/-- What was read is the only sentence that can be there, if nothing that clashes may
follow a sentence. -/
def Only (read : List Token) (next : Option Token) : Prop :=
  forall ⦃sentence after : List Token⦄, sentence ∈ L -> Clear clash after ->
    Passes (sentence ++ after) read next -> sentence = read

def Dead (read : List Token) (next : Option Token) : Prop :=
  forall ⦃sentence after : List Token⦄, sentence ∈ L -> Clear clash after ->
    Not (Passes (sentence ++ after) read next)

def Viable (read : List Token) : Prop :=
  exists more, read ++ more ∈ L

end Languages

/-!
## Faults
-/

def Behind (allowed : Token.Kind -> Bool) (before : List Token) : Prop :=
  forall token, token ∈ before.getLast? -> allowed token.kind = true

/-- The kinds that a primary expression ends with. A parenthesis behind these is that of a
call, and behind all others that of a grouping. -/
def endsPrimary : Token.Kind -> Bool
  | .int _ | .str _ | .name _ | .closeParen => true
  | _ => false

def leadsExpression : Token.Kind -> Bool
  | .openParen | .comma | .assign | .dot | .openBrace | .closeBrace | .ifWord
  | .whileWord => true
  | _ => false

/-- A grouping of which the inner expression was read, and is not followed by the closing
parenthesis. -/
inductive Unclosed (H : Type) : List Token -> List Token -> Token -> Prop where
  | intro {front inner rest : List Token} {opening : Token} {e : Expr H} :
      Behind (fun kind => !endsPrimary kind) front -> opening.kind = .openParen ->
      Expression inner e -> Clear (· == .closeParen) rest ->
      Unclosed H (front ++ opening :: inner) rest opening

inductive Mistargeted (H : Type) : List Token -> Token -> Prop where
  | intro {front left right : List Token} {sign : Token} {target value : Expr H} :
      Behind leadsExpression front -> Equality Expression left target ->
      (forall name, target ≠ .var name) -> sign.kind = .assign -> Expression right value ->
      Mistargeted H (front ++ (left ++ sign :: right)) sign

def refusal : List Token -> Stop
  | [] => .unexpectedEnd
  | token :: _ => .unexpected token

theorem refuse_eq_error (rest : List Token) :
    (refuse rest : EStateM.Result Stop (List Token) α) = .error (refusal rest) rest := by
  cases rest <;> rfl

inductive Fault (H : Type) (dead : Prop) (read rest : List Token) : Stop -> Prop where
  | refused : dead -> Fault H dead read rest (refusal rest)
  | unclosed {opening : Token} :
      dead -> Unclosed H read rest opening -> Fault H dead read rest (.unexpected opening)
  | mistargeted {sign : Token} :
      Mistargeted H read sign -> Fault H dead read rest (.unexpected sign)

theorem Fault.mono {dead other : Prop} {read rest : List Token} {stop : Stop}
    (h : Fault H dead read rest stop) (hdead : dead -> other) : Fault H other read rest stop := by
  cases h with
  | refused h => exact .refused (hdead h)
  | unclosed h hunclosed => exact .unclosed (hdead h) hunclosed
  | mistargeted h => exact .mistargeted h

/-!
## Results that are decided
-/

/-- What a reader of the language may come to on these tokens, behind those that were
read before. -/
inductive Decided (H : Type) (L : Language Token) (clash : Token.Kind -> Bool)
    (before tokens : List Token) : EStateM.Result Stop (List Token) α -> Prop where
  | ok {used rest : List Token} {a : α} :
      tokens = used ++ rest -> used ∈ L -> Only L clash used rest.head? ->
      Decided H L clash before tokens (.ok a rest)
  | error {read rest : List Token} {stop : Stop} :
      tokens = read ++ rest -> Viable L read ->
      Fault H (Dead L clash read rest.head?) (before ++ read) rest stop ->
      Decided H L clash before tokens (.error stop rest)

theorem Decided.ne_tooDeep {L : Language Token} {clash : Token.Kind -> Bool}
    {before tokens rest : List Token} {stop : Stop}
    (h : Decided H L clash before tokens (.error stop rest : EStateM.Result Stop (List Token) α)) :
    stop ≠ .tooDeep := by
  cases h with
  | error _ _ hfault =>
      cases hfault with
      | refused => cases rest <;> nofun
      | unclosed => nofun
      | mistargeted => nofun

/-- No sentence of the language, nor what may follow an empty one, clashes with what is
before it. -/
def Fits (L : Language Token) (after clash : Token.Kind -> Bool) : Prop :=
  forall ⦃sentence behind : List Token⦄, sentence ∈ L -> Clear after behind ->
    Clear clash (sentence ++ behind)

def Averse (L : Language Token) (clash : Token.Kind -> Bool) (tokens : List Token) : Prop :=
  forall ⦃sentence behind : List Token⦄, sentence ∈ L -> Clear clash behind ->
    (sentence ++ behind).head? ≠ tokens.head?

namespace Decided

variable {L M : Language Token} {clash after : Token.Kind -> Bool} {before tokens : List Token}

theorem pure (a : α) : Decided H 1 clash before tokens (.ok a tokens) := by
  refine .ok (List.nil_append tokens).symm rfl ?_
  intro sentence behind hsentence _ _
  exact hsentence

theorem refuse (hsome : exists sentence, sentence ∈ L) (h : Averse L clash tokens) :
    Decided H L clash before tokens
      (Reader.refuse tokens : EStateM.Result Stop (List Token) α) := by
  rw [refuse_eq_error]
  refine .error (List.nil_append tokens).symm hsome (.refused ?_)
  intro sentence behind hsentence hbehind hpasses
  exact h hsentence hbehind hpasses.head?

theorem choose {result : EStateM.Result Stop (List Token) α}
    (h : Decided H L clash before tokens result) (hother : Averse M clash tokens) :
    Decided H (L + M) clash before tokens result := by
  cases h with
  | ok htokens hused honly =>
      refine .ok htokens (.inl hused) ?_
      intro sentence behind hsentence hbehind hpasses
      rcases hsentence with hsentence | hsentence
      · exact honly hsentence hbehind hpasses
      · have hhead := hpasses.head?
        rw [<- htokens] at hhead
        exact absurd hhead (hother hsentence hbehind)
  | error htokens hviable hfault =>
      rcases hviable with ⟨more, hmore⟩
      refine .error htokens ⟨more, .inl hmore⟩ (hfault.mono ?_)
      intro hdead sentence behind hsentence hbehind hpasses
      rcases hsentence with hsentence | hsentence
      · exact hdead hsentence hbehind hpasses
      · have hhead := hpasses.head?
        rw [<- htokens] at hhead
        exact absurd hhead (hother hsentence hbehind)

theorem choose_right {result : EStateM.Result Stop (List Token) α}
    (h : Decided H L clash before tokens result) (hother : Averse M clash tokens) :
    Decided H (M + L) clash before tokens result := by
  rw [add_comm]
  exact h.choose hother

theorem cons {wanted : Token.Kind -> Bool} {token : Token}
    {result : EStateM.Result Stop (List Token) α} (hwanted : wanted token.kind = true)
    (h : Decided H L clash (before ++ [token]) tokens result) :
    Decided H (one wanted * L) clash before (token :: tokens) result := by
  cases h with
  | @ok used rest a htokens hused honly =>
      refine .ok (congrArg (token :: ·) htokens)
        (mem_one_mul_iff.mpr ⟨_, _, rfl, hwanted, hused⟩) ?_
      intro sentence behind hsentence hbehind hpasses
      rcases mem_one_mul_iff.mp hsentence with ⟨first, others, rfl, _, hothers⟩
      rcases hpasses.of_cons with ⟨rfl, hothersPass⟩
      rw [honly hothers hbehind hothersPass]
  | @error read rest stop htokens hviable hfault =>
      rcases hviable with ⟨more, hmore⟩
      rw [List.append_assoc, List.singleton_append] at hfault
      refine .error (congrArg (token :: ·) htokens)
        ⟨more, mem_one_mul_iff.mpr ⟨_, _, rfl, hwanted, hmore⟩⟩ (hfault.mono ?_)
      intro hdead sentence behind hsentence hbehind hpasses
      rcases mem_one_mul_iff.mp hsentence with ⟨first, others, rfl, _, hothers⟩
      exact hdead hothers hbehind hpasses.of_cons.right

theorem bind {reader : Reader α} {next : α -> Reader β}
    (h : Decided H L clash before tokens (reader tokens)) (hfits : Fits M after clash)
    (hsome : exists sentence, sentence ∈ M)
    (hnext : forall {used rest : List Token} {a : α}, reader tokens = .ok a rest ->
      tokens = used ++ rest -> used ∈ L -> Decided H M after (before ++ used) rest (next a rest)) :
    Decided H (L * M) after before tokens ((reader >>= next) tokens) := by
  cases hread : reader tokens with
  | ok a rest =>
      rw [hread] at h
      rw [bind_of_ok hread]
      cases h with
      | @ok used _ _ htokens hused honly =>
          have hlast := hnext hread htokens hused
          generalize next a rest = result at hlast ⊢
          -- the first sentence of any two that pass is the one that was taken
          have hfirst : forall {first second behind read left : List Token},
              rest = read ++ left -> first ∈ L -> second ∈ M -> Clear after behind ->
              Passes (first ++ second ++ behind) (used ++ read) left.head? ->
              first = used ∧ Passes (second ++ behind) read left.head? := by
            intro first second behind read left hrest hfirst hsecond hbehind hpasses
            rw [List.append_assoc] at hpasses
            have hfront := hpasses.front
            rw [<- hrest] at hfront
            have hsame := honly hfirst (hfits hsecond hbehind) hfront
            rw [hsame] at hpasses
            exact ⟨hsame, hpasses.of_append⟩
          cases hlast with
          | @ok taken left _ hrest htaken honly' =>
              refine .ok (by rw [htokens, hrest, List.append_assoc])
                (Language.append_mem_mul hused htaken) ?_
              intro sentence behind hsentence hbehind hpasses
              rcases exists_of_mem_mul hsentence with ⟨first, second, rfl, hin, hsecond⟩
              rcases hfirst hrest hin hsecond hbehind hpasses with ⟨rfl, hsecondPass⟩
              rw [honly' hsecond hbehind hsecondPass]
          | @error read left _ hrest hviable hfault =>
              rcases hviable with ⟨more, hmore⟩
              rw [List.append_assoc] at hfault
              refine .error (by rw [htokens, hrest, List.append_assoc]) ⟨more, ?_⟩ (hfault.mono ?_)
              · rw [List.append_assoc]
                exact Language.append_mem_mul hused hmore
              · intro hdead sentence behind hsentence hbehind hpasses
                rcases exists_of_mem_mul hsentence with ⟨first, second, rfl, hin, hsecond⟩
                exact hdead hsecond hbehind (hfirst hrest hin hsecond hbehind hpasses).right
  | error stop rest =>
      have hboth : (reader >>= next) tokens = .error stop rest := by
        simp only [Bind.bind, EStateM.bind, hread]
      rw [hread] at h
      rw [hboth]
      cases h with
      | error htokens hviable hfault =>
          rcases hviable with ⟨more, hmore⟩
          rcases hsome with ⟨last, hlast⟩
          refine .error htokens ⟨more ++ last, ?_⟩ (hfault.mono ?_)
          · rw [<- List.append_assoc]
            exact Language.append_mem_mul hmore hlast
          · intro hdead sentence behind hsentence hbehind hpasses
            rcases exists_of_mem_mul hsentence with ⟨first, second, rfl, hfirst, hsecond⟩
            rw [List.append_assoc] at hpasses
            exact hdead hfirst (hfits hsecond hbehind) hpasses

theorem map {reader : Reader α} (f : α -> β)
    (h : Decided H L clash before tokens (reader tokens)) :
    Decided H L clash before tokens ((do let a <- reader; return f a) tokens) := by
  have hfits : Fits 1 clash clash := by
    rintro sentence behind rfl hbehind
    exact hbehind
  rw [<- mul_one L]
  exact h.bind hfits ⟨[], rfl⟩ fun _ _ _ => .pure _

end Decided
/-!
## First tokens of sentences
-/

def Heads (wanted : Token.Kind -> Bool) (L : Language Token) : Prop :=
  forall ⦃tokens : List Token⦄, tokens ∈ L -> Begins wanted tokens

section Heads

variable {L M : Language Token} {wanted clash after : Token.Kind -> Bool} {tokens : List Token}

theorem heads_one (wanted : Token.Kind -> Bool) : Heads wanted (one wanted) := by
  rintro tokens ⟨token, htoken, rfl⟩
  exact ⟨token, [], rfl, htoken⟩

theorem heads_sign (kind : Token.Kind) : Heads (· == kind) (sign kind) :=
  heads_one _

theorem Heads.mul (h : Heads wanted L) : Heads wanted (L * M) := by
  intro tokens htokens
  rcases exists_of_mem_mul htokens with ⟨front, back, rfl, hfront, _⟩
  exact begins_append (h hfront) back

theorem Heads.mono {more : Token.Kind -> Bool} (h : Heads wanted L)
    (hmore : forall kind, wanted kind = true -> more kind = true) : Heads more L :=
  fun _ htokens => begins_mono (h htokens) hmore

theorem Heads.fits (h : Heads wanted L)
    (hclash : forall kind, wanted kind = true -> clash kind = false) : Fits L after clash := by
  intro sentence behind hsentence _
  exact clear_of_begins (begins_append (h hsentence) behind) hclash

theorem Heads.averse (h : Heads wanted L) (hclear : Clear wanted tokens) :
    Averse L clash tokens := by
  intro sentence behind hsentence _ hhead
  rcases h hsentence with ⟨token, rest, rfl, hwanted⟩
  rw [hclear token hhead.symm] at hwanted
  cases hwanted

theorem Heads.length_pos (h : Heads wanted L) (htokens : tokens ∈ L) : 0 < tokens.length := by
  rcases h htokens with ⟨token, rest, rfl, _⟩
  exact Nat.zero_lt_succ _

end Heads

theorem test_of_beq {test : Token.Kind -> Bool} {wanted : Token.Kind} {answer : Bool}
    (h : test wanted = answer) (kind : Token.Kind) (hkind : (kind == wanted) = true) :
    test kind = answer := by
  rw [beq_iff_eq.mp hkind]
  exact h

section Fits

variable {L M : Language Token} {wanted clash after : Token.Kind -> Bool} {tokens : List Token}

theorem fits_none (L : Language Token) (after : Token.Kind -> Bool) :
    Fits L after fun _ => false :=
  fun _ _ _ _ _ _ => rfl

theorem fits_unit (h : forall kind, clash kind = true -> after kind = true) :
    Fits 1 after clash := by
  rintro sentence behind rfl hbehind
  exact clear_mono hbehind h

theorem Fits.add (hL : Fits L after clash) (hM : Fits M after clash) :
    Fits (L + M) after clash := by
  rintro sentence behind (hsentence | hsentence) hbehind
  · exact hL hsentence hbehind
  · exact hM hsentence hbehind

theorem Fits.mul {middle : Token.Kind -> Bool} (hL : Fits L middle clash)
    (hM : Fits M after middle) : Fits (L * M) after clash := by
  intro sentence behind hsentence hbehind
  rcases exists_of_mem_mul hsentence with ⟨front, back, rfl, hfront, hback⟩
  rw [List.append_assoc]
  exact hL hfront (hM hback hbehind)

theorem Heads.star_fits (h : Heads wanted L)
    (hwanted : forall kind, wanted kind = true -> clash kind = false)
    (hclash : forall kind, clash kind = true -> after kind = true) : Fits L∗ after clash := by
  rw [<- one_add_mul_kstar]
  exact (fits_unit hclash).add (h.mul.fits hwanted)

theorem averse_unit (h : Begins clash tokens) : Averse 1 clash tokens := by
  rcases h with ⟨token, rest, rfl, hclash⟩
  rintro sentence behind rfl hbehind hhead
  rw [hbehind token hhead] at hclash
  cases hclash

theorem Averse.add (hL : Averse L clash tokens) (hM : Averse M clash tokens) :
    Averse (L + M) clash tokens := by
  rintro sentence behind (hsentence | hsentence) hbehind
  · exact hL hsentence hbehind
  · exact hM hsentence hbehind

end Fits

theorem begins_or_clear (wanted : Token.Kind -> Bool) (tokens : List Token) :
    Begins wanted tokens ∨ Clear wanted tokens := by
  cases tokens with
  | nil => exact .inr (clear_nil wanted)
  | cons token rest =>
      cases hwanted : wanted token.kind with
      | true => exact .inl ⟨token, rest, rfl, hwanted⟩
      | false => exact .inr (clear_cons hwanted)

theorem next_cases (kind : Token.Kind) (tokens : List Token) :
    (exists token rest, tokens = token :: rest ∧ token.kind = kind) ∨
      Clear (· == kind) tokens := by
  rcases begins_or_clear (· == kind) tokens with ⟨token, rest, htokens, hkind⟩ | hclear
  · exact .inl ⟨token, rest, htokens, beq_iff_eq.mp hkind⟩
  · exact .inr hclear

theorem expect_of_clear {kind : Token.Kind} {tokens : List Token}
    (h : Clear (· == kind) tokens) : expect kind tokens = refuse tokens := by
  cases tokens with
  | nil => rfl
  | cons token rest =>
      have hother : (token.kind == kind) = false := h token rfl
      rw [expect, hother]
      rfl

theorem expectName_of_clear {tokens : List Token} (h : Clear isName tokens) :
    expectName tokens = refuse tokens := by
  unfold expectName
  split
  · cases h _ rfl
  · rfl

/-!
## Last tokens
-/

section Behind

variable {allowed : Token.Kind -> Bool}

theorem behind_nil (allowed : Token.Kind -> Bool) : Behind allowed [] := by
  intro token htoken
  cases htoken

theorem behind_concat (before : List Token) {token : Token} (h : allowed token.kind = true) :
    Behind allowed (before ++ [token]) := by
  intro last hlast
  rw [List.getLast?_concat, Option.mem_some_iff] at hlast
  rw [<- hlast, h]

theorem Behind.mono {more : Token.Kind -> Bool} {before : List Token} (h : Behind allowed before)
    (hmore : forall kind, allowed kind = true -> more kind = true) : Behind more before :=
  fun token htoken => hmore _ (h token htoken)

end Behind

/-!
## Readers
-/

/-- Behind what may be before it, the reader decides all tokens below the bound. -/
def Decides (H : Type) (reader : Reader α) (L : Language Token) (clash : Token.Kind -> Bool)
    (allowed : Token.Kind -> Bool) (bound : Nat) : Prop :=
  forall ⦃before tokens : List Token⦄, Behind allowed before -> tokens.length < bound ->
    Decided H L clash before tokens (reader tokens)

namespace Decided

variable {clash : Token.Kind -> Bool} {before tokens : List Token}

theorem single {wanted : Token.Kind -> Bool} {token : Token} (h : wanted token.kind = true)
    (a : α) : Decided H (one wanted) clash before (token :: tokens) (.ok a tokens) := by
  rw [<- mul_one (one wanted)]
  exact cons h (pure a)

theorem expect (kind : Token.Kind) :
    Decided H (sign kind) clash before tokens (Reader.expect kind tokens) := by
  rcases next_cases kind tokens with ⟨token, rest, rfl, hkind⟩ | hclear
  · have hwanted : (token.kind == kind) = true := beq_iff_eq.mpr hkind
    rw [expect_cons hkind]
    exact single hwanted ()
  · rw [expect_of_clear hclear]
    exact refuse ⟨_, mem_sign (show (⟨kind, .start⟩ : Token).kind = kind from rfl)⟩
      ((heads_sign kind).averse hclear)

theorem expectName : Decided H (one isName) clash before tokens (Reader.expectName tokens) := by
  rcases begins_or_clear isName tokens with ⟨⟨kind, place⟩, rest, rfl, hname⟩ | hclear
  · cases kind <;> first
      | exact single hname _
      | cases hname
  · rw [expectName_of_clear hclear]
    exact refuse ⟨_, mem_one (show isName (⟨.name "", .start⟩ : Token).kind = true from rfl)⟩
      ((heads_one isName).averse hclear)

end Decided

/-!
## Readers of lists
-/

section Items

variable {item : Reader α} {I : Language Token} {wanted clash allowed : Token.Kind -> Bool}
  {bound : Nat}

def orComma (clash : Token.Kind -> Bool) (kind : Token.Kind) : Bool :=
  kind == .comma || clash kind

theorem moreItems_fits (hclash : clash .comma = false) :
    Fits (sign .comma * I)∗ (orComma clash) clash := by
  refine (heads_sign .comma).mul.star_fits (test_of_beq hclash) ?_
  intro kind hkind
  rw [orComma, hkind, Bool.or_true]

theorem moreItems_decides (hitem : Decides H item I clash allowed bound)
    (hcomma : allowed .comma = true) (hclash : clash .comma = false) :
    forall count {before tokens : List Token}, tokens.length < bound -> tokens.length < count ->
      Decided H (sign .comma * I)∗ (orComma clash) before tokens
        (moreItems item count tokens) := by
  intro count
  induction count with
  | zero => exact fun _ hcount => absurd hcount (Nat.not_lt_zero _)
  | succ count ih =>
      intro before tokens hbound hcount
      rw [<- one_add_mul_kstar, mul_assoc]
      rcases next_cases .comma tokens with ⟨comma, rest, rfl, hkind⟩ | hclear
      · simp only [List.length_cons] at hbound hcount
        have hwanted : (comma.kind == .comma) = true := beq_iff_eq.mpr hkind
        have hbefore : Behind allowed (before ++ [comma]) :=
          behind_concat before (by rw [hkind, hcomma])
        have hends : Begins (orComma clash) (comma :: rest) :=
          ⟨comma, rest, rfl, by rw [orComma, hwanted, Bool.true_or]⟩
        rw [moreItems, bind_of_ok (accept_cons hkind), if_pos rfl]
        refine (Decided.cons hwanted ?_).choose_right (averse_unit hends)
        refine (hitem hbefore (by omega)).bind (moreItems_fits hclash)
          ⟨[], Language.nil_mem_kstar _⟩ ?_
        intro used behind first _ hrest _
        rw [hrest, List.length_append] at hbound hcount
        exact (ih (by omega) (by omega)).map _
      · rw [moreItems, bind_of_ok (accept_of_clear hclear)]
        exact (Decided.pure []).choose ((heads_sign .comma).mul.averse hclear)

theorem items_decides (hitem : Decides H item I clash allowed bound) (hheads : Heads wanted I)
    (hwanted : wanted .closeParen = false) (hcomma : allowed .comma = true)
    (hclash : clash .comma = false) (hclosing : clash .closeParen = false)
    {before tokens : List Token} {count : Nat} (hbefore : Behind allowed before)
    (hbound : tokens.length < bound) (hcount : tokens.length < count)
    (after : Token.Kind -> Bool) :
    Decided H (listRest I) after before tokens (items item count tokens) := by
  rcases next_cases .closeParen tokens with ⟨closing, rest, rfl, hkind⟩ | hclear
  · have hclear : Clear wanted (closing :: rest) := clear_cons (by rw [hkind, hwanted])
    have hparen : (closing.kind == .closeParen) = true := beq_iff_eq.mpr hkind
    rw [items, bind_of_ok (accept_cons hkind), if_pos rfl]
    exact (Decided.single hparen []).choose (hheads.mul.averse hclear)
  · have hparen : Fits (sign .closeParen) after (orComma clash) :=
      (heads_sign .closeParen).fits (test_of_beq hclosing)
    have hsome : [⟨.closeParen, .start⟩] ∈ sign .closeParen := mem_sign rfl
    rw [items, bind_of_ok (accept_of_clear hclear), if_neg Bool.false_ne_true]
    refine Decided.choose_right ?_ ((heads_sign .closeParen).averse hclear)
    refine (hitem hbefore hbound).bind ((moreItems_fits hclash).mul hparen)
      ⟨_, Language.append_mem_mul (Language.nil_mem_kstar _) hsome⟩ ?_
    intro used behind first _ hrest _
    rw [hrest, List.length_append] at hbound hcount
    refine (moreItems_decides hitem hcomma hclash count (by omega) (by omega)).bind hparen
      ⟨_, hsome⟩ ?_
    intro used' behind' others _ _ _
    exact (Decided.expect .closeParen).map _

end Items

section ManyUntil

variable {test : Reader Bool} {answer : List Token -> Bool} {item : Reader α}
  {I : Language Token} {wanted goesOn clash allowed : Token.Kind -> Bool} {bound : Nat}

theorem manyUntil_decides (htest : Peeks test answer)
    (hanswer : forall tokens, answer tokens = true <-> Clear goesOn tokens)
    (hitem : Decides H item I clash allowed bound) (hheads : Heads wanted I)
    (hends : forall before {used : List Token}, used ∈ I -> Behind allowed (before ++ used))
    (hgoesOn : forall kind, wanted kind = true -> goesOn kind = true)
    (hwanted : forall kind, wanted kind = true -> clash kind = false)
    (hclash : forall kind, clash kind = true -> goesOn kind = true) :
    forall count {before tokens : List Token}, Behind allowed before ->
      tokens.length < bound -> tokens.length < count ->
      Decided H I∗ goesOn before tokens (manyUntil test item count tokens) := by
  intro count
  induction count with
  | zero => exact fun _ _ hcount => absurd hcount (Nat.not_lt_zero _)
  | succ count ih =>
      intro before tokens hbefore hbound hcount
      rw [<- one_add_mul_kstar, manyUntil, bind_of_ok (htest tokens)]
      cases htokens : answer tokens with
      | true =>
          have hclear := (hanswer tokens).mp htokens
          exact (Decided.pure []).choose ((hheads.mono hgoesOn).mul.averse hclear)
      | false =>
          have hbegins : Begins goesOn tokens := by
            rcases begins_or_clear goesOn tokens with hbegins | hclear
            · exact hbegins
            · rw [(hanswer tokens).mpr hclear] at htokens
              cases htokens
          -- what begins with a token that goes on with the row can be no end of it
          refine Decided.choose_right ?_ (averse_unit hbegins)
          refine (hitem hbefore hbound).bind (hheads.star_fits hwanted hclash)
            ⟨[], Language.nil_mem_kstar _⟩ ?_
          intro used rest first _ hrest hused
          have hlength := hheads.length_pos hused
          rw [hrest, List.length_append] at hbound hcount
          exact (ih (hends before hused) (by omega) (by omega)).map _

end ManyUntil

end Grammar
end Lisan
