import Lisan.Proofs.Grammar.Statement
import Lisan.Proofs.Grammar.Phrase

/-!
# Readers and phrases

A reader reads a phrase if what it takes off the front of its tokens is always
that phrase of its result. It accepts a phrase if it takes every such phrase off
the front, whatever comes behind it, as long as what comes behind cannot belong
to the phrase. This module says what single steps of a reader do, and shows both
properties for readers of lists.
-/

namespace Lisan
namespace Grammar

/-!
## Operators of each level
-/

theorem isEquality_iff {kind : Token.Kind} :
    isEquality kind = true <-> kind ∈ [Token.Kind.equal, .notEqual] := by
  cases kind <;> simp [isEquality]

theorem isComparison_iff {kind : Token.Kind} :
    isComparison kind = true <->
      kind ∈ [Token.Kind.greater, .greaterEqual, .less, .lessEqual] := by
  cases kind <;> simp [isComparison]

theorem isAdditive_iff {kind : Token.Kind} :
    isAdditive kind = true <-> kind ∈ [Token.Kind.plus, .minus] := by
  cases kind <;> simp [isAdditive]

theorem isMultiplicative_iff {kind : Token.Kind} :
    isMultiplicative kind = true <-> kind ∈ [Token.Kind.star, .slash] := by
  cases kind <;> simp [isMultiplicative]

theorem isUnary_iff {kind : Token.Kind} :
    isUnary kind = true <-> kind ∈ [Token.Kind.bang, .minus] := by
  cases kind <;> simp [isUnary]

namespace Reader

/-- Whatever the reader takes is a phrase of what it gives. -/
def Reads (reader : Reader α) (Phrase : List Token -> α -> Prop) : Prop :=
  forall ⦃tokens rest : List Token⦄ ⦃a : α⦄,
    reader tokens = .ok a rest -> exists used, tokens = used ++ rest ∧ Phrase used a

/-- The reader takes every phrase that is shorter than the bound, if what follows
is of the given form. -/
def Accepts (reader : Reader α) (Phrase : List Token -> α -> Prop)
    (Follow : List Token -> Prop) (bound : Nat) : Prop :=
  forall ⦃used rest : List Token⦄ ⦃a : α⦄,
    Phrase used a -> used.length < bound -> Follow rest ->
      reader (used ++ rest) = .ok a rest

/-- The next token, if there is one, is of no kind that is wanted. -/
def Clear (wanted : Token.Kind -> Bool) (tokens : List Token) : Prop :=
  forall token, token ∈ tokens.head? -> wanted token.kind = false

theorem clear_nil (wanted : Token.Kind -> Bool) : Clear wanted [] := by
  intro token htoken
  cases htoken

theorem clear_cons {wanted : Token.Kind -> Bool} {token : Token} {rest : List Token}
    (h : wanted token.kind = false) : Clear wanted (token :: rest) := by
  intro other hother
  cases hother
  exact h

theorem clear_mono {wanted fewer : Token.Kind -> Bool} {tokens : List Token}
    (h : Clear wanted tokens)
    (hfewer : forall kind, fewer kind = true -> wanted kind = true) :
    Clear fewer tokens := by
  intro token htoken
  cases hkind : fewer token.kind with
  | false => rfl
  | true => rw [<- h token htoken, hfewer _ hkind]

def Begins (wanted : Token.Kind -> Bool) (tokens : List Token) : Prop :=
  exists token rest, tokens = token :: rest ∧ wanted token.kind = true

theorem begins_append {wanted : Token.Kind -> Bool} {front : List Token}
    (h : Begins wanted front) (back : List Token) : Begins wanted (front ++ back) := by
  rcases h with ⟨token, rest, hfront, hwanted⟩
  exact ⟨token, rest ++ back, by rw [hfront]; rfl, hwanted⟩

theorem begins_mono {wanted more : Token.Kind -> Bool} {tokens : List Token}
    (h : Begins wanted tokens) (hmore : forall kind, wanted kind = true -> more kind = true) :
    Begins more tokens := by
  rcases h with ⟨token, rest, htokens, hwanted⟩
  exact ⟨token, rest, htokens, hmore _ hwanted⟩

theorem clear_of_begins {wanted others : Token.Kind -> Bool} {tokens : List Token}
    (h : Begins wanted tokens)
    (hothers : forall kind, wanted kind = true -> others kind = false) :
    Clear others tokens := by
  rcases h with ⟨token, rest, htokens, hwanted⟩
  rw [htokens]
  exact clear_cons (hothers _ hwanted)

/-!
## Single steps
-/

theorem bind_of_ok {x : Reader α} {f : α -> Reader β} {tokens rest : List Token} {a : α}
    (h : x tokens = .ok a rest) : (x >>= f) tokens = f a rest := by
  simp [bind, EStateM.bind, h]

theorem bind_eq_ok_iff {x : Reader α} {f : α -> Reader β} {tokens rest : List Token}
    {b : β} :
    (x >>= f) tokens = .ok b rest <->
      exists a mid, x tokens = .ok a mid ∧ f a mid = .ok b rest := by
  constructor
  · intro h
    cases hx : x tokens with
    | ok a mid => exact ⟨a, mid, rfl, by rwa [bind_of_ok hx] at h⟩
    | error stop mid => simp [bind, EStateM.bind, hx] at h
  · intro h
    rcases h with ⟨a, mid, hx, hf⟩
    rw [bind_of_ok hx, hf]

theorem pure_eq_ok_iff {tokens rest : List Token} {a b : α} :
    (pure a : Reader α) tokens = .ok b rest <-> a = b ∧ tokens = rest := by
  simp [pure, EStateM.pure]

theorem throw_ne_ok {tokens rest : List Token} {stop : Stop} {a : α} :
    (throw stop : Reader α) tokens ≠ .ok a rest := by
  nofun

theorem refuse_ne_ok {tokens rest : List Token} {a : α} :
    refuse tokens ≠ .ok a rest := by
  cases tokens <;> simp [refuse]

theorem take?_cons {wanted : Token.Kind -> Bool} {token : Token} {rest : List Token}
    (h : wanted token.kind = true) :
    take? wanted (token :: rest) = .ok (some token) rest := by
  simp [take?, h]

theorem take?_of_clear {wanted : Token.Kind -> Bool} {tokens : List Token}
    (h : Clear wanted tokens) : take? wanted tokens = .ok none tokens := by
  cases tokens with
  | nil => rfl
  | cons token rest =>
      simp [take?, h token rfl]

theorem of_take?_eq_some {wanted : Token.Kind -> Bool} {tokens rest : List Token}
    {token : Token} (h : take? wanted tokens = .ok (some token) rest) :
    wanted token.kind = true ∧ tokens = token :: rest := by
  cases tokens with
  | nil => simp [take?] at h
  | cons first others =>
      by_cases hwanted : wanted first.kind = true
      · rw [take?_cons hwanted] at h
        cases h
        exact ⟨hwanted, rfl⟩
      · simp [take?, hwanted] at h

theorem of_take?_eq_none {wanted : Token.Kind -> Bool} {tokens rest : List Token}
    (h : take? wanted tokens = .ok none rest) : rest = tokens := by
  cases tokens with
  | nil =>
      cases h
      rfl
  | cons first others =>
      by_cases hwanted : wanted first.kind = true
      · simp [take?, hwanted] at h
      · simp [take?, hwanted] at h
        exact h.symm

theorem accept_cons {wanted : Token.Kind} {token : Token} {rest : List Token}
    (h : token.kind = wanted) : accept wanted (token :: rest) = .ok true rest := by
  unfold accept
  rw [bind_of_ok (take?_cons (by simp [h]))]
  rfl

theorem accept_of_clear {wanted : Token.Kind} {tokens : List Token}
    (h : Clear (· == wanted) tokens) : accept wanted tokens = .ok false tokens := by
  unfold accept
  rw [bind_of_ok (take?_of_clear h)]
  rfl

theorem of_accept_eq_true {wanted : Token.Kind} {tokens rest : List Token}
    (h : accept wanted tokens = .ok true rest) :
    exists token : Token, token.kind = wanted ∧ tokens = token :: rest := by
  rcases bind_eq_ok_iff.mp h with ⟨taken, mid, htake, hpure⟩
  rcases pure_eq_ok_iff.mp hpure with ⟨hsome, hmid⟩
  cases taken with
  | none => cases hsome
  | some token =>
      rcases of_take?_eq_some htake with ⟨hkind, htokens⟩
      exact ⟨token, by simpa using hkind, by rw [htokens, hmid]⟩

theorem of_accept_eq_false {wanted : Token.Kind} {tokens rest : List Token}
    (h : accept wanted tokens = .ok false rest) : rest = tokens := by
  rcases bind_eq_ok_iff.mp h with ⟨taken, mid, htake, hpure⟩
  rcases pure_eq_ok_iff.mp hpure with ⟨hsome, hmid⟩
  cases taken with
  | none => rw [<- hmid, of_take?_eq_none htake]
  | some token => cases hsome

theorem expect_cons {wanted : Token.Kind} {token : Token} {rest : List Token}
    (h : token.kind = wanted) : expect wanted (token :: rest) = .ok () rest := by
  simp [expect, h]

theorem of_expect_eq_ok {wanted : Token.Kind} {tokens rest : List Token} {u : Unit}
    (h : expect wanted tokens = .ok u rest) :
    exists token : Token, token.kind = wanted ∧ tokens = token :: rest := by
  cases tokens with
  | nil => cases h
  | cons token others =>
      by_cases hkind : token.kind = wanted
      · rw [expect_cons hkind] at h
        cases h
        exact ⟨token, hkind, rfl⟩
      · simp [expect, hkind, refuse] at h

/-!
## Names
-/

theorem expectName_reads : Reads expectName Named := by
  intro tokens rest name h
  unfold expectName at h
  split at h
  · cases h
    exact ⟨_ :: [], rfl, .intro rfl⟩
  · exact absurd h refuse_ne_ok

theorem expectName_cons {token : Token} {name : String} {rest : List Token}
    (h : token.kind = .name name) : expectName (token :: rest) = .ok name rest := by
  rcases token with ⟨kind, place⟩
  change kind = .name name at h
  rw [h]
  rfl

theorem expectName_accepts (bound : Nat) :
    Accepts expectName Named (fun _ => True) bound := by
  intro used rest name hname _ _
  cases hname with
  | intro hkind => exact expectName_cons hkind

/-!
## Items with commas between them
-/

section Items

variable {item : Reader α} {Item : List Token -> α -> Prop}

theorem moreItems_reads (hitem : Reads item Item) :
    forall bound, Reads (moreItems item bound) fun used items =>
      forall {front a}, Item front a -> Separated Item (front ++ used) (a :: items) := by
  intro bound
  induction bound with
  | zero =>
      intro tokens rest items h
      exact absurd h throw_ne_ok
  | succ bound ih =>
      intro tokens rest items h
      rcases bind_eq_ok_iff.mp h with ⟨comma, mid, hcomma, h⟩
      cases comma with
      | false =>
          rcases pure_eq_ok_iff.mp h with ⟨hnil, hmid⟩
          rw [of_accept_eq_false hcomma] at hmid
          refine ⟨[], by simpa using hmid, ?_⟩
          intro front a hfront
          rw [<- hnil, List.append_nil]
          exact .single hfront
      | true =>
          rcases of_accept_eq_true hcomma with ⟨sign, hsign, htokens⟩
          rcases bind_eq_ok_iff.mp h with ⟨first, behind, hfirst, h⟩
          rcases bind_eq_ok_iff.mp h with ⟨others, last, hothers, h⟩
          rcases pure_eq_ok_iff.mp h with ⟨hitems, hlast⟩
          rcases hitem hfirst with ⟨back, hmid, hback⟩
          rcases ih hothers with ⟨used, hbehind, hused⟩
          refine ⟨sign :: (back ++ used), ?_, ?_⟩
          · rw [htokens, hmid, hbehind, hlast]
            simp
          · intro front a hfront
            rw [<- hitems]
            exact .more hfront hsign (hused hback)

theorem items_reads (hitem : Reads item Item) (bound : Nat) :
    Reads (items item bound) fun used items =>
      forall {opening : Token}, opening.kind = .openParen ->
        Listed Item (opening :: used) items := by
  intro tokens rest items h
  rcases bind_eq_ok_iff.mp h with ⟨closed, mid, hclosed, h⟩
  cases closed with
  | true =>
      rcases of_accept_eq_true hclosed with ⟨closing, hclosing, htokens⟩
      rcases pure_eq_ok_iff.mp h with ⟨hnil, hmid⟩
      refine ⟨[closing], by rw [htokens, hmid]; rfl, ?_⟩
      intro opening hopening
      rw [<- hnil]
      exact .none hopening hclosing
  | false =>
      rcases bind_eq_ok_iff.mp h with ⟨first, behind, hfirst, h⟩
      rcases bind_eq_ok_iff.mp h with ⟨others, before, hothers, h⟩
      rcases bind_eq_ok_iff.mp h with ⟨_, last, hclosing, h⟩
      rcases pure_eq_ok_iff.mp h with ⟨hitems, hlast⟩
      rcases of_expect_eq_ok hclosing with ⟨closing, hkind, hbefore⟩
      rcases hitem hfirst with ⟨front, hmid, hfront⟩
      rcases moreItems_reads hitem bound hothers with ⟨used, hbehind, hused⟩
      refine ⟨front ++ used ++ [closing], ?_, ?_⟩
      · rw [<- of_accept_eq_false hclosed, hmid, hbehind, hbefore, hlast]
        simp
      · intro opening hopening
        rw [<- hitems]
        exact .some hopening (hused hfront) hkind

theorem moreItems_of_separated {Follow : List Token -> Prop} {bound : Nat}
    (hitem : Accepts item Item Follow bound)
    (hcomma : forall comma rest, comma.kind = .comma -> Follow (comma :: rest))
    (hclosing : forall closing rest, closing.kind = .closeParen -> Follow (closing :: rest))
    {used : List Token} {xs : List α} (h : Separated Item used xs)
    {closing : Token} (hkind : closing.kind = .closeParen) (rest : List Token) :
    forall count, used.length < bound -> used.length < count ->
      exists first others mid, xs = first :: others ∧
        item (used ++ closing :: rest) = .ok first mid ∧
        moreItems item count mid = .ok others (closing :: rest) := by
  induction h with
  | single hfirst =>
      intro count hbound hcount
      refine ⟨_, [], closing :: rest, rfl, hitem hfirst hbound (hclosing _ _ hkind), ?_⟩
      cases count with
      | zero => exact absurd hcount (Nat.not_lt_zero _)
      | succ count =>
          unfold moreItems
          rw [bind_of_ok (accept_of_clear (clear_cons (by simp [hkind])))]
          rfl
  | @more front back comma first others hfirst hsign _ ih =>
      intro count hbound hcount
      simp only [List.length_append, List.length_cons] at hbound hcount
      cases count with
      | zero => exact absurd hcount (Nat.not_lt_zero _)
      | succ count =>
          rcases ih count (by omega) (by omega) with
            ⟨second, last, mid, hothers, hsecond, hlast⟩
          refine ⟨first, others, comma :: (back ++ closing :: rest), rfl, ?_, ?_⟩
          · have hread := hitem hfirst (by omega) (hcomma comma (back ++ closing :: rest) hsign)
            simpa using hread
          · unfold moreItems
            rw [bind_of_ok (accept_cons hsign), if_pos rfl, bind_of_ok hsecond,
              bind_of_ok hlast, hothers]
            rfl

theorem items_of_listed {Follow : List Token -> Prop} {bound count : Nat}
    (hitem : Accepts item Item Follow bound)
    (hcomma : forall comma rest, comma.kind = .comma -> Follow (comma :: rest))
    (hclosing : forall closing rest, closing.kind = .closeParen -> Follow (closing :: rest))
    (hstart : forall {front a}, Item front a -> forall rest,
      Clear (· == .closeParen) (front ++ rest))
    {used : List Token} {xs : List α} (h : Listed Item used xs)
    (hbound : used.length < bound + 2) (hcount : used.length < count) (rest : List Token) :
    exists opening others, opening.kind = Token.Kind.openParen ∧ used = opening :: others ∧
      items item count (others ++ rest) = .ok xs rest := by
  cases h with
  | none hopening hkind =>
      refine ⟨_, _, hopening, rfl, ?_⟩
      unfold items
      rw [List.singleton_append, bind_of_ok (accept_cons hkind)]
      rfl
  | @some opening closing tokens _ hopening hitems hkind =>
      refine ⟨opening, _, hopening, rfl, ?_⟩
      simp only [List.length_cons, List.length_append, List.length_nil] at hbound hcount
      rcases moreItems_of_separated hitem hcomma hclosing hitems hkind rest count
          (by omega) (by omega) with ⟨first, others, mid, hxs, hfirst, hothers⟩
      have hclear : Clear (· == .closeParen) (tokens ++ closing :: rest) := by
        cases hitems with
        | single hone => exact hstart hone _
        | more hone _ _ =>
            rw [List.append_assoc]
            exact hstart hone _
      unfold items
      rw [List.append_assoc, List.singleton_append, bind_of_ok (accept_of_clear hclear),
        if_neg Bool.false_ne_true, bind_of_ok hfirst, bind_of_ok hothers,
        bind_of_ok (expect_cons hkind), hxs]
      rfl

end Items

/-!
## Items up to a test
-/

def Peeks (test : Reader Bool) (answer : List Token -> Bool) : Prop :=
  forall tokens, test tokens = .ok (answer tokens) tokens

theorem atEnd_peeks : Peeks atEnd List.isEmpty := by
  intro tokens
  rfl

theorem blockEnds_peeks :
    Peeks blockEnds fun tokens =>
      tokens.head?.any (·.kind == .closeBrace) || tokens.isEmpty := by
  intro tokens
  rfl

section ManyUntil

variable {test : Reader Bool} {answer : List Token -> Bool}
variable {item : Reader α} {Item : List Token -> α -> Prop}

theorem manyUntil_reads (htest : Peeks test answer) (hitem : Reads item Item) :
    forall bound, Reads (manyUntil test item bound) (Repeated Item) := by
  intro bound
  induction bound with
  | zero =>
      intro tokens rest xs h
      exact absurd h throw_ne_ok
  | succ bound ih =>
      intro tokens rest xs h
      unfold manyUntil at h
      rw [bind_of_ok (htest tokens)] at h
      cases hanswer : answer tokens with
      | true =>
          rw [hanswer] at h
          rcases pure_eq_ok_iff.mp h with ⟨hnil, hrest⟩
          refine ⟨[], hrest, ?_⟩
          rw [<- hnil]
          exact .nil
      | false =>
          rw [hanswer] at h
          rcases bind_eq_ok_iff.mp h with ⟨first, mid, hfirst, h⟩
          rcases bind_eq_ok_iff.mp h with ⟨others, last, hothers, h⟩
          rcases pure_eq_ok_iff.mp h with ⟨hxs, hlast⟩
          rcases hitem hfirst with ⟨front, htokens, hfront⟩
          rcases ih hothers with ⟨back, hmid, hback⟩
          refine ⟨front ++ back, ?_, ?_⟩
          · rw [htokens, hmid, hlast, List.append_assoc]
          · rw [<- hxs]
            exact .cons hfront hback

theorem answer_of_manyUntil (htest : Peeks test answer) {bound : Nat}
    {tokens rest : List Token} {xs : List α}
    (h : manyUntil test item bound tokens = .ok xs rest) : answer rest = true := by
  induction bound generalizing tokens xs with
  | zero => exact absurd h throw_ne_ok
  | succ bound ih =>
      unfold manyUntil at h
      rw [bind_of_ok (htest tokens)] at h
      cases hanswer : answer tokens with
      | true =>
          rw [hanswer] at h
          have hrest := (pure_eq_ok_iff.mp h).2
          rw [<- hrest, hanswer]
      | false =>
          rw [hanswer] at h
          rcases bind_eq_ok_iff.mp h with ⟨first, mid, _, h⟩
          rcases bind_eq_ok_iff.mp h with ⟨others, last, hothers, h⟩
          rw [(pure_eq_ok_iff.mp h).2] at hothers
          exact ih hothers

theorem manyUntil_of_repeated {Follow : List Token -> Prop} {bound : Nat}
    (htest : Peeks test answer) (hitem : Accepts item Item Follow bound)
    (hstart : forall {front a}, Item front a -> forall rest,
      0 < front.length ∧ answer (front ++ rest) = false ∧ Follow (front ++ rest))
    {used rest : List Token} {xs : List α} (h : Repeated Item used xs)
    (hanswer : answer rest = true) (hfollow : Follow rest) :
    forall count, used.length < bound -> used.length < count ->
      manyUntil test item count (used ++ rest) = .ok xs rest := by
  induction h with
  | nil =>
      intro count _ hcount
      cases count with
      | zero => exact absurd hcount (Nat.not_lt_zero _)
      | succ count =>
          unfold manyUntil
          rw [List.nil_append, bind_of_ok (htest rest), hanswer]
          rfl
  | @cons front back first others hfirst hothers ih =>
      intro count hbound hcount
      rcases hstart hfirst (back ++ rest) with ⟨hlength, hgoes, _⟩
      have hbehind : Follow (back ++ rest) := by
        cases hothers with
        | nil => exact hfollow
        | cons hnext _ =>
            rw [List.append_assoc]
            exact (hstart hnext _).2.2
      simp only [List.length_append] at hbound hcount
      cases count with
      | zero => exact absurd hcount (Nat.not_lt_zero _)
      | succ count =>
          unfold manyUntil
          rw [List.append_assoc, bind_of_ok (htest _), hgoes, if_neg Bool.false_ne_true,
            bind_of_ok (hitem hfirst (by omega) hbehind),
            bind_of_ok (ih count (by omega) (by omega))]
          rfl

end ManyUntil

end Reader
end Grammar
end Lisan
