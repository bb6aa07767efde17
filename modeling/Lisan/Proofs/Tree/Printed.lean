import Lisan.Proofs.Operator.Rules
import Lisan.Proofs.Tree.Hand
import Lisan.Proofs.Tree.View
import Lisan.Tree.Printer

/-!
# Printed trees

A legible tree is known by its printed form, but for the places of its operators. What is
printed of its parts ends where the next character says so, whatever the text of a string
looks like; so one tree is the front of another only if the two look alike.
-/

namespace Lisan

variable {H : Type}

/-!
## Expressions
-/

namespace Expr

inductive Compact : Expr H -> Prop where
  | var (name : String) : Compact (.var name)
  | literal (value : Value H) : Compact (.literal value)
  | group (inner : Expr H) : Compact (.group inner)

/-- What is printed as an expression, a sign, and an expression, in parentheses. An
assignment is printed like an operation on its variable. -/
inductive Infix : Expr H -> Expr H -> Token.Kind -> Expr H -> Prop where
  | assign (target : String) (value : Expr H) :
      Infix (.assign target value) (.var target) .assign value
  | binary {operator : Token} (left right : Expr H) :
      operator.kind ∈ Operator.binarySigns ->
      Infix (.binary left operator right) left operator.kind right

/-- Expressions whose names are words, whose integers are not negative, and whose texts
have no quotes in them. -/
inductive Legible : Expr H -> Prop where
  | var {name : String} : Token.Worded name.toList -> Legible (.var name)
  | int {n : Int} : 0 ≤ n -> Legible (.literal (.int n))
  | str {text : String} : '"' ∉ text.toList -> Legible (.literal (.str text))
  | group {inner : Expr H} : Legible inner -> Legible (.group inner)
  | call {callee : Expr H} {args : List (Expr H)} :
      Compact callee -> Legible callee -> (forall arg, arg ∈ args -> Legible arg) ->
      Legible (.call callee args)
  | unary {operator : Token} {operand : Expr H} :
      operator.kind ∈ Operator.unarySigns -> Legible operand ->
      Legible (.unary operator operand)
  | operation {e left right : Expr H} {kind : Token.Kind} :
      Infix e left kind right -> Legible left -> Legible right -> Legible e

def hand : Hand (Expr H) where
  legible := Legible
  written e := e.print.toList
  shown := Expr.through .placeless
  stops := Detached

def calleeHand : Hand (Expr H) where
  legible e := e.Compact ∧ e.Legible
  written e := e.print.toList
  shown := Expr.through .placeless
  stops := Apart

/-!
### Printed expressions
-/

theorem toList_print_str (text : String) (rest : List Char) :
    (Expr.literal (.str text) : Expr H).print.toList ++ rest =
      '"' :: (text.toList ++ '"' :: rest) := by
  have hprint : (Expr.literal (.str text) : Expr H).print = "\"" ++ text ++ "\"" := rfl
  rw [hprint]
  simp

theorem toList_print_group (inner : Expr H) (rest : List Char) :
    (Expr.group inner).print.toList ++ rest =
      '[' :: (inner.print.toList ++ ']' :: rest) := by
  simp [print]

theorem toList_print_call (callee : Expr H) (args : List (Expr H)) (rest : List Char) :
    (Expr.call callee args).print.toList ++ rest =
      callee.print.toList ++ '(' :: (hand.list args ++ rest) := by
  have hlist : (", ".intercalate (args.map print)).toList ++ [')'] = hand.list args :=
    hand.toList_list (fun _ => rfl) args
  rw [<- hlist, <- printAll_eq_map]
  simp [print]

theorem toList_print_unary (operator : Token) (operand : Expr H) (rest : List Char) :
    (Expr.unary operator operand).print.toList ++ rest =
      '(' :: (operator.kind.text.toList ++ (operand.print.toList ++ ')' :: rest)) := by
  simp [print]

theorem Infix.toList_print {e left right : Expr H} {kind : Token.Kind}
    (h : Infix e left kind right) (rest : List Char) :
    e.print.toList ++ rest =
      '(' :: (left.print.toList ++
        ' ' :: (kind.text.toList ++ ' ' :: (right.print.toList ++ ')' :: rest))) := by
  cases h with
  | assign => simp [print, Token.Kind.text]
  | binary => simp [print]

/-!
### How expressions begin
-/

def opening : Expr H -> Opening
  | .var _ => .letter
  | .literal (.int _) => .digit
  | .literal _ => .sign '"'
  | .group _ => .sign '['
  | .call callee _ => callee.opening
  | _ => .sign '('

def openings : List Opening :=
  [.letter, .digit, .sign '"', .sign '[', .sign '(']

theorem opening_mem (e : Expr H) : e.opening ∈ openings := by
  fun_induction opening e with
  | case1 => decide
  | case2 => decide
  | case3 => decide
  | case4 => decide
  | case5 callee args ih => exact ih
  | case6 => decide

theorem opening_ne (e : Expr H) {c : Char} (hc : .sign c ∉ openings) : e.opening ≠ .sign c := by
  intro hopening
  rw [<- hopening] at hc
  exact hc e.opening_mem

theorem Compact.opening_ne {e : Expr H} (h : e.Compact) : e.opening ≠ .sign '(' := by
  intro hopening
  cases h with
  | var => cases hopening
  | literal value => cases value <;> cases hopening
  | group => cases hopening

theorem Infix.opening_eq {e left right : Expr H} {kind : Token.Kind}
    (h : Infix e left kind right) : e.opening = .sign '(' := by
  cases h with
  | assign => rfl
  | binary => rfl

theorem Legible.opens {e : Expr H} (h : e.Legible) : Opens e.print.toList e.opening := by
  induction h with
  | var hname => exact opens_word hname
  | int hn => exact opens_int hn
  | str => exact opens_of_eq_cons (toList_print_str _ [])
  | group => exact opens_of_eq_cons (toList_print_group _ [])
  | @call callee args _ _ _ ihcallee _ =>
      have hopens := ihcallee.append ('(' :: (hand.list args ++ []))
      rw [<- toList_print_call, List.append_nil] at hopens
      exact hopens
  | unary => exact opens_of_eq_cons (toList_print_unary _ _ [])
  | operation hform =>
      rw [hform.opening_eq]
      exact opens_of_eq_cons (hform.toList_print [])

theorem Legible.opening_eq {e e' : Expr H} (h : e.Legible) (h' : e'.Legible)
    {rest rest' : List Char} (heq : e.print.toList ++ rest = e'.print.toList ++ rest') :
    e.opening = e'.opening :=
  h.opens.eq_of_append h'.opens heq

theorem Legible.ne_cons {e : Expr H} (h : e.Legible) {c : Char}
    (hc : Opening.ofChar c ∉ openings) {rest rest' : List Char} :
    e.print.toList ++ rest ≠ c :: rest' := by
  intro heq
  have hopens : Opens [c] (Opening.ofChar c) := rfl
  rw [<- h.opens.eq_of_append hopens heq] at hc
  exact hc e.opening_mem

/-!
### Expressions are told apart
-/

theorem parts : (hand : Hand (Expr H)).Parts [',', ' '] [')'] where
  separator_stops rest := detached_cons (by decide) _
  closing_stops rest := detached_cons (by decide) _
  apart _ heq := by cases heq

inductive Primary : Expr H -> Prop where
  | var {name : String} : Token.Worded name.toList -> Primary (.var name)
  | int {n : Int} : 0 ≤ n -> Primary (.literal (.int n))
  | str {text : String} : '"' ∉ text.toList -> Primary (.literal (.str text))
  | group {inner : Expr H} : Legible inner -> Primary (.group inner)

theorem Compact.primary {e : Expr H} (hcompact : e.Compact) (h : e.Legible) : e.Primary := by
  cases h with
  | var hname => exact .var hname
  | int hn => exact .int hn
  | str htext => exact .str htext
  | group hinner => exact .group hinner
  | call => cases hcompact
  | unary => cases hcompact
  | operation hform =>
      cases hform with
      | assign => cases hcompact
      | binary => cases hcompact

theorem Compact.tells {e : Expr H} (hcompact : e.Compact) (hlegible : e.Legible)
    (hgroup : forall inner, e = .group inner -> hand.Tells inner) : calleeHand.Tells e := by
  intro other rest rest' hother hrest hrest' heq
  have hopening := hlegible.opening_eq hother.right heq
  have hprimary := hother.left.primary hother.right
  cases hcompact.primary hlegible with
  | var hname =>
      cases hprimary with
      | var hname' =>
          have hparts := nameHand_tells hname hname' hrest hrest' heq
          constructor
          · exact congrArg Expr.var hparts.left
          · exact hparts.right
      | _ => cases hopening
  | int hn =>
      cases hprimary with
      | int hn' =>
          have hparts := int_tells hn hn' hrest hrest' heq
          constructor
          · rw [hparts.left]
          · exact hparts.right
      | _ => cases hopening
  | str htext =>
      cases hprimary with
      | str htext' =>
          simp only [calleeHand, toList_print_str] at heq
          have hparts := str_tells htext htext' (List.tail_eq_of_cons_eq heq)
          constructor
          · rw [hparts.left]
          · exact hparts.right
      | _ => cases hopening
  | @group inner hinner =>
      cases hprimary with
      | group hinner' =>
          simp only [calleeHand, toList_print_group] at heq
          have hparts := hgroup inner rfl hinner' (detached_cons (by decide) _)
            (detached_cons (by decide) _) (List.tail_eq_of_cons_eq heq)
          constructor
          · exact congrArg Expr.group hparts.left
          · exact List.tail_eq_of_cons_eq hparts.right
      | _ => cases hopening

inductive Form : Expr H -> Prop where
  | compact {e : Expr H} : Compact e -> Form e
  | call {callee : Expr H} {args : List (Expr H)} :
      Compact callee -> Legible callee -> (forall arg, arg ∈ args -> Legible arg) ->
      Form (.call callee args)
  | unary {operator : Token} {operand : Expr H} :
      operator.kind ∈ Operator.unarySigns -> Legible operand -> Form (.unary operator operand)
  | operation {e left right : Expr H} {kind : Token.Kind} :
      Infix e left kind right -> Legible left -> Legible right -> Form e

theorem Legible.form {e : Expr H} (h : e.Legible) : e.Form := by
  cases h with
  | var => exact .compact (.var _)
  | int => exact .compact (.literal _)
  | str => exact .compact (.literal _)
  | group => exact .compact (.group _)
  | call hcompact hcallee hargs => exact .call hcompact hcallee hargs
  | unary hkind hoperand => exact .unary hkind hoperand
  | operation hform hleft hright => exact .operation hform hleft hright

theorem tells_of_compact {e : Expr H} (hcompact : e.Compact) (hlegible : e.Legible)
    (h : calleeHand.Tells e) : hand.Tells e := by
  intro other rest rest' hother hrest hrest' heq
  have hopening := hlegible.opening_eq hother heq
  cases hother.form with
  | compact hcompact' => exact h ⟨hcompact', hother⟩ hrest.left hrest'.left heq
  | call hcompact' hcallee _ =>
      -- behind the one, the arguments of the other would have to stand
      simp only [hand, toList_print_call] at heq
      have hparts := h ⟨hcompact', hcallee⟩ hrest.left (apart_parenthesis _) heq
      rw [hparts.right] at hrest
      exact absurd rfl hrest.right
  | unary => exact absurd hopening hcompact.opening_ne
  | operation hform => exact absurd (hopening.trans hform.opening_eq) hcompact.opening_ne

theorem tells_call {callee : Expr H} {args : List (Expr H)} (hcompact : callee.Compact)
    (hlegible : callee.Legible) (hcallee : calleeHand.Tells callee)
    (hargs : forall arg, arg ∈ args -> arg.Legible ∧ hand.Tells arg) :
    hand.Tells (.call callee args) := by
  intro other rest rest' hother hrest hrest' heq
  have hopening := (Legible.call hcompact hlegible fun arg harg => (hargs arg harg).left).opening_eq
    hother heq
  simp only [hand, toList_print_call] at heq
  cases hother.form with
  | compact hcompact' =>
      have hparts := hcallee ⟨hcompact', hother⟩ (apart_parenthesis _) hrest'.left heq
      rw [<- hparts.right] at hrest'
      exact absurd rfl hrest'.right
  | call hcompact' hcallee' hargs' =>
      rw [toList_print_call] at heq
      have hparts := hcallee ⟨hcompact', hcallee'⟩ (apart_parenthesis _) (apart_parenthesis _) heq
      have hlist := parts.list_tells (fun harg => harg.ne_cons (by decide)) hargs hargs'
        (List.tail_eq_of_cons_eq hparts.right)
      constructor
      · show Expr.call _ _ = Expr.call _ _
        rw [allThrough_eq_map, allThrough_eq_map]
        exact congr (congrArg Expr.call hparts.left) hlist.left
      · exact hlist.right
  | unary => exact absurd hopening hcompact.opening_ne
  | operation hform => exact absurd (hopening.trans hform.opening_eq) hcompact.opening_ne

theorem exists_unarySign {kind : Token.Kind} (h : kind ∈ Operator.unarySigns) :
    exists c, kind.text.toList = [c] ∧ Opening.ofChar c ∉ openings := by
  simp only [Operator.unarySigns, List.mem_cons, List.not_mem_nil, or_false] at h
  rcases h with hkind | hkind
  · exact ⟨'!', hkind ▸ rfl, by decide⟩
  · exact ⟨'-', hkind ▸ rfl, by decide⟩

theorem unarySign_tells {kind kind' : Token.Kind} (h : kind ∈ Operator.unarySigns)
    (h' : kind' ∈ Operator.unarySigns) {rest rest' : List Char}
    (heq : kind.text.toList ++ rest = kind'.text.toList ++ rest') :
    kind = kind' ∧ rest = rest' := by
  have htable : forall kind, kind ∈ Operator.unarySigns ->
      forall kind', kind' ∈ Operator.unarySigns -> kind.text = kind'.text -> kind = kind' := by
    decide
  rcases exists_unarySign h with ⟨c, hchars, _⟩
  rcases exists_unarySign h' with ⟨c', hchars', _⟩
  have hlength : kind.text.toList.length = kind'.text.toList.length := by
    rw [hchars, hchars']
    rfl
  have hparts := List.append_inj heq hlength
  exact ⟨htable kind h kind' h' (String.toList_inj.mp hparts.left), hparts.right⟩

theorem Legible.ne_unarySign {e : Expr H} (h : e.Legible) {kind : Token.Kind}
    (hkind : kind ∈ Operator.unarySigns) {rest rest' : List Char} :
    e.print.toList ++ rest ≠ kind.text.toList ++ rest' := by
  rcases exists_unarySign hkind with ⟨c, hchars, hc⟩
  rw [hchars]
  exact h.ne_cons hc

theorem Infix.sign_tells {e left right e' left' right' : Expr H} {kind kind' : Token.Kind}
    (h : Infix e left kind right) (h' : Infix e' left' kind' right') {rest rest' : List Char}
    (heq : kind.text.toList ++ ' ' :: rest = kind'.text.toList ++ ' ' :: rest') :
    kind = kind' ∧ rest = rest' := by
  have hsign : forall {e left right : Expr H} {kind : Token.Kind},
      Infix e left kind right -> kind ∈ .assign :: Operator.binarySigns := by
    intro e left right kind h
    cases h with
    | assign => exact List.mem_cons_self
    | binary _ _ hkind => exact List.mem_cons_of_mem _ hkind
  have hblank : forall kind, kind ∈ Token.Kind.assign :: Operator.binarySigns ->
      ' ' ∉ kind.text.toList := by
    decide
  have htable : forall kind, kind ∈ Token.Kind.assign :: Operator.binarySigns ->
      forall kind', kind' ∈ Token.Kind.assign :: Operator.binarySigns ->
        kind.text = kind'.text -> kind = kind' := by
    decide
  have hparts := append_cons_inj (hblank kind (hsign h)) (hblank kind' (hsign h')) heq
  constructor
  · exact htable kind (hsign h) kind' (hsign h') (String.toList_inj.mp hparts.left)
  · exact hparts.right

theorem Infix.through_eq {e left right e' left' right' : Expr H} {kind kind' : Token.Kind}
    (h : Infix e left kind right) (h' : Infix e' left' kind' right')
    (hleft : left.through .placeless = left'.through .placeless) (hkind : kind = kind')
    (hright : right.through .placeless = right'.through .placeless) :
    e.through .placeless = e'.through .placeless := by
  have hassign : Token.Kind.assign ∉ Operator.binarySigns := by decide
  cases h with
  | assign target value =>
      cases h' with
      | assign target' value' =>
          cases hleft
          exact congrArg (Expr.assign target) hright
      | binary _ _ hkind' => exact absurd (hkind ▸ hkind') hassign
  | binary left right hmem =>
      cases h' with
      | assign target' value' => exact absurd (hkind ▸ hmem) hassign
      | binary left' right' hmem' =>
          show Expr.binary _ ⟨_, _⟩ _ = Expr.binary _ ⟨_, _⟩ _
          rw [hleft, hkind, hright]

theorem tells_unary {operator : Token} {operand : Expr H}
    (hkind : operator.kind ∈ Operator.unarySigns) (hlegible : operand.Legible)
    (hoperand : hand.Tells operand) : hand.Tells (.unary operator operand) := by
  intro other rest rest' hother hrest hrest' heq
  have hopening := (Legible.unary hkind hlegible).opening_eq hother heq
  simp only [hand, toList_print_unary] at heq
  cases hother.form with
  | compact hcompact => exact absurd hopening.symm hcompact.opening_ne
  | call hcompact => exact absurd hopening.symm hcompact.opening_ne
  | unary hkind' hoperand' =>
      rw [toList_print_unary] at heq
      have hsign := unarySign_tells hkind hkind' (List.tail_eq_of_cons_eq heq)
      have hparts := hoperand hoperand' (detached_cons (by decide) _) (detached_cons (by decide) _)
        hsign.right
      constructor
      · show Expr.unary ⟨_, _⟩ _ = Expr.unary ⟨_, _⟩ _
        rw [hsign.left]
        exact congrArg _ hparts.left
      · exact List.tail_eq_of_cons_eq hparts.right
  | operation hform hleft _ =>
      rw [hform.toList_print] at heq
      exact absurd (List.tail_eq_of_cons_eq heq).symm (hleft.ne_unarySign hkind)

theorem tells_operation {e left right : Expr H} {kind : Token.Kind}
    (hform : Infix e left kind right) (hlegible : left.Legible) (hlegible' : right.Legible)
    (hleft : hand.Tells left) (hright : hand.Tells right) : hand.Tells e := by
  intro other rest rest' hother hrest hrest' heq
  have hopening := (Legible.operation hform hlegible hlegible').opening_eq hother heq
  rw [hform.opening_eq] at hopening
  simp only [hand, hform.toList_print] at heq
  cases hother.form with
  | compact hcompact => exact absurd hopening.symm hcompact.opening_ne
  | call hcompact => exact absurd hopening.symm hcompact.opening_ne
  | unary hkind' _ =>
      rw [toList_print_unary] at heq
      exact absurd (List.tail_eq_of_cons_eq heq) (hlegible.ne_unarySign hkind')
  | operation hform' hleft' hright' =>
      rw [hform'.toList_print] at heq
      have hfirst := hleft hleft' (detached_cons (by decide) _) (detached_cons (by decide) _)
        (List.tail_eq_of_cons_eq heq)
      have hsign := hform.sign_tells hform' (List.tail_eq_of_cons_eq hfirst.right)
      have hsecond := hright hright' (detached_cons (by decide) _) (detached_cons (by decide) _)
        hsign.right
      constructor
      · exact hform.through_eq hform' hfirst.left hsign.left hsecond.left
      · exact List.tail_eq_of_cons_eq hsecond.right

theorem Compact.tells_everywhere {e : Expr H} (hcompact : e.Compact) (hlegible : e.Legible)
    (hgroup : forall inner, e = .group inner -> hand.Tells inner) :
    (e.Compact -> calleeHand.Tells e) ∧ hand.Tells e := by
  have hcallee := hcompact.tells hlegible hgroup
  exact ⟨fun _ => hcallee, tells_of_compact hcompact hlegible hcallee⟩

theorem Legible.tells_everywhere {e : Expr H} (h : e.Legible) :
    (e.Compact -> calleeHand.Tells e) ∧ hand.Tells e := by
  -- both at once: an operand is told in whole, and a callee as one
  induction h with
  | var hname =>
      apply (Compact.var _).tells_everywhere (.var hname)
      intro inner heq
      cases heq
  | int hn =>
      apply (Compact.literal _).tells_everywhere (.int hn)
      intro inner heq
      cases heq
  | str htext =>
      apply (Compact.literal _).tells_everywhere (.str htext)
      intro inner heq
      cases heq
  | group hinner ih =>
      apply (Compact.group _).tells_everywhere (.group hinner)
      intro inner heq
      cases heq
      exact ih.right
  | call hcompact hcallee hargs ihcallee ihargs =>
      constructor
      · intro hcall
        cases hcall
      · apply tells_call hcompact hcallee (ihcallee.left hcompact)
        intro arg harg
        exact ⟨hargs arg harg, (ihargs arg harg).right⟩
  | unary hkind hoperand ih =>
      constructor
      · intro hunary
        cases hunary
      · exact tells_unary hkind hoperand ih.right
  | operation hform hleft hright ihleft ihright =>
      constructor
      · intro hcompact
        exact absurd hform.opening_eq hcompact.opening_ne
      · exact tells_operation hform hleft hright ihleft.right ihright.right

theorem Legible.tells {e : Expr H} (h : e.Legible) : hand.Tells e :=
  h.tells_everywhere.right

end Expr

/-!
## Statements
-/

namespace Stmt

inductive Legible : Stmt H -> Prop where
  | branch {condition : Expr H} {onTrue onFalse : Stmt H} :
      condition.Legible -> Legible onTrue -> Legible onFalse ->
      Legible (.branch condition onTrue onFalse)
  | loop {condition : Expr H} {body : Stmt H} :
      condition.Legible -> Legible body -> Legible (.loop condition body)
  | expr {value : Expr H} : value.Legible -> Legible (.expr value)
  | block {body : List (Stmt H)} : (forall s, s ∈ body -> Legible s) -> Legible (.block body)
  | define {name : String} {params : List String} {body : Stmt H} :
      Token.Worded name.toList -> (forall param, param ∈ params -> Token.Worded param.toList) ->
      Legible body -> Legible (.define name params body)

def hand : Hand (Stmt H) where
  legible := Legible
  written s := s.print.toList
  shown := Stmt.through .placeless
  stops _ := True

/-!
### Printed statements
-/

theorem toList_print_branch (condition : Expr H) (onTrue onFalse : Stmt H) (rest : List Char) :
    (Stmt.branch condition onTrue onFalse).print.toList ++ rest =
      "if ".toList ++ (condition.print.toList ++ ' ' :: (onTrue.print.toList ++
        (" else ".toList ++ (onFalse.print.toList ++ rest)))) := by
  simp [print]

theorem toList_print_loop (condition : Expr H) (body : Stmt H) (rest : List Char) :
    (Stmt.loop condition body).print.toList ++ rest =
      "while ".toList ++ (condition.print.toList ++ ' ' :: (body.print.toList ++ rest)) := by
  simp [print]

theorem toList_print_expr (value : Expr H) (rest : List Char) :
    (Stmt.expr value).print.toList ++ rest = value.print.toList ++ '.' :: rest := by
  simp [print]

theorem toList_print_empty (rest : List Char) :
    (Stmt.block [] : Stmt H).print.toList ++ rest = '\x7b' :: '\x7d' :: rest := by
  simp [print]

theorem toList_print_block (first : Stmt H) (more : List (Stmt H)) (rest : List Char) :
    (Stmt.block (first :: more)).print.toList ++ rest =
      '\x7b' :: (hand.row [' '] [' ', '\x7d'] (first :: more) ++ rest) := by
  rw [print, printAll_eq_map, String.toList_append, String.toList_append,
    toList_intercalate_cons, List.flatMap_map]
  simp [Hand.row, hand]

theorem toList_print_define (name : String) (params : List String) (body : Stmt H)
    (rest : List Char) :
    (Stmt.define name params body).print.toList ++ rest =
      "func ".toList ++ (name.toList ++ '(' :: (nameHand.list params ++
        ' ' :: (body.print.toList ++ rest))) := by
  have hlist : (", ".intercalate (params.map id)).toList ++ [')'] = nameHand.list params :=
    nameHand.toList_list (fun _ => rfl) params
  rw [<- hlist, List.map_id]
  simp [print]

/-!
### How statements begin
-/

def opening : Stmt H -> Opening
  | .branch _ _ _ => .sign 'i'
  | .loop _ _ => .sign 'w'
  | .expr value => value.opening
  | .block _ => .sign '\x7b'
  | .define _ _ _ => .sign 'f'

theorem Legible.opens {s : Stmt H} (h : s.Legible) : Opens s.print.toList s.opening := by
  cases h with
  | branch => exact opens_of_eq_cons (toList_print_branch _ _ _ [])
  | loop => exact opens_of_eq_cons (toList_print_loop _ _ [])
  | @expr value hvalue =>
      have hopens := hvalue.opens.append ['.']
      rw [<- toList_print_expr, List.append_nil] at hopens
      exact hopens
  | @block body _ =>
      cases body with
      | nil => exact opens_of_eq_cons (toList_print_empty [])
      | cons first more => exact opens_of_eq_cons (toList_print_block _ _ [])
  | define => exact opens_of_eq_cons (toList_print_define _ _ _ [])

theorem Legible.opening_eq {s s' : Stmt H} (h : s.Legible) (h' : s'.Legible)
    {rest rest' : List Char} (heq : s.print.toList ++ rest = s'.print.toList ++ rest') :
    s.opening = s'.opening :=
  h.opens.eq_of_append h'.opens heq

/-!
### Statements are told apart
-/

theorem Legible.ne_closing {s : Stmt H} (h : s.Legible) {rest rest' : List Char} :
    s.print.toList ++ rest ≠ '\x7d' :: rest' := by
  intro heq
  have hopens : Opens ['\x7d'] (.sign '\x7d') := rfl
  have hopening := h.opens.eq_of_append hopens heq
  cases h with
  | expr => exact Expr.opening_ne _ (by decide) hopening
  | _ => cases hopening

theorem parts : (hand : Hand (Stmt H)).Parts [' '] [' ', '\x7d'] where
  separator_stops _ := trivial
  closing_stops _ := trivial
  apart hlegible heq := hlegible.ne_closing (List.tail_eq_of_cons_eq heq)

theorem tells_branch {condition : Expr H} {onTrue onFalse : Stmt H}
    (hlegible : (Stmt.branch condition onTrue onFalse).Legible)
    (hcondition : Expr.hand.Tells condition) (honTrue : hand.Tells onTrue)
    (honFalse : hand.Tells onFalse) : hand.Tells (.branch condition onTrue onFalse) := by
  intro other rest rest' hother hrest hrest' heq
  have hopening := hlegible.opening_eq hother heq
  cases hother with
  | branch hcondition' honTrue' honFalse' =>
      simp only [hand, toList_print_branch] at heq
      have hfirst := hcondition hcondition' (detached_cons (by decide) _) (detached_cons (by decide) _)
        (List.append_cancel_left heq)
      have hsecond := honTrue honTrue' trivial trivial (List.tail_eq_of_cons_eq hfirst.right)
      have hthird := honFalse honFalse' trivial trivial (List.append_cancel_left hsecond.right)
      constructor
      · show Stmt.branch _ _ _ = Stmt.branch _ _ _
        exact congr (congr (congrArg Stmt.branch hfirst.left) hsecond.left) hthird.left
      · exact hthird.right
  | expr => exact absurd hopening.symm (Expr.opening_ne _ (by decide))
  | _ => cases hopening

theorem tells_loop {condition : Expr H} {body : Stmt H}
    (hlegible : (Stmt.loop condition body).Legible)
    (hcondition : Expr.hand.Tells condition) (hbody : hand.Tells body) :
    hand.Tells (.loop condition body) := by
  intro other rest rest' hother hrest hrest' heq
  have hopening := hlegible.opening_eq hother heq
  cases hother with
  | loop hcondition' hbody' =>
      simp only [hand, toList_print_loop] at heq
      have hfirst := hcondition hcondition' (detached_cons (by decide) _) (detached_cons (by decide) _)
        (List.append_cancel_left heq)
      have hsecond := hbody hbody' trivial trivial (List.tail_eq_of_cons_eq hfirst.right)
      constructor
      · show Stmt.loop _ _ = Stmt.loop _ _
        exact congr (congrArg Stmt.loop hfirst.left) hsecond.left
      · exact hsecond.right
  | expr => exact absurd hopening.symm (Expr.opening_ne _ (by decide))
  | _ => cases hopening

theorem tells_expr {value : Expr H} (hlegible : value.Legible) :
    hand.Tells (.expr value) := by
  intro other rest rest' hother hrest hrest' heq
  have hopening := (Legible.expr hlegible).opening_eq hother heq
  cases hother with
  | expr hvalue' =>
      simp only [hand, toList_print_expr] at heq
      have hparts := hlegible.tells hvalue' (detached_cons (by decide) _) (detached_cons (by decide) _) heq
      constructor
      · exact congrArg Stmt.expr hparts.left
      · exact List.tail_eq_of_cons_eq hparts.right
  | _ => exact absurd hopening (Expr.opening_ne _ (by decide))

theorem tells_block {body : List (Stmt H)}
    (hbody : forall s, s ∈ body -> s.Legible ∧ hand.Tells s) : hand.Tells (.block body) := by
  intro other rest rest' hother hrest hrest' heq
  have hlegible : (Stmt.block body).Legible := .block fun s hs => (hbody s hs).left
  have hopening := hlegible.opening_eq hother heq
  cases hother with
  | @block body' hbody' =>
      simp only [hand] at heq
      cases body with
      | nil =>
          cases body' with
          | nil =>
              rw [toList_print_empty, toList_print_empty] at heq
              exact ⟨rfl, List.tail_eq_of_cons_eq (List.tail_eq_of_cons_eq heq)⟩
          | cons first' more' =>
              -- a blank stands behind the brace unless the block is empty
              rw [toList_print_empty, toList_print_block] at heq
              cases heq
      | cons first more =>
          cases body' with
          | nil =>
              rw [toList_print_empty, toList_print_block] at heq
              cases heq
          | cons first' more' =>
              rw [toList_print_block, toList_print_block] at heq
              have hparts := parts.row_tells hbody hbody' (List.tail_eq_of_cons_eq heq)
              constructor
              · show Stmt.block _ = Stmt.block _
                rw [allThrough_eq_map, allThrough_eq_map]
                exact congrArg Stmt.block hparts.left
              · exact hparts.right
  | expr => exact absurd hopening.symm (Expr.opening_ne _ (by decide))
  | _ => cases hopening

theorem tells_define {name : String} {params : List String} {body : Stmt H}
    (hlegible : (Stmt.define name params body).Legible) (hbody : hand.Tells body) :
    hand.Tells (.define name params body) := by
  intro other rest rest' hother hrest hrest' heq
  have hopening := hlegible.opening_eq hother heq
  cases hother with
  | define hname' hparams' hbody' =>
      cases hlegible with
      | define hname hparams _ =>
          simp only [hand, toList_print_define] at heq
          have hfirst := nameHand_tells hname hname' (apart_parenthesis _) (apart_parenthesis _)
            (List.append_cancel_left heq)
          have hsecond := nameHand_parts.list_tells nameHand_ne_closing
            (fun param hparam => ⟨hparams param hparam, nameHand_tells (hparams param hparam)⟩)
            hparams' (List.tail_eq_of_cons_eq hfirst.right)
          have hthird := hbody hbody' trivial trivial (List.tail_eq_of_cons_eq hsecond.right)
          constructor
          · show Stmt.define _ _ _ = Stmt.define _ _ _
            exact congr (congr (congrArg Stmt.define hfirst.left) hsecond.left) hthird.left
          · exact hthird.right
  | expr => exact absurd hopening.symm (Expr.opening_ne _ (by decide))
  | _ => cases hopening

theorem Legible.tells {s : Stmt H} (h : s.Legible) : hand.Tells s := by
  induction h with
  | branch hcondition honTrue honFalse ihonTrue ihonFalse =>
      exact tells_branch (.branch hcondition honTrue honFalse) hcondition.tells ihonTrue ihonFalse
  | loop hcondition hbody ih => exact tells_loop (.loop hcondition hbody) hcondition.tells ih
  | expr hvalue => exact tells_expr hvalue
  | block hbody ih => exact tells_block fun s hs => ⟨hbody s hs, ih s hs⟩
  | define hname hparams hbody ih => exact tells_define (.define hname hparams hbody) ih

end Stmt
/-!
## Places are not printed
-/

mutual

theorem Value.print_placeless : forall value : Value H, (value.through .placeless).print = value.print
  | .str _ => rfl
  | .int _ => rfl
  | .function params body => by
      show "<function(" ++ ", ".intercalate (params.map id) ++ ") " ++ _ ++ ">" = _
      rw [List.map_id, Stmt.print_placeless body]
      rfl
  | .native params handle => by
      show "<native function(" ++ ", ".intercalate (params.map id) ++ ")>" = _
      rw [List.map_id]
      rfl

theorem Expr.print_placeless : forall e : Expr H, (e.through .placeless).print = e.print
  | .assign target value => by
      simp only [Expr.through, Expr.print, Expr.print_placeless value]
      rfl
  | .var _ => rfl
  | .binary left operator right => by
      simp only [Expr.through, Expr.print, Expr.print_placeless left, Expr.print_placeless right,
        View.kind_operator]
  | .unary operator operand => by
      simp only [Expr.through, Expr.print, Expr.print_placeless operand, View.kind_operator]
  | .call callee args => by
      simp only [Expr.through, Expr.print, Expr.print_placeless callee,
        Expr.printAll_placeless args]
  | .literal value => by
      simp only [Expr.through, Expr.print, Value.print_placeless value]
  | .group inner => by
      show "[" ++ _ ++ "]" = _
      rw [Expr.print_placeless inner]
      rfl

theorem Expr.printAll_placeless : forall es : List (Expr H),
    Expr.printAll (Expr.allThrough .placeless es) = Expr.printAll es
  | [] => rfl
  | e :: rest => by
      simp only [Expr.allThrough, Expr.printAll, Expr.print_placeless e,
        Expr.printAll_placeless rest]

theorem Stmt.print_placeless : forall s : Stmt H, (s.through .placeless).print = s.print
  | .branch condition onTrue onFalse => by
      simp only [Stmt.through, Stmt.print, Expr.print_placeless condition,
        Stmt.print_placeless onTrue, Stmt.print_placeless onFalse]
  | .loop condition body => by
      simp only [Stmt.through, Stmt.print, Expr.print_placeless condition,
        Stmt.print_placeless body]
  | .expr value => by
      simp only [Stmt.through, Stmt.print, Expr.print_placeless value]
  | .block [] => rfl
  | .block (first :: more) => by
      simp only [Stmt.through, Stmt.allThrough, Stmt.print, Stmt.print_placeless first,
        Stmt.printAll_placeless more]
  | .define name params body => by
      simp only [Stmt.through, Stmt.print, Stmt.print_placeless body]
      show "func " ++ name ++ "(" ++ ", ".intercalate (params.map id) ++ ") " ++ _ = _
      rw [List.map_id]

theorem Stmt.printAll_placeless : forall body : List (Stmt H),
    Stmt.printAll (Stmt.allThrough .placeless body) = Stmt.printAll body
  | [] => rfl
  | s :: rest => by
      simp only [Stmt.allThrough, Stmt.printAll, Stmt.print_placeless s,
        Stmt.printAll_placeless rest]

end

theorem Stmt.Legible.printed_alike_iff {s s' : Stmt H} (h : s.Legible) (h' : s'.Legible) :
    s.print = s'.print <-> s.through .placeless = s'.through .placeless := by
  constructor
  · intro heq
    have hchars : s.print.toList ++ [] = s'.print.toList ++ [] := by rw [heq]
    exact (h.tells h' trivial trivial hchars).left
  · intro heq
    rw [<- s.print_placeless, heq, s'.print_placeless]

end Lisan
