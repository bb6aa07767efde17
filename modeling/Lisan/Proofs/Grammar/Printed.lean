import Lisan.Proofs.Grammar.Productions
import Lisan.Proofs.Token.Writing
import Lisan.Proofs.Tree.Printed

/-!
# Printed programs

The tree of a text is legible, since the tokens of a text are printable. So two programs
are printed alike if and only if they are the same, but for the places of operators.
-/

namespace Lisan
namespace Grammar

variable {H : Type}

/-!
## Trees of printable tokens
-/

def Printable (tokens : List Token) : Prop :=
  forall token, token ∈ tokens -> token.kind.Printable

theorem printable_cons {token : Token} {rest : List Token} :
    Printable (token :: rest) <-> token.kind.Printable ∧ Printable rest :=
  List.forall_mem_cons

theorem printable_append {front back : List Token} :
    Printable (front ++ back) <-> Printable front ∧ Printable back :=
  List.forall_mem_append

theorem Printable.of_subset {tokens part : List Token} (h : Printable tokens)
    (hpart : part ⊆ tokens) : Printable part := by
  intro token htoken
  exact h token (hpart htoken)

theorem worded_of_printable {name : String} (h : Token.Kind.Printable (.name name)) :
    Token.Worded name.toList := by
  cases h with
  | sign hsign => simp [Token.signs] at hsign
  | keyword hkeyword => simp [Token.Kind.keywords] at hkeyword
  | name hworded => exact hworded

theorem bounds_of_printable {n : Int} (h : Token.Kind.Printable (.int n)) :
    0 ≤ n ∧ n ≤ Integer.greatest := by
  cases h with
  | sign hsign => simp [Token.signs] at hsign
  | keyword hkeyword => simp [Token.Kind.keywords] at hkeyword
  | int hnonneg hgreatest => exact ⟨hnonneg, hgreatest⟩

theorem literal_legible_of_int {n : Int} (h : Token.Kind.Printable (.int n)) :
    (Expr.literal (.int n) : Expr H).Legible :=
  .int (bounds_of_printable h).left

theorem literal_legible_of_str {text : String} (h : Token.Kind.Printable (.str text)) :
    (Expr.literal (.str text) : Expr H).Legible := by
  cases h with
  | sign hsign => simp [Token.signs] at hsign
  | keyword hkeyword => simp [Token.Kind.keywords] at hkeyword
  | str htext => exact .str htext

def LegibleExpression (tokens : List Token) (e : Expr H) : Prop :=
  Printable tokens -> e.Legible

def LegibleStatement (tokens : List Token) (s : Stmt H) : Prop :=
  Printable tokens -> s.Legible

theorem compact_of_primary {R : List Token -> Expr H -> Prop} {tokens : List Token} {e : Expr H}
    (h : Primary R tokens e) : e.Compact := by
  cases h with
  | int => exact .literal _
  | str => exact .literal _
  | var => exact .var _
  | group => exact .group _

theorem expression_legible : Productions (LegibleExpression (H := H)) where
  int hkind htokens := by
    rw [printable_cons, hkind] at htokens
    exact literal_legible_of_int htokens.left
  str hkind htokens := by
    rw [printable_cons, hkind] at htokens
    exact literal_legible_of_str htokens.left
  var hkind htokens := by
    rw [printable_cons, hkind] at htokens
    exact .var (worded_of_printable htokens.left)
  group _ hinner _ htokens := by
    rw [printable_cons, printable_append] at htokens
    exact .group (hinner htokens.right.left)
  call hcallee hlegible hargs htokens := by
    rw [printable_append] at htokens
    apply Expr.Legible.call (compact_of_primary hcallee) (hlegible htokens.left)
    intro arg harg
    rcases hargs.exists_part arg harg with ⟨part, hpart, harg⟩
    exact harg (htokens.right.of_subset hpart)
  unary hkind hoperand htokens := by
    rw [printable_cons] at htokens
    exact .unary hkind (hoperand htokens.right)
  binary hleft hkind hright htokens := by
    rw [printable_append, printable_cons] at htokens
    exact .operation (.binary _ _ hkind) (hleft htokens.left) (hright htokens.right.right)
  assign htarget _ hvalue htokens := by
    rw [printable_cons, printable_cons, htarget] at htokens
    exact .operation (.assign _ _) (.var (worded_of_printable htokens.left))
      (hvalue htokens.right.right)

theorem block_legible {tokens : List Token} {body : List (Stmt H)}
    (h : Repeated LegibleStatement tokens body) : LegibleStatement tokens (.block body) := by
  intro htokens
  apply Stmt.Legible.block
  intro s hs
  rcases h.exists_part s hs with ⟨part, hpart, hlegible⟩
  exact hlegible (htokens.of_subset hpart)

theorem braced_legible {tokens : List Token} {s : Stmt H}
    (h : Braced LegibleStatement tokens s) : LegibleStatement tokens s := by
  intro htokens
  cases h with
  | intro _ hbody _ =>
      rw [printable_cons, printable_append] at htokens
      exact block_legible hbody htokens.right.left

theorem names_worded {tokens : List Token} {names : List String} (h : Listed Named tokens names)
    (htokens : Printable tokens) : forall name, name ∈ names -> Token.Worded name.toList := by
  intro name hname
  rcases h.exists_part name hname with ⟨part, hpart, hnamed⟩
  have hprintable := htokens.of_subset hpart
  cases hnamed with
  | intro hkind =>
      rw [printable_cons, hkind] at hprintable
      exact worded_of_printable hprintable.left

theorem sentence_legible {tokens : List Token} {s : Stmt H}
    (h : Sentence LegibleExpression LegibleStatement tokens s) : LegibleStatement tokens s := by
  intro htokens
  cases h with
  | define _ htarget hparams hbody =>
      rw [printable_cons, printable_cons, printable_append, htarget] at htokens
      rcases htokens with ⟨_, hname, hnames, hblock⟩
      exact .define (worded_of_printable hname) (names_worded hparams hnames)
        (braced_legible hbody hblock)
  | branch _ hcondition honTrue =>
      rw [printable_cons, printable_append] at htokens
      rcases htokens with ⟨_, htest, hblock⟩
      exact .branch (hcondition htest) (braced_legible honTrue hblock)
        (.block fun s hs => absurd hs List.not_mem_nil)
  | branchElse _ hcondition honTrue _ honFalse =>
      rw [printable_cons, printable_append, printable_append, printable_cons] at htokens
      rcases htokens with ⟨_, htest, hblock, _, hother⟩
      exact .branch (hcondition htest) (braced_legible honTrue hblock)
        (braced_legible honFalse hother)
  | loop _ hcondition hbody =>
      rw [printable_cons, printable_append] at htokens
      rcases htokens with ⟨_, htest, hblock⟩
      exact .loop (hcondition htest) (braced_legible hbody hblock)
  | block hbody => exact braced_legible hbody htokens
  | simple hvalue _ =>
      rw [printable_append] at htokens
      exact .expr (hvalue htokens.left)

end Grammar

/-!
## Programs
-/

namespace Program

open Grammar

variable {H : Type}

theorem printable_of_ofText {text : String} {tokens : List Token} {mark : Position}
    (h : Token.ofText text = .ok (tokens ++ [⟨.eof, mark⟩])) : Printable tokens := by
  rcases (Token.cut_of_ofText h).exists_printable with ⟨kinds, hmap, hkinds⟩
  rw [List.map_append] at hmap
  intro token htoken
  apply hkinds
  rw [<- (List.append_inj' hmap rfl).left]
  exact List.mem_map_of_mem htoken

theorem legible_of_ofText {text : String} {tree : Stmt H} (h : ofText text = .ok tree) :
    tree.Legible := by
  rcases exists_repeated_of_ofText expression_legible sentence_legible h with
    ⟨tokens, mark, body, htokens, htree, hbody⟩
  rw [htree]
  exact block_legible hbody (printable_of_ofText htokens)

/-- Two programs are printed alike if and only if they are the same, but for the places of
operators. -/
theorem print_eq_iff {text text' : String} {tree tree' : Stmt H}
    (h : ofText text = .ok tree) (h' : ofText text' = .ok tree') :
    tree.print = tree'.print <-> tree.through .placeless = tree'.through .placeless :=
  (legible_of_ofText h).printed_alike_iff (legible_of_ofText h')

theorem print_eq_of_other_layout :
    let text := "ا(\"[\x7d else \" + ١)."
    let text' := "ا ( \"[\x7d else \"\n+ 1 )."
    let sum (sign : Position) : Stmt Empty := .block [.expr (.call (.var "ا")
      [.binary (.literal (.str "[\x7d else ")) ⟨.plus, sign⟩ (.literal (.int 1))])]
    ofText text = .ok (sum ⟨1, 14⟩) ∧ ofText text' = .ok (sum ⟨2, 1⟩) ∧
      (sum ⟨1, 14⟩).print = "\x7b ا((\"[\x7d else \" + 1)). \x7d" ∧
      (sum ⟨1, 14⟩).through .placeless = (sum ⟨2, 1⟩).through .placeless := by
  intro text text' sum
  have htext : ofText text = .ok (sum ⟨1, 14⟩) := by
    have htokens : (Token.ofText text).toOption =
        some [⟨.name "ا", ⟨1, 1⟩⟩, ⟨.openParen, ⟨1, 2⟩⟩, ⟨.str "[\x7d else ", ⟨1, 3⟩⟩,
          ⟨.plus, ⟨1, 14⟩⟩, ⟨.int 1, ⟨1, 16⟩⟩, ⟨.closeParen, ⟨1, 17⟩⟩, ⟨.dot, ⟨1, 18⟩⟩,
          ⟨.eof, ⟨1, 19⟩⟩] := by
      decide +kernel
    exact ofText_of_toOption htokens rfl
  have htext' : ofText text' = .ok (sum ⟨2, 1⟩) := by
    have htokens : (Token.ofText text').toOption =
        some [⟨.name "ا", ⟨1, 1⟩⟩, ⟨.openParen, ⟨1, 3⟩⟩, ⟨.str "[\x7d else ", ⟨1, 5⟩⟩,
          ⟨.plus, ⟨2, 1⟩⟩, ⟨.int 1, ⟨2, 3⟩⟩, ⟨.closeParen, ⟨2, 5⟩⟩, ⟨.dot, ⟨2, 6⟩⟩,
          ⟨.eof, ⟨2, 7⟩⟩] := by
      decide +kernel
    exact ofText_of_toOption htokens rfl
  constructor
  · exact htext
  constructor
  · exact htext'
  constructor
  · rfl
  · exact (print_eq_iff htext htext').mp rfl

end Program
end Lisan
