import Lisan.Interpretation
import Lisan.Proofs.Operator.Rules
import Lisan.Proofs.Token.Numerals
import Lisan.Proofs.Token.Symbols
import Lisan.Tree.Printer

/-!
# Values that are read back

The printed form of a text or of an integer, with a dot behind it, is a program. It ends with
the value itself and leaves the state as it is. An integer below zero comes back through its
negation. So the least integer does not come back: it is printed, but no numeral in a text
spells its absolute value.
-/

namespace Lisan

variable {H : Type}

/-- The texts that no quote ends too early, and all integers of the language but the least. -/
inductive Value.Readable : Value H -> Prop where
  | str {text : String} : '"' ∉ text.toList -> Value.Readable (.str text)
  | int {n : Int} : Integer.least < n -> n ≤ Integer.greatest -> Value.Readable (.int n)

inductive Token.Kind.LiteralOf : Kind -> Value H -> Prop where
  | str (text : String) : LiteralOf (.str text) (.str text)
  | int (n : Int) : LiteralOf (.int n) (.int n)

def Value.statement (v : Value H) : String :=
  v.print ++ "."

namespace Program

variable {v : Value H} {kind : Token.Kind} {text : String} {tokens : List Token} {tree : Stmt H}

/-!
## From tokens to the value
-/

theorem ofTokens_literal (hkind : kind.LiteralOf v) (first dot last : Position) :
    ofTokens [⟨kind, first⟩, ⟨.dot, dot⟩, ⟨.eof, last⟩] =
      .ok (.block [.expr (.literal v)]) := by
  cases hkind with
  | str text => rfl
  | int n => rfl

theorem ofTokens_negative (n : Int) (sign first dot last : Position) :
    (ofTokens [⟨.minus, sign⟩, ⟨.int n, first⟩, ⟨.dot, dot⟩, ⟨.eof, last⟩] :
        Except SyntaxError (Stmt H)) =
      .ok (.block [.expr (.unary ⟨.minus, sign⟩ (.literal (.int n)))]) :=
  rfl

theorem runTree_literal (host : Host H) (fuel : Nat) (v : Value H) (state : State H) :
    runTree host (fuel + 4) (.block [.expr (.literal v)]) state = .ok v state :=
  rfl

theorem runTree_negative (host : Host H) (fuel : Nat) {n : Int} (hrange : Integer.InRange (-n))
    (sign : Position) (state : State H) :
    runTree host (fuel + 4) (.block [.expr (.unary ⟨.minus, sign⟩ (.literal (.int n)))]) state =
      .ok (.int (-n)) state := by
  have hnegate : (Operator.unary .minus (.int n) : Except (Halt H) (Value H)) =
      .ok (.int (-n)) :=
    Operator.exact_of_inRange hrange
  have hexec : (Stmt.block [.expr (.unary ⟨.minus, sign⟩ (.literal (.int n)))]).exec host
      (fuel + 4) state = .ok (.int (-n)) state := by
    show (Run.ofExcept (Operator.unary .minus (.int n)) >>= pure : Run H (Value H)) state = _
    rw [hnegate]
    rfl
  rw [runTree, hexec]

theorem interpret_of_tokens (hscan : Token.ofText text = .ok tokens)
    (htree : ofTokens tokens = .ok tree) (host : Host H) (fuel : Nat) :
    interpret host fuel text = runTree host fuel tree := by
  funext state
  rw [interpret, ofText, hscan]
  simp only [htree]

theorem interpret_of_flaw {e : Token.ScanError} (hscan : Token.ofText text = .error e)
    (host : Host H) (fuel : Nat) (state : State H) :
    interpret host fuel text state = .error (.scan e) state := by
  rw [interpret, ofText, hscan]

/-!
## From the printed form to the tokens
-/

theorem print_of_literalOf (hkind : kind.LiteralOf v) : v.print = kind.text := by
  cases hkind with
  | str text => rfl
  | int n => rfl

theorem interpret_literal (hkind : kind.LiteralOf v) (hprintable : kind.Printable)
    (host : Host H) (fuel : Nat) (state : State H) :
    interpret host (fuel + 4) v.statement state = .ok v state := by
  have hchars : v.statement.toList = kind.text.toList ++ ['.'] := by
    rw [Value.statement, String.toList_append, print_of_literalOf hkind]
    rfl
  have hdot : Token.symbol? '.' = some .dot := rfl
  have hcut := Token.Cut.of_spells_symbol .start hprintable.spells hdot
  rw [<- hchars] at hcut
  rw [interpret_of_tokens (Token.ofText_of_cut hcut) (ofTokens_literal hkind _ _ _)]
  exact runTree_literal host fuel v state

theorem toList_statement_negSucc (m : Nat) :
    (Value.int (Int.negSucc m) : Value H).statement.toList =
      '-' :: (Nat.toDigits 10 (m + 1) ++ ['.']) := by
  have hchars : (Value.int (Int.negSucc m) : Value H).print.toList =
      '-' :: Nat.toDigits 10 (m + 1) :=
    Decimal.toList_toString_negSucc m
  rw [Value.statement, String.toList_append, hchars]
  rfl

theorem interpret_negative {m : Nat} (hgreatest : ((m + 1 : Nat) : Int) ≤ Integer.greatest)
    (host : Host H) (fuel : Nat) (state : State H) :
    interpret host (fuel + 4) (Value.int (Int.negSucc m) : Value H).statement state =
      .ok (.int (Int.negSucc m)) state := by
  have hminus : Token.symbol? '-' = some .minus := rfl
  have hdot : Token.symbol? '.' = some .dot := rfl
  have hrange : Integer.InRange (-((m + 1 : Nat) : Int)) := by
    simp only [Integer.InRange, Integer.least, Integer.greatest] at hgreatest ⊢
    omega
  have hdigits := Token.Cut.of_spells_symbol (Position.start.next '-')
    (Token.spells_toDigits hgreatest) hdot
  have hcut := Token.Cut.symbol_cons hminus hdigits
  rw [<- toList_statement_negSucc (H := H)] at hcut
  rw [interpret_of_tokens (Token.ofText_of_cut hcut) (ofTokens_negative _ _ _ _ _)]
  exact runTree_negative host fuel hrange _ state

theorem interpret_least (host : Host H) (fuel : Nat) (state : State H) :
    interpret host fuel (Value.int Integer.least : Value H).statement state =
      .error (.scan ⟨⟨1, 2⟩, .numberOutOfRange "9223372036854775808"⟩) state := by
  have hminus : Token.symbol? '-' = some .minus := rfl
  have hdot : Token.symbol? '.' = some .dot := rfl
  have hchars : (Value.int Integer.least : Value H).statement.toList =
      '-' :: ("9223372036854775808".toList ++ ['.']) :=
    (toList_statement_negSucc 9223372036854775807).trans (by decide)
  have hnumbered : Token.Numbered "9223372036854775808".toList :=
    Token.numbered_of_ne_nil (by decide) (List.all_eq_true.mp (by decide))
  have hdigits := Token.Fails.of_spells_symbol (Position.start.next '-')
    (hnumbered.spells_flaw (by decide)) (by decide) hdot
  have hfails := Token.Fails.symbol_cons hminus hdigits
  rw [<- hchars] at hfails
  exact interpret_of_flaw (Token.ofText_of_fails hfails) host fuel state

/-!
## Reading values back
-/

/-- A readable value printed as a statement is a program for the value, and changes nothing.
The least integer printed as a statement has a flaw behind its sign. -/
theorem readable_values_are_read_back (host : Host H) (state : State H) :
    (forall (v : Value H) (fuel : Nat), v.Readable -> 4 ≤ fuel ->
      interpret host fuel (v.print ++ ".") state = .ok v state) ∧
    forall fuel : Nat, interpret host fuel ((Value.int Integer.least : Value H).print ++ ".") state =
      .error (.scan ⟨⟨1, 2⟩, .numberOutOfRange "9223372036854775808"⟩) state := by
  refine ⟨?_, fun fuel => interpret_least host fuel state⟩
  intro v fuel hv hfuel
  rcases Nat.exists_eq_add_of_le' hfuel with ⟨more, rfl⟩
  cases hv with
  | @str text hquote => exact interpret_literal (.str text) (.str hquote) host more state
  | @int n hleast hgreatest =>
      cases n with
      | ofNat m =>
          exact interpret_literal (.int m) (.int (Int.natCast_nonneg m) hgreatest) host more state
      | negSucc m =>
          refine interpret_negative ?_ host more state
          simp only [Integer.least, Integer.greatest] at hleast ⊢
          omega

theorem two_lines_are_read_back :
    let store : Store Empty := Store.empty.assign "ق" (.int 5)
    let state : State Empty := ⟨store, #["ق"]⟩
    let lines : Value Empty := .str "ق.\n-٣"
    let small : Value Empty := .int (-9223372036854775807)
    lines.print ++ "." = "\"ق.\n-٣\"." ∧ small.print ++ "." = "-9223372036854775807." ∧
      interpret Empty.elim 4 (lines.print ++ ".") state = .ok lines state ∧
      interpret Empty.elim 4 (small.print ++ ".") state = .ok small state := by
  intro store state lines small
  have hback := (readable_values_are_read_back (H := Empty) Empty.elim state).left
  exact ⟨by decide, by decide, hback lines 4 (.str (by decide)) (by decide),
    hback small 4 (.int (by decide) (by decide)) (by decide)⟩

end Program
end Lisan
