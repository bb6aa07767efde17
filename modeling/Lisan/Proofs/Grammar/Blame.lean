import Lisan.Proofs.Grammar.Deciding
import Lisan.Proofs.Grammar.Programs

/-!
# What syntax errors blame

The readers of the language decide the loose grammar. So a program that cannot be read is
read as far as some program of that grammar goes on, and the token that is blamed is the
first with which none does, or opens a grouping that is not closed there, or assigns to
what is no name.
-/

namespace Lisan
namespace Grammar

open Reader
open scoped Computability

variable {H : Type}

theorem looseProgram_of_repeated {tokens : List Token} {body : List (Stmt H)}
    (h : Repeated Statement tokens body) : LooseProgram H tokens := by
  have hdecided := program_decides (H := H) (Nat.lt_succ_self tokens.length)
  rw [program_of_repeated h (Nat.lt_succ_self _)] at hdecided
  cases hdecided with
  | ok hsplit hused _ =>
      rw [hsplit, List.append_nil]
      exact looseProgram_iff.mpr hused

/-- No program of the loose grammar begins in this way, the mark of its end included. -/
def Impossible (H : Type) (tokens : List Token) : Prop :=
  forall ⦃whole : List Token⦄ ⦃mark : Token⦄, LooseProgram H whole -> mark.isEof = true ->
    Not (tokens <+: whole ++ [mark])

/-- The token that a syntax error blames, where the next token fails the last test. -/
inductive Blamed (H : Type) (read : List Token) (next : Token) : Token -> Prop where
  | next : Impossible H (read ++ [next]) -> Blamed H read next next
  | grouping {front inner : List Token} {opening : Token} {e : Expr H} :
      read = front ++ opening :: inner -> Behind (fun kind => !endsPrimary kind) front ->
      opening.kind = .openParen -> Expression inner e -> next.kind ≠ .closeParen ->
      Impossible H (read ++ [next]) -> Blamed H read next opening
  | target {front left right : List Token} {sign : Token} {target value : Expr H} :
      read = front ++ (left ++ sign :: right) -> Behind leadsExpression front ->
      Equality Expression left target -> (forall name, target ≠ .var name) ->
      sign.kind = .assign -> Expression right value -> Blamed H read next sign

/-- Where the parser stands once the next token has failed the last test: before that token, or
behind it, if it was taken where a primary expression had to begin. -/
inductive Stands (last : Parser) (read : List Token) (next : Token) : Token -> Prop where
  | before {blamed : Token} :
      last.current = read.length -> last.peek = next -> Stands last read next blamed
  | behind : last.current = read.length + 1 -> last.previous = next ->
      opensPrimary next.kind = false -> Stands last read next next

theorem impossible_of_dead {read rest : List Token} {mark next : Token}
    (hrest : forall token, token ∈ rest -> token.isEof = false) (hmark : mark.isEof = true)
    (hnext : (rest ++ [mark]).head? = some next)
    (hdead : Dead (statements H)∗ (fun _ => true) read rest.head?) :
    Impossible H (read ++ [next]) := by
  intro whole other hwhole hother hprefix
  have hpasses : Not (Passes whole read rest.head?) := by
    have hend := hdead (looseProgram_iff.mp hwhole) (clear_nil _)
    rwa [List.append_nil] at hend
  cases rest with
  | nil =>
      cases hnext
      rcases List.prefix_concat_iff.mp hprefix with hsame | hwithin
      · rw [(List.append_inj_left' hsame rfl)] at hpasses
        exact hpasses ⟨[], (List.append_nil whole).symm, rfl⟩
      · have hmem := hwithin.subset (List.mem_append_right read List.mem_cons_self)
        rw [hwhole.isEof_eq_false mark hmem] at hmark
        cases hmark
  | cons token behind =>
      obtain rfl : token = next := Option.some.inj hnext
      have htoken := hrest token List.mem_cons_self
      rcases List.prefix_concat_iff.mp hprefix with hsame | ⟨more, hmore⟩
      · rw [(List.cons.inj (List.append_inj_right' hsame rfl)).left, hother] at htoken
        cases htoken
      · exact hpasses ⟨token :: more, by rw [<- hmore, List.append_assoc]; rfl, rfl⟩

end Grammar

namespace Program

open Grammar

variable {H : Type}

theorem ofStop_refusal {rest : List Token} {mark next : Token}
    (hnext : (rest ++ [mark]).head? = some next) :
    SyntaxError.ofStop mark (refusal rest) = .unexpected next := by
  cases rest with
  | nil =>
      cases hnext
      rfl
  | cons token behind =>
      cases hnext
      rfl

theorem kind_ne_closeParen {rest : List Token} {mark next : Token} (hmark : mark.isEof = true)
    (hnext : (rest ++ [mark]).head? = some next) (hclear : Reader.Clear (· == .closeParen) rest) :
    next.kind ≠ .closeParen := by
  cases rest with
  | nil =>
      cases hnext
      rw [beq_iff_eq.mp hmark]
      exact nofun
  | cons token behind =>
      cases hnext
      exact beq_eq_false_iff_ne.mp (hclear _ rfl)

theorem stands_of_stopsAt {tokens read rest : List Token} {mark next blamed : Token}
    {stop : Stop} {last : Parser} (htokens : forall token, token ∈ tokens -> token.isEof = false)
    (hmark : mark.isEof = true) (hsplit : tokens = read ++ rest)
    (hnext : (rest ++ [mark]).head? = some next)
    (hblamed : SyntaxError.ofStop mark stop = .unexpected blamed)
    (honward : (Parser.ofTokens (tokens ++ [mark])).Onward last)
    (hstops : last.StopsAt mark rest stop) : Stands last read next blamed := by
  have hlength : tokens.length = read.length + rest.length := by
    rw [hsplit, List.length_append]
  cases hstops with
  | before hfaces =>
      have htaken := current_add_length htokens hmark honward hfaces
      have hpeek : last.peek = next := Option.some.inj (hfaces.head?_eq.symm.trans hnext)
      exact .before (by omega) hpeek
  | behind hfaces hprevious hother =>
      have htaken := current_add_length htokens hmark honward hfaces
      rw [List.length_cons] at hlength
      cases hnext
      cases hblamed
      exact .behind (by omega) hprevious hother

/-- A list of tokens that is no program is read up to some token, as far as a program of
the loose grammar goes on; there the parser stands. Either no such program goes on with that
token, and the error blames it, or the parenthesis of a grouping that had to be closed there;
or the error blames the equals sign of an assignment that ends there, to what is no name. -/
theorem blamed_of_error {tokens : List Token} {mark : Token} {e : SyntaxError}
    (htokens : forall token, token ∈ tokens -> token.isEof = false) (hmark : mark.isEof = true)
    (h : (ofTokens (tokens ++ [mark]) : Except SyntaxError (Stmt H)) = .error e) :
    exists read rest stop next blamed,
      program (tokens.length + 1) tokens =
        (.error stop rest : EStateM.Result Stop (List Token) (List (Stmt H))) ∧
      tokens = read ++ rest ∧ (rest ++ [mark]).head? = some next ∧ e = .unexpected blamed ∧
      (exists more, LooseProgram H (read ++ more)) ∧ Blamed H read next blamed ∧
      exists last, Stands last read next blamed ∧
        Parsing.program ((tokens ++ [mark]).length + 1) (Parser.ofTokens (tokens ++ [mark])) =
          (.error e last : EStateM.Result SyntaxError Parser (List (Stmt H))) := by
  have hdecided := program_decides (H := H) (Nat.lt_succ_self tokens.length)
  rw [ofTokens_eq_read, beforeEnd_append htokens hmark, endMark_append htokens hmark] at h
  split at h
  · cases h
  · rename_i stop rest hread
    cases h
    rw [hread] at hdecided
    cases hdecided with
    | @error read _ _ hsplit hviable hfault =>
        rcases hviable with ⟨more, hmore⟩
        have hlast : exists next, (rest ++ [mark]).head? = some next := by
          cases rest with
          | nil => exact ⟨mark, rfl⟩
          | cons token behind => exact ⟨token, rfl⟩
        rcases hlast with ⟨next, hnext⟩
        have hrest : forall token, token ∈ rest -> token.isEof = false := by
          intro token htoken
          exact htokens token (hsplit ▸ List.mem_append_right read htoken)
        have hblamed : exists blamed, SyntaxError.ofStop mark stop = .unexpected blamed ∧
            Blamed H read next blamed := by
          -- the parser refuses what comes next, or blames a token that it has taken
          rw [List.nil_append] at hfault
          cases hfault with
          | refused hdead =>
              exact ⟨next, ofStop_refusal hnext,
                .next (impossible_of_dead hrest hmark hnext hdead)⟩
          | @unclosed opening hdead hunclosed =>
              have himpossible := impossible_of_dead hrest hmark hnext hdead
              cases hunclosed with
              | intro hfront hopening he hclear =>
                  exact ⟨opening, rfl, .grouping rfl hfront hopening he
                    (kind_ne_closeParen hmark hnext hclear) himpossible⟩
          | @mistargeted sign htarget =>
              cases htarget with
              | intro hfront hleft hname hsign hright =>
                  exact ⟨sign, rfl, .target rfl hfront hleft hname hsign hright⟩
        rcases hblamed with ⟨blamed, he, hblamed⟩
        rcases exists_stopsAt htokens hmark hread with ⟨last, honward, hstops, hlast⟩
        exact ⟨read, rest, stop, next, blamed, hread, hsplit, hnext, he,
          ⟨more, looseProgram_iff.mpr hmore⟩, hblamed, last,
          stands_of_stopsAt htokens hmark hsplit hnext he honward hstops, hlast⟩

theorem blamed_of_open_grouping :
    let opening : Token := ⟨.openParen, ⟨1, 1⟩⟩
    let number : Token := ⟨.int 1, ⟨1, 2⟩⟩
    let stop : Token := ⟨.dot, ⟨1, 3⟩⟩
    let mark : Token := ⟨.eof, ⟨1, 4⟩⟩
    (forall token, token ∈ [opening, number, stop] -> token.isEof = false) ∧
      (ofTokens [opening, number, stop, mark] : Except SyntaxError (Stmt Empty)) =
        .error (.unexpected opening) ∧
      Blamed Empty [opening, number] stop opening ∧
      exists last, Stands last [opening, number] stop opening ∧
        Parsing.program 5 (Parser.ofTokens [opening, number, stop, mark]) =
          (.error (.unexpected opening) last :
            EStateM.Result SyntaxError Parser (List (Stmt Empty))) := by
  intro opening number stop mark
  have htokens : forall token, token ∈ [opening, number, stop] -> token.isEof = false := by decide
  have herror : (ofTokens ([opening, number, stop] ++ [mark]) :
      Except SyntaxError (Stmt Empty)) = .error (.unexpected opening) := rfl
  rcases blamed_of_error htokens rfl herror with
    ⟨read, rest, reason, next, blamed, hread, hsplit, hnext, he, _, hblamed, hstands⟩
  have hfailed : program 4 [opening, number, stop] =
      (.error (.unexpected opening) [stop] :
        EStateM.Result Stop (List Token) (List (Stmt Empty))) := rfl
  cases hfailed.symm.trans hread
  cases hnext
  cases he
  have hfront : read = [opening, number] := by
    have hsame : read ++ [stop] = [opening, number] ++ [stop] := hsplit.symm
    exact List.append_cancel_right hsame
  rw [hfront] at hblamed hstands
  exact ⟨htokens, rfl, hblamed, hstands⟩

end Program
end Lisan
