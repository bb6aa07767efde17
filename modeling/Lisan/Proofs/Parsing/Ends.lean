import Lisan.Program
import Lisan.Proofs.Parsing.Agreement
import Lisan.Proofs.Parsing.Progress
import Mathlib.Data.List.TakeWhile

/-!
# The end of the tokens

A parser faces the tokens before the first mark of the end, and that mark, or, if there is
none, all tokens and a mark in the place of the last one. So the tree of a list of tokens,
or the token that is to blame, is what the readers make of the tokens before the end.
-/

namespace Lisan
namespace Program

open Grammar

variable {H : Type}

/-- The first token that marks the end, or one in the place of the last token if
none does. -/
def endMark (tokens : List Token) : Token :=
  match tokens.find? Token.isEof with
  | some mark => mark
  | none => ⟨.eof, (tokens.getLast?.map Token.start).getD .start⟩

def beforeEnd (tokens : List Token) : List Token :=
  tokens.takeWhile fun token => !token.isEof

theorem beforeEnd_of_notEnd {tokens : List Token}
    (htokens : forall token, token ∈ tokens -> token.isEof = false) : beforeEnd tokens = tokens :=
  List.takeWhile_eq_self_iff.mpr fun token htoken => by simp [htokens token htoken]

theorem beforeEnd_append {tokens : List Token} {mark : Token}
    (htokens : forall token, token ∈ tokens -> token.isEof = false)
    (hmark : mark.isEof = true) (behind : List Token) :
    beforeEnd (tokens ++ mark :: behind) = tokens := by
  rw [beforeEnd, List.takeWhile_append_of_pos fun token htoken => by simp [htokens token htoken],
    List.takeWhile_cons_of_neg (by simp [hmark]), List.append_nil]

theorem endMark_append {tokens : List Token} {mark : Token}
    (htokens : forall token, token ∈ tokens -> token.isEof = false) (hmark : mark.isEof = true)
    (behind : List Token) : endMark (tokens ++ mark :: behind) = mark := by
  have hnone : tokens.find? Token.isEof = none :=
    List.find?_eq_none.mpr fun token htoken => by simp [htokens token htoken]
  simp [endMark, List.find?_append, hnone, hmark]

theorem endMark_of_notEnd {tokens : List Token}
    (htokens : forall token, token ∈ tokens -> token.isEof = false) :
    endMark tokens = ⟨.eof, (tokens.getLast?.map Token.start).getD .start⟩ := by
  have hnone : tokens.find? Token.isEof = none :=
    List.find?_eq_none.mpr fun token htoken => by simp [htokens token htoken]
  rw [endMark, hnone]

theorem ofTokens_faces (tokens : List Token) :
    (Parser.ofTokens tokens).Faces (beforeEnd tokens) (endMark tokens) := by
  cases hfind : tokens.find? Token.isEof with
  | none =>
      have htokens : forall token, token ∈ tokens -> token.isEof = false := by
        simpa using List.find?_eq_none.mp hfind
      rw [beforeEnd_of_notEnd htokens, endMark_of_notEnd htokens]
      exact ⟨⟨[], by simp [Parser.ofTokens]⟩, htokens, rfl⟩
  | some mark =>
      rcases List.find?_eq_some_iff_append.mp hfind with ⟨hmark, front, behind, rfl, hfront⟩
      have htokens : forall token, token ∈ front -> token.isEof = false := by
        simpa using hfront
      rw [beforeEnd_append htokens hmark, endMark_append htokens hmark]
      exact ⟨⟨behind ++ [(Parser.ofTokens (front ++ mark :: behind)).fallback],
        by simp [Parser.ofTokens]⟩, htokens, hmark⟩

theorem ofTokens_eq_read (tokens : List Token) :
    (ofTokens tokens : Except SyntaxError (Stmt H)) =
      match Grammar.program ((beforeEnd tokens).length + 1) (beforeEnd tokens) with
      | .ok body _ => .ok (.block body)
      | .error stop _ => .error (.ofStop (endMark tokens) stop) := by
  have hlength : (beforeEnd tokens).length ≤ tokens.length :=
    (List.takeWhile_prefix _).length_le
  have hagreed := Parsing.program_agrees (H := H) (Nat.succ_le_succ hlength) (ofTokens_faces tokens)
  have hdecided := program_decides (H := H) (Nat.lt_succ_self (beforeEnd tokens).length)
  rw [ofTokens]
  generalize Parsing.program _ _ = result at hagreed
  cases hread : Grammar.program ((beforeEnd tokens).length + 1) (beforeEnd tokens) with
  | ok body rest =>
      rw [hread] at hagreed
      cases hagreed with
      | ok _ => rfl
  | error stop rest =>
      rw [hread] at hagreed hdecided
      cases hagreed with
      | error => rfl
      -- one more than the number of tokens is bound enough
      | starved => exact absurd rfl hdecided.ne_tooDeep

/-!
## Where the parser stops
-/

section Marked

variable {tokens rest : List Token} {mark : Token} {last : Parser}
  (htokens : forall token, token ∈ tokens -> token.isEof = false) (hmark : mark.isEof = true)

include htokens hmark

theorem faces_marked : (Parser.ofTokens (tokens ++ [mark])).Faces tokens mark := by
  have hfaces := ofTokens_faces (tokens ++ [mark])
  rwa [beforeEnd_append htokens hmark, endMark_append htokens hmark] at hfaces

theorem limit_marked : (Parser.ofTokens (tokens ++ [mark])).limit = tokens.length := by
  have hnone : tokens.findIdx Token.isEof = tokens.length :=
    List.findIdx_eq_length_of_false htokens
  show (tokens ++ [mark]).toArray.findIdx Token.isEof = _
  rw [List.findIdx_toArray, List.findIdx_append, hnone, if_neg (Nat.lt_irrefl _),
    List.findIdx_cons, hmark]
  exact Nat.zero_add _

theorem current_add_length (honward : (Parser.ofTokens (tokens ++ [mark])).Onward last)
    (h : last.Faces rest mark) : last.current + rest.length = tokens.length := by
  have hle : last.current ≤ tokens.length := by
    rw [<- limit_marked htokens hmark]
    exact honward.le_limit
  rcases h.ahead with ⟨behind, hahead⟩
  rw [honward.tokens] at hahead
  have hleft : (tokens ++ [mark]).drop last.current ++ [last.fallback] =
      tokens.drop last.current ++ mark :: [last.fallback] := by
    rw [List.drop_append_of_le_length hle, List.append_assoc]
    rfl
  have hsame : tokens.drop last.current ++ mark :: [last.fallback] = rest ++ mark :: behind :=
    hleft.symm.trans hahead
  have hdrop := congrArg beforeEnd hsame
  rw [beforeEnd_append (fun token htoken => htokens token (List.mem_of_mem_drop htoken)) hmark,
    beforeEnd_append h.notEnd h.isEnd] at hdrop
  rw [<- hdrop, List.length_drop, Nat.add_sub_cancel' hle]

theorem exists_stopsAt {stop : Stop} (hread : Grammar.program (tokens.length + 1) tokens =
      (.error stop rest : EStateM.Result Stop (List Token) (List (Stmt H)))) :
    exists last, (Parser.ofTokens (tokens ++ [mark])).Onward last ∧ last.StopsAt mark rest stop ∧
      Parsing.program ((tokens ++ [mark]).length + 1) (Parser.ofTokens (tokens ++ [mark])) =
        (.error (.ofStop mark stop) last : EStateM.Result SyntaxError Parser (List (Stmt H))) := by
  have hlength : tokens.length + 1 ≤ (tokens ++ [mark]).length + 1 := by
    rw [List.length_append]
    exact Nat.succ_le_succ (Nat.le_add_right _ _)
  have hagreed := Parsing.program_agrees (H := H) hlength (faces_marked htokens hmark)
  have hbounded : (Parser.ofTokens (tokens ++ [mark])).Bounded :=
    Parser.bounded_standing (Nat.zero_le _)
  have hmoved := Parsing.program_advances (H := H) ((tokens ++ [mark]).length + 1) hbounded
    (Parser.limit_ofTokens_lt (tokens ++ [mark]))
  have hdecided := program_decides (H := H) (Nat.lt_succ_self tokens.length)
  rw [hread] at hagreed hdecided
  generalize Parsing.program _ _ = result at hagreed hmoved
  cases hagreed with
  | error hstops => exact ⟨_, hmoved.onward, hstops, rfl⟩
  | starved => exact absurd rfl hdecided.ne_tooDeep

end Marked

theorem exists_mem_of_decided {L : Language Token} {clash : Token.Kind -> Bool}
    {tokens rest : List Token} {stop : Stop}
    (h : Decided H L clash [] tokens (.error stop rest : EStateM.Result Stop (List Token) α))
    (mark : Token) :
    exists token, token ∈ tokens ++ [mark] ∧ SyntaxError.ofStop mark stop = .unexpected token := by
  cases h with
  | error hsplit _ hfault =>
      rw [List.nil_append] at hfault
      rw [hsplit]
      cases hfault with
      | refused =>
          cases rest with
          | nil => exact ⟨mark, by simp, rfl⟩
          | cons token others => exact ⟨token, by simp, rfl⟩
      | @unclosed opening _ hunclosed =>
          cases hunclosed with
          | intro => exact ⟨opening, by simp, rfl⟩
      | @mistargeted sign htarget =>
          cases htarget with
          | intro => exact ⟨sign, by simp, rfl⟩

/-- What stands behind the first mark of the end makes no difference, and a mark that is
missing is as good as one in the place of the last token. The tokens up to the mark have a
tree, or one of them is to blame. -/
theorem ofTokens_stops_at_end {tokens : List Token} {mark : Token}
    (htokens : forall token, token ∈ tokens -> token.isEof = false) (hmark : mark.isEof = true) :
    (forall behind : List Token, (ofTokens (tokens ++ [mark] ++ behind) :
      Except SyntaxError (Stmt H)) = ofTokens (tokens ++ [mark])) ∧
    (ofTokens tokens : Except SyntaxError (Stmt H)) =
      ofTokens (tokens ++ [⟨.eof, (tokens.getLast?.map Token.start).getD ⟨1, 1⟩⟩]) ∧
    ((exists tree : Stmt H, ofTokens (tokens ++ [mark]) = .ok tree) ∨
      exists token, token ∈ tokens ++ [mark] ∧
        (ofTokens (tokens ++ [mark]) : Except SyntaxError (Stmt H)) =
          .error (.unexpected token)) := by
  refine ⟨?_, ?_, ?_⟩
  · intro behind
    rw [List.append_assoc, List.singleton_append, ofTokens_eq_read, ofTokens_eq_read,
      beforeEnd_append htokens hmark, beforeEnd_append htokens hmark,
      endMark_append htokens hmark, endMark_append htokens hmark]
  · rw [ofTokens_eq_read, ofTokens_eq_read, beforeEnd_of_notEnd htokens,
      endMark_of_notEnd htokens, beforeEnd_append htokens rfl, endMark_append htokens rfl]
    rfl
  · have hdecided := program_decides (H := H) (Nat.lt_succ_self tokens.length)
    rw [ofTokens_eq_read, beforeEnd_append htokens hmark, endMark_append htokens hmark]
    split
    · exact .inl ⟨_, rfl⟩
    · rename_i stop rest hread
      rw [hread] at hdecided
      rcases exists_mem_of_decided hdecided mark with ⟨token, htoken, hblamed⟩
      exact .inr ⟨token, htoken, by rw [hblamed]⟩

theorem grouping_stops_at_end :
    let opening : Token := ⟨.openParen, ⟨1, 1⟩⟩
    let number : Token := ⟨.int 1, ⟨2, 5⟩⟩
    let mark : Token := ⟨.eof, ⟨3, 1⟩⟩
    let behind : List Token := [⟨.closeParen, ⟨3, 2⟩⟩, ⟨.dot, ⟨3, 3⟩⟩, ⟨.eof, ⟨4, 1⟩⟩]
    (forall token, token ∈ [opening, number] -> token.isEof = false) ∧ mark.isEof = true ∧
      (ofTokens ([opening, number] ++ [mark] ++ behind) : Except SyntaxError (Stmt Empty)) =
        .error (.unexpected opening) ∧
      (ofTokens [number] : Except SyntaxError (Stmt Empty)) =
        .error (.unexpected ⟨.eof, ⟨2, 5⟩⟩) := by
  intro opening number mark behind
  have htokens : forall token, token ∈ [opening, number] -> token.isEof = false := by decide
  have hnumber : forall token, token ∈ [number] -> token.isEof = false := by decide
  have hmark : mark.isEof = true := rfl
  have hbehind := (ofTokens_stops_at_end (H := Empty) htokens hmark).1 behind
  have hmissing := (ofTokens_stops_at_end (H := Empty) hnumber hmark).2.1
  exact ⟨htokens, hmark, hbehind.trans rfl, hmissing.trans rfl⟩

end Program
end Lisan
