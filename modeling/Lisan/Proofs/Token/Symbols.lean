import Lisan.Proofs.Token.Writing

/-!
# Symbols

A symbol that always stands alone is a lexeme by itself, whatever is behind it, and it ends
every lexeme in front of it that leaves no quote open. So it can be written without blanks.
-/

namespace Lisan
namespace Token

variable {chars rest : List Char} {meaning : Except Flaw Kind} {kind symbol : Kind} {c : Char}
variable {flaw : Flaw} {tokens : List Token} {e : ScanError}

/-!
## In front of a text
-/

theorem Spells.tail_eq_nil_of_symbol (h : Spells chars meaning) (hhead : chars.head? = some c)
    (hsymbol : symbol? c = some symbol) : chars.tail = [] := by
  have hnone : symbol? c ≠ none := by
    rw [hsymbol]
    exact Option.some_ne_none symbol
  have hclass : Not (c = '"' ∨ Script.isLetter c = true ∨ Script.isDigit c = true) :=
    fun hclass => hnone (no_sign (not_sign_of_class hclass)).right
  rw [not_or, not_or] at hclass
  rcases hclass with ⟨hquote, hletter, hdigit⟩
  have hworded : Not (Worded chars) := by
    rintro ⟨hfirst, _⟩
    cases hhead
    exact hletter hfirst
  have hnumbered : Not (Numbered chars) := by
    rintro ⟨hfirst, _⟩
    cases hhead
    exact hdigit hfirst
  cases h with
  | @sign other hother =>
      have htable : forall kind, kind ∈ signs ->
          kind.text.toList.head?.any (fun c => (symbol? c).isSome) = true ->
          kind.text.toList.tail = [] := by
        decide
      refine htable other hother ?_
      rw [hhead, Option.any_some, hsymbol, Option.isSome_some]
  | quoted =>
      cases hhead
      exact absurd rfl hquote
  | unterminated =>
      cases hhead
      exact absurd rfl hquote
  | keyword h => exact absurd h hworded
  | name h => exact absurd h hworded
  | number h => exact absurd h hnumbered
  | largeNumber h => exact absurd h hnumbered
  | strange => rfl

theorem longest_symbol (hsymbol : symbol? c = some symbol) (rest : List Char) :
    Longest [c] rest (.ok symbol) := by
  rcases sign_of_symbol? hsymbol with ⟨hsign, htext⟩
  have hspells := Spells.sign hsign
  rw [htext] at hspells
  refine ⟨hspells, ?_⟩
  intro other meant hother hprefix
  cases other with
  | nil => exact Nat.zero_le _
  | cons d tail =>
      rw [List.singleton_append, List.cons_prefix_cons] at hprefix
      rcases hprefix with ⟨rfl, _⟩
      have htail : tail = [] := hother.tail_eq_nil_of_symbol rfl hsymbol
      rw [htail]

theorem Cut.symbol_cons {place : Position} (hsymbol : symbol? c = some symbol)
    (h : Cut (place.next c) rest tokens) : Cut place (c :: rest) (⟨symbol, place⟩ :: tokens) := by
  have hrest : Cut (place.after ([] ++ [c])) rest tokens := h
  have hcut := Cut.lexeme blank_nil (longest_symbol hsymbol rest) hrest
  exact hcut

theorem Fails.symbol_cons {place : Position} (hsymbol : symbol? c = some symbol)
    (h : Fails (place.next c) rest e) : Fails place (c :: rest) e := by
  have hrest : Fails (place.after ([] ++ [c])) rest e := h
  have hfails := Fails.later blank_nil (longest_symbol hsymbol rest) hrest
  exact hfails

/-!
## Behind a lexeme
-/

theorem longest_before_symbol (h : Spells chars meaning) (hopen : openQuote false chars = false)
    (hsymbol : symbol? c = some symbol) (more : List Char) :
    Longest chars (c :: more) meaning := by
  have hseparates : separates c = true := by
    rw [separates, hsymbol, Option.isSome_some, Bool.or_true]
  exact (longest_of_spells h).append_of_separates hopen hseparates more

theorem Cut.of_spells_symbol (place : Position) (h : Spells chars (.ok kind))
    (hsymbol : symbol? c = some symbol) :
    Cut place (chars ++ [c]) [⟨kind, place⟩, ⟨symbol, place.after chars⟩,
      ⟨.eof, (place.after chars).next c⟩] := by
  have hend : Cut (place.after ([] ++ chars)) [c] _ := .symbol_cons hsymbol (.done blank_nil)
  have hcut := Cut.lexeme blank_nil (longest_before_symbol h h.openQuote_eq hsymbol []) hend
  exact hcut

theorem Fails.of_spells_symbol (place : Position) (h : Spells chars (.error flaw))
    (hopen : openQuote false chars = false) (hsymbol : symbol? c = some symbol) :
    Fails place (chars ++ [c]) ⟨place, flaw⟩ := by
  have hfails : Fails place ([] ++ (chars ++ [c])) ⟨place, flaw⟩ :=
    .flaw blank_nil (longest_before_symbol h hopen hsymbol [])
  exact hfails

end Token
end Lisan
