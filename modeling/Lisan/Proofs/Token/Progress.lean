import Lisan.Proofs.Token.Places

/-!
# Progress of scanning

Scans use a text up, one behind the other, also when some of them fail. Each takes the
blanks that come next and at least one character behind them, and leaves the cursor where
the next can go on. So the end is met after as many scans as there are characters that are
no blanks, and from then on it is met again and again at the same place.
-/

namespace Lisan
namespace Token

open Position (behind)

/-- The part of a text that a scan takes, from what was taken before it to what it leaves,
and what it gives for it. A failed scan takes the character that it does not know, a whole
run of digits, or all that is left. -/
inductive Takes (before : List Char) :
    List Char -> List Char -> Except ScanError Token -> Prop where
  | ended {blanks : List Char} :
      Blank blanks -> Takes before blanks [] (.ok ⟨.eof, behind (before ++ blanks)⟩)
  | token {blanks tail rest : List Char} {c : Char} {kind : Kind} :
      Blank blanks -> Script.isBlank c = false -> Longest (c :: tail) rest (.ok kind) ->
      kind ≠ .eof ->
      Takes before (blanks ++ c :: tail) rest (.ok ⟨kind, behind (before ++ blanks)⟩)
  | strange {blanks rest : List Char} {c : Char} :
      Blank blanks -> Script.isBlank c = false ->
      Takes before (blanks ++ [c]) rest
        (.error ⟨behind (before ++ blanks), .unknownCharacter c⟩)
  | largeNumber {blanks digits rest : List Char} :
      Blank blanks -> Numbered digits ->
      (forall d, rest.head? = some d -> Script.isDigit d = false) ->
      Takes before (blanks ++ digits) rest
        (.error ⟨behind (before ++ blanks), .numberOutOfRange (normal digits)⟩)
  | unterminated {blanks body : List Char} :
      Blank blanks -> '"' ∉ body ->
      Takes before (blanks ++ '"' :: body) []
        (.error ⟨behind (before ++ blanks), .unterminatedString⟩)

def inkCount (chars : List Char) : Nat :=
  chars.countP fun c => !Script.isBlank c

theorem inkCount_append (front back : List Char) :
    inkCount (front ++ back) = inkCount front + inkCount back :=
  List.countP_append

theorem inkCount_pos {blanks tail : List Char} {c : Char} (h : Script.isBlank c = false) :
    0 < inkCount (blanks ++ c :: tail) := by
  rw [inkCount, List.countP_pos_iff]
  refine ⟨c, List.mem_append_right blanks List.mem_cons_self, ?_⟩
  rw [h]
  rfl

namespace Takes

variable {before blanks chars part rest : List Char} {result : Except ScanError Token}

theorem of_longest {meaning : Except Flaw Kind} (hblank : Blank blanks)
    (hlongest : Longest chars rest meaning) :
    Takes before (blanks ++ chars) rest (placed (behind (before ++ blanks)) meaning) := by
  have hspells := hlongest.spells
  cases meaning with
  | ok kind =>
      rcases spells_head hspells with ⟨c, tail, rfl, hc⟩
      exact .token hblank hc hlongest (kind_ne_eof_of_spells hspells)
  | error flaw =>
      cases hspells with
      | strange hstrange => exact .strange hblank hstrange.notBlank
      | largeNumber hnumbered _ =>
          exact .largeNumber hblank hnumbered fun _ => hlongest.numbered_stop hnumbered
      | unterminated hbody =>
          rw [hlongest.unterminated_stop hbody]
          exact .unterminated hblank hbody

theorem ended_or_moved (h : Takes before part rest result) :
    (Blank part ∧ rest = []) ∨
      (0 < inkCount part ∧ forall token, result = .ok token -> token.isEof = false) := by
  cases h with
  | ended hblank => exact .inl ⟨hblank, rfl⟩
  | token hblank hc _ hkind =>
      refine .inr ⟨inkCount_pos hc, ?_⟩
      intro token htoken
      cases htoken
      exact beq_eq_false_iff_ne.mpr hkind
  | strange hblank hc => exact .inr ⟨inkCount_pos hc, nofun⟩
  | largeNumber hblank hnumbered =>
      cases hnumbered with
      | intro hdigit _ => exact .inr ⟨inkCount_pos (isBlank_eq_false (.inr hdigit)), nofun⟩
  | unterminated => exact .inr ⟨inkCount_pos rfl, nofun⟩

end Takes

namespace Cursor

def resumed (cursor : Cursor) : Nat -> Cursor
  | 0 => cursor
  | count + 1 => (cursor.resumed count).scan.2

/-- The part of the text that the next scan takes, by the bytes that the cursor counts. -/
def segment (cursor : Cursor) : String :=
  cursor.slice cursor.index cursor.scan.2.index

def taken (cursor : Cursor) : Nat -> String
  | 0 => ""
  | count + 1 => cursor.taken count ++ (cursor.resumed count).segment

theorem resumed_scan (cursor : Cursor) (count : Nat) :
    cursor.scan.2.resumed count = cursor.resumed (count + 1) := by
  induction count with
  | zero => rfl
  | succ count ih => rw [resumed, ih, <- resumed]

theorem scanMany_eq_map (cursor : Cursor) (count : Nat) :
    cursor.scanMany count = (List.range count).map fun i => (cursor.resumed i).scan.1 := by
  induction count generalizing cursor with
  | zero => rfl
  | succ count ih =>
      rw [scanMany, ih, List.range_succ_eq_map, List.map_cons, List.map_map]
      simp only [resumed_scan, resumed, Function.comp_def]

/-!
## One scan
-/

def Between (cursor : Cursor) (before following : List Char) : Prop :=
  exists passed lexeme, before = passed ++ lexeme ∧ cursor.Stands passed lexeme following

variable {cursor : Cursor} {before following part rest : List Char}

theorem ofText_between (text : String) : (ofText text).Between [] text.toList :=
  ⟨[], [], rfl, ofText_stands text⟩

theorem Between.input (h : cursor.Between before following) :
    cursor.input = String.ofList (before ++ following) := by
  rcases h with ⟨passed, lexeme, rfl, hstands⟩
  exact hstands.input

theorem Between.pending (h : cursor.Between before following) : cursor.pending = following := by
  rcases h with ⟨passed, lexeme, rfl, hstands⟩
  exact hstands.pending

theorem Between.index (h : cursor.Between before following) :
    cursor.index = String.utf8Len before := by
  rcases h with ⟨passed, lexeme, rfl, hstands⟩
  rw [String.utf8Len_append]
  exact hstands.index

theorem Between.scan (h : cursor.Between before following) :
    exists part rest, following = part ++ rest ∧ Takes before part rest cursor.scan.1 ∧
      cursor.scan.2.Between (before ++ part) rest := by
  rcases h with ⟨passed, lexeme, rfl, hstands⟩
  rcases blank_or_longest following with
    hblank | ⟨blanks, chars, rest, meaning, rfl, hblank, hlongest⟩
  · refine ⟨following, [], (List.append_nil following).symm, ?_, ?_⟩
    · rw [scan_of_blank hstands hblank, Position.start_after]
      exact .ended hblank
    · exact ⟨_, [], (List.append_nil _).symm, scan_stands_of_blank hstands hblank⟩
  · rcases scan_of_longest hstands hblank hlongest with ⟨hscan, hlast⟩
    refine ⟨blanks ++ chars, rest, (List.append_assoc blanks chars rest).symm, ?_, ?_⟩
    · rw [hscan, Position.start_after]
      exact .of_longest hblank hlongest
    · exact ⟨_, chars, (List.append_assoc _ blanks chars).symm, hlast⟩

theorem segment_of_between (h : cursor.Between before (part ++ rest))
    (hlast : cursor.scan.2.Between (before ++ part) rest) :
    cursor.segment = String.ofList part := by
  rw [segment, slice, h.input, h.index, hlast.index, String.utf8Len_append, <- List.append_assoc]
  exact String.extract_of_valid before part rest

/-!
## Many scans
-/

theorem resumed_between (text : String) (count : Nat) :
    exists following, text.toList = ((ofText text).taken count).toList ++ following ∧
      ((ofText text).resumed count).Between ((ofText text).taken count).toList following := by
  induction count with
  | zero => exact ⟨text.toList, rfl, ofText_between text⟩
  | succ count ih =>
      rcases ih with ⟨following, htext, hcursor⟩
      rcases hcursor.scan with ⟨part, rest, rfl, _, hlast⟩
      exists rest
      rw [taken, resumed, segment_of_between hcursor hlast, String.toList_append,
        String.toList_ofList, List.append_assoc]
      exact ⟨htext, hlast⟩

theorem resumed_takes (text : String) (count : Nat) :
    Takes ((ofText text).taken count).toList ((ofText text).resumed count).segment.toList
      ((ofText text).resumed (count + 1)).pending ((ofText text).resumed count).scan.1 := by
  rcases resumed_between text count with ⟨following, _, hcursor⟩
  rcases hcursor.scan with ⟨part, rest, rfl, htakes, hlast⟩
  rw [resumed, hlast.pending, segment_of_between hcursor hlast, String.toList_ofList]
  exact htakes

theorem scan_of_between_blank (h : cursor.Between before following) (hblank : Blank following) :
    cursor.scan.1 = .ok ⟨.eof, behind (before ++ following)⟩ ∧
      cursor.scan.2.Between (before ++ following) [] := by
  rcases h with ⟨passed, lexeme, rfl, hstands⟩
  rw [scan_of_blank hstands hblank, Position.start_after]
  exact ⟨rfl, _, [], (List.append_nil _).symm, scan_stands_of_blank hstands hblank⟩

theorem resumed_of_between_blank (h : cursor.Between before following) (hblank : Blank following)
    (count : Nat) :
    (cursor.resumed count).scan.1 = .ok ⟨.eof, behind (before ++ following)⟩ := by
  induction count generalizing cursor before following with
  | zero => exact (scan_of_between_blank h hblank).left
  | succ count ih =>
      have hlast := (scan_of_between_blank h hblank).right
      rw [<- resumed_scan, ih hlast fun c hc => absurd hc List.not_mem_nil, List.append_nil]

theorem exists_end (h : cursor.Between before following) :
    exists first, first ≤ inkCount following ∧
      (forall i, i < first -> forall token, (cursor.resumed i).scan.1 = .ok token ->
        token.isEof = false) ∧
      forall i, first ≤ i ->
        (cursor.resumed i).scan.1 = .ok ⟨.eof, behind (before ++ following)⟩ := by
  -- each scan before the end leaves fewer characters that are no blanks
  induction hink : inkCount following using Nat.strongRecOn generalizing
    cursor before following with
  | ind ink ih =>
      rcases h.scan with ⟨part, rest, rfl, htakes, hlast⟩
      rcases htakes.ended_or_moved with ⟨hblank, rfl⟩ | ⟨hpart, htoken⟩
      · rw [List.append_nil] at h ⊢
        refine ⟨0, Nat.zero_le ink, fun i hi => absurd hi (Nat.not_lt_zero i), ?_⟩
        exact fun i _ => resumed_of_between_blank h hblank i
      · rw [inkCount_append] at hink
        have hless : inkCount rest < ink := by omega
        rcases ih (inkCount rest) hless hlast rfl with ⟨first, hfirst, hbefore, hbehind⟩
        refine ⟨first + 1, by omega, ?_, ?_⟩
        · intro i hi
          cases i with
          | zero => exact htoken
          | succ i =>
              rw [<- resumed_scan]
              exact hbefore i (Nat.lt_of_succ_lt_succ hi)
        · intro i hi
          cases i with
          | zero => exact absurd hi (Nat.not_succ_le_zero first)
          | succ i =>
              rw [<- resumed_scan, hbehind i (Nat.le_of_succ_le_succ hi), List.append_assoc]

/-- What scans take, failed or not, makes up the text together with what is left, and each
takes blanks and something behind them, or nothing is left but the end. That is met after
as many scans as there are characters that are no blanks, or earlier, and then each time. -/
theorem scans_use_up (text : String) :
    let cursor := (ofText text).resumed
    (forall count,
      (ofText text).scanMany count = (List.range count).map fun i => (cursor i).scan.1) ∧
    (forall count,
      text = (ofText text).taken count ++ String.ofList (cursor count).pending) ∧
    (forall count,
      Takes ((ofText text).taken count).toList (cursor count).segment.toList
        (cursor (count + 1)).pending (cursor count).scan.1) ∧
    exists first, first ≤ inkCount text.toList ∧
      (forall count, count < first -> forall token, (cursor count).scan.1 = .ok token ->
        token.isEof = false) ∧
      forall count, first ≤ count ->
        (cursor count).scan.1 = .ok ⟨.eof, behind text.toList⟩ ∧
          (cursor (count + 1)).pending = [] := by
  intro cursor
  constructor
  · exact scanMany_eq_map (ofText text)
  constructor
  · intro count
    rcases resumed_between text count with ⟨following, htext, hcursor⟩
    rw [<- String.toList_inj, htext, String.toList_append, String.toList_ofList,
      hcursor.pending]
  constructor
  · exact resumed_takes text
  · rcases exists_end (ofText_between text) with ⟨first, hfirst, hbefore, hbehind⟩
    refine ⟨first, hfirst, hbefore, ?_⟩
    intro count hcount
    have hend := hbehind count hcount
    refine ⟨hend, ?_⟩
    rcases (resumed_takes text count).ended_or_moved with ⟨_, hnothing⟩ | ⟨_, hmoved⟩
    · exact hnothing
    · cases hmoved _ hend

example : (List.range 4).map (fun i => ((ofText " %١_\"").resumed i).segment) =
    [" %", "١", "_", "\""] := by
  decide +kernel

end Cursor
end Token
end Lisan
