import Lisan.Proofs.Grammar.Productions
import Lisan.Proofs.Grammar.View
import Lisan.Proofs.Run.View
import Lisan.Proofs.Token.Seam

/-!
# Programs one behind the other

Two texts that are programs are one program with a line feed between them: the statements
of the first and then those of the second, whose operators are further down. Running it is
running the one and then the other, in whatever state the first leaves behind.
-/

namespace Lisan

variable {H : Type}

/-!
## The tree of both texts
-/

namespace Program

open Grammar

theorem ofTokens_of_repeated {tokens : List Token} {mark : Token} {body : List (Stmt H)}
    (htokens : forall token, token ∈ tokens -> token.isEof = false) (hmark : mark.isEof = true)
    (h : Repeated Statement tokens body) : ofTokens (tokens ++ [mark]) = .ok (.block body) := by
  have hbefore : beforeEnd (tokens ++ [mark]) = tokens := beforeEnd_append htokens hmark []
  apply ofTokens_of_program
  rw [hbefore]
  exact program_of_repeated h (Nat.lt_succ_self _)

theorem ofText_joined {s t : String} {tree other : Stmt H}
    (hs : ofText s = .ok tree) (ht : ofText t = .ok other) :
    exists body others, tree = .block body ∧ other = .block others ∧
      (ofText (Token.joined s t) : Except (Failure H) (Stmt H)) =
        .ok (.block (body ++ others.map
          (Stmt.through (.lower (Position.lines s.toList))))) := by
  rcases exists_of_ofText hs with ⟨tokens, htokens, hread⟩
  rcases exists_of_ofText ht with ⟨tokens', htokens', hread'⟩
  rcases exists_of_ofTokens hread with ⟨body, rest, htree, hbody⟩
  rcases exists_of_ofTokens hread' with ⟨others, rest', hother, hothers⟩
  have hall := Token.ofText_joined htokens htokens'
  rcases (Token.cut_of_ofText htokens).exists_front with ⟨front, rfl, hfront⟩
  rcases (Token.cut_of_ofText htokens').exists_front with ⟨front', rfl, hfront'⟩
  rw [beforeEnd_append hfront rfl] at hbody
  rw [beforeEnd_append hfront' rfl] at hothers
  rw [List.dropLast_concat, List.map_append, <- List.append_assoc] at hall
  have hnames : (View.lower (Position.lines s.toList)).name = id := rfl
  have hlowered := program_through hnames rfl hothers
  have hrepeated := repeated_append (repeated_of_program .intro .intro hbody) hlowered
  have hmoved : forall token,
      token ∈ front ++ front'.map (Token.lower (Position.lines s.toList)) ->
      token.isEof = false := by
    intro token htoken
    rcases List.mem_append.mp htoken with htoken | htoken
    · exact hfront token htoken
    · rcases List.mem_map.mp htoken with ⟨unmoved, hunmoved, rfl⟩
      exact hfront' unmoved hunmoved
  exact ⟨body, others, htree, hother,
    ofText_of_ofTokens hall (ofTokens_of_repeated hmoved rfl hrepeated)⟩

end Program

/-!
## The run of both trees
-/

namespace Run

theorem sequence_append (execute : Stmt H -> Run H (Value H)) (body others : List (Stmt H))
    (last : Value H) :
    sequence execute (body ++ others) last =
      sequence execute body last >>= fun value => sequence execute others value := by
  induction body generalizing last with
  | nil => rw [List.nil_append, sequence, pure_bind]
  | cons s rest ih =>
      rw [List.cons_append, sequence, sequence, bind_assoc]
      congr 1
      funext value
      exact ih value

end Run

namespace Program

/-- Runs one program and then another. The value is that of the second, unless it has no
statements. -/
def oneByOne (host : Host H) (body others : List (Stmt H)) (fuel : Nat) : Run H (Value H) := do
  let first <- (Stmt.block body).exec host fuel
  let second <- (Stmt.block others).exec host fuel
  return if others.isEmpty then first else second

theorem oneByOne_eq_exec (host : Host H) (body others : List (Stmt H)) (fuel : Nat) :
    oneByOne host body others fuel = (Stmt.block (body ++ others)).exec host fuel := by
  cases fuel with
  | zero => rfl
  | succ fuel =>
      show _ = Run.sequence (Stmt.exec host fuel) (body ++ others) .default
      rw [Run.sequence_append]
      show (do
        let first <- Run.sequence (Stmt.exec host fuel) body .default
        let second <- Run.sequence (Stmt.exec host fuel) others .default
        return if others.isEmpty then first else second) = _
      congr 1
      funext first
      cases others with
      | nil => simp only [Run.sequence, pure_bind, List.isEmpty_nil, if_true]
      | cons s rest =>
          simp only [Run.sequence, List.isEmpty_cons, Bool.false_eq_true, if_false, bind_pure]

theorem through_placeless_of_lower (body others : List (Stmt H)) (lines : Nat) :
    (Stmt.block (body ++ others.map (Stmt.through (.lower lines)))).through .placeless =
      (Stmt.block (body ++ others)).through .placeless := by
  have hlower : Stmt.through .placeless ∘ Stmt.through (.lower lines) =
      (Stmt.through .placeless : Stmt H -> Stmt H) := by
    funext s
    rw [Function.comp_apply, Stmt.through_through, View.lower_andThen_placeless]
  simp only [Stmt.through, Stmt.allThrough_eq_map, List.map_append, List.map_map, hlower]

end Program

/-- Two texts that are programs are one with a line feed between them: the statements of
the first and then those of the second, with the operators of these further down by the
lines of the first. From any state, running it comes to the same as running the first and
then the second, up to the places of operators in stored functions, if the host does not
look at these; and what programs are lent does not. -/
theorem run_joined {s t : String} {tree other : Stmt H}
    (hs : Program.ofText s = .ok tree) (ht : Program.ofText t = .ok other) :
    (exists body others, tree = .block body ∧ other = .block others ∧
      exists whole : Stmt H,
        whole = .block (body ++ others.map (Stmt.through (.lower (s.toList.count '\n' + 1)))) ∧
        Program.ofText (s ++ "\n" ++ t) = .ok whole ∧
        forall host : Host H, host.Respects .placeless -> forall state : State H,
          Agree (Outcome.Alike .placeless) (fun fuel => whole.exec host fuel)
            (Program.oneByOne host body others) state state) ∧
    Capability.host.Respects .placeless := by
  rcases Program.ofText_joined hs ht with ⟨body, others, htree, hother, hwhole⟩
  refine ⟨⟨body, others, htree, hother, _, rfl, hwhole, ?_⟩, Capability.host_respects .placeless⟩
  intro host hhost state
  -- the statements of the second text are the same but for their places
  have hplaces := Program.through_placeless_of_lower body others (Position.lines s.toList)
  refine agree_of_follows ?_ ?_ rfl
  · intro fuel
    simp only [Program.oneByOne_eq_exec]
    exact (run_follows hhost fuel).right _ _ hplaces
  · intro fuel
    rw [Program.oneByOne_eq_exec]
    exact (run_follows hhost fuel).right _ _ hplaces.symm

theorem run_joined_of_stored_function :
    let s := "داله غ() \x7b\nه = 1 + 2. \x7d"
    let t := "غ() - ه."
    let body : List (Stmt Capability) := [.define "غ" []
      (.block [.expr (.assign "ه"
        (.binary (.literal (.int 1)) ⟨.plus, ⟨2, 7⟩⟩ (.literal (.int 2))))])]
    let others (line : Int) : List (Stmt Capability) :=
      [.expr (.binary (.call (.var "غ") []) ⟨.minus, ⟨line, 5⟩⟩ (.var "ه"))]
    Program.ofText s = .ok (.block body) ∧ Program.ofText t = .ok (.block (others 1)) ∧
      Program.ofText (s ++ "\n" ++ t) = .ok (.block (body ++ others 3)) ∧
      forall state : State Capability,
        Agree (Outcome.Alike .placeless)
          (fun fuel => (Stmt.block (body ++ others 3)).exec Capability.host fuel)
          (Program.oneByOne Capability.host body (others 1)) state state := by
  intro s t body others
  have hs : Program.ofText s = .ok (.block body) := by
    have htokens : (Token.ofText s).toOption = some [⟨.functionWord, ⟨1, 1⟩⟩,
        ⟨.name "غ", ⟨1, 6⟩⟩, ⟨.openParen, ⟨1, 7⟩⟩, ⟨.closeParen, ⟨1, 8⟩⟩, ⟨.openBrace, ⟨1, 10⟩⟩,
        ⟨.name "ه", ⟨2, 1⟩⟩, ⟨.assign, ⟨2, 3⟩⟩, ⟨.int 1, ⟨2, 5⟩⟩, ⟨.plus, ⟨2, 7⟩⟩,
        ⟨.int 2, ⟨2, 9⟩⟩, ⟨.dot, ⟨2, 10⟩⟩, ⟨.closeBrace, ⟨2, 12⟩⟩, ⟨.eof, ⟨2, 13⟩⟩] := by
      decide +kernel
    exact Program.ofText_of_toOption htokens rfl
  have ht : Program.ofText t = .ok (.block (others 1)) := by
    have htokens : (Token.ofText t).toOption = some [⟨.name "غ", ⟨1, 1⟩⟩, ⟨.openParen, ⟨1, 2⟩⟩,
        ⟨.closeParen, ⟨1, 3⟩⟩, ⟨.minus, ⟨1, 5⟩⟩, ⟨.name "ه", ⟨1, 7⟩⟩, ⟨.dot, ⟨1, 8⟩⟩,
        ⟨.eof, ⟨1, 9⟩⟩] := by
      decide +kernel
    exact Program.ofText_of_toOption htokens rfl
  have hlines : s.toList.count '\n' + 1 = 2 := by decide +kernel
  rcases run_joined hs ht with
    ⟨⟨first, second, hfirst, hsecond, whole, hwhole, hread, hruns⟩, hhost⟩
  cases hfirst
  cases hsecond
  rw [hlines] at hwhole
  cases hwhole
  exact ⟨hs, ht, hread, hruns Capability.host hhost⟩

def Host.lineReader : Host Unit := fun _ state =>
  match state.store.get "غ" with
  | .function _ (.block (.expr (.binary _ operator _) :: _)) => (.int operator.start.line, state)
  | _ => (.default, state)

/-- A host that looks at places sees that the second text is further down. -/
theorem run_joined_fails_for_lineReader :
    let t := "داله غ() \x7b 1 + 2. \x7d ن()."
    let others (line : Int) : List (Stmt Unit) :=
      [.define "غ" [] (.block
          [.expr (.binary (.literal (.int 1)) ⟨.plus, ⟨line, 14⟩⟩ (.literal (.int 2)))]),
        .expr (.call (.var "ن") [])]
    let state : State Unit := (Run.initial .empty).assign "ن" (.native [] ())
    Program.ofText "" = .ok (.block ([] : List (Stmt Unit))) ∧
      Program.ofText t = .ok (.block (others 1)) ∧
      Program.ofText ("" ++ "\n" ++ t) = .ok (.block (others 2)) ∧
      (exists last, (Stmt.block (others 2)).exec .lineReader 5 state = .ok (.int 2) last) ∧
      (exists last, Program.oneByOne .lineReader [] (others 1) 5 state = .ok (.int 1) last) ∧
      Not (Agree (Outcome.Alike .placeless)
        (fun fuel => (Stmt.block (others 2)).exec .lineReader fuel)
        (Program.oneByOne .lineReader [] (others 1)) state state) := by
  intro t others state
  let tokens (line : Int) : List Token :=
    [⟨.functionWord, ⟨line, 1⟩⟩, ⟨.name "غ", ⟨line, 6⟩⟩, ⟨.openParen, ⟨line, 7⟩⟩,
      ⟨.closeParen, ⟨line, 8⟩⟩, ⟨.openBrace, ⟨line, 10⟩⟩, ⟨.int 1, ⟨line, 12⟩⟩,
      ⟨.plus, ⟨line, 14⟩⟩, ⟨.int 2, ⟨line, 16⟩⟩, ⟨.dot, ⟨line, 17⟩⟩, ⟨.closeBrace, ⟨line, 19⟩⟩,
      ⟨.name "ن", ⟨line, 21⟩⟩, ⟨.openParen, ⟨line, 22⟩⟩, ⟨.closeParen, ⟨line, 23⟩⟩,
      ⟨.dot, ⟨line, 24⟩⟩, ⟨.eof, ⟨line, 25⟩⟩]
  have hempty : Program.ofText "" = .ok (.block ([] : List (Stmt Unit))) := by
    have htokens : (Token.ofText "").toOption = some [⟨.eof, ⟨1, 1⟩⟩] := by decide +kernel
    exact Program.ofText_of_toOption htokens rfl
  have ht : Program.ofText t = .ok (.block (others 1)) := by
    have htokens : (Token.ofText t).toOption = some (tokens 1) := by decide +kernel
    exact Program.ofText_of_toOption htokens rfl
  have hjoined : Program.ofText ("" ++ "\n" ++ t) = .ok (.block (others 2)) := by
    have htokens : (Token.ofText ("" ++ "\n" ++ t)).toOption = some (tokens 2) := by
      decide +kernel
    exact Program.ofText_of_toOption htokens rfl
  have htwo : exists last,
      (Stmt.block (others 2)).exec .lineReader 5 state = .ok (.int 2) last := ⟨_, rfl⟩
  have hone : exists last,
      Program.oneByOne .lineReader [] (others 1) 5 state = .ok (.int 1) last := ⟨_, rfl⟩
  refine ⟨hempty, ht, hjoined, htwo, hone, ?_⟩
  intro hagree
  rcases htwo with ⟨last, htwo⟩
  rcases hone with ⟨last', hone⟩
  rw [Program.oneByOne_eq_exec] at hone
  simp only [funext (Program.oneByOne_eq_exec _ _ _)] at hagree
  have hend : Not (Starved ((Stmt.block (others 2)).exec .lineReader 5 state)) := by
    rw [htwo]
    exact not_starved_ok
  have hend' : Not (Starved ((Stmt.block ([] ++ others 1)).exec .lineReader 5 state)) := by
    rw [hone]
    exact not_starved_ok
  have halike := hagree.alike hend hend'
  rw [htwo, hone] at halike
  cases halike

end Lisan
