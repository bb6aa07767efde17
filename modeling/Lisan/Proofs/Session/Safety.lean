import Lisan.Capability
import Lisan.Proofs.Grammar.Shapes
import Lisan.Proofs.Run.Safety
import Lisan.Session

/-!
# Safety of sessions

Texts have well-formed trees, so a session on well-formed values never meets a token
in the place of an operator that is none, whatever it is asked to do.
-/

namespace Lisan

variable {H : Type} {shape : Shape H}

/-- An outcome for want of an operator. -/
def Panics (outcome : EStateM.Result (Halt H) (State H) α) : Prop :=
  exists family kind state, outcome = .error (.noOperator family kind) state

theorem Kept.not_panics {post : α -> Prop} {outcome : EStateM.Result (Halt H) (State H) α}
    (h : Kept shape post outcome) : Not (Panics outcome) := by
  rintro ⟨family, kind, state, rfl⟩
  cases h with
  | error hhalt _ => exact hhalt.ne_noOperator family kind rfl

inductive Failure.Formed (shape : Shape H) : Failure H -> Prop where
  | scan (e : Token.ScanError) : Failure.Formed shape (.scan e)
  | parse (e : SyntaxError) : Failure.Formed shape (.parse e)
  | halt {h : Halt H} : h.Formed shape -> Failure.Formed shape (.halt h)
  | file (e : FileError) : Failure.Formed shape (.file e)

inductive Program.Left (shape : Shape H) :
    EStateM.Result (Failure H) (State H) (Value H) -> Prop where
  | ok {value : Value H} {state : State H} :
      value.Formed shape -> state.Formed shape -> Program.Left shape (.ok value state)
  | error {e : Failure H} {state : State H} :
      e.Formed shape -> state.Formed shape -> Program.Left shape (.error e state)

namespace Program

variable {host : Host H} {state : State H}

theorem failure_formed_of_ofText {text : String} {e : Failure H} (h : ofText text = .error e) :
    e.Formed shape := by
  simp only [ofText] at h
  split at h
  · cases h
    exact .scan _
  · split at h
    · cases h
      exact .parse _
    · cases h

theorem left_of_runTree (hhost : host.Keeps shape) {tree : Stmt H} (htree : tree.Formed shape)
    (hstate : state.Formed shape) (fuel : Nat) : Left shape (runTree host fuel tree state) := by
  have hkept := hhost.exec_kept htree hstate fuel
  rw [runTree]
  cases hrun : tree.exec host fuel state with
  | ok value last =>
      rw [hrun] at hkept
      cases hkept with
      | ok hvalue hlast => exact .ok hvalue hlast
  | error halt last =>
      rw [hrun] at hkept
      cases hkept with
      | error hhalt hlast => exact .error (.halt hhalt) hlast

theorem left_of_interpret (hhost : host.Keeps shape)
    (hbody : forall body, shape.body (.block body)) (hstate : state.Formed shape)
    (fuel : Nat) (text : String) : Left shape (interpret host fuel text state) := by
  rw [interpret]
  cases htext : ofText text with
  | ok tree => exact left_of_runTree hhost (formed_of_ofText hbody htext) hstate fuel
  | error e => exact .error (failure_formed_of_ofText htext) hstate

end Program

namespace Session

structure Formed (shape : Shape H) (session : Session H) : Prop where
  state : session.state.Formed shape
  kept : session.kept.Formed shape

inductive Command.Formed (shape : Shape H) : Command H -> Prop where
  | evaluate (text : String) : Command.Formed shape (.evaluate text)
  | evaluateTree {tree : Stmt H} :
      tree.Formed shape -> Command.Formed shape (.evaluateTree tree)
  | interpret (text : String) : Command.Formed shape (.interpret text)
  | assign {name : String} {value : Value H} :
      value.Formed shape -> Command.Formed shape (.assign name value)
  | defineNative {name : String} {params : List String} {handle : H} :
      shape.handle handle -> Command.Formed shape (.defineNative name params handle)
  | save : Command.Formed shape .save
  | restore : Command.Formed shape .restore

/-- The one session comes from the other by well-formed commands, each with fuel of
its own. -/
inductive Follows (host : Host H) (shape : Shape H) : Session H -> Session H -> Prop where
  | refl {session : Session H} : Follows host shape session session
  | step {session middle : Session H} {fuel : Nat} {command : Command H} :
      Follows host shape session middle -> command.Formed shape ->
      Follows host shape session (middle.step host fuel command).2

inductive Answer.Formed (shape : Shape H) : Except (Failure H) (Option (Value H)) -> Prop where
  | none : Answer.Formed shape (.ok none)
  | some {value : Value H} : value.Formed shape -> Answer.Formed shape (.ok (some value))
  | error {e : Failure H} : e.Formed shape -> Answer.Formed shape (.error e)

section Steps

variable {host : Host H} {session : Session H}

theorem settle_formed (h : session.Formed shape)
    {outcome : EStateM.Result (Failure H) (State H) (Value H)}
    (hleft : Program.Left shape outcome) :
    Answer.Formed shape (session.settle outcome).1 ∧ (session.settle outcome).2.Formed shape := by
  cases hleft with
  | ok hvalue hstate => exact ⟨.some hvalue, hstate, h.kept⟩
  | error he hstate => exact ⟨.error he, hstate, h.kept⟩

theorem step_formed (hhost : host.Keeps shape) (hbody : forall body, shape.body (.block body))
    (h : session.Formed shape) (fuel : Nat) {command : Command H}
    (hcommand : command.Formed shape) :
    Answer.Formed shape (session.step host fuel command).1 ∧
      (session.step host fuel command).2.Formed shape := by
  cases hcommand with
  | evaluate text =>
      exact settle_formed h (Program.left_of_interpret hhost hbody h.state fuel text)
  | evaluateTree htree =>
      exact settle_formed h (Program.left_of_runTree hhost htree h.state fuel)
  | interpret text =>
      have hleft := Program.left_of_interpret hhost hbody h.state fuel text
      rw [step]
      cases hrun : Program.interpret host fuel text session.state with
      | ok value state =>
          rw [hrun] at hleft
          exact settle_formed h hleft
      | error e state =>
          rw [hrun] at hleft
          cases hleft with
          | error he _ =>
              -- what was said stays said, and the store is the one from before
              exact settle_formed h (.error he h.state)
  | assign hvalue => exact ⟨.none, h.state.assign _ hvalue, h.kept⟩
  | defineNative hhandle => exact ⟨.none, h.state.assign _ (.native hhandle), h.kept⟩
  | save => exact ⟨.none, h.state, h.state⟩
  | restore => exact ⟨.none, h.kept, h.kept⟩

theorem follows_formed (hhost : host.Keeps shape)
    (hbody : forall body, shape.body (.block body)) {last : Session H}
    (hfollows : Follows host shape session last) (h : session.Formed shape) :
    last.Formed shape := by
  induction hfollows with
  | refl => exact h
  | step _ hcommand ih => exact (step_formed hhost hbody ih _ hcommand).right

end Steps

end Session

/-- The tree of every text has operators where operators stand and blocks for bodies.
From well-formed values a well-formed statement passes through well-formed values only,
in whatever it starts and wherever that is left, and never halts for want of an
operator; and no more does a session, whatever it was asked to do before. -/
theorem programs_never_panic {host : Host H} {handle : H -> Prop}
    (hhost : host.Keeps (.operators handle)) :
    (forall (text : String) (tree : Stmt H), Program.ofText text = .ok tree ->
      tree.Formed (.operators handle) ∧ tree.Formed (.blocks handle)) ∧
    (forall (s : Stmt H) (state : State H),
      s.Formed (.operators handle) -> state.Formed (.operators handle) ->
      forall (task : Task H) (reached : State H),
        Reaches host (.exec s, state) (task, reached) ->
          reached.Formed (.operators handle) ∧
          (forall ending last, Ends host task reached ending last ->
            last.Formed (.operators handle)) ∧
          forall fuel count,
            Kept (.operators handle) (Value.Formed (.operators handle))
              (task.run host fuel count reached) ∧
            Not (Panics (task.run host fuel count reached))) ∧
    (forall session last : Session H, session.Formed (.operators handle) ->
      Session.Follows host (.operators handle) session last ->
        last.Formed (.operators handle) ∧
        forall fuel command, command.Formed (.operators handle) -> forall family kind,
          (last.step host fuel command).1 ≠ .error (.halt (.noOperator family kind))) := by
  refine ⟨?_, ?_, ?_⟩
  · intro text tree h
    constructor
    · exact Program.formed_of_ofText (fun _ => trivial) h
    · exact Program.formed_of_ofText Stmt.IsBlock.intro h
  · intro s state hs hstate task reached hreaches
    rcases hhost.reaches_safe hreaches (fun _ => hs) hstate with ⟨hreached, hends, hkept⟩
    refine ⟨hreached, hends, ?_⟩
    intro fuel count
    exact ⟨hkept fuel count, (hkept fuel count).not_panics⟩
  · intro session last hsession hfollows
    have hblocks : forall body, (Shape.operators handle).body (.block body) := fun _ => trivial
    have hlast := Session.follows_formed hhost hblocks hfollows hsession
    refine ⟨hlast, ?_⟩
    intro fuel command hcommand family kind hpanic
    have hanswer := (Session.step_formed hhost hblocks hlast fuel hcommand).left
    rw [hpanic] at hanswer
    cases hanswer with
    | error hfailure =>
        cases hfailure with
        | halt hhalt => exact hhalt.ne_noOperator family kind rfl

theorem stored_function_never_panics :
    let handle := fun capability : Capability => capability = .say
    let definition := "داله ف(ا) \x7b ا + 1. \x7d"
    let call := "ه = 1 + ف(2)."
    let body : Stmt Capability :=
      .block [.expr (.binary (.var "ا") ⟨.plus, ⟨1, 15⟩⟩ (.literal (.int 1)))]
    let tree : Stmt Capability := .block [.expr (.assign "ه"
      (.binary (.literal (.int 1)) ⟨.plus, ⟨1, 7⟩⟩ (.call (.var "ف") [.literal (.int 2)])))]
    let session : Session Capability := ⟨Run.initial .withSay, .empty⟩
    let stored := (session.step Capability.host 9 (.evaluate definition)).2
    Capability.host.Keeps (.operators handle) ∧ session.Formed (.operators handle) ∧
      Session.Follows Capability.host (.operators handle) session stored ∧
      stored.state.store.get "ف" = .function ["ا"] body ∧
      Program.ofText call = .ok tree ∧ tree.Formed (.operators handle) ∧
      (stored.step Capability.host 9 (.evaluate call)).1 = .ok (some (.int 4)) ∧
      (forall task reached, Reaches Capability.host (.exec tree, stored.state) (task, reached) ->
        forall fuel count, Not (Panics (task.run Capability.host fuel count reached))) ∧
      forall fuel family kind,
        (stored.step Capability.host fuel (.evaluate call)).1 ≠
          .error (.halt (.noOperator family kind)) := by
  intro handle definition call body tree session stored
  have hhost : Capability.host.Keeps (.operators handle) := Capability.host_keeps_say _
  have hsession : session.Formed (.operators handle) :=
    ⟨Store.formed_empty.assign _ (.native rfl), Store.formed_empty⟩
  have hdefinition : Program.ofText definition = .ok (.block [.define "ف" ["ا"] body]) := by
    have htokens : (Token.ofText definition).toOption =
        some [⟨.functionWord, ⟨1, 1⟩⟩, ⟨.name "ف", ⟨1, 6⟩⟩, ⟨.openParen, ⟨1, 7⟩⟩,
          ⟨.name "ا", ⟨1, 8⟩⟩, ⟨.closeParen, ⟨1, 9⟩⟩, ⟨.openBrace, ⟨1, 11⟩⟩,
          ⟨.name "ا", ⟨1, 13⟩⟩, ⟨.plus, ⟨1, 15⟩⟩, ⟨.int 1, ⟨1, 17⟩⟩, ⟨.dot, ⟨1, 18⟩⟩,
          ⟨.closeBrace, ⟨1, 20⟩⟩, ⟨.eof, ⟨1, 21⟩⟩] := by
      decide +kernel
    exact Program.ofText_of_toOption htokens rfl
  have hcall : Program.ofText call = .ok tree := by
    have htokens : (Token.ofText call).toOption =
        some [⟨.name "ه", ⟨1, 1⟩⟩, ⟨.assign, ⟨1, 3⟩⟩, ⟨.int 1, ⟨1, 5⟩⟩, ⟨.plus, ⟨1, 7⟩⟩,
          ⟨.name "ف", ⟨1, 9⟩⟩, ⟨.openParen, ⟨1, 10⟩⟩, ⟨.int 2, ⟨1, 11⟩⟩, ⟨.closeParen, ⟨1, 12⟩⟩,
          ⟨.dot, ⟨1, 13⟩⟩, ⟨.eof, ⟨1, 14⟩⟩] := by
      decide +kernel
    exact Program.ofText_of_toOption htokens rfl
  have hstored : stored = ⟨session.state.assign "ف" (.function ["ا"] body), .empty⟩ := by
    show (session.settle (Program.interpret Capability.host 9 definition session.state)).2 = _
    rw [Program.interpret, hdefinition]
    rfl
  have hfollows : Session.Follows Capability.host (.operators handle) session stored :=
    .step .refl (.evaluate definition)
  have hget : stored.state.store.get "ف" = .function ["ا"] body := by
    rw [hstored]
    exact Store.get_assign_self _ _ _
  have hfour : (stored.step Capability.host 9 (.evaluate call)).1 = .ok (some (.int 4)) := by
    show (stored.settle (Program.interpret Capability.host 9 call stored.state)).1 = _
    rw [Program.interpret, hcall, hstored]
    rfl
  rcases programs_never_panic hhost with ⟨hformed, hruns, hsteps⟩
  have htree := (hformed call tree hcall).left
  rcases hsteps session stored hsession hfollows with ⟨hlast, hanswers⟩
  refine ⟨hhost, hsession, hfollows, hget, hcall, htree, hfour, ?_, ?_⟩
  · intro task reached hreaches fuel count
    exact ((hruns tree stored.state htree hlast.state task reached hreaches).right.right
      fuel count).right
  · intro fuel family kind
    exact hanswers fuel _ (.evaluate call) family kind

end Lisan
