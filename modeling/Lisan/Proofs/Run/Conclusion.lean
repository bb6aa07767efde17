import Lisan.Proofs.Run.Agreement

/-!
# How runs conclude

A run with fuel concludes if it has the same outcome with all fuel from some amount on,
and diverges if no amount is enough. Two runs agree if they both diverge, or conclude
with outcomes that are alike.
-/

namespace Lisan

variable {H : Type}

abbrev Outcome (H : Type) :=
  EStateM.Result (Halt H) (State H) (Value H)

/-- The outcome is for want of fuel, and says nothing of the run. -/
def Starved (outcome : EStateM.Result (Halt H) (State H) α) : Prop :=
  exists state, outcome = .error .outOfFuel state

def Diverges (run : Nat -> Run H (Value H)) (state : State H) : Prop :=
  forall fuel, Starved (run fuel state)

/-- With enough fuel the run has the outcome. -/
structure Concludes (run : Nat -> Run H (Value H)) (state : State H) (outcome : Outcome H) :
    Prop where
  settles : Settles (fun fuel _ => run fuel) state outcome
  notStarved : Not (Starved outcome)

theorem Concludes.exists_fuel {run : Nat -> Run H (Value H)} {state : State H}
    {outcome : Outcome H} (h : Concludes run state outcome) :
    exists fuel, run fuel state = outcome := by
  rcases h.settles with ⟨bound, hrun⟩
  exact ⟨bound, hrun (Nat.le_refl bound) (Nat.le_refl bound)⟩

theorem Concludes.unique {run : Nat -> Run H (Value H)} {state : State H}
    {outcome other : Outcome H} (h : Concludes run state outcome)
    (hother : Concludes run state other) : outcome = other := by
  rcases h.settles with ⟨bound, hrun⟩
  rcases hother.settles with ⟨bound', hrun'⟩
  have hbound := Nat.le_max_left bound bound'
  have hbound' := Nat.le_max_right bound bound'
  exact (hrun hbound hbound).symm.trans (hrun' hbound' hbound')

theorem Concludes.not_diverges {run : Nat -> Run H (Value H)} {state : State H}
    {outcome : Outcome H} (h : Concludes run state outcome) : Not (Diverges run state) := by
  intro hdiverges
  rcases h.exists_fuel with ⟨fuel, hrun⟩
  have hstarved := hdiverges fuel
  rw [hrun] at hstarved
  exact h.notStarved hstarved

/-- Both runs diverge, or both conclude, with outcomes that are alike. -/
def Agree (alike : Outcome H -> Outcome H -> Prop) (run run' : Nat -> Run H (Value H))
    (state state' : State H) : Prop :=
  (Diverges run state ∧ Diverges run' state') ∨
    exists outcome outcome', Concludes run state outcome ∧ Concludes run' state' outcome' ∧
      alike outcome outcome'

theorem Agree.imp {alike alike' : Outcome H -> Outcome H -> Prop}
    {run run' : Nat -> Run H (Value H)} {state state' : State H}
    (h : Agree alike run run' state state')
    (himp : forall outcome outcome', alike outcome outcome' -> alike' outcome outcome') :
    Agree alike' run run' state state' := by
  rcases h with hdiverge | ⟨outcome, outcome', hconcludes, hconcludes', halike⟩
  · exact .inl hdiverge
  · exact .inr ⟨outcome, outcome', hconcludes, hconcludes', himp outcome outcome' halike⟩

theorem agree_of_leads {alike : Outcome H -> Outcome H -> Prop}
    {run run' : Nat -> Run H (Value H)} {state state' : State H}
    (hthere : forall fuel, Not (Starved (run fuel state)) ->
      exists outcome', Concludes run' state' outcome' ∧ alike (run fuel state) outcome')
    (hback : forall fuel, Not (Starved (run' fuel state')) ->
      exists outcome, Concludes run state outcome ∧ alike outcome (run' fuel state')) :
    Agree alike run run' state state' := by
  by_cases hdiverges : Diverges run state
  · refine .inl ⟨hdiverges, ?_⟩
    intro fuel
    by_cases hstarved : Starved (run' fuel state')
    · exact hstarved
    · rcases hback fuel hstarved with ⟨outcome, hconcludes, _⟩
      exact absurd hdiverges hconcludes.not_diverges
  · rcases not_forall.mp hdiverges with ⟨fuel, hfuel⟩
    rcases hthere fuel hfuel with ⟨outcome', hconcludes', _⟩
    -- the outcome with that fuel need not be the last, so it is asked for from the other side
    rcases hconcludes'.exists_fuel with ⟨fuel', hrun'⟩
    have hend' : Not (Starved (run' fuel' state')) := by
      rw [hrun']
      exact hconcludes'.notStarved
    rcases hback fuel' hend' with ⟨outcome, hconcludes, halike⟩
    rw [hrun'] at halike
    exact .inr ⟨outcome, outcome', hconcludes, hconcludes', halike⟩

end Lisan
