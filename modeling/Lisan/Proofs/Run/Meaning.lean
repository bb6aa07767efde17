import Lisan.Proofs.Run.View

/-!
# Runs up to meaning

A program does what it does with all of it erased that has no meaning: its groupings, the
places of its operators, and the spelling of its names. So does a state, in the functions
that are stored in it. The erased run may end with a function that differs from the one
it differs from in nothing else.
-/

namespace Lisan

variable {H : Type}

/-!
## Erasing twice
-/

theorem Store.through_through (first second : View) (store : Store H) :
    (store.through first).through second = store.through (first.andThen second) := by
  simp only [through, mk.injEq]
  apply Std.ExtTreeMap.ext_getElem?
  intro key
  simp only [Std.ExtTreeMap.getElem?_map, Option.map_map]
  congr 1
  funext value
  exact Value.through_through first second value

theorem State.through_through (first second : View) (state : State H) :
    (state.through first).through second = state.through (first.andThen second) := by
  simp only [through, Store.through_through]

/-!
## Runs of erased programs
-/

/-- From any state, and from what of the state has a meaning, the program and its
erasure both diverge, or both conclude: with the same value or the same error once they
are erased, with the same said, and with states that erase to the same. -/
theorem exec_through_meaning {host : Host H} (hhost : host.Respects .meaning) (s : Stmt H)
    (state : State H) :
    Agree (Outcome.Alike .meaning) (fun fuel => s.exec host fuel)
      (fun fuel => (s.through .meaning).exec host fuel) state (state.through .meaning) := by
  have hstate : state.through .meaning = (state.through .meaning).through .meaning := by
    rw [State.through_through, View.meaning_andThen_meaning]
  have hs : s.through .meaning = (s.through .meaning).through .meaning := by
    rw [Stmt.through_through, View.meaning_andThen_meaning]
  refine agree_of_follows ?_ ?_ hstate
  · intro fuel
    exact (run_follows hhost fuel).right s _ hs
  · intro fuel
    exact (run_follows hhost fuel).right _ s hs.symm

theorem grouped_call_through_meaning :
    let s : Stmt Capability := .expr (.call (.group (.var "ق")) [.group (.literal (.int 1))])
    let body : Stmt Capability := .expr (.unary ⟨.minus, ⟨3, 4⟩⟩ (.group (.var "ى")))
    let state : State Capability := ⟨Store.empty.assign "غ" (.function ["ي"] body), #[]⟩
    s.through .meaning = .expr (.call (.var "غ") [.literal (.int 1)]) ∧
      (exists last, s.exec Capability.host 6 state = .ok (.int (-1)) last) ∧
      Agree (Outcome.Alike .meaning) (fun fuel => s.exec Capability.host fuel)
        (fun fuel => (s.through .meaning).exec Capability.host fuel) state
        (state.through .meaning) := by
  intro s body state
  refine ⟨rfl, ⟨_, rfl⟩, ?_⟩
  exact exec_through_meaning (Capability.host_respects .meaning) s state

end Lisan
