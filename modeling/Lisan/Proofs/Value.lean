import Lisan.Value
import Std.Data.String.ToInt

/-!
# Values and their texts

A value has a textual form unless it can be called, and two values are equal if and only
if they have the same one: an integer is never read off its decimal text as another. So
equality is symmetric and transitive, and all values but those that can be called are equal
to themselves.
-/

namespace Lisan
namespace Value

variable {H : Type}

inductive Callable : Value H -> Prop where
  | function (params : List String) (body : Stmt H) : Callable (.function params body)
  | native (params : List String) (handle : H) : Callable (.native params handle)

def SameText (v w : Value H) : Prop :=
  exists text, v.text? = some text ∧ w.text? = some text

variable {v w u : Value H}

theorem text?_eq_none_iff_callable : v.text? = none <-> v.Callable := by
  rw [text?_eq_none_iff]
  constructor
  · intro h
    rcases h with ⟨params, body, rfl⟩ | ⟨params, handle, rfl⟩
    · exact .function params body
    · exact .native params handle
  · intro h
    cases h with
    | function params body => exact .inl ⟨params, body, rfl⟩
    | native params handle => exact .inr ⟨params, handle, rfl⟩

theorem same_iff_sameText : v.same w = true <-> v.SameText w := by
  cases v <;> cases w <;> simp [same, SameText, text?, Int.repr_inj] <;> exact eq_comm

theorem SameText.symm (h : v.SameText w) : w.SameText v := by
  rcases h with ⟨text, hv, hw⟩
  exact ⟨text, hw, hv⟩

theorem SameText.trans (h : v.SameText w) (h' : w.SameText u) : v.SameText u := by
  rcases h with ⟨text, hv, hw⟩
  rcases h' with ⟨other, hw', hu⟩
  rw [hw] at hw'
  cases hw'
  exact ⟨text, hv, hu⟩

theorem sameText_self_iff : v.SameText v <-> Not v.Callable := by
  rw [<- text?_eq_none_iff_callable, <- ne_eq, Option.ne_none_iff_exists']
  exact exists_congr fun text => and_self_iff

end Value
end Lisan
