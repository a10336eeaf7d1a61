import Mathlib.Logic.Function.Basic

/-! Pairs of things that met: a partial map to partners, in which each is its partner's partner. -/

namespace Pairing

variable {ι : Type*}

def Paired (partner : ι → Option ι) : Prop := ∀ a b, partner a = some b → partner b = some a

variable {partner : ι → Option ι} {a b c : ι}

theorem paired_none : Paired fun _ : ι => none := fun _ _ met => by cases met

variable [DecidableEq ι]

def join (partner : ι → Option ι) (a b : ι) : ι → Option ι :=
  Function.update (Function.update partner a (some b)) b (some a)

@[simp] theorem join_right : join partner a b b = some a := Function.update_self ..

theorem join_left (apart : a ≠ b) : join partner a b a = some b := by
  rw [join, Function.update_of_ne apart, Function.update_self]

theorem join_of_ne (notLeft : c ≠ a) (notRight : c ≠ b) : join partner a b c = partner c := by
  rw [join, Function.update_of_ne notRight, Function.update_of_ne notLeft]

/-- Old pairs stay when two that had no partner meet. -/
theorem join_of_some {d : ι} (left : partner a = none) (right : partner b = none)
    (met : partner c = some d) : join partner a b c = some d := by
  rw [join_of_ne, met]
  · intro same
    rw [same, left] at met
    cases met
  · intro same
    rw [same, right] at met
    cases met

theorem join_cases {d : ι} (apart : a ≠ b) (met : join partner a b c = some d) :
    (c = a ∧ d = b) ∨ (c = b ∧ d = a) ∨ partner c = some d := by
  by_cases isRight : c = b
  · rw [isRight, join_right, Option.some.injEq] at met
    exact Or.inr (Or.inl ⟨isRight, met.symm⟩)
  · by_cases isLeft : c = a
    · rw [isLeft, join_left apart, Option.some.injEq] at met
      exact Or.inl ⟨isLeft, met.symm⟩
    · rw [join_of_ne isLeft isRight] at met
      exact Or.inr (Or.inr met)

theorem join_eq_none : join partner a b c = none ↔ partner c = none ∧ c ≠ a ∧ c ≠ b := by
  by_cases isRight : c = b
  · simp [isRight]
  · by_cases isLeft : c = a
    · simp [isLeft, join_left (isLeft ▸ isRight)]
    · simp [join_of_ne isLeft isRight, isLeft, isRight]

theorem Paired.join (paired : Paired partner) (left : partner a = none) (right : partner b = none)
    (apart : a ≠ b) : Paired (join partner a b) := by
  intro c d met
  rcases join_cases apart met with ⟨rfl, rfl⟩ | ⟨rfl, rfl⟩ | before
  · exact join_right
  · exact join_left apart
  · exact join_of_some left right (paired _ _ before)

end Pairing
