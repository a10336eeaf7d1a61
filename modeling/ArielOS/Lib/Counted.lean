import ArielOS.Lib.Run

namespace Machine

universe u

variable {σ : Type u} {ι φ : Type*}

/-- A run in every state of which `Holds`, with the sum of what its steps count. -/
inductive Counted (step : ι → σ → Except φ σ) (Allowed : ι → σ → Prop) (Holds : σ → Prop)
    (count : ι → σ → σ → Nat) : σ → σ → Nat → Prop
  | refl {s : σ} (holds : Holds s) : Counted step Allowed Holds count s s 0
  | step {s s₁ s' : σ} {k : Nat} (e : ι) (holds : Holds s) (allowed : Allowed e s)
      (done : step e s = .ok s₁) (rest : Counted step Allowed Holds count s₁ s' k) :
      Counted step Allowed Holds count s s' (count e s s₁ + k)

namespace Counted

variable {step : ι → σ → Except φ σ} {Allowed : ι → σ → Prop} {Holds : σ → Prop}
  {count : ι → σ → σ → Nat} {s s' : σ} {k n : Nat}

theorem holds (run : Counted step Allowed Holds count s s' k) : Holds s := by
  cases run with
  | refl holds => exact holds
  | step _ holds => exact holds

/-- What is counted, and the rank at the end, are at most the rank at the start, if each step lowers
    the rank by what it counts. -/
theorem bounded (Inv : σ → Prop) (rank : σ → Nat → Prop)
    (keep : ∀ s e s₁, Inv s → Allowed e s → step e s = .ok s₁ → Inv s₁)
    (lower : ∀ s e s₁ n, Inv s → Allowed e s → Holds s → Holds s₁ → step e s = .ok s₁ → rank s n →
      ∃ m, rank s₁ m ∧ m + count e s s₁ ≤ n)
    (run : Counted step Allowed Holds count s s' k) (inv : Inv s) (start : rank s n) :
    ∃ m, Holds s' ∧ rank s' m ∧ m + k ≤ n := by
  induction run generalizing n with
  | refl holds => exact ⟨n, holds, start, Nat.le_refl _⟩
  | step e holds allowed done rest ih =>
    obtain ⟨m₁, rank₁, le₁⟩ := lower _ e _ n inv allowed holds rest.holds done start
    obtain ⟨m, holds', rank', le'⟩ := ih (keep _ e _ inv allowed done) rank₁
    exact ⟨m, holds', rank', by omega⟩

variable (step Allowed Holds count) [∀ e s, Decidable (Allowed e s)] [∀ s, Decidable (Holds s)]

/-- The run of the listed events. -/
def runCounted : List ι → σ → Option (σ × Nat)
  | [], s => if Holds s then some (s, 0) else none
  | e :: es, s =>
    if Holds s ∧ Allowed e s then
      match step e s with
      | .ok s₁ => (runCounted es s₁).map fun (s', k) => (s', count e s s₁ + k)
      | .error _ => none
    else
      none

variable {step Allowed Holds count}

theorem of_runCounted {es : List ι} (run : runCounted step Allowed Holds count es s = some (s', k)) :
    Counted step Allowed Holds count s s' k := by
  induction es generalizing s k with
  | nil =>
    unfold runCounted at run
    split at run
    · rename_i holds
      cases run
      exact .refl holds
    · cases run
  | cons e es ih =>
    unfold runCounted at run
    split at run
    · rename_i allowed
      split at run
      · rename_i s₁ done
        obtain ⟨⟨s₂, k₂⟩, rest, same⟩ := Option.map_eq_some_iff.mp run
        cases same
        exact .step e allowed.1 allowed.2 done (ih rest)
      · cases run
    · cases run

end Counted

end Machine
