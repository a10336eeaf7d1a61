import Mathlib.Logic.Basic

namespace Machine

universe u

variable {σ : Type u} {ι φ : Type*}

section Except

variable {α β : Type u}

theorem bind_ok_iff {x : Except φ α} {f : α → Except φ β} {r : β} :
    (x >>= f) = .ok r ↔ ∃ a, x = .ok a ∧ f a = .ok r := by
  cases x <;> simp [Bind.bind, Except.bind]

theorem bind_error_iff {x : Except φ α} {f : α → Except φ β} {e : φ} :
    (x >>= f) = .error e ↔ x = .error e ∨ ∃ a, x = .ok a ∧ f a = .error e := by
  cases x <;> simp [Bind.bind, Except.bind]

/-- A composition fails in a given way only if one of its parts does. -/
theorem bind_ne_error {x : Except φ α} {f : α → Except φ β} {e : φ} (first : x ≠ .error e)
    (rest : ∀ a, x = .ok a → f a ≠ .error e) : (x >>= f) ≠ .error e := by
  cases x with
  | error other => exact fun same => first (congrArg Except.error (Except.error.inj same))
  | ok a => exact rest a rfl

theorem ok_ne_error (a : α) (e : φ) : Except.ok a ≠ .error e := by simp

@[simp] theorem ok_bind (a : α) (f : α → Except φ β) : (Except.ok a >>= f) = f a := rfl

@[simp] theorem error_bind (e : φ) (f : α → Except φ β) :
    ((Except.error e : Except φ α) >>= f) = .error e := rfl

@[simp] theorem pure_eq_ok (a : α) : (pure a : Except φ α) = .ok a := rfl

@[simp] theorem throw_eq_error (e : φ) : (throw e : Except φ α) = .error e := rfl

end Except

/-- The states that a machine reaches by events it accepts, as long as every event is `Allowed`
    in the state in which it happens. -/
inductive Reaches (step : ι → σ → Except φ σ) (Allowed : ι → σ → Prop) (init : σ) : σ → Prop
  | init : Reaches step Allowed init init
  | next {s t : σ} (e : ι) : Reaches step Allowed init s → Allowed e s → step e s = .ok t →
      Reaches step Allowed init t

/-- Every run, whatever its events. -/
abbrev Reachable (step : ι → σ → Except φ σ) (init : σ) : σ → Prop :=
  Reaches step (fun _ _ => True) init

variable {step : ι → σ → Except φ σ} {Allowed : ι → σ → Prop} {init s : σ}

/-- What holds at the start and is kept by each allowed step holds along the whole run. -/
theorem Reaches.invariant (Inv : σ → Prop) (start : Inv init)
    (keep : ∀ s e t, Inv s → Allowed e s → step e s = .ok t → Inv t)
    (h : Reaches step Allowed init s) : Inv s := by
  induction h with
  | init => exact start
  | next e _ allowed taken ih => exact keep _ e _ ih allowed taken

theorem Reaches.mono {Allowed' : ι → σ → Prop} (weaker : ∀ e s, Allowed e s → Allowed' e s)
    (h : Reaches step Allowed init s) : Reaches step Allowed' init s := by
  induction h with
  | init => exact .init
  | next e _ allowed taken ih => exact ih.next e (weaker _ _ allowed) taken

theorem Reaches.trans {t : σ} (first : Reaches step Allowed init s)
    (second : Reaches step Allowed s t) : Reaches step Allowed init t := by
  induction second with
  | init => exact first
  | next e _ allowed taken ih => exact ih.next e allowed taken

variable [∀ e s, Decidable (Allowed e s)]

/-- The run that takes the listed events in order, as long as they are allowed and accepted. -/
def runAll (step : ι → σ → Except φ σ) (Allowed : ι → σ → Prop) [∀ e s, Decidable (Allowed e s)] :
    List ι → σ → Option σ
  | [], s => some s
  | e :: es, s =>
    if Allowed e s then
      match step e s with
      | .ok t => runAll step Allowed es t
      | .error _ => none
    else
      none

theorem reaches_of_runAll {es : List ι} (h : runAll step Allowed es init = some s) :
    Reaches step Allowed init s := by
  induction es generalizing init with
  | nil => cases h; exact .init
  | cons e es ih =>
    simp only [runAll] at h
    split at h
    · rename_i allowed
      split at h
      · rename_i t taken
        exact (Reaches.next e .init allowed taken).trans (ih h)
      · cases h
    · cases h

/-- A check that evaluates on the end of a concrete run is met by a state of a run. -/
theorem reaches_of_check {check : σ → Bool} (es : List ι)
    (h : (runAll step Allowed es init).any check = true) :
    ∃ s, Reaches step Allowed init s ∧ check s = true := by
  cases run : runAll step Allowed es init with
  | none => simp [run] at h
  | some s => exact ⟨s, reaches_of_runAll run, by simpa [run] using h⟩

end Machine
