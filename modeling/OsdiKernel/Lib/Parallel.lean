import Mathlib.Order.CompleteBooleanAlgebra
import Mathlib.Order.CompletePartialOrder

/-!
# Two runs side by side

A computation that may stop is started in two states.  The states are related
by what the two runs have in common, which only grows.  Both runs stop, or both
go on with the same result; and so do two runs of any list of steps.
-/

namespace OsdiKernel.Parallel

variable {κ σ ρ τ α : Type} [Preorder κ]

/-- Both computations stop, or both have the same result and end in states that
are related by at least what was common before. -/
def Both (R : κ → ρ → σ → σ → Prop) (k : κ) (first second : Option (σ × ρ)) : Prop :=
  Option.Rel (fun a b => b.2 = a.2 ∧ ∃ k', k ≤ k' ∧ R k' a.2 a.1 b.1) first second

variable {R : κ → ρ → σ → σ → Prop} {Q : κ → τ → σ → σ → Prop} {k k' : κ} {s t : σ}
  {first second : Option (σ × ρ)}

theorem rel_ite {β γ : Type} {r : β → γ → Prop} {c : Prop} [Decidable c] {a b : Option β}
    {a' b' : Option γ} (holds : c → Option.Rel r a a') (fails : ¬ c → Option.Rel r b b') :
    Option.Rel r (if c then a else b) (if c then a' else b') := by
  split
  · next yes => exact holds yes
  · next no => exact fails no

/-- If the first computation goes on, so does the second. -/
theorem rel_some {β γ : Type} {r : β → γ → Prop} {b : β} {second : Option γ}
    (related : Option.Rel r (some b) second) : ∃ c, second = some c ∧ r b c := by
  cases related with
  | some holds => exact ⟨_, rfl, holds⟩

theorem rel_none {β γ : Type} {r : β → γ → Prop} {second : Option γ}
    (related : Option.Rel r none second) : second = none := by
  cases related
  rfl

theorem rel_imp {β γ : Type} {r r' : β → γ → Prop} {a : Option β} {b : Option γ}
    (related : Option.Rel r a b) (implies : ∀ x y, r x y → r' x y) : Option.Rel r' a b := by
  cases related with
  | some holds => exact .some (implies _ _ holds)
  | none => exact .none

namespace Both

theorem stop : Both R k none none := .none

theorem go {result : ρ} (larger : k ≤ k') (related : R k' result s t) :
    Both R k (some (s, result)) (some (t, result)) :=
  .some ⟨rfl, k', larger, related⟩

theorem pure {result : ρ} (related : R k result s t) :
    Both R k (some (s, result)) (some (t, result)) :=
  go (le_refl k) related

/-- What holds for more in common holds for less. -/
theorem earlier (larger : k ≤ k') (both : Both R k' first second) : Both R k first second := by
  cases both with
  | none => exact stop
  | some after =>
      obtain ⟨same, k'', grows, related⟩ := after
      exact .some ⟨same, k'', larger.trans grows, related⟩

theorem imp {R' : κ → ρ → σ → σ → Prop} (both : Both R k first second)
    (implies : ∀ k' result s t, k ≤ k' → R k' result s t → R' k' result s t) :
    Both R' k first second := by
  cases both with
  | none => exact stop
  | some after =>
      obtain ⟨same, k', larger, related⟩ := after
      exact .some ⟨same, k', larger, implies k' _ _ _ larger related⟩

/-- The second part of a computation starts with what the first has left in common. -/
theorem bind {f g : σ × ρ → Option (σ × τ)} (both : Both R k first second)
    (next : ∀ k' result s t, k ≤ k' → R k' result s t →
      Both Q k' (f (s, result)) (g (t, result))) :
    Both Q k (first.bind f) (second.bind g) := by
  cases both with
  | none => exact stop
  | @some a b after =>
      obtain ⟨s', result⟩ := a
      obtain ⟨t', result'⟩ := b
      obtain ⟨same, k', larger, related⟩ := after
      cases same
      exact (next k' result s' t' larger related).earlier larger

theorem map {σ' : Type} {Q : κ → τ → σ' → σ' → Prop} {f g : σ × ρ → σ' × τ}
    (both : Both R k first second)
    (next : ∀ k' result s t, k ≤ k' → R k' result s t →
      (g (t, result)).2 = (f (s, result)).2 ∧
        Q k' (f (s, result)).2 (f (s, result)).1 (g (t, result)).1) :
    Both Q k (first.map f) (second.map g) := by
  cases both with
  | none => exact stop
  | @some a b after =>
      obtain ⟨s', result⟩ := a
      obtain ⟨t', result'⟩ := b
      obtain ⟨same, k', larger, related⟩ := after
      cases same
      obtain ⟨same, related'⟩ := next k' result s' t' larger related
      exact .some ⟨same, k', larger, related'⟩

/-- If the first run goes on, so does the second. -/
theorem follow {result : ρ} (both : Both R k (some (s, result)) second) :
    ∃ t k', second = some (t, result) ∧ k ≤ k' ∧ R k' result s t := by
  obtain ⟨⟨t, result'⟩, goes, same, k', larger, related⟩ := rel_some both
  cases same
  exact ⟨t, k', goes, larger, related⟩

theorem results (both : Both R k first second) :
    second.map Prod.snd = first.map Prod.snd := by
  cases both with
  | none => rfl
  | some after => exact congrArg some after.1

end Both

/-! ## Runs -/

variable (step : σ → α → Option (σ × ρ))

/-- A list of steps, with their results. -/
def run : σ → List α → Option (σ × List ρ)
  | s, [] => some (s, [])
  | s, a :: steps => do
      let (s, result) ← step s a
      let (s, results) ← run s steps
      return (s, result :: results)

/-- Every step of a run is allowed in the state that it starts from. -/
def Meets (ok : σ → α → Prop) : σ → List α → Prop
  | _, [] => True
  | s, a :: steps => ok s a ∧ ∀ s' result, step s a = some (s', result) → Meets ok s' steps

variable {step} {ok : σ → α → Prop} {R : κ → σ → σ → Prop}

instance Meets.decidable [∀ s a, Decidable (ok s a)] : ∀ s steps, Decidable (Meets step ok s steps)
  | _, [] => .isTrue trivial
  | s, a :: steps =>
      have (s' : σ) : Decidable (Meets step ok s' steps) := Meets.decidable s' steps
      decidable_of_iff (ok s a ∧ ∀ after ∈ step s a, Meets step ok after.1 steps)
        (and_congr_right fun _ => ⟨fun later s' result stepped => later (s', result) stepped,
          fun later after stepped => later after.1 after.2 stepped⟩)

/-- A property that allowed steps keep holds at the end of a run. -/
theorem run_keeps {I : σ → Prop} {steps : List α} {results : List ρ} {s s' : σ}
    (keeps : ∀ s s' a result, I s → ok s a → step s a = some (s', result) → I s')
    (start : I s) (meets : Meets step ok s steps) (ran : run step s steps = some (s', results)) :
    I s' := by
  induction steps generalizing s results with
  | nil =>
      cases ran
      exact start
  | cons a steps ih =>
      obtain ⟨allowed, later⟩ := meets
      rw [run] at ran
      obtain ⟨⟨s₁, result⟩, stepped, ran⟩ := Option.bind_eq_some_iff.mp ran
      obtain ⟨⟨s₂, results'⟩, rest, same⟩ := Option.bind_eq_some_iff.mp ran
      cases same
      exact ih (keeps s s₁ a result start allowed stepped) (later s₁ result stepped) rest

/-- If allowed steps of two related states go on together, so do runs. -/
theorem run_both {steps : List α} {k : κ} {s t : σ}
    (together : ∀ k s t a, R k s t → ok s a → ok t a →
      Both (fun k' _ => R k') k (step s a) (step t a))
    (start : R k s t) (meets : Meets step ok s steps) (meets' : Meets step ok t steps) :
    Both (fun k' _ => R k') k (run step s steps) (run step t steps) := by
  induction steps generalizing k s t with
  | nil => exact .pure start
  | cons a steps ih =>
      obtain ⟨allowed, later⟩ := meets
      obtain ⟨allowed', later'⟩ := meets'
      have both := together k s t a start allowed allowed'
      rw [run, run]
      cases first : step s a with
      | none =>
          rw [first] at both
          rw [rel_none both]
          exact .stop
      | some after =>
          obtain ⟨s₁, result⟩ := after
          rw [first] at both
          obtain ⟨t₁, k₁, second, larger, related⟩ := both.follow
          rw [second]
          refine Both.earlier larger ?_
          exact (ih related (later s₁ result first) (later' t₁ result second)).bind
            fun k₂ results s₂ t₂ _ related₂ => .pure related₂

end OsdiKernel.Parallel
