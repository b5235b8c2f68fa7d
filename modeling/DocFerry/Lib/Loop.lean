import Mathlib.Tactic

/-!
# Loops that may run forever

A loop is its body: one iteration goes on from a new state, leaves the loop with
a result, or faults.

* `run` is the loop cut off after `n` iterations, `Returns` and `Terminates` say
  what the uncut loop does.
* `Reaches` relates the states at the head of the loop.
* `terminates_of_progress`: a loop terminates when from every state it either
  terminates or comes back to its head with a smaller measure.
* `not_terminates_of_inv`: a loop that keeps a set of states never terminates
  from it.
-/

namespace Loop

variable {ε σ β : Type*}

/-- What one iteration does. -/
inductive Next (ε σ β : Type*)
  | again (s : σ)
  | done (b : β)
  | fault (e : ε)

/-- The loop, cut off after `n` iterations (`none` when it is not over by then). -/
def run (body : σ → Next ε σ β) : ℕ → σ → Option (Except ε β)
  | 0, _ => none
  | n + 1, s =>
    match body s with
    | .again s' => run body n s'
    | .done b => some (.ok b)
    | .fault e => some (.error e)

/-- The loop started in `s` ends with result `b`. -/
def Returns (body : σ → Next ε σ β) (s : σ) (b : β) : Prop := ∃ n, run body n s = some (.ok b)

/-- The loop started in `s` ends with some result. -/
def Terminates (body : σ → Next ε σ β) (s : σ) : Prop := ∃ b, Returns body s b

/-- The loop started in `s` comes to its head in `s'`. -/
inductive Reaches (body : σ → Next ε σ β) : σ → σ → Prop
  | refl (s : σ) : Reaches body s s
  | step {s s' s'' : σ} (h : body s = .again s') (hr : Reaches body s' s'') : Reaches body s s''

variable {body : σ → Next ε σ β} {s s' s'' : σ} {b : β}

theorem Reaches.trans (h₁ : Reaches body s s') (h₂ : Reaches body s' s'') : Reaches body s s'' := by
  induction h₁ with
  | refl _ => exact h₂
  | step h _ ih => exact .step h (ih h₂)

theorem returns_again (h : body s = .again s') : Returns body s b ↔ Returns body s' b := by
  constructor
  · rintro ⟨n, hn⟩
    cases n with
    | zero => simp [run] at hn
    | succ n => exact ⟨n, by simpa [run, h] using hn⟩
  · rintro ⟨n, hn⟩
    exact ⟨n + 1, by simpa [run, h] using hn⟩

theorem returns_done (h : body s = .done b) : Returns body s b := ⟨1, by simp [run, h]⟩

theorem terminates_again (h : body s = .again s') : Terminates body s ↔ Terminates body s' :=
  exists_congr fun _ => returns_again h

theorem terminates_done (h : body s = .done b) : Terminates body s := ⟨b, returns_done h⟩

theorem not_terminates_fault {e : ε} (h : body s = .fault e) : ¬ Terminates body s := by
  rintro ⟨b, n, hn⟩
  cases n <;> simp [run, h] at hn

theorem Reaches.returns (hr : Reaches body s s') : Returns body s b ↔ Returns body s' b := by
  induction hr with
  | refl _ => exact Iff.rfl
  | step h _ ih => exact (returns_again h).trans ih

theorem Reaches.terminates (hr : Reaches body s s') : Terminates body s ↔ Terminates body s' :=
  exists_congr fun _ => hr.returns

theorem Reaches.of_again (hr : Reaches body s s'') (h : body s = .again s') :
    s'' = s ∨ Reaches body s' s'' := by
  cases hr with
  | refl _ => exact .inl rfl
  | step h' hr =>
    rw [h] at h'
    cases h'
    exact .inr hr

theorem Reaches.of_done (hr : Reaches body s s'') (h : body s = .done b) : s'' = s := by
  cases hr with
  | refl _ => rfl
  | step h' _ =>
    rw [h] at h'
    cases h'

/-- A run that is over stays the same with more iterations allowed. -/
theorem run_mono {n k : ℕ} {r : Except ε β} (h : run body n s = some r) :
    run body (n + k) s = some r := by
  induction n generalizing s with
  | zero => simp [run] at h
  | succ n ih =>
    rw [Nat.add_right_comm]
    unfold run at h ⊢
    cases hb : body s with
    | again s' => rw [hb] at h; exact ih h
    | done b => rw [hb] at h; exact h
    | fault e => rw [hb] at h; exact h

/-- **A loop returns at most one result.** -/
theorem Returns.unique {b' : β} (h : Returns body s b) (h' : Returns body s b') : b = b' := by
  obtain ⟨n, hn⟩ := h
  obtain ⟨m, hm⟩ := h'
  have h1 := run_mono (k := m) hn
  have h2 := run_mono (k := n) hm
  rw [Nat.add_comm m n, h1] at h2
  simpa using h2

/-- **Termination by progress.** The measure need not fall in every iteration,
only between two visits of the loop head. -/
theorem terminates_of_progress (P : σ → Prop) (μ : σ → ℕ)
    (h : ∀ s, P s → Terminates body s ∨ ∃ s', Reaches body s s' ∧ P s' ∧ μ s' < μ s) :
    ∀ s, P s → Terminates body s := by
  suffices ∀ n s, μ s ≤ n → P s → Terminates body s from fun s hs => this (μ s) s le_rfl hs
  intro n
  induction n with
  | zero =>
    intro s hn hs
    rcases h s hs with ht | ⟨s', -, -, hlt⟩
    · exact ht
    · omega
  | succ n ih =>
    intro s hn hs
    rcases h s hs with ht | ⟨s', hr, hs', hlt⟩
    · exact ht
    · exact hr.terminates.2 (ih s' (by omega) hs')

/-- **Divergence.** A set of states in which every iteration goes on and stays
inside is never left. -/
theorem not_terminates_of_inv (P : σ → Prop) (h : ∀ s, P s → ∃ s', body s = .again s' ∧ P s')
    (hs : P s) : ¬ Terminates body s := by
  rintro ⟨b, n, hn⟩
  induction n generalizing s with
  | zero => simp [run] at hn
  | succ n ih =>
    obtain ⟨s', hb, hs'⟩ := h s hs
    unfold run at hn
    rw [hb] at hn
    exact ih hs' hn

/-- **A loop invariant**, for a loop that was not cut off. -/
theorem run_ok_inv {P : σ → Prop} {Q : β → Prop} (h : ∀ s s', P s → body s = .again s' → P s')
    (hQ : ∀ s b, P s → body s = .done b → Q b) {n : ℕ} (hs : P s) (hr : run body n s = some (.ok b)) :
    Q b := by
  induction n generalizing s with
  | zero => simp [run] at hr
  | succ n ih =>
    unfold run at hr
    cases hb : body s with
    | again s' =>
      rw [hb] at hr
      exact ih (h s s' hs hb) hr
    | done b' =>
      rw [hb] at hr
      cases hr
      exact hQ s b hs hb
    | fault e =>
      rw [hb] at hr
      cases hr

/-- A property that every iteration keeps holds at every visit of the loop head. -/
theorem Reaches.inv {P : σ → Prop} (h : ∀ s s', P s → body s = .again s' → P s')
    (hr : Reaches body s s') (hs : P s) : P s' := by
  induction hr with
  | refl _ => exact hs
  | step hb _ ih => exact ih (h _ _ hs hb)

end Loop
