import Mathlib.Tactic

/-!
# Programs with a state and faults

Rules for `EStateM ε σ`: a program runs from a state to a result or a fault, and
leaves a state behind in both cases.

* `bind_of_ok`, `bind_eq_ok`: how the run of a sequence goes through its parts.
* `Steps R x`: every run of `x` is a step of the relation `R`. The rules
  `Steps.pure`, `Steps.bind`, ... reduce it to the parts of `x`, when `R` is
  reflexive and transitive.
* `Mimics x y P s`: from `s`, `x` does what `y` does, and its result satisfies `P`.
  `Mimics.foldlM` is the rule for two loops over one list.
-/

namespace Prog

variable {ε σ α β : Type} {x : EStateM ε σ α} {f : α → EStateM ε σ β} {s s' s'' : σ} {a : α} {b : β}

theorem bind_of_ok (h : x s = .ok a s') : (x >>= f) s = f a s' := by
  simp only [bind, EStateM.bind, h]

theorem bind_of_error {e : ε} (h : x s = .error e s') : (x >>= f) s = .error e s' := by
  simp only [bind, EStateM.bind, h]

theorem run_bind : (x >>= f) s = match x s with
    | .ok a s' => f a s'
    | .error e s' => .error e s' := by
  cases h : x s with
  | ok a s' => rw [bind_of_ok h]
  | error e s' => rw [bind_of_error h]

theorem run_pure : (pure a : EStateM ε σ α) s = .ok a s := rfl

theorem run_get : (get : EStateM ε σ σ) s = .ok s s := rfl

theorem run_set : (set s' : EStateM ε σ PUnit) s = .ok ⟨⟩ s' := rfl

theorem run_modify {g : σ → σ} : (modify g : EStateM ε σ PUnit) s = .ok ⟨⟩ (g s) := rfl

theorem get_bind {f : σ → EStateM ε σ β} : (get >>= f) s = f s s := rfl

/-- **A sequence that returns** has returned in both parts. -/
theorem bind_eq_ok : (x >>= f) s = .ok b s'' ↔ ∃ a s', x s = .ok a s' ∧ f a s' = .ok b s'' := by
  constructor
  · intro h
    cases hx : x s with
    | ok a s' => rw [bind_of_ok hx] at h; exact ⟨a, s', rfl, h⟩
    | error e s' => rw [bind_of_error hx] at h; cases h
  · rintro ⟨a, s', hx, hf⟩
    rw [bind_of_ok hx, hf]

/-- The state that a run leaves behind. -/
def final : EStateM.Result ε σ α → σ
  | .ok _ s => s
  | .error _ s => s

@[simp] theorem final_ok : final (.ok a s : EStateM.Result ε σ α) = s := rfl

@[simp] theorem final_error {e : ε} : final (.error e s : EStateM.Result ε σ α) = s := rfl

/-- Giving the result up changes nothing about the state. -/
theorem final_bind_pure (x : EStateM ε σ α) (b : β) (s : σ) :
    final ((x >>= fun _ => pure b) s) = final (x s) := by
  cases hx : x s with
  | ok a s' => rw [bind_of_ok hx]; rfl
  | error e s' => rw [bind_of_error hx]; rfl

/-- Has the run come to a result? -/
def isOk : EStateM.Result ε σ α → Bool
  | .ok .. => true
  | .error .. => false

/-- The fault of a run that has come to none. -/
def fault : EStateM.Result ε σ α → Option ε
  | .ok .. => none
  | .error e _ => some e

theorem eq_ok_final {r : EStateM.Result ε σ PUnit} (h : isOk r = true) : r = .ok ⟨⟩ (final r) := by
  cases r with
  | ok u s => rfl
  | error e s => cases h

/-- Every run of `x` is a step of `R`. -/
def Steps (R : σ → σ → Prop) (x : EStateM ε σ α) : Prop := ∀ s, R s (final (x s))

namespace Steps

variable {R : σ → σ → Prop}

theorem pure (hr : ∀ s, R s s) (a : α) : Steps R (pure a : EStateM ε σ α) := hr

theorem throw (hr : ∀ s, R s s) (e : ε) : Steps R (throw e : EStateM ε σ α) := hr

theorem bind (ht : ∀ s s' s'', R s s' → R s' s'' → R s s'') (hx : Steps R x)
    (hf : ∀ a, Steps R (f a)) : Steps R (x >>= f) := by
  intro s
  have h1 := hx s
  cases hxs : x s with
  | ok a s' =>
    rw [bind_of_ok hxs]
    rw [hxs] at h1
    exact ht _ _ _ h1 (hf a s')
  | error e s' =>
    rw [bind_of_error hxs]
    rwa [hxs] at h1

/-- A program that begins by reading the state. -/
theorem get_bind {f : σ → EStateM ε σ β} (h : ∀ s, R s (final (f s s))) : Steps R (get >>= f) := h

theorem ite {c : Prop} [Decidable c] {y : EStateM ε σ α} (hx : Steps R x) (hy : Steps R y) :
    Steps R (if c then x else y) := by
  by_cases h : c
  · rw [if_pos h]; exact hx
  · rw [if_neg h]; exact hy

end Steps

/-! ### One program that does what another does -/

/-- From `s`, `x` faults as `y` does, or returns where `y` returns, with a result in `P`. -/
def Mimics (x : EStateM ε σ β) (y : EStateM ε σ PUnit) (P : β → σ → Prop) (s : σ) : Prop :=
  match y s with
  | .ok _ s' => ∃ b, x s = .ok b s' ∧ P b s'
  | .error e s' => x s = .error e s'

namespace Mimics

variable {P Q : β → σ → Prop} {y z : EStateM ε σ PUnit} {x : EStateM ε σ β}

theorem of_ok (hy : y s = .ok ⟨⟩ s') (hx : x s = .ok b s') (h : P b s') : Mimics x y P s := by
  unfold Mimics
  rw [hy]
  exact ⟨b, hx, h⟩

theorem pure (h : P b s) : Mimics (pure b : EStateM ε σ β) (pure ⟨⟩) P s := of_ok rfl rfl h

theorem mono (h : Mimics x y P s) (hpq : ∀ b s, P b s → Q b s) : Mimics x y Q s := by
  unfold Mimics at h ⊢
  cases hy : y s with
  | ok _ s' =>
    rw [hy] at h
    obtain ⟨b, hx, hb⟩ := h
    exact ⟨b, hx, hpq b s' hb⟩
  | error e s' => rwa [hy] at h

theorem bind {γ : Type} {f : β → EStateM ε σ γ} {R : γ → σ → Prop} (h : Mimics x y P s)
    (hf : ∀ b s', P b s' → Mimics (f b) z R s') : Mimics (x >>= f) (y >>= fun _ => z) R s := by
  unfold Mimics at h ⊢
  cases hy : y s with
  | ok u s' =>
    rw [hy] at h
    obtain ⟨b, hx, hb⟩ := h
    rw [bind_of_ok hy, bind_of_ok hx]
    exact hf b s' hb
  | error e s' =>
    rw [hy] at h
    rw [bind_of_error hy]
    exact bind_of_error h

/-- **Two loops over one list.** `I` relates the rest of the list to the value that the
first loop carries along. -/
theorem foldlM {γ : Type} {f : β → γ → EStateM ε σ β} {g : γ → EStateM ε σ PUnit}
    {I : List γ → β → σ → Prop}
    (h : ∀ c l b s, I (c :: l) b s → Mimics (f b c) (g c) (I l) s) (l : List γ) (b : β) (s : σ)
    (hI : I l b s) : Mimics (l.foldlM f b) (l.forM g) (I []) s := by
  induction l generalizing b s with
  | nil => exact Mimics.pure hI
  | cons c l ih =>
    rw [List.foldlM_cons]
    exact Mimics.bind (h c l b s hI) fun b' s' hb => ih b' s' hb

/-- Without its result, the one program is the other. -/
theorem forget (h : Mimics x y P s) : (x >>= fun _ => Pure.pure ⟨⟩) s = y s := by
  unfold Mimics at h
  cases hy : y s with
  | ok u s' =>
    rw [hy] at h
    obtain ⟨b, hx, -⟩ := h
    rw [bind_of_ok hx]
    rfl
  | error e s' =>
    rw [hy] at h
    exact bind_of_error h

end Mimics

end Prog
