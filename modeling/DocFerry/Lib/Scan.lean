import Mathlib.Tactic

/-!
# Scanners that can be stopped and resumed

A `Scanner` cuts items off the front of a list. What it cuts off is decided by the elements that
are there: more of them behind an item change nothing about it. A scanner may carry a mode from one
item to the next.

* `Scanner.run`: all items that can be cut off, the mode after them and the rest.
* `Scanner.run_append`: scanning a list in two pieces, the rest of the first put in front of the
  second, is scanning the list.
* `Scanner.items_prefix`: what has been cut off stays cut off.
-/

/-- A scanner of items `α` in lists over `β`, with modes `μ`. -/
structure Scanner (μ α β : Type*) where
  /-- the next item, the mode after it and how many elements it takes -/
  next : μ → List β → Option (α × μ × ℕ)
  pos : ∀ {m bs a m' k}, next m bs = some (a, m', k) → 0 < k
  le : ∀ {m bs a m' k}, next m bs = some (a, m', k) → k ≤ bs.length
  extend : ∀ {m bs r} (cs : List β), next m bs = some r → next m (bs ++ cs) = some r

namespace Scanner

variable {μ α β : Type*} (S : Scanner μ α β)

/-- The items of `bs`, the mode behind them, and the elements that make up no item yet. -/
def run (m : μ) (bs : List β) : List α × μ × List β :=
  match _h : S.next m bs with
  | none => ([], m, bs)
  | some (a, m', k) => (a :: (run m' (bs.drop k)).1, (run m' (bs.drop k)).2)
termination_by bs.length
decreasing_by
  all_goals
    have := S.pos _h
    have := S.le _h
    rw [List.length_drop]
    omega

/-- The items of `bs`. -/
def items (m : μ) (bs : List β) : List α := (S.run m bs).1

/-- The mode behind the items. -/
def mode (m : μ) (bs : List β) : μ := (S.run m bs).2.1

/-- The elements behind the items. -/
def rest (m : μ) (bs : List β) : List β := (S.run m bs).2.2

variable {S} {m m' : μ} {bs cs : List β} {a : α} {k : ℕ}

theorem run_none (h : S.next m bs = none) : S.run m bs = ([], m, bs) := by
  rw [run]
  split
  · rfl
  · rename_i h'
    rw [h] at h'
    cases h'

theorem run_some (h : S.next m bs = some (a, m', k)) :
    S.run m bs = (a :: S.items m' (bs.drop k), (S.run m' (bs.drop k)).2) := by
  rw [run]
  split
  · rename_i h'
    rw [h] at h'
    cases h'
  · rename_i h'
    rw [h] at h'
    cases h'
    rfl

theorem items_none (h : S.next m bs = none) : S.items m bs = [] := by rw [items, run_none h]

theorem items_some (h : S.next m bs = some (a, m', k)) :
    S.items m bs = a :: S.items m' (bs.drop k) := by rw [items, run_some h]

theorem mode_none (h : S.next m bs = none) : S.mode m bs = m := by rw [mode, run_none h]

theorem mode_some (h : S.next m bs = some (a, m', k)) : S.mode m bs = S.mode m' (bs.drop k) := by
  rw [mode, run_some h]
  rfl

theorem rest_none (h : S.next m bs = none) : S.rest m bs = bs := by rw [rest, run_none h]

theorem rest_some (h : S.next m bs = some (a, m', k)) : S.rest m bs = S.rest m' (bs.drop k) := by
  rw [rest, run_some h]
  rfl

/-- Of no element no item is made. -/
theorem next_nil (S : Scanner μ α β) (m : μ) : S.next m [] = none := by
  cases h : S.next m [] with
  | none => rfl
  | some r =>
    obtain ⟨a, m', k⟩ := r
    have h1 := S.pos h
    have h2 := S.le h
    rw [List.length_nil] at h2
    omega

/-- **Scanning can be resumed**: the rest of one scan goes in front of what comes next. -/
theorem run_append (S : Scanner μ α β) (m : μ) (bs cs : List β) :
    S.run m (bs ++ cs) = (S.items m bs ++ S.items (S.mode m bs) (S.rest m bs ++ cs),
      (S.run (S.mode m bs) (S.rest m bs ++ cs)).2) := by
  induction hn : bs.length using Nat.strong_induction_on generalizing m bs with
  | _ n ih =>
    cases h : S.next m bs with
    | none =>
      rw [items_none h, mode_none h, rest_none h]
      rfl
    | some r =>
      obtain ⟨a, m', k⟩ := r
      have h1 := S.pos h
      have h2 := S.le h
      have hrun := run_some (S.extend cs h)
      rw [List.drop_append_of_le_length h2] at hrun
      rw [hrun, items, ih _ (by rw [List.length_drop]; omega) m' (bs.drop k) rfl, items_some h,
        mode_some h, rest_some h]
      rfl

theorem items_append (S : Scanner μ α β) (m : μ) (bs cs : List β) :
    S.items m (bs ++ cs) = S.items m bs ++ S.items (S.mode m bs) (S.rest m bs ++ cs) := by
  rw [items, run_append]

theorem mode_append (S : Scanner μ α β) (m : μ) (bs cs : List β) :
    S.mode m (bs ++ cs) = S.mode (S.mode m bs) (S.rest m bs ++ cs) := by
  rw [mode, run_append]
  rfl

theorem rest_append (S : Scanner μ α β) (m : μ) (bs cs : List β) :
    S.rest m (bs ++ cs) = S.rest (S.mode m bs) (S.rest m bs ++ cs) := by
  rw [rest, run_append]
  rfl

/-- **What has been cut off** stays cut off, whatever comes behind it. -/
theorem items_prefix (S : Scanner μ α β) (m : μ) (bs cs : List β) :
    S.items m bs <+: S.items m (bs ++ cs) := ⟨_, (S.items_append m bs cs).symm⟩

end Scanner
