import Mathlib.Tactic

/-!
# Queues that take a bounded number of elements

A `Fifo` takes at most `cap` elements in its life and gives them back in order. It remembers
all that it has taken and counts what it has given.

* `gave_rest`: what a queue has given, and what is left in it, is what it has taken.
* `run` performs a row of operations and collects the answers; `run_conserves` is the law
  for whole rows.
-/

/-- What a queue has taken, and how much of it has been given back. -/
structure Fifo (α : Type*) where
  cap : ℕ
  taken : List α
  given : ℕ
  le_cap : taken.length ≤ cap
  le_taken : given ≤ taken.length

namespace Fifo

variable {α : Type*}

/-- An operation: elements are offered, or some number of them is asked for. -/
inductive Op (α : Type*)
  | push (l : List α)
  | pop (k : ℕ)
  deriving DecidableEq

/-- The empty queue for `cap` elements. -/
def new (cap : ℕ) : Fifo α := ⟨cap, [], 0, Nat.zero_le _, le_rfl⟩

/-- How many elements the queue will still take. -/
def room (q : Fifo α) : ℕ := q.cap - q.taken.length

/-- The elements that are left in the queue. -/
def rest (q : Fifo α) : List α := q.taken.drop q.given

/-- The queue once it was offered `l`: it takes the longest prefix that it has room for. -/
def push (q : Fifo α) (l : List α) : Fifo α where
  cap := q.cap
  taken := q.taken ++ l.take q.room
  given := q.given
  le_cap := by
    have := q.le_cap
    rw [List.length_append, List.length_take]
    unfold room
    omega
  le_taken := by
    have := q.le_taken
    rw [List.length_append]
    omega

/-- The queue once it was asked for `k` elements. -/
def pop (q : Fifo α) (k : ℕ) : Fifo α where
  cap := q.cap
  taken := q.taken
  given := q.given + min k q.rest.length
  le_cap := q.le_cap
  le_taken := by
    have := q.le_taken
    unfold rest
    rw [List.length_drop]
    omega

/-- One operation: how many elements went in or out, which ones came out, and the queue. -/
def step (q : Fifo α) : Op α → (ℕ × List α) × Fifo α
  | .push l => ((min q.room l.length, []), q.push l)
  | .pop k => ((min k q.rest.length, q.rest.take k), q.pop k)

/-- A row of operations, and the answers to them. -/
def run : List (Op α) → Fifo α → List (ℕ × List α) × Fifo α
  | [], q => ([], q)
  | op :: ops, q =>
    let (a, q') := q.step op
    let (as, q'') := run ops q'
    (a :: as, q'')

variable {q : Fifo α}

@[simp] theorem new_cap (cap : ℕ) : (new cap : Fifo α).cap = cap := rfl

@[simp] theorem new_taken (cap : ℕ) : (new cap : Fifo α).taken = [] := rfl

@[simp] theorem new_given (cap : ℕ) : (new cap : Fifo α).given = 0 := rfl

@[simp] theorem push_cap (l : List α) : (q.push l).cap = q.cap := rfl

@[simp] theorem push_taken (l : List α) : (q.push l).taken = q.taken ++ l.take q.room := rfl

@[simp] theorem push_given (l : List α) : (q.push l).given = q.given := rfl

@[simp] theorem pop_cap (k : ℕ) : (q.pop k).cap = q.cap := rfl

@[simp] theorem pop_taken (k : ℕ) : (q.pop k).taken = q.taken := rfl

@[simp] theorem pop_given (k : ℕ) : (q.pop k).given = q.given + min k q.rest.length := rfl

/-- The elements given back so far. -/
def gave (q : Fifo α) : List α := q.taken.take q.given

/-- **Conservation.** What a queue gave and what is left in it is what it has taken. -/
theorem gave_rest (q : Fifo α) : q.gave ++ q.rest = q.taken := List.take_append_drop _ _

theorem length_rest (q : Fifo α) : q.rest.length = q.taken.length - q.given := List.length_drop ..

@[simp] theorem push_gave (l : List α) : (q.push l).gave = q.gave := by
  unfold gave
  rw [push_taken, push_given, List.take_append_of_le_length q.le_taken]

/-- A pop gives the elements at the front. -/
theorem pop_gave (k : ℕ) : (q.pop k).gave = q.gave ++ q.rest.take k := by
  unfold gave
  rw [pop_taken, pop_given, List.take_add]
  congr 1
  exact List.take_eq_take_min.symm

/-- All elements that a row of operations has put in, by the answers to it. -/
def accepted : List (Op α) → List ℕ → List α
  | .push l :: ops, n :: ns => l.take n ++ accepted ops ns
  | .pop _ :: ops, _ :: ns => accepted ops ns
  | _, _ => []

/-- **A row of operations** adds what it says to what was taken and what was given. -/
theorem run_conserves (ops : List (Op α)) (q : Fifo α) :
    (run ops q).2.taken = q.taken ++ accepted ops ((run ops q).1.map Prod.fst) ∧
      (run ops q).2.gave = q.gave ++ ((run ops q).1.map Prod.snd).flatten ∧
        (run ops q).2.cap = q.cap := by
  induction ops generalizing q with
  | nil => simp [run, accepted]
  | cons op ops ih =>
    cases op with
    | push l =>
      obtain ⟨htaken, hgave, hcap⟩ := ih (q.push l)
      have hl : l.take (min q.room l.length) = l.take q.room := List.take_eq_take_min.symm
      refine ⟨?_, ?_, hcap⟩
      · simp only [run, step, accepted, List.map_cons]
        rw [htaken, push_taken, hl, List.append_assoc]
      · simp only [run, step, List.map_cons, List.flatten_cons, List.nil_append]
        rw [hgave, push_gave]
    | pop k =>
      obtain ⟨htaken, hgave, hcap⟩ := ih (q.pop k)
      refine ⟨htaken, ?_, hcap⟩
      simp only [run, step, List.map_cons, List.flatten_cons]
      rw [hgave, pop_gave, List.append_assoc]

end Fifo
