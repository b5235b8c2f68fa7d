import Mathlib.Tactic

/-!
# Cutting a list into pieces

`IsCut m l ps`: the non-empty pieces `ps`, none longer than `m`, make up `l`. A stream
of bytes reaches its reader in such pieces, and leaves its writer in the blocks of
`blocksOf m l`.
-/

/-- `ps` is a way of cutting `l` into non-empty pieces of at most `m` elements. -/
structure IsCut {α : Type*} (m : ℕ) (l : List α) (ps : List (List α)) : Prop where
  flatten : ps.flatten = l
  ne_nil : ∀ p ∈ ps, p ≠ []
  le : ∀ p ∈ ps, p.length ≤ m

namespace IsCut

variable {α : Type*} {m : ℕ} {l p : List α} {ps : List (List α)}

theorem nil : IsCut m ([] : List α) [] := ⟨rfl, by simp, by simp⟩

/-- Only the empty list is cut into no piece. -/
theorem eq_nil (h : IsCut m l []) : l = [] := h.flatten.symm

theorem head_ne_nil (h : IsCut m l (p :: ps)) : p ≠ [] := h.ne_nil p List.mem_cons_self

theorem head_le (h : IsCut m l (p :: ps)) : p.length ≤ m := h.le p List.mem_cons_self

theorem head_prefix (h : IsCut m l (p :: ps)) : p <+: l := ⟨ps.flatten, by rw [← h.flatten]; rfl⟩

/-- The rest of the list is cut into the rest of the pieces. -/
theorem tail (h : IsCut m l (p :: ps)) : IsCut m (l.drop p.length) ps := by
  refine ⟨?_, fun q hq => h.ne_nil q (List.mem_cons_of_mem _ hq),
    fun q hq => h.le q (List.mem_cons_of_mem _ hq)⟩
  rw [← h.flatten, List.flatten_cons, List.drop_left]

/-- The last piece is not empty. -/
theorem length_dropLast (h : IsCut m l ps) (hne : ps ≠ []) : ps.dropLast.flatten.length < l.length := by
  have hlast := List.length_pos_iff.2 (h.ne_nil _ (List.getLast_mem hne))
  rw [← h.flatten]
  conv_rhs => rw [← List.dropLast_append_getLast hne]
  rw [List.flatten_append, List.length_append, List.flatten_singleton]
  omega

/-- The pieces before the last make up at least what any of the cuts before the end do. -/
theorem length_le_dropLast {qs : List (List α)} (hq : qs <+: ps) (hne : qs ≠ ps) :
    qs.flatten.length ≤ ps.dropLast.flatten.length := by
  obtain ⟨rs, rfl⟩ := hq
  have hrs : rs ≠ [] := fun h => hne (by rw [h, List.append_nil])
  rw [List.dropLast_append_of_ne_nil hrs, List.flatten_append, List.length_append]
  exact Nat.le_add_right _ _

/-- Pieces up to a cut are a way of cutting what they make up. -/
theorem of_prefix {qs : List (List α)} (h : IsCut m l ps) (hq : qs <+: ps) : IsCut m qs.flatten qs :=
  ⟨rfl, fun p hp => h.ne_nil p (hq.subset hp), fun p hp => h.le p (hq.subset hp)⟩

end IsCut

/-! ### Blocks of one length -/

/-- `l` in blocks of `m` elements and a rest. -/
def blocksOf {α : Type*} (m : ℕ) (l : List α) : List (List α) :=
  if m = 0 ∨ l = [] then [] else l.take m :: blocksOf m (l.drop m)
termination_by l.length
decreasing_by
  rename_i h
  rw [not_or] at h
  have := List.length_pos_iff.2 h.2
  rw [List.length_drop]
  omega

section Blocks

variable {α : Type*} {m : ℕ} {l : List α}

@[simp] theorem blocksOf_nil : blocksOf m ([] : List α) = [] := by
  rw [blocksOf, if_pos (.inr rfl)]

theorem blocksOf_step (hm : 0 < m) (hl : l ≠ []) :
    blocksOf m l = l.take m :: blocksOf m (l.drop m) := by
  rw [blocksOf, if_neg (by rw [not_or]; exact ⟨hm.ne', hl⟩)]

/-- **The blocks** are a way of cutting the list. -/
theorem isCut_blocksOf (hm : 0 < m) (l : List α) : IsCut m l (blocksOf m l) := by
  induction hn : l.length using Nat.strong_induction_on generalizing l with
  | _ n ih =>
    rcases eq_or_ne l [] with rfl | hl
    · rw [blocksOf_nil]
      exact .nil
    · have hpos := List.length_pos_iff.2 hl
      have htail : IsCut m (l.drop m) (blocksOf m (l.drop m)) :=
        ih (l.drop m).length (by rw [List.length_drop]; omega) (l.drop m) rfl
      have hne : l.take m ≠ [] := by
        intro h
        have := congrArg List.length h
        rw [List.length_take, List.length_nil] at this
        omega
      rw [blocksOf_step hm hl]
      refine ⟨?_, ?_, ?_⟩
      · rw [List.flatten_cons, htail.flatten, List.take_append_drop]
      · intro p hp
        rcases List.mem_cons.1 hp with rfl | hp
        · exact hne
        · exact htail.ne_nil p hp
      · intro p hp
        rcases List.mem_cons.1 hp with rfl | hp
        · exact List.length_take_le m l
        · exact htail.le p hp

/-- How many blocks there are. -/
theorem length_blocksOf (hm : 0 < m) (l : List α) :
    (blocksOf m l).length = (l.length + m - 1) / m := by
  induction hn : l.length using Nat.strong_induction_on generalizing l with
  | _ n ih =>
    rcases eq_or_ne l [] with rfl | hl
    · rw [blocksOf_nil, ← hn]
      simp only [List.length_nil, zero_add]
      exact (Nat.div_eq_of_lt (Nat.sub_lt hm Nat.one_pos)).symm
    · have hpos := List.length_pos_iff.2 hl
      rw [blocksOf_step hm hl, List.length_cons,
        ih (l.drop m).length (by rw [List.length_drop]; omega) (l.drop m) rfl, List.length_drop, hn]
      rcases Nat.lt_or_ge n m with hlt | hge
      · rw [Nat.sub_eq_zero_of_le hlt.le, Nat.div_eq_of_lt (by omega)]
        exact (Nat.div_eq_of_lt_le (by omega) (by omega)).symm
      · rw [show n + m - 1 = (n - m + m - 1) + m by omega, Nat.add_div_right _ hm]

end Blocks
