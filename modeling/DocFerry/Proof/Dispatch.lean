import DocFerry.Lib.Prog
import DocFerry.Spec.Round

/-!
# `do_select` delivers every bit

* `collect_eq`: the loop that builds the sets asks for what the handlers want.
* `dispatchBit_mimics`, `dispatchSock_mimics`: a block of the dispatch loop does what
  `deliver` does for its bit, as long as the counter is not below the number of bits
  that are still to come.
* `doSelect_delivers`: the round is that of `Table.round`, when the sets have a bit for every number that is
  asked about.
-/

namespace DocFerry

open Prog

/-! ### The bits, and their order -/

theorem FdSets.mem_bitsOf {sets : FdSets} {sock k : ℤ} {bit : Bit} :
    (k, bit) ∈ sets.bitsOf sock ↔ k = sock ∧ k ∈ sets.get bit := by
  simp only [FdSets.bitsOf, List.mem_map, List.mem_filter, decide_eq_true_eq, Prod.mk.injEq]
  constructor
  · rintro ⟨b, ⟨-, hb⟩, rfl, rfl⟩
    exact ⟨rfl, hb⟩
  · rintro ⟨rfl, hk⟩
    refine ⟨bit, ⟨?_, hk⟩, rfl, rfl⟩
    cases bit <;> simp

theorem FdSets.mem_get_union {sets : FdSets} {k : ℤ} {bit : Bit} (h : k ∈ sets.get bit) :
    k ∈ sets.r ∪ sets.w ∪ sets.e := by
  cases bit <;> simp only [FdSets.get] at h <;> simp [h]

/-- The bits are those that are set. -/
theorem FdSets.mem_bits {sets : FdSets} {k : ℤ} {bit : Bit} :
    (k, bit) ∈ sets.bits ↔ k ∈ sets.get bit := by
  simp only [FdSets.bits, List.mem_flatMap, Finset.mem_sort, FdSets.mem_bitsOf]
  constructor
  · rintro ⟨sock, -, rfl, hk⟩
    exact hk
  · intro hk
    exact ⟨k, FdSets.mem_get_union hk, rfl, hk⟩

theorem FdSets.bitsOf_pairwise (sets : FdSets) (sock : ℤ) : (sets.bitsOf sock).Pairwise Before := by
  have h : ([.read, .write, .expt] : List Bit).Pairwise fun a b => a.rank < b.rank := by decide
  refine List.pairwise_map.2 ((h.sublist List.filter_sublist).imp fun hab => ?_)
  exact .inr ⟨rfl, hab⟩

/-- No bit comes twice, and they come in the order of `Before`. -/
theorem FdSets.bits_pairwise (sets : FdSets) : sets.bits.Pairwise Before := by
  refine List.pairwise_flatMap.2 ⟨fun k _ => sets.bitsOf_pairwise k, ?_⟩
  refine ((sets.r ∪ sets.w ∪ sets.e).sortedLT_sort.pairwise).imp fun {a b} hab => ?_
  rintro ⟨x, bx⟩ hx ⟨y, hy'⟩ hy
  obtain ⟨rfl, -⟩ := FdSets.mem_bitsOf.1 hx
  obtain ⟨rfl, -⟩ := FdSets.mem_bitsOf.1 hy
  exact .inl hab

variable {ε σ H : Type} {T : Table ε σ H} {s : σ} {sets : FdSets} {sock : ℤ} {bit : Bit} {retv : ℤ}

/-! ### The sets given to `select` -/

theorem socksOf_concat (l : List (ℤ × H)) (entry : ℤ × H) (p : H → Bool) :
    socksOf (l ++ [entry]) p = if p entry.2 then socksOf l p ++ [entry.1] else socksOf l p := by
  unfold socksOf
  by_cases h : p entry.2 <;> simp [h]

/-- What the loop has built of the entries `l`. -/
structure Collected (T : Table ε σ H) (s : σ) (l : List (ℤ × H)) (sel : Selection) : Prop where
  r : sel.sets.r = (socksOf l (T.readable s)).toFinset
  w : sel.sets.w = (socksOf l fun h => T.writable s h && !T.isAccepting s h).toFinset
  e : sel.sets.e = (socksOf l fun h => T.readable s h || T.writable s h).toFinset
  socks : sel.select_socks = socksOf l fun h => T.readable s h || T.writable s h
  max : sel.max_fd = (socksOf l fun h => T.readable s h || T.writable s h).foldl max 0

theorem addSock_collected {l : List (ℤ × H)} {sel : Selection} (h : Collected T s l sel)
    (entry : ℤ × H) : Collected T s (l ++ [entry]) (T.addSock s sel entry) := by
  obtain ⟨k, x⟩ := entry
  obtain ⟨hr, hw, he, hs, hm⟩ := h
  have hmax : ∀ m : ℤ, (if m < k then k else m) = max m k := fun m => (max_def_lt m k).symm
  cases hir : T.readable s x <;> cases hiw : T.writable s x <;> cases hia : T.isAccepting s x <;>
    constructor <;>
    simp [Table.addSock, hir, hiw, hia, socksOf_concat, hr, hw, he, hs, hm, hmax, List.foldl_append,
      Finset.union_comm]

theorem collect_collected (T : Table ε σ H) (s : σ) : Collected T s (T.map s).toList (T.collect s) := by
  unfold Table.collect
  generalize (T.map s).toList = l
  induction l using List.reverseRecOn with
  | nil => exact ⟨rfl, rfl, rfl, rfl, rfl⟩
  | append_singleton l entry ih =>
    rw [List.foldl_append]
    exact addSock_collected ih entry

/-- The sockets that pass a test come in ascending order. -/
theorem socksOf_sorted (m : Std.TreeMap ℤ H) (p : H → Bool) : (socksOf m.toList p).SortedLT := by
  have hkeys : m.keys.Pairwise (· < ·) := by
    refine (Std.TreeMap.ordered_keys (t := m)).imp fun {a b} hab => ?_
    exact compare_lt_iff_lt.1 hab
  rw [← Std.TreeMap.map_fst_toList_eq_keys] at hkeys
  exact (hkeys.sublist (List.filter_sublist.map _)).sortedLT

theorem foldl_max_spec (l : List ℤ) (a : ℤ) :
    a ≤ l.foldl max a ∧ (∀ x ∈ l, x ≤ l.foldl max a) ∧ (l.foldl max a = a ∨ l.foldl max a ∈ l) := by
  induction l generalizing a with
  | nil => simp
  | cons b l ih =>
    obtain ⟨h1, h2, h3⟩ := ih (max a b)
    rw [List.foldl_cons]
    refine ⟨by omega, ?_, ?_⟩
    · intro x hx
      rcases List.mem_cons.1 hx with rfl | hx
      · omega
      · exact h2 x hx
    · rcases h3 with h3 | h3
      · rcases max_choice a b with hm | hm
        · exact .inl (h3.trans hm)
        · exact .inr (List.mem_cons.2 (.inl (h3.trans hm)))
      · exact .inr (List.mem_cons_of_mem _ h3)

/-- **The loop over the map** asks for what the handlers want, and finds the largest
descriptor if there is any. -/
theorem collect_eq (T : Table ε σ H) (s : σ) (hpos : ∀ k ∈ T.map s, 0 < k) :
    (T.collect s).sets = T.interest s ∧ (T.collect s).select_socks = (T.interest s).e.sort ∧
      ((T.interest s).e = ∅ ∧ (T.collect s).max_fd = 0 ∨
        (T.interest s).e.max = some (T.collect s).max_fd ∧ (T.collect s).max_fd ≠ 0) := by
  obtain ⟨hr, hw, he, hs, hm⟩ := collect_collected T s
  set l := socksOf (T.map s).toList fun h => T.readable s h || T.writable s h with hl
  have hsorted : l.SortedLT := socksOf_sorted _ _
  have hmem : ∀ k ∈ l, 0 < k := by
    intro k hk
    obtain ⟨⟨k, x⟩, hx, rfl⟩ := List.mem_map.1 hk
    have hx' := (List.mem_filter.1 hx).1
    rw [Std.TreeMap.mem_toList_iff_getElem?_eq_some] at hx'
    exact hpos k (Std.TreeMap.mem_iff_isSome_getElem?.2 (by rw [hx']; rfl))
  have hIe : (T.interest s).e = l.toFinset := rfl
  refine ⟨?_, ?_, ?_⟩
  · rcases hsets : (T.collect s).sets with ⟨r, w, e⟩
    rw [hsets] at hr hw he
    rw [show r = _ from hr, show w = _ from hw, show e = _ from he]
    rfl
  · rw [hs, hIe]
    exact hsorted.eq_of_mem_iff (Finset.sortedLT_sort _) (by simp)
  · -- `max_fd` starts at 0, which is no descriptor of the map
    obtain ⟨h0, hle, hin⟩ := foldl_max_spec l 0
    rw [← hm] at h0 hle hin
    rcases hin with hin | hin
    · left
      refine ⟨?_, hin⟩
      rw [hIe, List.toFinset_eq_empty_iff, List.eq_nil_iff_forall_not_mem]
      intro k hk
      have h1 := hmem k hk
      have h2 := hle k hk
      omega
    · right
      refine ⟨?_, by have := hmem _ hin; omega⟩
      rw [hIe]
      refine le_antisymm (Finset.max_le fun k hk => ?_) (Finset.le_max (List.mem_toFinset.2 hin))
      exact WithBot.coe_le_coe.2 (hle k (List.mem_toFinset.1 hk))

/-! ### The dispatch loop -/

/-- The number of bits set among the socket's one. -/
def FdSets.count (sets : FdSets) (sock : ℤ) (bit : Bit) : ℤ := if sock ∈ sets.get bit then 1 else 0

/-- The delivery of a bit, if it is set. -/
def Table.deliverIf (T : Table ε σ H) (sets : FdSets) (sock : ℤ) (bit : Bit) : EStateM ε σ PUnit :=
  if sock ∈ sets.get bit then T.deliver (sock, bit) else pure ⟨⟩

/-- **A block of the dispatch loop** delivers its bit, unless the counter is lower than
the number of bits to come. Where it ends the round of the socket, nobody is registered. -/
theorem dispatchBit_mimics (hk : sets.count sock bit ≤ retv) :
    Mimics (T.dispatchBit sets sock bit retv) (T.deliverIf sets sock bit)
      (fun r s' => retv - sets.count sock bit ≤ r.1 ∧ (r.2 = true → (T.map s')[sock]? = none)) s := by
  unfold FdSets.count at hk ⊢
  unfold Mimics Table.deliverIf Table.dispatchBit Table.deliver
  by_cases hin : sock ∈ sets.get bit
  · -- the counter has not run out, since the bit is to come
    have hpos : retv > 0 := by rw [if_pos hin] at hk; omega
    simp only [hin, hpos, if_true, get_bind]
    cases hf : (T.map s)[sock]? with
    | none => exact ⟨_, rfl, by omega, fun _ => hf⟩
    | some h =>
      by_cases hw : T.wants s h bit = true
      · simp only [hw, and_self, if_true, run_bind]
        cases T.handleEvent sock h bit s with
        | ok u s' => exact ⟨_, rfl, le_rfl, by simp⟩
        | error e s' => rfl
      · simp only [hw]
        exact ⟨_, rfl, by omega, by simp⟩
  · simp only [hin, if_false, false_and, and_false]
    by_cases hpos : retv > 0
    · simp only [hpos, if_true, get_bind]
      cases hf : (T.map s)[sock]? with
      | none => exact ⟨_, rfl, by omega, fun _ => hf⟩
      | some h => exact ⟨_, rfl, by omega, by simp⟩
    · simp only [hpos, if_false]
      exact ⟨_, rfl, by omega, by simp⟩

/-- Nothing is delivered where nobody is registered. -/
theorem deliverIf_none (h : (T.map s)[sock]? = none) : T.deliverIf sets sock bit s = .ok ⟨⟩ s := by
  unfold Table.deliverIf Table.deliver
  by_cases hin : sock ∈ sets.get bit
  · simp only [hin, if_true, get_bind, h]
    rfl
  · rw [if_neg hin]
    rfl

/-- The deliveries of a socket, one by one. -/
theorem bitsOf_forM (T : Table ε σ H) (sets : FdSets) (sock : ℤ) :
    (sets.bitsOf sock).forM T.deliver =
      (do T.deliverIf sets sock .read
          T.deliverIf sets sock .write
          T.deliverIf sets sock .expt) := by
  unfold FdSets.bitsOf Table.deliverIf
  by_cases hr : sock ∈ sets.get .read <;> by_cases hw : sock ∈ sets.get .write <;>
    by_cases he : sock ∈ sets.get .expt <;> simp [hr, hw, he]

theorem length_bitsOf (sets : FdSets) (sock : ℤ) :
    ((sets.bitsOf sock).length : ℤ) =
      sets.count sock .read + sets.count sock .write + sets.count sock .expt := by
  unfold FdSets.bitsOf FdSets.count
  by_cases hr : sock ∈ sets.get .read <;> by_cases hw : sock ∈ sets.get .write <;>
    by_cases he : sock ∈ sets.get .expt <;> simp [hr, hw, he]

theorem FdSets.count_nonneg (sets : FdSets) (sock : ℤ) (bit : Bit) : 0 ≤ sets.count sock bit := by
  unfold FdSets.count
  split <;> omega

/-- **The body of the dispatch loop** delivers the bits of its socket. -/
theorem dispatchSock_mimics {n : ℤ} (hk : (sets.bitsOf sock).length + n ≤ retv) (hn : 0 ≤ n) :
    Mimics (T.dispatchSock sets retv sock) ((sets.bitsOf sock).forM T.deliver)
      (fun r _ => n ≤ r) s := by
  have h1 := sets.count_nonneg sock .read
  have h2 := sets.count_nonneg sock .write
  have h3 := sets.count_nonneg sock .expt
  rw [length_bitsOf] at hk
  rw [bitsOf_forM]
  unfold Table.dispatchSock
  refine Mimics.bind (dispatchBit_mimics (by omega)) ?_
  rintro ⟨retv₁, cont₁⟩ s₁ ⟨hr₁, hc₁⟩
  dsimp only at hr₁ hc₁ ⊢
  cases cont₁ with
  | true =>
    -- `continue`: the two other blocks would find nobody either
    have hnone := hc₁ rfl
    refine Mimics.of_ok ?_ rfl (by omega)
    rw [bind_of_ok (deliverIf_none hnone)]
    exact deliverIf_none hnone
  | false =>
    refine Mimics.bind (dispatchBit_mimics (by omega)) ?_
    rintro ⟨retv₂, cont₂⟩ s₂ ⟨hr₂, hc₂⟩
    dsimp only at hr₂ hc₂ ⊢
    cases cont₂ with
    | true => exact Mimics.of_ok (deliverIf_none (hc₂ rfl)) rfl (by omega)
    | false =>
      have h : Mimics (T.dispatchBit sets sock .expt retv₂) (T.deliverIf sets sock .expt) _ s₂ :=
        dispatchBit_mimics (by omega)
      unfold Mimics at h ⊢
      cases hd : T.deliverIf sets sock .expt s₂ with
      | ok u s₃ =>
        rw [hd] at h
        obtain ⟨⟨retv₃, cont₃⟩, hx, hr₃, -⟩ := h
        refine ⟨retv₃, ?_, by dsimp only at hr₃; omega⟩
        simp only [Bool.false_eq_true, if_false]
        rw [bind_of_ok hx]
        rfl
      | error e s₃ =>
        rw [hd] at h
        simp only [Bool.false_eq_true, if_false]
        exact bind_of_error h

theorem forM_flatMap {γ δ : Type} (l : List γ) (f : γ → List δ) (g : δ → EStateM ε σ PUnit) :
    (l.flatMap f).forM g = l.forM fun c => (f c).forM g := by
  induction l with
  | nil => rfl
  | cons c l ih =>
    rw [List.flatMap_cons]
    simp only [List.forM_eq_forM, List.forM_append, List.forM_cons] at ih ⊢
    rw [ih]

/-- **The dispatch loop** delivers the bits of its sockets. -/
theorem dispatch_mimics (l : List ℤ) (hk : (l.flatMap sets.bitsOf).length ≤ retv) :
    Mimics (l.foldlM (T.dispatchSock sets) retv) ((l.flatMap sets.bitsOf).forM T.deliver)
      (fun _ _ => True) s := by
  rw [forM_flatMap]
  refine Mimics.mono (Mimics.foldlM (I := fun l retv _ => ((l.flatMap sets.bitsOf).length : ℤ) ≤ retv)
    ?_ l retv s hk) fun _ _ _ => trivial
  intro sock l retv s hI
  rw [List.flatMap_cons, List.length_append] at hI
  refine Mimics.mono (dispatchSock_mimics (n := ((l.flatMap sets.bitsOf).length : ℤ)) ?_ ?_)
    fun _ _ h => h
  · push_cast at hI
    exact hI
  · omega

/-- The sockets that were asked for have all the bits. -/
theorem flatMap_bitsOf {l : List ℤ} (hl : l.SortedLT) (h : ∀ k ∈ sets.r ∪ sets.w ∪ sets.e, k ∈ l) :
    l.flatMap sets.bitsOf = sets.bits := by
  have hf : l.filter (fun k => decide (k ∈ sets.r ∪ sets.w ∪ sets.e)) =
      (sets.r ∪ sets.w ∪ sets.e).sort := by
    have hs : (l.filter fun k => decide (k ∈ sets.r ∪ sets.w ∪ sets.e)).SortedLT :=
      (hl.pairwise.sublist List.filter_sublist).sortedLT
    refine hs.eq_of_mem_iff (Finset.sortedLT_sort _) fun k => ?_
    rw [List.mem_filter, Finset.mem_sort, decide_eq_true_eq]
    exact ⟨fun hk => hk.2, fun hk => ⟨h k hk, hk⟩⟩
  unfold FdSets.bits
  rw [← hf]
  clear hf h hl
  induction l with
  | nil => rfl
  | cons k l ih =>
    by_cases hk : k ∈ sets.r ∪ sets.w ∪ sets.e
    · rw [List.filter_cons_of_pos (by simpa using hk), List.flatMap_cons, List.flatMap_cons, ih]
    · have hnil : sets.bitsOf k = [] := by
        rw [List.eq_nil_iff_forall_not_mem]
        rintro ⟨k', bit⟩ hb
        obtain ⟨rfl, hin⟩ := FdSets.mem_bitsOf.1 hb
        exact hk (FdSets.mem_get_union hin)
      rw [List.filter_cons_of_neg (by simpa using hk), List.flatMap_cons, hnil, List.nil_append, ih]

/-- There are no more bits than `select` counts. -/
theorem length_bits_le (sets : FdSets) : sets.bits.length ≤ sets.card := by
  unfold FdSets.bits
  have hnd : ((sets.r ∪ sets.w ∪ sets.e).sort).Nodup := Finset.sort_nodup ..
  generalize (sets.r ∪ sets.w ∪ sets.e).sort = l at hnd
  -- a list without repetition has at most as many members of a set as the set has
  have hcount : ∀ t : Finset ℤ, (l.filter fun k => decide (k ∈ t)).length ≤ t.card := by
    intro t
    rw [← List.toFinset_card_of_nodup (hnd.filter _)]
    refine Finset.card_le_card fun k hk => ?_
    simpa using (List.mem_filter.1 (List.mem_toFinset.1 hk)).2
  have hlen : ∀ l : List ℤ, (l.flatMap sets.bitsOf).length =
      (l.filter fun k => decide (k ∈ sets.r)).length + (l.filter fun k => decide (k ∈ sets.w)).length +
        (l.filter fun k => decide (k ∈ sets.e)).length := by
    intro l
    induction l with
    | nil => rfl
    | cons k l ih =>
      have hb := length_bitsOf sets k
      rw [List.flatMap_cons, List.length_append, ih]
      unfold FdSets.count FdSets.get at hb
      simp only [List.filter_cons, decide_eq_true_eq]
      by_cases hr : k ∈ sets.r <;> by_cases hw : k ∈ sets.w <;> by_cases he : k ∈ sets.e <;>
        simp only [hr, hw, he, if_true, if_false, List.length_cons] at hb ⊢ <;> omega
  rw [hlen]
  have h1 := hcount sets.r
  have h2 := hcount sets.w
  have h3 := hcount sets.e
  unfold FdSets.card
  omega

/-- What `select` may answer: an error, or some of the bits asked for and their number. -/
def Polls (select : ℤ → FdSets → EStateM ε σ (ℤ × FdSets)) : Prop :=
  ∀ nfds req s retv sets s', select nfds req s = .ok (retv, sets) s' →
    retv = -1 ∨ sets.Subset req ∧ retv = sets.card

/-- A bit that is left is one of a socket that was asked for. -/
theorem FdSets.Subset.mem_e {k : ℤ} (h : sets.Subset (T.interest s))
    (hk : k ∈ sets.r ∪ sets.w ∪ sets.e) : k ∈ (T.interest s).e := by
  have hsub : ∀ p : H → Bool, (∀ x, p x = true → (T.readable s x || T.writable s x) = true) →
      T.socks s p ⊆ (T.interest s).e := by
    intro p hp k hk
    simp only [Table.socks, socksOf, List.mem_toFinset, List.mem_map, List.mem_filter] at hk
    obtain ⟨entry, ⟨hin, hx⟩, rfl⟩ := hk
    simp only [Table.interest, Table.socks, socksOf, List.mem_toFinset, List.mem_map, List.mem_filter]
    exact ⟨entry, ⟨hin, hp _ hx⟩, rfl⟩
  rcases Finset.mem_union.1 hk with hk | hk
  · rcases Finset.mem_union.1 hk with hk | hk
    · exact hsub _ (fun x hx => by rw [hx]; rfl) (h.r hk)
    · refine hsub _ (fun x hx => ?_) (h.w hk)
      rw [((Bool.and_eq_true _ _).mp hx).1, Bool.or_true]
  · exact h.e hk

/-- Who is asked about is registered. -/
theorem interest_pos (hpos : ∀ k ∈ T.map s, 0 < k) {k : ℤ} (hk : k ∈ (T.interest s).e) : 0 < k := by
  simp only [Table.interest, Table.socks, socksOf, List.mem_toFinset, List.mem_map, List.mem_filter] at hk
  obtain ⟨⟨k', x⟩, ⟨hin, -⟩, rfl⟩ := hk
  rw [Std.TreeMap.mem_toList_iff_getElem?_eq_some] at hin
  exact hpos k' (Std.TreeMap.mem_iff_isSome_getElem?.2 (by rw [hin]; rfl))

theorem bits_eq_nil (h : sets.card = 0) : sets.bits = [] := by
  have := length_bits_le sets
  exact List.eq_nil_of_length_eq_zero (by omega)

/-- The calls of `FD_SET` stay within their sets, or stop at a number that is not in them. -/
theorem fdSet_cases (T : Table ε σ H) (l : List ℤ) (s : σ) :
    ((∀ k ∈ l, 0 ≤ k ∧ k < fdSetSize) ∧ T.fdSet l s = .ok ⟨⟩ s) ∨
      ∃ k ∈ l, ¬ (0 ≤ k ∧ k < fdSetSize) ∧ T.fdSet l s = .error (T.fdFault k) s := by
  unfold Table.fdSet
  cases hf : l.find? fun sock => !decide (0 ≤ sock ∧ sock < fdSetSize) with
  | none =>
    refine .inl ⟨fun k hk => ?_, rfl⟩
    simpa using List.find?_eq_none.1 hf k hk
  | some k =>
    refine .inr ⟨k, List.mem_of_find?_eq_some hf, ?_, rfl⟩
    have hout := List.find?_some hf
    simpa only [Bool.not_eq_true', decide_eq_false_iff_not] using hout

/-- **A round that asks about a number from `FD_SETSIZE` on** ends at once. -/
theorem doSelect_overflows (T : Table ε σ H) (s : σ) (hpos : ∀ k ∈ T.map s, 0 < k)
    (select : ℤ → FdSets → EStateM ε σ (ℤ × FdSets)) {k : ℤ} (hk : k ∈ (T.interest s).e)
    (hlow : ¬ k < fdSetSize) :
    ∃ k' ∈ (T.interest s).e, fdSetSize ≤ k' ∧ T.doSelect select s = .error (T.fdFault k') s := by
  obtain ⟨-, hsocks, -⟩ := collect_eq T s hpos
  have hsize : ¬ (T.map s).size = 0 := by
    intro hsize
    have hnil : (T.map s).toList = [] := by
      rw [← List.length_eq_zero_iff, Std.TreeMap.length_toList, hsize]
    simp [Table.interest, Table.socks, socksOf, hnil] at hk
  have hmem : ∀ k', k' ∈ (T.collect s).select_socks ↔ k' ∈ (T.interest s).e := by
    intro k'
    rw [hsocks, Finset.mem_sort]
  rcases fdSet_cases T (T.collect s).select_socks s with ⟨hall, -⟩ | ⟨k', hk', hout, hrun⟩
  · exact absurd (hall k ((hmem k).2 hk)).2 hlow
  · refine ⟨k', (hmem k').1 hk', ?_, ?_⟩
    · have := interest_pos hpos ((hmem k').1 hk')
      omega
    · unfold Table.doSelect
      rw [get_bind, if_neg hsize]
      exact bind_of_error hrun

/-- **One round of `do_select`** is that of `Table.round`, whatever the callbacks do, when every number
that it asks about has a bit. -/
theorem doSelect_eq_round (T : Table ε σ H) (s : σ) (hpos : ∀ k ∈ T.map s, 0 < k)
    (hlow : ∀ k ∈ (T.interest s).e, k < fdSetSize)
    {select : ℤ → FdSets → EStateM ε σ (ℤ × FdSets)} (hsel : Polls select) :
    T.doSelect select s = T.round select s := by
  obtain ⟨hsets, hsocks, hmax⟩ := collect_eq T s hpos
  unfold Table.doSelect Table.round
  rw [get_bind, get_bind]
  -- an empty map, then a map without a descriptor to poll
  by_cases hsize : (T.map s).size = 0
  · have hnil : (T.interest s).e = ∅ := by
      have : (T.map s).toList = [] := by
        rw [← List.length_eq_zero_iff, Std.TreeMap.length_toList, hsize]
      simp [Table.interest, Table.socks, socksOf, this]
    rw [if_pos hsize, hnil, Finset.max_empty]
  rw [if_neg hsize]
  have hfd : T.fdSet (T.collect s).select_socks s = .ok ⟨⟩ s := by
    rcases fdSet_cases T (T.collect s).select_socks s with ⟨-, hrun⟩ | ⟨k, hk, hout, -⟩
    · exact hrun
    · rw [hsocks, Finset.mem_sort] at hk
      exact absurd ⟨(interest_pos hpos hk).le, hlow k hk⟩ hout
  dsimp only
  rw [bind_of_ok hfd]
  rcases hmax with ⟨hnil, hz⟩ | ⟨hm, hnz⟩
  · rw [if_pos hz, hnil, Finset.max_empty]
  rw [if_neg hnz, hm, hsets]
  dsimp only
  cases hs : select ((T.collect s).max_fd + 1) (T.interest s) s with
  | error e s' => rw [bind_of_error hs, bind_of_error hs]
  | ok r s' =>
    obtain ⟨retv, sets⟩ := r
    rw [bind_of_ok hs, bind_of_ok hs]
    dsimp only
    rcases hsel _ _ _ _ _ _ hs with rfl | ⟨hsub, rfl⟩
    · rfl
    -- `select` has counted the bits of the sets
    have hneg : ¬ ((sets.card : ℤ) = -1) := by omega
    rw [if_neg hneg]
    by_cases hc : (sets.card : ℤ) = 0
    · rw [if_pos hc, bits_eq_nil (by exact_mod_cast hc)]
      rfl
    · rw [if_neg hc, if_neg hneg]
      -- the walk over the descriptors meets the bits in their order
      have hin : ∀ k ∈ sets.r ∪ sets.w ∪ sets.e, k ∈ (T.interest s).e.sort := by
        intro k hk
        rw [Finset.mem_sort]
        exact hsub.mem_e hk
      have hbits := flatMap_bitsOf (Finset.sortedLT_sort (T.interest s).e) hin
      have hle := length_bits_le sets
      have hcard : (((T.interest s).e.sort.flatMap sets.bitsOf).length : ℤ) ≤ sets.card := by
        rw [hbits]
        exact_mod_cast hle
      have hmim : Mimics ((T.interest s).e.sort.foldlM (T.dispatchSock sets) (sets.card : ℤ)) _ _ s' :=
        dispatch_mimics _ hcard
      rw [hbits] at hmim
      rw [hsocks]
      exact hmim.forget

/-- **Every set bit is delivered** when no number that is asked about is from `FD_SETSIZE` on: then one
round of `do_select` delivers every bit that `select` leaves set exactly once, by ascending descriptor and
read before write before exception, to the handler that is registered and wants the event when its turn
comes, and nothing else, whatever the callbacks do. With such a number it does not, unless the round of
the specification ends in the very fault of an `FD_SET`. -/
theorem doSelect_delivers (T : Table ε σ H) (s : σ) (hpos : ∀ k ∈ T.map s, 0 < k)
    (select : ℤ → FdSets → EStateM ε σ (ℤ × FdSets)) (hsel : Polls select) :
    ((∀ k ∈ (T.interest s).e, k < fdSetSize) → T.doSelect select s = T.round select s) ∧
      ((∀ k, T.round select s ≠ .error (T.fdFault k) s) → T.doSelect select s = T.round select s →
        ∀ k ∈ (T.interest s).e, k < fdSetSize) ∧
      ∀ sets : FdSets, sets.bits.Pairwise Before ∧
        ∀ k bit, (k, bit) ∈ sets.bits ↔ k ∈ sets.get bit := by
  refine ⟨fun hlow => doSelect_eq_round T s hpos hlow hsel, fun hfault heq k hk => ?_,
    fun sets => ⟨sets.bits_pairwise, fun _ _ => FdSets.mem_bits⟩⟩
  by_contra hlow
  obtain ⟨k', -, -, hrun⟩ := doSelect_overflows T s hpos select hk hlow
  rw [heq] at hrun
  exact hfault k' hrun

/-! ### The program's own `select` and map -/

/-- **The system's `select`** answers an error, or some of the bits and their number. -/
theorem osSelect_cases (E : Env) (nfds : ℤ) (req : FdSets) (w : World) :
    ∃ retv sets, osSelect E nfds req w = .ok (retv, sets) { w with nselect := w.nselect + 1 } ∧
      (retv = -1 ∨ sets.Subset req ∧ retv = sets.card) := by
  unfold osSelect
  rw [get_bind]
  cases hs : E.select w.nselect with
  | error => exact ⟨_, _, rfl, .inl rfl⟩
  | ready r s e =>
    exact ⟨_, _, rfl, .inr ⟨⟨Finset.filter_subset .., Finset.filter_subset .., Finset.filter_subset ..⟩, rfl⟩⟩

theorem osSelect_polls (E : Env) : Polls (osSelect E) := by
  intro nfds req w retv sets w' h
  obtain ⟨retv', sets', hrun, hok⟩ := osSelect_cases E nfds req w
  rw [hrun] at h
  cases h
  exact hok

/-- Every bit that is asked for is set. -/
def Env.eager : Env :=
  { Env.steady with select := fun _ => .ready (fun _ => true) (fun _ => true) (fun _ => true) }

/-- A server with a listener on descriptor 3, after its first round has taken a client in on 5. -/
def World.begun (E : Env) : World :=
  final (doSelect E 0 (final (TCPServer.new E none 7890 (some 0) World.init)))

theorem keys_of_begun {ks : List ℤ} (E : Env) (h : ((World.begun E).maps 0).keys = ks) (hpos : ∀ k ∈ ks, 0 < k) :
    ∀ k ∈ (serverTable E 0).map (World.begun E), 0 < k := by
  intro k hk
  rw [← Std.TreeMap.mem_keys] at hk
  exact hpos k (h ▸ hk)

/-- The second round: the listener adds a handler for descriptor 6, and the client on 5, which has hung up,
removes itself before its exception has its turn. -/
theorem doSelect_delivers_begun :
    (serverTable .eager 0).doSelect (osSelect .eager) (.begun .eager) =
        (serverTable .eager 0).round (osSelect .eager) (.begun .eager) ∧
      (∀ k ∈ ((serverTable .eager 0).interest (.begun .eager)).e, k < fdSetSize) ∧
      (∀ sets : FdSets, sets.bits.Pairwise Before ∧
        ∀ k bit, (k, bit) ∈ sets.bits ↔ k ∈ sets.get bit) ∧
      (final (doSelect .eager 0 (.begun .eager))).log = (World.begun .eager).log ++
        [.event 0 3 .read, .callback 0 .accept, .event 0 3 .expt, .callback 0 .expt,
          .event 1 5 .read, .callback 1 .read, .recv 5, .callback 1 .close, .close 1 (-1)] ∧
      ((final (doSelect .eager 0 (.begun .eager))).maps 0).keys = [3, 6] := by
  have hkeys : ((World.begun .eager).maps 0).keys = [3, 5] := by decide +kernel
  have hlow : ∀ k ∈ ((serverTable .eager 0).interest (.begun .eager)).e, k < fdSetSize := by decide +kernel
  obtain ⟨heq, hexact, hbits⟩ := doSelect_delivers (serverTable .eager 0) (.begun .eager)
    (keys_of_begun .eager hkeys (by decide)) _ (osSelect_polls .eager)
  -- the round returns, as the one of the code does
  have hok : isOk (doSelect .eager 0 (.begun .eager)) = true := by decide +kernel
  have hfault : ∀ k, (serverTable .eager 0).round (osSelect .eager) (.begun .eager) ≠
      .error ((serverTable .eager 0).fdFault k) (.begun .eager) := by
    intro k h
    unfold doSelect at hok
    rw [heq hlow, h] at hok
    cases hok
  exact ⟨heq hlow, hexact hfault (heq hlow), hbits, by decide +kernel, by decide +kernel⟩

/-- The system gives the clients numbers from 1024 on. -/
def Env.crowded : Env :=
  { Env.steady with accept := fun i => .conn (1024 + i) ("10.0.0.1", 4000) }

/-- What `select` leaves set in the second round: the read bits of the listener and of the client. -/
def FdSets.crowded : FdSets :=
  ⟨((serverTable .crowded 0).interest (.begun .crowded)).r.filter fun _ => true = true,
    ((serverTable .crowded 0).interest (.begun .crowded)).w.filter fun _ => true = true,
    ((serverTable .crowded 0).interest (.begun .crowded)).e.filter fun _ => false = true⟩

/-- **A client on descriptor 1024**: the round ends in the fault of `FD_SET` and delivers nothing, where the
two bits that are set had to be delivered. -/
theorem doSelect_delivers_nothing :
    ((World.begun .crowded).maps 0).keys = [3, 1024] ∧
      isOk ((serverTable .crowded 0).doSelect (osSelect .crowded) (.begun .crowded)) = false ∧
      (final ((serverTable .crowded 0).doSelect (osSelect .crowded) (.begun .crowded))).log =
        (World.begun .crowded).log ∧
      (final ((serverTable .crowded 0).round (osSelect .crowded) (.begun .crowded))).log =
        (World.begun .crowded).log ++
          [.event 0 3 .read, .callback 0 .accept, .event 1 1024 .read, .callback 1 .read, .recv 1024,
            .callback 1 .close, .close 1 (-1)] := by
  have hkeys : ((World.begun .crowded).maps 0).keys = [3, 1024] := by decide +kernel
  have hmax : ((serverTable .crowded 0).interest (.begun .crowded)).e.max = some 1024 := by
    have hfd : ((serverTable .crowded 0).collect (.begun .crowded)).max_fd = 1024 := by decide +kernel
    obtain ⟨-, -, ⟨-, hz⟩ | ⟨hm, -⟩⟩ := collect_eq _ _ (keys_of_begun .crowded hkeys (by decide))
    · rw [hfd] at hz
      cases hz
    · rw [hm, hfd]
  have hbits : FdSets.crowded.bits = [(3, .read), (1024, .read)] := by
    rw [← flatMap_bitsOf (l := [3, 1024]) (by decide +kernel) (by decide +kernel)]
    decide +kernel
  have hround : (serverTable .crowded 0).round (osSelect .crowded) (.begun .crowded) =
      ([(3, .read), (1024, .read)] : List (ℤ × Bit)).forM (serverTable .crowded 0).deliver
        { World.begun .crowded with nselect := (World.begun .crowded).nselect + 1 } := by
    have hsel : osSelect .crowded (1024 + 1) ((serverTable .crowded 0).interest (.begun .crowded))
        (.begun .crowded) = .ok (FdSets.crowded.card, FdSets.crowded)
          { World.begun .crowded with nselect := (World.begun .crowded).nselect + 1 } := rfl
    unfold Table.round
    rw [get_bind, hmax]
    dsimp only
    rw [bind_of_ok hsel]
    dsimp only
    rw [if_neg (by omega), hbits]
  refine ⟨hkeys, by decide +kernel, by decide +kernel, ?_⟩
  rw [hround]
  decide +kernel

end DocFerry
