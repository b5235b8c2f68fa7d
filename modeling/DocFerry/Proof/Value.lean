import DocFerry.Proof.Filling

/-!
# A value that comes in chunks

`Offers`: chunks are handed to `write_value` one after another, each from the first byte that
was not consumed.

* `value_push`: what one chunk does to a value, with the cache that there is or with a new one.
* `value_chunks`: after any chunks the value has consumed what was offered, up to the length of
  the frame. `value_held_back`: the file need not hold it yet.
-/

namespace DocFerry

/-- From `s₀` and `d₀`, `calls` chunks that made up `offered` have led to `s` and `d`, and the first
`consumed` bytes were consumed. Each chunk starts with the bytes that were left over. -/
inductive Offers (E : LibC) (s₀ : HV) (d₀ : Disk) : List UInt8 → ℕ → ℕ → HV → Disk → Prop
  | start : Offers E s₀ d₀ [] 0 0 s₀ d₀
  | chunk {offered : List UInt8} {consumed calls : ℕ} {s s' : HV} {d d' : Disk} {ret : ℤ}
      (h : Offers E s₀ d₀ offered consumed calls s d) (more : List UInt8)
      (hne : offered.drop consumed ++ more ≠ []) (hi : (offered.drop consumed ++ more).length < 2 ^ 31)
      (hw : s.writeValue E d (some (offered.drop consumed ++ more))
        (offered.drop consumed ++ more).length = .ok (ret, s', d')) :
      Offers E s₀ d₀ (offered ++ more) (consumed + ret.toNat) (calls + 1) s' d'

/-- The value of a frame of `n` bytes has its cache, and the first `k` bytes of `offered` in it. -/
structure ValueHolds (n : ℕ) (offered : List UInt8) (k : ℕ) (s : HV) (d : Disk) : Prop where
  head : s.headComplete = true
  consumed : k = min n offered.length
  complete : s.valueComplete = decide (k = n)
  value : ∃ c, s.value = some c ∧ FileCache d c ∧ c.priv.capacity = n ∧ d.Fills c (offered.take k)

variable {E : LibC} {s s₀ s' : HV} {d d₀ d₁ d' : Disk} {n k calls : ℕ} {offered more : List UInt8} {c : Cache}

/-- A value without a cache is not complete. -/
theorem HV.Inv.pending (hs : s.Inv d) (hv : s.value = none) : s.valueComplete = false := by
  by_contra hvc
  obtain ⟨-, c, hc, -⟩ := hs.complete (by simpa using hvc)
  rw [hv] at hc
  cases hc

/-- **A chunk of a value**: the cache with which the value goes on takes what it has room for. -/
theorem value_push (hE : E.Succeeds) (hh : s.headComplete = true) (hvc : s.valueComplete = true → k = n)
    (hk : k = min n offered.length) (hfile : ∀ c, s.value = some c → FileCache d c)
    (hc : ∀ c d₁, s.Cached E s.header.length.toNat d c d₁ → c.priv.capacity = n ∧ d₁.Fills c (offered.take k))
    (hne : offered.drop k ++ more ≠ []) (hi : (offered.drop k ++ more).length < 2 ^ 31) :
    ∃ s' d', s.writeValue E d (some (offered.drop k ++ more)) (offered.drop k ++ more).length =
        .ok (((min n (offered ++ more).length - k : ℕ) : ℤ), s', d') ∧
      ValueHolds n (offered ++ more) (min n (offered ++ more).length) s' d' := by
  obtain ⟨c, d₁, fp, st, hcached, hf, hw, hs, hrun⟩ :=
    writeValue_run hE hh hfile (List.length_pos_iff.2 hne) le_rfl hi
  obtain ⟨hcap, hfills⟩ := hc c d₁ hcached
  have hwidx : c.priv.widx = k := by
    obtain ⟨st', hfill⟩ := hfills
    rw [hfill.widx, List.length_take]
    omega
  have hlen : (offered.drop k ++ more).length = offered.length - k + more.length := by
    rw [List.length_append, List.length_drop]
  have hall : (offered ++ more).length = offered.length + more.length := List.length_append
  set m := min (c.priv.capacity - c.priv.widx) (offered.drop k ++ more).length with hm
  have hkm : k + m = min n (offered ++ more).length := by omega
  have hsub : min n (offered ++ more).length - k = m := by omega
  -- the cache goes on where the earlier chunks ended
  have htake : offered.take k ++ (offered.drop k ++ more).take m = (offered ++ more).take (k + m) := by
    have hle : k ≤ offered.length := by omega
    rw [List.take_add, List.take_append_of_le_length hle, List.drop_append_of_le_length hle]
  rw [hsub, ← hkm]
  refine ⟨_, _, hrun, hh, hkm, ?_, c.grow m, rfl, hf.writing hw (min_le_left _ _) _, hcap, ?_⟩
  · have hfull : cacheFull (c.grow m) = decide (k + m = n) := by
      simp [cacheFull, hcap, hwidx, beq_eq_decide]
    simp only [HV.filled, hfull, Bool.or_eq_right_iff_imp, decide_eq_true_eq]
    intro hdone
    have := hvc hdone
    omega
  · rw [← htake]
    exact hfills.grow hw hs (min_le_left _ _) (min_le_right _ _) (E.written_le_length ..)

/-- A chunk for a value that has its cache. -/
theorem ValueHolds.push (hE : E.Succeeds) (h : ValueHolds n offered k s d)
    (hne : offered.drop k ++ more ≠ []) (hi : (offered.drop k ++ more).length < 2 ^ 31) :
    ∃ s' d', s.writeValue E d (some (offered.drop k ++ more)) (offered.drop k ++ more).length =
        .ok (((min n (offered ++ more).length - k : ℕ) : ℤ), s', d') ∧
      ValueHolds n (offered ++ more) (min n (offered ++ more).length) s' d' := by
  obtain ⟨c, hv, hc, hcap, hfills⟩ := h.value
  refine value_push hE h.head (fun hvc => ?_) h.consumed (fun c' hc' => ?_) (fun c' d₁ hcached => ?_) hne hi
  · rw [h.complete] at hvc
    exact of_decide_eq_true hvc
  · obtain rfl := Option.some.inj (hv.symm.trans hc')
    exact hc
  · cases hcached with
    | old hc' =>
      obtain rfl := Option.some.inj (hv.symm.trans hc')
      exact ⟨hcap, hfills⟩
    | new hc' =>
      rw [hv] at hc'
      cases hc'

/-- **The first chunk** makes the cache. -/
theorem value_first (hE : E.Succeeds) (hs : s.Inv d) (hh : s.headComplete = true) (hv : s.value = none)
    (hne : more ≠ []) (hi : more.length < 2 ^ 31) :
    ∃ s' d', s.writeValue E d (some more) more.length =
        .ok (((min s.header.length.toNat more.length : ℕ) : ℤ), s', d') ∧
      ValueHolds s.header.length.toNat more (min s.header.length.toNat more.length) s' d' := by
  have hvc := hs.pending hv
  have hk : 0 = min s.header.length.toNat ([] : List UInt8).length := by simp
  refine value_push hE hh (fun h => (by rw [hvc] at h; cases h)) hk (fun c hc => ?_)
    (fun c d₁ hcached => ?_) hne hi
  · rw [hv] at hc
    cases hc
  · cases hcached with
    | old hc =>
      rw [hv] at hc
      cases hc
    | new => exact ⟨rfl, fills_made E d _⟩

/-- What holds after the chunks of an `Offers`. -/
theorem Offers.holds (hE : E.Succeeds) (hs : s₀.Inv d₀) (hh : s₀.headComplete = true)
    (hv : s₀.value = none) (ho : Offers E s₀ d₀ offered k calls s d) :
    (calls = 0 ∧ offered = [] ∧ k = 0 ∧ s = s₀ ∧ d = d₀) ∨
      1 ≤ calls ∧ ValueHolds s₀.header.length.toNat offered k s d := by
  induction ho with
  | start => exact .inl ⟨rfl, rfl, rfl, rfl, rfl⟩
  | @chunk offered k calls s s' d d' ret ho more hne hi hw ih =>
    refine .inr ⟨Nat.le_add_left _ _, ?_⟩
    rcases ih with ⟨-, rfl, rfl, rfl, rfl⟩ | ⟨-, ih⟩
    · obtain ⟨s'', d'', hrun, hholds⟩ := value_first hE hs hh hv hne hi
      simp only [List.drop_nil, List.nil_append] at hw hrun hholds ⊢
      rw [hw] at hrun
      cases hrun
      rwa [Nat.zero_add, Int.toNat_natCast]
    · obtain ⟨s'', d'', hrun, hholds⟩ := ih.push hE hne hi
      have hk := ih.consumed
      have hle : k ≤ min s₀.header.length.toNat (offered ++ more).length := by
        rw [List.length_append]
        omega
      rw [hw] at hrun
      cases hrun
      rwa [Int.toNat_natCast, Nat.add_sub_cancel' hle]

/-- **A value that comes in chunks.** After any chunks: as many bytes are consumed as were offered,
or as the frame has; the backing file begins with them up to where the stream holds the others back, and
with all of them once `leave_cache` has closed it; the value is complete when the whole of it was consumed
by at least one call; and the next chunk is consumed up to the end of the frame. -/
theorem value_chunks (hE : E.Succeeds) (hr : HV.Reach E s₀ d₀) (hh : s₀.headComplete = true)
    (hv : s₀.value = none) (ho : Offers E s₀ d₀ offered k calls s d) :
    k = min s₀.header.length.toNat offered.length ∧
      (1 ≤ calls → ∃ c st, s.value = some c ∧ d.stream c = some st ∧ st.start ≤ k ∧
        (d.files st.file).take st.start = offered.take st.start ∧ st.held = (offered.take k).drop st.start ∧
          ((leaveCache d c).files st.file).take k = offered.take k) ∧
      (s.valueComplete = true ↔ 1 ≤ calls ∧ k = s₀.header.length.toNat) ∧
      ∀ more, offered.drop k ++ more ≠ [] → (offered.drop k ++ more).length < 2 ^ 31 →
        ∃ s' d', s.writeValue E d (some (offered.drop k ++ more)) (offered.drop k ++ more).length =
          .ok (((min s₀.header.length.toNat (offered ++ more).length - k : ℕ) : ℤ), s', d') := by
  have hs := hr.inv
  rcases ho.holds hE hs hh hv with ⟨rfl, rfl, rfl, rfl, rfl⟩ | ⟨hcalls, hholds⟩
  · refine ⟨by simp, fun h => absurd h (by decide), by simp [hs.pending hv], fun more hne hi => ?_⟩
    simp only [List.drop_nil, List.nil_append, Nat.sub_zero] at hne hi ⊢
    obtain ⟨s', d', hrun, -⟩ := value_first hE hs hh hv hne hi
    exact ⟨s', d', hrun⟩
  · obtain ⟨c, hc, -, -, st, hfill⟩ := hholds.value
    have hk : (offered.take k).length = k := by
      have := hholds.consumed
      rw [List.length_take]
      omega
    have hstart : st.start ≤ k := hk ▸ hfill.start
    refine ⟨hholds.consumed, fun _ => ⟨c, st, hc, hfill.stream, hstart, ?_, hfill.held, ?_⟩, ?_,
      fun more hne hi => ?_⟩
    · rw [hfill.front, List.take_take, min_eq_left hstart]
    · have hleft := hfill.left
      rwa [hk] at hleft
    · rw [hholds.complete, decide_eq_true_eq]
      exact (and_iff_right hcalls).symm
    · obtain ⟨s', d', hrun, -⟩ := hholds.push hE hne hi
      exact ⟨s', d', hrun⟩

/-- The object that has read the header of a frame of two bytes. -/
def headedTwo : HV := (HV.new .auto ⟨0, 0⟩).headed ⟨1, 2⟩

theorem headedTwo_reach : HV.Reach .steady headedTwo .empty := by
  have hwrite : (HV.new .auto ⟨0, 0⟩).write .steady .empty (some [0, 0, 0, 1, 0, 0, 0, 2]) 8 =
      .ok (8, headedTwo, .empty) := rfl
  exact .write (.new .auto ⟨0, 0⟩ .empty) ⟨some [0, 0, 0, 1, 0, 0, 0, 2], 8, by decide, by decide⟩ hwrite

/-- Two value bytes of three offered ones. -/
theorem value_chunks_three : ∃ s d, Offers .steady headedTwo .empty [7, 8, 9] 2 1 s d ∧
    2 = min headedTwo.header.length.toNat 3 ∧
    (1 ≤ 1 → ∃ c st, s.value = some c ∧ d.stream c = some st ∧ st.start ≤ 2 ∧
      (d.files st.file).take st.start = ([7, 8, 9] : List UInt8).take st.start ∧
        st.held = (([7, 8, 9] : List UInt8).take 2).drop st.start ∧
          ((leaveCache d c).files st.file).take 2 = ([7, 8, 9] : List UInt8).take 2) ∧
    (s.valueComplete = true ↔ 1 ≤ 1 ∧ 2 = headedTwo.header.length.toNat) ∧
    ∀ more : List UInt8, [7, 8, 9].drop 2 ++ more ≠ [] → ([7, 8, 9].drop 2 ++ more).length < 2 ^ 31 →
      ∃ s' d', s.writeValue .steady d (some ([7, 8, 9].drop 2 ++ more))
        ([7, 8, 9].drop 2 ++ more).length =
          .ok (((min headedTwo.header.length.toNat ([7, 8, 9] ++ more).length - 2 : ℕ) : ℤ), s', d') := by
  obtain ⟨s, d, hrun, -⟩ :=
    value_first LibC.steady_succeeds headedTwo_reach.inv rfl rfl (show ([7, 8, 9] : List UInt8) ≠ [] by decide)
      (by decide)
  have ho : Offers .steady headedTwo .empty [7, 8, 9] 2 1 s d :=
    .chunk .start [7, 8, 9] (by decide) (by decide) hrun
  exact ⟨s, d, ho, value_chunks LibC.steady_succeeds headedTwo_reach rfl rfl ho⟩

/-- What the backing file of a value holds. -/
def HV.backing (s : HV) (d : Disk) : Option (List UInt8) :=
  s.value.bind fun c => (d.stream c).map fun st => d.files st.file

/-- The two bytes were consumed, the value is complete, and the file still begins with a zero and the
filler byte. -/
theorem value_held_back : ∃ s d, Offers .steady headedTwo .empty [7, 8, 9] 2 1 s d ∧
    s.valueComplete = true ∧ ∃ bs, s.backing d = some bs ∧ bs = [0, 0xAA] ∧
      bs.take 2 ≠ ([7, 8, 9] : List UInt8).take 2 := by
  obtain ⟨s, d, hrun, -⟩ :=
    value_first LibC.steady_succeeds headedTwo_reach.inv rfl rfl (show ([7, 8, 9] : List UInt8) ≠ [] by decide)
      (by decide)
  have hfile : (headedTwo.writeValue .steady .empty (some [7, 8, 9]) 3).toOption.map
      (fun r => (r.2.1.valueComplete, r.2.1.backing r.2.2)) = some (true, some [0, 0xAA]) := by
    decide +kernel
  change headedTwo.writeValue .steady .empty (some [7, 8, 9]) 3 = _ at hrun
  rw [hrun] at hfile
  obtain ⟨hdone, hback⟩ := Prod.mk.inj (Option.some.inj hfile)
  exact ⟨s, d, .chunk .start [7, 8, 9] (by decide) (by decide) hrun, hdone, [0, 0xAA], hback, rfl, by decide⟩

end DocFerry
