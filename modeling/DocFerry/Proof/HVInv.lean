import DocFerry.Proof.HVStep

/-!
# The invariant of a frame parser, whatever the library answers

* `Wrote`: everything a call of `write` can do, one constructor for each way it ends;
  `write_wrote` is the inversion lemma.
* `HV.Inv` is the invariant of an `HV`, `Wrote.inv` and `clear_inv` are its steps and
  `HV.Reach.inv` the run.
-/

namespace DocFerry

open Bytes

/-- A frame parser between two calls: the header counts as complete when it is whole,
its length chose the storage mode, the value cache has its stream, and a complete
value has filled its cache. -/
structure HV.Inv (d : Disk) (s : HV) : Prop where
  hlen : s.hlen ≤ 8
  head : s.headComplete = decide (s.hlen = 8)
  storage : s.hlen = 8 →
    s.storage = if s.header.length < defaultMaxMemoryCache then .mem else .file
  value : ∀ c, s.value = some c → FileCache d c
  complete : s.valueComplete = true → s.hlen = 8 ∧ ∃ c, s.value = some c ∧ cacheFull c = true

theorem HV.Inv.new (st : StorageTo) (h : Header) (d : Disk) : (HV.new st h).Inv d :=
  ⟨by simp [HV.new], rfl, by simp [HV.new], by simp [HV.new], by simp [HV.new]⟩

/-- `s₁` is `s` with its header complete, `off` of the `n` bytes having gone there. -/
inductive Begun (s : HV) (data : List UInt8) (n : ℕ) : ℕ → HV → Prop
  | body (h : s.hlen = 8) : Begun s data n 0 s
  | head (h : s.hlen = 0) (h8 : 8 ≤ n) : Begun s data n 8 (s.headed (headOf (data.take 8)))

/-- The ways in which `write` on the first `n` bytes of `data` ends. -/
inductive Wrote (E : LibC) (s : HV) (d : Disk) (data : List UInt8) (n : ℕ) :
    Except Fault (ℤ × HV × Disk) → Prop
  /-- the header goes on behind a cut -/
  | cut (h0 : 0 < s.hlen) (h8 : s.hlen < 8) :
      Wrote E s d data n (.error (.outside (8 * s.hlen) (min (8 - s.hlen) n)))
  /-- the header begins and is not whole -/
  | short (h0 : s.hlen = 0) (h8 : n < 8) :
      Wrote E s d data n (.ok ((n : ℤ), s.patched E (data.take n), d))
  /-- the header is all there is -/
  | head (h0 : s.hlen = 0) (h8 : n = 8) :
      Wrote E s d data n (.ok (8, s.headed (headOf (data.take 8)), d))
  /-- the second `calloc` fails -/
  | crash (hE : ∃ i, E.calloc i = false) : Wrote E s d data n (.error .nullDeref)
  /-- there is no cache and none can be made -/
  | noCache {off : ℕ} {s₁ : HV} {d' : Disk} (hb : Begun s data n off s₁) (hn : off < n)
      (hv : s₁.value = none) : Wrote E s d data n (.ok (-1, s₁, d'))
  /-- the cache takes `k` bytes -/
  | push {off k : ℕ} {s₁ : HV} {c : Cache} {d₀ d' : Disk} (hb : Begun s data n off s₁) (hn : off < n)
      (hc : s₁.value = some c ∧ d₀ = d ∨
        s₁.value = none ∧ c.priv.capacity = s₁.header.length.toNat ∧ c.priv.widx = 0)
      (hf : FileCache d₀ c) (hk : k = E.taken d₀ (min (c.priv.capacity - c.priv.widx) (n - off)))
      (hf' : FileCache d' (c.grow k)) (hw : d'.nfwrite = d₀.nfwrite + 1) :
      Wrote E s d data n (.ok (((off + k : ℕ) : ℤ), s₁.filled (c.grow k), d'))

variable {E : LibC} {s : HV} {d : Disk} {data : List UInt8} {n : ℕ}

/-- The value part of a call that has come to the value. -/
theorem writeValue_wrote {off : ℕ} {s₁ : HV} (h : s.Inv d) (hb : Begun s data n off s₁)
    (hn : off < n) (hd : n ≤ data.length) (hi : n < 2 ^ 31) :
    Wrote E s d data n
      (addOffset off (s₁.writeValue E d (some (data.drop off)) ((n - off : ℕ) : ℤ))) := by
  have hh : s₁.headComplete = true := by
    cases hb with
    | body h8 => simp [h.head, h8]
    | head _ _ => rfl
  have hval : ∀ c, s₁.value = some c → FileCache d c := by
    cases hb with
    | body _ => exact h.value
    | head _ _ => exact h.value
  have hpos : 0 < n - off := by omega
  have hlen : n - off ≤ (data.drop off).length := by rw [List.length_drop]; omega
  -- pushing `k` bytes returns `off + k`
  have hadd : ∀ (k : ℕ) (s' : HV) (d' : Disk), addOffset off (.ok ((k : ℤ), s', d')) =
      .ok (((off + k : ℕ) : ℤ), s', d') := by
    intro k s' d'
    have hne : ¬ ((k : ℤ) = -1) := by omega
    simp [addOffset, hne]
  cases hv : s₁.value with
  | some c =>
    obtain ⟨k, d', hrun, hk, hf', hw, -⟩ := writeValue_push (E := E) hh hv (hval c hv) hpos hlen
      (by omega)
    rw [hrun, hadd]
    exact .push hb hn (.inl ⟨hv, rfl⟩) (hval c hv) hk hf' hw
  | none =>
    rcases writeValue_create E d (data.drop off) hh hv hpos with
      ⟨hE, hrun⟩ | ⟨-, d', hrun⟩ | ⟨c, d₀, hrun, hf, hcap, hw0, -⟩
    · rw [hrun]; exact .crash hE
    · rw [hrun]; exact .noCache hb hn hv
    · obtain ⟨k, d', hpush, hk, hf', hw, -⟩ := writeValue_push (E := E)
        (s := { s₁ with value := some c }) hh rfl hf hpos hlen (by omega)
      rw [hrun, hpush, hadd]
      change Wrote E s d data n (.ok (((off + k : ℕ) : ℤ), s₁.filled (c.grow k), d'))
      exact .push hb hn (.inr ⟨hv, hcap, hw0⟩) hf hk hf' hw

/-- **Everything a call of `write` can do.** -/
theorem write_wrote (h : s.Inv d) (hn : 0 < n) (hd : n ≤ data.length) (hi : n < 2 ^ 31) :
    Wrote E s d data n (s.write E d (some data) n) := by
  have h8 := h.hlen
  rcases Nat.eq_zero_or_pos s.hlen with h0 | h0
  · rcases Nat.lt_or_ge n 8 with hs | hs
    · rw [write_short h0 hn hs hd]; exact .short h0 hs
    have hnc : s.headComplete = false := by rw [h.head, h0]; rfl
    rw [write_head h0 hnc hs hd]
    rcases Nat.eq_or_lt_of_le hs with h8 | h8
    · subst h8
      simp only [Nat.sub_self, Nat.cast_zero, writeValue_nothing, addOffset]
      exact .head h0 rfl
    · exact writeValue_wrote h (.head h0 hs) h8 hd hi
  · rcases Nat.eq_or_lt_of_le h8 with h8 | h8
    · rw [write_body h8]
      simpa using writeValue_wrote (E := E) h (.body h8) hn hd hi
    · rw [write_cut h0 h8 hn hd]; exact .cut h0 h8

theorem Begun.hlen {off : ℕ} {s₁ : HV} (hb : Begun s data n off s₁) : s₁.hlen = 8 := by
  cases hb with
  | body h => exact h
  | head _ _ => rfl

theorem Begun.inv {off : ℕ} {s₁ : HV} (h : s.Inv d) (hb : Begun s data n off s₁) : s₁.Inv d := by
  cases hb with
  | body _ => exact h
  | head h0 _ =>
    refine ⟨le_rfl, rfl, fun _ => rfl, h.value, fun hv => ?_⟩
    have := (h.complete hv).1; omega

/-- A full cache takes nothing more. -/
theorem LibC.taken_full {c : Cache} (hc : cacheFull c = true) (m : ℕ) :
    E.taken d (min (c.priv.capacity - c.priv.widx) m) = 0 := by
  have hw : c.priv.widx = c.priv.capacity := by simpa [cacheFull] using hc
  have := E.taken_le d (min (c.priv.capacity - c.priv.widx) m)
  omega

/-- **A call of `write` keeps the invariant.** -/
theorem Wrote.inv {r : ℤ} {s' : HV} {d' : Disk} (h : s.Inv d)
    (hw : Wrote E s d data n (.ok (r, s', d'))) : s'.Inv d' := by
  cases hw with
  | short h0 h8 =>
    have hne : ¬ min n data.length = 8 := by omega
    refine ⟨?_, ?_, ?_, h.value, fun hv => ?_⟩
    · simp [HV.patched]; omega
    · simp [HV.patched, h.head, h0, hne]
    · intro h8'; simp [HV.patched] at h8'; omega
    · have := (h.complete hv).1; omega
  | head h0 h8 => exact Begun.inv (n := n) h (.head h0 (by omega))
  | noCache hb _ hv =>
    have h₁ := hb.inv h
    exact ⟨h₁.hlen, h₁.head, h₁.storage, fun c hc => (by rw [hv] at hc; cases hc), h₁.complete⟩
  | push hb _ hc _ hk hf' _ =>
    have h₁ := hb.inv h
    refine ⟨h₁.hlen, h₁.head, h₁.storage, ?_, fun hv => ⟨hb.hlen, _, rfl, ?_⟩⟩
    · rintro c' ⟨⟩; exact hf'
    · rcases Bool.or_eq_true_iff.1 hv with hv | hv
      · -- a value that was complete before has a full cache, which took nothing
        obtain ⟨-, c₀, hv₀, hfull⟩ := h₁.complete hv
        rcases hc with ⟨hc, -⟩ | ⟨hc, -⟩
        · obtain rfl := Option.some.inj (hv₀.symm.trans hc)
          rw [LibC.taken_full hfull] at hk
          rw [hk]; exact hfull
        · rw [hv₀] at hc; cases hc
      · exact hv

/-! ### Clearing, and whole runs -/

/-- `clear` on a frame meant for a file drops the cache. -/
theorem clear_file (hs : s.storage = .file) :
    (s.clear d).1 =
      { s with hlen := 0, vlen := 0, headComplete := false, valueComplete := false, value := none } := by
  unfold HV.clear
  cases hv : s.value <;> simp [hs]

/-- `clear` on a frame meant for memory keeps the cache. -/
theorem clear_mem (hs : s.storage = .mem) :
    s.clear d =
      ({ s with hlen := 0, vlen := 0, headComplete := false, valueComplete := false }, d) := by
  unfold HV.clear
  simp [hs]

/-- `clear` on a frame without a cache lets nothing go. -/
theorem clear_empty (hv : s.value = none) :
    s.clear d =
      ({ s with hlen := 0, vlen := 0, headComplete := false, valueComplete := false }, d) := by
  unfold HV.clear
  simp [hv]

/-- After `clear` the header has not begun. -/
theorem clear_begins (s : HV) (d : Disk) : (s.clear d).1.hlen = 0 ∧ (s.clear d).1.valueComplete = false := by
  unfold HV.clear
  dsimp only
  split
  · cases s.value with
    | none => exact ⟨rfl, rfl⟩
    | some c => exact ⟨rfl, rfl⟩
  · exact ⟨rfl, rfl⟩

/-- **`clear` keeps the invariant.** -/
theorem clear_inv (h : s.Inv d) : (s.clear d).1.Inv (s.clear d).2 := by
  unfold HV.clear
  dsimp only
  split
  · cases hv : s.value with
    | none => exact ⟨by simp, by simp, by simp, by simp, by simp⟩
    | some c => exact ⟨by simp, by simp, by simp, by simp, by simp⟩
  · exact ⟨by simp, by simp, by simp, h.value, by simp⟩

/-- The arguments of a call of `write`: the pointer, null or to a buffer that holds
what the length promises. -/
structure Call where
  p_data : Option (List UInt8)
  data_len : ℤ
  fits : ∀ data ∈ p_data, data_len ≤ data.length
  isInt : data_len < 2 ^ 31

/-- A call does nothing, or has bytes to write. -/
theorem Call.cases (c : Call) :
    (∀ (s : HV) (d : Disk), s.write E d c.p_data c.data_len = .ok (0, s, d)) ∨
      ∃ data n, c.p_data = some data ∧ c.data_len = ((n : ℕ) : ℤ) ∧ 0 < n ∧ n ≤ data.length ∧
        n < 2 ^ 31 := by
  obtain ⟨p, n, hfits, hint⟩ := c
  cases p with
  | none => exact .inl fun _ _ => rfl
  | some data =>
    rcases Int.lt_or_le 0 n with hn | hn
    · obtain ⟨m, rfl⟩ := Int.eq_ofNat_of_zero_le hn.le
      have hle := hfits data rfl
      refine .inr ⟨data, m, rfl, rfl, ?_, ?_, ?_⟩
      · exact_mod_cast hn
      · exact_mod_cast hle
      · exact_mod_cast hint
    · refine .inl fun s d => ?_
      simp [HV.write, HV.writeHead, HV.writeValue, hn, bind, Except.bind, pure, Except.pure]

/-- A call keeps the invariant of what it is made on. -/
theorem HV.Inv.write {s' : HV} {d' : Disk} {ret : ℤ} (hs : s.Inv d) (c : Call)
    (hw : s.write E d c.p_data c.data_len = .ok (ret, s', d')) : s'.Inv d' := by
  rcases c.cases (E := E) with h0 | ⟨data, n, hp, hl, hn, hd, hi⟩
  · rw [h0] at hw; cases hw; exact hs
  · have := write_wrote (E := E) hs hn hd hi
    rw [hp, hl] at hw
    rw [hw] at this
    exact this.inv hs

/-- The states an object can come to by calls of `write` and `clear`. In between, the
rest of the program does to the disk what it likes, but leaves the object's stream open. -/
inductive HV.Reach (E : LibC) : HV → Disk → Prop
  | new (st : StorageTo) (h : Header) (d : Disk) : HV.Reach E (HV.new st h) d
  | write {s s' : HV} {d d' : Disk} {ret : ℤ} (h : HV.Reach E s d) (c : Call)
      (hw : s.write E d c.p_data c.data_len = .ok (ret, s', d')) : HV.Reach E s' d'
  | clear {s : HV} {d : Disk} (h : HV.Reach E s d) : HV.Reach E (s.clear d).1 (s.clear d).2
  | others {s : HV} {d d' : Disk} (h : HV.Reach E s d)
      (ho : ∀ c ∈ s.value, (d.stream c).isSome → (d'.stream c).isSome) : HV.Reach E s d'

/-- **The invariant holds in every state an object can come to.** -/
theorem HV.Reach.inv (h : HV.Reach E s d) : s.Inv d := by
  induction h with
  | new st h d => exact .new st h d
  | write _ c hw ih => exact ih.write c hw
  | clear _ ih => exact clear_inv ih
  | others _ ho ih =>
    refine ⟨ih.hlen, ih.head, ih.storage, fun c hc => ?_, ih.complete⟩
    have hf := ih.value c hc
    have hs := ho c hc (Option.isSome_iff_exists.2 hf.isOpen)
    exact ⟨hf.buf, Option.isSome_iff_exists.1 hs, hf.le, hf.small⟩

end DocFerry
