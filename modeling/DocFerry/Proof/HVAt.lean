import DocFerry.Proof.HVStep

/-!
# Where a frame stands

`HV.At d stale f k s`: with the disk `d`, `s` has taken `k` bytes of the frame `f`
and nothing else. The relation is computed from the bytes taken, not from the calls
that took them, so how the frame was cut does not appear in it. `stale` tells
whether `s` still holds the cache of an earlier frame.

* `write_at`: one call of `write` moves `At` on by the bytes it takes, or leaves
  the frame complete (`HV.Done`).
-/

namespace DocFerry

open Bytes

/-- The value cache after `k` bytes of `f`: none yet, one that holds the value bytes
taken so far, or a full one of an earlier frame. -/
inductive ValueAt (d : Disk) (f : Frame) (k : ℕ) : Bool → Option Cache → Prop
  | none (hk : k ≤ 8) : ValueAt d f k false none
  | some {c : Cache} (hc : FileCache d c) (ha : Aligned d c) (hcap : c.priv.capacity = f.value.length)
      (hw : c.priv.widx + 8 = k) (hs : d.stored c = f.value.take c.priv.widx)
      (hk : k < 8 + f.value.length) : ValueAt d f k false (some c)
  | stale {c : Cache} (hc : FileCache d c) (hf : cacheFull c = true) (hk : k ≤ 8) :
      ValueAt d f k true (some c)

theorem ValueAt.bound {d : Disk} {f : Frame} {k : ℕ} {stale : Bool} {v : Option Cache}
    (h : ValueAt d f k stale v) : k ≤ 8 ∨ k < 8 + f.value.length := by
  cases h with
  | none hk => exact .inl hk
  | some _ _ _ _ _ hk => exact .inr hk
  | stale _ _ hk => exact .inl hk

/-- Before the value begins it does not matter where the header stands. -/
theorem ValueAt.move {d : Disk} {f : Frame} {k k' : ℕ} {stale : Bool} {v : Option Cache}
    (h : ValueAt d f k stale v) (hk : k < 8) (hk' : k' ≤ 8) : ValueAt d f k' stale v := by
  cases h with
  | none _ => exact .none hk'
  | some _ _ _ hw _ _ => omega
  | stale hc hf _ => exact .stale hc hf hk'

/-- `s` has taken `k` bytes of `f`. -/
structure HV.At (d : Disk) (stale : Bool) (f : Frame) (k : ℕ) (s : HV) : Prop where
  hlen : s.hlen = min k 8
  head : s.headComplete = decide (8 ≤ k)
  header : 8 ≤ k → s.header = ⟨f.id, f.len⟩
  storage : 8 ≤ k → s.storage = if f.len < defaultMaxMemoryCache then .mem else .file
  pending : s.valueComplete = false
  value : ValueAt d f k stale s.value

/-- `s` has taken all of `f`. -/
structure HV.Done (d : Disk) (stale : Bool) (f : Frame) (s : HV) : Prop where
  hlen : s.hlen = 8
  head : s.headComplete = true
  header : s.header = ⟨f.id, f.len⟩
  storage : s.storage = if f.len < defaultMaxMemoryCache then .mem else .file
  complete : s.valueComplete = true
  value : ∃ c, s.value = some c ∧ FileCache d c ∧ cacheFull c = true ∧
    (stale = false → c.priv.capacity = f.value.length ∧ d.stored c = f.value)

variable {E : LibC} {s : HV} {d : Disk} {f : Frame} {k : ℕ} {stale : Bool}

theorem HV.At.new (st : StorageTo) (h : Header) (d : Disk) (f : Frame) :
    (HV.new st h).At d false f 0 :=
  ⟨rfl, rfl, by simp, by simp, rfl, .none (by simp)⟩

theorem HV.Done.isComplete (h : s.Done d stale f) : s.isComplete = true := by
  simp [HV.isComplete, h.head, h.complete]

theorem HV.At.not_complete (h : s.At d stale f k) : s.isComplete = false := by
  simp [HV.isComplete, h.pending]

/-- What a call that got `n` bytes and took `m` of them leaves behind. -/
def After (d : Disk) (stale : Bool) (f : Frame) (k m n : ℕ) (s : HV) : Prop :=
  (k + m = 8 + f.value.length ∧ (f.value = [] → m < n) ∧ s.Done d stale f) ∨
    (k + m < 8 + f.value.length ∨ f.value = [] ∧ m = n) ∧ s.At d stale f (k + m)

/-- The value part, once a cache for `f` is there. -/
theorem writeValue_cache {data Y : List UInt8} {c : Cache} (hE : E.Succeeds) (h : s.At d false f k)
    (h8 : 8 ≤ k) (hc : FileCache d c) (ha : Aligned d c) (hcap : c.priv.capacity = f.value.length)
    (hw : c.priv.widx + 8 = k) (hs : d.stored c = f.value.take c.priv.widx) (hn : data ≠ [])
    (hi : data.length < 2 ^ 31) (hd : data <+: f.value.drop (k - 8) ++ Y) :
    ∃ (m : ℕ) (s' : HV) (d' : Disk),
      { s with value := some c }.writeValue E d (some data) data.length = .ok ((m : ℤ), s', d') ∧
      m = min data.length (8 + f.value.length - k) ∧ After d' false f k m data.length s' := by
  have hpos : 0 < data.length := List.length_pos_iff.2 hn
  have hle := hc.le
  obtain ⟨m, d', hrun, hm, hfc, -, hal⟩ :=
    writeValue_push (E := E) (s := { s with value := some c }) (by simp [h.head, h8]) rfl hc hpos
      le_rfl hi
  rw [hE.taken] at hm
  obtain ⟨hal', hst'⟩ := hal ha
  have hmk : m = min data.length (8 + f.value.length - k) := by omega
  -- the bytes taken are the next ones of the value
  have htake : data.take m = (f.value.drop c.priv.widx).take m := by
    have hpre := List.prefix_iff_eq_take.1 hd
    have hml : m ≤ (f.value.drop (k - 8)).length := by rw [List.length_drop]; omega
    rw [hpre, List.take_take, min_eq_left (by omega), List.take_append_of_le_length hml,
      show k - 8 = c.priv.widx by omega]
  have hstored : d'.stored (c.grow m) = f.value.take (c.priv.widx + m) := by
    rw [hst', hs, htake, List.take_add]
  refine ⟨m, _, d', hrun, hmk, ?_⟩
  -- the push completes the value, or leaves room in the cache
  by_cases hfull : c.priv.widx + m = f.value.length
  · have hcf : cacheFull (c.grow m) = true := by simp [cacheFull, hcap, hfull]
    refine .inl ⟨by omega, ?_, ?_⟩
    · intro hnil; simp [hnil] at hmk hfull hcap; omega
    · refine ⟨by simp [HV.filled, h.hlen, h8], by simp [HV.filled, h.head, h8], h.header h8,
        h.storage h8, by simp [HV.filled, hcf], c.grow m, rfl, hfc, hcf, fun _ => ⟨hcap, ?_⟩⟩
      rw [hstored, hfull, List.take_length]
  · have hcf : cacheFull (c.grow m) = false := by simp [cacheFull, hcap, hfull]
    have hlt : c.priv.widx + m < f.value.length := by omega
    refine .inr ⟨.inl (by omega), ?_⟩
    refine ⟨by simp [HV.filled, h.hlen]; omega, by simp [HV.filled, h.head, h8]; omega,
      fun _ => h.header h8, fun _ => h.storage h8, by simp [HV.filled, h.pending, hcf],
      .some hfc hal' hcap (by simp; omega) (by simpa using hstored) (by omega)⟩

/-- The value part of a call. -/
theorem writeValue_at {data Y : List UInt8} (hE : E.Succeeds) (h : s.At d stale f k) (h8 : 8 ≤ k)
    (hi : data.length < 2 ^ 31) (hd : data <+: f.value.drop (k - 8) ++ Y)
    (hst : stale = true → f.value = [] ∨ data = []) :
    ∃ (m : ℕ) (s' : HV) (d' : Disk),
      s.writeValue E d (some data) data.length = .ok ((m : ℤ), s', d') ∧
      m = min data.length (8 + f.value.length - k) ∧ After d' stale f k m data.length s' := by
  have hh : s.headComplete = true := by simp [h.head, h8]
  rcases eq_or_ne data [] with rfl | hn
  · -- without data the value part takes nothing
    have hlt : k < 8 + f.value.length ∨ f.value = [] := by
      rcases h.value.bound with hk | hk
      · rcases List.eq_nil_or_concat f.value with hv | ⟨l, b, hv⟩
        · exact .inr hv
        · exact .inl (by simp [hv]; omega)
      · exact .inl hk
    refine ⟨0, s, d, writeValue_nothing, by simp, .inr ⟨?_, h⟩⟩
    rcases hlt with hlt | hv
    · exact .inl hlt
    · exact .inr ⟨hv, rfl⟩
  have hpos : 0 < data.length := List.length_pos_iff.2 hn
  generalize hval : s.value = value
  have hva := h.value
  rw [hval] at hva
  cases hva with
  | some hc ha hcap hw hs hk =>
    rename_i c
    have hself : { s with value := some c } = s := by rw [← hval]
    have := writeValue_cache hE h h8 hc ha hcap hw hs hn hi hd
    rwa [hself] at this
  -- the first bytes of the value: a cache is made for it
  | none hk =>
    rcases writeValue_create E d data hh hval hpos with
      ⟨⟨i, hi'⟩, -⟩ | ⟨hE', -⟩ | ⟨c, d', hrun, hc, hcap, hw, hal⟩
    · rw [hE.calloc] at hi'; cases hi'
    · exact absurd hE hE'
    · have hcap' : c.priv.capacity = f.value.length := by rw [hcap, h.header h8, Frame.len_toNat]
      have hat : s.At d' false f k := ⟨h.hlen, h.head, h.header, h.storage, h.pending, by
        rw [hval]; exact .none hk⟩
      rw [hrun]
      refine writeValue_cache hE hat h8 hc (hal hE.fseek) hcap' (by omega) ?_ hn hi hd
      simp only [Disk.stored, hw, List.take_zero]
      split <;> rfl
  -- the full cache of the frame before takes nothing, and this frame has no value
  | stale hc hf hk =>
    rename_i c
    have hv : f.value = [] := (hst rfl).resolve_right hn
    obtain ⟨m, d', hrun, hm, hfc, -, -⟩ := writeValue_push (E := E) hh hval hc hpos le_rfl hi
    have hwc : c.priv.widx = c.priv.capacity := by simpa [cacheFull] using hf
    obtain rfl : m = 0 := by rw [hE.taken] at hm; omega
    refine ⟨0, _, d', hrun, by simp [hv]; omega, .inl ⟨by simp [hv]; omega, fun _ => hpos, ?_⟩⟩
    exact ⟨by simp [HV.filled, h.hlen, h8], by simp [HV.filled, hh], h.header h8, h.storage h8,
      by simp [HV.filled, hf], c, rfl, hfc, hf, by simp⟩

/-- Eight bytes from the start of a frame on are its header. -/
theorem headOf_first {data Y : List UInt8} (h8 : 8 ≤ data.length) (hd : data <+: f.wire.drop 0 ++ Y) :
    headOf (data.take 8) = ⟨f.id, f.len⟩ := by
  apply headOf_of_prefix
  rw [List.drop_zero, Frame.wire, List.append_assoc] at hd
  obtain ⟨Z, hZ⟩ := hd
  have h1 := congrArg (List.take 8) hZ
  rw [List.take_append_of_le_length h8, List.take_left' f.length_head] at h1
  rw [h1]

/-- **One call of `write`** on a frame that does not stand inside its header takes
the bytes of the frame that it got, and only these. -/
theorem write_at {data Y : List UInt8} (hE : E.Succeeds) (h : s.At d stale f k)
    (hk : k = 0 ∨ 8 ≤ k) (hn : data ≠ []) (hi : data.length < 2 ^ 31)
    (hd : data <+: f.wire.drop k ++ Y)
    (hst : stale = true → f.value = [] ∨ k + data.length ≤ 8) :
    ∃ (m : ℕ) (s' : HV) (d' : Disk),
      s.write E d (some data) data.length = .ok ((m : ℤ), s', d') ∧
      m = min data.length (8 + f.value.length - k) ∧ After d' stale f k m data.length s' := by
  have hpos : 0 < data.length := List.length_pos_iff.2 hn
  rcases hk with rfl | h8
  · have h0 : s.hlen = 0 := by simp [h.hlen]
    have hnc : s.headComplete = false := by simp [h.head]
    by_cases h8 : data.length < 8
    · -- the header has not come whole
      refine ⟨data.length, _, d, write_short h0 hpos h8 le_rfl, by omega, .inr ⟨.inl (by omega), ?_⟩⟩
      rw [List.take_length, Nat.zero_add]
      refine ⟨by simp [HV.patched]; omega, by simp [HV.patched, hnc]; omega, by omega, by omega,
        h.pending, h.value.move (by omega) h8.le⟩
    · push Not at h8
      have hhead := headOf_first h8 hd
      have hat : (s.headed (headOf (data.take 8))).At d stale f 8 := by
        exact ⟨rfl, rfl, fun _ => hhead, fun _ => by simp [HV.headed, hhead], h.pending,
          h.value.move (by omega) le_rfl⟩
      have hd' : data.drop 8 <+: f.value.drop (8 - 8) ++ Y := by
        have h1 := hd.drop 8
        rw [List.drop_zero, Frame.wire, List.append_assoc, List.drop_left' f.length_head] at h1
        simpa using h1
      obtain ⟨m, s', d', hrun, hm, haft⟩ := writeValue_at hE hat le_rfl
        (by rw [List.length_drop]; omega) hd' (fun hs => (hst hs).imp_right fun hle => by
          apply List.drop_eq_nil_of_le; omega)
      rw [List.length_drop] at hrun hm haft
      refine ⟨8 + m, s', d', ?_, by omega, ?_⟩
      · have hne : ¬ ((m : ℤ) = -1) := by omega
        rw [write_head h0 hnc h8 le_rfl, hrun]
        simp [addOffset, hne]
      · rcases haft with ⟨h1, h2, h3⟩ | ⟨h1, h2⟩
        · exact .inl ⟨by omega, fun hv => by have := h2 hv; omega, h3⟩
        · refine .inr ⟨h1.imp (fun h => by omega) (fun h => ⟨h.1, by omega⟩), ?_⟩
          rwa [Nat.zero_add]
  · have hd' : data <+: f.value.drop (k - 8) ++ Y := by
      have hdrop : f.wire.drop k = f.value.drop (k - 8) := by
        rw [Frame.wire, List.drop_append, List.drop_eq_nil_of_le (by simp [h8]), f.length_head,
          List.nil_append]
      rwa [hdrop] at hd
    obtain ⟨m, s', d', hrun, hm, haft⟩ := writeValue_at hE h h8 hi hd'
      (fun hs => (hst hs).imp_right fun hle => by omega)
    refine ⟨m, s', d', ?_, hm, haft⟩
    have hne : ¬ ((m : ℤ) = -1) := by omega
    rw [write_body (by simp [h.hlen, h8]), hrun]
    simp [addOffset, hne]

end DocFerry
