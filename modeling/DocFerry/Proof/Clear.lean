import DocFerry.Proof.HVAt
import DocFerry.Proof.HVInv

/-!
# Is a cleared object a new one?

`HV.behaviour` is what a sequence of `write` calls can see of an object.

* `behaviour_congr`: two objects that agree on everything but an unread header
  (`HV.Alike`) behave alike on every sequence of calls.
* `clear_like_new_iff`: after `clear` a complete object behaves as a new one exactly
  when the frame it had completed has at least `DEFAULT_MAX_MEMORY_CACHE` bytes. A
  shorter frame leaves its full cache behind.
-/

namespace DocFerry

open Bytes

/-- What the caller sees after a call: the result, the two completion tests, and once
the header is complete the header and the cache with the bytes in it. -/
structure Report where
  ret : ℤ
  headComplete : Bool
  valueComplete : Bool
  header : Option Header
  cache : Option (ℕ × List UInt8)
  deriving DecidableEq

/-- The report on `s` after a call that returned `ret`. -/
def HV.report (s : HV) (d : Disk) (ret : ℤ) : Report where
  ret := ret
  headComplete := s.headComplete
  valueComplete := s.valueComplete
  header := if s.headComplete then some s.header else none
  cache := if s.headComplete then s.value.map fun c => (c.priv.capacity, d.stored c) else none

/-- The reports of the calls, up to the first call that does not return. -/
def HV.behaviour (E : LibC) : List Call → HV → Disk → List (Except Fault Report)
  | [], _, _ => []
  | c :: cs, s, d =>
    match s.write E d c.p_data c.data_len with
    | .error f => [.error f]
    | .ok (ret, s', d') => .ok (s'.report d' ret) :: HV.behaviour E cs s' d'

variable {E : LibC} {s : HV} {d : Disk}

/-- Two objects that differ at most in a header that is not complete. -/
structure HV.Alike (s t : HV) : Prop where
  hlen : s.hlen = t.hlen
  headComplete : s.headComplete = t.headComplete
  vlen : s.vlen = t.vlen
  valueComplete : s.valueComplete = t.valueComplete
  value : s.value = t.value
  header : s.hlen = 8 → s.header = t.header ∧ s.storage = t.storage

theorem HV.Alike.eq {t : HV} (h : s.Alike t) (h8 : s.hlen = 8) : s = t := by
  obtain ⟨h1, h2, h3, h4, h5, h6⟩ := h
  obtain ⟨h7, h8⟩ := h6 h8
  cases s; cases t
  simp_all

theorem HV.Alike.headed {t : HV} (h : s.Alike t) (x : Header) : s.headed x = t.headed x := by
  obtain ⟨-, -, h3, h4, h5, -⟩ := h
  simp [HV.headed, h3, h4, h5]

/-- **Objects that are alike stay so under a call**, which returns the same. -/
theorem write_alike {t : HV} (h : s.Alike t) (hs : s.Inv d) (ht : t.Inv d) (c : Call) :
    (∃ f, s.write E d c.p_data c.data_len = .error f ∧ t.write E d c.p_data c.data_len = .error f) ∨
      ∃ ret s' t' d', s.write E d c.p_data c.data_len = .ok (ret, s', d') ∧
        t.write E d c.p_data c.data_len = .ok (ret, t', d') ∧ s'.Alike t' := by
  rcases c.cases (E := E) with h0 | ⟨data, n, hp, hl, hn, hd, hi⟩
  · exact .inr ⟨0, s, t, d, h0 s d, h0 t d, h⟩
  rw [hp, hl]
  -- no header yet, a header cut short, or a header
  rcases Nat.eq_zero_or_pos s.hlen with h0 | h0
  · have h0' : t.hlen = 0 := h.hlen ▸ h0
    rcases Nat.lt_or_ge n 8 with h8 | h8
    · refine .inr ⟨n, _, _, d, write_short h0 hn h8 hd, write_short h0' hn h8 hd, ?_⟩
      have hlt : (data.take n).length < 8 := by rw [List.length_take]; omega
      exact ⟨rfl, h.headComplete, h.vlen, h.valueComplete, h.value, fun h8' => by
        simp only [HV.patched] at h8'; omega⟩
    · have hnc : s.headComplete = false := by rw [hs.head, h0]; rfl
      have hnc' : t.headComplete = false := by rw [ht.head, h0']; rfl
      rw [write_head h0 hnc h8 hd, write_head h0' hnc' h8 hd, h.headed]
      generalize addOffset 8 _ = r
      rcases r with f | ⟨ret, s', d'⟩
      · exact .inl ⟨f, rfl, rfl⟩
      · exact .inr ⟨ret, s', s', d', rfl, rfl, ⟨rfl, rfl, rfl, rfl, rfl, fun _ => ⟨rfl, rfl⟩⟩⟩
  · rcases Nat.eq_or_lt_of_le hs.hlen with h8 | h8
    · obtain rfl := h.eq h8
      generalize s.write E d (some data) n = r
      rcases r with f | ⟨ret, s', d'⟩
      · exact .inl ⟨f, rfl, rfl⟩
      · exact .inr ⟨ret, s', s', d', rfl, rfl, ⟨rfl, rfl, rfl, rfl, rfl, fun _ => ⟨rfl, rfl⟩⟩⟩
    · -- a call that goes on inside a header fails on both
      have hcut := write_cut (E := E) (d := d) h0 h8 hn hd
      have hcut' := write_cut (E := E) (d := d) (h.hlen ▸ h0) (h.hlen ▸ h8) hn hd
      rw [← h.hlen] at hcut'
      exact .inl ⟨_, hcut, hcut'⟩

theorem HV.Alike.report {t : HV} (h : s.Alike t) (hs : s.Inv d) (ret : ℤ) :
    s.report d ret = t.report d ret := by
  unfold HV.report
  rw [← h.headComplete, ← h.valueComplete, ← h.value]
  cases hh : s.headComplete with
  | false => rfl
  | true =>
    rw [hs.head, decide_eq_true_eq] at hh
    rw [(h.header hh).1]

/-- **Objects that are alike behave alike**, on every sequence of calls. -/
theorem behaviour_congr {t : HV} (h : s.Alike t) (hs : s.Inv d) (ht : t.Inv d) (calls : List Call) :
    s.behaviour E calls d = t.behaviour E calls d := by
  induction calls generalizing s t d with
  | nil => rfl
  | cons c cs ih =>
    unfold HV.behaviour
    rcases write_alike (E := E) h hs ht c with ⟨f, h1, h2⟩ | ⟨ret, s', t', d', h1, h2, h'⟩
    · rw [h1, h2]
    · rw [h1, h2]
      have hs' := hs.write c h1
      simp only
      rw [h'.report hs', ih h' hs' (ht.write c h2)]

/-- A frame of one byte in one call. -/
def probe : Call where
  p_data := some [0, 0, 0, 0, 0, 0, 0, 1, 0]
  data_len := 9
  fits := by simp
  isInt := by decide

/-- The probe on an object that kept a full cache: the frame counts as complete though
no value byte was taken. -/
theorem probe_stale {c : Cache} (hs : s.Inv d) (h0 : s.hlen = 0) (hv : s.value = some c)
    (hf : cacheFull c = true) :
    ∃ s' d', s.write E d probe.p_data probe.data_len = .ok (8, s', d') ∧ s'.valueComplete = true ∧
      s'.headComplete = true := by
  have hnc : s.headComplete = false := by rw [hs.head, h0]; rfl
  obtain ⟨k, d', hrun, hk, -⟩ : ∃ (k : ℕ) (d' : Disk),
      (s.headed ⟨0, 1⟩).writeValue E d (some [0]) ((9 - 8 : ℕ) : ℤ) =
        .ok ((k : ℤ), (s.headed ⟨0, 1⟩).filled (c.grow k), d') ∧
      k = E.taken d (min (c.priv.capacity - c.priv.widx) (9 - 8)) ∧ _ :=
    writeValue_push rfl hv (hs.value c hv) (by decide) (by decide) (by decide)
  obtain rfl : k = 0 := by rw [hk, LibC.taken_full hf]
  refine ⟨(s.headed ⟨0, 1⟩).filled (c.grow 0), d', ?_, by simp [HV.filled, hf], rfl⟩
  have hw : s.write E d probe.p_data probe.data_len = _ :=
    write_head (n := 9) h0 hnc (by decide) (by decide)
  rw [hw]
  change addOffset 8 ((s.headed ⟨0, 1⟩).writeValue E d (some [0]) ((9 - 8 : ℕ) : ℤ)) = _
  rw [hrun]
  rfl

/-- The probe on a new object is complete only when its value byte was taken. -/
theorem probe_new (st : StorageTo) (h : Header) {s' : HV} {d' : Disk}
    (hw : (HV.new st h).write E d probe.p_data probe.data_len = .ok (8, s', d')) :
    s'.valueComplete = false := by
  have : Wrote E (HV.new st h) d [0, 0, 0, 0, 0, 0, 0, 1, 0] 9
      ((HV.new st h).write E d probe.p_data probe.data_len) :=
    write_wrote (HV.Inv.new st h d) (by decide) (by decide) (by decide)
  rw [hw] at this
  generalize hr : (8 : ℤ) = ret at this
  cases this with
  | short _ h8 => omega
  | head _ h8 => omega
  | noCache _ _ _ => omega
  | push hb hn hc hf hk hf' hw' =>
    rename_i off k s₁ c d₀
    cases hb with
    | body h8 => cases h8
    | head _ _ =>
      obtain rfl : k = 0 := by omega
      rcases hc with ⟨hc, -⟩ | ⟨-, hcap, hw0⟩
      · cases hc
      · have hcap1 : c.priv.capacity = 1 := hcap
        simp [HV.filled, HV.headed, HV.new, cacheFull, hcap1, hw0]

/-- A complete object holds a full cache. -/
theorem HV.Inv.full (hs : s.Inv d) (hc : s.isComplete = true) :
    s.hlen = 8 ∧ ∃ c, s.value = some c ∧ cacheFull c = true := by
  obtain ⟨-, hvc⟩ : s.headComplete = true ∧ s.valueComplete = true := by
    simpa [HV.isComplete] using hc
  exact hs.complete hvc

/-- After a short frame the probe tells a cleared object from a new one. -/
theorem clear_short_differs (hs : s.Inv d) (hc : s.isComplete = true)
    (hlt : s.header.length < defaultMaxMemoryCache) (st : StorageTo) (x : Header) :
    (s.clear d).1.behaviour E [probe] (s.clear d).2 ≠ (HV.new st x).behaviour E [probe] (s.clear d).2 := by
  obtain ⟨h8, c, hv, hf⟩ := hs.full hc
  have hst := hs.storage h8
  have hs' := clear_inv hs
  rw [if_pos hlt] at hst
  rw [clear_mem hst] at hs' ⊢
  obtain ⟨s₁, d₁, hw, hvc₁, -⟩ := probe_stale (E := E) hs' rfl hv hf
  intro hb
  simp only [HV.behaviour, hw] at hb
  cases hn : (HV.new st x).write E d probe.p_data probe.data_len with
  | error f => rw [hn] at hb; simp at hb
  | ok r =>
    obtain ⟨ret, s₂, d₂⟩ := r
    rw [hn] at hb
    simp only [List.cons.injEq, Except.ok.injEq, and_true, HV.report, Report.mk.injEq] at hb
    obtain ⟨rfl, -, hvc₂, -⟩ := hb
    rw [probe_new st x hn, hvc₁] at hvc₂
    cases hvc₂

/-- **A cleared object behaves as a new one exactly when its last frame was not short.** -/
theorem clear_like_new_iff (h : HV.Reach E s d) (hc : s.isComplete = true) :
    (∀ (st : StorageTo) (x : Header) (calls : List Call),
      (s.clear d).1.behaviour E calls (s.clear d).2 =
        (HV.new st x).behaviour E calls (s.clear d).2) ↔
      defaultMaxMemoryCache ≤ s.header.length := by
  have hs := h.inv
  constructor
  · intro hall
    by_contra hlt
    exact clear_short_differs hs hc (by simpa using hlt) .auto ⟨0, 0⟩ (hall .auto ⟨0, 0⟩ [probe])
  · intro hle st x calls
    have hst := hs.storage (hs.full hc).1
    rw [if_neg (by simpa using hle)] at hst
    refine behaviour_congr ?_ (clear_inv hs) (.new st x _) calls
    rw [clear_file hst]
    exact ⟨rfl, rfl, rfl, rfl, rfl, fun h8' => by simp at h8'⟩

/-- A new object completes the small frame in one call. -/
theorem smallFrame_done : ∃ s d, (HV.new .auto ⟨0, 0⟩).write .steady .empty (some smallFrame.wire) 9 =
    .ok (9, s, d) ∧ s.Done d false smallFrame := by
  obtain ⟨m, s, d, hrun, hm, haft⟩ := write_at LibC.steady_succeeds (.new .auto ⟨0, 0⟩ .empty smallFrame)
    (.inl rfl) (by decide) (by decide) (List.prefix_append _ []) (by simp)
  obtain rfl : m = 9 := hm
  rcases haft with ⟨-, -, hdone⟩ | ⟨h, -⟩
  · exact ⟨s, d, hrun, hdone⟩
  · exact absurd h (by decide)

/-- The call that gives the small frame. -/
def smallCall : Call := ⟨some smallFrame.wire, 9, by decide, by decide⟩

/-- An object that completed the small frame. -/
theorem clear_like_new_iff_small : ∃ s d, HV.Reach .steady s d ∧ s.isComplete = true ∧
    ((∀ (st : StorageTo) (x : Header) (calls : List Call),
      (s.clear d).1.behaviour .steady calls (s.clear d).2 =
        (HV.new st x).behaviour .steady calls (s.clear d).2) ↔
      defaultMaxMemoryCache ≤ s.header.length) := by
  obtain ⟨s, d, hrun, hdone⟩ := smallFrame_done
  have hr : HV.Reach .steady s d := .write (.new .auto ⟨0, 0⟩ .empty) smallCall hrun
  exact ⟨s, d, hr, hdone.isComplete, clear_like_new_iff hr hdone.isComplete⟩

/-- After the small frame a cleared object completes the next frame without its value. -/
theorem cleared_small_frame_differs : ∃ s d,
    (HV.new .auto ⟨0, 0⟩).write .steady .empty (some smallFrame.wire) 9 = .ok (9, s, d) ∧
      s.isComplete = true ∧
      (s.clear d).1.behaviour .steady [probe] (s.clear d).2 ≠
        (HV.new .auto ⟨0, 0⟩).behaviour .steady [probe] (s.clear d).2 := by
  obtain ⟨s, d, hrun, hdone⟩ := smallFrame_done
  have hr : HV.Reach .steady s d := .write (.new .auto ⟨0, 0⟩ .empty) smallCall hrun
  refine ⟨s, d, hrun, hdone.isComplete, clear_short_differs hr.inv hdone.isComplete ?_ _ _⟩
  rw [hdone.header]
  decide

end DocFerry
