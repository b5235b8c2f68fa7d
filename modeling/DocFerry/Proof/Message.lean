import DocFerry.Model.HV
import DocFerry.Proof.Memory

/-!
# Messages for sending, and the count of `cache_push`

`cache_push` returns its count as an `int`, and `HV::write(iface::Header *, char *)` compares
that with the length as a `size_t`.

* `cachePush_count`: what a push says, and by how much the cache grows.
* `writeMsg_run`: how a message is filled.
* `counts_exact_iff`: a message is filled, and a push tells the truth, exactly below `2 ^ 31`
  bytes.
-/

namespace DocFerry

open Bytes

/-- How many of `n` bytes the cache takes. -/
def Cache.takes (E : LibC) (d : Disk) (c : Cache) (n : ℕ) : ℕ :=
  match c.buf, c.priv.wfp with
  | some _, _ => min (c.priv.capacity - c.priv.widx) n
  | none, some fp =>
    if (d.streams fp).isSome then E.taken d (min (c.priv.capacity - c.priv.widx) n) else 0
  | none, none => 0

/-- By how much a push of `data` makes the cache grow. -/
def grown (E : LibC) (d : Disk) (c : Cache) (data : List UInt8) : ℕ :=
  (cachePush E d c data data.length).2.1.priv.widx - c.priv.widx

/-- A push returns the number of bytes that it stored, or -1 when it stored none. -/
def ReportsStored (E : LibC) (d : Disk) (c : Cache) (data : List UInt8) : Prop :=
  (cachePush E d c data data.length).1 = grown E d c data ∨
    (cachePush E d c data data.length).1 = -1 ∧ grown E d c data = 0

/-- `write` returns 0, has the header in network order, and leaves a cache out of which any pops
get the value. -/
def WritesMessage (E : LibC) (s : HV) (d : Disk) (h : Header) (data : List UInt8) : Prop :=
  ∃ s' d' c, s.writeMsg E d (some h) (some data) = .ok (0, s', d') ∧
    s'.header.bytes E.host = storeWord .big h.id ++ storeWord .big h.length ∧ s'.value = some c ∧
      ∀ (e : Disk) (sizes : List ℕ),
        poppedBytes (cacheCalls E (sizes.map .pop) c e).1 = data.take sizes.sum

variable {E : LibC} {d : Disk} {c : Cache} {s : HV} {h : Header} {data : List UInt8}

/-! ### The count -/

theorem Cache.takes_le (n : ℕ) : c.takes E d n ≤ min (c.priv.capacity - c.priv.widx) n := by
  unfold Cache.takes
  split
  · exact le_rfl
  · split
    · exact E.taken_le d _
    · exact Nat.zero_le _
  · exact Nat.zero_le _

/-- **A push** says what the cache takes, as an `int`, or -1 when there is nothing to push
into. -/
theorem cachePush_count (hle : c.priv.widx ≤ c.priv.capacity) (hcap : c.priv.capacity < 2 ^ 64)
    (data : List UInt8) :
    ((cachePush E d c data data.length).1 = toInt (c.takes E d data.length) ∨
      (cachePush E d c data data.length).1 = -1 ∧ c.takes E d data.length = 0) ∧
        grown E d c data = c.takes E d data.length := by
  have htake := Cache.takes_le (E := E) (d := d) (c := c) data.length
  cases hb : c.buf with
  | some buf =>
    have hrun := cachePush_buffer E d data data.length hb hle hcap
    have htk : c.takes E d data.length = min (c.priv.capacity - c.priv.widx) data.length := by
      simp only [Cache.takes, hb]
    refine ⟨.inl (by rw [hrun, htk]), ?_⟩
    unfold grown
    rw [hrun, htk]
    exact Nat.add_sub_cancel_left ..
  | none =>
    cases hw : c.priv.wfp with
    | none =>
      have hrun := cachePush_deleted E d hb hw data data.length
      have htk : c.takes E d data.length = 0 := by simp only [Cache.takes, hb, hw]
      refine ⟨.inr ⟨by rw [hrun], htk⟩, ?_⟩
      unfold grown
      rw [hrun, htk]
      exact Nat.sub_self _
    | some fp =>
      -- the stream takes what `takes` says
      have hwr : (fwrite E d fp (data.take (min (c.priv.capacity - c.priv.widx) data.length))).1 =
          c.takes E d data.length := by
        have hlen : (data.take (min (c.priv.capacity - c.priv.widx) data.length)).length =
            min (c.priv.capacity - c.priv.widx) data.length := by
          rw [List.length_take]
          omega
        cases hs : d.streams fp with
        | none => simp only [fwrite, Cache.takes, hb, hw, hs, Option.isSome_none, Bool.false_eq_true,
            if_false]
        | some st => simp only [fwrite, Cache.takes, hb, hw, hs, Option.isSome_some, if_true, hlen]
      have hrun : cachePush E d c data data.length =
          (toInt (c.takes E d data.length),
            { c with priv := { c.priv with widx := sizeAdd c.priv.widx (c.takes E d data.length) } },
            (fwrite E d fp (data.take (min (c.priv.capacity - c.priv.widx) data.length))).2) := by
        rw [cachePush_stream E d hb hw, Cache.pushLen_eq hle hcap, hwr]
      refine ⟨.inl (by rw [hrun]), ?_⟩
      unfold grown
      rw [hrun]
      show sizeAdd c.priv.widx (c.takes E d data.length) - c.priv.widx = _
      rw [sizeAdd_of_lt (by omega)]
      exact Nat.add_sub_cancel_left ..

/-- **A push tells the truth** exactly when it takes fewer than `2 ^ 31` bytes. -/
theorem reportsStored_iff (hle : c.priv.widx ≤ c.priv.capacity) (hcap : c.priv.capacity < 2 ^ 64)
    (hd : data.length < 2 ^ 32) : ReportsStored E d c data ↔ c.takes E d data.length < 2 ^ 31 := by
  obtain ⟨hret, hgrown⟩ := cachePush_count (E := E) (d := d) hle hcap data
  have htake := Cache.takes_le (E := E) (d := d) (c := c) data.length
  unfold ReportsStored
  rw [hgrown]
  rcases Nat.lt_or_ge (c.takes E d data.length) (2 ^ 31) with hlt | hge
  · refine iff_of_true ?_ hlt
    rcases hret with hret | hret
    · exact .inl (by rw [hret, toInt_of_lt hlt])
    · exact .inr hret
  · refine iff_of_false ?_ (by omega)
    rcases hret with hret | ⟨-, h0⟩
    · rw [hret, toInt_of_ge hge (by omega)]
      omega
    · omega

/-! ### Messages -/

/-- Any pops get the bytes of a queue from the front. -/
theorem Holds.pops {q : Fifo UInt8} (hq : Holds q c) (e : Disk) (sizes : List ℕ) :
    poppedBytes (cacheCalls E (sizes.map .pop) c e).1 = q.rest.take sizes.sum := by
  induction sizes generalizing q c e with
  | nil => simp [cacheCalls, poppedBytes]
  | cons k ks ih =>
    obtain ⟨c', hrun, hq'⟩ := hq.pop (E := E) e k
    have hrest : (q.pop k).rest = q.rest.drop k := by
      unfold Fifo.rest
      rw [Fifo.pop_taken, Fifo.pop_given, ← List.drop_drop]
      rcases Nat.le_total k (q.taken.drop q.given).length with hk | hk
      · rw [Fifo.rest, min_eq_left hk]
      · rw [Fifo.rest, min_eq_right hk, List.drop_length, List.drop_eq_nil_of_le hk]
    have hih := ih hq' e
    rw [hrest] at hih
    simp only [poppedBytes] at hih
    simp only [List.map_cons, cacheCalls, cacheCall, hrun, poppedBytes, List.flatten_cons, hih,
      List.sum_cons]
    rw [← List.take_add]

/-- What is done with the old value does not matter for the new one. -/
theorem writeMsg_old (s : HV) (d : Disk) (h : Header) (data : List UInt8) :
    ∃ d₁ : Disk, s.writeMsg E d (some h) (some data) =
      HV.writeMsg E { s with value := none } d₁ (some h) (some data) := by
  cases hv : s.value with
  | none =>
    have hs : s = { s with value := none } := by rw [← hv]
    exact ⟨d, by rw [← hs]⟩
  | some c₀ => exact ⟨leaveCache (deleteCache d c₀).2 (deleteCache d c₀).1, by simp only [HV.writeMsg, hv]⟩

/-- **Filling a message**, memory being there: the old value is deleted, a new cache takes the
bytes, and the count has to come back as the length. -/
theorem writeMsg_run (hc : ∀ i, E.calloc i = true) (hm : ∀ i, E.malloc i = true) (s : HV) (d : Disk)
    (h : Header) (data : List UInt8) :
    ∃ d', s.writeMsg E d (some h) (some data) =
      if h.length.toNat < 2 ^ 31 then
        .ok (0, { s with
          header := ⟨htonl E.host h.id, htonl E.host h.length⟩
          value := some (cachePush E d' (memCache E h.length.toNat) data h.length.toNat).2.1 }, d')
      else
        .ok (-1, { s with
          header := ⟨htonl E.host h.id, htonl E.host h.length⟩
          value := none }, d') := by
  have hn := h.length.toNat_lt
  obtain ⟨d₁, hold⟩ := writeMsg_old (E := E) s d h data
  have hpush := cachePush_buffer E
    { d₁ with ncalloc := d₁.ncalloc + 2, nmalloc := d₁.nmalloc + 1 }
    (c := memCache E h.length.toNat) data h.length.toNat rfl (Nat.zero_le _)
    (show h.length.toNat < 2 ^ 64 by omega)
  rw [show min ((memCache E h.length.toNat).priv.capacity - (memCache E h.length.toNat).priv.widx)
    h.length.toNat = h.length.toNat from Nat.min_self _] at hpush
  refine ⟨{ d₁ with ncalloc := d₁.ncalloc + 2, nmalloc := d₁.nmalloc + 1 }, ?_⟩
  rw [hold, HV.writeMsg]
  simp only [createCache_mem _ (hc _) (hc _), hm, if_true, bind, Except.bind, pure, Except.pure, hpush]
  rcases Nat.lt_or_ge h.length.toNat (2 ^ 31) with hlt | hge
  · rw [if_neg (not_not.2 (intToSize_toInt hlt)), if_pos hlt]
  · -- the sign of the count is carried into the `size_t`
    have hne : intToSize (toInt h.length.toNat) ≠ h.length.toNat := by
      rw [toInt_of_ge hge hn]
      unfold intToSize
      omega
    rw [if_pos hne, if_neg (by omega)]
    rfl

/-- **A message is filled** exactly when it is shorter than `2 ^ 31` bytes. -/
theorem writesMessage_iff (hc : ∀ i, E.calloc i = true) (hm : ∀ i, E.malloc i = true)
    (hd : data.length = h.length.toNat) : WritesMessage E s d h data ↔ h.length.toNat < 2 ^ 31 := by
  obtain ⟨d', hrun⟩ := writeMsg_run hc hm s d h data
  constructor
  · rintro ⟨s', d₁, c, hok, -⟩
    by_contra hge
    rw [hrun, if_neg hge] at hok
    cases hok
  · intro hlt
    rw [if_pos hlt] at hrun
    refine ⟨_, _, _, hrun, ?_, rfl, fun e sizes => ?_⟩
    · simp only [Header.bytes, storeWord_htonl]
    · have hq : Holds (Fifo.new h.length.toNat) (memCache E h.length.toNat) :=
        ⟨⟨_, rfl, List.length_replicate, List.take_zero⟩, rfl, rfl, rfl, by
          show h.length.toNat < 2 ^ 64
          omega⟩
      obtain ⟨c', hpush, hq'⟩ := hq.push (E := E) d' (show data.length < 2 ^ 31 by omega)
      rw [hd] at hpush
      rw [hpush, hq'.pops e sizes]
      simp [Fifo.rest, Fifo.room, ← hd]

/-- **The counts are exact below `2 ^ 31` bytes.** With memory there, a message is filled exactly
when its length is below `2 ^ 31`, and a push returns the number of bytes it stored, or -1 for
none, exactly when it takes fewer than `2 ^ 31`. -/
theorem counts_exact_iff (hc : ∀ i, E.calloc i = true) (hm : ∀ i, E.malloc i = true) :
    (∀ (s : HV) (d : Disk) (h : Header) (data : List UInt8), 1 ≤ h.length.toNat →
        data.length = h.length.toNat →
        (WritesMessage E s d h data ↔ h.length.toNat < 2 ^ 31)) ∧
      ∀ (d : Disk) (c : Cache) (data : List UInt8), c.priv.widx ≤ c.priv.capacity →
        c.priv.capacity < 2 ^ 64 → data.length < 2 ^ 32 →
        (ReportsStored E d c data ↔ c.takes E d data.length < 2 ^ 31) :=
  ⟨fun _ _ _ _ _ hd => writesMessage_iff hc hm hd, fun _ _ _ hle hcap hd => reportsStored_iff hle hcap hd⟩

/-- A message of one byte over an old one, and two bytes pushed where one fits. -/
theorem counts_exact_iff_small :
    (WritesMessage .steady { HV.new .mem ⟨0, 0⟩ with value := some (memCache .steady 2) } .empty ⟨7, 1⟩ [9] ↔
        (1 : UInt32).toNat < 2 ^ 31) ∧
      (ReportsStored .steady .empty (memCache .steady 1) [1, 2] ↔
        (memCache .steady 1).takes .steady .empty 2 < 2 ^ 31) := by
  obtain ⟨hmsg, hpush⟩ := counts_exact_iff (E := .steady) (fun _ => rfl) fun _ => rfl
  exact ⟨hmsg _ _ ⟨7, 1⟩ [9] (by decide) rfl, hpush .empty (memCache .steady 1) [1, 2] (by decide)
    (by decide) (by decide)⟩

/-- A message of `2 ^ 31` bytes is refused, and a push that stores `2 ^ 32 - 1` bytes returns
-1. -/
theorem counts_wrong_large :
    ¬ WritesMessage .steady (.new .mem ⟨0, 0⟩) .empty ⟨1, 0x80000000⟩ (List.replicate (2 ^ 31) 0) ∧
      (cachePush .steady .empty (memCache .steady (2 ^ 32 - 1)) (List.replicate (2 ^ 32 - 1) 0)
        (2 ^ 32 - 1)).1 = -1 ∧
      (cachePush .steady .empty (memCache .steady (2 ^ 32 - 1)) (List.replicate (2 ^ 32 - 1) 0)
        (2 ^ 32 - 1)).2.1.priv.widx = 2 ^ 32 - 1 := by
  have hlen : (List.replicate (2 ^ 31) (0 : UInt8)).length = (0x80000000 : UInt32).toNat := by
    rw [List.length_replicate]
    rfl
  have hpush := cachePush_buffer .steady .empty (c := memCache .steady (2 ^ 32 - 1))
    (List.replicate (2 ^ 32 - 1) 0) (2 ^ 32 - 1) rfl (Nat.zero_le _)
    (show 2 ^ 32 - 1 < 2 ^ 64 by decide)
  rw [show min ((memCache .steady (2 ^ 32 - 1)).priv.capacity - (memCache .steady (2 ^ 32 - 1)).priv.widx)
    (2 ^ 32 - 1) = 2 ^ 32 - 1 from Nat.min_self _] at hpush
  refine ⟨fun hw => ?_, ?_, ?_⟩
  · rw [writesMessage_iff (fun _ => rfl) (fun _ => rfl) hlen] at hw
    exact absurd hw (by decide)
  · rw [hpush]
    decide
  · rw [hpush]
    exact Nat.zero_add _

end DocFerry
