import DocFerry.Model.HV
import DocFerry.Proof.Cache
import DocFerry.Spec.Frame

/-!
# What one call of `vc::HV::write` does

* `write_cut`, `write_short`, `write_head`, `write_body`: the call by the number
  of header bytes there are already and the number that come.
* `writeValue_push`, `writeValue_create`: its value part.
-/

namespace DocFerry

open Bytes

variable {E : LibC} {s : HV} {d : Disk} {data : List UInt8} {n : ℕ}

/-- `s` once its header is there. -/
def HV.headed (s : HV) (h : Header) : HV :=
  { s with
    hlen := 8
    header := h
    headComplete := true
    storage := if h.length < defaultMaxMemoryCache then .mem else .file }

/-- `s` with the first bytes of its header overwritten by `data`. -/
def HV.patched (E : LibC) (s : HV) (data : List UInt8) : HV :=
  { s with
    hlen := data.length
    header := Header.ofBytes E.host (overwrite (s.header.bytes E.host) 0 data) }

/-- `s` with value cache `c`. -/
def HV.filled (s : HV) (c : Cache) : HV :=
  { s with value := some c, valueComplete := s.valueComplete || cacheFull c }

/-! ### The header part -/

/-- **A header cut after its first byte**: the next piece goes behind the header object. -/
theorem writeHead_cut (h0 : 0 < s.hlen) (h8 : s.hlen < 8) (hn : 0 < n) (hd : n ≤ data.length) :
    s.writeHead E (some data) n = .error (.outside (8 * s.hlen) (min (8 - s.hlen) n)) := by
  have hlen : (data.take (min (8 - s.hlen) n)).length = min (8 - s.hlen) n := by
    rw [List.length_take]; omega
  have hout : ¬ (8 * s.hlen + min (8 - s.hlen) n ≤ 8) := by omega
  have hpos : ¬ ((n : ℤ) ≤ 0) := by omega
  simp only [HV.writeHead, hpos, if_false, sizeofHeader, h8, if_true, Int.toNat_natCast,
    memcpyHeader, hlen, hout]
  rfl

theorem writeHead_short (h0 : s.hlen = 0) (hn : 0 < n) (h8 : n < 8) (hd : n ≤ data.length) :
    s.writeHead E (some data) n = .ok ((n : ℤ), s.patched E (data.take n)) := by
  have hpos : ¬ ((n : ℤ) ≤ 0) := by omega
  have hlen : (data.take n).length = n := by rw [List.length_take]; omega
  simp only [HV.writeHead, hpos, if_false, sizeofHeader, h0, Int.toNat_natCast, Nat.sub_zero,
    min_eq_right h8.le, memcpyHeader, hlen, Nat.mul_zero, Nat.zero_add, h8.le, if_true]
  have h8' : ¬ n = 8 := by omega
  simp [HV.patched, hlen, h8', bind, Except.bind, pure, Except.pure]

/-- A header object overwritten by eight bytes of the wire and converted to host
order is the header those bytes announce. -/
theorem ntohl_patched (E : LibC) (h : Header) (hd : data.length = 8) :
    (⟨ntohl E.host (Header.ofBytes E.host (overwrite (h.bytes E.host) 0 data)).id,
      ntohl E.host (Header.ofBytes E.host (overwrite (h.bytes E.host) 0 data)).length⟩ : Header) =
      headOf data := by
  have hne : data ≠ [] := by rintro rfl; simp at hd
  have hov : overwrite (h.bytes E.host) 0 data = data := by
    simp [overwrite, hne, hd]
  have h4 : (data.drop 4).take 4 = data.drop 4 := List.take_of_length_le (by simp [hd])
  simp only [hov, Header.ofBytes, headOf, h4]
  rw [ntohl_loadWord _ (by simp [hd]), ntohl_loadWord _ (by simp [hd])]

theorem writeHead_whole (h0 : s.hlen = 0) (hc : s.headComplete = false) (h8 : 8 ≤ n)
    (hd : n ≤ data.length) :
    s.writeHead E (some data) n = .ok (8, s.headed (headOf (data.take 8))) := by
  have hpos : ¬ ((n : ℤ) ≤ 0) := by omega
  have hlen : (data.take 8).length = 8 := by rw [List.length_take]; omega
  have hnt := ntohl_patched E s.header hlen
  have hnl : ntohl E.host (Header.ofBytes E.host
      (overwrite (s.header.bytes E.host) 0 (data.take 8))).length = (headOf (data.take 8)).length :=
    congrArg Header.length hnt
  rw [hnl] at hnt
  simp only [HV.writeHead, hpos, if_false, sizeofHeader, h0, Int.toNat_natCast, Nat.sub_zero,
    min_eq_left h8, memcpyHeader, hlen, Nat.mul_zero, Nat.zero_add, le_refl, if_true]
  simp [HV.headed, HV.headCompleted, hc, hnt, hnl, bind, Except.bind, pure, Except.pure]

theorem writeHead_done (h8 : s.hlen = 8) : s.writeHead E (some data) n = .ok (0, s) := by
  simp only [HV.writeHead, sizeofHeader, h8]
  split <;> simp

/-! ### The value part -/

theorem writeValue_nothing {p_data : Option (List UInt8)} : s.writeValue E d p_data 0 = .ok (0, s, d) := by
  cases p_data <;> rfl

/-- A value part whose cache is there pushes into it. -/
theorem writeValue_cached {c : Cache} (hh : s.headComplete = true) (hv : s.value = some c) (hn : 0 < n) :
    s.writeValue E d (some data) n = .ok ((cachePush E d c data n).1,
      s.filled (cachePush E d c data n).2.1, (cachePush E d c data n).2.2) := by
  have hpos : ¬ ((n : ℤ) ≤ 0) := by omega
  simp only [HV.writeValue, hpos, if_false, hh, hv, Int.toNat_natCast, bind, Except.bind, pure,
    Except.pure]
  cases hc : cacheFull (cachePush E d c data n).2.1 <;> cases hvc : s.valueComplete <;>
    simp [HV.filled, HV.valueCompleted, hc, hvc, hh]

/-- **The value part with a file cache** takes a prefix of the data and is complete
once the cache is full. -/
theorem writeValue_push {c : Cache} (hh : s.headComplete = true) (hv : s.value = some c)
    (hc : FileCache d c) (hn : 0 < n) (hd : n ≤ data.length) (hi : n < 2 ^ 31) :
    ∃ (k : ℕ) (d' : Disk), s.writeValue E d (some data) n = .ok ((k : ℤ), s.filled (c.grow k), d') ∧
      k = E.taken d (min (c.priv.capacity - c.priv.widx) n) ∧
      FileCache d' (c.grow k) ∧ d'.nfwrite = d.nfwrite + 1 ∧
      (Aligned d c → Aligned d' (c.grow k) ∧ d'.stored (c.grow k) = d.stored c ++ data.take k) := by
  obtain ⟨k, d', hp, hk, hrest⟩ := cachePush_file (E := E) hc hd hi
  exact ⟨k, d', by rw [writeValue_cached hh hv hn, hp], hk, hrest⟩

/-- A value part whose cache is missing makes one first. -/
theorem writeValue_missing (hh : s.headComplete = true) (hv : s.value = none) (hn : 0 < n) :
    s.writeValue E d (some data) n =
      match createCache E d none s.header.length.toNat .file with
      | .error f => .error f
      | .ok (none, d') => .ok (-1, s, d')
      | .ok (some c, d') => { s with value := some c }.writeValue E d' (some data) n := by
  have hpos : ¬ ((n : ℤ) ≤ 0) := by omega
  simp only [HV.writeValue, hpos, if_false, hh, hv, bind, Except.bind]
  cases hcr : createCache E d none s.header.length.toNat .file with
  | error f => rfl
  | ok r =>
    obtain ⟨v, d'⟩ := r
    cases v with
    | none => rfl
    | some c => rfl

/-- **The value part with no cache yet** crashes, reports that no cache could be made,
or goes on with a new, empty one. -/
theorem writeValue_create (E : LibC) (d : Disk) (data : List UInt8) (hh : s.headComplete = true)
    (hv : s.value = none) (hn : 0 < n) :
    ((∃ i, E.calloc i = false) ∧ s.writeValue E d (some data) n = .error .nullDeref) ∨
      (¬ E.Succeeds ∧ ∃ d', s.writeValue E d (some data) n = .ok (-1, s, d')) ∨
      ∃ c d', s.writeValue E d (some data) n =
          { s with value := some c }.writeValue E d' (some data) n ∧ FileCache d' c ∧
        c.priv.capacity = s.header.length.toNat ∧ c.priv.widx = 0 ∧
        ((∀ i, E.fseek i = true) → Aligned d' c) := by
  have hrun : s.writeValue E d (some data) n = _ := writeValue_missing hh hv hn
  rcases createCache_file_cases E d s.header.length.toNat_lt with
    ⟨hE, h⟩ | ⟨hE, d', h⟩ | ⟨c, d', h, hfc, hcap, hw, hal⟩
  · exact .inl ⟨hE, by rw [hrun, h]⟩
  · exact .inr (.inl ⟨hE, d', by rw [hrun, h]⟩)
  · exact .inr (.inr ⟨c, d', by rw [hrun, h], hfc, hcap, hw, hal⟩)

/-! ### The whole call -/

/-- The result of `write` when its value part gives `r` after `k` header bytes. -/
def addOffset (k : ℕ) (r : Except Fault (ℤ × HV × Disk)) : Except Fault (ℤ × HV × Disk) :=
  match r with
  | .error f => .error f
  | .ok (ret, s, d) => if ret = -1 then .ok (-1, s, d) else .ok (k + ret, s, d)

theorem write_of_head {k : ℕ} {s' : HV} (hw : s.writeHead E (some data) n = .ok ((k : ℤ), s')) :
    s.write E d (some data) n =
      addOffset k (s'.writeValue E d (some (data.drop k)) ((n : ℤ) - k)) := by
  have hk : ¬ ((k : ℤ) = -1) := by omega
  simp only [HV.write, hw, hk, if_false, bind, Except.bind, Option.map_some, Int.toNat_natCast]
  cases s'.writeValue E d (some (data.drop k)) ((n : ℤ) - k) with
  | error f => rfl
  | ok r =>
    obtain ⟨ret, s'', d'⟩ := r
    by_cases hret : ret = -1 <;> simp [addOffset, hret, pure, Except.pure]

/-- **A header cut after its first byte** sends the call outside the header object. -/
theorem write_cut (h0 : 0 < s.hlen) (h8 : s.hlen < 8) (hn : 0 < n) (hd : n ≤ data.length) :
    s.write E d (some data) n = .error (.outside (8 * s.hlen) (min (8 - s.hlen) n)) := by
  simp only [HV.write, writeHead_cut h0 h8 hn hd, bind, Except.bind]

/-- **Fewer than eight bytes** on a fresh object are header bytes. -/
theorem write_short (h0 : s.hlen = 0) (hn : 0 < n) (h8 : n < 8) (hd : n ≤ data.length) :
    s.write E d (some data) n = .ok ((n : ℤ), s.patched E (data.take n), d) := by
  rw [write_of_head (writeHead_short h0 hn h8 hd), sub_self, writeValue_nothing]
  simp [addOffset]

/-- **Eight bytes or more** on a fresh object are the header and value bytes. -/
theorem write_head (h0 : s.hlen = 0) (hc : s.headComplete = false) (h8 : 8 ≤ n)
    (hd : n ≤ data.length) :
    s.write E d (some data) n =
      addOffset 8 ((s.headed (headOf (data.take 8))).writeValue E d (some (data.drop 8))
        ((n - 8 : ℕ) : ℤ)) := by
  rw [write_of_head (k := 8) (writeHead_whole h0 hc h8 hd), Nat.cast_sub h8]

/-- **Behind a complete header** all bytes are value bytes. -/
theorem write_body (h8 : s.hlen = 8) :
    s.write E d (some data) n = addOffset 0 (s.writeValue E d (some data) n) := by
  rw [write_of_head (k := 0) (writeHead_done h8)]
  simp

end DocFerry
