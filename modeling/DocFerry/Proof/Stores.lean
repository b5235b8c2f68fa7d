import DocFerry.Proof.Indices
import DocFerry.Proof.Message
import DocFerry.Proof.ReadStep

/-!
# What `HV::write` takes of its buffer

The bytes go to the header, then to the cache, each part clamped by a limit of its own; the
result is the sum of the two counts.

* `HV.Stores`: which bytes a call has added to the header and the cache.
* `HV.Fits` is the invariant of an object, `HV.Reached.fits` holds it in every state.
* `write_stores`: outside of a header, the bytes stored are as many leading ones as the result says.
* `reads_within`: `handle_read` does not leave the bytes that it has received.
* `write_exact_iff`: when both hold.
-/

namespace DocFerry

open Bytes

variable {E : LibC} {s s' : HV} {d d' : Disk} {c c' : Cache} {data bs : List UInt8} {k m n : ℕ}

/-! ### The bytes that are stored -/

/-- The bytes of the header that have come: a complete one was converted to host order. -/
def HV.headBytes (E : LibC) (s : HV) : List UInt8 :=
  (s.header.bytes (if s.headComplete then .big else E.host)).take s.hlen

/-- The cache `c` has stored `bs` behind what it had taken, and nothing else. -/
inductive Cache.Adds (d : Disk) (c : Cache) : List UInt8 → Disk → Cache → Prop
  /-- in its buffer, at `widx` -/
  | buffer {buf bs : List UInt8} (hb : c.buf = some buf) (hfit : c.priv.widx + bs.length ≤ buf.length) :
      Cache.Adds d c bs d { c.grow bs.length with buf := some (overwrite buf c.priv.widx bs) }
  /-- through its stream, where that stands: `j` of the bytes that it then has are in the file -/
  | stream {fp j : ℕ} {st : Stream} {bs : List UInt8} (hb : c.buf = none) (hw : c.priv.wfp = some fp)
      (hs : d.streams fp = some st) (hj : j ≤ (st.held ++ bs).length) :
      Cache.Adds d c bs (d.writing fp st bs bs.length j) (c.grow bs.length)
  | nothing {d' : Disk} (hf : d'.files = d.files) : Cache.Adds d c [] d' c

/-- The value of `s'` holds that of `s`, and `bs` behind it. -/
inductive HV.AddsValue (E : LibC) (s : HV) (d : Disk) : List UInt8 → HV → Disk → Prop
  /-- nothing is stored, or no cache could be made -/
  | none {s' : HV} {d' : Disk} (hv : s'.value = s.value) (hd : d' = d ∨ s.value = none) :
      HV.AddsValue E s d [] s' d'
  | cached {s' : HV} {d' : Disk} {bs : List UInt8} {c c' : Cache} (hv : s.value = some c)
      (hv' : s'.value = some c') (h : c.Adds d bs d' c') : HV.AddsValue E s d bs s' d'
  /-- in a cache that the call has made -/
  | made {s' : HV} {d₀ d' : Disk} {bs : List UInt8} {c c' : Cache} (hv : s.value = none)
      (hc : createCache E d none s'.header.length.toNat .file = .ok (some c, d₀))
      (hv' : s'.value = some c') (h : c.Adds d₀ bs d' c') : HV.AddsValue E s d bs s' d'

/-- Of `bs`, the first bytes have gone to the header and the others to the value. -/
def HV.Stores (E : LibC) (s : HV) (d : Disk) (bs : List UInt8) (s' : HV) (d' : Disk) : Prop :=
  ∃ head value, bs = head ++ value ∧ s'.headBytes E = s.headBytes E ++ head ∧
    s.AddsValue E d value s' d'

/-- `write` returns -1 or the number of bytes that it has stored, and these are the first of the
buffer. -/
def WritesExactly (E : LibC) (s : HV) (d : Disk) (data : List UInt8) (n : ℕ) : Prop :=
  ∃ (ret : ℤ) (s' : HV) (d' : Disk), s.write E d (some data) n = .ok (ret, s', d') ∧
    ∃ k ≤ n, (ret = -1 ∨ ret = k) ∧ s.Stores E d (data.take k) s' d'

/-- The loop of `handle_read` stands inside `buf`, with as many bytes to go as there are. -/
def ReadState.Within (buf : List UInt8) (c : ReadState) : Prop :=
  ∃ k ≤ buf.length, c.p_buf = buf.drop k ∧ c.nread = (buf.length : ℤ) - k

/-- `handle_read` stays inside the bytes it has received: wherever it stands, `write` takes no more
than are left. -/
def ReadsWithin (E : LibC) (h : VirusHandler) (d : Disk) (buf : List UInt8) : Prop :=
  ∀ c, Loop.Reaches (VirusHandler.readBody E) ⟨h, d, buf, buf.length⟩ c → c.Within buf ∧
    ∀ wlen s' d', c.self.req.write E c.disk (some c.p_buf) c.nread = .ok (wlen, s', d') →
      wlen = -1 ∨ 0 ≤ wlen ∧ wlen ≤ c.nread

/-- The call comes to make a cache, and the second `calloc` of `create_cache` fails. -/
def HV.NullCache (E : LibC) (s : HV) (d : Disk) (n : ℕ) : Prop :=
  s.value = none ∧ 8 < s.hlen + n ∧ E.calloc d.ncalloc = true ∧ E.calloc (d.ncalloc + 1) = false

/-- The states that an object can come to by its calls, each of which meets a library and a disk of
its own. -/
inductive HV.Reached : HV → Prop
  | new (st : StorageTo) (h : Header) : HV.Reached (.new st h)
  | write {E : LibC} {s s' : HV} {d d' : Disk} {ret : ℤ} (h : HV.Reached s) (c : Call)
      (hw : s.write E d c.p_data c.data_len = .ok (ret, s', d')) : HV.Reached s'
  | writeMsg {E : LibC} {s s' : HV} {d d' : Disk} {ret : ℤ} (h : HV.Reached s)
      (header : Option Header) (value : Option (List UInt8))
      (hw : s.writeMsg E d header value = .ok (ret, s', d')) : HV.Reached s'
  | clear {s : HV} (h : HV.Reached s) (d : Disk) : HV.Reached (s.clear d).1

/-- The header counts as complete when it is whole, and the indices of the cache are in order. -/
structure HV.Fits (s : HV) : Prop where
  hlen : s.hlen ≤ 8
  head : s.headComplete = decide (s.hlen = 8)
  value : ∀ c, s.value = some c → ∃ n < 2 ^ 32, c.Ordered n

/-! ### The header part -/

theorem bytes_ofBytes (e : Endian) (h : bs.length = 8) : (Header.ofBytes e bs).bytes e = bs := by
  have hl : (bs.take 4).length = 4 := by rw [List.length_take]; omega
  have hr : (bs.drop 4).length = 4 := by rw [List.length_drop]; omega
  unfold Header.bytes Header.ofBytes
  rw [storeWord_loadWord e hl, storeWord_loadWord e hr, List.take_append_drop]

theorem bytes_headOf (h : bs.length = 8) : (headOf bs).bytes .big = bs := by
  have hr : (bs.drop 4).take 4 = bs.drop 4 := List.take_of_length_le (by rw [List.length_drop]; omega)
  have hof := bytes_ofBytes .big h
  unfold headOf
  rw [hr]
  exact hof

theorem headBytes_begin (h0 : s.hlen = 0) : s.headBytes E = [] := by
  unfold HV.headBytes
  rw [h0, List.take_zero]

theorem headBytes_headed (h : bs.length = 8) : (s.headed (headOf bs)).headBytes E = bs := by
  unfold HV.headBytes HV.headed
  simp only [if_true]
  rw [bytes_headOf h, List.take_of_length_le h.le]

theorem headBytes_patched (hc : s.headComplete = false) (h8 : bs.length < 8) :
    (s.patched E bs).headBytes E = bs := by
  have hlen : (overwrite (s.header.bytes E.host) 0 bs).length = 8 := by
    rw [length_overwrite (by rw [Header.length_bytes]; omega), Header.length_bytes]
  have htake := take_overwrite (l := s.header.bytes E.host) (b := bs) (Nat.zero_le _)
  rw [Nat.zero_add, List.take_zero, List.nil_append] at htake
  unfold HV.headBytes HV.patched
  simp only [hc, Bool.false_eq_true, if_false]
  rw [bytes_ofBytes _ hlen, htake]

/-! ### The value part -/

/-- What the two pushes come to, with the count written out. -/
theorem Cache.Adds.of_buffer {buf : List UInt8} (hb : c.buf = some buf) (hk : bs.length = k)
    (hfit : c.priv.widx + k ≤ buf.length) :
    c.Adds d bs d { c with
      buf := some (overwrite buf c.priv.widx bs)
      priv := { c.priv with widx := c.priv.widx + k } } := by
  subst hk
  exact .buffer hb hfit

theorem Cache.Adds.of_stream {fp j : ℕ} {st : Stream} (hb : c.buf = none) (hw : c.priv.wfp = some fp)
    (hs : d.streams fp = some st) (hk : bs.length = k) (hj : j ≤ (st.held ++ bs).length) :
    c.Adds d bs (d.writing fp st bs k j) { c with priv := { c.priv with widx := c.priv.widx + k } } := by
  subst hk
  exact .stream hb hw hs hj

/-- Of the bytes that an open stream is given it takes the first ones. -/
theorem fwrite_take {fp : ℕ} {st : Stream} (hs : d.streams fp = some st) (data : List UInt8) (m : ℕ) :
    ∃ k ≤ m, ∃ j ≤ (st.held ++ data.take k).length,
      fwrite E d fp (data.take m) = (k, d.writing fp st (data.take k) k j) := by
  have hkm : E.taken d (data.take m).length ≤ m := (E.taken_le d _).trans (List.length_take_le _ _)
  have hj := E.written_le d st (data.take m)
  rw [List.take_take, min_eq_left hkm] at hj
  refine ⟨E.taken d (data.take m).length, hkm, E.written d st (data.take m), hj, ?_⟩
  rw [fwrite_open hs]
  generalize E.taken d (data.take m).length = k at hkm
  unfold Disk.writing
  rw [List.take_take, List.take_take, min_eq_left hkm, min_self]

/-- A stream that is not open takes nothing. -/
theorem fwrite_closed {fp : ℕ} (hs : d.streams fp = none) (data : List UInt8) :
    fwrite E d fp data = (0, { d with nfwrite := d.nfwrite + 1 }) := by
  simp only [fwrite, hs]

/-- **A push** returns -1 or the number of bytes that it has stored, and these are the first. -/
theorem cachePush_adds (hc : c.Ordered m) (hm : m < 2 ^ 32) (E : LibC) (d : Disk)
    (hn : n ≤ data.length) (hi : n < 2 ^ 31) :
    ∃ k ≤ n, ∃ (ret : ℤ) (c' : Cache) (d' : Disk), cachePush E d c data n = (ret, c', d') ∧
      (ret = -1 ∨ ret = k) ∧ c.Adds d (data.take k) d' c' := by
  have hcount := hc.pushLen hm n
  have hcap := hc.capacity
  have hwidx := hc.widx_le
  have htake : ∀ k ≤ n, (data.take k).length = k := fun k hk => List.length_take_of_le (hk.trans hn)
  cases hb : c.buf with
  | some buf =>
    have hrun := cachePush_buf E d hb data n
    have hfit := (hc.inside hm).push buf hb n
    generalize c.pushLen n = k at hcount hrun hfit
    have hlen : k ≤ n := by omega
    rw [toInt_of_lt (by omega), sizeAdd_of_lt (by omega)] at hrun
    have hadds := Cache.Adds.of_buffer (d := d) hb (htake k hlen) hfit
    exact ⟨k, hlen, _, _, _, hrun, .inr rfl, hadds⟩
  | none =>
    cases hw : c.priv.wfp with
    | none => exact ⟨0, Nat.zero_le n, _, _, _, cachePush_deleted E d hb hw data n, .inl rfl, .nothing rfl⟩
    | some fp =>
      have hrun := cachePush_stream E d hb hw data n
      generalize c.pushLen n = p at hcount hrun
      have hlen : p ≤ n := by omega
      cases hs : d.streams fp with
      | none =>
        rw [fwrite_closed hs] at hrun
        dsimp only at hrun
        rw [toInt_of_lt (by omega), sizeAdd_of_lt (by omega)] at hrun
        exact ⟨0, Nat.zero_le n, _, _, _, hrun, .inr rfl, .nothing rfl⟩
      | some st =>
        obtain ⟨k, hkp, j, hj, hwr⟩ := fwrite_take (E := E) hs data p
        have hkn : k ≤ n := hkp.trans hlen
        rw [hwr] at hrun
        dsimp only at hrun
        rw [toInt_of_lt (by omega), sizeAdd_of_lt (by omega)] at hrun
        have hadds := Cache.Adds.of_stream hb hw hs (htake k hkn) hj
        exact ⟨k, hkn, _, _, _, hrun, .inr rfl, hadds⟩

/-- The value part of a call, where a cache is there or `create_cache` returns. -/
theorem writeValue_adds (hf : s.Fits) (hh : s.headComplete = true) (h1 : 0 < n) (hn : n ≤ data.length)
    (hi : n < 2 ^ 31)
    (hr : s.value = none → ∃ r, createCache E d none s.header.length.toNat .file = .ok r) :
    ∃ k ≤ n, ∃ (ret : ℤ) (s' : HV) (d' : Disk), s.writeValue E d (some data) n = .ok (ret, s', d') ∧
      (ret = -1 ∨ ret = k) ∧ s.AddsValue E d (data.take k) s' d' ∧ s'.headBytes E = s.headBytes E ∧
        s'.Fits := by
  -- the push, and what becomes of the object
  have hpush : ∀ (s₁ : HV) (d₁ : Disk) (c : Cache) (m : ℕ), s₁.value = some c → s₁.headComplete = true →
      s₁.hlen = s.hlen → c.Ordered m → m < 2 ^ 32 →
      ∃ k ≤ n, ∃ (ret : ℤ) (c' : Cache) (d' : Disk),
        s₁.writeValue E d₁ (some data) n = .ok (ret, s₁.filled c', d') ∧ (ret = -1 ∨ ret = k) ∧
        c.Adds d₁ (data.take k) d' c' ∧ (s₁.filled c').Fits := by
    intro s₁ d₁ c m hv hh₁ hlen hc hm
    obtain ⟨k, hk, ret, c', d', hrun, hret, hadds⟩ := cachePush_adds hc hm E d₁ hn hi
    have hc' := cachePush_ordered hc hm E d₁ data n
    rw [hrun] at hc'
    refine ⟨k, hk, ret, c', d', ?_, hret, hadds, ?_, ?_, ?_⟩
    · rw [writeValue_cached hh₁ hv h1, hrun]
    · exact hlen.trans_le hf.hlen
    · show s₁.headComplete = decide (s₁.hlen = 8)
      rw [hh₁, hlen, ← hf.head, hh]
    · rintro c₀ hc₀
      obtain rfl := Option.some.inj hc₀
      exact ⟨m, hm, hc'⟩
  cases hv : s.value with
  | some c =>
    obtain ⟨m, hm, hc⟩ := hf.value c hv
    obtain ⟨k, hk, ret, c', d', hrun, hret, hadds, hfits⟩ := hpush s d c m hv hh rfl hc hm
    exact ⟨k, hk, ret, _, d', hrun, hret, .cached hv rfl hadds, rfl, hfits⟩
  | none =>
    obtain ⟨⟨v, d₀⟩, hcr⟩ := hr hv
    have hrun : s.writeValue E d (some data) n = _ := writeValue_missing hh hv h1
    rw [hcr] at hrun
    cases v with
    | none =>
      exact ⟨0, Nat.zero_le n, _, _, _, hrun, .inl rfl, .none rfl (.inr hv), rfl, hf⟩
    | some c =>
      have hc := createCache_ordered hcr
      obtain ⟨k, hk, ret, c', d', hrun', hret, hadds, hfits⟩ :=
        hpush { s with value := some c } d₀ c _ rfl hh rfl hc s.header.length.toNat_lt
      exact ⟨k, hk, ret, _, d', hrun.trans hrun', hret, .made hv hcr rfl hadds, rfl, hfits⟩

/-! ### The whole call -/

/-- Of an object only its value matters for what is added to the value. -/
theorem HV.AddsValue.congr {s₁ : HV} (hv : s₁.value = s.value) (h : s₁.AddsValue E d bs s' d') :
    s.AddsValue E d bs s' d' := by
  cases h with
  | none hv' hd => exact .none (hv'.trans hv) (by rwa [hv] at hd)
  | cached hv₁ hv' hadds => exact .cached (hv ▸ hv₁) hv' hadds
  | made hv₁ hc hv' hadds => exact .made (hv ▸ hv₁) hc hv' hadds

/-- Unless it follows the null pointer, `create_cache` returns. -/
theorem createCache_returns (hd : E.calloc d.ncalloc = true → E.calloc (d.ncalloc + 1) = true) :
    ∃ r, createCache E d none n .file = .ok r :=
  createCache_returns_iff.2 fun h1 => ⟨hd h1, ['.'], rfl⟩

/-- The rest of a call that has given `off` bytes to the header, which is complete now in `s₁`. -/
theorem addOffset_stores {s₁ : HV} {off : ℕ} (hf : s₁.Fits) (hh : s₁.headComplete = true)
    (hv : s₁.value = s.value) (hb : s₁.headBytes E = s.headBytes E ++ data.take off) (hoff : off < n)
    (hn : n ≤ data.length) (hi : n < 2 ^ 31)
    (hr : s.value = none → E.calloc d.ncalloc = true → E.calloc (d.ncalloc + 1) = true) :
    ∃ k ≤ n, ∃ (ret : ℤ) (s' : HV) (d' : Disk),
      addOffset off (s₁.writeValue E d (some (data.drop off)) ((n - off : ℕ) : ℤ)) = .ok (ret, s', d') ∧
      (ret = -1 ∨ ret = k) ∧ s.Stores E d (data.take k) s' d' ∧ s'.Fits := by
  have hpos : 0 < n - off := by omega
  have hleft : n - off ≤ (data.drop off).length := by rw [List.length_drop]; omega
  obtain ⟨k, hk, ret, s', d', hrun, hret, hadds, hhead, hf'⟩ :=
    writeValue_adds (E := E) (d := d) hf hh hpos hleft (by omega) fun hnone =>
      createCache_returns (hr (hv ▸ hnone))
  have hstores : s.Stores E d (data.take (off + k)) s' d' := by
    refine ⟨data.take off, (data.drop off).take k, List.take_add, ?_, hadds.congr hv⟩
    rw [hhead, hb]
  refine ⟨off + k, by omega, ?_⟩
  rcases hret with rfl | rfl
  · refine ⟨-1, s', d', ?_, .inl rfl, hstores, hf'⟩
    simp [hrun, addOffset]
  · refine ⟨off + k, s', d', ?_, .inr (by push_cast; rfl), hstores, hf'⟩
    have hne : ¬ ((k : ℤ) = -1) := by omega
    simp [hrun, addOffset, hne]

/-- Before the header has come, it is not complete. -/
theorem HV.Fits.not_head (hf : s.Fits) (h0 : s.hlen = 0) : s.headComplete = false := by
  rw [hf.head, h0]
  rfl

theorem HV.Fits.head_of_whole (hf : s.Fits) (h8 : s.hlen = 8) : s.headComplete = true := by
  rw [hf.head, h8]
  rfl

/-- A piece of a header goes to the header whole. -/
theorem patched_stores (hf : s.Fits) (h0 : s.hlen = 0) (h8 : bs.length < 8) :
    s.Stores E d bs (s.patched E bs) d ∧ (s.patched E bs).Fits := by
  have hnc := hf.not_head h0
  refine ⟨⟨bs, [], (List.append_nil _).symm, ?_, .none rfl (.inl rfl)⟩, ?_, ?_, hf.value⟩
  · rw [headBytes_begin h0, List.nil_append, headBytes_patched hnc h8]
  · show bs.length ≤ 8
    omega
  · show s.headComplete = decide (bs.length = 8)
    rw [hnc]
    exact (decide_eq_false (by omega)).symm

/-- So do the eight bytes of a whole one. -/
theorem headed_adds (hf : s.Fits) (h0 : s.hlen = 0) (h8 : bs.length = 8) :
    (s.headed (headOf bs)).headBytes E = s.headBytes E ++ bs ∧ (s.headed (headOf bs)).Fits := by
  refine ⟨?_, le_rfl, rfl, hf.value⟩
  rw [headBytes_begin h0, List.nil_append, headBytes_headed h8]

/-- **A call of `write`** that does not go on inside a header returns -1 or the number of bytes that
it has stored, and these are the first of the buffer. -/
theorem write_stores (hf : s.Fits) (h1 : 0 < n) (hn : n ≤ data.length) (hi : n < 2 ^ 31)
    (hcut : ¬ (0 < s.hlen ∧ s.hlen < 8)) (hnull : ¬ s.NullCache E d n) :
    ∃ k ≤ n, ∃ (ret : ℤ) (s' : HV) (d' : Disk), s.write E d (some data) n = .ok (ret, s', d') ∧
      (ret = -1 ∨ ret = k) ∧ s.Stores E d (data.take k) s' d' ∧ s'.Fits := by
  have hle := hf.hlen
  have hr : 8 < s.hlen + n → s.value = none → E.calloc d.ncalloc = true →
      E.calloc (d.ncalloc + 1) = true := by
    intro h8 hv hc
    by_contra hc'
    exact hnull ⟨hv, h8, hc, by simpa using hc'⟩
  rcases Nat.eq_zero_or_pos s.hlen with h0 | hpos
  · rcases Nat.lt_or_ge n 8 with h8 | h8
    · -- the header is not whole yet
      have hlen : (data.take n).length = n := List.length_take_of_le hn
      obtain ⟨hstores, hfits⟩ := patched_stores (E := E) (d := d) hf h0 (show (data.take n).length < 8 by omega)
      exact ⟨n, le_rfl, _, _, _, write_short h0 h1 h8 hn, .inr rfl, hstores, hfits⟩
    · have hlen : (data.take 8).length = 8 := List.length_take_of_le (h8.trans hn)
      obtain ⟨hhead, hfits⟩ := headed_adds (E := E) hf h0 hlen
      rw [write_head h0 (hf.not_head h0) h8 hn]
      rcases Nat.eq_or_lt_of_le h8 with rfl | hlt
      · -- the header is all there is
        rw [Nat.sub_self, Nat.cast_zero, writeValue_nothing]
        exact ⟨8, le_rfl, _, _, _, rfl, .inr rfl,
          ⟨data.take 8, [], (List.append_nil _).symm, hhead, .none rfl (.inl rfl)⟩, hfits⟩
      · exact addOffset_stores hfits rfl rfl hhead hlt hn hi (hr (by omega))
  · have h8 : s.hlen = 8 := by omega
    have hb : s.headBytes E = s.headBytes E ++ data.take 0 := by rw [List.take_zero, List.append_nil]
    have hrest := addOffset_stores hf (hf.head_of_whole h8) rfl hb h1 hn hi (hr (by omega))
    rw [write_body h8]
    simpa using hrest

/-- A call that follows the null pointer of `create_cache` does not return. -/
theorem write_null (hf : s.Fits) (h1 : 0 < n) (hn : n ≤ data.length)
    (hcut : ¬ (0 < s.hlen ∧ s.hlen < 8)) (hnull : s.NullCache E d n) :
    s.write E d (some data) n = .error .nullDeref := by
  obtain ⟨hv, h8, hc, hc'⟩ := hnull
  have hle := hf.hlen
  -- the value part makes a cache for the header that is there now
  have hcrash : ∀ (s₁ : HV) (data : List UInt8) (m : ℕ), s₁.headComplete = true → s₁.value = none → 0 < m →
      s₁.writeValue E d (some data) m = .error .nullDeref := by
    intro s₁ data m hh hv₁ hm
    have hrun : s₁.writeValue E d (some data) m = _ := writeValue_missing hh hv₁ hm
    rw [hrun, createCache_crash hc hc']
  rcases Nat.eq_zero_or_pos s.hlen with h0 | hpos
  · rw [write_head h0 (hf.not_head h0) (by omega) hn,
      hcrash (s.headed (headOf (data.take 8))) _ _ rfl hv (by omega)]
    rfl
  · have h8 : s.hlen = 8 := by omega
    rw [write_body h8, hcrash s data n (hf.head_of_whole h8) hv h1]
    rfl

/-! ### Every state -/

theorem clear_fits (hf : s.Fits) (d : Disk) : (s.clear d).1.Fits := by
  unfold HV.clear
  dsimp only
  split
  · cases s.value with
    | none => exact ⟨Nat.zero_le 8, rfl, fun c hc => by cases hc⟩
    | some c => exact ⟨Nat.zero_le 8, rfl, fun c hc => by cases hc⟩
  · exact ⟨Nat.zero_le 8, rfl, hf.value⟩

/-- A message that is filled for sending gets a new cache, or none. -/
theorem writeMsg_fits {ret : ℤ} (hf : s.Fits) (header : Option Header) (value : Option (List UInt8))
    (hw : s.writeMsg E d header value = .ok (ret, s', d')) : s'.Fits := by
  -- the header object changes, but not how much of it has come
  have hset : ∀ (h : Header) (v : Option Cache), (∀ c, v = some c → ∃ n < 2 ^ 32, c.Ordered n) →
      ({ s with header := h, value := v } : HV).Fits := fun h v hv => ⟨hf.hlen, hf.head, hv⟩
  cases value with
  | none =>
    cases header with
    | none =>
      cases hw
      exact hf
    | some h =>
      cases hw
      exact hset _ _ hf.value
  | some data =>
    cases header with
    | none =>
      -- the null header is followed
      simp [HV.writeMsg] at hw
    | some h =>
      obtain ⟨d₁, hold⟩ := writeMsg_old (E := E) s d h data
      rw [hold] at hw
      simp only [HV.writeMsg, bind, Except.bind, pure, Except.pure] at hw
      cases hcr : createCache E d₁ none h.length.toNat .mem with
      | error f =>
        rw [hcr] at hw
        cases hw
      | ok r =>
        obtain ⟨v, d₂⟩ := r
        rw [hcr] at hw
        cases v with
        | none =>
          cases hw
          exact hset _ _ fun c hc => by cases hc
        | some c =>
          have hc := cachePush_ordered (createCache_ordered hcr) h.length.toNat_lt E d₂ data h.length.toNat
          dsimp only at hw
          split at hw
          · cases hw
            exact hset _ _ fun c hc => by cases hc
          · cases hw
            refine hset _ _ fun c' hc' => ?_
            obtain rfl := Option.some.inj hc'
            exact ⟨_, h.length.toNat_lt, hc⟩

/-- **Every state that an object can come to.** -/
theorem HV.Reached.fits (h : s.Reached) : s.Fits := by
  induction h with
  | new st h => exact ⟨Nat.zero_le 8, rfl, fun c hc => by cases hc⟩
  | @write E s s' d d' ret _ c hw ih =>
    rcases c.cases (E := E) with hnone | ⟨data, n, hp, hl, h1, hn, hi⟩
    · rw [hnone] at hw
      cases hw
      exact ih
    · rw [hp, hl] at hw
      by_cases hcut : 0 < s.hlen ∧ s.hlen < 8
      · rw [write_cut hcut.1 hcut.2 h1 hn] at hw
        cases hw
      by_cases hnull : s.NullCache E d n
      · rw [write_null ih h1 hn hcut hnull] at hw
        cases hw
      obtain ⟨k, -, ret₁, s₁, d₁, hrun, -, -, hf⟩ := write_stores ih h1 hn hi hcut hnull
      rw [hrun] at hw
      cases hw
      exact hf
  | writeMsg _ header value hw ih => exact writeMsg_fits ih header value hw
  | clear _ d ih => exact clear_fits ih d

/-- The states that are reached on one disk are among them. -/
theorem HV.Reach.reached (h : HV.Reach E s d) : s.Reached := by
  induction h with
  | new st h d => exact .new st h
  | write _ c hw ih => exact ih.write c hw
  | clear _ ih => exact ih.clear _
  | others _ _ ih => exact ih

/-! ### The loop of `handle_read` -/

variable {buf : List UInt8} {h : VirusHandler}

/-- A call of `write` inside the loop takes no more than there is. -/
theorem write_within {ret : ℤ} (hs : s.Reached) (h1 : 0 < n) (hn : n ≤ data.length) (hi : n < 2 ^ 31)
    (hw : s.write E d (some data) n = .ok (ret, s', d')) : ret = -1 ∨ 0 ≤ ret ∧ ret ≤ n := by
  by_cases hcut : 0 < s.hlen ∧ s.hlen < 8
  · rw [write_cut hcut.1 hcut.2 h1 hn] at hw
    cases hw
  by_cases hnull : s.NullCache E d n
  · rw [write_null hs.fits h1 hn hcut hnull] at hw
    cases hw
  obtain ⟨k, hk, ret₁, s₁, d₁, hrun, hret, -⟩ := write_stores hs.fits h1 hn hi hcut hnull
  rw [hrun] at hw
  cases hw
  rcases hret with rfl | rfl
  · exact .inl rfl
  · exact .inr ⟨by omega, by omega⟩

/-- What the request is when the loop goes on. -/
theorem VirusHandler.Handled.reached {h' : VirusHandler} (hh : h.Handled E s d h' d')
    (hs : s.Reached) : h'.req.Reached := by
  cases hh with
  | pending _ => exact hs
  | complete _ hr =>
    have hreq : h'.req = (s.clear d).1 := by
      rcases response_cases hr with ⟨rfl, -⟩ | ⟨-, rfl, -⟩
      · rfl
      · rfl
    rw [hreq]
    exact hs.clear d

/-- The head of the loop: bytes are left, and they are the last ones of those received. -/
structure ReadState.Inside (buf : List UInt8) (c : ReadState) : Prop where
  within : c.Within buf
  pos : 0 < c.nread
  reached : c.self.req.Reached

theorem ReadState.Inside.exists_nat {c : ReadState} (hc : c.Inside buf) :
    ∃ n : ℕ, c.nread = n ∧ 0 < n ∧ n = c.p_buf.length ∧ n ≤ buf.length := by
  obtain ⟨k, hk, hp, hn⟩ := hc.within
  have hpos := hc.pos
  have hlen : c.p_buf.length = buf.length - k := by rw [hp, List.length_drop]
  exact ⟨buf.length - k, by omega, by omega, hlen.symm, by omega⟩

/-- **An iteration** leaves the loop inside the bytes received. -/
theorem readBody_inside {c c' : ReadState} (hi : buf.length < 2 ^ 31) (hc : c.Inside buf)
    (hb : VirusHandler.readBody E c = .again c') : c'.Inside buf := by
  obtain ⟨n, hn, h1, hlen, hle⟩ := hc.exists_nat
  obtain ⟨k, hk, hp, hnread⟩ := hc.within
  have hit := readBody_iterated E c
  rw [hb] at hit
  cases hit with
  | @again wlen s d d' h' hw hne hh h0 =>
    have hw' := hw
    rw [hn] at hw'
    have hret := (write_within hc.reached h1 hlen.le (by omega) hw').resolve_left hne
    have hs : s.Reached := hc.reached.write ⟨some c.p_buf, c.nread, by simp; omega, by omega⟩ hw
    refine ⟨⟨k + wlen.toNat, by omega, ?_, ?_⟩, ?_, hh.reached hs⟩
    · show c.p_buf.drop wlen.toNat = _
      rw [hp, List.drop_drop]
    · show c.nread - wlen = _
      push_cast
      omega
    · show 0 < c.nread - wlen
      omega

/-- **`handle_read` stays inside the bytes it has received.** -/
theorem reads_within (hs : h.req.Reached) (h1 : 0 < buf.length) (hi : buf.length < 2 ^ 31) (d : Disk) :
    ReadsWithin E h d buf := by
  intro c hr
  have hinside : c.Inside buf := by
    refine hr.inv (fun c c' hc hb => readBody_inside hi hc hb) ⟨⟨0, Nat.zero_le _, rfl, ?_⟩, ?_, hs⟩
    · show (buf.length : ℤ) = _
      omega
    · show 0 < (buf.length : ℤ)
      omega
  obtain ⟨n, hn, hpos, hlen, hle⟩ := hinside.exists_nat
  refine ⟨hinside.within, fun wlen s' d' hw => ?_⟩
  rw [hn] at hw ⊢
  exact write_within hinside.reached hpos hlen.le (by omega) hw

/-- **When `write` returns what it has stored**, for any object and any answers of the library, and
`handle_read` on the same bytes stays inside of them: unless the call goes on inside a header, or
`create_cache` follows its null pointer. -/
theorem write_exact_iff (hs : s.Reached) (h1 : 1 ≤ n) (hn : n ≤ data.length) (hi : n < 2 ^ 31) :
    (WritesExactly E s d data n ∧ ∀ resp state, ReadsWithin E ⟨s, resp, state⟩ d (data.take n)) ↔
      ¬ (0 < s.hlen ∧ s.hlen < 8) ∧ ¬ s.NullCache E d n := by
  constructor
  · rintro ⟨⟨ret, s', d', hrun, -⟩, -⟩
    refine ⟨fun hcut => ?_, fun hnull => ?_⟩
    · rw [write_cut hcut.1 hcut.2 h1 hn] at hrun
      cases hrun
    · by_cases hcut : 0 < s.hlen ∧ s.hlen < 8
      · rw [write_cut hcut.1 hcut.2 h1 hn] at hrun
        cases hrun
      · rw [write_null hs.fits h1 hn hcut hnull] at hrun
        cases hrun
  · rintro ⟨hcut, hnull⟩
    obtain ⟨k, hk, ret, s', d', hrun, hret, hstores, -⟩ := write_stores hs.fits h1 hn hi hcut hnull
    have hlen : (data.take n).length = n := List.length_take_of_le hn
    refine ⟨⟨ret, s', d', hrun, k, hk, hret, hstores⟩, fun resp state => ?_⟩
    exact reads_within (h := ⟨s, resp, state⟩) hs (by omega) (by omega) d

/-- A new object and a whole frame. -/
theorem write_exact_iff_small :
    (WritesExactly .steady (.new .auto ⟨0, 0⟩) .empty smallFrame.wire 9 ∧ ∀ resp state,
        ReadsWithin .steady ⟨.new .auto ⟨0, 0⟩, resp, state⟩ .empty (smallFrame.wire.take 9)) ↔
      ¬ (0 < (HV.new .auto ⟨0, 0⟩).hlen ∧ (HV.new .auto ⟨0, 0⟩).hlen < 8) ∧
        ¬ (HV.new .auto ⟨0, 0⟩).NullCache .steady .empty 9 :=
  write_exact_iff (.new _ _) (by decide) (by decide) (by decide)

/-- The first byte of a header has come; the other seven are copied behind the header object. -/
theorem write_behind_header :
    ((HV.new .auto ⟨0, 0⟩).patched .steady [0]).Reached ∧
      ((HV.new .auto ⟨0, 0⟩).patched .steady [0]).write .steady .empty (some [0, 0, 1, 0, 0, 0, 1]) 7 =
        .error (.outside 8 7) ∧
      ¬ WritesExactly .steady ((HV.new .auto ⟨0, 0⟩).patched .steady [0]) .empty [0, 0, 1, 0, 0, 0, 1] 7 := by
  have hfirst : (HV.new .auto ⟨0, 0⟩).write .steady .empty (some [0]) ((1 : ℕ) : ℤ) =
      .ok (((1 : ℕ) : ℤ), (HV.new .auto ⟨0, 0⟩).patched .steady ([0].take 1), .empty) :=
    write_short rfl (by decide) (by decide) (by decide)
  have hrun : ((HV.new .auto ⟨0, 0⟩).patched .steady [0]).write .steady .empty
      (some [0, 0, 1, 0, 0, 0, 1]) ((7 : ℕ) : ℤ) = .error (.outside 8 7) :=
    write_cut (by decide) (by decide) (by decide) (by decide)
  refine ⟨(HV.Reached.new .auto ⟨0, 0⟩).write ⟨some [0], (1 : ℕ), by simp, by decide⟩ hfirst, hrun, ?_⟩
  rintro ⟨ret, s', d', hw, -⟩
  rw [hrun] at hw
  cases hw

end DocFerry
