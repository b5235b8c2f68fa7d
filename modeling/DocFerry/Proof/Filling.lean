import DocFerry.Proof.Backing
import DocFerry.Proof.HVInv

/-!
# The value part when the library does not fail

* `createCache_run`: the cache that is made, and its file.
* `writeValue_run`: the value part in closed form. It goes on with the cache that there is or with a
  new one (`HV.Cached`), which takes what fits.
* `Disk.Fills d c v`: the cache holds `v`, in the file that its path names and in its stream, which
  may hold the end of `v` back. `Disk.Fills.grow` is what a push makes of it, `fills_made` says that a
  new cache holds nothing.
-/

namespace DocFerry

open Bytes

variable {E : LibC} {s : HV} {d d' : Disk} {c : Cache} {data : List UInt8} {n k fp : ℕ} {st : Stream}

/-! ### A new cache -/

/-- What the file of a new cache of `n` bytes holds: zeros, and the last byte that was written. -/
def blankFile (n : ℕ) (b : UInt8) : List UInt8 := List.replicate (n - 1) 0 ++ [b]

theorem length_blankFile (n : ℕ) (b : UInt8) : (blankFile n b).length = max n 1 := by
  rw [blankFile, List.length_append, List.length_replicate, List.length_singleton]
  omega

/-- The byte that `create_cache` writes is of no variable that was set. -/
def filler (E : LibC) (n : ℕ) : List UInt8 := blankFile n E.junk

/-- The disk after a cache of `n` bytes was made. -/
def Disk.made (E : LibC) (d : Disk) (n : ℕ) : Disk :=
  ({ d with ncalloc := d.ncalloc + 2 } : Disk).making (d.newPath E ['.']) (filler E n) 0 []

/-- The cache of `n` bytes that is made next. -/
def Disk.newCache (E : LibC) (d : Disk) (n : ℕ) : Cache :=
  fileCache (d.newPath E ['.']) ['.'] n d.nstream

/-- **A cache is made** whenever one is asked for. -/
theorem createCache_run (hE : E.Succeeds) (d : Disk) (hn : n < 2 ^ 32) :
    createCache E d none n .file = .ok (some (d.newCache E n), d.made E n) := by
  have hpos : ({ d with ncalloc := d.ncalloc + 2 } : Disk).fillPos E n = n - 1 := by
    unfold Disk.fillPos
    simp only [hE.fseek, toLong_of_lt (by omega : n < 2 ^ 63), and_true]
    split <;> omega
  have hfill : overwrite [] (n - 1) ([E.junk].take (E.taken { d with ncalloc := d.ncalloc + 2 } 1)) =
      filler E n := by
    rw [hE.taken]
    simp [overwrite, filler, blankFile]
  rw [createCache_eq (hE.calloc _) (hE.calloc _) (rfl : cacheDir none = .ok ['.'])]
  simp only [StorageTo.inFile, if_true, createCacheFile_filled (E := E)
    (d := { d with ncalloc := d.ncalloc + 2 }) (hE.fopen _), Disk.filling, hE.taken, hE.fseek, hpos]
  rw [hE.taken] at hfill
  rw [hfill]
  rfl

/-- The cache with which a value of `n` bytes goes on, and the disk: the old one, or a new one. -/
inductive HV.Cached (E : LibC) (s : HV) (n : ℕ) (d : Disk) : Cache → Disk → Prop
  | old {c : Cache} (hv : s.value = some c) : HV.Cached E s n d c d
  | new (hv : s.value = none) : HV.Cached E s n d (d.newCache E n) (d.made E n)

/-- Of the request only its value counts. -/
theorem HV.Cached.of_value {s' : HV} (h : s'.Cached E n d c d') (hv : s'.value = s.value) :
    s.Cached E n d c d' := by
  cases h with
  | old hc => exact .old (hv.symm.trans hc)
  | new hc => exact .new (hv.symm.trans hc)

theorem newCache_file (E : LibC) (d : Disk) (hn : n < 2 ^ 32) : FileCache (d.made E n) (d.newCache E n) :=
  (making_fileCache _ _ _ _ _ _ hn).1

theorem HV.Cached.hasFile (h : s.Cached E n d c d') (hn : n < 2 ^ 32)
    (hv : ∀ c, s.value = some c → FileCache d c) : FileCache d' c := by
  cases h with
  | old hc => exact hv c hc
  | new => exact newCache_file E d hn

/-! ### A push -/

/-- The stream behind a cache, and its number. -/
theorem stream_inv (h : d.stream c = some st) : ∃ fp, c.priv.wfp = some fp ∧ d.streams fp = some st := by
  simpa [Disk.stream, Option.bind_eq_some_iff] using h

/-- `d` after `k` bytes of `data` were pushed into the open stream `st`, which puts as many bytes into the
file as the library likes. -/
def Disk.pushing (E : LibC) (d : Disk) (fp : ℕ) (st : Stream) (data : List UInt8) (k : ℕ) : Disk :=
  d.writing fp st data k (E.written d st (data.take k))

/-- **A push** takes what fits. -/
theorem cachePush_run (hE : E.Succeeds) (hc : FileCache d c) (hw : c.priv.wfp = some fp)
    (hs : d.streams fp = some st) (hn : n ≤ data.length) (hi : n < 2 ^ 31) :
    cachePush E d c data n = (((min (c.priv.capacity - c.priv.widx) n : ℕ) : ℤ),
      c.grow (min (c.priv.capacity - c.priv.widx) n),
      d.pushing E fp st data (min (c.priv.capacity - c.priv.widx) n)) := by
  have hle := hc.le
  have hsmall := hc.small
  set k := min (c.priv.capacity - c.priv.widx) n with hk
  have hlen : (data.take k).length = k := by
    rw [List.length_take]
    omega
  have hwr : fwrite E d fp (data.take k) = (k, d.pushing E fp st data k) := by
    rw [fwrite_open hs, hlen, hE.taken, Disk.pushing, Disk.writing, List.take_take, min_self]
    rfl
  rw [cachePush_stream E d hc.buf hw, Cache.pushLen_eq hle (by omega), ← hk, hwr]
  dsimp only
  rw [sizeAdd_of_lt (by omega), toInt_of_lt (by omega)]
  rfl

/-- **The value part** goes on with the cache that there is, or with a new one. -/
theorem writeValue_run (hE : E.Succeeds) (hh : s.headComplete = true)
    (hv : ∀ c, s.value = some c → FileCache d c) (hn : 0 < n) (hd : n ≤ data.length) (hi : n < 2 ^ 31) :
    ∃ c d₁ fp st, s.Cached E s.header.length.toNat d c d₁ ∧ FileCache d₁ c ∧
      c.priv.wfp = some fp ∧ d₁.streams fp = some st ∧ s.writeValue E d (some data) n =
        .ok (((min (c.priv.capacity - c.priv.widx) n : ℕ) : ℤ),
          s.filled (c.grow (min (c.priv.capacity - c.priv.widx) n)),
          d₁.pushing E fp st data (min (c.priv.capacity - c.priv.widx) n)) := by
  rcases Option.eq_none_or_eq_some s.value with hval | ⟨c, hval⟩
  · -- the first bytes of the value: a cache is made
    have hc : s.Cached E s.header.length.toNat d _ _ := .new hval
    have hf := hc.hasFile s.header.length.toNat_lt hv
    obtain ⟨st, hst⟩ := hf.isOpen
    obtain ⟨fp, hw, hs⟩ := stream_inv hst
    refine ⟨_, _, fp, st, hc, hf, hw, hs, ?_⟩
    rw [writeValue_missing hh hval hn, createCache_run hE d s.header.length.toNat_lt]
    dsimp only
    rw [writeValue_cached (s := { s with value := some (d.newCache E s.header.length.toNat) }) hh rfl hn,
      cachePush_run hE hf hw hs hd hi]
    rfl
  · have hf := hv c hval
    obtain ⟨st, hst⟩ := hf.isOpen
    obtain ⟨fp, hw, hs⟩ := stream_inv hst
    refine ⟨c, d, fp, st, .old hval, hf, hw, hs, ?_⟩
    rw [writeValue_cached hh hval hn, cachePush_run hE hf hw hs hd hi]

/-- Where a cache stands after it was written to. -/
theorem writing_stream (hw : c.priv.wfp = some fp) (j : ℕ) :
    (d.writing fp st data k j).stream (c.grow k) = some (st.wrote (data.take k) j) := by
  rw [Disk.stream, show (c.grow k).priv.wfp = some fp from hw, Option.bind_some, writing_stream_self]

/-- A cache keeps its stream when it is written to. -/
theorem FileCache.writing (hc : FileCache d c) (hw : c.priv.wfp = some fp)
    (hk : k ≤ c.priv.capacity - c.priv.widx) (j : ℕ) : FileCache (d.writing fp st data k j) (c.grow k) := by
  have hle := hc.le
  refine ⟨hc.buf, ⟨_, writing_stream hw j⟩, ?_, hc.small⟩
  rw [Cache.grow_widx, Cache.grow_capacity]
  omega

/-! ### What a cache holds -/

/-- The cache was filled with `v`. The file that its path names begins with `v` up to where the stream `st`
holds it back, and is blank behind that. -/
structure Filling (d : Disk) (c : Cache) (v : List UInt8) (st : Stream) : Prop where
  stream : d.stream c = some st
  start : st.start ≤ v.length
  held : st.held = v.drop st.start
  widx : c.priv.widx = v.length
  room : v.length ≤ max c.priv.capacity 1
  content : ∃ b, d.files st.file = v.take st.start ++ (blankFile c.priv.capacity b).drop st.start
  name : d.names c.path = some st.file

/-- The cache holds `v`. -/
def Disk.Fills (d : Disk) (c : Cache) (v : List UInt8) : Prop := ∃ st, Filling d c v st

/-- **A new cache** holds nothing. -/
theorem fills_made (E : LibC) (d : Disk) (n : ℕ) : (d.made E n).Fills (d.newCache E n) [] := by
  have hfile : (d.made E n).files ((d.names (d.newPath E ['.'])).getD d.nfile) = filler E n :=
    Function.update_self ..
  refine ⟨⟨(d.names (d.newPath E ['.'])).getD d.nfile, 0, [], false⟩, ?_, le_rfl, rfl, rfl, Nat.zero_le _,
    ⟨E.junk, ?_⟩, ?_⟩
  · exact Function.update_self ..
  · rw [hfile]
    rfl
  · exact Function.update_self ..

/-- What a file parted at `p` holds after the block `b` was stored there. -/
theorem overwrite_parted {u l b : List UInt8} {p : ℕ} (hp : p ≤ u.length) :
    overwrite (u.take p ++ l.drop p) p b = u.take p ++ b ++ l.drop (p + b.length) := by
  have hlen : (u.take p).length = p := List.length_take_of_le hp
  rw [overwrite_eq (by rw [List.length_append, hlen]; omega), List.take_left' hlen, ← List.drop_drop,
    List.drop_left' hlen, List.drop_drop]

/-- The file begins with what is not held back. -/
theorem Filling.front {v : List UInt8} (h : Filling d c v st) :
    (d.files st.file).take st.start = v.take st.start := by
  obtain ⟨b, hb⟩ := h.content
  rw [hb, List.take_left' (List.length_take_of_le h.start)]

/-- **With what is held back** the file begins with `v` and is blank behind it. -/
theorem Filling.seen {v : List UInt8} (h : Filling d c v st) :
    ∃ b, d.seen st = v ++ (blankFile c.priv.capacity b).drop v.length := by
  obtain ⟨b, hb⟩ := h.content
  have hle := h.start
  refine ⟨b, ?_⟩
  rw [Disk.seen, hb, h.held, overwrite_parted hle, List.take_append_drop, List.length_drop,
    Nat.add_sub_cancel' hle]

/-- **`leave_cache`** puts what is held back into the file. -/
theorem Filling.left {v : List UInt8} (h : Filling d c v st) :
    ((leaveCache d c).files st.file).take v.length = v := by
  obtain ⟨fp, hw, hs⟩ := stream_inv h.stream
  obtain ⟨b, hb⟩ := h.seen
  have hfile : (leaveCache d c).files st.file = d.seen st := by
    simp only [leaveCache, hw, fclose, hs, Function.update_self]
  rw [hfile, hb, List.take_left']
  rfl

/-- **A push** puts its bytes behind those that the cache holds. -/
theorem Disk.Fills.grow {v : List UInt8} (h : d.Fills c v) (hw : c.priv.wfp = some fp)
    (hs : d.streams fp = some st) (hk : k ≤ c.priv.capacity - c.priv.widx) (hkd : k ≤ data.length) {j : ℕ}
    (hj : j ≤ (st.held ++ data.take k).length) :
    (d.writing fp st data k j).Fills (c.grow k) (v ++ data.take k) := by
  obtain ⟨st', hstr, hstart, hheld, hwidx, hroom, ⟨b, hb⟩, hname⟩ := h
  have hsame : st' = st := by
    unfold Disk.stream at hstr
    rw [hw, Option.bind_some, hs] at hstr
    exact (Option.some.inj hstr).symm
  subst hsame
  have htake : (data.take k).length = k := List.length_take_of_le hkd
  -- all that the stream has now, of which the first `j` bytes go on into the file
  have hall : st'.held ++ data.take k = (v ++ data.take k).drop st'.start := by
    rw [hheld, List.drop_append_of_le_length hstart]
  rw [hall, List.length_drop, List.length_append, htake] at hj
  have hfile : (d.writing fp st' data k j).files st'.file =
      overwrite (d.files st'.file) st'.start ((st'.held ++ data.take k).take j) := Function.update_self ..
  refine ⟨st'.wrote (data.take k) j, writing_stream hw j, ?_, ?_, ?_, ?_, ⟨b, ?_⟩, hname⟩
  · simp only [Stream.wrote, List.length_append, htake]
    omega
  · simp only [Stream.wrote]
    rw [hall, List.drop_drop]
  · rw [List.length_append, htake, Cache.grow_widx, hwidx]
  · rw [List.length_append, htake, Cache.grow_capacity]
    omega
  · have hblock : (((v ++ data.take k).drop st'.start).take j).length = j := by
      rw [List.length_take, List.length_drop, List.length_append, htake]
      omega
    rw [Stream.wrote_file, hfile, hb, hall, overwrite_parted hstart, hblock, Cache.grow_capacity]
    simp only [Stream.wrote]
    rw [List.take_add, List.take_append_of_le_length hstart]

/-- A cache that is full of a value that is not empty has the value for its file, once nothing is held
back. -/
theorem Filling.whole {v : List UInt8} (h : Filling d c v st) (hf : cacheFull c = true) (hv : v ≠ []) :
    d.seen st = v := by
  have hfull : c.priv.widx = c.priv.capacity := by simpa [cacheFull] using hf
  have hpos := List.length_pos_iff.2 hv
  have hwidx := h.widx
  obtain ⟨b, hb⟩ := h.seen
  rw [hb, List.drop_eq_nil_of_le, List.append_nil]
  rw [length_blankFile]
  omega

end DocFerry
