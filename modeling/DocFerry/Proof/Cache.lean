import DocFerry.Model.CachePart

/-!
# What the cache calls do

One spec lemma for each call, so that the proofs above never look into
`cache_part.cpp` again.

* `cachePush_buf`, `cachePush_stream`, `cachePop_buf`, `cachePop_stream`: the calls in closed form.
* `createCache_file_cases`: a cache made for a file.
* `cachePush_file`: a push into such a cache takes a prefix of the data, as long
  as the stream lets it be.
* `createCache_mem`, `cachePush_buffer`, `cachePush_mem`: the same for memory.
-/

namespace DocFerry

open Bytes

variable {E : LibC} {d : Disk} {c : Cache}

theorem sizeSub_of_le {a b : ℕ} (h : b ≤ a) (ha : a < 2 ^ 64) : sizeSub a b = a - b := by
  unfold sizeSub; omega

theorem sizeAdd_of_lt {a b : ℕ} (h : a + b < 2 ^ 64) : sizeAdd a b = a + b := by
  unfold sizeAdd; omega

theorem toInt_of_lt {n : ℕ} (h : n < 2 ^ 31) : toInt n = n := by
  unfold toInt; rw [Int.bmod_def]; omega

/-- A size that an `int` can hold comes through it. -/
theorem intToSize_toInt {n : ℕ} (h : n < 2 ^ 31) : intToSize (toInt n) = n := by
  rw [toInt_of_lt h]
  unfold intToSize
  omega

/-- A 32-bit count above the largest `int` turns negative. -/
theorem toInt_of_ge {n : ℕ} (h : 2 ^ 31 ≤ n) (h' : n < 2 ^ 32) : toInt n = n - 2 ^ 32 := by
  unfold toInt
  rw [Int.bmod_def]
  omega

/-- The stream behind a cache. -/
def Disk.stream (d : Disk) (c : Cache) : Option Stream := c.priv.wfp.bind d.streams

/-- The bytes a file cache has taken: what its file holds up to `widx`, with the bytes that its stream
holds back. -/
def Disk.stored (d : Disk) (c : Cache) : List UInt8 :=
  match d.stream c with
  | some st => (d.seen st).take c.priv.widx
  | none => []

/-- A cache with an open stream behind it, not filled over its capacity. -/
structure FileCache (d : Disk) (c : Cache) : Prop where
  buf : c.buf = none
  isOpen : ∃ st, d.stream c = some st
  le : c.priv.widx ≤ c.priv.capacity
  small : c.priv.capacity < 2 ^ 32

/-- The stream stands where the next value byte belongs. -/
def Aligned (d : Disk) (c : Cache) : Prop :=
  ∃ st, d.stream c = some st ∧ st.pos = c.priv.widx ∧ c.priv.widx ≤ (d.seen st).length

theorem LibC.taken_le (E : LibC) (d : Disk) (n : ℕ) : E.taken d n ≤ n := by
  unfold LibC.taken
  split
  · exact le_rfl
  · exact min_le_right _ _

theorem LibC.Succeeds.taken (hE : E.Succeeds) (d : Disk) (n : ℕ) : E.taken d n = n := by
  unfold LibC.taken; rw [hE.fwrite]

/-- `st` after `bs` were written to it, `j` of the bytes that it then had going on into the file. -/
def Stream.wrote (st : Stream) (bs : List UInt8) (j : ℕ) : Stream :=
  { st with start := st.start + j, held := (st.held ++ bs).drop j }

@[simp] theorem Stream.wrote_file (st : Stream) (bs : List UInt8) (j : ℕ) : (st.wrote bs j).file = st.file := rfl

/-- `d` after a write of `k` bytes of `data` to the open stream `st`, of whose bytes `j` go on into the
file. -/
def Disk.writing (d : Disk) (fp : ℕ) (st : Stream) (data : List UInt8) (k j : ℕ) : Disk :=
  { d with
    nfwrite := d.nfwrite + 1
    files := Function.update d.files st.file
      (overwrite (d.files st.file) st.start ((st.held ++ data.take k).take j))
    streams := Function.update d.streams fp (some (st.wrote (data.take k) j)) }

theorem fwrite_open {fp : ℕ} {st : Stream} (hs : d.streams fp = some st) (data : List UInt8) :
    fwrite E d fp data = (E.taken d data.length,
      d.writing fp st data (E.taken d data.length) (E.written d st data)) := by
  simp only [fwrite, hs, Disk.writing, Stream.wrote]

/-- No more goes on into the file than the stream has. -/
theorem LibC.written_le (E : LibC) (d : Disk) (st : Stream) (data : List UInt8) :
    E.written d st data ≤ (st.held ++ data.take (E.taken d data.length)).length := by
  have hle := LibC.taken_le E d data.length
  rw [List.length_append, List.length_take, min_eq_left hle]
  unfold LibC.written
  split
  · exact Nat.zero_le _
  · exact min_le_right _ _

/-- The stream cannot put more into the file than it has. -/
theorem LibC.written_le_length (E : LibC) (d : Disk) (st : Stream) (data : List UInt8) :
    E.written d st data ≤ (st.held ++ data).length := by
  have hle := E.written_le d st data
  have htake := data.length_take_le' (E.taken d data.length)
  rw [List.length_append] at hle ⊢
  omega

theorem Stream.wrote_pos {st : Stream} {bs : List UInt8} {j : ℕ} (hj : j ≤ (st.held ++ bs).length) :
    (st.wrote bs j).pos = st.pos + bs.length := by
  rw [List.length_append] at hj
  simp only [Stream.wrote, Stream.pos, List.length_drop, List.length_append]
  omega

theorem writing_stream_self (d : Disk) (fp : ℕ) (st : Stream) (data : List UInt8) (k j : ℕ) :
    (d.writing fp st data k j).streams fp = some (st.wrote (data.take k) j) := Function.update_self ..

/-- **A write** puts its bytes where the stream stands, however many of them are held back. -/
theorem seen_writing (d : Disk) (fp : ℕ) (st : Stream) (data : List UInt8) (k : ℕ) {j : ℕ}
    (hj : j ≤ (st.held ++ data.take k).length) :
    (d.writing fp st data k j).seen (st.wrote (data.take k) j) =
      overwrite (d.seen st) st.pos (data.take k) := by
  have hfile : (d.writing fp st data k j).files st.file =
      overwrite (d.files st.file) st.start ((st.held ++ data.take k).take j) := Function.update_self ..
  have hlen : ((st.held ++ data.take k).take j).length = j := List.length_take_of_le hj
  unfold Disk.seen Stream.pos
  rw [overwrite_append, Stream.wrote_file, hfile]
  calc overwrite (overwrite (d.files st.file) st.start ((st.held ++ data.take k).take j)) (st.start + j)
        ((st.held ++ data.take k).drop j)
      = overwrite (d.files st.file) st.start
          ((st.held ++ data.take k).take j ++ (st.held ++ data.take k).drop j) := by
        rw [← overwrite_append, hlen]
    _ = overwrite (d.files st.file) st.start (st.held ++ data.take k) := by rw [List.take_append_drop]

/-- `c` with `n` more bytes in it. -/
def Cache.grow (c : Cache) (n : ℕ) : Cache := { c with priv := { c.priv with widx := c.priv.widx + n } }

@[simp] theorem Cache.grow_capacity (n : ℕ) : (c.grow n).priv.capacity = c.priv.capacity := rfl

@[simp] theorem Cache.grow_widx (n : ℕ) : (c.grow n).priv.widx = c.priv.widx + n := rfl

@[simp] theorem Cache.grow_zero : c.grow 0 = c := rfl

/-! ### The calls in closed form -/

/-- The count that `cache_push` works out for `data_len` bytes. -/
def Cache.pushLen (c : Cache) (data_len : ℕ) : ℕ :=
  let wlen := sizeSub c.priv.capacity c.priv.widx
  if wlen > data_len then data_len else wlen

/-- The count that `cache_pop` works out for `data_len` bytes. -/
def Cache.popLen (c : Cache) (data_len : ℕ) : ℕ :=
  let rlen := sizeSub c.priv.widx c.priv.ridx
  if rlen > data_len then data_len else rlen

theorem Cache.pushLen_eq_min (n : ℕ) : c.pushLen n = min (sizeSub c.priv.capacity c.priv.widx) n := by
  unfold Cache.pushLen
  dsimp only
  split <;> omega

theorem Cache.popLen_eq_min (n : ℕ) : c.popLen n = min (sizeSub c.priv.widx c.priv.ridx) n := by
  unfold Cache.popLen
  dsimp only
  split <;> omega

/-- Where the indices are in order the count is what fits. -/
theorem Cache.pushLen_eq (hle : c.priv.widx ≤ c.priv.capacity) (hcap : c.priv.capacity < 2 ^ 64) (n : ℕ) :
    c.pushLen n = min (c.priv.capacity - c.priv.widx) n := by
  rw [c.pushLen_eq_min, sizeSub_of_le hle hcap]

/-- Where the indices are in order the count is what is left. -/
theorem Cache.popLen_eq (hle : c.priv.ridx ≤ c.priv.widx) (hw : c.priv.widx < 2 ^ 64) (n : ℕ) :
    c.popLen n = min (c.priv.widx - c.priv.ridx) n := by
  rw [c.popLen_eq_min, sizeSub_of_le hle hw]

/-- A push into a buffer. -/
theorem cachePush_buf (E : LibC) (d : Disk) {buf : List UInt8} (hb : c.buf = some buf)
    (data : List UInt8) (n : ℕ) :
    cachePush E d c data n = (toInt (c.pushLen n),
      { c with
        buf := some (overwrite buf c.priv.widx (data.take (c.pushLen n)))
        priv := { c.priv with widx := sizeAdd c.priv.widx (c.pushLen n) } }, d) := by
  simp only [cachePush, hb, Cache.pushLen]

/-- A push into a stream. -/
theorem cachePush_stream (E : LibC) (d : Disk) {fp : ℕ} (hb : c.buf = none) (hw : c.priv.wfp = some fp)
    (data : List UInt8) (n : ℕ) :
    cachePush E d c data n = (toInt (fwrite E d fp (data.take (c.pushLen n))).1,
      { c with
        priv := { c.priv with
          widx := sizeAdd c.priv.widx (fwrite E d fp (data.take (c.pushLen n))).1 } },
      (fwrite E d fp (data.take (c.pushLen n))).2) := by
  simp only [cachePush, hb, hw, Cache.pushLen]

/-- A push when there is neither. -/
theorem cachePush_deleted (E : LibC) (d : Disk) (hb : c.buf = none) (hw : c.priv.wfp = none)
    (data : List UInt8) (n : ℕ) : cachePush E d c data n = (-1, c, d) := by
  simp only [cachePush, hb, hw]

/-- A pop from a buffer. -/
theorem cachePop_buf (E : LibC) (d : Disk) {buf : List UInt8} (hb : c.buf = some buf) (n : ℕ) :
    cachePop E d c n = (c.popLen n, (buf.drop c.priv.ridx).take (c.popLen n),
      { c with priv := { c.priv with ridx := sizeAdd c.priv.ridx (c.popLen n) } }, d) := by
  simp only [cachePop, hb, Cache.popLen]

/-- A pop from a stream. -/
theorem cachePop_stream (E : LibC) (d : Disk) {fp : ℕ} (hb : c.buf = none) (hw : c.priv.wfp = some fp)
    (n : ℕ) :
    cachePop E d c n = ((fread E d fp (c.popLen n)).1.length, (fread E d fp (c.popLen n)).1,
      { c with
        priv := { c.priv with
          ridx := sizeAdd c.priv.ridx (fread E d fp (c.popLen n)).1.length } },
      (fread E d fp (c.popLen n)).2) := by
  simp only [cachePop, hb, hw, Cache.popLen]

/-- A pop when there is neither. -/
theorem cachePop_deleted (E : LibC) (d : Disk) (hb : c.buf = none) (hw : c.priv.wfp = none) (n : ℕ) :
    cachePop E d c n = (2 ^ 64 - 1, [], c, d) := by
  simp only [cachePop, hb, hw]

/-- **A push into a file cache** takes a prefix of the data: what fits, or less
when the stream takes less. -/
theorem cachePush_file (h : FileCache d c) {data : List UInt8} {n : ℕ} (hn : n ≤ data.length)
    (hi : n < 2 ^ 31) :
    ∃ (k : ℕ) (d' : Disk), cachePush E d c data n = ((k : ℤ), c.grow k, d') ∧
      k = E.taken d (min (c.priv.capacity - c.priv.widx) n) ∧
      FileCache d' (c.grow k) ∧ d'.nfwrite = d.nfwrite + 1 ∧
      (Aligned d c → Aligned d' (c.grow k) ∧ d'.stored (c.grow k) = d.stored c ++ data.take k) := by
  obtain ⟨st, hst⟩ := h.isOpen
  have hle := h.le
  have hsmall := h.small
  obtain ⟨fp, hfp, hs⟩ : ∃ fp, c.priv.wfp = some fp ∧ d.streams fp = some st := by
    simpa [Disk.stream, Option.bind_eq_some_iff] using hst
  -- what fits, and of it what the stream takes
  set m := min (c.priv.capacity - c.priv.widx) n with hm
  have hwl : c.pushLen n = m := Cache.pushLen_eq hle (by omega) n
  have hlen : (data.take m).length = m := by rw [List.length_take]; omega
  set k := E.taken d m with hk
  have hkm : k ≤ m := LibC.taken_le E d m
  have htake : (data.take m).take k = data.take k := by
    rw [List.take_take, min_eq_left hkm]
  set j := E.written d st (data.take m) with hj
  have hjle : j ≤ (st.held ++ data.take k).length := by
    have := LibC.written_le E d st (data.take m)
    rwa [hlen, ← hk, htake] at this
  set d' := d.writing fp st data k j with hd'
  have hwr : fwrite E d fp (data.take m) = (k, d') := by
    rw [fwrite_open hs, hlen, ← hk, ← hj, hd', Disk.writing, htake]
    rfl
  have hst' : d'.stream (c.grow k) = some (st.wrote (data.take k) j) := by
    simp [Disk.stream, Cache.grow, hfp, hd', Disk.writing]
  refine ⟨k, d', ?_, rfl, ⟨h.buf, ⟨_, hst'⟩, ?_, hsmall⟩, rfl, ?_⟩
  · rw [cachePush_stream E d h.buf hfp, hwl, hwr]
    dsimp only
    rw [sizeAdd_of_lt (by omega), toInt_of_lt (by omega)]
    rfl
  · simp only [Cache.grow]; omega
  · -- the stream stands at `widx`, so the bytes come behind those that are stored
    rintro ⟨st₀, hst₀, hpos, hfile⟩
    obtain rfl : st₀ = st := by rw [hst] at hst₀; exact (Option.some.inj hst₀).symm
    have hfile' : st₀.pos ≤ (d.seen st₀).length := by omega
    have hklen : (data.take k).length = k := by rw [List.length_take]; omega
    have hfs : d'.seen (st₀.wrote (data.take k) j) = overwrite (d.seen st₀) st₀.pos (data.take k) :=
      seen_writing d fp st₀ data k hjle
    refine ⟨⟨_, hst', ?_, ?_⟩, ?_⟩
    · rw [Stream.wrote_pos hjle, hklen, hpos]
      rfl
    · have := le_length_overwrite (b := data.take k) hfile'
      simp only [Cache.grow_widx, hfs]; omega
    · have := take_overwrite (b := data.take k) hfile'
      rw [hklen, hpos] at this
      simp only [Disk.stored, hst', hst, Cache.grow_widx, hfs, hpos, this]

/-- A seek on a stream that holds nothing back moves it to a legal target, or leaves it where it is. -/
theorem fseek_open {fp : ℕ} {st : Stream} (hs : d.streams fp = some st) (hh : st.held = []) (x : ℤ) :
    fseek E d fp x = { d with
      nfseek := d.nfseek + 1
      streams := Function.update d.streams fp
        (some { st with start := if 0 ≤ x ∧ E.fseek d.nfseek = true then x.toNat else st.start }) } := by
  have hseen : d.seen st = d.files st.file := by
    rw [Disk.seen, hh, overwrite_nil]
  unfold fseek
  rw [hs]
  by_cases h : 0 ≤ x ∧ E.fseek d.nfseek = true
  · simp only [if_pos h, hseen, Function.update_eq_self, ← hh]
  · have hself : Function.update d.streams fp (some { st with start := st.start }) = d.streams := by
      rw [← hs, Function.update_eq_self]
    simp only [if_neg h, hself]

/-- A seek to the start writes what is held back, or does nothing. -/
theorem fseek_zero {fp : ℕ} {st : Stream} (hs : d.streams fp = some st) :
    fseek E d fp 0 =
      if E.fseek d.nfseek = true then { d with
        nfseek := d.nfseek + 1
        files := Function.update d.files st.file (d.seen st)
        streams := Function.update d.streams fp (some { st with start := 0, held := [] }) }
      else { d with nfseek := d.nfseek + 1 } := by
  unfold fseek
  rw [hs]
  by_cases h : E.fseek d.nfseek = true
  · simp [h]
  · simp [h]

/-! ### Making a cache -/

/-- `d` after a file with these contents was made under `path`, the stream to it holding back bytes that
belong at `start`. -/
def Disk.making (d : Disk) (path : List Char) (content : List UInt8) (start : ℕ) (held : List UInt8) : Disk :=
  { d with
    names := Function.update d.names path (some ((d.names path).getD d.nfile))
    files := Function.update d.files ((d.names path).getD d.nfile) content
    nfile := if d.names path = none then d.nfile + 1 else d.nfile
    streams := Function.update d.streams d.nstream (some ⟨(d.names path).getD d.nfile, start, held, false⟩)
    nstream := d.nstream + 1
    nclock := d.nclock + 1
    nfopen := d.nfopen + 1
    nfseek := d.nfseek + 2
    nfwrite := d.nfwrite + 1 }

/-- The path of a cache that is made in the directory `dir`. -/
def Disk.newPath (E : LibC) (d : Disk) (dir : List Char) : List Char :=
  cachePath dir (E.gettimeofday d.nclock)

theorem createCacheFile_closed (h : E.fopen d.nfopen = false) :
    createCacheFile E d c = (-1, { c with path := d.newPath E c.priv.dir },
      { d with nclock := d.nclock + 1, nfopen := d.nfopen + 1 }) := by
  simp only [createCacheFile, gettimeofday, fopen, h, Disk.newPath]
  rfl

/-- Where the byte goes that makes a new file of `n` bytes. -/
def Disk.fillPos (E : LibC) (d : Disk) (n : ℕ) : ℕ :=
  if 0 ≤ toLong n - 1 ∧ E.fseek d.nfseek = true then (toLong n - 1).toNat else 0

/-- The disk with the file of a new cache of `n` bytes: the filler byte is in it and the stream at its
start if the second seek works, else the byte may be held back. -/
def Disk.filling (E : LibC) (d : Disk) (path : List Char) (n : ℕ) : Disk :=
  let bs := [E.junk].take (E.taken d 1)
  let j := min (E.flushed d.nfwrite) (E.taken d 1)
  if E.fseek (d.nfseek + 1) = true then d.making path (overwrite [] (d.fillPos E n) bs) 0 []
  else d.making path (overwrite [] (d.fillPos E n) (bs.take j)) (d.fillPos E n + j) (bs.drop j)

/-- **Making the file of a cache**: the path names a file, emptied or new, to which the filler byte was
written, and a stream to it is open. -/
theorem createCacheFile_filled (h : E.fopen d.nfopen = true) :
    createCacheFile E d c =
      (if E.taken d 1 = 1 then 0 else -1,
        { c with
          path := d.newPath E c.priv.dir
          priv := { c.priv with wfp := some d.nstream } },
        d.filling E (d.newPath E c.priv.dir) c.priv.capacity) := by
  set path := d.newPath E c.priv.dir with hpath
  set f := (d.names path).getD d.nfile with hf
  generalize hn : c.priv.capacity = n
  set d₂ : Disk := { d with
    nclock := d.nclock + 1
    nfopen := d.nfopen + 1
    names := Function.update d.names path (some f)
    files := Function.update d.files f []
    nfile := if d.names path = none then d.nfile + 1 else d.nfile
    streams := Function.update d.streams d.nstream (some ⟨f, 0, [], false⟩)
    nstream := d.nstream + 1 } with hd₂
  have hopen : fopen E { d with nclock := d.nclock + 1 } path = (some d.nstream, d₂) := by
    simp only [fopen, h, if_true, hd₂, hf]
  have hs₂ : d₂.streams d.nstream = some ⟨f, 0, [], false⟩ := Function.update_self ..
  -- the filler byte, between the two seeks
  have hk₃ := fseek_open (E := E) hs₂ rfl (toLong n - 1)
  set d₃ := fseek E d₂ d.nstream (toLong n - 1) with hd₃
  set st : Stream := ⟨f, d.fillPos E n, [], false⟩ with hst
  have hs₃ : d₃.streams d.nstream = some st := by
    rw [hk₃, hst, Disk.fillPos]
    dsimp only
    rw [Function.update_self]
  have htaken : E.taken d₃ 1 = E.taken d 1 := by
    unfold LibC.taken
    rw [hk₃]
  have hwritten : E.written d₃ st [E.junk] = min (E.flushed d.nfwrite) (E.taken d 1) := by
    unfold LibC.written
    rw [if_neg (List.cons_ne_nil _ _), List.length_singleton, htaken, hk₃, hst]
    simp [hd₂]
  have hwr := fwrite_open (E := E) hs₃ [E.junk]
  rw [List.length_singleton, htaken, hwritten] at hwr
  set bs := [E.junk].take (E.taken d 1) with hbs
  set j := min (E.flushed d.nfwrite) (E.taken d 1) with hj
  have hjle : j ≤ (st.held ++ bs).length := by
    have := LibC.written_le E d₃ st [E.junk]
    rwa [List.length_singleton, htaken, hwritten] at this
  set d₄ := d₃.writing d.nstream st [E.junk] (E.taken d 1) j with hd₄
  have hs₄ : d₄.streams d.nstream = some (st.wrote bs j) := writing_stream_self ..
  have hn₄ : d₄.nfseek = d.nfseek + 1 := by rw [hd₄, hk₃]; rfl
  have hfiles : d₃.files f = [] := by rw [hk₃]; exact Function.update_self ..
  have hseen₃ : d₃.seen st = [] := by rw [Disk.seen, hst, hfiles, overwrite_nil]
  have hpos : st.pos = d.fillPos E n := by rw [hst, Stream.pos, List.length_nil, Nat.add_zero]
  have hseen : d₄.seen (st.wrote bs j) = overwrite [] (d.fillPos E n) bs := by
    rw [hd₄, hbs, seen_writing d₃ d.nstream st [E.junk] (E.taken d 1) hjle, hseen₃, hpos]
  have hmade : fseek E d₄ d.nstream 0 = d.filling E path n := by
    rw [fseek_zero hs₄, hn₄, hseen, hd₄, Disk.writing, hst, hfiles, hk₃, hd₂, Disk.filling]
    by_cases hseek : E.fseek (d.nfseek + 1) = true
    · simp only [if_pos hseek, Disk.making, Function.update_idem, ← hf, Stream.wrote, ← hbs]
    · simp only [if_neg hseek, Disk.making, Function.update_idem, ← hf, Stream.wrote, List.nil_append,
        ← hbs, ← hj]
  simp only [createCacheFile, gettimeofday, ← Disk.newPath.eq_1, ← hpath, hopen, hn, ← hd₃, hwr,
    hmade]
  split <;> simp_all

/-- The file is there whatever it holds, and the stream stands at its start if the seeks
work. -/
theorem createCacheFile_opened (h : E.fopen d.nfopen = true) :
    ∃ content start held, createCacheFile E d c =
        (if E.taken d 1 = 1 then 0 else -1,
          { c with
            path := d.newPath E c.priv.dir
            priv := { c.priv with wfp := some d.nstream } },
          d.making (d.newPath E c.priv.dir) content start held) ∧
      ((∀ i, E.fseek i = true) → start = 0 ∧ held = []) := by
  rw [createCacheFile_filled h]
  unfold Disk.filling
  by_cases hseek : E.fseek (d.nfseek + 1) = true
  · exact ⟨_, _, _, by rw [if_pos hseek], fun _ => ⟨rfl, rfl⟩⟩
  · exact ⟨_, _, _, by rw [if_neg hseek], fun hall => absurd (hall _) hseek⟩

theorem createCacheBuffer_eq :
    createCacheBuffer E d c =
      if E.malloc d.nmalloc then
        (0, { c with buf := some (List.replicate c.priv.capacity E.junk) },
          { d with nmalloc := d.nmalloc + 1 })
      else (-1, c, { d with nmalloc := d.nmalloc + 1 }) := by
  unfold createCacheBuffer malloc
  cases E.malloc d.nmalloc with
  | true => rfl
  | false => rfl

/-- A new cache in memory. -/
def bufferCache (E : LibC) (dir : List Char) (n : ℕ) : Cache :=
  ⟨[], some (List.replicate n E.junk), ⟨n, 0, 0, none, dir⟩⟩

/-- A new cache in the file `path`. -/
def fileCache (path dir : List Char) (n fp : ℕ) : Cache := ⟨path, none, ⟨n, 0, 0, some fp, dir⟩⟩

/-- Does `create_cache` make a file? -/
def StorageTo.inFile (n : ℕ) : StorageTo → Bool
  | .auto => decide (memoryCacheLen < n)
  | .mem => false
  | .shm => true
  | .file => true

/-- The ways in which `create_cache` ends. -/
inductive Created (E : LibC) (d : Disk) (cache_dir : Option (List Char)) (n : ℕ) (storage : StorageTo) :
    Except Fault (Option Cache × Disk) → Prop
  /-- the first `calloc` fails -/
  | noMemory (h : E.calloc d.ncalloc = false) :
      Created E d cache_dir n storage (.ok (none, { d with ncalloc := d.ncalloc + 1 }))
  /-- the second `calloc` fails -/
  | crash (h : E.calloc (d.ncalloc + 1) = false) : Created E d cache_dir n storage (.error .nullDeref)
  /-- the name of the directory does not fit, or is read before its start -/
  | badDir {f : Fault} (h : cacheDir cache_dir = .error f) : Created E d cache_dir n storage (.error f)
  /-- in memory -/
  | buffer {dir : List Char} (hdir : cacheDir cache_dir = .ok dir) (hs : storage.inFile n = false) :
      Created E d cache_dir n storage
        (.ok (if E.malloc d.nmalloc then some (bufferCache E dir n) else none,
          { d with ncalloc := d.ncalloc + 2, nmalloc := d.nmalloc + 1 }))
  /-- the file cannot be opened -/
  | notOpened {dir : List Char} (hdir : cacheDir cache_dir = .ok dir) (hs : storage.inFile n = true)
      (h : E.fopen d.nfopen = false) :
      Created E d cache_dir n storage
        (.ok (none, { d with ncalloc := d.ncalloc + 2, nclock := d.nclock + 1, nfopen := d.nfopen + 1 }))
  /-- the file does not take its last byte: the stream is closed again -/
  | notFilled {dir : List Char} {content held : List UInt8} {start : ℕ} (hdir : cacheDir cache_dir = .ok dir)
      (hs : storage.inFile n = true) (ho : E.fopen d.nfopen = true) (h : E.taken d 1 ≠ 1) :
      Created E d cache_dir n storage
        (.ok (none, fclose ({ d with ncalloc := d.ncalloc + 2 }.making (d.newPath E dir) content start held)
          d.nstream))
  /-- in a file -/
  | file {dir : List Char} {content held : List UInt8} {start : ℕ} (hdir : cacheDir cache_dir = .ok dir)
      (hs : storage.inFile n = true) (ho : E.fopen d.nfopen = true)
      (hpos : (∀ i, E.fseek i = true) → start = 0 ∧ held = []) :
      Created E d cache_dir n storage
        (.ok (some (fileCache (d.newPath E dir) dir n d.nstream),
          { d with ncalloc := d.ncalloc + 2 }.making (d.newPath E dir) content start held))

/-- What `create_cache` does once it has its memory. -/
theorem createCache_eq {dir : List Char} {cache_dir : Option (List Char)} {n : ℕ} {storage : StorageTo}
    (h1 : E.calloc d.ncalloc = true) (h2 : E.calloc (d.ncalloc + 1) = true)
    (hdir : cacheDir cache_dir = .ok dir) :
    createCache E d cache_dir n storage =
      (fun r : ℤ × Cache × Disk =>
        if r.1 = -1 then .ok (none, leaveCache r.2.2 r.2.1) else .ok (some r.2.1, r.2.2))
        (if storage.inFile n then
          createCacheFile E { d with ncalloc := d.ncalloc + 2 } ⟨[], none, ⟨n, 0, 0, none, dir⟩⟩
        else createCacheBuffer E { d with ncalloc := d.ncalloc + 2 } ⟨[], none, ⟨n, 0, 0, none, dir⟩⟩) := by
  cases storage with
  | auto =>
    by_cases hn : memoryCacheLen < n
    · simp only [createCache, calloc, h1, h2, hdir, bind, Except.bind, StorageTo.inFile, hn, decide_true]
      rfl
    · simp only [createCache, calloc, h1, h2, hdir, bind, Except.bind, StorageTo.inFile, hn, decide_false]
      rfl
  | mem => simp only [createCache, calloc, h1, h2, hdir, bind, Except.bind]; rfl
  | shm => simp only [createCache, calloc, h1, h2, hdir, bind, Except.bind]; rfl
  | file => simp only [createCache, calloc, h1, h2, hdir, bind, Except.bind]; rfl

section Early

variable {cache_dir : Option (List Char)} {n : ℕ} {storage : StorageTo}

theorem createCache_noMemory (h1 : E.calloc d.ncalloc = false) :
    createCache E d cache_dir n storage = .ok (none, { d with ncalloc := d.ncalloc + 1 }) := by
  simp only [createCache, calloc, h1, bind, Except.bind]
  rfl

/-- The second `calloc` fails, and its result is followed. -/
theorem createCache_crash (h1 : E.calloc d.ncalloc = true) (h2 : E.calloc (d.ncalloc + 1) = false) :
    createCache E d cache_dir n storage = .error .nullDeref := by
  simp only [createCache, calloc, h1, h2, bind, Except.bind]
  rfl

theorem createCache_badDir {f : Fault} (h1 : E.calloc d.ncalloc = true)
    (h2 : E.calloc (d.ncalloc + 1) = true) (hdir : cacheDir cache_dir = .error f) :
    createCache E d cache_dir n storage = .error f := by
  simp only [createCache, calloc, h1, h2, hdir, bind, Except.bind]
  rfl

end Early

/-- **Everything `create_cache` can do.** -/
theorem createCache_created (E : LibC) (d : Disk) (cache_dir : Option (List Char)) (n : ℕ)
    (storage : StorageTo) : Created E d cache_dir n storage (createCache E d cache_dir n storage) := by
  -- in the order of the source: the two `calloc`s, the directory, the storage
  cases h1 : E.calloc d.ncalloc with
  | false =>
    rw [createCache_noMemory h1]
    exact .noMemory h1
  | true =>
    cases h2 : E.calloc (d.ncalloc + 1) with
    | false =>
      rw [createCache_crash h1 h2]
      exact .crash h2
    | true =>
      cases hdir : cacheDir cache_dir with
      | error f =>
        rw [createCache_badDir h1 h2 hdir]
        exact .badDir hdir
      | ok dir =>
        rw [createCache_eq h1 h2 hdir]
        cases hs : storage.inFile n with
        | false =>
          have hbuf := Created.buffer (E := E) (d := d) hdir hs
          simp only [Bool.false_eq_true, if_false]
          rw [createCacheBuffer_eq]
          by_cases hm : E.malloc d.nmalloc = true
          · simpa [hm, bufferCache] using hbuf
          · simpa [hm, leaveCache] using hbuf
        | true =>
          cases ho : E.fopen d.nfopen with
          | false =>
            have hno := Created.notOpened (E := E) (d := d) hdir hs ho
            simp only [if_true]
            rw [createCacheFile_closed (d := { d with ncalloc := d.ncalloc + 2 }) ho]
            simpa [leaveCache] using hno
          | true =>
            simp only [if_true]
            obtain ⟨content, start, held, hrun, hpos⟩ := createCacheFile_opened (E := E)
              (d := { d with ncalloc := d.ncalloc + 2 }) (c := ⟨[], none, ⟨n, 0, 0, none, dir⟩⟩) ho
            have hpath : ({ d with ncalloc := d.ncalloc + 2 } : Disk).newPath E dir = d.newPath E dir := rfl
            simp only [hpath] at hrun
            rw [hrun]
            by_cases ht : E.taken d 1 = 1
            · have hok : Created E d cache_dir n storage
                  (.ok (some (fileCache (d.newPath E dir) dir n d.nstream),
                    ({ d with ncalloc := d.ncalloc + 2 } : Disk).making (d.newPath E dir) content start held)) :=
                .file hdir hs ho hpos
              rw [show E.taken { d with ncalloc := d.ncalloc + 2 } 1 = 1 from ht]
              simpa [fileCache] using hok
            · have hno : Created E d cache_dir n storage (.ok (none,
                  fclose (({ d with ncalloc := d.ncalloc + 2 } : Disk).making (d.newPath E dir) content start held)
                    d.nstream)) := .notFilled hdir hs ho ht
              rw [if_neg (show ¬ E.taken { d with ncalloc := d.ncalloc + 2 } 1 = 1 from ht)]
              simpa [leaveCache] using hno

/-- A cache that is made has a new buffer, or a new stream. -/
theorem createCache_some {cache_dir : Option (List Char)} {n : ℕ} {storage : StorageTo} {d' : Disk}
    (h : createCache E d cache_dir n storage = .ok (some c, d')) :
    (storage.inFile n = false ∧ ∃ dir, c = bufferCache E dir n) ∨
      storage.inFile n = true ∧ ∃ dir content start held, c = fileCache (d.newPath E dir) dir n d.nstream ∧
        d' = { d with ncalloc := d.ncalloc + 2 }.making (d.newPath E dir) content start held := by
  have hcr := createCache_created E d cache_dir n storage
  rw [h] at hcr
  generalize hr : (Except.ok (some c, d') : Except Fault (Option Cache × Disk)) = r at hcr
  cases hcr with
  | noMemory _ => cases hr
  | crash _ => cases hr
  | badDir _ => cases hr
  | notOpened _ _ _ => cases hr
  | notFilled _ _ _ _ => cases hr
  | buffer _ hs =>
    by_cases hm : E.malloc d.nmalloc = true
    · rw [if_pos hm] at hr
      cases hr
      exact .inl ⟨hs, _, rfl⟩
    · rw [if_neg hm] at hr
      cases hr
  | file _ hs _ _ =>
    cases hr
    exact .inr ⟨hs, _, _, _, _, rfl, rfl⟩

/-- A cache that was just made in a file is empty, and stands at its start if the seeks
work. -/
theorem making_fileCache (d : Disk) (path dir : List Char) (content : List UInt8) (start : ℕ)
    (held : List UInt8) {n : ℕ} (hn : n < 2 ^ 32) :
    FileCache (d.making path content start held) (fileCache path dir n d.nstream) ∧
      (start = 0 ∧ held = [] →
        Aligned (d.making path content start held) (fileCache path dir n d.nstream)) := by
  have hst : (d.making path content start held).stream (fileCache path dir n d.nstream) =
      some ⟨(d.names path).getD d.nfile, start, held, false⟩ := Function.update_self ..
  refine ⟨⟨rfl, ⟨_, hst⟩, Nat.zero_le _, hn⟩, ?_⟩
  rintro ⟨rfl, rfl⟩
  exact ⟨_, hst, rfl, Nat.zero_le _⟩

/-- **`create_cache` for a file** crashes on a failed second `calloc`, gives a null
pointer, for which the library has to fail, or gives an empty cache of that capacity. -/
theorem createCache_file_cases (E : LibC) (d : Disk) {n : ℕ} (hn : n < 2 ^ 32) :
    ((∃ i, E.calloc i = false) ∧ createCache E d none n .file = .error .nullDeref) ∨
      (¬ E.Succeeds ∧ ∃ d', createCache E d none n .file = .ok (none, d')) ∨
      ∃ c d', createCache E d none n .file = .ok (some c, d') ∧ FileCache d' c ∧
        c.priv.capacity = n ∧ c.priv.widx = 0 ∧ ((∀ i, E.fseek i = true) → Aligned d' c) := by
  have h := createCache_created E d none n .file
  generalize createCache E d none n .file = r at h
  cases h with
  | noMemory h => exact .inr (.inl ⟨(fun hE => by rw [hE.calloc] at h; cases h), _, rfl⟩)
  | crash h => exact .inl ⟨⟨_, h⟩, rfl⟩
  | badDir h => cases h
  | buffer _ hs => cases hs
  | notOpened _ _ h => exact .inr (.inl ⟨(fun hE => by rw [hE.fopen] at h; cases h), _, rfl⟩)
  | notFilled _ _ _ h => exact .inr (.inl ⟨fun hE => h (hE.taken d 1), _, rfl⟩)
  | @file dir content held start _ _ _ hpos =>
    obtain ⟨hfc, hal⟩ := making_fileCache { d with ncalloc := d.ncalloc + 2 } (d.newPath E dir) dir
      content start held hn
    exact .inr (.inr ⟨_, _, rfl, hfc, rfl, rfl, fun hseek => hal (hpos hseek)⟩)

/-- A fresh cache in memory. -/
def memCache (E : LibC) (n : ℕ) : Cache :=
  ⟨[], some (List.replicate n E.junk), ⟨n, 0, 0, none, ['.']⟩⟩

/-- **`create_cache` in memory**, the two `calloc` calls working. -/
theorem createCache_mem {E : LibC} {d : Disk} (n : ℕ) (hc : E.calloc d.ncalloc = true)
    (hc' : E.calloc (d.ncalloc + 1) = true) :
    createCache E d none n .mem =
      .ok (if E.malloc d.nmalloc then some (memCache E n) else none,
        { d with ncalloc := d.ncalloc + 2, nmalloc := d.nmalloc + 1 }) := by
  simp only [createCache, calloc, hc, hc', cacheDir, createCacheBuffer, malloc, bind, Except.bind]
  cases hm : E.malloc d.nmalloc <;> rfl

/-- **A push into a memory cache** takes what fits, and says so in an `int`. -/
theorem cachePush_buffer (E : LibC) (d : Disk) {buf : List UInt8} (data : List UInt8) (n : ℕ)
    (hb : c.buf = some buf) (hle : c.priv.widx ≤ c.priv.capacity) (hcap : c.priv.capacity < 2 ^ 64) :
    cachePush E d c data n =
      (toInt (min (c.priv.capacity - c.priv.widx) n),
        { c.grow (min (c.priv.capacity - c.priv.widx) n) with
          buf := some (overwrite buf c.priv.widx
            (data.take (min (c.priv.capacity - c.priv.widx) n))) }, d) := by
  rw [cachePush_buf E d hb, Cache.pushLen_eq hle hcap, sizeAdd_of_lt (by omega)]
  rfl

/-- A push of fewer than `2 ^ 31` bytes says how many it took. -/
theorem cachePush_mem (E : LibC) (d : Disk) {buf data : List UInt8} {n : ℕ} (hb : c.buf = some buf)
    (hle : c.priv.widx ≤ c.priv.capacity) (hcap : c.priv.capacity < 2 ^ 64) (hi : n < 2 ^ 31) :
    cachePush E d c data n =
      (((min (c.priv.capacity - c.priv.widx) n : ℕ) : ℤ),
        { c.grow (min (c.priv.capacity - c.priv.widx) n) with
          buf := some (overwrite buf c.priv.widx
            (data.take (min (c.priv.capacity - c.priv.widx) n))) }, d) := by
  rw [cachePush_buffer E d data n hb hle hcap, toInt_of_lt (by omega)]

end DocFerry
