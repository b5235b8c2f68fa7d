import DocFerry.Proof.Answers
import DocFerry.Proof.Streams

/-!
# After a value that gets no cache

Files fail to open, as the system likes; nothing else fails.

* `write_asked`: one call of `write` on a frame finds no cache for its value, or takes the
  bytes of the frame.
* `chunk_cases`, `recover_cases`: what comes of a chunk and of a row of chunks.
* `recovers_iff`: the frames keep their bounds and are answered if and only if every value
  without a cache lies in one chunk that ends with it.
-/

namespace DocFerry

open Prog

variable {E : LibC} {s s' : HV} {d d' : Disk} {f : Frame} {k n : ℕ} {data Y : List UInt8}

/-! ### One call of `write` -/

/-- Nothing but `fopen` fails. -/
structure LibC.OnlyOpenFails (E : LibC) : Prop where
  calloc : ∀ i, E.calloc i = true
  malloc : ∀ i, E.malloc i = true
  fseek : ∀ i, E.fseek i = true
  fwrite : ∀ i, E.fwrite i = none

/-- `E`, with every file opened. -/
def LibC.opening (E : LibC) : LibC := { E with fopen := fun _ => true }

theorem LibC.OnlyOpenFails.opening (hE : E.OnlyOpenFails) : E.opening.Succeeds :=
  ⟨hE.calloc, hE.malloc, fun _ => rfl, hE.fseek, hE.fwrite⟩

theorem fopen_opening (path : List Char) (ho : E.fopen d.nfopen = true) :
    fopen E.opening d path = fopen E d path := by
  simp only [fopen, LibC.opening, ho]

@[simp] theorem fseek_opening (fp : ℕ) (off : ℤ) : fseek E.opening d fp off = fseek E d fp off := rfl

@[simp] theorem fwrite_opening (fp : ℕ) : fwrite E.opening d fp data = fwrite E d fp data := rfl

@[simp] theorem cachePush_opening (c : Cache) (m : ℕ) :
    cachePush E.opening d c data m = cachePush E d c data m := by
  simp only [cachePush, fwrite_opening]

theorem createCacheFile_opening (c : Cache) (ho : E.fopen d.nfopen = true) :
    createCacheFile E.opening d c = createCacheFile E d c := by
  have hopen : ∀ path, fopen E.opening { d with nclock := d.nclock + 1 } path =
      fopen E { d with nclock := d.nclock + 1 } path := fun path => fopen_opening path ho
  simp only [createCacheFile, gettimeofday, hopen, fseek_opening, fwrite_opening]
  rfl

theorem createCache_opening (hE : E.OnlyOpenFails) (m : ℕ) (ho : E.fopen d.nfopen = true) :
    createCache E.opening d none m .file = createCache E d none m .file := by
  have hrun : createCache E.opening d none m .file = _ :=
    createCache_eq (E := E.opening) (hE.calloc _) (hE.calloc _) rfl
  have hrun' : createCache E d none m .file = _ := createCache_eq (hE.calloc _) (hE.calloc _) rfl
  rw [hrun, hrun']
  simp only [StorageTo.inFile, if_true]
  rw [createCacheFile_opening (d := { d with ncalloc := d.ncalloc + 2 }) _ ho]

/-- A value part that asks for no file, or gets it, does not see that others fail. -/
theorem writeValue_opening (hE : E.OnlyOpenFails) {p : Option (List UInt8)} {m : ℤ}
    (ho : s.value = none → m ≤ 0 ∨ E.fopen d.nfopen = true) :
    s.writeValue E.opening d p m = s.writeValue E d p m := by
  by_cases hm : m ≤ 0
  · cases p <;> simp only [HV.writeValue, hm, if_true]
  cases hv : s.value with
  | none =>
    have ho' := (ho hv).resolve_left hm
    simp only [HV.writeValue, hv, cachePush_opening, createCache_opening hE _ ho']
  | some c => simp only [HV.writeValue, hv, cachePush_opening]

/-- The same for a whole call. -/
theorem write_opening (hE : E.OnlyOpenFails) (hat : s.At d false f k) (hk : k = 0 ∨ 8 ≤ k) (hn : data ≠ [])
    (ho : s.value = none → k + data.length ≤ 8 ∨ E.fopen d.nfopen = true) :
    s.write E.opening d (some data) data.length = s.write E d (some data) data.length := by
  have hpos := List.length_pos_iff.2 hn
  rcases hk with rfl | h8
  · have h0 : s.hlen = 0 := by simp [hat.hlen]
    have hnc : s.headComplete = false := by simp [hat.head]
    rcases Nat.lt_or_ge data.length 8 with hlt | hge
    · rw [write_short h0 hpos hlt le_rfl, write_short h0 hpos hlt le_rfl]
      rfl
    · rw [write_head h0 hnc hge le_rfl, write_head h0 hnc hge le_rfl, writeValue_opening hE fun hv => ?_]
      exact (ho hv).imp_left fun hle => by omega
  · have h8' : s.hlen = 8 := by rw [hat.hlen]; omega
    rw [write_body h8', write_body h8', writeValue_opening hE fun hv => ?_]
    exact (ho hv).imp_left fun hle => by omega

/-- The cache of the current frame is asked for in the `n`-th call of `fopen`: it has not been
asked for, or is there. -/
def HV.Asked (E : LibC) (n : ℕ) (s : HV) (d : Disk) : Prop :=
  s.value = none ∧ d.nfopen = n ∨ s.value ≠ none ∧ d.nfopen = n + 1 ∧ E.fopen n = true

theorem HV.Asked.step {r : ℤ} (h : s.Asked E n d) (hr : r ≠ -1) (hst : HV.Streams E s d r s' d') :
    s'.Asked E n d' := by
  cases hst with
  | kept hv hd =>
    have hnone : s'.value = none ↔ s.value = none := by
      rw [← Option.map_eq_none_iff (f := fun c : Cache => c.priv.wfp), hv, Option.map_eq_none_iff]
    unfold HV.Asked
    rw [Ne, hnone, hd.nfopen]
    exact h
  | made hv ho hc _ hd =>
    rcases h with ⟨-, hn⟩ | ⟨hv', -⟩
    · refine .inr ⟨by rw [hc]; simp, by rw [hd.nfopen, hn], ?_⟩
      rw [← hn]
      exact ho
    · exact absurd hv hv'
  | lost _ _ _ => exact absurd rfl hr

/-- A value part for which no file is opened. -/
theorem writeValue_unopened (data : List UInt8) {m : ℕ} (hE : E.OnlyOpenFails) (hh : s.headComplete = true)
    (hv : s.value = none) (hm : 0 < m) (ho : E.fopen d.nfopen = false) :
    ∃ d', s.writeValue E d (some data) m = .ok (-1, s, d') ∧ d'.nfopen = d.nfopen + 1 := by
  have hno : createCache E d none s.header.length.toNat .file = _ :=
    createCache_eq (hE.calloc _) (hE.calloc _) rfl
  simp only [StorageTo.inFile, if_true] at hno
  rw [createCacheFile_closed (d := { d with ncalloc := d.ncalloc + 2 }) ho] at hno
  rw [writeValue_missing hh hv hm, hno]
  exact ⟨_, rfl, rfl⟩

/-- A call of `write` for whose value no file is opened. -/
theorem write_unopened (hE : E.OnlyOpenFails) (hat : s.At d false f k) (hk : k = 0 ∨ 8 ≤ k)
    (hv : s.value = none) (ho : E.fopen d.nfopen = false) (h8 : 8 < k + data.length) (hk8 : k ≤ 8)
    (hd : data <+: f.wire.drop k ++ Y) :
    ∃ s' d', s.write E d (some data) data.length = .ok (-1, s', d') ∧ s'.header.id = f.id ∧
      s'.value = none ∧ d'.nfopen = d.nfopen + 1 := by
  -- the bytes begin with the header, or right behind it
  rcases hk with rfl | hge
  · have h0 : s.hlen = 0 := by simp [hat.hlen]
    have hnc : s.headComplete = false := by simp [hat.head]
    have hhead := headOf_first (by omega) hd
    obtain ⟨d', hrun, hnf⟩ := writeValue_unopened (s := s.headed (headOf (data.take 8)))
      (data.drop 8) (m := data.length - 8) hE rfl hv (by omega) ho
    refine ⟨s.headed (headOf (data.take 8)), d', ?_, ?_, hv, hnf⟩
    · rw [write_head h0 hnc (by omega) le_rfl, hrun]
      rfl
    · rw [hhead]
      rfl
  · have h8' : s.hlen = 8 := by rw [hat.hlen]; omega
    obtain ⟨d', hrun, hnf⟩ := writeValue_unopened data (m := data.length) hE
      (by rw [hat.head, decide_eq_true hge]) hv (by omega) ho
    refine ⟨s, d', ?_, by rw [hat.header hge], hv, hnf⟩
    rw [write_body h8', hrun]
    rfl

/-- **One call of `write`** finds no cache for the value, which has begun, or takes the bytes
of the frame that it got. -/
theorem write_asked (hE : E.OnlyOpenFails) (hat : s.At d false f k) (hk : k = 0 ∨ 8 ≤ k)
    (ha : s.Asked E n d) (hn : data ≠ []) (hi : data.length < 2 ^ 31) (hd : data <+: f.wire.drop k ++ Y) :
    (E.fopen n = false ∧ k ≤ 8 ∧ 8 < k + data.length ∧
        ∃ s' d', s.write E d (some data) data.length = .ok (-1, s', d') ∧ s'.header.id = f.id ∧
          s'.value = none ∧ d'.nfopen = n + 1) ∨
      ∃ (m : ℕ) (s' : HV) (d' : Disk),
        s.write E d (some data) data.length = .ok ((m : ℤ), s', d') ∧
        m = min data.length (8 + f.value.length - k) ∧ After d' false f k m data.length s' ∧
        s'.Asked E n d' := by
  by_cases hfail : s.value = none ∧ 8 < k + data.length ∧ E.fopen d.nfopen = false
  · obtain ⟨hv, h8, ho⟩ := hfail
    have hnf : d.nfopen = n := by
      rcases ha with ⟨-, hnf⟩ | ⟨hv', -⟩
      · exact hnf
      · exact absurd hv hv'
    have hk8 : k ≤ 8 := by
      have hval := hat.value
      rw [hv] at hval
      cases hval with
      | none hk8 => exact hk8
    have hun := write_unopened hE hat hk hv ho h8 hk8 hd
    rw [hnf] at ho hun
    exact .inl ⟨ho, hk8, h8, hun⟩
  · -- no file is asked for, or it is opened
    have hopen : s.value = none → k + data.length ≤ 8 ∨ E.fopen d.nfopen = true := by
      intro hv
      rcases Nat.lt_or_ge 8 (k + data.length) with h8 | h8
      · exact .inr (by simpa [hv, h8] using hfail)
      · exact .inl h8
    have heq := write_opening hE hat hk hn hopen
    obtain ⟨m, s', d', hrun, hm, haft⟩ := write_at hE.opening hat hk hn hi hd (by simp)
    rw [heq] at hrun
    exact .inr ⟨m, s', d', hrun, hm, haft, ha.step (by omega) (write_streams hrun)⟩

/-! ### What the loop sees -/

/-- Reading the chunks, of which the first begins at byte `b` of the stream, the loop of
`handle_read` comes to its head in `c`, the byte at `x` being the first that is not yet read. -/
inductive Visits (E : LibC) : VirusHandler → Disk → ℕ → List (List UInt8) → ℕ → ReadState → Prop
  | here {h : VirusHandler} {d : Disk} {b x : ℕ} {p : List UInt8} {ps : List (List UInt8)} {c : ReadState}
      (hr : Loop.Reaches (VirusHandler.readBody E) ⟨h, d, p, p.length⟩ c)
      (hx : x + c.p_buf.length = b + p.length) : Visits E h d b (p :: ps) x c
  | later {h h' : VirusHandler} {d d' : Disk} {b x : ℕ} {p : List UInt8} {ps : List (List UInt8)}
      {c : ReadState} (hp : Loop.Returns (VirusHandler.readBody E) ⟨h, d, p, p.length⟩ (h', d'))
      (hv : Visits E h' d' (b + p.length) ps x c) : Visits E h d b (p :: ps) x c

/-- The call of `write` fails: the loop is left, and with it the rest of the chunk. -/
def ReadState.Fails (E : LibC) (c : ReadState) : Prop :=
  ∃ s d, c.self.req.write E c.disk (some c.p_buf) c.nread = .ok (-1, s, d)

/-- In an iteration that begins at byte `x` of the stream, no byte of a value without a cache is
read into a header, and the rest of a chunk that is left in such a frame holds no byte that is
behind the frame. The cache of the first frame is asked for in the `n`-th call of `fopen`. -/
def Framed (E : LibC) (n : ℕ) (fs : List Frame) (x : ℕ) (c : ReadState) : Prop :=
  ∀ f₁ f f₂, fs = f₁ ++ f :: f₂ → E.fopen (n + f₁.length) = false →
    (∀ y, x ≤ y → y < x + min (8 - c.self.req.hlen) c.p_buf.length →
      ¬ ((wires f₁).length + 8 ≤ y ∧ y < (wires f₁).length + f.wire.length)) ∧
    ((wires f₁).length ≤ x → x < (wires f₁).length + f.wire.length → c.Fails E →
      x + c.p_buf.length ≤ (wires f₁).length + f.wire.length)

/-- Exactly one response for each frame, in order, with its id: `INTERNAL_ERROR` if the file of
its cache could not be opened, else `OK`. -/
def Outcomes (E : LibC) (n : ℕ) (resp : List HV) (fs : List Frame) : Prop :=
  List.Forall₂ (fun r fi => HV.Answers E fi.1.id (if E.fopen fi.2 then .ok else .internalError) r) resp
    (fs.zipIdx n)

/-- Of the chunks, of which the first begins at byte `b`, one begins at byte `v` or before and
ends in front of byte `e`. -/
def EndsChunk (b v e : ℕ) (chunks : List (List UInt8)) : Prop :=
  ∃ ps p qs, chunks = ps ++ p :: qs ∧ b + ps.flatten.length ≤ v ∧ b + ps.flatten.length + p.length = e

/-- Every value without a cache lies in one chunk, which ends with it. The frames are those behind
the first `z` bytes, the chunks those behind the first `b`. -/
def FailuresEndChunks (E : LibC) (n z b : ℕ) (fs : List Frame) (chunks : List (List UInt8)) : Prop :=
  ∀ f₁ f f₂, fs = f₁ ++ f :: f₂ → E.fopen (n + f₁.length) = false →
    EndsChunk b (z + (wires f₁).length + 8) (z + (wires f₁).length + f.wire.length) chunks

/-- An iteration that begins with a frame, or in its value, and gives up at the end of the frame
only. -/
def InFrame (E : LibC) (fs : List Frame) (x : ℕ) (c : ReadState) : Prop :=
  ∃ f₁ f f₂ k, fs = f₁ ++ f :: f₂ ∧ x = (wires f₁).length + k ∧ k < f.wire.length ∧
    (k = 0 ∨ 8 ≤ k) ∧ c.self.req.hlen = min k 8 ∧
    (c.Fails E → x + c.p_buf.length = (wires f₁).length + f.wire.length)

/-- Two frames of a stream are the same one, or one ends before the other begins. -/
theorem frames_apart {fs f₁ f₂ g₁ g₂ : List Frame} {f g : Frame} (hf : fs = f₁ ++ f :: f₂)
    (hg : fs = g₁ ++ g :: g₂) :
    f₁ = g₁ ∧ f = g ∨ (wires f₁).length + f.wire.length ≤ (wires g₁).length ∨
      (wires g₁).length + g.wire.length ≤ (wires f₁).length := by
  rcases List.append_eq_append_iff.1 (hf.symm.trans hg) with ⟨c, rfl, hc⟩ | ⟨c, rfl, hc⟩
  · cases c with
    | nil => exact .inl ⟨by simp, (List.cons.inj hc).1⟩
    | cons e c =>
      obtain ⟨rfl, -⟩ := List.cons.inj hc
      refine .inr (.inl ?_)
      simp only [wires_append, wires_cons, List.length_append]
      omega
  · cases c with
    | nil => exact .inl ⟨by simp, (List.cons.inj hc).1.symm⟩
    | cons e c =>
      obtain ⟨rfl, -⟩ := List.cons.inj hc
      refine .inr (.inr ?_)
      simp only [wires_append, wires_cons, List.length_append]
      omega

theorem InFrame.framed {fs : List Frame} {x : ℕ} {c : ReadState} (h : InFrame E fs x c) :
    Framed E n fs x c := by
  obtain ⟨g₁, g, g₂, k, hg, hx, hk, hk8, hlen, hfail⟩ := h
  intro f₁ f f₂ hf _
  rw [g.length_wire] at hk
  have hap := frames_apart hf hg
  rw [f.length_wire, g.length_wire] at hap
  rw [f.length_wire]
  refine ⟨fun y hxy hy hin => ?_, fun hle hlt hc => ?_⟩
  · rw [hlen] at hy
    rcases hap with ⟨rfl, rfl⟩ | hap | hap
    · omega
    · omega
    · omega
  · have hend := hfail hc
    rw [g.length_wire] at hend
    rcases hap with ⟨rfl, rfl⟩ | hap | hap
    · omega
    · omega
    · omega

/-! ### Chunks -/

/-- The handler has read `k` bytes of the first of the frames `fs`, whose cache is asked for in the
`n`-th call of `fopen`. -/
def VirusHandler.Stands (E : LibC) (n : ℕ) (fs : List Frame) (k : ℕ) (h : VirusHandler) (d : Disk) : Prop :=
  ∀ f ∈ fs.head?, h.req.At d false f k ∧ h.req.Asked E n d

/-- A frame of less than `DEFAULT_MAX_MEMORY_CACHE` bytes that gets its cache is the last one. -/
def ShortLast (E : LibC) (n : ℕ) (fs : List Frame) : Prop :=
  ∀ f₁ f f₂, fs = f₁ ++ f :: f₂ → E.fopen (n + f₁.length) = true → f.len < defaultMaxMemoryCache →
    f₂ = []

theorem ShortLast.suffix {f₁ f₂ : List Frame} (h : ShortLast E n (f₁ ++ f₂)) :
    ShortLast E (n + f₁.length) f₂ := by
  rintro g₁ f g₂ rfl ho hlt
  refine h (f₁ ++ g₁) f g₂ (by simp) ?_ hlt
  rwa [List.length_append, ← Nat.add_assoc]

theorem Outcomes.append {as bs : List HV} {f₁ f₂ : List Frame} (h₁ : Outcomes E n as f₁)
    (h₂ : Outcomes E (n + f₁.length) bs f₂) : Outcomes E n (as ++ bs) (f₁ ++ f₂) := by
  unfold Outcomes at h₁ h₂ ⊢
  rw [List.zipIdx_append]
  exact List.rel_append h₁ h₂

theorem Outcomes.single {r : HV} (h : HV.Answers E f.id (if E.fopen n then .ok else .internalError) r) :
    Outcomes E n [r] [f] := .cons h .nil

/-- The chunk `p` is read, and brings the handler behind the frames `f₁` and to byte `k'` of the
first of the frames `f₂`. -/
structure ChunkRead (E : LibC) (n : ℕ) (h : VirusHandler) (d : Disk) (k : ℕ) (p : List UInt8)
    (f₁ f₂ : List Frame) (h' : VirusHandler) (d' : Disk) (k' : ℕ) : Prop where
  returns : Loop.Returns (VirusHandler.readBody E) ⟨h, d, p, p.length⟩ (h', d')
  pos : (wires f₁).length + k' = k + p.length
  stands : h'.Stands E (n + f₁.length) f₂ k' d'
  answers : ∃ as, h'.resp = h.resp ++ as ∧ Outcomes E n as f₁
  failures : ∀ a f c, f₁ = a ++ f :: c → E.fopen (n + a.length) = false →
    k ≤ (wires a).length + 8 ∧ c = [] ∧ k' = 0

/-- The loop is left in the frame `f` behind `f₁`, which gets no cache and does not end with the
chunk `p`: the chunk goes on behind the frame, or the handler takes the next byte for a header.
The frames are those behind the first `z` bytes. -/
structure ChunkLost (E : LibC) (n z : ℕ) (h : VirusHandler) (d : Disk) (k : ℕ) (p : List UInt8)
    (f₁ : List Frame) (f : Frame) : Prop where
  unopened : E.fopen (n + f₁.length) = false
  begins : k ≤ (wires f₁).length + 8
  reached : (wires f₁).length + 8 < k + p.length
  lost : (wires f₁).length + f.wire.length < k + p.length ∧
      (∃ x c, Loop.Reaches (VirusHandler.readBody E) ⟨h, d, p, p.length⟩ c ∧
        x + c.p_buf.length = z + k + p.length ∧ z + (wires f₁).length ≤ x ∧
        x < z + (wires f₁).length + f.wire.length ∧ c.Fails E) ∨
    k + p.length < (wires f₁).length + f.wire.length ∧
      ∃ h' d', Loop.Returns (VirusHandler.readBody E) ⟨h, d, p, p.length⟩ (h', d') ∧ h'.req.hlen = 0

variable {h : VirusHandler} {p : List UInt8} {done rest : List Frame}

/-- The first iteration on a chunk. -/
theorem inFrame_head {x : ℕ} (hat : h.req.At d false f k) (hk : k = 0 ∨ 8 ≤ k) (hkl : k < f.wire.length)
    (hfail : ReadState.Fails E ⟨h, d, p, p.length⟩ → k + p.length = f.wire.length)
    (hx : x + p.length = (wires done).length + k + p.length) :
    InFrame E (done ++ f :: rest) x ⟨h, d, p, p.length⟩ := by
  refine ⟨done, f, rest, k, rfl, Nat.add_right_cancel hx, hkl, hk, hat.hlen, fun hf => ?_⟩
  have hend := hfail hf
  change x + p.length = _
  omega

/-- **A frame that gets no cache** leaves the loop. -/
theorem chunk_failed (hE : E.OnlyOpenFails) (hat : h.req.At d false f k) (hk : k = 0 ∨ 8 ≤ k)
    (hkl : k < f.wire.length) (hk8 : k ≤ 8) (h8 : 8 < k + p.length) (ho : E.fopen n = false)
    (hrun : h.req.write E d (some p) p.length = .ok (-1, s', d')) (hid : s'.header.id = f.id)
    (hv : s'.value = none) (hnf : d'.nfopen = n + 1) :
    ((∃ h' d', ChunkRead E n h d k p [f] rest h' d' 0) ∧
        ∀ x c, Loop.Reaches (VirusHandler.readBody E) ⟨h, d, p, p.length⟩ c →
          x + c.p_buf.length = (wires done).length + k + p.length → InFrame E (done ++ f :: rest) x c) ∨
      ChunkLost E n (wires done).length h d k p [] f := by
  have hbody := readBody_failed (c := ⟨h, d, p, p.length⟩) hE.calloc hrun
  have hret := Loop.returns_done hbody
  have hcl := clear_empty (d := d') hv
  rcases Nat.lt_trichotomy (k + p.length) f.wire.length with hlt | heq | hgt
  · -- the chunk ends inside the value: the rest of it is taken for a header
    refine .inr ⟨ho, by simpa using hk8, by simpa using h8, .inr ⟨by simpa using hlt, _, _, hret, ?_⟩⟩
    simp only [VirusHandler.failed, hcl]
  · -- the chunk ends with the value
    refine .inl ⟨⟨_, _, hret, by simp [heq], ?_, ⟨_, rfl, ?_⟩, ?_⟩, fun x c hr hx => ?_⟩
    · intro g _
      have hnone : (h.failed E s' d').req.value = none := by simp only [VirusHandler.failed, hcl, hv]
      refine ⟨?_, .inl ⟨hnone, ?_⟩⟩
      · simp only [VirusHandler.failed, hcl]
        exact ⟨rfl, rfl, by simp, by simp, rfl, by simp only [hv]; exact .none (Nat.zero_le _)⟩
      · simp only [hcl, Disk.replied, hnf, List.length_singleton]
    · refine .single ?_
      rw [ho, hE.malloc, hid]
      exact HV.replyTo_answers E f.id .internalError
    · intro a g c hsplit _
      cases a with
      | nil =>
        obtain ⟨-, rfl⟩ := List.cons.inj hsplit
        exact ⟨by simpa using hk8, rfl, rfl⟩
      | cons e a => simp at hsplit
    · obtain rfl := hr.of_done hbody
      exact inFrame_head hat hk hkl (fun _ => heq) hx
  · -- the chunk goes on behind the value
    refine .inr ⟨ho, by simpa using hk8, by simpa using h8, .inl ⟨by simpa using hgt,
      (wires done).length + k, _, .refl _, rfl, by simp, by simp; simpa using hkl, s', d', hrun⟩⟩

/-- A request whose frame is complete is ready for the next one, if there is one. -/
theorem stands_answered (hdone : s'.Done d' false f) (ha : s'.Asked E n d')
    (hshort : E.fopen n = true → f.len < defaultMaxMemoryCache → rest = []) :
    E.fopen n = true ∧
      (h.answered E s' d').Stands E (n + 1) rest 0 (s'.clear d').2.replied := by
  obtain ⟨c, hv, -⟩ := hdone.value
  rcases ha with ⟨hv', -⟩ | ⟨-, hnf, ho⟩
  · rw [hv] at hv'
    cases hv'
  refine ⟨ho, fun g hg => ?_⟩
  by_cases hlt : f.len < defaultMaxMemoryCache
  · rw [hshort ho hlt] at hg
    cases hg
  · have hat := hdone.clear_at g
    rw [decide_eq_false hlt] at hat
    obtain ⟨-, -, -, hnf'⟩ := clear_keeps s' d'
    refine ⟨hat, .inl ⟨?_, by simp only [Disk.replied, hnf', hnf]⟩⟩
    have hst := hdone.storage
    rw [if_neg hlt] at hst
    simp only [VirusHandler.answered, clear_file hst]

/-- One more frame, complete and answered, in front of a chunk that is read. -/
theorem ChunkRead.cons {m k' : ℕ} {h₁ h' : VirusHandler} {d₁ : Disk} {r : HV} {f₁ f₂ : List Frame}
    (hread : ChunkRead E (n + 1) h₁ d₁ 0 (p.drop m) f₁ f₂ h' d' k')
    (hbody : VirusHandler.readBody E ⟨h, d, p, p.length⟩ = .again ⟨h₁, d₁, p.drop m, (p.drop m).length⟩)
    (hm : k + m = f.wire.length) (hmp : m ≤ p.length) (ho : E.fopen n = true)
    (hans : HV.Answers E f.id (if E.fopen n then .ok else .internalError) r)
    (hresp : h₁.resp = h.resp ++ [r]) : ChunkRead E n h d k p (f :: f₁) f₂ h' d' k' := by
  obtain ⟨hret, hpos, hstands, ⟨as, has, hout⟩, hfail⟩ := hread
  rw [List.length_drop] at hpos
  refine ⟨(Loop.returns_again hbody).2 hret, ?_, ?_, ⟨r :: as, ?_, ?_⟩, ?_⟩
  · rw [wires_cons, List.length_append]
    omega
  · rw [List.length_cons]
    rwa [Nat.add_assoc, Nat.add_comm 1] at hstands
  · rw [has, hresp]
    simp
  · have hone : Outcomes E n [r] [f] := .single hans
    exact hone.append hout
  · -- a failure is one of the frames behind, since the first one is answered
    intro a g c hsplit hno
    cases a with
    | nil =>
      obtain ⟨rfl, -⟩ := List.cons.inj hsplit
      rw [List.length_nil, Nat.add_zero, ho] at hno
      cases hno
    | cons e a =>
      obtain ⟨rfl, hf₁⟩ := List.cons.inj hsplit
      rw [List.length_cons, Nat.add_comm a.length, ← Nat.add_assoc] at hno
      obtain ⟨-, hc, hk'⟩ := hfail a g c hf₁ hno
      refine ⟨?_, hc, hk'⟩
      rw [wires_cons, List.length_append]
      omega

/-- The same in front of a chunk that is lost. -/
theorem ChunkLost.cons {m z : ℕ} {h₁ : VirusHandler} {d₁ : Disk} {f₁ : List Frame} {g : Frame}
    (hlost : ChunkLost E (n + 1) (z + f.wire.length) h₁ d₁ 0 (p.drop m) f₁ g)
    (hbody : VirusHandler.readBody E ⟨h, d, p, p.length⟩ = .again ⟨h₁, d₁, p.drop m, (p.drop m).length⟩)
    (hm : k + m = f.wire.length) (hmp : m ≤ p.length) : ChunkLost E n z h d k p (f :: f₁) g := by
  have hlen : (p.drop m).length = p.length - m := List.length_drop
  obtain ⟨ho, hbegins, hreached, hlost⟩ := hlost
  refine ⟨?_, ?_, ?_, ?_⟩
  · rwa [List.length_cons, Nat.add_comm f₁.length, ← Nat.add_assoc]
  · rw [wires_cons, List.length_append]
    omega
  · rw [wires_cons, List.length_append]
    omega
  · simp only [wires_cons, List.length_append]
    rcases hlost with ⟨hgt, x, c, hr, hx, hle, hlt, hfail⟩ | ⟨hlt, h', d', hret, h0⟩
    · exact .inl ⟨by omega, x, c, .step hbody hr, by omega, by omega, by omega, hfail⟩
    · exact .inr ⟨by omega, h', d', (Loop.returns_again hbody).2 hret, h0⟩

/-- **A chunk** is read whole, each frame that it completes being answered, or the loop is left in
a frame that gets no cache and does not end with it. -/
theorem chunk_cases (done : List Frame) (hE : E.OnlyOpenFails) (hshort : ShortLast E n rest)
    (hvals : ∀ f ∈ rest, f.value ≠ []) (hst : h.Stands E n rest k d) (hk : k = 0 ∨ 8 ≤ k) (hp : p ≠ [])
    (hint : p.length < 2 ^ 31) (hpre : p <+: (wires rest).drop k) :
    (∃ f₁ f₂ h' d' k', rest = f₁ ++ f₂ ∧ ChunkRead E n h d k p f₁ f₂ h' d' k' ∧
        ∀ x c, Loop.Reaches (VirusHandler.readBody E) ⟨h, d, p, p.length⟩ c →
          x + c.p_buf.length = (wires done).length + k + p.length → InFrame E (done ++ rest) x c) ∨
      ∃ f₁ f f₂, rest = f₁ ++ f :: f₂ ∧ ChunkLost E n (wires done).length h d k p f₁ f := by
  induction rest generalizing n done h d p k with
  | nil =>
    -- no byte is left
    rw [wires_nil, List.drop_nil, List.prefix_nil] at hpre
    exact absurd hpre hp
  | cons f rest ih =>
    obtain ⟨hat, ha⟩ := hst f rfl
    have hpos := List.length_pos_iff.2 hp
    have hfne : 0 < f.value.length := List.length_pos_iff.2 (hvals f List.mem_cons_self)
    have hkl : k < f.wire.length := by
      rw [f.length_wire]
      rcases hat.value.bound with hb | hb <;> omega
    rw [wires_cons, List.drop_append_of_le_length hkl.le] at hpre
    rcases write_asked hE hat hk ha hp hint hpre with
      ⟨ho, hk8, h8, s', d', hrun, hid, hv, hnf⟩ | ⟨m, s', d', hrun, hm, haft, ha'⟩
    · rcases chunk_failed hE hat hk hkl hk8 h8 ho hrun hid hv hnf with ⟨⟨h', d'', hread⟩, hin⟩ | hlost
      · exact .inl ⟨[f], rest, h', d'', 0, rfl, hread, hin⟩
      · exact .inr ⟨[], f, rest, rfl, hlost⟩
    -- the first iteration does not fail
    have hnofail : ReadState.Fails E ⟨h, d, p, p.length⟩ → k + p.length = f.wire.length := by
      rintro ⟨s₁, d₁, hfail⟩
      have heq : Except.ok (((m : ℕ) : ℤ), s', d') = Except.ok (-1, s₁, d₁) := hrun.symm.trans hfail
      have := (Prod.mk.inj (Except.ok.inj heq)).1
      omega
    rcases haft with ⟨hend, -, hdone⟩ | ⟨hpend, hat'⟩
    · -- the frame is complete and is answered
      have hbody := readBody_complete (c := ⟨h, d, p, p.length⟩) hE.calloc hrun hdone.isComplete
      obtain ⟨ho, hnext⟩ := stands_answered (h := h) hdone ha' (hshort [] f rest rfl)
      have hans : HV.Answers E f.id (if E.fopen n then .ok else .internalError)
          (HV.replyTo E s'.header.id .ok (E.malloc d'.nmalloc)) := by
        rw [ho, hE.malloc, hdone.header]
        exact HV.replyTo_answers E f.id .ok
      have hfl := f.length_wire
      by_cases hm0 : (p.length : ℤ) - m = 0
      · rw [if_pos hm0] at hbody
        refine .inl ⟨[f], rest, _, _, 0, rfl, ⟨Loop.returns_done hbody, ?_, hnext, ⟨_, rfl, .single hans⟩, ?_⟩,
          fun x c hr hx => ?_⟩
        · simp only [wires_cons, wires_nil, List.append_nil]
          omega
        · intro a g c hsplit hno
          cases a with
          | nil =>
            obtain ⟨rfl, -⟩ := List.cons.inj hsplit
            rw [List.length_nil, Nat.add_zero, ho] at hno
            cases hno
          | cons e a => simp at hsplit
        · obtain rfl := hr.of_done hbody
          exact inFrame_head hat hk hkl hnofail hx
      · rw [if_neg hm0] at hbody
        -- the loop goes on with the next frame
        have hpre' : p.drop m <+: (wires rest).drop 0 := by
          have hdrop : (f.wire.drop k).length = m := by rw [List.length_drop]; omega
          have h1 := hpre.drop m
          rwa [List.drop_left' hdrop] at h1
        have hlen' : (p.drop m).length = p.length - m := List.length_drop
        have hagain : VirusHandler.readBody E ⟨h, d, p, p.length⟩ =
            .again ⟨h.answered E s' d', (s'.clear d').2.replied, p.drop m, (p.drop m).length⟩ := by
          rw [hbody, ReadState.next, hlen', Nat.cast_sub (by omega)]
        have hshort' : ShortLast E n ([f] ++ rest) := hshort
        have hwf : (wires (done ++ [f])).length = (wires done).length + f.wire.length := by
          simp only [wires_append, wires_cons, wires_nil, List.append_nil, List.length_append]
        rcases ih (done ++ [f]) hshort'.suffix (fun g hg => hvals g (List.mem_cons_of_mem _ hg))
            hnext (.inl rfl) (List.ne_nil_of_length_pos (by omega)) (by omega) hpre' with
          ⟨f₁, f₂, h', d'', k', rfl, hread, hin⟩ | ⟨f₁, g, f₂, rfl, hlost⟩
        · refine .inl ⟨f :: f₁, f₂, h', d'', k', rfl,
            hread.cons hagain (by omega) (by omega) ho hans rfl, fun x c hr hx => ?_⟩
          rcases hr.of_again hagain with rfl | hr
          · exact inFrame_head hat hk hkl hnofail hx
          · have := hin x c hr (by omega)
            rwa [List.append_assoc] at this
        · rw [hwf] at hlost
          exact .inr ⟨f :: f₁, g, f₂, rfl, hlost.cons hagain (by omega) (by omega)⟩
    · -- the chunk ends inside the frame
      obtain rfl : m = p.length := by
        rcases hpend with hlt | ⟨hnil, -⟩
        · omega
        · rw [hnil, List.length_nil] at hfne
          omega
      have hbody := readBody_last (c := ⟨h, d, p, p.length⟩) hrun hat'.not_complete rfl
      refine .inl ⟨[], f :: rest, _, d', k + p.length, rfl, ⟨Loop.returns_done hbody, by simp, ?_,
        ⟨[], by simp, .nil⟩, ?_⟩, fun x c hr hx => ?_⟩
      · rintro g ⟨⟩
        exact ⟨hat', ha'⟩
      · intro a g c hsplit
        simp at hsplit
      · obtain rfl := hr.of_done hbody
        exact inFrame_head hat hk hkl hnofail hx

/-! ### Rows of chunks -/

variable {ps : List (List UInt8)} {b v e : ℕ}

/-- A value that ends behind the first chunk lies in one of the others. -/
theorem endsChunk_cons (he : b + p.length < e) :
    EndsChunk b v e (p :: ps) ↔ EndsChunk (b + p.length) v e ps := by
  constructor
  · rintro ⟨qs, q, rs, hsplit, hv, hend⟩
    cases qs with
    | nil =>
      obtain ⟨rfl, -⟩ := List.cons.inj hsplit
      rw [List.flatten_nil, List.length_nil] at hend
      omega
    | cons q' qs =>
      obtain ⟨rfl, rfl⟩ := List.cons.inj hsplit
      rw [List.flatten_cons, List.length_append] at hv hend
      exact ⟨qs, q, rs, rfl, by omega, by omega⟩
  · rintro ⟨qs, q, rs, rfl, hv, hend⟩
    refine ⟨p :: qs, q, rs, rfl, ?_, ?_⟩
    · rw [List.flatten_cons, List.length_append]
      omega
    · rw [List.flatten_cons, List.length_append]
      omega

/-- A value that begins in the first chunk lies in it, or in no chunk that ends with it. -/
theorem EndsChunk.first (h : EndsChunk b v e (p :: ps)) (hv : v < b + p.length) : b + p.length = e := by
  obtain ⟨qs, q, rs, hsplit, hle, hend⟩ := h
  cases qs with
  | nil =>
    obtain ⟨rfl, -⟩ := List.cons.inj hsplit
    simpa using hend
  | cons q' qs =>
    obtain ⟨rfl, -⟩ := List.cons.inj hsplit
    rw [List.flatten_cons, List.length_append] at hle
    omega

/-- **The first chunk taken off**, which brought the handler to byte `k'` of the first of the
frames `f₂`. -/
theorem failuresEndChunks_cons (z : ℕ) (ps : List (List UInt8)) {k' : ℕ} {f₁ f₂ : List Frame}
    {h' : VirusHandler} (hread : ChunkRead E n h d k p f₁ f₂ h' d' k')
    (hk' : ∀ f ∈ f₂.head?, k' < f.wire.length) :
    FailuresEndChunks E n z (z + k) (f₁ ++ f₂) (p :: ps) ↔
      FailuresEndChunks E (n + f₁.length) (z + (wires f₁).length) (z + k + p.length) f₂ ps := by
  have hpos := hread.pos
  -- a frame that is left ends behind the chunk
  have hbehind : ∀ a f c, f₂ = a ++ f :: c → k' < (wires a).length + f.wire.length := by
    rintro a f c rfl
    cases a with
    | nil => simpa using hk' f rfl
    | cons g a =>
      have := hk' g rfl
      rw [wires_cons, List.length_append]
      omega
  constructor
  · rintro hends a f c rfl hno
    have hin := hends (f₁ ++ a) f c (by simp) (by rwa [List.length_append, ← Nat.add_assoc])
    have := hbehind a f c rfl
    rw [wires_append, List.length_append, ← Nat.add_assoc, endsChunk_cons (by omega)] at hin
    exact hin
  · intro hends a f c hsplit hno
    rcases List.append_eq_append_iff.1 hsplit with ⟨b, rfl, hb⟩ | ⟨b, rfl, hb⟩
    · -- the frame is left
      have := hbehind b f c hb
      have hin := hends b f c hb (by rwa [List.length_append, ← Nat.add_assoc] at hno)
      rw [wires_append, List.length_append, ← Nat.add_assoc, endsChunk_cons (by omega)]
      exact hin
    · cases b with
      | nil =>
        have hlt := hbehind [] f c hb.symm
        have hin := hends [] f c hb.symm (by simpa using hno)
        simp only [wires_nil, List.length_nil, Nat.add_zero, Nat.zero_add, List.append_nil] at hin hlt hpos
        rw [endsChunk_cons (by omega)]
        exact hin
      | cons g b =>
        -- the frame ends with the chunk
        obtain ⟨rfl, -⟩ := List.cons.inj hb
        obtain ⟨hle, rfl, rfl⟩ := hread.failures a f b rfl hno
        rw [wires_append, wires_cons, wires_nil, List.append_nil, List.length_append] at hpos
        exact ⟨[], p, ps, rfl, by simp; omega, by simp at hpos ⊢; omega⟩

/-- A handler that stands in a frame is not at its end. -/
theorem VirusHandler.Stands.lt (hst : h.Stands E n rest k d) (hvals : ∀ f ∈ rest, f.value ≠ []) :
    ∀ f ∈ rest.head?, k < f.wire.length := by
  intro f hf
  obtain ⟨hat, -⟩ := hst f hf
  have hfne : 0 < f.value.length := List.length_pos_iff.2 (hvals f (List.mem_of_mem_head? hf))
  rw [f.length_wire]
  rcases hat.value.bound with hb | hb <;> omega

/-- **A chunk that is lost** is followed by an iteration that takes a value byte for a header, or
takes bytes of a following frame with it; and it does not end with the value. -/
theorem ChunkLost.unframed {n₀ : ℕ} {f₁ f₂ : List Frame}
    (hlost : ChunkLost E n (wires done).length h d k p f₁ f) (hrest : rest = f₁ ++ f :: f₂)
    (hn : n = n₀ + done.length) (hcut : IsCut 65535 ((wires rest).drop k) (p :: ps)) :
    (∃ x c, Visits E h d ((wires done).length + k) (p :: ps) x c ∧ ¬ Framed E n₀ (done ++ rest) x c) ∧
      ¬ FailuresEndChunks E n (wires done).length ((wires done).length + k) rest (p :: ps) := by
  obtain ⟨ho, hbegins, hreached, hlost⟩ := hlost
  have hsplit : done ++ rest = (done ++ f₁) ++ f :: f₂ := by rw [hrest, List.append_assoc]
  have hwires : (wires (done ++ f₁)).length = (wires done).length + (wires f₁).length := by
    rw [wires_append, List.length_append]
  have hno : E.fopen (n₀ + (done ++ f₁).length) = false := by
    rwa [List.length_append, ← Nat.add_assoc, ← hn]
  constructor
  · rcases hlost with ⟨hgt, x, c, hr, hx, hle, hlt, hfail⟩ | ⟨hlt, h', d', hret, h0⟩
    · -- the bytes behind the frame are left with the chunk
      refine ⟨x, c, .here hr hx, fun hframed => ?_⟩
      have hend := (hframed _ f f₂ hsplit hno).2 (by omega) (by omega) hfail
      omega
    · -- the next chunk begins inside the value
      have hbytes := congrArg List.length hcut.flatten
      rw [List.flatten_cons, List.length_append, List.length_drop, hrest, wires_append, wires_cons,
        List.length_append, List.length_append] at hbytes
      obtain ⟨q, qs, rfl⟩ : ∃ q qs, ps = q :: qs := by
        apply List.exists_cons_of_ne_nil
        rintro rfl
        rw [List.flatten_nil, List.length_nil] at hbytes
        omega
      have hq := List.length_pos_iff.2 hcut.tail.head_ne_nil
      refine ⟨(wires done).length + k + p.length, ⟨h', d', q, q.length⟩, .later hret (.here (.refl _) rfl),
        fun hframed => ?_⟩
      refine (hframed _ f f₂ hsplit hno).1 _ le_rfl ?_ ⟨by omega, by omega⟩
      simp only [h0]
      omega
  · intro hends
    have hend := (hends f₁ f f₂ hrest ho).first (by omega)
    rcases hlost with ⟨hgt, -⟩ | ⟨hlt, -⟩
    · omega
    · omega

/-- **A row of chunks** is read, the frames keep their bounds and each has its response; or some
value that gets no cache does not end with its chunk, and is not contained. -/
theorem recover_cases (done : List Frame) {n₀ : ℕ} (hE : E.OnlyOpenFails) (hn : n = n₀ + done.length)
    (hshort : ShortLast E n rest) (hvals : ∀ f ∈ rest, f.value ≠ []) (hst : h.Stands E n rest k d)
    (hk : ps ≠ [] → k = 0 ∨ 8 ≤ k) (hcut : IsCut 65535 ((wires rest).drop k) ps)
    (hwhole : WholeFrom k rest ps) :
    (FailuresEndChunks E n (wires done).length ((wires done).length + k) rest ps ∧
        (∃ h' d' as, Reads E h d ps h' d' ∧ h'.resp = h.resp ++ as ∧ Outcomes E n as rest) ∧
        ∀ x c, Visits E h d ((wires done).length + k) ps x c → InFrame E (done ++ rest) x c) ∨
      (∃ x c, Visits E h d ((wires done).length + k) ps x c ∧ ¬ Framed E n₀ (done ++ rest) x c) ∧
        ¬ FailuresEndChunks E n (wires done).length ((wires done).length + k) rest ps := by
  induction ps generalizing n done rest h d k with
  | nil =>
    -- no byte is left, and so no frame
    have hle := List.drop_eq_nil_iff.1 hcut.eq_nil
    have hlt := hst.lt hvals
    cases rest with
    | nil =>
      refine .inl ⟨?_, ⟨h, d, [], .nil h d, by simp, .nil⟩, fun x c hv => by cases hv⟩
      intro f₁ f f₂ hsplit
      simp at hsplit
    | cons f rest =>
      have := hlt f rfl
      rw [wires_cons, List.length_append] at hle
      omega
  | cons p ps ih =>
    have hp := hcut.head_ne_nil
    have hple := hcut.head_le
    rcases chunk_cases done hE hshort hvals hst (hk (by simp)) hp (by omega) hcut.head_prefix with
      ⟨f₁, f₂, h₁, d₁, k₁, rfl, hread, hin⟩ | ⟨f₁, f, f₂, hsplit, hlost⟩
    · have hpos := hread.pos
      have hvals' : ∀ f ∈ f₂, f.value ≠ [] := fun f hf => hvals f (List.mem_append_right _ hf)
      have hlt := hread.stands.lt hvals'
      obtain ⟨hk₁, hwhole'⟩ := (wholeFrom_cons hpos fun f hf => (hlt f hf).le).1 hwhole
      have hdrop : ((wires (f₁ ++ f₂)).drop k).drop p.length = (wires f₂).drop k₁ := by
        rw [List.drop_drop, ← hpos, wires_append, List.drop_append]
        simp
      have hcut' := hcut.tail
      rw [hdrop] at hcut'
      have hbase : (wires (done ++ f₁)).length + k₁ = (wires done).length + k + p.length := by
        rw [wires_append, List.length_append]
        omega
      have hends := failuresEndChunks_cons (wires done).length ps hread hlt
      obtain ⟨as, has, hout⟩ := hread.answers
      have hih := ih (done ++ f₁) (by rw [List.length_append, hn, Nat.add_assoc]) hshort.suffix hvals'
        hread.stands hk₁ hcut' hwhole'
      rw [hbase, wires_append, List.length_append, ← hends, List.append_assoc] at hih
      rcases hih with ⟨hend, ⟨h', d', bs, hreads, hbs, hout'⟩, hin'⟩ | ⟨⟨x, c, hv, hno⟩, hend⟩
      · refine .inl ⟨hend, ⟨h', d', as ++ bs, .cons hread.returns hreads, ?_, hout.append hout'⟩, ?_⟩
        · rw [hbs, has, List.append_assoc]
        · intro x c hv
          cases hv with
          | here hr hx => exact hin x c hr hx
          | later hret hv =>
            obtain ⟨rfl, rfl⟩ := Prod.mk.inj (hret.unique hread.returns)
            exact hin' x c hv
      · exact .inr ⟨⟨x, c, .later hread.returns hv, hno⟩, hend⟩
    · exact .inr (hlost.unframed hsplit hn hcut)

/-! ### In the process -/

/-- Whatever becomes of the caches, each frame has exactly one response, and no iteration leaves
the bounds of a frame without a cache. -/
def Recovers (E : Env) (this : ℕ) (w : World) (chunks : List (List UInt8)) (fs : List Frame) : Prop :=
  (∃ n, ∀ fuel, n ≤ fuel → ∃ w', VirusHandler.handleReads (E.withFuel fuel) this chunks.length w = .ok ⟨⟩ w' ∧
    Outcomes E.toLibC w.disk.nfopen (w'.objs this).virus.resp fs) ∧
  ∀ x c, Visits E.toLibC (w.objs this).virus w.disk 0 chunks x c → Framed E.toLibC w.disk.nfopen fs x c

section Process

variable {E : Env} {w : World} {this : ℕ} {fs : List Frame} {chunks : List (List UInt8)} {st : StorageTo}
  {head : Header} {state : State}

/-- A new handler that receives the chunks recovers, and every value without a cache ends with its
chunk; or neither is so. -/
theorem recovers_cases (this : ℕ) (hE : E.toLibC.OnlyOpenFails)
    (hnew : (w.objs this).virus = .new (.new st head) state) (ha : w.dead this = false)
    (ho : w.descs (w.objs this).sock ≠ none) (hcut : IsCut 65535 (wires fs) chunks) (hrecv : Receives E w.nrecv chunks)
    (hwhole : HeadersWhole fs chunks) (hvals : ∀ f ∈ fs, f.value ≠ [])
    (hshort : ShortLast E.toLibC w.disk.nfopen fs) :
    Recovers E this w chunks fs ∧ FailuresEndChunks E.toLibC w.disk.nfopen 0 0 fs chunks ∨
      ¬ Recovers E this w chunks fs ∧ ¬ FailuresEndChunks E.toLibC w.disk.nfopen 0 0 fs chunks := by
  have hst : (w.objs this).virus.Stands E.toLibC w.disk.nfopen fs 0 w.disk := by
    intro f _
    rw [hnew]
    exact ⟨.new st head w.disk f, .inl ⟨rfl, rfl⟩⟩
  have hresp : (w.objs this).virus.resp = [] := by rw [hnew]; rfl
  rcases recover_cases [] hE rfl hshort hvals hst (fun _ => .inl rfl) hcut (wholeFrom_zero.2 hwhole) with
    ⟨hends, ⟨h', d', as, hreads, has, hout⟩, hin⟩ | ⟨⟨x, c, hv, hno⟩, hends⟩
  · refine .inl ⟨⟨?_, fun x c hv => (hin x c hv).framed⟩, hends⟩
    obtain ⟨n, hn⟩ := handleReads_of_reads this hreads fun p hp => ⟨hcut.ne_nil p hp, hcut.le p hp⟩
    refine ⟨n, fun fuel hfuel => ?_⟩
    obtain ⟨w', hrun, hw'⟩ := hn fuel hfuel w rfl rfl ha ho hrecv
    refine ⟨w', hrun, ?_⟩
    rw [hw', has, hresp]
    exact hout
  · exact .inr ⟨fun hrec => hno (hrec.2 x c hv), hends⟩

/-- **A new handler recovers from values without a cache**, whichever frames they are in, if and
only if each of them lies in one chunk that ends with it. No boundary between two chunks lies
inside a header, and of the frames with a cache only the last one may have less than
`DEFAULT_MAX_MEMORY_CACHE` bytes. -/
theorem recovers_iff (hE : E.toLibC.OnlyOpenFails)
    (hnew : (w.objs this).virus = .new (.new st head) state) (ha : w.dead this = false)
    (ho : w.descs (w.objs this).sock ≠ none) (hcut : IsCut 65535 (wires fs) chunks) (hrecv : Receives E w.nrecv chunks)
    (hwhole : HeadersWhole fs chunks) (hvals : ∀ f ∈ fs, f.value ≠ [])
    (hshort : ShortLast E.toLibC w.disk.nfopen fs) :
    Recovers E this w chunks fs ↔ FailuresEndChunks E.toLibC w.disk.nfopen 0 0 fs chunks := by
  rcases recovers_cases this hE hnew ha ho hcut hrecv hwhole hvals hshort with ⟨hrec, hends⟩ | ⟨hrec, hends⟩
  · exact iff_of_true hrec hends
  · exact iff_of_false hrec hends

end Process

/-- A system on which no file opens and from which each `recv` gets the same bytes. -/
def Env.fileless (bs : ℕ → List UInt8) : Env := { Env.receiving bs with fopen := fun _ => false }

/-- The frame of id 1 and value `[5, 6]`. -/
def pairFrame : Frame := ⟨1, [5, 6], by decide⟩

theorem fileless_onlyOpenFails (bs : ℕ → List UInt8) : (Env.fileless bs).toLibC.OnlyOpenFails :=
  ⟨fun _ => rfl, fun _ => rfl, fun _ => rfl, fun _ => rfl⟩

/-- One frame is the last one. -/
theorem shortLast_single (n : ℕ) (f : Frame) : ShortLast E n [f] := by
  intro f₁ g f₂ hsplit _ _
  cases f₁ with
  | nil => exact (List.cons.inj hsplit).2.symm
  | cons e f₁ => simp at hsplit

/-- A frame in two chunks, the first of which has its header. -/
theorem headersWhole_single {f : Frame} {p q : List UInt8} (hp : 8 ≤ p.length)
    (hle : p.length ≤ f.wire.length) : HeadersWhole [f] [p, q] := by
  intro ps qs hsplit hps hqs f₁ f₂ hf
  obtain ⟨a, as, rfl⟩ := List.exists_cons_of_ne_nil hps
  obtain ⟨rfl, htail⟩ := List.cons.inj hsplit
  cases as with
  | nil =>
    rw [List.flatten_cons, List.flatten_nil, List.append_nil]
    cases f₁ with
    | nil => exact .inr (by simpa using hp)
    | cons g f₁ =>
      obtain ⟨rfl, -⟩ := List.cons.inj hf
      refine .inl ?_
      rw [wires_cons, List.length_append]
      omega
  | cons b as =>
    obtain ⟨-, hnil⟩ := List.cons.inj htail
    exact absurd (List.append_eq_nil_iff.1 hnil.symm).2 hqs

/-- A value without a cache in a chunk of its own. -/
theorem recovers_iff_pair :
    Recovers (.fileless fun i => if i = 0 then pairFrame.head else [5, 6]) 0 (.client [])
        [pairFrame.head, [5, 6]] [pairFrame] ↔
      FailuresEndChunks (Env.fileless fun i => if i = 0 then pairFrame.head else [5, 6]).toLibC 0 0 0
        [pairFrame] [pairFrame.head, [5, 6]] :=
  recovers_iff (w := .client []) (fileless_onlyOpenFails _) rfl rfl (by simp [World.client])
    ⟨by decide, by decide, by decide⟩ (receives_pair fun _ => rfl)
    (headersWhole_single (by decide) (by decide)) (by decide) (shortLast_single _ _)

/-- A value without a cache that is cut in two: its second byte is read as a header. -/
theorem cut_value_not_recovered :
    IsCut 65535 (wires [pairFrame]) [pairFrame.head ++ [5], [6]] ∧
      HeadersWhole [pairFrame] [pairFrame.head ++ [5], [6]] ∧
      ¬ Recovers (.fileless fun i => if i = 0 then pairFrame.head ++ [5] else [6]) 0 (.client [])
        [pairFrame.head ++ [5], [6]] [pairFrame] := by
  have hcut : IsCut 65535 (wires [pairFrame]) [pairFrame.head ++ [5], [6]] :=
    ⟨by decide, by decide, by decide⟩
  have hwhole : HeadersWhole [pairFrame] [pairFrame.head ++ [5], [6]] :=
    headersWhole_single (by decide) (by decide)
  refine ⟨hcut, hwhole, ?_⟩
  rcases recovers_cases 0 (w := .client []) (fileless_onlyOpenFails _) rfl rfl (by simp [World.client])
      hcut (receives_pair fun _ => rfl) hwhole (by decide) (shortLast_single _ _) with ⟨-, hends⟩ | ⟨hrec, -⟩
  · have hend := (hends [] pairFrame [] rfl rfl).first (by decide)
    exact absurd hend (by decide)
  · exact hrec

end DocFerry
