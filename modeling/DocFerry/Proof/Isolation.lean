import DocFerry.Proof.Cache

/-!
# Caches that do not disturb each other

The caches of a process and the calls on them. The file of a cache is told from the others by its
path only, which is made of a directory and a clock reading.

* `Spares`: what a change of the disk leaves of one cache; a lemma `..._spares` for each call of the
  library.
* `Caches.Inv`: live caches have files, streams and paths of their own.
* `CacheOp.run_keeps`: one call, unless it makes or removes the path of another live cache.
* `caches_isolated`: whole runs.
-/

namespace DocFerry

open Bytes

/-- The caches that have not been freed, and the disk. -/
structure Caches where
  held : ℕ → Option Cache
  disk : Disk

/-- A call on the cache `i`. -/
inductive CacheOp
  | create (i : ℕ) (cache_dir : Option (List Char)) (capacity : ℕ) (storage : StorageTo)
  | push (i : ℕ) (data : List UInt8)
  | pop (i : ℕ) (data_len : ℕ)
  | leave (i : ℕ)
  | delete (i : ℕ)

/-- The cache of the call. -/
def CacheOp.slot : CacheOp → ℕ
  | .create i _ _ _ => i
  | .push i _ => i
  | .pop i _ => i
  | .leave i => i
  | .delete i => i

/-- `s` with `v` for the cache `i`. -/
def Caches.put (s : Caches) (i : ℕ) (v : Option Cache) (d : Disk) : Caches :=
  ⟨Function.update s.held i v, d⟩

/-- What `create_cache` leaves of the caches; a process that crashes leaves them as they are. -/
def Caches.made (s : Caches) (i : ℕ) : Except Fault (Option Cache × Disk) → Caches
  | .ok (v, d) => s.put i v d
  | .error _ => s

/-- What a call on a cache that is there does. -/
def CacheOp.act (E : LibC) (s : Caches) (c : Cache) : CacheOp → Caches
  | .create .. => s
  | .push i data => s.put i (some (cachePush E s.disk c data data.length).2.1)
    (cachePush E s.disk c data data.length).2.2
  | .pop i k => s.put i (some (cachePop E s.disk c k).2.2.1) (cachePop E s.disk c k).2.2.2
  | .leave i => s.put i none (leaveCache s.disk c)
  | .delete i => s.put i (some (deleteCache s.disk c).1) (deleteCache s.disk c).2

/-- The call: a cache is created where there is none, and the others are made on one that is
there. -/
def CacheOp.run (E : LibC) (s : Caches) (op : CacheOp) : Caches :=
  match s.held op.slot, op with
  | none, .create i dir n storage => s.made i (createCache E s.disk dir n storage)
  | none, _ => s
  | some c, op => op.act E s c

/-- The calls one after another. -/
def runOps (E : LibC) (s : Caches) (ops : List CacheOp) : Caches := ops.foldl (CacheOp.run E) s

/-- A live file-backed cache: it holds its stream. -/
def Caches.Live (s : Caches) (j : ℕ) (c : Cache) : Prop := s.held j = some c ∧ c.priv.wfp ≠ none

/-- The file under the path of a cache, if there is one. -/
def Disk.backing (d : Disk) (c : Cache) : Option (List UInt8) := (d.names c.path).map d.files

/-- The call leaves the files that back the other live caches as they are. -/
def Isolated (E : LibC) (s : Caches) (op : CacheOp) : Prop :=
  ∀ j c, j ≠ op.slot → s.Live j c →
    (op.run E s).held j = some c ∧ ∃ bytes, s.disk.backing c = some bytes ∧
      (op.run E s).disk.backing c = some bytes

/-- The call uses no path of another live cache: it opens none for a new file, and removes none. -/
def CacheOp.Clear (E : LibC) (s : Caches) (op : CacheOp) : Prop :=
  ∀ j c, j ≠ op.slot → s.Live j c →
    match op with
    | .create _ cache_dir n storage => ∀ dir, cacheDir cache_dir = .ok dir → storage.inFile n = true →
        E.fopen s.disk.nfopen = true → s.disk.newPath E dir ≠ c.path
    | .delete i => ∀ c', s.held i = some c' → c'.buf = none → c'.path ≠ c.path
    | _ => True

/-! ### The disk -/

/-- A directory without links, in which every file and every stream was numbered. -/
structure Disk.Sound (d : Disk) : Prop where
  inj : ∀ p q f, d.names p = some f → d.names q = some f → p = q
  named : ∀ p f, d.names p = some f → f < d.nfile
  opened : ∀ fp st, d.streams fp = some st → fp < d.nstream

/-- The stream of the cache is open on the file that its path names. -/
def Backed (d : Disk) (c : Cache) : Prop :=
  ∃ fp st, c.priv.wfp = some fp ∧ d.streams fp = some st ∧ d.names c.path = some st.file

/-- From `d` to `d'` nothing has changed for the cache. -/
structure Spares (d d' : Disk) (c : Cache) : Prop where
  names : d'.names c.path = d.names c.path
  stream : d'.stream c = d.stream c
  files : ∀ f, d.names c.path = some f → d'.files f = d.files f

variable {E : LibC} {d d' : Disk} {c c' : Cache} {s : Caches} {path : List Char} {n fp : ℕ}

theorem Spares.refl (d : Disk) (c : Cache) : Spares d d c := ⟨rfl, rfl, fun _ _ => rfl⟩

theorem Spares.trans {d'' : Disk} (h : Spares d d' c) (h' : Spares d' d'' c) : Spares d d'' c :=
  ⟨h'.names.trans h.names, h'.stream.trans h.stream, fun f hf =>
    (h'.files f (h.names.trans hf)).trans (h.files f hf)⟩

theorem Backed.spared (h : Backed d c) (hs : Spares d d' c) : Backed d' c := by
  obtain ⟨fp, st, hfp, hst, hname⟩ := h
  have hstream := hs.stream
  simp only [Disk.stream, hfp, Option.bind_some] at hstream
  exact ⟨fp, st, hfp, hstream.trans hst, hs.names.trans hname⟩

theorem Spares.backing (hs : Spares d d' c) (h : Backed d c) :
    ∃ bytes, d.backing c = some bytes ∧ d'.backing c = some bytes := by
  obtain ⟨fp, st, -, -, hname⟩ := h
  refine ⟨d.files st.file, ?_, ?_⟩
  · rw [Disk.backing, hname, Option.map_some]
  · rw [Disk.backing, hs.names, hname, Option.map_some, hs.files _ hname]

/-- A new file under another path spares the cache. -/
theorem making_spares (hd : d.Sound) (hb : Backed d c) (hne : path ≠ c.path) (content : List UInt8)
    (start : ℕ) (held : List UInt8) : Spares d (d.making path content start held) c := by
  obtain ⟨fp, st, hfp, hst, hname⟩ := hb
  refine ⟨Function.update_of_ne hne.symm _ _, ?_, fun f hf => ?_⟩
  · have hlt := hd.opened fp st hst
    simp only [Disk.stream, hfp, Option.bind_some, Disk.making]
    exact Function.update_of_ne (by omega) _ _
  · refine Function.update_of_ne (fun hff => ?_) _ _
    -- the new file is the one that its path names, or has a new number
    cases hp : d.names path with
    | none =>
      have := hd.named _ _ hf
      rw [hp, Option.getD_none] at hff
      omega
    | some g =>
      rw [hp, Option.getD_some] at hff
      rw [hff] at hf
      exact hne (hd.inj _ _ _ hp hf)

theorem making_sound (hd : d.Sound) (path : List Char) (content : List UInt8) (start : ℕ)
    (held : List UInt8) : (d.making path content start held).Sound := by
  -- no other path names the file that the path gets
  have hfile : ∀ p f, p ≠ path → d.names p = some f → f ≠ (d.names path).getD d.nfile := by
    rintro p f hne hf rfl
    cases hp : d.names path with
    | none =>
      rw [hp, Option.getD_none] at hf
      exact absurd (hd.named _ _ hf) (lt_irrefl _)
    | some g =>
      rw [hp, Option.getD_some] at hf
      exact hne (hd.inj _ _ _ hf hp)
  refine ⟨fun p q f hp hq => ?_, fun p f hp => ?_, fun fp st hst => ?_⟩
  · -- two names of one file
    simp only [Disk.making] at hp hq
    rcases eq_or_ne p path with hpp | hpp <;> rcases eq_or_ne q path with hqp | hqp
    · rw [hpp, hqp]
    · rw [hpp, Function.update_self] at hp
      rw [Function.update_of_ne hqp] at hq
      exact absurd (Option.some.inj hp).symm (hfile q f hqp hq)
    · rw [hqp, Function.update_self] at hq
      rw [Function.update_of_ne hpp] at hp
      exact absurd (Option.some.inj hq).symm (hfile p f hpp hp)
    · rw [Function.update_of_ne hpp] at hp
      rw [Function.update_of_ne hqp] at hq
      exact hd.inj _ _ _ hp hq
  · simp only [Disk.making] at hp ⊢
    rcases eq_or_ne p path with rfl | hpp
    · rw [Function.update_self] at hp
      cases hpath : d.names p with
      | none =>
        rw [hpath, Option.getD_none] at hp
        simp only [if_true]
        have := Option.some.inj hp
        omega
      | some g =>
        rw [hpath, Option.getD_some] at hp
        obtain rfl := Option.some.inj hp
        simpa using hd.named _ _ hpath
    · rw [Function.update_of_ne hpp] at hp
      have := hd.named _ _ hp
      split <;> omega
  · simp only [Disk.making] at hst ⊢
    rcases eq_or_ne fp d.nstream with rfl | hne
    · exact Nat.lt_succ_self _
    · rw [Function.update_of_ne hne] at hst
      exact (hd.opened _ _ hst).trans (Nat.lt_succ_self _)

theorem making_backed (d : Disk) (path dir : List Char) (content : List UInt8) (start : ℕ)
    (held : List UInt8) (n : ℕ) :
    Backed (d.making path content start held) (fileCache path dir n d.nstream) :=
  ⟨d.nstream, _, rfl, Function.update_self .., Function.update_self ..⟩

theorem filling_backed (E : LibC) (d : Disk) (path dir : List Char) (n : ℕ) :
    Backed (d.filling E path n) (fileCache path dir n d.nstream) := by
  unfold Disk.filling
  by_cases hseek : E.fseek (d.nfseek + 1) = true
  · rw [if_pos hseek]
    exact making_backed ..
  · rw [if_neg hseek]
    exact making_backed ..

/-- Closing a stream spares a cache with another stream and another file. -/
theorem fclose_spares (hne : c.priv.wfp ≠ some fp)
    (hfile : ∀ st, d.streams fp = some st → d.names c.path ≠ some st.file) : Spares d (fclose d fp) c := by
  refine ⟨rfl, ?_, fun f hf => ?_⟩
  · cases hw : c.priv.wfp with
    | none => simp only [Disk.stream, hw, Option.bind_none]
    | some fp' =>
      rw [hw] at hne
      simp only [Disk.stream, hw, Option.bind_some, fclose]
      exact Function.update_of_ne (fun h => hne (by rw [h])) _ _
  · -- what the stream holds back goes into its own file
    cases hst : d.streams fp with
    | none => simp only [fclose, hst]
    | some st =>
      have hne' : f ≠ st.file := fun h => hfile st hst (h ▸ hf)
      simp only [fclose, hst]
      exact Function.update_of_ne hne' _ _

theorem fclose_sound (hd : d.Sound) (fp : ℕ) : (fclose d fp).Sound := by
  refine ⟨hd.inj, hd.named, fun fp' st hst => ?_⟩
  simp only [fclose] at hst
  rcases eq_or_ne fp' fp with rfl | hne
  · rw [Function.update_self] at hst
    cases hst
  · rw [Function.update_of_ne hne] at hst
    exact hd.opened _ _ hst

theorem remove_spares (hne : path ≠ c.path) : Spares d (remove d path) c :=
  ⟨Function.update_of_ne hne.symm _ _, rfl, fun _ _ => rfl⟩

theorem remove_sound (hd : d.Sound) (path : List Char) : (remove d path).Sound := by
  have hsub : ∀ p f, (remove d path).names p = some f → d.names p = some f := by
    intro p f hp
    simp only [remove] at hp
    rcases eq_or_ne p path with rfl | hne
    · rw [Function.update_self] at hp
      cases hp
    · rwa [Function.update_of_ne hne] at hp
  exact ⟨fun p q f hp hq => hd.inj p q f (hsub p f hp) (hsub q f hq), fun p f hp => hd.named p f (hsub p f hp),
    hd.opened⟩

/-- What writing to a stream, or reading from it, does not touch. -/
structure Moved (d d' : Disk) (fp : ℕ) : Prop where
  names : d'.names = d.names
  nfile : d'.nfile = d.nfile
  nstream : d'.nstream = d.nstream
  files : ∀ f, (∀ st, d.streams fp = some st → st.file ≠ f) → d'.files f = d.files f
  streams : ∀ fp', fp' ≠ fp → d'.streams fp' = d.streams fp'
  file : (d'.streams fp).map Stream.file = (d.streams fp).map Stream.file

theorem fwrite_moved (E : LibC) (d : Disk) (fp : ℕ) (data : List UInt8) :
    Moved d (fwrite E d fp data).2 fp := by
  cases hst : d.streams fp with
  | none =>
    simp only [fwrite, hst]
    exact ⟨rfl, rfl, rfl, fun _ _ => rfl, fun _ _ => rfl, rfl⟩
  | some st =>
    rw [fwrite_open hst]
    refine ⟨rfl, rfl, rfl, fun f hf => ?_, fun fp' hne => Function.update_of_ne hne _ _, ?_⟩
    · exact Function.update_of_ne (hf st hst).symm _ _
    · simp [Disk.writing, hst]

theorem fread_moved (E : LibC) (d : Disk) (fp n : ℕ) : Moved d (fread E d fp n).2 fp := by
  cases hst : d.streams fp with
  | none =>
    simp only [fread, hst]
    exact ⟨rfl, rfl, rfl, fun _ _ => rfl, fun _ _ => rfl, rfl⟩
  | some st =>
    simp only [fread, hst]
    by_cases hr : st.readable = true
    · rw [if_pos hr]
      exact ⟨rfl, rfl, rfl, fun _ _ => rfl, fun fp' hne => Function.update_of_ne hne _ _, by simp [hst]⟩
    · rw [if_neg hr]
      exact ⟨rfl, rfl, rfl, fun _ _ => rfl, fun _ _ => rfl, rfl⟩

/-- Work on the stream of one cache spares another one, whose file has another path. -/
theorem Moved.spares (h : Moved d d' fp) (hd : d.Sound) (hb : Backed d c) (hfp : c.priv.wfp = some fp)
    (hb' : Backed d c') (hfp' : c'.priv.wfp ≠ some fp) (hpath : c.path ≠ c'.path) : Spares d d' c' := by
  obtain ⟨fp₁, st, hw, hst, hname⟩ := hb
  obtain rfl : fp₁ = fp := Option.some.inj (hw.symm.trans hfp)
  obtain ⟨fp', st', hw', hst', hname'⟩ := hb'
  refine ⟨by rw [h.names], ?_, fun f hf => h.files f fun st₁ hst₁ hff => ?_⟩
  · simp only [Disk.stream, hw', Option.bind_some]
    exact h.streams fp' fun he => hfp' (by rw [hw', he])
  · obtain rfl : st₁ = st := Option.some.inj (hst₁.symm.trans hst)
    rw [hff] at hname
    exact hpath (hd.inj _ _ _ hname hf)

theorem Moved.sound (h : Moved d d' fp) (hd : d.Sound) : d'.Sound := by
  refine ⟨?_, ?_, fun fp' st hst => ?_⟩
  · rw [h.names]
    exact hd.inj
  · rw [h.names, h.nfile]
    exact hd.named
  · rw [h.nstream]
    rcases eq_or_ne fp' fp with rfl | hne
    · have hf := h.file
      rw [hst, Option.map_some] at hf
      obtain ⟨st₀, hst₀, -⟩ := Option.map_eq_some_iff.1 hf.symm
      exact hd.opened _ _ hst₀
    · rw [h.streams fp' hne] at hst
      exact hd.opened _ _ hst

/-- Work on its own stream leaves the cache its file. -/
theorem Moved.backed (h : Moved d d' fp) (hb : Backed d c) (hw : c.priv.wfp = some fp)
    (hpath : c'.path = c.path) (hw' : c'.priv.wfp = some fp) : Backed d' c' := by
  obtain ⟨fp₁, st, hw₁, hst, hname⟩ := hb
  obtain rfl : fp₁ = fp := Option.some.inj (hw₁.symm.trans hw)
  have hf := h.file
  rw [hst, Option.map_some] at hf
  obtain ⟨st', hst', hfile⟩ := Option.map_eq_some_iff.1 hf
  exact ⟨fp₁, st', hw', hst', by rw [h.names, hpath, hname, hfile]⟩

/-! ### The caches -/

/-- The live caches have files, streams and paths of their own. -/
structure Caches.Inv (s : Caches) : Prop where
  sound : s.disk.Sound
  backed : ∀ i c, s.Live i c → Backed s.disk c
  apart : ∀ i j c c', i ≠ j → s.Live i c → s.Live j c' → c.priv.wfp ≠ c'.priv.wfp ∧ c.path ≠ c'.path

/-- From `s` to `s'` only the cache `i` has changed. -/
def KeepsOthers (s s' : Caches) (i : ℕ) : Prop :=
  ∀ j c, j ≠ i → s.Live j c → s'.held j = some c ∧ Spares s.disk s'.disk c

variable {i : ℕ} {v : Option Cache} {op : CacheOp}

theorem KeepsOthers.refl (s : Caches) (i : ℕ) : KeepsOthers s s i := fun _ c _ hl => ⟨hl.1, .refl _ c⟩

/-- What is live among the others was live before. -/
theorem Caches.Live.of_put {j : ℕ} (hl : (s.put i v d').Live j c) (hj : j ≠ i) : s.Live j c := by
  obtain ⟨hheld, hw⟩ := hl
  simp only [Caches.put] at hheld
  rw [Function.update_of_ne hj] at hheld
  exact ⟨hheld, hw⟩

theorem Caches.Live.put_self (hl : (s.put i v d').Live i c) : v = some c ∧ c.priv.wfp ≠ none := by
  obtain ⟨hheld, hw⟩ := hl
  simp only [Caches.put] at hheld
  rw [Function.update_self] at hheld
  exact ⟨hheld, hw⟩

/-- **A new value for one cache**, on a disk that spares the others. -/
theorem Caches.Inv.put (h : s.Inv) (hd : d'.Sound)
    (hsp : ∀ j c, j ≠ i → s.Live j c → Spares s.disk d' c)
    (hv : ∀ c, v = some c → c.priv.wfp ≠ none → Backed d' c ∧
      ∀ j c', j ≠ i → s.Live j c' → c.priv.wfp ≠ c'.priv.wfp ∧ c.path ≠ c'.path) :
    (s.put i v d').Inv ∧ KeepsOthers s (s.put i v d') i := by
  refine ⟨⟨hd, fun j c hl => ?_, fun j k c c' hjk hl hl' => ?_⟩, fun j c hj hl => ⟨?_, hsp j c hj hl⟩⟩
  · -- every live cache is backed
    rcases eq_or_ne j i with rfl | hj
    · obtain ⟨hvc, hw⟩ := hl.put_self
      exact (hv c hvc hw).1
    · have hl₀ := hl.of_put hj
      exact (h.backed j c hl₀).spared (hsp j c hj hl₀)
  · -- no two live caches share a stream or a path
    rcases eq_or_ne j i with rfl | hj
    · obtain ⟨hvc, hw⟩ := hl.put_self
      exact (hv c hvc hw).2 k c' hjk.symm (hl'.of_put hjk.symm)
    · rcases eq_or_ne k i with rfl | hk
      · obtain ⟨hvc, hw⟩ := hl'.put_self
        obtain ⟨h1, h2⟩ := (hv c' hvc hw).2 j c hj (hl.of_put hj)
        exact ⟨h1.symm, h2.symm⟩
      · exact h.apart j k c c' hjk (hl.of_put hj) (hl'.of_put hk)
  · simp only [Caches.put]
    rw [Function.update_of_ne hj]
    exact hl.1

/-- A new value for one cache that has, or keeps, no stream. -/
theorem Caches.Inv.put_dead (h : s.Inv) (hd : d'.Sound)
    (hsp : ∀ j c, j ≠ i → s.Live j c → Spares s.disk d' c) (hv : ∀ c, v = some c → c.priv.wfp = none) :
    (s.put i v d').Inv ∧ KeepsOthers s (s.put i v d') i :=
  h.put hd hsp fun c hc hw => absurd (hv c hc) hw

/-- A cache that keeps its path and its stream, after work on that stream. -/
theorem Caches.Inv.put_moved (h : s.Inv) (hc : s.held i = some c) (hfp : c.priv.wfp = some fp)
    (hm : Moved s.disk d' fp) (hpath : c'.path = c.path) (hw : c'.priv.wfp = some fp) :
    (s.put i (some c') d').Inv ∧ KeepsOthers s (s.put i (some c') d') i := by
  have hl : s.Live i c := ⟨hc, by rw [hfp]; simp⟩
  have hb := h.backed i c hl
  refine h.put (hm.sound h.sound) (fun j cj hj hlj => ?_) fun c₁ hc₁ _ => ?_
  · obtain ⟨hstream, hne⟩ := h.apart i j c cj hj.symm hl hlj
    exact hm.spares h.sound hb hfp (h.backed j cj hlj) (fun he => hstream (by rw [hfp, he])) hne
  · obtain rfl := Option.some.inj hc₁
    refine ⟨hm.backed hb hfp hpath hw, fun j cj hj hlj => ?_⟩
    rw [hw, hpath, ← hfp]
    exact h.apart i j c cj hj.symm hl hlj

/-- A cache that changes neither path nor stream, the disk staying as it is. -/
theorem Caches.Inv.put_same (h : s.Inv) (hc : s.held i = some c) (buf : Option (List UInt8)) (widx ridx : ℕ) :
    (s.put i (some ⟨c.path, buf, { c.priv with widx := widx, ridx := ridx }⟩) s.disk).Inv ∧
      KeepsOthers s (s.put i (some ⟨c.path, buf, { c.priv with widx := widx, ridx := ridx }⟩) s.disk) i := by
  refine h.put h.sound (fun j cj _ _ => .refl _ cj) fun c₁ hc₁ hne => ?_
  obtain rfl := Option.some.inj hc₁
  have hl : s.Live i c := ⟨hc, hne⟩
  exact ⟨h.backed i c hl, fun j cj hj hlj => h.apart i j c cj hj.symm hl hlj⟩

/-! ### The calls -/

/-- **`create_cache`** spares the caches whose path it does not open. -/
theorem create_keeps (h : s.Inv) {cache_dir : Option (List Char)} {storage : StorageTo}
    (hcl : (CacheOp.create i cache_dir n storage).Clear E s) :
    (s.made i (createCache E s.disk cache_dir n storage)).Inv ∧
      KeepsOthers s (s.made i (createCache E s.disk cache_dir n storage)) i := by
  -- the counters of the library do not matter
  have hcount : ∀ d' : Disk, d'.names = s.disk.names → d'.nfile = s.disk.nfile →
      d'.streams = s.disk.streams → d'.nstream = s.disk.nstream → d'.files = s.disk.files →
      d'.Sound ∧ ∀ c, Spares s.disk d' c := by
    intro d' h1 h2 h3 h4 h5
    refine ⟨⟨?_, ?_, ?_⟩, fun c => ⟨by rw [h1], ?_, fun f _ => by rw [h5]⟩⟩
    · rw [h1]; exact h.sound.inj
    · rw [h1, h2]; exact h.sound.named
    · rw [h3, h4]; exact h.sound.opened
    · unfold Disk.stream
      rw [h3]
  have hcr := createCache_created E s.disk cache_dir n storage
  generalize createCache E s.disk cache_dir n storage = r at hcr ⊢
  set d₀ : Disk := { s.disk with ncalloc := s.disk.ncalloc + 2 } with hd₀
  obtain ⟨hs₀, hsp₀⟩ := hcount d₀ rfl rfl rfl rfl rfl
  have hmade : ∀ {dir : List Char} (content : List UInt8) (start : ℕ) (held : List UInt8),
      cacheDir cache_dir = .ok dir → storage.inFile n = true → E.fopen s.disk.nfopen = true →
        ∀ j c, j ≠ i → s.Live j c → s.disk.newPath E dir ≠ c.path ∧
          Spares s.disk (d₀.making (s.disk.newPath E dir) content start held) c := by
    intro dir content start held hdir hs ho j c hj hl
    have hne : s.disk.newPath E dir ≠ c.path := hcl j c hj hl dir hdir hs ho
    exact ⟨hne, (hsp₀ c).trans
      (making_spares hs₀ ((h.backed j c hl).spared (hsp₀ c)) hne content start held)⟩
  cases hcr with
  | noMemory _ =>
    obtain ⟨hd, hsp⟩ := hcount { s.disk with ncalloc := s.disk.ncalloc + 1 } rfl rfl rfl rfl rfl
    exact h.put_dead hd (fun j c _ _ => hsp c) fun _ hc => by cases hc
  | crash _ => exact ⟨h, .refl s i⟩
  | badDir _ => exact ⟨h, .refl s i⟩
  | buffer _ _ =>
    obtain ⟨hd, hsp⟩ := hcount { s.disk with
      ncalloc := s.disk.ncalloc + 2
      nmalloc := s.disk.nmalloc + 1 } rfl rfl rfl rfl rfl
    refine h.put_dead hd (fun j c _ _ => hsp c) fun c hc => ?_
    split at hc
    · cases hc
      rfl
    · cases hc
  | notOpened _ _ _ =>
    obtain ⟨hd, hsp⟩ := hcount { s.disk with
      ncalloc := s.disk.ncalloc + 2
      nclock := s.disk.nclock + 1
      nfopen := s.disk.nfopen + 1 } rfl rfl rfl rfl rfl
    exact h.put_dead hd (fun j c _ _ => hsp c) fun _ hc => by cases hc
  | @notFilled dir content held start hdir hs ho _ =>
    have hsound := making_sound hs₀ (s.disk.newPath E dir) content start held
    refine h.put_dead (fclose_sound hsound _) (fun j c hj hl => ?_) fun _ hc => by cases hc
    obtain ⟨fp, st, hfp, hst, -⟩ := h.backed j c hl
    have hlt := h.sound.opened fp st hst
    obtain ⟨hne, hsp⟩ := hmade content start held hdir hs ho j c hj hl
    refine hsp.trans (fclose_spares ?_ fun st' hst' hname => hne ?_)
    · rw [hfp]
      intro he
      exact absurd (Option.some.inj he) hlt.ne
    · -- the new stream is on the new file
      obtain ⟨fp', st₀, hfp', hst₀, hname₀⟩ := making_backed d₀ (s.disk.newPath E dir) dir content start held n
      obtain rfl := Option.some.inj hfp'
      obtain rfl := Option.some.inj (hst₀.symm.trans hst')
      exact hsound.inj _ _ _ hname₀ hname
  | @file dir content held start hdir hs ho _ =>
    refine h.put (making_sound hs₀ _ content start held)
      (fun j c hj hl => (hmade content start held hdir hs ho j c hj hl).2) fun c hc _ => ?_
    obtain rfl := Option.some.inj hc
    refine ⟨making_backed d₀ _ dir content start held n, fun j c' hj hl => ⟨?_, ?_⟩⟩
    · obtain ⟨fp, st, hfp, hst, -⟩ := h.backed j c' hl
      have hlt := h.sound.opened fp st hst
      rw [hfp]
      intro he
      exact absurd (Option.some.inj he).symm hlt.ne
    · exact (hmade content start held hdir hs ho j c' hj hl).1

/-- A cache after its stream was let go. -/
theorem leaveCache_keeps (h : s.Inv) (hc : s.held i = some c) :
    (leaveCache s.disk c).Sound ∧ ∀ j c', j ≠ i → s.Live j c' → Spares s.disk (leaveCache s.disk c) c' := by
  cases hw : c.priv.wfp with
  | none =>
    simp only [leaveCache, hw]
    exact ⟨h.sound, fun _ c' _ _ => .refl _ c'⟩
  | some fp =>
    simp only [leaveCache, hw]
    refine ⟨fclose_sound h.sound fp, fun j c' hj hl => ?_⟩
    have hl₀ : s.Live i c := ⟨hc, by rw [hw]; simp⟩
    obtain ⟨hstream, hpath⟩ := h.apart i j c c' hj.symm hl₀ hl
    refine fclose_spares (fun he => hstream (hw.trans he.symm)) fun st hst hname => hpath ?_
    obtain ⟨fp', st', hw', hst', hname'⟩ := h.backed i c hl₀
    obtain rfl := Option.some.inj (hw'.symm.trans hw)
    obtain rfl := Option.some.inj (hst'.symm.trans hst)
    exact h.sound.inj _ _ _ hname' hname

/-- **`cache_push`** works on the stream of its cache only. -/
theorem push_keeps (h : s.Inv) (hc : s.held i = some c) (data : List UInt8) :
    ((CacheOp.push i data).act E s c).Inv ∧ KeepsOthers s ((CacheOp.push i data).act E s c) i := by
  simp only [CacheOp.act]
  cases hb : c.buf with
  | some buf =>
    rw [cachePush_buf _ _ hb]
    exact h.put_same hc _ _ _
  | none =>
    cases hw : c.priv.wfp with
    | none =>
      rw [cachePush_deleted _ _ hb hw]
      exact h.put_same hc _ _ _
    | some fp =>
      rw [cachePush_stream _ _ hb hw]
      exact h.put_moved hc hw (fwrite_moved E s.disk fp _) rfl hw

/-- **`cache_pop`** likewise. -/
theorem pop_keeps (h : s.Inv) (hc : s.held i = some c) (k : ℕ) :
    ((CacheOp.pop i k).act E s c).Inv ∧ KeepsOthers s ((CacheOp.pop i k).act E s c) i := by
  simp only [CacheOp.act]
  cases hb : c.buf with
  | some buf =>
    rw [cachePop_buf _ _ hb]
    exact h.put_same hc _ _ _
  | none =>
    cases hw : c.priv.wfp with
    | none =>
      rw [cachePop_deleted _ _ hb hw]
      exact h.put_same hc _ _ _
    | some fp =>
      rw [cachePop_stream _ _ hb hw]
      exact h.put_moved hc hw (fread_moved E s.disk fp _) rfl hw

/-- **`delete_cache`** spares the caches whose path it does not remove. -/
theorem delete_keeps (h : s.Inv) (hc : s.held i = some c) (hcl : (CacheOp.delete i).Clear E s) :
    ((CacheOp.delete i).act E s c).Inv ∧ KeepsOthers s ((CacheOp.delete i).act E s c) i := by
  simp only [CacheOp.act]
  cases hb : c.buf with
  | some buf =>
    simp only [deleteCache, hb]
    exact h.put_same hc _ _ _
  | none =>
    by_cases hp : c.path = []
    · simp only [deleteCache, hb, hp, ne_eq, not_true_eq_false, if_false]
      exact h.put_same hc _ _ _
    · -- the file is removed: the path is not that of another live cache
      obtain ⟨hd, hsp⟩ := leaveCache_keeps h hc
      simp only [deleteCache, hb, ne_eq, hp, not_false_eq_true, if_true]
      refine h.put_dead (remove_sound hd c.path) (fun j c' hj hl => ?_) fun c₁ hc₁ => ?_
      · exact (hsp j c' hj hl).trans (remove_spares (hcl j c' hj hl c hc hb))
      · cases hc₁
        rfl

/-- **One call** on one cache keeps the others, unless it uses the path of one of them. -/
theorem CacheOp.run_keeps (h : s.Inv) (hcl : op.Clear E s) :
    (op.run E s).Inv ∧ KeepsOthers s (op.run E s) op.slot := by
  unfold CacheOp.run
  cases hheld : s.held op.slot with
  | none =>
    cases op with
    | create i dir n storage => exact create_keeps h hcl
    | push i data => exact ⟨h, .refl s i⟩
    | pop i k => exact ⟨h, .refl s i⟩
    | leave i => exact ⟨h, .refl s i⟩
    | delete i => exact ⟨h, .refl s i⟩
  | some c =>
    cases op with
    | create i dir n storage => exact ⟨h, .refl s i⟩
    | push i data => exact push_keeps h hheld data
    | pop i k => exact pop_keeps h hheld k
    | leave i =>
      obtain ⟨hd, hsp⟩ := leaveCache_keeps h hheld
      exact h.put_dead hd hsp fun _ hc => by cases hc
    | delete i => exact delete_keeps h hheld hcl

/-! ### Runs -/

/-- The caches keep their files, streams and paths through every run whose calls are clear. -/
theorem Caches.Inv.runOps (h : s.Inv) (ops : List CacheOp)
    (hcl : ∀ before op behind, ops = before ++ op :: behind → op.Clear E (runOps E s before)) :
    (runOps E s ops).Inv := by
  induction ops using List.reverseRecOn with
  | nil => exact h
  | append_singleton ops op ih =>
    have hbefore : (DocFerry.runOps E s ops).Inv := ih fun before op' behind hops =>
      hcl before op' (behind ++ [op]) (by rw [hops]; simp)
    have hrun : DocFerry.runOps E s (ops ++ [op]) = op.run E (DocFerry.runOps E s ops) := by
      simp [DocFerry.runOps]
    rw [hrun]
    exact (CacheOp.run_keeps hbefore (hcl ops op [] rfl)).1

/-- **Caches do not disturb each other**: in every run from a sound disk and no caches, in which no
call opens or removes the path of another live cache, every call leaves the files that back the
other live caches as they are. -/
theorem caches_isolated (hd : d.Sound) (ops : List CacheOp)
    (hcl : ∀ before op behind, ops = before ++ op :: behind →
      op.Clear E (runOps E ⟨fun _ => none, d⟩ before)) :
    ∀ before op behind, ops = before ++ op :: behind →
      Isolated E (runOps E ⟨fun _ => none, d⟩ before) op := by
  intro before op behind hops j c hj hl
  have h₀ : Caches.Inv ⟨fun _ => none, d⟩ :=
    ⟨hd, fun _ _ hl => (by cases hl.1), fun _ _ _ _ _ hl _ => (by cases hl.1)⟩
  have hinv := h₀.runOps (E := E) before fun before' op' behind' hb =>
    hcl before' op' (behind' ++ op :: behind) (by rw [hops, hb]; simp)
  obtain ⟨-, hkeep⟩ := CacheOp.run_keeps hinv (hcl before op behind hops)
  obtain ⟨hheld, hsp⟩ := hkeep j c hj hl
  exact ⟨hheld, hsp.backing (hinv.backed j c hl)⟩

/-- A library whose clock advances with every reading. -/
def LibC.ticking : LibC := { LibC.steady with gettimeofday := fun i => (0, i) }

theorem Disk.empty_sound : Disk.empty.Sound := by
  refine ⟨fun p q f hp => ?_, fun p f hp => ?_, fun fp st hst => ?_⟩
  · cases hp
  · cases hp
  · cases hst

/-- Two caches that are made one after the other at different times. -/
theorem caches_isolated_two : Disk.empty.Sound ∧
    ∀ before op behind, [.create 0 none 1 .file, .create 1 none 1 .file] = before ++ op :: behind →
      Isolated .ticking (runOps .ticking ⟨fun _ => none, .empty⟩ before) op := by
  refine ⟨Disk.empty_sound, caches_isolated Disk.empty_sound _ fun before op behind hops j c hj hl => ?_⟩
  rcases before with - | ⟨op₁, - | ⟨op₂, before⟩⟩
  · -- nothing is live yet
    cases hl.1
  · simp only [List.cons_append, List.nil_append, List.cons.injEq] at hops
    obtain ⟨rfl, rfl, -⟩ := hops
    have hheld : (runOps .ticking ⟨fun _ => none, .empty⟩ [.create 0 none 1 .file]).held =
        Function.update (fun _ => none) 0 (some (fileCache "./cache_0_0".toList ['.'] 1 0)) := rfl
    obtain ⟨hc, -⟩ := hl
    rw [hheld] at hc
    rcases eq_or_ne j 0 with rfl | hj0
    · rw [Function.update_self] at hc
      obtain rfl := Option.some.inj hc
      intro dir hdir _ _
      cases hdir
      decide +kernel
    · rw [Function.update_of_ne hj0] at hc
      cases hc
  · simp at hops

/-- Two caches made at one clock reading share a path: the second empties the file of the first. -/
theorem caches_collide :
    (runOps .steady ⟨fun _ => none, .empty⟩ [.create 0 none 2 .file]).disk.backing
        (fileCache "./cache_0_0".toList ['.'] 2 0) = some [0, 0xAA] ∧
      (runOps .steady ⟨fun _ => none, .empty⟩ [.create 0 none 2 .file, .create 1 none 1 .file]).disk.backing
        (fileCache "./cache_0_0".toList ['.'] 2 0) = some [0xAA] ∧
      ¬ Isolated .steady (runOps .steady ⟨fun _ => none, .empty⟩ [.create 0 none 2 .file])
        (.create 1 none 1 .file) := by
  have hbefore : (runOps .steady ⟨fun _ => none, .empty⟩ [.create 0 none 2 .file]).disk.backing
      (fileCache "./cache_0_0".toList ['.'] 2 0) = some [0, 0xAA] := by decide +kernel
  have hafter : (runOps .steady ⟨fun _ => none, .empty⟩
      [.create 0 none 2 .file, .create 1 none 1 .file]).disk.backing
        (fileCache "./cache_0_0".toList ['.'] 2 0) = some [0xAA] := by decide +kernel
  refine ⟨hbefore, hafter, fun hiso => ?_⟩
  obtain ⟨-, bytes, hb, hb'⟩ := hiso 0 (fileCache "./cache_0_0".toList ['.'] 2 0) (by decide)
    ⟨by decide +kernel, by decide⟩
  have htwo : some bytes = some [0, 0xAA] := hb.symm.trans hbefore
  have hone : some bytes = some [0xAA] := hb'.symm.trans hafter
  rw [htwo] at hone
  cases hone

end DocFerry
