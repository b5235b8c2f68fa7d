import DocFerry.Proof.Cache

/-!
# What `create_cache` leaves behind

`create_cache` fails at several points and hands its cleaning up to `leave_cache`,
which closes the stream and does not remove the file. Of the two seeks that give
the file its length it checks neither.

* `createCache_returns_iff`: when the call comes to its end.
* `createCache_file`: the call for a file, with all that it makes.
* `creates_iff`: a failed call leaves nothing behind, and the backing of a new cache is of
  its capacity, exactly under `Fillable`.
-/

namespace DocFerry

open Bytes

variable {E : LibC} {d d' : Disk} {c : Cache} {cache_dir : Option (List Char)} {n : ℕ}
  {storage : StorageTo}

/-- Nothing that the call has made is left: no stream is open and no path is taken that was
not before. -/
structure Clean (d d' : Disk) : Prop where
  streams : ∀ fp, d'.streams fp ≠ none → d.streams fp ≠ none
  names : ∀ path, d'.names path ≠ none → d.names path ≠ none

/-- The cache has one backing: a buffer, or an open stream that stands at the start of a file
of `n` bytes. -/
def WellBacked (d : Disk) (c : Cache) (n : ℕ) : Prop :=
  (c.buf ≠ none ∧ c.priv.wfp = none) ∨
    c.buf = none ∧ ∃ st, d.stream c = some st ∧ (d.files st.file).length = n ∧ st.pos = 0

/-- What `create_cache` owes: a null pointer leaves nothing behind, a cache is well backed. -/
def Creates (d : Disk) (n : ℕ) (r : Option Cache × Disk) : Prop :=
  (r.1 = none → Clean d r.2) ∧ ∀ c, r.1 = some c → WellBacked r.2 c n

/-- The library and the capacity suit each other: if a file is opened, then it takes its last
byte and both seeks do what they are to do, or it does not take it and its path was taken
before. -/
def Fillable (E : LibC) (d : Disk) (cache_dir : Option (List Char)) (n : ℕ) (storage : StorageTo) : Prop :=
  E.calloc d.ncalloc = true → storage.inFile n = true → E.fopen d.nfopen = true →
    if E.taken d 1 = 1 then
      E.fseek (d.nfseek + 1) = true ∧ (n = 1 ∨ 0 < n ∧ n < 2 ^ 63 ∧ E.fseek d.nfseek = true)
    else ∀ dir, cacheDir cache_dir = .ok dir → d.names (d.newPath E dir) ≠ none

theorem toLong_of_lt (h : n < 2 ^ 63) : toLong n = n := by
  unfold toLong
  rw [Int.bmod_def]
  omega

/-- A `size_t` from `2 ^ 63` on turns negative. -/
theorem toLong_neg (h : 2 ^ 63 ≤ n) (h' : n < 2 ^ 64) : toLong n < 0 := by
  unfold toLong
  rw [Int.bmod_def]
  omega

/-- **The filler byte ends the file where the capacity does** unless its seek is refused. -/
theorem fillPos_succ_iff (hn : n < 2 ^ 64) :
    d.fillPos E n + 1 = n ↔ n = 1 ∨ 0 < n ∧ n < 2 ^ 63 ∧ E.fseek d.nfseek = true := by
  unfold Disk.fillPos
  rcases Nat.lt_or_ge n (2 ^ 63) with hlt | hge
  · rw [toLong_of_lt hlt]
    by_cases hseek : E.fseek d.nfseek = true
    · simp only [hseek, and_true]
      split <;> omega
    · rw [if_neg (fun h => hseek h.2)]
      constructor
      · intro h
        exact .inl h.symm
      · rintro (h | ⟨-, -, h⟩)
        · exact h.symm
        · exact absurd h hseek
  · have hneg := toLong_neg hge hn
    rw [if_neg (fun h => by omega)]
    omega

theorem length_filled (E : LibC) (p : ℕ) : (overwrite [] p ([E.junk].take 1)).length = p + 1 := by
  simp [overwrite]

/-! ### The ways in which the call ends -/

/-- **`create_cache` comes to its end** unless its second `calloc` fails or the directory is
one for which it reads or writes out of bounds. -/
theorem createCache_returns_iff :
    (∃ r, createCache E d cache_dir n storage = .ok r) ↔
      (E.calloc d.ncalloc = true →
        E.calloc (d.ncalloc + 1) = true ∧ ∃ dir, cacheDir cache_dir = .ok dir) := by
  cases h1 : E.calloc d.ncalloc with
  | false => exact iff_of_true ⟨_, createCache_noMemory h1⟩ (fun h => by cases h)
  | true =>
    cases h2 : E.calloc (d.ncalloc + 1) with
    | false =>
      rw [createCache_crash h1 h2]
      exact iff_of_false (fun ⟨r, h⟩ => by cases h) (fun h => by cases (h rfl).1)
    | true =>
      cases hdir : cacheDir cache_dir with
      | error f =>
        rw [createCache_badDir h1 h2 hdir]
        refine iff_of_false (fun ⟨r, h⟩ => by cases h) (fun h => ?_)
        obtain ⟨-, dir, hok⟩ := h rfl
        cases hok
      | ok dir =>
        rw [createCache_eq h1 h2 hdir]
        refine iff_of_true ?_ (fun _ => ⟨rfl, dir, rfl⟩)
        dsimp only
        -- whatever the two branches return, their result is looked at and handed out
        generalize (if storage.inFile n = true then
          createCacheFile E { d with ncalloc := d.ncalloc + 2 } ⟨[], none, ⟨n, 0, 0, none, dir⟩⟩
        else createCacheBuffer E { d with ncalloc := d.ncalloc + 2 } ⟨[], none, ⟨n, 0, 0, none, dir⟩⟩) = x
        by_cases hx : x.1 = -1
        · exact ⟨_, if_pos hx⟩
        · exact ⟨_, if_neg hx⟩

/-- **`create_cache` for a file** that can be opened: the cache and what is made for it, or
the null pointer and what is left of it. -/
theorem createCache_file {dir : List Char} (h1 : E.calloc d.ncalloc = true)
    (h2 : E.calloc (d.ncalloc + 1) = true) (hdir : cacheDir cache_dir = .ok dir)
    (hs : storage.inFile n = true) (ho : E.fopen d.nfopen = true) {made : Disk}
    (hmade : made = ({ d with ncalloc := d.ncalloc + 2 } : Disk).filling E (d.newPath E dir) n) :
    createCache E d cache_dir n storage =
      if E.taken d 1 = 1 then .ok (some (fileCache (d.newPath E dir) dir n d.nstream), made)
      else .ok (none, fclose made d.nstream) := by
  have hrun := createCacheFile_filled (E := E) (d := { d with ncalloc := d.ncalloc + 2 })
    (c := ⟨[], none, ⟨n, 0, 0, none, dir⟩⟩) ho
  rw [createCache_eq h1 h2 hdir, if_pos hs, hrun, hmade]
  by_cases ht : E.taken d 1 = 1
  · rw [if_pos ht]
    simp only [show E.taken { d with ncalloc := d.ncalloc + 2 } 1 = 1 from ht, if_true]
    rfl
  · rw [if_neg ht]
    simp only [show ¬ E.taken { d with ncalloc := d.ncalloc + 2 } 1 = 1 from ht, if_false]
    rfl

/-! ### What is left, and what is there -/

/-- A call that made no file. -/
theorem Clean.of_same (hs : d'.streams = d.streams) (hn : d'.names = d.names) : Clean d d' :=
  ⟨fun fp h => by rwa [hs] at h, fun path h => by rwa [hn] at h⟩

/-- **A file that is left behind** is a new one: its path was not taken before. -/
theorem clean_making_iff (d : Disk) (k : ℕ) (path : List Char) (content : List UInt8) (start : ℕ)
    (held : List UInt8) :
    Clean d (fclose (({ d with ncalloc := k } : Disk).making path content start held) d.nstream) ↔
      d.names path ≠ none := by
  constructor
  · intro h
    apply h.names
    simp [fclose, Disk.making]
  · intro h
    refine ⟨fun fp hfp => ?_, fun p hp => ?_⟩
    · rcases eq_or_ne fp d.nstream with rfl | hne
      · simp [fclose] at hfp
      · simpa [fclose, Disk.making, hne] using hfp
    · rcases eq_or_ne p path with rfl | hne
      · exact h
      · simpa [fclose, Disk.making, hne] using hp

theorem wellBacked_making_iff (d : Disk) (path dir : List Char) (content : List UInt8) (start : ℕ)
    (held : List UInt8) :
    WellBacked (d.making path content start held) (fileCache path dir n d.nstream) n ↔
      content.length = n ∧ start + held.length = 0 := by
  have hst : (d.making path content start held).stream (fileCache path dir n d.nstream) =
      some ⟨(d.names path).getD d.nfile, start, held, false⟩ := Function.update_self ..
  have hfile : (d.making path content start held).files ((d.names path).getD d.nfile) = content :=
    Function.update_self ..
  constructor
  · rintro (⟨h, -⟩ | ⟨-, st, h, hlen, hpos⟩)
    · exact absurd rfl h
    · rw [hst] at h
      obtain rfl := Option.some.inj h
      rw [hfile] at hlen
      exact ⟨hlen, hpos⟩
  · rintro ⟨hlen, hpos⟩
    exact .inr ⟨rfl, _, hst, by rw [hfile]; exact hlen, hpos⟩

/-- **A file that took its byte** backs its cache if it ends where the capacity does and the stream
is sought back to its start. -/
theorem wellBacked_filling_iff (d : Disk) (path dir : List Char) (hn : n < 2 ^ 64) (ht : E.taken d 1 = 1) :
    WellBacked (d.filling E path n) (fileCache path dir n d.nstream) n ↔
      E.fseek (d.nfseek + 1) = true ∧ (n = 1 ∨ 0 < n ∧ n < 2 ^ 63 ∧ E.fseek d.nfseek = true) := by
  unfold Disk.filling
  rw [ht]
  by_cases hseek : E.fseek (d.nfseek + 1) = true
  · rw [if_pos hseek, wellBacked_making_iff, length_filled, fillPos_succ_iff hn]
    exact ⟨fun h => ⟨hseek, h.1⟩, fun h => ⟨h.2, rfl⟩⟩
  · -- the stream stands behind the byte, wherever the byte is
    rw [if_neg hseek, wellBacked_making_iff]
    refine iff_of_false ?_ (fun h => hseek h.1)
    rintro ⟨-, hpos⟩
    simp only [List.length_drop, List.take_succ_cons, List.take_zero, List.length_singleton] at hpos
    omega

/-- A file that did not take its byte is left behind if its path was not taken. -/
theorem clean_filling_iff (d : Disk) (k : ℕ) (path : List Char) :
    Clean d (fclose (({ d with ncalloc := k } : Disk).filling E path n) d.nstream) ↔ d.names path ≠ none := by
  unfold Disk.filling
  by_cases hseek : E.fseek (d.nfseek + 1) = true
  · simp only [if_pos hseek]
    exact clean_making_iff ..
  · simp only [if_neg hseek]
    exact clean_making_iff ..

/-- The two cases in which a file was opened. -/
theorem creates_file_iff {dir : List Char} (hn : n < 2 ^ 64) (h1 : E.calloc d.ncalloc = true)
    (h2 : E.calloc (d.ncalloc + 1) = true) (hdir : cacheDir cache_dir = .ok dir)
    (hs : storage.inFile n = true) (ho : E.fopen d.nfopen = true) {r : Option Cache × Disk}
    (hr : createCache E d cache_dir n storage = .ok r) :
    Creates d n r ↔ Fillable E d cache_dir n storage := by
  rw [createCache_file h1 h2 hdir hs ho rfl] at hr
  by_cases ht : E.taken d 1 = 1
  · rw [if_pos ht] at hr
    obtain rfl := Except.ok.inj hr
    -- the byte behind the file was written, and the stream is sought back to the start
    have hb := wellBacked_filling_iff (E := E) { d with ncalloc := d.ncalloc + 2 } (d.newPath E dir) dir hn ht
    constructor
    · intro hc _ _ _
      rw [if_pos ht]
      exact hb.1 (hc.2 _ rfl)
    · intro hf
      have hf' := hf h1 hs ho
      rw [if_pos ht] at hf'
      refine ⟨fun h => (by cases h), fun c hc => ?_⟩
      obtain rfl := Option.some.inj hc
      exact hb.2 hf'
  · rw [if_neg ht] at hr
    obtain rfl := Except.ok.inj hr
    -- the byte was not written: the file stays under its name without a cache
    have hclean := clean_filling_iff (E := E) (n := n) d (d.ncalloc + 2) (d.newPath E dir)
    constructor
    · intro hc _ _ _
      rw [if_neg ht]
      intro dir' hdir'
      obtain rfl : dir = dir' := Except.ok.inj (hdir.symm.trans hdir')
      exact hclean.1 (hc.1 rfl)
    · intro hf
      have hf' := hf h1 hs ho
      rw [if_neg ht] at hf'
      exact ⟨fun _ => hclean.2 (hf' dir hdir), fun c hc => by cases hc⟩

/-- **What `create_cache` owes**, wherever it comes to its end, it does exactly when the file
can be filled. -/
theorem creates_iff (hn : n < 2 ^ 64) {r : Option Cache × Disk}
    (hr : createCache E d cache_dir n storage = .ok r) :
    Creates d n r ↔ Fillable E d cache_dir n storage := by
  cases h1 : E.calloc d.ncalloc with
  | false =>
    rw [createCache_noMemory h1] at hr
    obtain rfl := Except.ok.inj hr
    refine iff_of_true ⟨fun _ => .of_same rfl rfl, fun c hc => by cases hc⟩ (fun h => ?_)
    rw [h1] at h
    cases h
  | true =>
    obtain ⟨h2, dir, hdir⟩ := createCache_returns_iff.1 ⟨r, hr⟩ h1
    -- only a call that opens a file has more to fulfil
    by_cases hf : storage.inFile n = true ∧ E.fopen d.nfopen = true
    · exact creates_file_iff hn h1 h2 hdir hf.1 hf.2 hr
    · refine iff_of_true ?_ (fun _ hs ho => absurd ⟨hs, ho⟩ hf)
      have hcase := createCache_created E d cache_dir n storage
      rw [hr] at hcase
      generalize hx : (Except.ok r : Except Fault (Option Cache × Disk)) = x at hcase
      cases hcase with
      | noMemory h => rw [h1] at h; cases h
      | crash h => cases hx
      | badDir h => cases hx
      | buffer hdir hs =>
        obtain rfl := Except.ok.inj hx
        by_cases hm : E.malloc d.nmalloc = true
        · rw [if_pos hm]
          refine ⟨fun h => (by cases h), fun c hc => ?_⟩
          obtain rfl := Option.some.inj hc
          exact .inl ⟨Option.some_ne_none _, rfl⟩
        · rw [if_neg hm]
          exact ⟨fun _ => .of_same rfl rfl, fun c hc => by cases hc⟩
      | notOpened hdir hs ho =>
        obtain rfl := Except.ok.inj hx
        exact ⟨fun _ => .of_same rfl rfl, fun c hc => by cases hc⟩
      | notFilled hdir hs ho ht => exact absurd ⟨hs, ho⟩ hf
      | file hdir hs ho hpos => exact absurd ⟨hs, ho⟩ hf

/-- **`create_cache`, for all outcomes of the library**: when it comes to its end, and when it
then leaves nothing of a failed call behind and backs a new cache by just its capacity. -/
theorem createCache_backed_iff (E : LibC) (d : Disk) (cache_dir : Option (List Char))
    (hn : n < 2 ^ 64) (storage : StorageTo) :
    ((∃ r, createCache E d cache_dir n storage = .ok r) ↔
      (E.calloc d.ncalloc = true →
        E.calloc (d.ncalloc + 1) = true ∧ ∃ dir, cacheDir cache_dir = .ok dir)) ∧
    ∀ r, createCache E d cache_dir n storage = .ok r →
      (Creates d n r ↔ Fillable E d cache_dir n storage) :=
  ⟨createCache_returns_iff, fun _ hr => creates_iff hn hr⟩

/-- A cache of 2000 bytes in a file, on a library that never fails. -/
theorem createCache_backed_iff_steady :
    ((∃ r, createCache .steady .empty none 2000 .file = .ok r) ↔
      (LibC.steady.calloc Disk.empty.ncalloc = true →
        LibC.steady.calloc (Disk.empty.ncalloc + 1) = true ∧ ∃ dir, cacheDir none = .ok dir)) ∧
    ∀ r, createCache .steady .empty none 2000 .file = .ok r →
      (Creates .empty 2000 r ↔ Fillable .steady .empty none 2000 .file) :=
  createCache_backed_iff .steady .empty none (by norm_num) .file

/-- A file that does not take its byte stays on the disk, and one for a cache of no bytes holds
a byte all the same. -/
theorem createCache_unclean :
    (∃ r, createCache { LibC.steady with fwrite := fun _ => some 0 } .empty none 2000 .file = .ok r ∧
      r.1 = none ∧ r.2.names "./cache_0_0".toList = some 0 ∧ ¬ Creates .empty 2000 r) ∧
    ∃ r, createCache .steady .empty none 0 .file = .ok r ∧
      r.1.isSome = true ∧ r.2.files 0 = [0xAA] ∧ ¬ Creates .empty 0 r := by
  constructor
  · refine ⟨_, rfl, rfl, rfl, fun h => ?_⟩
    exact (h.1 rfl).names "./cache_0_0".toList (by decide) rfl
  · refine ⟨_, rfl, rfl, rfl, fun h => ?_⟩
    rcases h.2 _ rfl with ⟨hbuf, -⟩ | ⟨-, st, hst, hlen, -⟩
    · exact hbuf rfl
    · obtain rfl := Option.some.inj hst
      cases hlen

end DocFerry
