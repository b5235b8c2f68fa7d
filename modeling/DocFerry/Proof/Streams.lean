import DocFerry.Proof.HVInv

/-!
# Streams that are opened and closed

* `HV.Streams`: what a call of `write` does to the open streams, one constructor for each
  way; `write_streams` is the inversion lemma. The stream of a new cache is the only one
  that stays open.
* `Disk.SameStreams`, `Disk.Opens` and `Disk.Restored` say what a call of the library does to
  the streams.
-/

namespace DocFerry

open Bytes

variable {E : LibC} {s : HV} {d d' : Disk} {c : Cache}

/-- No stream was opened or closed, and no file was asked for. -/
structure Disk.SameStreams (d d' : Disk) : Prop where
  nstream : d'.nstream = d.nstream
  nclose : d'.nclose = d.nclose
  nfopen : d'.nfopen = d.nfopen
  closed : ∀ fp, d'.streams fp = none ↔ d.streams fp = none

theorem Disk.SameStreams.refl (d : Disk) : d.SameStreams d := ⟨rfl, rfl, rfl, fun _ => Iff.rfl⟩

theorem fwrite_streams (fp : ℕ) (data : List UInt8) : d.SameStreams (fwrite E d fp data).2 := by
  unfold fwrite
  cases hs : d.streams fp with
  | none => exact ⟨rfl, rfl, rfl, fun _ => Iff.rfl⟩
  | some st =>
    refine ⟨rfl, rfl, rfl, fun k => ?_⟩
    rcases eq_or_ne k fp with rfl | hk
    · simp [hs]
    · simp [hk]

/-- A push opens and closes nothing, and the cache keeps its stream. -/
theorem cachePush_streams (data : List UInt8) (n : ℕ) :
    d.SameStreams (cachePush E d c data n).2.2 ∧
      (cachePush E d c data n).2.1.priv.wfp = c.priv.wfp := by
  obtain ⟨path, buf, ⟨cap, widx, ridx, wfp, dir⟩⟩ := c
  unfold cachePush
  cases buf with
  | some buf =>
    simp only [and_true]
    exact .refl d
  | none =>
    cases wfp with
    | none =>
      simp only [and_true]
      exact .refl d
    | some fp =>
      simp only [and_true]
      exact fwrite_streams fp _

/-- The stream `d.nstream` was opened, and no other one opened or closed. -/
structure Disk.Opens (d d' : Disk) : Prop where
  nstream : d'.nstream = d.nstream + 1
  nclose : d'.nclose = d.nclose
  nfopen : d'.nfopen = d.nfopen + 1
  closed : ∀ fp, d'.streams fp = none ↔ fp ≠ d.nstream ∧ d.streams fp = none

theorem Disk.Opens.trans {d'' : Disk} (h : d.Opens d') (h' : d'.SameStreams d'') : d.Opens d'' :=
  ⟨h'.nstream.trans h.nstream, h'.nclose.trans h.nclose, h'.nfopen.trans h.nfopen,
    fun fp => (h'.closed fp).trans (h.closed fp)⟩

theorem making_opens (path : List Char) (content : List UInt8) (start : ℕ) (held : List UInt8) :
    d.Opens ({ d with ncalloc := d.ncalloc + 2 }.making path content start held) := by
  refine ⟨rfl, rfl, rfl, fun k => ?_⟩
  simp only [Disk.making]
  rcases eq_or_ne k d.nstream with rfl | hk
  · simp
  · simp [hk]

/-- No stream is open that was not, and one that was opened in between was closed once. -/
inductive Disk.Restored (d : Disk) : Disk → Prop
  | same {d' : Disk} (hs : d'.streams = d.streams) (hn : d'.nstream = d.nstream)
      (hc : d'.nclose = d.nclose) : Disk.Restored d d'
  | closed {d₁ : Disk} (h : d.Opens d₁) : Disk.Restored d (fclose d₁ d.nstream)

/-- What a call that returns `r` makes of the streams. -/
inductive HV.Streams (E : LibC) (s : HV) (d : Disk) : ℤ → HV → Disk → Prop
  /-- the value keeps its cache, or goes on without one -/
  | kept {r : ℤ} {s' : HV} {d' : Disk}
      (hv : (s'.value.map fun c => c.priv.wfp) = s.value.map fun c => c.priv.wfp)
      (hd : d.SameStreams d') : HV.Streams E s d r s' d'
  /-- the value has got a cache -/
  | made {r : ℤ} {s' : HV} {d' : Disk} {c : Cache} (hv : s.value = none) (ho : E.fopen d.nfopen = true)
      (hc : s'.value = some c) (hw : c.priv.wfp = some d.nstream) (hd : d.Opens d') :
      HV.Streams E s d r s' d'
  /-- there is no cache for the value -/
  | lost {s' : HV} {d' : Disk} (hv : s.value = none) (hv' : s'.value = none) (hd : d.Restored d') :
      HV.Streams E s d (-1) s' d'

/-- What a value part with a cache returns. -/
theorem writeValue_ok {data : List UInt8} {m : ℕ} {r : ℤ} {s' : HV} (hh : s.headComplete = true)
    (hv : s.value = some c) (hm : 0 < m) (hr : s.writeValue E d (some data) m = .ok (r, s', d')) :
    ∃ c', s'.value = some c' ∧ c'.priv.wfp = c.priv.wfp ∧ d.SameStreams d' := by
  obtain ⟨hd, hw⟩ := cachePush_streams (E := E) (d := d) (c := c) data m
  rw [writeValue_cached hh hv hm] at hr
  obtain ⟨-, hr⟩ := Prod.mk.inj (Except.ok.inj hr)
  obtain ⟨hs, hd'⟩ := Prod.mk.inj hr
  rw [hd'] at hd
  exact ⟨_, by rw [← hs]; rfl, hw, hd⟩

/-- **The value part of a call** opens at most the stream of a new cache. -/
theorem writeValue_streams {p : Option (List UInt8)} {n r : ℤ} {s' : HV}
    (hr : s.writeValue E d p n = .ok (r, s', d')) : HV.Streams E s d r s' d' := by
  cases p with
  | none =>
    cases hr
    exact .kept rfl (.refl d)
  | some data =>
    by_cases hn : n ≤ 0
    · simp only [HV.writeValue, hn, if_true] at hr
      cases hr
      exact .kept rfl (.refl d)
    by_cases hh : s.headComplete = false
    · simp only [HV.writeValue, hn, hh, if_true, if_false] at hr
      cases hr
      exact .kept rfl (.refl d)
    have hh : s.headComplete = true := by simpa using hh
    obtain ⟨m, rfl⟩ := Int.eq_ofNat_of_zero_le (show 0 ≤ n by omega)
    have hm : 0 < m := by omega
    cases hv : s.value with
    | some c =>
      obtain ⟨c', hv', hw, hd⟩ := writeValue_ok hh hv hm hr
      exact .kept (by rw [hv, hv']; exact congrArg some hw) hd
    | none =>
      rw [show s.writeValue E d (some data) (m : ℤ) = _ from writeValue_missing hh hv hm] at hr
      have hcr := createCache_created E d none s.header.length.toNat .file
      generalize createCache E d none s.header.length.toNat .file = x at hr hcr
      cases hcr with
      | noMemory h =>
        cases hr
        exact .lost hv hv (.same rfl rfl rfl)
      | crash h => cases hr
      | badDir h => cases hr
      | buffer _ hs => cases hs
      | notOpened _ _ _ =>
        cases hr
        exact .lost hv hv (.same rfl rfl rfl)
      | @notFilled dir content held start _ _ _ _ =>
        cases hr
        exact .lost hv hv (.closed (making_opens _ content start held))
      | @file dir content held start _ _ ho _ =>
        -- the new cache takes the first bytes of the value
        have hd := making_opens (d := d) (d.newPath E dir) content start held
        have hw : (fileCache (d.newPath E dir) dir s.header.length.toNat d.nstream).priv.wfp =
            some d.nstream := rfl
        generalize ({ d with ncalloc := d.ncalloc + 2 } : Disk).making (d.newPath E dir) content start held = d₁
          at hr hd
        generalize fileCache (d.newPath E dir) dir s.header.length.toNat d.nstream = c at hr hw
        obtain ⟨c', hv', hw', hd'⟩ := writeValue_ok (s := { s with value := some c }) hh rfl hm hr
        exact .made hv ho hv' (hw'.trans hw) (hd.trans hd')

theorem writeHead_value {p : Option (List UInt8)} {n r : ℤ} {s' : HV}
    (hr : s.writeHead E p n = .ok (r, s')) : s'.value = s.value := by
  cases p with
  | none => cases hr; rfl
  | some data =>
    simp only [HV.writeHead] at hr
    by_cases hn : n ≤ 0
    · rw [if_pos hn] at hr
      cases hr
      rfl
    rw [if_neg hn] at hr
    by_cases h8 : s.hlen < sizeofHeader
    · rw [if_pos h8] at hr
      cases hm : memcpyHeader E s.header (sizeofHeader * s.hlen)
          (data.take (min (sizeofHeader - s.hlen) n.toNat)) with
      | error f => rw [hm] at hr; cases hr
      | ok header =>
        rw [hm] at hr
        simp only [bind, Except.bind, pure, Except.pure] at hr
        cases hr
        split
        · unfold HV.headCompleted
          split <;> rfl
        · rfl
    · rw [if_neg h8] at hr
      cases hr
      rfl

/-- **A call of `write`** opens at most the stream of a new cache, and closes it only when
there is no cache for the value. -/
theorem write_streams {p : Option (List UInt8)} {n r : ℤ} {s' : HV}
    (hr : s.write E d p n = .ok (r, s', d')) : HV.Streams E s d r s' d' := by
  unfold HV.write at hr
  cases hh : s.writeHead E p n with
  | error f => rw [hh] at hr; cases hr
  | ok x =>
    obtain ⟨k, s₁⟩ := x
    -- the header part touches no cache
    have hv := writeHead_value hh
    rw [hh] at hr
    simp only [bind, Except.bind, pure, Except.pure] at hr
    by_cases hk : k = -1
    · rw [if_pos hk] at hr
      cases hr
      exact .kept (by rw [hv]) (.refl d)
    rw [if_neg hk] at hr
    cases hw : s₁.writeValue E d (p.map (·.drop k.toNat)) (n - k) with
    | error f => rw [hw] at hr; cases hr
    | ok y =>
      obtain ⟨ret, s₂, d₂⟩ := y
      -- what becomes of the streams is up to the value part
      have hst := writeValue_streams hw
      rw [hw] at hr
      simp only at hr
      by_cases hret : ret = -1
      · rw [if_pos hret] at hr
        cases hr
        subst hret
        cases hst with
        | kept hv' hd => exact .kept (by rw [hv', hv]) hd
        | made hv' ho hc hw' hd => exact .made (by rw [← hv, hv']) ho hc hw' hd
        | lost hv' hv'' hd => exact .lost (by rw [← hv, hv']) hv'' hd
      · rw [if_neg hret] at hr
        cases hr
        cases hst with
        | kept hv' hd => exact .kept (by rw [hv', hv]) hd
        | made hv' ho hc hw' hd => exact .made (by rw [← hv, hv']) ho hc hw' hd
        | lost _ _ _ => exact absurd rfl hret

end DocFerry
