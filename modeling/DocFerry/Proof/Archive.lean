import DocFerry.Proof.Directory
import DocFerry.Proof.Sessions

/-!
# The server keeps what its clients send

The file of a value is named after a clock reading. As long as no reading comes twice:

* `Disk.Shows`: what a file holds once its stream, if it has one, gives up what it holds back. It is kept
  when that stream is closed (`Disk.Shut.shows`).
* `Disk.Saves`: a value is in a file, and one that is not small in a file that is closed.
* `Progress`: what a call of `write` does to the files of others, and which file it works on.
* `Saving`: what the loop of `handle_read` has saved. `saving_rules` carries it through the loop.
* `values_saved`: however the events of the clients are interleaved, the value of every request that
  was understood is saved in a file of its own, as it was sent, and stays there.
-/

namespace DocFerry

open Prog

/-- The file `f` holds `bs`, or does so once the stream that is open on it gives up what it holds back. -/
inductive Disk.Shows (d : Disk) (f : ℕ) (bs : List UInt8) : Prop
  | closed (hfile : d.files f = bs) (hshut : ∀ fp st, d.streams fp = some st → st.file ≠ f) : Disk.Shows d f bs
  | opened {fp : ℕ} {st : Stream} (hs : d.streams fp = some st) (hf : st.file = f) (hseen : d.seen st = bs) :
      Disk.Shows d f bs

/-- The file `f` has a name and keeps `v`. If `v` has `DEFAULT_MAX_MEMORY_CACHE` bytes or more then it is
in the file, which is closed. -/
structure Disk.Saves (d : Disk) (f : ℕ) (v : List UInt8) : Prop where
  name : ∃ path, d.names path = some f
  shows : d.Shows f v
  large : defaultMaxMemoryCache.toNat ≤ v.length →
    d.files f = v ∧ ∀ fp st, d.streams fp = some st → st.file ≠ f

/-- Nothing has happened to the file `f` nor to a stream on it. -/
structure Disk.SameFile (d d' : Disk) (f : ℕ) : Prop where
  file : d'.files f = d.files f
  streams : ∀ fp st, st.file = f → (d'.streams fp = some st ↔ d.streams fp = some st)

/-- The first `n` clock readings differ from each other. -/
def LibC.Ticks (E : LibC) (n : ℕ) : Prop := ∀ i j, i < j → j < n → E.gettimeofday i ≠ E.gettimeofday j

/-- The words of the clock are `unsigned long`. -/
def LibC.ClockWords (E : LibC) : Prop := ∀ i, (E.gettimeofday i).1 < 2 ^ 64 ∧ (E.gettimeofday i).2 < 2 ^ 64

/-- Every file was named after a clock reading, and every open stream is on one, which no other has. -/
structure Disk.Dated (E : LibC) (d : Disk) : Prop where
  dated : ∀ path f, d.names path = some f → ∃ i < d.nclock, path = cachePath ['.'] (E.gettimeofday i)
  numbered : ∀ fp st, d.streams fp = some st → st.file < d.nfile
  single : ∀ fp st fp' st', d.streams fp = some st → d.streams fp' = some st' → st.file = st'.file → fp = fp'

/-- The request has a cache with room in it, in the file `f`. -/
def HV.Busy (d : Disk) (s : HV) (f : ℕ) : Prop :=
  ∃ c st, s.value = some c ∧ cacheFull c = false ∧ d.stream c = some st ∧ st.file = f

/-- What a call of `write` makes of the disk: it works on the file of its cache, or on a new one. -/
structure Progress (E : LibC) (s : HV) (d : Disk) (s' : HV) (d' : Disk) : Prop where
  sound : d'.Sound
  dated : d'.Dated E
  nfile : d.nfile ≤ d'.nfile
  names : ∀ path f, d.names path = some f → d'.names path = some f
  files : ∀ f, f < d.nfile → ¬ s.Busy d f → d.SameFile d' f
  own : ∀ c st, s'.value = some c → d'.stream c = some st →
    cacheFull c = false ∨ (∀ c, s.value = some c → cacheFull c = false) → s.Busy d st.file ∨ d.nfile ≤ st.file

/-- Since the disk `d₀` the values of the requests `qs` have been saved, in files that are not in `F`. What
was saved in `F` still is, and so are the files of the streams in `O`, which belong to others. -/
structure Saving (E : LibC) (F O : Set ℕ) (d₀ : Disk) (qs : List Request) (s : HV) (d : Disk) : Prop where
  sound : d.Sound
  dated : d.Dated E
  kept : ∀ f ∈ F, f < d.nfile ∧ ∀ v, d₀.Saves f v → d.Saves f v
  others : ∀ fp ∈ O, ∀ st, d₀.streams fp = some st → st.file ∈ F ∧ d.files st.file = d₀.files st.file
  names : ∀ path f, d₀.names path = some f → d.names path = some f
  busy : ∀ f, s.Busy d f → f ∉ F
  saved : ∃ fs, List.Forall₂ d.Saves fs (values qs) ∧ fs.Nodup ∧ ∀ f ∈ fs, f ∉ F ∧ ¬ s.Busy d f

variable {E : LibC} {s s' : HV} {d d' d₀ d₁ : Disk} {c : Cache} {F O : Set ℕ} {qs : List Request} {f n : ℕ}

/-! ### Names -/

/-- The printed name tells the clock reading. -/
theorem fileName_injective : Function.Injective fileName := by
  rintro ⟨a, b⟩ ⟨a', b'⟩ h
  have hu : ∀ k, ∀ x ∈ Nat.toDigits 10 k, x ≠ '_' := by
    intro k x hx heq
    exact Nat.underscore_not_in_toDigits (heq ▸ hx)
  have hdigits : ∀ {k l : ℕ}, Nat.toDigits 10 k = Nat.toDigits 10 l → k = l := by
    intro k l hkl
    rw [← Nat.ofDigitChars_ten_toDigits (n := k), hkl, Nat.ofDigitChars_ten_toDigits]
  unfold fileName at h
  simp only [List.append_assoc, List.singleton_append] at h
  have hcut := List.append_cancel_left h
  -- the first underscore behind the first number
  have hspan : ∀ (k : ℕ) (l : List Char),
      (Nat.toDigits 10 k ++ '_' :: l).takeWhile (· ≠ '_') = Nat.toDigits 10 k ∧
        (Nat.toDigits 10 k ++ '_' :: l).dropWhile (· ≠ '_') = '_' :: l := by
    intro k l
    have hall : ∀ x ∈ Nat.toDigits 10 k, decide (x ≠ '_') = true := fun x hx => by simpa using hu k x hx
    constructor
    · rw [List.takeWhile_append_of_pos hall]
      simp
    · rw [List.dropWhile_append_of_pos hall]
      simp
  obtain ⟨ht, hd⟩ := hspan a (Nat.toDigits 10 b)
  obtain ⟨ht', hd'⟩ := hspan a' (Nat.toDigits 10 b')
  rw [hcut] at ht hd
  rw [ht'] at ht
  rw [hd'] at hd
  rw [hdigits ht, hdigits (List.cons.inj hd).2]

/-- So does the path. -/
theorem path_injective {now now' : ℕ × ℕ} (h : now.1 < 2 ^ 64 ∧ now.2 < 2 ^ 64)
    (h' : now'.1 < 2 ^ 64 ∧ now'.2 < 2 ^ 64) (heq : cachePath ['.'] now = cachePath ['.'] now') : now = now' := by
  have hwhole : ∀ t : ℕ × ℕ, t.1 < 2 ^ 64 ∧ t.2 < 2 ^ 64 → cachePath ['.'] t = ['.'] ++ '/' :: fileName t := by
    intro t ht
    have hlen := length_fileName_le ht
    rw [cachePath_eq_iff]
    simp only [List.length_singleton, maxPath]
    omega
  rw [hwhole now h, hwhole now' h'] at heq
  apply fileName_injective
  exact (List.cons.inj (List.append_cancel_left heq)).2

/-- A new path is none of those that there are. -/
theorem newPath_free (hd : d.Dated E) (hE : E.ClockWords) (ht : E.Ticks (d.nclock + 1)) :
    d.names (d.newPath E ['.']) = none := by
  cases hn : d.names (d.newPath E ['.']) with
  | none => rfl
  | some f =>
    obtain ⟨i, hi, hpath⟩ := hd.dated _ _ hn
    have hsame := path_injective (hE _) (hE _) hpath
    exact absurd hsame.symm (ht i d.nclock hi (Nat.lt_succ_self _))

/-! ### One file -/

/-- What a file shows it still does where nothing happens to it. -/
theorem Disk.Shows.same {bs : List UInt8} (h : d.Shows f bs) (hs : d.SameFile d' f) : d'.Shows f bs := by
  cases h with
  | closed hfile hshut =>
    refine .closed (hs.file.trans hfile) fun fp st hst heq => ?_
    exact hshut fp st ((hs.streams fp st heq).1 hst) heq
  | @opened fp st hst hf hseen =>
    refine .opened ((hs.streams fp st hf).2 hst) hf ?_
    rw [← hseen, Disk.seen, Disk.seen, hf, hs.file]

/-- A saved value stays saved there. -/
theorem Disk.Saves.same {v : List UInt8} (h : d.Saves f v) (hs : d.SameFile d' f)
    (hn : ∀ path f, d.names path = some f → d'.names path = some f) : d'.Saves f v := by
  obtain ⟨⟨path, hname⟩, hshows, hlarge⟩ := h
  refine ⟨⟨path, hn path f hname⟩, hshows.same hs, fun hv => ?_⟩
  obtain ⟨hfile, hshut⟩ := hlarge hv
  exact ⟨hs.file.trans hfile, fun fp st hst heq => hshut fp st ((hs.streams fp st heq).1 hst) heq⟩

/-- What a file shows that is not open is in it. -/
theorem Disk.Shows.unheld {bs : List UInt8} (h : d.Shows f bs)
    (hshut : ∀ fp st, d.streams fp = some st → st.file ≠ f) : d.files f = bs := by
  cases h with
  | closed hfile => exact hfile
  | opened hs hf => exact absurd hf (hshut _ _ hs)

theorem Disk.SameFile.refl (d : Disk) (f : ℕ) : d.SameFile d f := ⟨rfl, fun _ _ _ => Iff.rfl⟩

theorem Disk.SameFile.trans (h : d.SameFile d₁ f) (h' : d₁.SameFile d' f) : d.SameFile d' f :=
  ⟨h'.file.trans h.file, fun fp st hst => (h'.streams fp st hst).trans (h.streams fp st hst)⟩

/-- A push into a stream on another file. -/
theorem pushing_same {fp k : ℕ} {st : Stream} {data : List UInt8} (hs : d.streams fp = some st)
    (hne : f ≠ st.file) : d.SameFile (d.pushing E fp st data k) f := by
  refine ⟨Function.update_of_ne hne _ _, fun fp' st' hst' => ?_⟩
  rcases eq_or_ne fp' fp with rfl | hfp
  · rw [Disk.pushing, writing_stream_self, hs, Option.some.injEq, Option.some.injEq]
    -- the file of the stream stays what it is
    refine iff_of_false (fun h => hne ?_) fun h => hne ?_
    · rw [← hst', ← h, Stream.wrote_file]
    · rw [← hst', ← h]
  · change Function.update d.streams fp _ fp' = some st' ↔ _
    rw [Function.update_of_ne hfp]

/-- A push of no bytes. -/
theorem pushing_zero {fp : ℕ} {st : Stream} {data : List UInt8} (hs : d.streams fp = some st) (f : ℕ) :
    d.SameFile (d.pushing E fp st data 0) f := by
  have hj : E.written d st [] = 0 := if_pos rfl
  have hst : st.wrote (data.take 0) 0 = st := by
    simp only [Stream.wrote, List.take_zero, List.append_nil, List.drop_zero, Nat.add_zero]
  refine ⟨?_, fun fp' st' _ => ?_⟩
  · simp only [Disk.pushing, Disk.writing, List.take_zero, hj, Bytes.overwrite_nil, Function.update_eq_self]
  · rw [List.take_zero] at hst
    simp only [Disk.pushing, Disk.writing, List.take_zero, hj, hst]
    rw [← hs, Function.update_eq_self]

/-! ### A call of `write` -/

/-- The disk with a new cache, whose file is new too. -/
theorem made_dated (hs : d.Sound) (hd : d.Dated E) (hE : E.ClockWords) (ht : E.Ticks (d.nclock + 1)) (n : ℕ) :
    (d.made E n).Dated E ∧ (d.made E n).nfile = d.nfile + 1 ∧
      (d.made E n).stream (d.newCache E n) = some ⟨d.nfile, 0, [], false⟩ ∧
      (∀ path f, d.names path = some f → (d.made E n).names path = some f) ∧
      ∀ f < d.nfile, d.SameFile (d.made E n) f := by
  have hfree := newPath_free hd hE ht
  have hget : (d.names (d.newPath E ['.'])).getD d.nfile = d.nfile := by rw [hfree]; rfl
  have hnfile : (d.made E n).nfile = d.nfile + 1 := if_pos hfree
  have hstream : (d.made E n).streams =
      Function.update d.streams d.nstream (some ⟨(d.names (d.newPath E ['.'])).getD d.nfile, 0, [], false⟩) := rfl
  have hnames : (d.made E n).names =
      Function.update d.names (d.newPath E ['.']) (some ((d.names (d.newPath E ['.'])).getD d.nfile)) := rfl
  have hfiles : (d.made E n).files =
      Function.update d.files ((d.names (d.newPath E ['.'])).getD d.nfile) (filler E n) := rfl
  rw [hget] at hstream hnames hfiles
  -- a stream is the new one, on the new file, or was open before
  have hcase : ∀ fp st, (d.made E n).streams fp = some st →
      (fp = d.nstream ∧ st.file = d.nfile) ∨ d.streams fp = some st ∧ st.file < d.nfile := by
    intro fp st hst
    rw [hstream] at hst
    rcases eq_or_ne fp d.nstream with rfl | hne
    · rw [Function.update_self] at hst
      cases hst
      exact .inl ⟨rfl, rfl⟩
    · rw [Function.update_of_ne hne] at hst
      exact .inr ⟨hst, hd.numbered fp st hst⟩
  refine ⟨⟨fun path f hf => ?_, fun fp st hst => ?_, fun fp st fp' st' hst hst' heq => ?_⟩, hnfile, ?_,
    fun path f hf => ?_, fun f hf => ⟨?_, fun fp st hst => ?_⟩⟩
  · rw [hnames] at hf
    rcases eq_or_ne path (d.newPath E ['.']) with rfl | hne
    · exact ⟨d.nclock, Nat.lt_succ_self _, rfl⟩
    · rw [Function.update_of_ne hne] at hf
      obtain ⟨i, hi, hpath⟩ := hd.dated path f hf
      exact ⟨i, Nat.lt_succ_of_lt hi, hpath⟩
  · rw [hnfile]
    rcases hcase fp st hst with ⟨-, hfile⟩ | ⟨-, hlt⟩
    · omega
    · omega
  · rcases hcase fp st hst with ⟨hnew, hfile⟩ | ⟨hold, hlt⟩
    · rcases hcase fp' st' hst' with ⟨hnew', -⟩ | ⟨-, hlt'⟩
      · rw [hnew, hnew']
      · omega
    · rcases hcase fp' st' hst' with ⟨-, hfile'⟩ | ⟨hold', -⟩
      · omega
      · exact hd.single fp st fp' st' hold hold' heq
  · have hnew : (d.made E n).stream (d.newCache E n) = (d.made E n).streams d.nstream := rfl
    rw [hnew, hstream, Function.update_self]
  · have hne : path ≠ d.newPath E ['.'] := by
      rintro rfl
      rw [hfree] at hf
      cases hf
    rw [hnames, Function.update_of_ne hne]
    exact hf
  · rw [hfiles, Function.update_of_ne hf.ne]
  · constructor
    · intro h
      rcases hcase fp st h with ⟨-, hfile⟩ | ⟨hold, -⟩
      · omega
      · exact hold
    · intro h
      have hlt := hs.opened fp st h
      rw [hstream, Function.update_of_ne hlt.ne]
      exact h

theorem pushing_dated {fp k : ℕ} {st : Stream} {data : List UInt8} (hd : d.Dated E)
    (hs : d.streams fp = some st) : (d.pushing E fp st data k).Dated E := by
  -- every stream is on the file that it was on
  have hcase : ∀ fp' st', (d.pushing E fp st data k).streams fp' = some st' →
      ∃ st₀, d.streams fp' = some st₀ ∧ st₀.file = st'.file := by
    intro fp' st' hst'
    rcases eq_or_ne fp' fp with rfl | hne
    · rw [Disk.pushing, writing_stream_self] at hst'
      cases hst'
      exact ⟨st, hs, rfl⟩
    · simp only [Disk.pushing, Disk.writing, Function.update_of_ne hne] at hst'
      exact ⟨st', hst', rfl⟩
  refine ⟨hd.dated, fun fp' st' hst' => ?_, fun fp₁ st₁ fp₂ st₂ h₁ h₂ heq => ?_⟩
  · obtain ⟨st₀, hst₀, hfile⟩ := hcase fp' st' hst'
    rw [← hfile]
    exact hd.numbered fp' st₀ hst₀
  · obtain ⟨st₁', hst₁, hfile₁⟩ := hcase fp₁ st₁ h₁
    obtain ⟨st₂', hst₂, hfile₂⟩ := hcase fp₂ st₂ h₂
    exact hd.single fp₁ st₁' fp₂ st₂' hst₁ hst₂ (by rw [hfile₁, hfile₂, heq])

/-- Where a cache writes. -/
theorem pushing_file {fp k : ℕ} {st st' : Stream} {data : List UInt8} (hw : c.priv.wfp = some fp)
    (h : (d.pushing E fp st data k).stream (c.grow k) = some st') : st'.file = st.file := by
  rw [Disk.pushing, writing_stream hw] at h
  cases h
  rfl

/-- **A call of `write`** works on the file of its cache, or on a new one. -/
theorem HV.Worked.progress (hw : s.Worked E d s' d') (hs : d.Sound) (hd : d.Dated E) (hE : E.ClockWords)
    (ht : E.Ticks d'.nclock) : Progress E s d s' d' := by
  cases hw with
  | kept hv =>
    refine ⟨hs, hd, le_rfl, fun _ _ h => h, fun f _ _ => .refl d f, fun c st hc hst hroom => ?_⟩
    rw [hv] at hc
    rcases hroom with hroom | hroom
    · exact .inl ⟨c, st, hc, hroom, hst, rfl⟩
    · exact .inl ⟨c, st, hc, hroom c hc, hst, rfl⟩
  | @pushed c d₁ n fp k st data hc hf hown hst hk hv =>
    have hsound := (pushing_moved hst E data k).sound (hc.sound hs)
    have hstream : d₁.stream c = some st := by rw [Disk.stream, hown, Option.bind_some, hst]
    have hle := hf.le
    cases hc with
    | old hval =>
      refine ⟨hsound, pushing_dated hd hst, le_rfl, fun _ _ h => h, fun f hlt hbusy => ?_, fun c' st' hc' hst' hroom => ?_⟩
      · by_cases hfull : cacheFull c = true
        · -- a full cache takes nothing
          have hwidx : c.priv.widx = c.priv.capacity := by simpa [cacheFull] using hfull
          obtain rfl : k = 0 := by omega
          exact pushing_zero hst f
        · refine pushing_same hst ?_
          rintro rfl
          exact hbusy ⟨c, st, hval, by simpa using hfull, hstream, rfl⟩
      · rw [hv] at hc'
        cases hc'
        rw [pushing_file hown hst']
        refine .inl ⟨c, st, hval, ?_, hstream, rfl⟩
        rcases hroom with hroom | hroom
        · simp only [cacheFull, beq_eq_false_iff_ne, ne_eq, Cache.grow_widx, Cache.grow_capacity] at hroom ⊢
          omega
        · exact hroom c hval
    | new hval =>
      obtain ⟨hdated, hnfile, hnew, hnames, hfiles⟩ := made_dated hs hd hE ht n
      obtain rfl : st = ⟨d.nfile, 0, [], false⟩ := Option.some.inj (hstream.symm.trans hnew)
      refine ⟨hsound, pushing_dated hdated hst, ?_, hnames, fun f hlt _ => ?_, fun c' st' hc' hst' _ => ?_⟩
      · change d.nfile ≤ (d.made E n).nfile
        omega
      · exact (hfiles f hlt).trans (pushing_same hst hlt.ne)
      · rw [hv] at hc'
        cases hc'
        rw [pushing_file hown hst']
        exact .inr le_rfl

/-- The file on which a call leaves the request busy. -/
theorem Progress.busy (h : Progress E s d s' d') (hb : s'.Busy d' f) : s.Busy d f ∨ d.nfile ≤ f := by
  obtain ⟨c, st, hc, hroom, hst, rfl⟩ := hb
  exact h.own c st hc hst (.inl hroom)

theorem HV.Worked.nclock_le (hw : s.Worked E d s' d') : d.nclock ≤ d'.nclock := by
  cases hw with
  | kept => exact le_rfl
  | pushed hc =>
    cases hc with
    | old => exact le_rfl
    | new => exact Nat.le_succ _

/-- A file that is there is kept by a call that is not busy with it. -/
theorem Disk.Saves.progress {v : List UInt8} (h : d.Saves f v) (hs : d.Sound) (hp : Progress E s d s' d')
    (hb : ¬ s.Busy d f) : d'.Saves f v := by
  obtain ⟨path, hname⟩ := h.name
  exact h.same (hp.files f (hs.named path f hname) hb) hp.names

/-- Saved values are in files that have a number. -/
theorem Disk.Sound.saved_lt (hs : d.Sound) {fs : List ℕ} {vs : List (List UInt8)} (h : List.Forall₂ d.Saves fs vs) :
    ∀ f ∈ fs, f < d.nfile := by
  have hboth : List.Forall₂ (fun f v => f < d.nfile ∧ d.Saves f v) fs vs := by
    apply h.imp
    intro f v hv
    obtain ⟨path, hname⟩ := hv.name
    exact ⟨hs.named path f hname, hv⟩
  exact ((List.forall₂_and_left _ _).1 hboth).1

/-- Saved values are kept by what keeps their files. -/
theorem saved_mono {fs : List ℕ} {vs : List (List UInt8)} (h : List.Forall₂ d.Saves fs vs)
    (hk : ∀ f ∈ fs, ∀ v, d.Saves f v → d'.Saves f v) : List.Forall₂ d'.Saves fs vs := by
  have hboth := (List.forall₂_and_left _ _).2 ⟨hk, h⟩
  apply hboth.imp
  intro f v hf
  exact hf.1 v hf.2

/-- **A call of `write`** keeps what was saved. -/
theorem Saving.worked (h : Saving E F O d₀ qs s d) (hp : Progress E s d s' d') : Saving E F O d₀ qs s' d' := by
  obtain ⟨fs, hfs, hnodup, hfree⟩ := h.saved
  have hlt := h.sound.saved_lt hfs
  refine ⟨hp.sound, hp.dated, fun f hf => ?_, fun fp hfp st hst => ?_,
    fun path f hf => hp.names path f (h.names path f hf), fun f hb hf => ?_, fs,
    saved_mono hfs fun f hf v hv => hv.progress h.sound hp (hfree f hf).2, hnodup,
    fun f hf => ⟨(hfree f hf).1, fun hb => ?_⟩⟩
  · obtain ⟨hf', hsaves⟩ := h.kept f hf
    refine ⟨lt_of_lt_of_le hf' hp.nfile, fun v hv => ?_⟩
    exact (hsaves v hv).progress h.sound hp fun hb => h.busy f hb hf
  · obtain ⟨hf, hsame⟩ := h.others fp hfp st hst
    have hfile := (hp.files st.file (h.kept _ hf).1 fun hb => h.busy _ hb hf).file
    exact ⟨hf, hfile.trans hsame⟩
  · rcases hp.busy hb with hb' | hnew
    · exact h.busy f hb' hf
    · have := (h.kept f hf).1
      omega
  · rcases hp.busy hb with hb' | hnew
    · exact (hfree f hf).2 hb'
    · have := hlt f hf
      omega

/-! ### A request that is complete -/

/-- From `d` to `d'` one stream was closed, or none, and nothing else happened to the files. -/
structure Disk.Shut (d d' : Disk) : Prop where
  names : d'.names = d.names
  nfile : d'.nfile = d.nfile
  nstream : d'.nstream = d.nstream
  nclock : d'.nclock = d.nclock
  shut : (d'.files = d.files ∧ d'.streams = d.streams) ∨
    ∃ fp st, d.streams fp = some st ∧ d'.files = Function.update d.files st.file (d.seen st) ∧
      d'.streams = Function.update d.streams fp none

theorem Disk.Shut.refl (d : Disk) : d.Shut d := ⟨rfl, rfl, rfl, rfl, .inl ⟨rfl, rfl⟩⟩

theorem Disk.Shut.replied (h : d.Shut d') : d.Shut d'.replied :=
  ⟨h.names, h.nfile, h.nstream, h.nclock, h.shut⟩

/-- What is open was open before. -/
theorem Disk.Shut.streams (h : d.Shut d') {fp : ℕ} {st : Stream} (hst : d'.streams fp = some st) :
    d.streams fp = some st := by
  rcases h.shut with ⟨-, hstreams⟩ | ⟨fp', st', -, -, hstreams⟩
  · rwa [hstreams] at hst
  · rw [hstreams] at hst
    rcases eq_or_ne fp fp' with rfl | hne
    · rw [Function.update_self] at hst
      cases hst
    · rwa [Function.update_of_ne hne] at hst

/-- A file on which no stream was closed. -/
theorem Disk.Shut.same (h : d.Shut d')
    (hf : ∀ fp st, d.streams fp = some st → d'.streams fp = none → st.file ≠ f) : d.SameFile d' f := by
  rcases h.shut with ⟨hfiles, hstreams⟩ | ⟨fp', st', hst', hfiles, hstreams⟩
  · refine ⟨by rw [hfiles], fun fp st _ => by rw [hstreams]⟩
  · have hne := hf fp' st' hst' (by rw [hstreams, Function.update_self])
    refine ⟨?_, fun fp st hst => ?_⟩
    · rw [hfiles, Function.update_of_ne hne.symm]
    · rcases eq_or_ne fp fp' with rfl | hfp
      · rw [hstreams, Function.update_self, hst', Option.some.injEq]
        refine iff_of_false (fun h => by cases h) ?_
        rintro rfl
        exact hne hst
      · rw [hstreams, Function.update_of_ne hfp]

theorem leaveCache_shut {st : Stream} (hst : d.stream c = some st) : d.Shut (leaveCache d c) := by
  obtain ⟨fp, hw, hs⟩ := stream_inv hst
  unfold leaveCache
  rw [hw]
  refine ⟨rfl, rfl, rfl, rfl, .inr ⟨fp, st, hs, ?_, rfl⟩⟩
  simp only [fclose, hs]

theorem Disk.Shut.sound (h : d.Shut d') (hs : d.Sound) : d'.Sound := by
  refine ⟨?_, ?_, fun fp st hst => ?_⟩
  · rw [h.names]
    exact hs.inj
  · rw [h.names, h.nfile]
    exact hs.named
  · rw [h.nstream]
    exact hs.opened fp st (h.streams hst)

theorem Disk.Shut.dated (h : d.Shut d') (hd : d.Dated E) : d'.Dated E := by
  refine ⟨?_, fun fp st hst => ?_, fun fp st fp' st' hst hst' => ?_⟩
  · rw [h.names, h.nclock]
    exact hd.dated
  · rw [h.nfile]
    exact hd.numbered fp st (h.streams hst)
  · exact hd.single fp st fp' st' (h.streams hst) (h.streams hst')

/-- **Closing a stream** puts what it holds back into its file, so that all files show what they did. -/
theorem Disk.Shut.shows {bs : List UInt8} (h : d.Shut d') (hd : d.Dated E) (hv : d.Shows f bs) : d'.Shows f bs := by
  by_cases hclosed : ∃ fp st, d.streams fp = some st ∧ d'.streams fp = none ∧ st.file = f
  · obtain ⟨fp, st, hst, hgone, rfl⟩ := hclosed
    -- the stream on the file is the one that was closed
    rcases h.shut with ⟨-, hstreams⟩ | ⟨fp', st', hst', hfiles, hstreams⟩
    · rw [hstreams, hst] at hgone
      cases hgone
    · have hfp : fp = fp' := by
        by_contra hne
        rw [hstreams, Function.update_of_ne hne, hst] at hgone
        cases hgone
      subst hfp
      obtain rfl := Option.some.inj (hst.symm.trans hst')
      cases hv with
      | closed _ hshut => exact absurd rfl (hshut fp st hst)
      | @opened fp₁ st₁ hst₁ hf hseen =>
        obtain rfl := hd.single fp₁ st₁ fp st hst₁ hst hf
        obtain rfl := Option.some.inj (hst₁.symm.trans hst)
        refine .closed ?_ fun fp₂ st₂ hst₂ heq => ?_
        · rw [hfiles, Function.update_self, hseen]
        · have hsame := hd.single fp₂ st₂ fp₁ st₁ (h.streams hst₂) hst heq
          rw [hsame, hgone] at hst₂
          cases hst₂
  · exact hv.same (h.same fun fp st hst hgone heq => hclosed ⟨fp, st, hst, hgone, heq⟩)

theorem Disk.Shut.saves {v : List UInt8} (h : d.Shut d') (hd : d.Dated E) (hv : d.Saves f v) : d'.Saves f v := by
  have hshows := h.shows hd hv.shows
  refine ⟨?_, hshows, fun hlarge => ?_⟩
  · rw [h.names]
    exact hv.name
  · have hshut : ∀ fp st, d'.streams fp = some st → st.file ≠ f :=
      fun fp st hst => (hv.large hlarge).2 fp st (h.streams hst)
    exact ⟨hshows.unheld hshut, hshut⟩

/-- A request that was cleared has no cache with room in it. -/
theorem HV.Got.cleared {id : UInt32} {stale : Bool} (h : s.Got d id stale) :
    d.Shut (s.clear d).2.replied ∧ ∀ d' f, ¬ (s.clear d).1.Busy d' f := by
  obtain ⟨c, hv, hc, hfull⟩ := h.value
  have hst := h.storage
  cases stale with
  | true =>
    rw [clear_mem hst]
    refine ⟨(Disk.Shut.refl d).replied, ?_⟩
    rintro d' f ⟨c', st, hc', hroom, -⟩
    obtain rfl : c' = c := Option.some.inj (hc'.symm.trans hv)
    rw [hfull] at hroom
    cases hroom
  | false =>
    have hleave : (s.clear d).2 = leaveCache d c := by simp [HV.clear, hst, hv]
    obtain ⟨st, hopen⟩ := hc.isOpen
    rw [clear_file hst, hleave]
    refine ⟨(leaveCache_shut hopen).replied, ?_⟩
    rintro d' f ⟨c', st, hc', -⟩
    cases hc'

/-- **The value of a request that is complete** is saved once the request is cleared: if it is large its
stream is closed then, and if not it is left open. -/
theorem HV.Got.saves {id : UInt32} {stale : Bool} {v : List UInt8} (h : s.Got d id stale) (hd : d.Dated E)
    (hf : s.InFile d v) (hne : v ≠ []) (hsmall : stale = true → v.length < defaultMaxMemoryCache.toNat) :
    ∃ c st, s.value = some c ∧ d.stream c = some st ∧ (s.clear d).2.replied.Saves st.file v := by
  obtain ⟨c, hv, -, hfull⟩ := h.value
  obtain ⟨st, hfill⟩ := hf c hv
  obtain ⟨fp, hw, hs⟩ := stream_inv hfill.stream
  obtain ⟨hshut, -⟩ := h.cleared
  have hst := h.storage
  have hshows := hshut.shows hd (.opened hs rfl (hfill.whole hfull hne))
  refine ⟨c, st, hv, hfill.stream, ?_, hshows, fun hlarge => ?_⟩
  · rw [hshut.names]
    exact ⟨c.path, hfill.name⟩
  · cases stale with
    | true =>
      have := hsmall rfl
      omega
    | false =>
      have hfile : s.storage = .file := hst
      have hclosed : (s.clear d).2.replied.streams = Function.update d.streams fp none := by
        simp only [HV.clear, hfile, hv, leaveCache, hw, Disk.replied, fclose, true_or, if_true]
      have hnone : ∀ fp' st', (s.clear d).2.replied.streams fp' = some st' → st'.file ≠ st.file := by
        intro fp' st' hst' heq
        have hold := hd.single fp' st' fp st (hshut.streams hst') hs heq
        rw [hclosed, hold, Function.update_self] at hst'
        cases hst'
      exact ⟨hshows.unheld hnone, hnone⟩

theorem values_wires {fs : List Frame} (hlarge : ∀ f ∈ fs, f.Large) :
    values (fs.map Frame.request) = fs.map Frame.value := by
  have hne : ∀ v ∈ fs.map Frame.value, decide (v ≠ []) = true := by
    intro v hv
    obtain ⟨f, hf, rfl⟩ := List.mem_map.1 hv
    have hlen : 0 < f.value.length := lt_of_lt_of_le (by decide) (hlarge f hf)
    exact decide_eq_true (List.length_pos_iff.1 hlen)
  have hvals : (fs.map Frame.request).filterMap Request.value = fs.map Frame.value := by
    rw [List.filterMap_map]
    exact congrFun (List.filterMap_eq_map (f := Frame.value)) fs
  rw [values, hvals, List.filter_eq_self.2 hne]

/-- The value that one request more adds. -/
theorem values_concat (qs : List Request) (q : Request) :
    values (qs ++ [q]) = values qs ∨
      ∃ v, q.value = some v ∧ v ≠ [] ∧ values (qs ++ [q]) = values qs ++ [v] := by
  rw [values_append]
  cases hq : q.value with
  | none => exact .inl (by simp [values, hq])
  | some v =>
    rcases eq_or_ne v [] with rfl | hne
    · exact .inl (by simp [values, hq])
    · exact .inr ⟨v, rfl, hne, by simp [values, hq, hne]⟩

/-- **A request that is complete and cleared** adds its value to what is saved. -/
theorem Saving.done {q : Request} {stale : Bool} (h : Saving E F O d₀ qs s d) (hp : Progress E s d s' d')
    (hap : Apart O d₀ s' d') (hgot : s'.Got d' q.id stale)
    (hroom : q.value ≠ none → ∀ c, s.value = some c → cacheFull c = false)
    (hfile : ∀ v, q.value = some v → s'.InFile d' v)
    (hsmall : ∀ v, q.value = some v → stale = true → v.length < defaultMaxMemoryCache.toNat) :
    Saving E F O d₀ (qs ++ [q]) (s'.clear d').1 (s'.clear d').2.replied := by
  obtain ⟨hshut, hidle⟩ := hgot.cleared
  have hw := h.worked hp
  obtain ⟨fs, hfs, hnodup, hfree⟩ := h.saved
  have hfs' : List.Forall₂ (s'.clear d').2.replied.Saves fs (values qs) :=
    saved_mono hfs fun f hf v hv => hshut.saves hw.dated (hv.progress h.sound hp (hfree f hf).2)
  refine ⟨hshut.sound hw.sound, hshut.dated hw.dated, fun f hf => ?_, fun fp hfp st hst => ?_, ?_,
    fun f hb => absurd hb (hidle _ f), ?_⟩
  · obtain ⟨hlt, hsaves⟩ := hw.kept f hf
    rw [hshut.nfile]
    exact ⟨hlt, fun v hv => hshut.saves hw.dated (hsaves v hv)⟩
  · -- the stream that was closed is none of the others'
    obtain ⟨hf, hsame⟩ := hw.others fp hfp st hst
    refine ⟨hf, Eq.trans ?_ hsame⟩
    refine (hshut.same fun fp' st' hst' hgone heq => ?_).file
    obtain rfl := hw.dated.single fp' st' fp st hst' ((hap.same fp hfp).trans hst) heq
    rw [hap.cleared.same fp' hfp, hst] at hgone
    cases hgone
  · rw [hshut.names]
    exact hw.names
  · rcases values_concat qs q with hvals | ⟨v, hq, hne, hvals⟩
    · rw [hvals]
      exact ⟨fs, hfs', hnodup, fun f hf => ⟨(hfree f hf).1, hidle _ f⟩⟩
    · -- its file was that of the cache, or is new
      obtain ⟨c, st, hc, hst, hv⟩ := hgot.saves hw.dated (hfile v hq) hne (hsmall v hq)
      have hnew : st.file ∉ F ∧ st.file ∉ fs := by
        rcases hp.own c st hc hst (.inr (hroom (by rw [hq]; simp))) with hbusy | hge
        · exact ⟨h.busy _ hbusy, fun hf => (hfree _ hf).2 hbusy⟩
        · refine ⟨fun hf => ?_, fun hf => ?_⟩
          · have := (h.kept _ hf).1
            omega
          · have := h.sound.saved_lt hfs _ hf
            omega
      rw [hvals]
      refine ⟨fs ++ [st.file], List.rel_append hfs' (.cons hv .nil), ?_, fun f hf => ⟨?_, hidle _ f⟩⟩
      · rw [List.nodup_append]
        refine ⟨hnodup, List.nodup_singleton _, ?_⟩
        intro a ha b hb
        rw [List.mem_singleton] at hb
        rintro rfl
        exact hnew.2 (hb ▸ ha)
      · rcases List.mem_append.1 hf with hf | hf
        · exact (hfree f hf).1
        · rw [List.mem_singleton] at hf
          rw [hf]
          exact hnew.1

/-! ### The loop -/

theorem LibC.Ticks.mono {m : ℕ} (h : E.Ticks n) (hm : m ≤ n) : E.Ticks m :=
  fun i j hij hj => h i j hij (lt_of_lt_of_le hj hm)

/-- A request that leaves its cache behind has a small value. -/
theorem nextRequest_small {stale : Bool} {bs : List UInt8} {q : Request} {k : ℕ} {v : List UInt8}
    (h : nextRequest stale bs = some (q, true, k)) (hv : q.value = some v) :
    v.length < defaultMaxMemoryCache.toNat := by
  obtain ⟨-, -, -, hleaves, rfl⟩ := nextRequest_inv h
  have hlt : (headOf bs).length < defaultMaxMemoryCache := of_decide_eq_true hleaves.symm
  cases stale with
  | true => cases hv
  | false =>
    obtain rfl := Option.some.inj hv
    exact (List.length_take_le _ _).trans_lt hlt

/-- **The loop of `handle_read`** saves the values, and leaves the streams of others alone. -/
theorem saving_rules (hE : E.ClockWords) (hO : ∀ fp ∈ O, d₀.streams fp ≠ none) :
    ScanRules E True fun qs s d =>
      Apart O d₀ s d ∧ d₀.nclock ≤ d.nclock ∧ (E.Ticks d.nclock → Saving E F O d₀ qs s d) := by
  have hstep : ∀ qs s d s' d', Apart O d₀ s d → (E.Ticks d.nclock → Saving E F O d₀ qs s d) →
      s.Worked E d s' d' → E.Ticks d'.nclock → Saving E F O d₀ qs s d ∧ Progress E s d s' d' := by
    intro qs s d s' d' hap hsav hw ht
    have h := hsav (ht.mono hw.nclock_le)
    exact ⟨h, hw.progress h.sound h.dated hE ht⟩
  constructor
  · rintro qs stale rest bs s d s' d' ⟨hap, hle, hsav⟩ - hw -
    refine ⟨hap.worked hO hw, hle.trans hw.nclock_le, fun ht => ?_⟩
    obtain ⟨h, hp⟩ := hstep qs s d s' d' hap hsav hw ht
    exact h.worked hp
  · rintro qs q stale stale' rest bs k s d s' d' ⟨hap, hle, hsav⟩ hpend hw hgot hnext hfile
    have hclock := hgot.cleared.1.nclock
    refine ⟨(hap.worked hO hw).cleared, by rw [hclock]; exact hle.trans hw.nclock_le, fun ht => ?_⟩
    rw [hclock] at ht
    obtain ⟨h, hp⟩ := hstep qs s d s' d' hap hsav hw ht
    refine h.done hp (hap.worked hO hw) hgot (hpend.open_value hnext) (hfile True.intro) fun v hv hst => ?_
    subst hst
    exact nextRequest_small hnext hv

/-! ### The server -/

/-- The values that the clients have sent are in the files `fs`, those of the `i`-th handler in `fs i`. -/
structure Archive (d : Disk) (heard : ℕ → List UInt8) (fs : ℕ → List ℕ) : Prop where
  saves : ∀ i, List.Forall₂ d.Saves (fs i) (values (requests.items false (heard i)))
  nodup : ∀ i, (fs i).Nodup
  apart : ∀ i j, i ≠ j → (fs i).Disjoint (fs j)

/-- `p` is a client behind the descriptor `k`. -/
def World.IsClient (w : World) (m : ℕ) (k : ℤ) (p : SharedPtr) : Prop :=
  w.look m k = some p ∧ (w.objs p.obj).cls = .virusHandler

/-- What holds of the files between two events. -/
structure Archives (E : Env) (m : ℕ) (heard : ℕ → List UInt8) (w : World) : Prop where
  dated : w.disk.Dated E.toLibC
  inFile : ∀ k p, w.IsClient m k p → requests.mode false (heard p.obj) = false →
    (w.objs p.obj).virus.req.InFile w.disk ((requests.rest false (heard p.obj)).drop 8)
  archive : ∃ fs, Archive w.disk heard fs ∧ ∀ k p, w.IsClient m k p → ∀ f,
    (w.objs p.obj).virus.req.Busy w.disk f → ∀ i, f ∉ fs i

section Server

variable {E : Env} {m : ℕ} {heard : ℕ → List UInt8} {w w' : World} {k : ℤ} {p : SharedPtr} {bit : Bit}

/-- **A step that touches no session** touches no file. -/
theorem Archives.unheard (h : Archives E m heard w) (hs : Sessions E m heard w) (hu : Unheard E m w w') :
    Archives E m heard w' := by
  -- a client that is busy was so before
  have hbusy : ∀ k p f, w'.IsClient m k p → (w'.objs p.obj).virus.req.Busy w'.disk f →
      w.IsClient m k p ∧ (w.objs p.obj).virus.req.Busy w.disk f := by
    rintro k p f ⟨hp, hc⟩ hb
    rw [hu.disk] at hb
    rcases hu.registered k p hp with ⟨hold, -⟩ | ⟨hnew, -⟩
    · have hr := hu.rests hs.server hold
      exact ⟨⟨hold, by rwa [← hr.cls]⟩, by rwa [← hr.req]⟩
    · obtain ⟨c, st, hval, -⟩ := hb
      obtain ⟨storage, head, hreq⟩ := (hu.fresh hp hnew).req
      rw [hreq] at hval
      cases hval
  obtain ⟨fs, harch, hfree⟩ := h.archive
  refine ⟨by rw [hu.disk]; exact h.dated, ?_, fs, by rw [hu.disk]; exact harch, fun k p hp f hb => ?_⟩
  · rintro k p ⟨hp, hc⟩ hmode
    rcases hu.registered k p hp with ⟨hold, -⟩ | ⟨hnew, -⟩
    · have hr := hu.rests hs.server hold
      rw [hr.req, hu.disk]
      exact h.inFile k p ⟨hold, by rwa [← hr.cls]⟩ hmode
    · intro c hval
      obtain ⟨storage, head, hreq⟩ := (hu.fresh hp hnew).req
      rw [hreq] at hval
      cases hval
  · obtain ⟨hp₁, hb₁⟩ := hbusy k p f hp hb
    exact hfree k p hp₁ f hb₁

/-- The files that a client must not touch: those with saved values, and those of the streams of other
clients. -/
def World.foreign (w : World) (m : ℕ) (k : ℤ) (fs : ℕ → List ℕ) : Set ℕ :=
  {f | (∃ i, f ∈ fs i) ∨ ∃ fp ∈ w.others m k, ∃ st, w.disk.streams fp = some st ∧ st.file = f}

/-- Before a client is read from, it has saved nothing of what comes. -/
theorem Archives.saving (h : Archives E m heard w) (hs : Sessions E m heard w) (hp : w.IsClient m k p)
    {fs : ℕ → List ℕ} (harch : Archive w.disk heard fs)
    (hfree : ∀ k p, w.IsClient m k p → ∀ f, (w.objs p.obj).virus.req.Busy w.disk f → ∀ i, f ∉ fs i) :
    Saving E.toLibC (w.foreign m k fs) (w.others m k) w.disk [] (w.objs p.obj).virus.req w.disk := by
  refine ⟨hs.sound, h.dated, fun f hf => ⟨?_, fun _ hv => hv⟩, fun fp hfp st hst => ⟨?_, rfl⟩,
    fun _ _ h => h, ?_, [], .nil, List.nodup_nil, by simp⟩
  · rcases hf with ⟨i, hi⟩ | ⟨fp, -, st, hst, rfl⟩
    · exact hs.sound.saved_lt (harch.saves i) f hi
    · exact h.dated.numbered fp st hst
  · exact .inr ⟨fp, hfp, st, hst, rfl⟩
  · rintro f hb (⟨i, hi⟩ | ⟨fp, ⟨k', p', hne, hp', hc', hh'⟩, st, hst, rfl⟩)
    · exact hfree k p hp f hb i hi
    · -- a file has one stream, and a stream one client
      obtain ⟨c, st₀, hc, -, hst₀, hfile⟩ := hb
      obtain ⟨own, hw, hopen⟩ := stream_inv hst₀
      obtain rfl := h.dated.single own st₀ fp st hopen hst hfile
      exact hs.apart k p k' p' own hp.1 hp' hne hp.2 hc' ⟨c, hc, hw⟩ hh'

/-- Who uses the same stream is busy with the same file. -/
theorem busy_congr {d d' : Disk} {f : ℕ} (hs : ∀ fp, s.Holds fp → d'.streams fp = d.streams fp) :
    s.Busy d' f ↔ s.Busy d f := by
  have hsame : ∀ c, s.value = some c → d'.stream c = d.stream c := by
    intro c hc
    unfold Disk.stream
    cases hw : c.priv.wfp with
    | none => rfl
    | some fp => exact hs fp ⟨c, hc, hw⟩
  constructor
  · rintro ⟨c, st, hc, hroom, hst, rfl⟩
    exact ⟨c, st, hc, hroom, by rwa [← hsame c hc], rfl⟩
  · rintro ⟨c, st, hc, hroom, hst, rfl⟩
    exact ⟨c, st, hc, hroom, by rwa [hsame c hc], rfl⟩

/-- What another client has in a file stays there. -/
theorem HV.InFile.kept {v : List UInt8} (h : s.InFile d₀ v)
    (hs : ∀ fp, s.Holds fp → d.streams fp = d₀.streams fp ∧
      ∀ st, d₀.streams fp = some st → d.files st.file = d₀.files st.file)
    (hn : ∀ path f, d₀.names path = some f → d.names path = some f) : s.InFile d v := by
  intro c hc
  obtain ⟨st, hstr, hstart, hheld, hwidx, hroom, ⟨b, hcon⟩, hname⟩ := h c hc
  obtain ⟨fp, hw, hopen⟩ := stream_inv hstr
  obtain ⟨hsame, hfile⟩ := hs fp ⟨c, hc, hw⟩
  refine ⟨st, ?_, hstart, hheld, hwidx, hroom, ⟨b, ?_⟩, hn _ _ hname⟩
  · rw [Disk.stream, hw, Option.bind_some, hsame]
    exact hopen
  · rw [hfile st hopen]
    exact hcon

/-- The values `vs` that the `n`-th handler understands behind the others go to the new files `gs`. -/
theorem Archive.grow {fs : ℕ → List ℕ} {gs : List ℕ} {vs : List (List UInt8)} {bs : List UInt8}
    (h : Archive d₀ heard fs) (hkept : ∀ i, ∀ f ∈ fs i, ∀ v, d₀.Saves f v → d.Saves f v)
    (hvals : values (requests.items false bs) = values (requests.items false (heard n)) ++ vs)
    (hgs : List.Forall₂ d.Saves gs vs) (hnodup : gs.Nodup) (hnew : ∀ f ∈ gs, ∀ i, f ∉ fs i) :
    Archive d (Function.update heard n bs) (Function.update fs n (fs n ++ gs)) := by
  refine ⟨fun i => ?_, fun i => ?_, fun i j hij => ?_⟩
  · rcases eq_or_ne i n with rfl | hi
    · rw [Function.update_self, Function.update_self, hvals]
      exact List.rel_append (saved_mono (h.saves _) (hkept _)) hgs
    · rw [Function.update_of_ne hi, Function.update_of_ne hi]
      exact saved_mono (h.saves i) (hkept i)
  · rcases eq_or_ne i n with rfl | hi
    · rw [Function.update_self]
      exact List.Nodup.append (h.nodup _) hnodup fun f hf hg => hnew f hg _ hf
    · rw [Function.update_of_ne hi]
      exact h.nodup i
  · -- the new files are none of those that there were
    have hdisj : ∀ i, i ≠ n → (fs n ++ gs).Disjoint (fs i) := by
      intro i hi f hf hf'
      rcases List.mem_append.1 hf with hf | hf
      · exact h.apart _ _ hi hf' hf
      · exact hnew f hf i hf'
    by_cases hi : i = n
    · rw [hi, Function.update_self, Function.update_of_ne (by rw [← hi]; exact hij.symm)]
      exact hdisj j (by rw [← hi]; exact hij.symm)
    · rw [Function.update_of_ne hi]
      by_cases hj : j = n
      · rw [hj, Function.update_self]
        exact (hdisj i hi).symm
      · rw [Function.update_of_ne hj]
        exact h.apart i j hij

/-- **A client whose bytes are read** has its values saved, and those of the others are kept. -/
theorem Archives.reads (h : Archives E m heard w) (hs : Sessions E m heard w) (hE : E.toLibC.Succeeds)
    (hclock : E.toLibC.ClockWords) (hp : w.IsClient m k p) {buf : List UInt8} (hn : buf ≠ [])
    (hlen : buf.length ≤ 65535) {virus : VirusHandler} (hret : Loop.Returns (VirusHandler.readBody E.toLibC)
      ⟨(w.objs p.obj).virus, w.disk, buf, buf.length⟩ (virus, d)) (ht : E.toLibC.Ticks d.nclock) :
    Archives E m (Function.update heard p.obj (heard p.obj ++ buf)) (w.readBy p.obj virus d) := by
  obtain ⟨fs, harch, hfree⟩ := h.archive
  have hown := hs.pends k p hp.1 hp.2
  obtain ⟨virus', d', hret', -, -, hfile, hap, -, hsav⟩ := readLoop_scans hE
    (saving_rules (F := w.foreign m k fs) hclock hs.others_open) [] hown (hown.cut hn hret) hn (by omega)
    (fun _ => h.inFile k p hp) ⟨hs.apart_of hp.1 hp.2, le_rfl, fun _ => h.saving hs hp harch hfree⟩
  obtain ⟨rfl, rfl⟩ := Prod.mk.inj (hret.unique hret')
  have hnew := hsav ht
  rw [List.nil_append] at hnew
  obtain ⟨gs, hgs, hnodup, hgfree⟩ := hnew.saved
  have hne : ∀ k' p', k' ≠ k → w.look m k' = some p' → p'.obj ≠ p.obj :=
    fun k' p' hk hp' => hs.server.obj_ne hp.1 hp' hk
  -- what a client is after the loop
  have hclient : ∀ k' p', (w.readBy p.obj virus d).IsClient m k' p' →
      (k' = k ∧ p' = p) ∨ k' ≠ k ∧ w.IsClient m k' p' ∧
        (w.readBy p.obj virus d).objs p'.obj = w.objs p'.obj ∧
          ∀ fp, (w.objs p'.obj).virus.req.Holds fp → fp ∈ w.others m k := by
    rintro k' p' ⟨hp', hc'⟩
    rcases eq_or_ne k' k with rfl | hk
    · exact .inl ⟨rfl, Option.some.inj (Eq.trans (Eq.symm hp') hp.1)⟩
    · have hsame := World.readBy_ne w virus d (hne k' p' hk hp')
      rw [hsame] at hc'
      exact .inr ⟨hk, ⟨hp', hc'⟩, hsame, fun fp hh => ⟨k', p', hk, hp', hc', hh⟩⟩
  have hself : (w.readBy p.obj virus d).objs p.obj = { w.objs p.obj with virus := virus } := World.readBy_self ..
  have hgrown : Archive d (Function.update heard p.obj (heard p.obj ++ buf))
      (Function.update fs p.obj (fs p.obj ++ gs)) :=
    harch.grow (fun i f hf v hv => (hnew.kept f (.inl ⟨i, hf⟩)).2 v hv)
      (by rw [Scanner.items_append, values_append]) hgs hnodup fun f hf i hi => (hgfree f hf).1 (.inl ⟨i, hi⟩)
  refine ⟨hnew.dated, fun k' p' hp' hmode => ?_, Function.update fs p.obj (fs p.obj ++ gs), hgrown,
    fun k' p' hp' f hb i hi => ?_⟩
  · rcases hclient k' p' hp' with ⟨rfl, rfl⟩ | ⟨hk, hp₀, hsame, hothers⟩
    · rw [Function.update_self, Scanner.mode_append] at hmode
      rw [hself, Function.update_self, Scanner.rest_append]
      exact hfile True.intro hmode
    · rw [Function.update_of_ne (hne k' p' hk hp₀.1)] at hmode
      rw [hsame, Function.update_of_ne (hne k' p' hk hp₀.1)]
      refine (h.inFile k' p' hp₀ hmode).kept (fun fp hh => ⟨hap.same fp (hothers fp hh), fun st hst => ?_⟩) hnew.names
      exact (hnew.others fp (hothers fp hh) st hst).2
  · have hmem : (∃ i, f ∈ fs i) ∨ f ∈ gs := by
      by_cases hi' : i = p.obj
      · rw [hi', Function.update_self, List.mem_append] at hi
        exact hi.imp (fun hf => ⟨_, hf⟩) id
      · rw [Function.update_of_ne hi'] at hi
        exact .inl ⟨i, hi⟩
    rcases hclient k' p' hp' with ⟨rfl, rfl⟩ | ⟨hk, hp₀, hsame, hothers⟩
    · rw [hself] at hb
      rcases hmem with hold | hg
      · exact hnew.busy f hb (.inl hold)
      · exact (hgfree f hg).2 hb
    · -- another client works on the file that it worked on
      rw [hsame] at hb
      have hb₀ := (busy_congr fun fp hh => hap.same fp (hothers fp hh)).1 hb
      rcases hmem with ⟨i, hf⟩ | hg
      · exact hfree k' p' hp₀ f hb₀ i hf
      · obtain ⟨c, st, hc, -, hst, hfile⟩ := hb₀
        obtain ⟨fp, hw, hopen⟩ := stream_inv hst
        exact (hgfree f hg).1 (.inr ⟨fp, hothers fp ⟨c, hc, hw⟩, st, hopen, hfile⟩)

/-- The clock is not set back while bytes are read. -/
theorem Sessions.nclock_le (hs : Sessions E m heard w) (hE : E.toLibC.Succeeds) (hp : w.look m k = some p)
    (hc : (w.objs p.obj).cls = .virusHandler) {buf : List UInt8} (hn : buf ≠ []) (hlen : buf.length ≤ 65535)
    {virus : VirusHandler} (hret : Loop.Returns (VirusHandler.readBody E.toLibC)
      ⟨(w.objs p.obj).virus, w.disk, buf, buf.length⟩ (virus, d)) : w.disk.nclock ≤ d.nclock := by
  have hrules : ScanRules E.toLibC False fun _ _ d => w.disk.nclock ≤ d.nclock := by
    constructor
    · intro _ _ _ _ s d s' d' h _ hw _
      exact h.trans hw.nclock_le
    · intro _ _ _ _ _ _ _ s d s' d' h _ hw hgot _ _
      rw [hgot.cleared.1.nclock]
      exact h.trans hw.nclock_le
  have hown := hs.pends k p hp hc
  obtain ⟨virus', d', hret', -, -, -, hle⟩ := readLoop_scans hE hrules [] hown (hown.cut hn hret) hn (by omega)
    (fun hf => hf.elim) le_rfl
  obtain ⟨rfl, rfl⟩ := Prod.mk.inj (hret.unique hret')
  exact hle

theorem Archives.init : Archives E m (fun _ => []) .init := by
  have hclient : ∀ k p, ¬ World.init.IsClient m k p := by
    rintro k p ⟨hp, -⟩
    rw [init_look] at hp
    cases hp
  refine ⟨⟨fun path f hf => ?_, fun fp st hst => ?_, fun fp st fp' st' hst => ?_⟩,
    fun k p hp => absurd hp (hclient k p), fun _ => [], ⟨fun i => ?_, fun i => List.nodup_nil, ?_⟩,
    fun k p hp => absurd hp (hclient k p)⟩
  · cases hf
  · cases hst
  · cases hst
  · rw [Scanner.items_none (requests.next_nil _)]
    exact .nil
  · intro i j _ f hf
    cases hf

/-- A step of the server whose clock readings differ so far keeps the files in order. -/
theorem Archives.hear {heard' : ℕ → List UInt8} (hh : Server.Hear E m heard w heard' w')
    (ih : E.toLibC.Ticks w.disk.nclock → Archives E m heard w) (hs : Sessions E m heard w)
    (hE : E.toLibC.Succeeds) (hclock : E.toLibC.ClockWords) (ht : E.toLibC.Ticks w'.disk.nclock) :
    Archives E m heard' w' := by
  cases hh.kinds hs with
  | unheard hu =>
    rw [hu.disk] at ht
    exact (ih ht).unheard hs hu
  | @reads k p buf virus d log hp hc hn hlen hret hS =>
    have hle : w.disk.nclock ≤ d.nclock := hs.nclock_le hE hp hc hn hlen hret
    have hlog : Unheard E m w { w with log := log } := .soft hs.server rfl rfl rfl rfl rfl rfl rfl
    exact ((ih (ht.mono hle)).unheard hs hlog).reads (hs.unheard hlog) hE hclock (k := k) ⟨hp, hc⟩ hn hlen
      hret ht

/-- The files are in order in every run in which no clock reading came twice. -/
theorem Server.Hears.archives (h : Server.Hears E m heard w) (hE : E.toLibC.Succeeds)
    (hclock : E.toLibC.ClockWords) (ht : E.toLibC.Ticks w.disk.nclock) : Archives E m heard w := by
  induction h with
  | init => exact .init
  | step h hs ih => exact .hear hs ih (h.sessions hE) hE hclock ht

/-- **Large frames** have their values in the first files of their client. -/
theorem Archive.frames {fs : ℕ → List ℕ} (h : Archive d heard fs) {frames : List Frame} {i : ℕ}
    (hlarge : ∀ f ∈ frames, f.Large) (hbytes : wires frames <+: heard i) :
    ∃ gs, gs <+: fs i ∧ List.Forall₂ (fun g (f : Frame) => d.files g = f.value) gs frames := by
  obtain ⟨qs, hqs⟩ := requests_of_wires hlarge hbytes
  have hsaves := h.saves i
  rw [← hqs, values_append, values_wires hlarge] at hsaves
  have hfirst := List.forall₂_take_append _ _ _ hsaves
  rw [List.forall₂_map_right_iff] at hfirst
  refine ⟨(fs i).take (frames.map Frame.value).length, List.take_prefix _ _, ?_⟩
  have hboth := (List.forall₂_and_left _ _).2 ⟨hlarge, hfirst.flip⟩
  have hfiles : List.Forall₂ (fun (f : Frame) g => d.files g = f.value) frames
      ((fs i).take (frames.map Frame.value).length) := by
    apply hboth.imp
    rintro f g ⟨hf, hsaved⟩
    exact (hsaved.large hf).1
  exact hfiles.flip

/-- **The server keeps what its clients send.** When the library does not fail and no two clock readings
so far are the same, then in every run, however the events of the clients are interleaved, there are files
for the values of all requests that were understood, one for each and all different. A value of
`DEFAULT_MAX_MEMORY_CACHE` bytes or more lies whole in its file; of a smaller one the stream, which is left
open, may hold bytes back. And what a client has sent so far of its next value is at the front of the file of
its cache, up to where its stream holds it back. -/
theorem values_saved (hE : E.toLibC.Succeeds) (hclock : E.toLibC.ClockWords) (h : Server.Hears E m heard w)
    (ht : E.toLibC.Ticks w.disk.nclock) :
    (∃ fs, Archive w.disk heard fs ∧ ∀ i (frames : List Frame), (∀ f ∈ frames, f.Large) →
      wires frames <+: heard i →
        ∃ gs, gs <+: fs i ∧ List.Forall₂ (fun g (f : Frame) => w.disk.files g = f.value) gs frames) ∧
      ∀ k p, w.IsClient m k p → requests.mode false (heard p.obj) = false →
        (w.objs p.obj).virus.req.InFile w.disk ((requests.rest false (heard p.obj)).drop 8) := by
  have ha := h.archives hE hclock ht
  obtain ⟨fs, harch, -⟩ := ha.archive
  exact ⟨⟨fs, harch, fun i frames hlarge hbytes => harch.frames hlarge hbytes⟩, ha.inFile⟩

/-- One client with one small request: its value is in a file. -/
theorem values_saved_one : ∃ heard, heard 1 = smallRequest ∧
    (∃ fs, Archive (World.answered smallRequest).disk heard fs ∧ ∀ i (frames : List Frame),
      (∀ f ∈ frames, f.Large) → wires frames <+: heard i → ∃ gs, gs <+: fs i ∧
        List.Forall₂ (fun g (f : Frame) => (World.answered smallRequest).disk.files g = f.value) gs frames) ∧
      ∀ k p, (World.answered smallRequest).IsClient 0 k p → requests.mode false (heard p.obj) = false →
        ((World.answered smallRequest).objs p.obj).virus.req.InFile (World.answered smallRequest).disk
          ((requests.rest false (heard p.obj)).drop 8) := by
  obtain ⟨heard, hrun, hheard⟩ := answered_hears
  have hwords : LibC.ClockWords .steady := fun _ => ⟨by norm_num [LibC.steady], by norm_num [LibC.steady]⟩
  refine ⟨heard, hheard, values_saved LibC.steady_succeeds hwords hrun ?_⟩
  -- the clock was read once
  intro i j hij hj
  rw [show (World.answered smallRequest).disk.nclock = 1 by decide +kernel] at hj
  omega

end Server

end DocFerry
