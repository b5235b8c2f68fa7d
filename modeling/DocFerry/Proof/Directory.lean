import DocFerry.Lib.Path
import DocFerry.Proof.Backing
import DocFerry.Proof.Isolation

/-!
# Where the file of a cache lies

`create_cache` copies its directory only when that ends in a slash; of any other
nothing is left, and the path begins at the root.

* `cachePath_eq_iff`: when the printed path is whole.
* `Used.keeps`: the calls on a cache leave its path alone.
* `createCache_stored_iff`: the file lies in the directory asked for, exactly when `Placed` holds.
-/

namespace DocFerry

open Bytes

variable {E : LibC} {d : Disk} {c c' : Cache} {cache_dir : Option (List Char)} {n : ℕ}
  {storage : StorageTo} {N : Type}

/-- The file name that `create_cache_file` generates: `"cache_%lu_%lu"`. -/
def fileName (now : ℕ × ℕ) : List Char :=
  "cache_".toList ++ Nat.toDigits 10 now.1 ++ ['_'] ++ Nat.toDigits 10 now.2

/-- Memory is there, and the file opens and takes its byte. -/
structure LibC.Grants (E : LibC) (d : Disk) : Prop where
  calloc : E.calloc d.ncalloc = true
  calloc' : E.calloc (d.ncalloc + 1) = true
  fopen : E.fopen d.nfopen = true
  taken : E.taken d 1 = 1
  /-- the words of the clock are `unsigned long` -/
  clock : (E.gettimeofday d.nclock).1 < 2 ^ 64 ∧ (E.gettimeofday d.nclock).2 < 2 ^ 64

/-- One of the calls that are made on a cache while it is there. -/
inductive Used : Cache → Cache → Prop
  | push (E : LibC) (d : Disk) (c : Cache) (data : List UInt8) (len : ℕ) :
      Used c (cachePush E d c data len).2.1
  | pop (E : LibC) (d : Disk) (c : Cache) (len : ℕ) : Used c (cachePop E d c len).2.2.1

/-- The directory that the argument of `create_cache` stands for. -/
def asked (T : Path.Tree N) : Option (List Char) → Option N
  | none => some T.cwd
  | some dir => T.dir dir

/-- The file of the cache lies in the directory asked for, under the whole of its printed
path, and `delete_cache` removes just this path, whatever calls came before. -/
structure Stored (T : Path.Tree N) (cache_dir : Option (List Char)) (now : ℕ × ℕ) (d : Disk)
    (c : Cache) : Prop where
  holder : T.holder c.path = asked T cache_dir
  whole : c.path = c.priv.dir ++ '/' :: fileName now
  fits : c.path.length < maxPath
  backed : Backed d c
  removed : ∀ c' d', Relation.ReflTransGen Used c c' →
    (deleteCache d' c').2.names = Function.update d'.names c.path none

/-- Does the directory end in a slash of either kind? -/
def EndsInSlash (dir : List Char) : Prop := dir.getLast? = some '/' ∨ dir.getLast? = some '\\'

instance (dir : List Char) : Decidable (EndsInSlash dir) := inferInstanceAs (Decidable (_ ∨ _))

/-- The argument is a directory for which the path comes out right: none, one that ends in a
slash and leaves room for the name and one slash more, or the root by another name. -/
def Placed (T : Path.Tree N) (cache_dir : Option (List Char)) (now : ℕ × ℕ) : Prop :=
  ∀ dir, cache_dir = some dir →
    if EndsInSlash dir then dir.length + 1 + (fileName now).length < maxPath
    else T.dir dir = some T.root

/-! ### The path -/

theorem cachePath_take (dir : List Char) (now : ℕ × ℕ) :
    cachePath dir now = (dir ++ '/' :: fileName now).take (maxPath - 1) := by
  have hslash : "/cache_".toList = '/' :: "cache_".toList := by decide
  unfold cachePath fileName
  rw [hslash]
  simp only [List.append_assoc, List.cons_append]

/-- **The path is whole** when it leaves room for the terminating NUL. -/
theorem cachePath_eq_iff (dir : List Char) (now : ℕ × ℕ) :
    cachePath dir now = dir ++ '/' :: fileName now ↔ dir.length + 1 + (fileName now).length < maxPath := by
  rw [cachePath_take, List.take_eq_self_iff]
  simp only [List.length_append, List.length_cons, maxPath]
  omega

theorem length_cachePath (dir : List Char) (now : ℕ × ℕ) : (cachePath dir now).length < maxPath := by
  rw [cachePath_take, List.length_take]
  simp only [maxPath]
  omega

/-- The printed name has no slash. -/
theorem slash_notMem_fileName (now : ℕ × ℕ) : '/' ∉ fileName now := by
  have hdigits : ∀ k, '/' ∉ Nat.toDigits 10 k := by
    intro k h
    have := Nat.isDigit_of_mem_toDigits (by decide) (by decide) h
    simp at this
  unfold fileName
  simp only [List.mem_append, not_or]
  exact ⟨⟨⟨by decide, hdigits _⟩, by decide⟩, hdigits _⟩

theorem fileName_ne_nil (now : ℕ × ℕ) : fileName now ≠ [] := by
  unfold fileName
  simp only [List.append_assoc]
  exact List.append_ne_nil_of_left_ne_nil (by decide) _

/-- Two words of the clock take up to 20 digits each. -/
theorem length_fileName_le {now : ℕ × ℕ} (h : now.1 < 2 ^ 64 ∧ now.2 < 2 ^ 64) :
    (fileName now).length ≤ 47 := by
  have h1 := Nat.toDigits_length 10 now.1 20 (by norm_num) (by omega)
  have h2 := Nat.toDigits_length 10 now.2 20 (by norm_num) (by omega)
  unfold fileName
  simp only [List.length_append, List.length_singleton]
  have h0 : "cache_".toList.length = 6 := by decide
  omega

/-! ### The calls on a cache -/

theorem Used.keeps (h : Used c c') (hb : c.buf = none) : c'.path = c.path ∧ c'.buf = none := by
  cases h with
  | push E d _ data len =>
    cases hw : c.priv.wfp with
    | none =>
      rw [cachePush_deleted E d hb hw]
      exact ⟨rfl, hb⟩
    | some fp =>
      rw [cachePush_stream E d hb hw]
      exact ⟨rfl, hb⟩
  | pop E d _ len =>
    cases hw : c.priv.wfp with
    | none =>
      rw [cachePop_deleted E d hb hw]
      exact ⟨rfl, hb⟩
    | some fp =>
      rw [cachePop_stream E d hb hw]
      exact ⟨rfl, hb⟩

/-- Whatever was pushed and popped, the path is the one of the creation. -/
theorem Used.run_keeps (h : Relation.ReflTransGen Used c c') (hb : c.buf = none) :
    c'.path = c.path ∧ c'.buf = none := by
  induction h with
  | refl => exact ⟨rfl, hb⟩
  | tail _ hu ih =>
    obtain ⟨hpath, hbuf⟩ := hu.keeps ih.2
    exact ⟨hpath.trans ih.1, hbuf⟩

/-- **`delete_cache` on a file** removes its path and no other. -/
theorem deleteCache_names (d : Disk) (hb : c.buf = none) (hp : c.path ≠ []) :
    (deleteCache d c).2.names = Function.update d.names c.path none := by
  unfold deleteCache
  rw [hb]
  dsimp only
  rw [if_pos hp]
  cases c.priv.wfp with
  | none => rfl
  | some fp => rfl

/-! ### The directory -/

/-- What is kept of a directory. -/
theorem cacheDir_some {dir : List Char} (hne : dir ≠ []) (hlen : dir.length < maxPath) :
    cacheDir (some dir) = .ok (if EndsInSlash dir then dir else []) := by
  cases dir with
  | nil => exact absurd rfl hne
  | cons c l =>
    change (if (c :: l).getLast? = some '/' ∨ (c :: l).getLast? = some '\\' then
        if (c :: l).length < maxPath then Except.ok (c :: l) else .error (Fault.outside 0 (c :: l).length)
      else .ok []) = _
    by_cases h : EndsInSlash (c :: l)
    · rw [if_pos h]
      exact (if_pos h).trans (if_pos hlen)
    · rw [if_neg h]
      exact if_neg h

/-- The new cache in the directory that was kept. -/
theorem stored_iff_kept {T : Path.Tree N} {dir : List Char} (hE : E.Grants d)
    (hs : storage.inFile n = true) (hdir : cacheDir cache_dir = .ok dir) :
    (∃ c d', createCache E d cache_dir n storage = .ok (some c, d') ∧
      Stored T cache_dir (E.gettimeofday d.nclock) d' c) ↔
      dir.length + 1 + (fileName (E.gettimeofday d.nclock)).length < maxPath ∧
        (if dir = [] then some T.root else T.dir dir) = asked T cache_dir := by
  set now := E.gettimeofday d.nclock with hnow
  obtain ⟨d₁, hd₁⟩ : ∃ d₁, d₁ = ({ d with ncalloc := d.ncalloc + 2 } : Disk).filling E (d.newPath E dir) n :=
    ⟨_, rfl⟩
  have hbacked : Backed d₁ (fileCache (d.newPath E dir) dir n d.nstream) := by
    rw [hd₁]
    exact filling_backed ..
  have hrun := createCache_file hE.calloc hE.calloc' hdir hs hE.fopen hd₁
  rw [if_pos hE.taken] at hrun
  -- the last name of the path is the file name, so the rest names the directory
  have hjoin := T.holder_join (p := dir) (slash_notMem_fileName now) (fileName_ne_nil now)
  constructor
  · -- a path that was cut off is not the whole one
    rintro ⟨c, d', hc, hst⟩
    rw [hrun, Except.ok.injEq, Prod.mk.injEq, Option.some.injEq] at hc
    obtain ⟨rfl, rfl⟩ := hc
    have hwhole : cachePath dir now = dir ++ '/' :: fileName now := hst.whole
    have hholder : T.holder (cachePath dir now) = asked T cache_dir := hst.holder
    refine ⟨(cachePath_eq_iff dir now).1 hwhole, ?_⟩
    rw [← hholder, hwhole, hjoin]
  · rintro ⟨hfits, hasked⟩
    have hwhole : cachePath dir now = dir ++ '/' :: fileName now := (cachePath_eq_iff dir now).2 hfits
    refine ⟨_, _, hrun, ?_, hwhole, length_cachePath dir now, hbacked, fun c' d' hu => ?_⟩
    · change T.holder (cachePath dir now) = _
      rw [hwhole, hjoin, hasked]
    · obtain ⟨hpath, hbuf⟩ := Used.run_keeps hu rfl
      have hne' : c'.path ≠ [] := by
        rw [hpath]
        change cachePath dir now ≠ []
        rw [hwhole]
        simp
      rw [deleteCache_names d' hbuf hne', hpath]

/-- **The file of a cache lies in the directory asked for**, under the whole of its path, and
is what `delete_cache` removes, exactly when the argument is null, ends in a slash and leaves
room for the name behind one slash more, or names the root. -/
theorem createCache_stored_iff (T : Path.Tree N) (hE : E.Grants d) (hs : storage.inFile n = true)
    (hlen : ∀ dir, cache_dir = some dir →
      dir.length < maxPath - (fileName (E.gettimeofday d.nclock)).length) :
    (∃ c d', createCache E d cache_dir n storage = .ok (some c, d') ∧
      Stored T cache_dir (E.gettimeofday d.nclock) d' c) ↔
      Placed T cache_dir (E.gettimeofday d.nclock) := by
  have hname := length_fileName_le hE.clock
  cases cache_dir with
  | none =>
    rw [stored_iff_kept hE hs rfl, if_neg (by decide), T.dir_dot]
    refine iff_of_true ⟨?_, rfl⟩ (fun dir h => by cases h)
    simp only [List.length_singleton, maxPath]
    omega
  | some dir =>
    specialize hlen dir rfl
    have hplaced : Placed T (some dir) (E.gettimeofday d.nclock) ↔
        if EndsInSlash dir then
          dir.length + 1 + (fileName (E.gettimeofday d.nclock)).length < maxPath
        else T.dir dir = some T.root :=
      ⟨fun h => h dir rfl, fun h dir' h' => by obtain rfl := Option.some.inj h'; exact h⟩
    rw [hplaced]
    rcases eq_or_ne dir [] with rfl | hne
    · -- the character before an empty string is read
      rw [createCache_badDir hE.calloc hE.calloc' rfl]
      refine iff_of_false (fun ⟨c, d', h, _⟩ => by cases h) ?_
      rw [if_neg (by decide)]
      exact fun h => by cases h
    · rw [stored_iff_kept hE hs (cacheDir_some hne (by omega))]
      by_cases hslash : EndsInSlash dir
      · rw [if_pos hslash, if_pos hslash, if_neg hne]
        exact and_iff_left rfl
      · rw [if_neg hslash, if_neg hslash, if_pos rfl]
        refine ⟨fun h => h.2.symm, fun h => ⟨?_, h.symm⟩⟩
        simp only [List.length_nil, maxPath]
        omega

theorem LibC.steady_grants : LibC.steady.Grants .empty :=
  ⟨rfl, rfl, rfl, rfl, by decide, by decide⟩

/-- A cache in the directory `/tmp/`. -/
theorem createCache_stored_iff_tmp :
    (∃ c d', createCache .steady .empty (some "/tmp/".toList) 2000 .file = .ok (some c, d') ∧
      Stored (.lexical ["srv".toList]) (some "/tmp/".toList) (0, 0) d' c) ↔
      Placed (.lexical ["srv".toList]) (some "/tmp/".toList) (0, 0) :=
  createCache_stored_iff (.lexical ["srv".toList]) LibC.steady_grants rfl
    (fun dir h => by obtain rfl := Option.some.inj h; decide)

/-- Of the directory `/tmp` nothing is left, and the file lies in the root; of an empty name,
the character before it is read. -/
theorem createCache_strays :
    (∃ c d', createCache .steady .empty (some "/tmp".toList) 2000 .file = .ok (some c, d') ∧
      c.path = "/cache_0_0".toList ∧ ¬ Stored (.lexical ["srv".toList]) (some "/tmp".toList) (0, 0) d' c) ∧
    createCache .steady .empty (some []) 2000 .file = .error (.outside (2 ^ 64 - 1) 1) := by
  refine ⟨⟨_, _, rfl, by decide, fun h => ?_⟩, rfl⟩
  have hholder := h.holder
  revert hholder
  decide

end DocFerry
