import DocFerry.Model.Iface

/-!
# The C library: memory, streams and files

`LibC` holds the answers of the library, one sequence per function and indexed by
the number of calls made before; `Disk` is the state the calls act on: the
directory, the files, the open streams and how many calls were made.

Streams are buffered: what `fwrite` has accepted may be held back, and how much of it goes
on into the file is the library's affair. A successful `fseek` writes what is held back,
and so does `fclose`, which is not followed where the system fails it. A path is
resolved when the stream is opened, so a removed file lives on under the streams
that have it open. Paths are compared as they are written: two spellings are two names.
-/

namespace DocFerry

open Bytes

/-- `enum storage_to` -/
inductive StorageTo
  | auto
  | mem
  | shm
  | file
  deriving DecidableEq, Repr

/-- The host and what its C library answers. -/
structure LibC where
  /-- byte order of the host -/
  host : Endian
  /-- does the `i`-th call get memory -/
  calloc : ℕ → Bool
  malloc : ℕ → Bool
  /-- does the `i`-th call open the file -/
  fopen : ℕ → Bool
  /-- does the `i`-th call seek, its target being legal -/
  fseek : ℕ → Bool
  /-- `none`: the `i`-th call takes all bytes, `some k`: at most `k` of them -/
  fwrite : ℕ → Option ℕ
  /-- how many of the bytes that the stream has then the `i`-th call of `fwrite` puts into the file -/
  flushed : ℕ → ℕ
  fread : ℕ → Option ℕ
  /-- `tv_sec` and `tv_usec` of the `i`-th clock reading -/
  gettimeofday : ℕ → ℕ × ℕ
  /-- what memory that nothing was stored in reads as -/
  junk : UInt8
  junkTo : StorageTo
  junkHeader : Header

/-- The library never fails: memory is there, files open, streams take every byte. -/
structure LibC.Succeeds (E : LibC) : Prop where
  calloc : ∀ i, E.calloc i = true
  malloc : ∀ i, E.malloc i = true
  fopen : ∀ i, E.fopen i = true
  fseek : ∀ i, E.fseek i = true
  fwrite : ∀ i, E.fwrite i = none

/-- A little-endian host whose library never fails, whose streams hold back what they can, and whose
clock stands still. -/
def LibC.steady : LibC where
  host := .little
  calloc _ := true
  malloc _ := true
  fopen _ := true
  fseek _ := true
  fwrite _ := none
  flushed _ := 0
  fread _ := none
  gettimeofday _ := (0, 0)
  junk := 0xAA
  junkTo := .auto
  junkHeader := ⟨0, 0⟩

theorem LibC.steady_succeeds : LibC.steady.Succeeds :=
  ⟨fun _ => rfl, fun _ => rfl, fun _ => rfl, fun _ => rfl, fun _ => rfl⟩

/-- An open `FILE`: its file, the bytes that it holds back, where in the file these belong, and whether
its mode allows reads. -/
structure Stream where
  file : ℕ
  start : ℕ
  held : List UInt8
  readable : Bool
  deriving DecidableEq, Repr

/-- The file position, behind the bytes that are held back. -/
def Stream.pos (st : Stream) : ℕ := st.start + st.held.length

/-- The state the library acts on. -/
structure Disk where
  /-- the directory: which file a path names -/
  names : List Char → Option ℕ
  /-- contents of the files -/
  files : ℕ → List UInt8
  nfile : ℕ
  /-- the open streams -/
  streams : ℕ → Option Stream
  nstream : ℕ
  /-- how often each stream was closed -/
  nclose : ℕ → ℕ
  ncalloc : ℕ
  nmalloc : ℕ
  nfopen : ℕ
  nfseek : ℕ
  nfwrite : ℕ
  nfread : ℕ
  nclock : ℕ

/-- No file, no stream, no call made. -/
def Disk.empty : Disk :=
  ⟨fun _ => none, fun _ => [], 0, fun _ => none, 0, fun _ => 0, 0, 0, 0, 0, 0, 0, 0⟩

variable (E : LibC) (d : Disk)

def calloc : Bool × Disk := (E.calloc d.ncalloc, { d with ncalloc := d.ncalloc + 1 })

def malloc : Bool × Disk := (E.malloc d.nmalloc, { d with nmalloc := d.nmalloc + 1 })

def gettimeofday : (ℕ × ℕ) × Disk := (E.gettimeofday d.nclock, { d with nclock := d.nclock + 1 })

/-- `fopen(path, "wb")`: a file of that name is emptied, else a new one is made.
The stream is write-only. -/
def fopen (path : List Char) : Option ℕ × Disk :=
  let d' := { d with nfopen := d.nfopen + 1 }
  if E.fopen d.nfopen then
    let f := (d.names path).getD d.nfile
    (some d.nstream,
      { d' with
        names := Function.update d.names path (some f)
        files := Function.update d.files f []
        nfile := if d.names path = none then d.nfile + 1 else d.nfile
        streams := Function.update d.streams d.nstream (some ⟨f, 0, [], false⟩)
        nstream := d.nstream + 1 })
  else (none, d')

/-- What the file of `st` holds once the bytes that are held back are in it. -/
def Disk.seen (st : Stream) : List UInt8 := overwrite (d.files st.file) st.start st.held

/-- `fseek(fp, off, SEEK_SET)`; a negative target is refused. -/
def fseek (fp : ℕ) (off : ℤ) : Disk :=
  let d' := { d with nfseek := d.nfseek + 1 }
  match d.streams fp with
  | none => d'
  | some st =>
    if 0 ≤ off ∧ E.fseek d.nfseek then
      { d' with
        files := Function.update d.files st.file (d.seen st)
        streams := Function.update d.streams fp (some { st with start := off.toNat, held := [] }) }
    else d'

/-- How many of `n` bytes the next `fwrite` takes. -/
def LibC.taken (n : ℕ) : ℕ :=
  match E.fwrite d.nfwrite with
  | none => n
  | some k => min k n

/-- How many bytes of the stream the next `fwrite` puts into the file; without data it does nothing. -/
def LibC.written (st : Stream) (data : List UInt8) : ℕ :=
  if data = [] then 0 else min (E.flushed d.nfwrite) (st.held.length + E.taken d data.length)

/-- `fwrite(data, 1, data.length, fp)`: the count and the state after it. -/
def fwrite (fp : ℕ) (data : List UInt8) : ℕ × Disk :=
  let d' := { d with nfwrite := d.nfwrite + 1 }
  match d.streams fp with
  | none => (0, d')
  | some st =>
    let n := E.taken d data.length
    let j := E.written d st data
    let held := st.held ++ data.take n
    (n,
      { d' with
        files := Function.update d.files st.file
          (overwrite (d.files st.file) st.start (held.take j))
        streams := Function.update d.streams fp
          (some { st with start := st.start + j, held := held.drop j }) })

/-- `fread(p, 1, n, fp)`: the bytes read and the state after it. A stream opened
for writing only gives none. -/
def fread (fp : ℕ) (n : ℕ) : List UInt8 × Disk :=
  let d' := { d with nfread := d.nfread + 1 }
  match d.streams fp with
  | none => ([], d')
  | some st =>
    if st.readable then
      let n := match E.fread d.nfread with
        | none => n
        | some k => min k n
      let bs := ((d.files st.file).drop st.pos).take n
      (bs, { d' with
        streams := Function.update d.streams fp (some { st with start := st.start + bs.length }) })
    else ([], d')

/-- `fclose(fp)` -/
def fclose (fp : ℕ) : Disk :=
  { d with
    files := match d.streams fp with
      | some st => Function.update d.files st.file (d.seen st)
      | none => d.files
    streams := Function.update d.streams fp none
    nclose := Function.update d.nclose fp (d.nclose fp + 1) }

/-- `remove(path)` -/
def remove (path : List Char) : Disk := { d with names := Function.update d.names path none }

end DocFerry
