import DocFerry.Model.Stdio

/-!
# `cache_part.cpp`

A cache of `capacity` bytes in memory or in a file, filled at `widx` and emptied
at `ridx`. `size_t` has 64 bits, `int` and `uint32_t` have 32.
-/

namespace DocFerry

open Bytes

/-- `MEMORY_CACHE_LEN` -/
def memoryCacheLen : ℕ := 1048576

/-- `MAX_PATH` -/
def maxPath : ℕ := 1024

/-- `a - b` in `size_t` -/
def sizeSub (a b : ℕ) : ℕ := (a + 2 ^ 64 - b) % 2 ^ 64

/-- `a + b` in `size_t` -/
def sizeAdd (a b : ℕ) : ℕ := (a + b) % 2 ^ 64

/-- A `size_t` or `uint32_t` value converted to `int`. -/
def toInt (n : ℕ) : ℤ := Int.bmod n (2 ^ 32)

/-- A `size_t` value converted to `long`. -/
def toLong (n : ℕ) : ℤ := Int.bmod n (2 ^ 64)

/-- An `int` value converted to `size_t`. -/
def intToSize (n : ℤ) : ℕ := (n % 2 ^ 64).toNat

/-- `private_cache_t` -/
structure PrivateCache where
  capacity : ℕ
  widx : ℕ
  ridx : ℕ
  wfp : Option ℕ
  dir : List Char
  deriving DecidableEq, Repr

/-- `cache_t` -/
structure Cache where
  path : List Char
  buf : Option (List UInt8)
  priv : PrivateCache
  deriving DecidableEq, Repr

variable (E : LibC) (d : Disk)

/-- `create_cache_buffer` -/
def createCacheBuffer (c : Cache) : ℤ × Cache × Disk :=
  match malloc E d with
  | (true, d) => (0, { c with buf := some (List.replicate c.priv.capacity E.junk) }, d)
  | (false, d) => (-1, c, d)

/-- The path `create_cache_file` prints: `"%s/cache_%lu_%lu"` in `MAX_PATH` bytes. -/
def cachePath (dir : List Char) (now : ℕ × ℕ) : List Char :=
  (dir ++ "/cache_".toList ++ Nat.toDigits 10 now.1 ++ ['_'] ++ Nat.toDigits 10 now.2).take
    (maxPath - 1)

/-- `create_cache_file`: the file is made as long as the capacity by one byte
written at its end; neither seek is checked. -/
def createCacheFile (c : Cache) : ℤ × Cache × Disk :=
  let (now, d) := gettimeofday E d
  let c := { c with path := cachePath c.priv.dir now }
  match fopen E d c.path with
  | (none, d) => (-1, c, d)
  | (some fp, d) =>
    let c := { c with priv := { c.priv with wfp := some fp } }
    let d := fseek E d fp (toLong c.priv.capacity - 1)
    let (n, d) := fwrite E d fp [E.junk]
    let d := fseek E d fp 0
    (if n ≠ 1 then -1 else 0, c, d)

/-- `leave_cache`: the stream is closed, the buffer is not freed. -/
def leaveCache (c : Cache) : Disk :=
  match c.priv.wfp with
  | some fp => fclose d fp
  | none => d

/-- The directory part: `cache_dir` is taken over only when it ends in a slash. -/
def cacheDir : Option (List Char) → Except Fault (List Char)
  | none => .ok ['.']
  | some [] => .error (.outside (2 ^ 64 - 1) 1)
  | some dir =>
    if dir.getLast? = some '/' ∨ dir.getLast? = some '\\' then
      if dir.length < maxPath then .ok dir else .error (.outside 0 dir.length)
    else .ok []

/-- `create_cache`; `none` is the null pointer. The second `calloc` is not checked. -/
def createCache (cache_dir : Option (List Char)) (capacity : ℕ) (storage : StorageTo) :
    Except Fault (Option Cache × Disk) := do
  let (ok, d) := calloc E d
  if !ok then return (none, d)
  let (ok, d) := calloc E d
  if !ok then throw .nullDeref
  let dir ← cacheDir cache_dir
  let c : Cache := ⟨[], none, ⟨capacity, 0, 0, none, dir⟩⟩
  let (ret, c, d) :=
    match storage with
    | .auto => if capacity > memoryCacheLen then createCacheFile E d c else createCacheBuffer E d c
    | .mem => createCacheBuffer E d c
    | .file | .shm => createCacheFile E d c
  if ret = -1 then return (none, leaveCache d c)
  return (some c, d)

/-- `cache_pop`: the count returned, the bytes stored through `p_data`, the cache. -/
def cachePop (c : Cache) (data_len : ℕ) : ℕ × List UInt8 × Cache × Disk :=
  let rlen := sizeSub c.priv.widx c.priv.ridx
  let rlen := if rlen > data_len then data_len else rlen
  match c.buf, c.priv.wfp with
  | some buf, _ =>
    (rlen, (buf.drop c.priv.ridx).take rlen,
      { c with priv := { c.priv with ridx := sizeAdd c.priv.ridx rlen } }, d)
  | none, some fp =>
    let (bs, d) := fread E d fp rlen
    (bs.length, bs, { c with priv := { c.priv with ridx := sizeAdd c.priv.ridx bs.length } }, d)
  | none, none => (2 ^ 64 - 1, [], c, d)

/-- `cache_push`: how many bytes the cache took, as an `int`. -/
def cachePush (c : Cache) (p_data : List UInt8) (data_len : ℕ) : ℤ × Cache × Disk :=
  let wlen := sizeSub c.priv.capacity c.priv.widx
  let wlen := if wlen > data_len then data_len else wlen
  match c.buf, c.priv.wfp with
  | some buf, _ =>
    (toInt wlen,
      { c with
        buf := some (overwrite buf c.priv.widx (p_data.take wlen))
        priv := { c.priv with widx := sizeAdd c.priv.widx wlen } }, d)
  | none, some fp =>
    let (wlen, d) := fwrite E d fp (p_data.take wlen)
    (toInt wlen, { c with priv := { c.priv with widx := sizeAdd c.priv.widx wlen } }, d)
  | none, none => (-1, c, d)

/-- `delete_cache`: frees the buffer or removes the file. -/
def deleteCache (c : Cache) : Cache × Disk :=
  match c.buf with
  | some _ => ({ c with buf := none }, d)
  | none =>
    if c.path ≠ [] then
      ({ c with priv := { c.priv with wfp := none } },
        remove (match c.priv.wfp with | some fp => fclose d fp | none => d) c.path)
    else (c, d)

/-- `cache_full` -/
def cacheFull (c : Cache) : Bool := c.priv.widx == c.priv.capacity

end DocFerry
