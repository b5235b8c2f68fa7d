import DocFerry.Model.CachePart

/-!
# `hv.cpp`: the header and value of one frame

An `HV` takes a frame in pieces: eight header bytes, then as many value bytes as
the header announces, which go to a cache made on demand.
-/

namespace DocFerry

open Bytes

/-- `DEFAULT_MAX_MEMORY_CACHE` -/
def defaultMaxMemoryCache : UInt32 := 1024

/-- `vc::HV`. The member `to` is `storage`. -/
structure HV where
  storage : StorageTo
  header : Header
  value : Option Cache
  hlen : ℕ
  headComplete : Bool
  vlen : ℕ
  valueComplete : Bool
  deriving DecidableEq, Repr

/-- `vc::HV::HV`; `to` and `header` are not initialised. -/
def HV.new (storage : StorageTo) (header : Header) : HV := ⟨storage, header, none, 0, false, 0, false⟩

/-- `vc::HV::is_complete` -/
def HV.isComplete (s : HV) : Bool := s.headComplete && s.valueComplete

variable (E : LibC)

/-- `vc::HV::clear`: the value is let go only when it was meant for a file. -/
def HV.clear (s : HV) (d : Disk) : HV × Disk :=
  let s := { s with hlen := 0, vlen := 0, headComplete := false, valueComplete := false }
  if s.storage = .file ∨ s.storage = .shm then
    match s.value with
    | some c => ({ s with value := none }, leaveCache d c)
    | none => (s, d)
  else (s, d)

/-- `vc::HV::head_completed` -/
def HV.headCompleted (s : HV) : HV :=
  if s.headComplete = false then
    let header : Header := ⟨ntohl E.host s.header.id, ntohl E.host s.header.length⟩
    { s with
      headComplete := true
      header := header
      storage := if header.length < defaultMaxMemoryCache then .mem else .file }
  else s

/-- `vc::HV::value_completed` -/
def HV.valueCompleted (s : HV) : HV :=
  if s.valueComplete = false then { s with valueComplete := true } else s

/-- `memcpy` into the header object at byte offset `off`. -/
def memcpyHeader (h : Header) (off : ℕ) (data : List UInt8) : Except Fault Header :=
  if off + data.length ≤ sizeofHeader then
    .ok (Header.ofBytes E.host (overwrite (h.bytes E.host) off data))
  else .error (.outside off data.length)

/-- `vc::HV::write_head`. The destination `&header + hlen` counts in headers, so it
lies `sizeof(header) * hlen` bytes behind the start of the object. -/
def HV.writeHead (s : HV) (p_data : Option (List UInt8)) (data_len : ℤ) :
    Except Fault (ℤ × HV) :=
  match p_data with
  | none => .ok (0, s)
  | some data =>
    if data_len ≤ 0 then .ok (0, s)
    else if s.hlen < sizeofHeader then do
      let wlen := min (sizeofHeader - s.hlen) data_len.toNat
      let header ← memcpyHeader E s.header (sizeofHeader * s.hlen) (data.take wlen)
      let s := { s with header := header, hlen := s.hlen + wlen }
      return (wlen, if s.hlen = sizeofHeader then s.headCompleted E else s)
    else .ok (0, s)

/-- `vc::HV::write_value`. The cache is made for a file whatever `to` says, and a
cache that is there is used again. -/
def HV.writeValue (s : HV) (d : Disk) (p_data : Option (List UInt8)) (data_len : ℤ) :
    Except Fault (ℤ × HV × Disk) :=
  match p_data with
  | none => .ok (0, s, d)
  | some data =>
    if data_len ≤ 0 then .ok (0, s, d)
    else if s.headComplete = false then .ok (0, s, d)
    else do
      let (value, d) ← match s.value with
        | some c => pure (some c, d)
        | none => createCache E d none s.header.length.toNat .file
      match value with
      | none => return (-1, s, d)
      | some c =>
        let (wlen, c, d) := cachePush E d c data data_len.toNat
        let s := { s with value := some c }
        return (wlen, if cacheFull c then s.valueCompleted else s, d)

/-- `vc::HV::write(const char *, int)` -/
def HV.write (s : HV) (d : Disk) (p_data : Option (List UInt8)) (data_len : ℤ) :
    Except Fault (ℤ × HV × Disk) := do
  let (ret, s) ← s.writeHead E p_data data_len
  if ret = -1 then return (-1, s, d)
  let offset := ret
  let (ret, s, d) ← s.writeValue E d (p_data.map (·.drop offset.toNat)) (data_len - offset)
  if ret = -1 then return (-1, s, d)
  return (offset + ret, s, d)

/-- `vc::HV::write(iface::Header *, char *)`, which fills an `HV` for sending. -/
def HV.writeMsg (s : HV) (d : Disk) (header : Option Header) (value : Option (List UInt8)) :
    Except Fault (ℤ × HV × Disk) :=
  let s := match header with
    | some h => { s with header := ⟨htonl E.host h.id, htonl E.host h.length⟩ }
    | none => s
  match value with
  | none => .ok (0, s, d)
  | some data => do
    let (s, d) := match s.value with
      | some c =>
        let (c, d) := deleteCache d c
        ({ s with value := none }, leaveCache d c)
      | none => (s, d)
    let some h := header | throw .nullDeref
    let (value, d) ← createCache E d none h.length.toNat .mem
    match value with
    | none => return (-1, s, d)
    | some c =>
      let (nwrite, c, d) := cachePush E d c data h.length.toNat
      if intToSize nwrite ≠ h.length.toNat then
        let (c, d) := deleteCache d c
        return (-1, s, leaveCache d c)
      else return (0, { s with value := some c }, d)

end DocFerry
