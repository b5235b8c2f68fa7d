import DocFerry.Lib.Bytes

/-!
# Headers, states and byte order

The types of `interface.h`, the byte-order calls of the socket library and the
ways in which the code leaves defined behaviour.
-/

namespace DocFerry

open Bytes

/-- How a call stops without returning. -/
inductive Fault
  /-- a null pointer is followed -/
  | nullDeref
  /-- `memcpy` or an array index leaves its object: `len` bytes at offset `off` -/
  | outside (off len : ℕ)
  /-- an object is used that was destroyed before -/
  | destroyed
  /-- `FD_SET` for a number that is not in the set -/
  | fdSet (sock : ℤ)
  /-- the process is ended by `SIGPIPE` -/
  | sigpipe
  /-- a loop has not ended within the iterations the model allows it -/
  | outOfFuel
  deriving DecidableEq, Repr

/-- The 32-bit word that four bytes of memory hold. -/
def loadWord (e : Endian) (bs : List UInt8) : UInt32 := UInt32.ofNat (decode e bs)

/-- The four bytes in which a 32-bit word lies in memory. -/
def storeWord (e : Endian) (x : UInt32) : List UInt8 := encode e 4 x.toNat

/-- `htonl`: the word whose bytes on the host are those of `x` in network order. -/
def htonl (host : Endian) (x : UInt32) : UInt32 := loadWord host (storeWord .big x)

/-- `ntohl`: the number that the host bytes of `x` hold in network order. -/
def ntohl (host : Endian) (x : UInt32) : UInt32 := loadWord .big (storeWord host x)

/-- `iface::Header`, packed: `id` (an `int32_t`, as its 32 bits), then `length`. -/
structure Header where
  id : UInt32
  length : UInt32
  deriving DecidableEq, Repr

/-- `sizeof(iface::Header)` -/
def sizeofHeader : ℕ := 8

/-- The memory of a header object. -/
def Header.bytes (e : Endian) (h : Header) : List UInt8 := storeWord e h.id ++ storeWord e h.length

/-- The header object in eight bytes of memory. -/
def Header.ofBytes (e : Endian) (bs : List UInt8) : Header :=
  ⟨loadWord e (bs.take 4), loadWord e (bs.drop 4)⟩

/-- `iface::State` -/
inductive State
  | ok
  | dataError
  | connectionError
  | internalError
  deriving DecidableEq, Repr

/-- The value of the enumerator. -/
def State.code : State → UInt32
  | .ok => 0
  | .dataError => 1
  | .connectionError => 2
  | .internalError => 3

@[simp] theorem length_storeWord (e : Endian) (x : UInt32) : (storeWord e x).length = 4 :=
  length_encode e 4 _

@[simp] theorem Header.length_bytes (e : Endian) (h : Header) : (h.bytes e).length = 8 := by
  simp [Header.bytes]

@[simp] theorem loadWord_storeWord (e : Endian) (x : UInt32) : loadWord e (storeWord e x) = x := by
  have hx : x.toNat < 256 ^ 4 := x.toNat_lt
  unfold loadWord storeWord
  rw [decode_encode e hx, UInt32.ofNat_toNat]

theorem storeWord_loadWord (e : Endian) {bs : List UInt8} (h : bs.length = 4) :
    storeWord e (loadWord e bs) = bs := by
  have hd : decode e bs < 2 ^ 32 := by have := decode_lt e bs; rw [h] at this; exact this
  unfold loadWord storeWord
  rw [UInt32.toNat_ofNat_of_lt' hd, ← h, encode_decode]

/-- **`ntohl` of a word loaded from the wire is the number the wire carries.** -/
theorem ntohl_loadWord (host : Endian) {bs : List UInt8} (h : bs.length = 4) :
    ntohl host (loadWord host bs) = loadWord .big bs := by
  unfold ntohl; rw [storeWord_loadWord host h]

/-- **`htonl` puts a word into network order.** -/
theorem storeWord_htonl (host : Endian) (x : UInt32) :
    storeWord host (htonl host x) = storeWord .big x := by
  unfold htonl; rw [storeWord_loadWord host (length_storeWord _ _)]

@[simp] theorem ntohl_htonl (host : Endian) (x : UInt32) : ntohl host (htonl host x) = x := by
  unfold ntohl; rw [storeWord_htonl, loadWord_storeWord]

end DocFerry
