import DocFerry.Lib.Bytes
import DocFerry.Model.Iface

/-!
# `client/test_client.cpp`

`fake_client_send_file` after its `connect`: a frame is sent in two calls of `send`, and an answer is read
in two calls of `recv`. `FakeClient.step` is one such call. The lengths that it passes as an `int` only bound
what the system may take; no call moves more than is there.
-/

namespace DocFerry

open Bytes

/-- The calls of `fake_client_send_file`, in their order. -/
inductive ClientCall
  | sendHeader
  | sendValue
  | recvHeader
  | recvErrcode
  deriving DecidableEq, Repr

/-- `Response` -/
structure Response where
  header : Header
  errcode : UInt32
  deriving DecidableEq, Repr

/-- The variables of `fake_client_send_file`, and what was done on its connection. -/
structure FakeClient where
  /-- the next call; `none` behind `loop_send_recv_end` -/
  next : Option ClientCall
  /-- `req.header`, in network order -/
  req : Header
  data : List UInt8
  resp : Response
  /-- the bytes that the system took -/
  sent : List UInt8
  /-- the bytes that the system gave -/
  got : List UInt8
  /-- what the last `printf` shows -/
  printed : Option Response

namespace FakeClient

/-- `req.header.length`: the length of the file goes through `int` on its way. -/
def fileLength (file : List UInt8) : UInt32 := UInt32.ofNat file.length

/-- `fake_client_send_file` when the file was read; `resp` is not set. -/
def begun (host : Endian) (file : List UInt8) (resp : Response) : FakeClient where
  next := some .sendHeader
  req := ⟨htonl host 123456, htonl host (fileLength file)⟩
  data := file.take (fileLength file).toNat
  resp := resp
  sent := []
  got := []
  printed := none

variable (host : Endian) (c : FakeClient)

/-- A call of `send` on `buf` and what is made of its result. -/
def send (buf : List UInt8) (n_send : ℤ) (next : ClientCall) : FakeClient :=
  if n_send = -1 then { c with next := none }
  else if n_send = 0 then { c with next := none }
  else { c with next := some next, sent := c.sent ++ buf.take n_send.toNat }

/-- The checks behind a call of `recv` for `size` bytes. -/
def recv (size : ℕ) (n_recv : ℤ) (next : FakeClient) : FakeClient :=
  if n_recv = -1 then { c with next := none }
  else if n_recv = 0 then { c with next := none }
  else if n_recv ≠ size then { c with next := none }
  else next

/-- The bytes `bs` come in at the front of `resp.header`. -/
def takeHeader (bs : List UInt8) : FakeClient :=
  { c with
    got := c.got ++ bs
    resp := { c.resp with header := .ofBytes host (overwrite (c.resp.header.bytes host) 0 bs) } }

/-- The bytes `bs` come in at the front of `resp.errcode`. -/
def takeErrcode (bs : List UInt8) : FakeClient :=
  { c with
    got := c.got ++ bs
    resp := { c.resp with errcode := loadWord host (overwrite (storeWord host c.resp.errcode) 0 bs) } }

/-- The last `printf`. -/
def print : FakeClient :=
  { c with
    next := none
    printed := some ⟨⟨ntohl host c.resp.header.id, ntohl host c.resp.header.length⟩,
      ntohl host c.resp.errcode⟩ }

/-- One call on the connection, which returned `ret`; `input` are the bytes that are there to be read. -/
def step (input : List UInt8) (ret : ℤ) : FakeClient :=
  match c.next with
  | some .sendHeader => c.send (c.req.bytes host) ret .sendValue
  | some .sendValue => c.send c.data ret .recvHeader
  | some .recvHeader =>
    let c := c.takeHeader host (input.take ret.toNat)
    c.recv sizeofHeader ret { c with next := some .recvErrcode }
  | some .recvErrcode =>
    let c := c.takeErrcode host (input.take ret.toNat)
    c.recv 4 ret (c.print host)
  | none => c

/-- How many bytes the next call can move. -/
def atMost (input : List UInt8) : ℕ :=
  match c.next with
  | some .sendHeader => sizeofHeader
  | some .sendValue => c.data.length
  | some .recvHeader => min sizeofHeader input.length
  | some .recvErrcode => min 4 input.length
  | none => 0

/-- May the next call return `ret`? -/
def Allows (input : List UInt8) (ret : ℤ) : Prop := -1 ≤ ret ∧ ret ≤ c.atMost input

instance (input : List UInt8) (ret : ℤ) : Decidable (c.Allows input ret) := inferInstanceAs (Decidable (_ ∧ _))

end FakeClient

end DocFerry
