import DocFerry.Model.World

/-!
# `cp_socket.cpp`

The calls of the socket library. A call on a descriptor that is not open fails with
`EBADF` and does not use up an answer of the system. Linux moves less than `2 ^ 31` bytes in
a call, so the counts fit in an `int`.
-/

namespace DocFerry

variable (E : Env)

/-- `cp_socket_valid` -/
def cpSocketValid (sock : ℤ) : Bool := sock ≠ 0 && sock ≠ invalidSocket

/-- The system makes the descriptor `sock`, which has to be a free one. -/
def World.openDesc (w : World) (sock : ℤ) (origin : Origin) : World :=
  { w with
    descs := Function.update w.descs sock (some ⟨origin, E.flags w.ndesc⟩)
    ndesc := w.ndesc + 1
    out := Function.update w.out sock [] }

/-- `cp_socket_tcp` and `cp_socket_udp` -/
def cpSocket : Proc ℤ := do
  let w ← get
  let w' := { w with nsocket := w.nsocket + 1 }
  match E.socket w.nsocket with
  | some sock =>
    if 0 ≤ sock ∧ w.descs sock = none then
      set (w'.openDesc E sock .created)
      return sock
    else
      set w'
      return -1
  | none =>
    set w'
    return -1

/-- `cp_inet_pton` -/
def cpInetPton (host : Option String) : ℤ :=
  match host with
  | none => 1
  | some host => if host = "0.0.0.0" then 1 else E.inet_pton host

/-- `cp_bind` -/
def cpBind (host : Option String) (_port : UInt16) : Proc ℤ := do
  let ret := cpInetPton E host
  if ret = 0 ∨ ret = -1 then return -2
  let w ← get
  set { w with nbind := w.nbind + 1 }
  return E.bind w.nbind

/-- `cp_listen` -/
def cpListen : Proc ℤ := do
  let w ← get
  set { w with nlisten := w.nlisten + 1 }
  return E.listen w.nlisten

/-- `cp_connect`, and what `errno` reads after it. -/
def cpConnect (host : Option String) (port : UInt16) : Proc (ℤ × Errno) := do
  let w ← get
  set { w with nconnect := w.nconnect + 1 }
  if host = none ∨ port = 0 then return (-2, E.errno w.nconnect)
  let ret := cpInetPton E host
  if ret = 0 ∨ ret = -1 then return (-3, E.errno w.nconnect)
  match E.connect w.nconnect with
  | .ok => return (0, E.errno w.nconnect)
  | .fail errno => return (-1, errno)

/-- `cp_accept`: the descriptor and the peer. -/
def cpAccept (sock : ℤ) : Proc (ℤ × Option Addr) := do
  let w ← get
  if w.descs sock = none then return (-1, none)
  let w' := { w with naccept := w.naccept + 1 }
  match E.accept w.naccept with
  | .conn sock peer =>
    if 0 ≤ sock ∧ w.descs sock = none then
      set (w'.openDesc E sock .accepted)
      return (sock, some peer)
    else
      set w'
      return (-1, none)
  | .fail =>
    set w'
    return (-1, none)

/-- `w` with `bs` taken by the system on the descriptor `sock`. -/
def World.taking (w : World) (sock : ℤ) (bs : List UInt8) : World :=
  { w with nsend := w.nsend + 1, out := Function.update w.out sock (w.out sock ++ bs) }

/-- `cp_send`: the result, and whether `errno` is that of a call that would block. `none` is
the null pointer. -/
def cpSend (sock : ℤ) (buf : Option (List UInt8)) (len : ℤ) : Proc (ℤ × Bool) := do
  if buf = none ∨ len < 1 then return (0, false)
  let bs := (buf.getD []).take len.toNat
  act (.send sock)
  let w ← get
  if w.descs sock = none then return (-1, false)
  match E.send w.nsend with
  | .all =>
    set (w.taking sock bs)
    return (bs.length, false)
  | .short n =>
    let n := min n (bs.length - 1)
    set (w.taking sock (bs.take n))
    return (n, false)
  | .wouldBlock =>
    set (w.taking sock [])
    return (-1, true)
  | .fatal =>
    set (w.taking sock [])
    return (-1, false)
  | .pipe =>
    -- the flags are 0, and the program handles no signal
    set (w.taking sock [])
    throw .sigpipe

/-- A call of `send` in `cp_send_all`: how far into the buffer the pointer is, how many bytes it asks
for, and the result. -/
structure SendCall where
  off : ℤ
  count : ℤ
  ret : ℤ
  deriving DecidableEq, Repr

/-- The variables of the loop in `cp_send_all`, and the calls made. -/
structure SendAll where
  n_total_send : ℤ
  calls : List SendCall

/-- The body of the loop in `cp_send_all`: `send` gives the result of the `i`-th call, in which so many
bytes are asked for. -/
def sendAllBody (send : ℕ → ℤ → ℤ) (len : ℤ) (s : SendAll) :
    Loop.Next Fault SendAll (ℤ × List SendCall) :=
  let n_curr_send := send s.calls.length (len - s.n_total_send)
  let calls := s.calls ++ [⟨s.n_total_send, len - s.n_total_send, n_curr_send⟩]
  if n_curr_send > 0 then
    let n_total_send := s.n_total_send + n_curr_send
    -- `err` is still what it was set to before the loop
    if n_total_send < len then .again ⟨n_total_send, calls⟩ else .done (len, calls)
  else if n_curr_send = 0 then .done (0, calls)
  else .done (-1, calls)

/-- `cp_send_all`, followed for at most `n` calls of `send`: the result, and the calls. -/
def cpSendAll (send : ℕ → ℤ → ℤ) (buf : Option (List UInt8)) (len : ℤ) (n : ℕ) :
    Option (Except Fault (ℤ × List SendCall)) :=
  if buf = none ∨ len < 1 then some (.ok (0, []))
  else Loop.run (sendAllBody send len) n ⟨0, []⟩

/-- `cp_recv`: the result and the bytes it left in the buffer, `buf` telling whether the
pointer to it is another than null. -/
def cpRecv (sock : ℤ) (buf : Bool) (len : ℕ) : Proc (ℤ × List UInt8) := do
  if buf = false ∨ len < 1 then return (0, [])
  act (.recv sock)
  let w ← get
  if w.descs sock = none then return (-1, [])
  set { w with nrecv := w.nrecv + 1 }
  match E.recv w.nrecv with
  | .data bs => return ((bs.take len).length, bs.take len)
  | .wouldBlock => return (-1, [])
  | .fatal => return (-1, [])

/-- `O_NONBLOCK` -/
def oNonblock : BitVec 32 := 0x800

/-- The status flags that `F_SETFL` changes. -/
def setflMask : BitVec 32 := 0x46C00

/-- `cp_setblocking` -/
def cpSetblocking (sock : ℤ) (is_block : Bool) : Proc ℤ := do
  let w ← get
  match w.descs sock with
  | none => return -1
  | some desc =>
    let mode := if is_block then desc.flags &&& oNonblock else desc.flags ||| oNonblock
    let flags := (desc.flags &&& ~~~setflMask) ||| (mode &&& setflMask)
    set { w with descs := Function.update w.descs sock (some { desc with flags := flags }) }
    return 0

/-- `cp_close_socket` -/
def cpCloseSocket (sock : ℤ) : Proc Unit :=
  modify fun w => { w with descs := Function.update w.descs sock none }

/-- `cp_getpeername` -/
def cpGetpeername (sock : ℤ) : Proc PeerResult := do
  let w ← get
  if w.descs sock = none then return .otherError
  set { w with ngetpeername := w.ngetpeername + 1 }
  return E.getpeername w.ngetpeername

/-- The result of `getsockopt(sock, SOL_SOCKET, SO_ERROR, nullptr, nullptr)`. -/
def getsockopt (sock : ℤ) : Proc ℤ := do
  let w ← get
  if w.descs sock = none then return -1
  set { w with ngetsockopt := w.ngetsockopt + 1 }
  return E.getsockopt w.ngetsockopt

end DocFerry
