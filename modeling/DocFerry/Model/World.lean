import DocFerry.Model.VirusHandler

/-!
# The process and its sockets

`Env` holds the answers of the operating system, one sequence per call and indexed by
the number of calls made before; `World` is the state of the process: the handler
objects, the maps that own them, the descriptors and the log of what was done. The
platform is Linux.

A handler is known by its number, which stands for the pointer `this`. The entry of a map is the
only owner of its handler: `World.erase` takes the entry out and destroys the object, which is
`dead` from then on. A virtual call on a dead object, a send, a receive or a look at its queue is a
fault. The one use that is followed is the read of `sock` at the end of `close`; the memory that was
given back holds the number there as before, or a number of no open descriptor.
A constructor that goes on after its object was destroyed writes into such memory, and a handler
registered twice is destroyed twice; what comes of these two is not followed.
-/

namespace DocFerry

/-- `ss_addr_t` -/
abbrev Addr := String × UInt16

/-- What `accept` answers. -/
inductive AcceptResult
  /-- a connection from `peer` on the descriptor `sock` -/
  | conn (sock : ℤ) (peer : Addr)
  | fail
  deriving DecidableEq, Repr

/-- What `getpeername` answers. -/
inductive PeerResult
  | peer (addr : Addr)
  /-- `EINVAL` or `ENOTCONN` -/
  | notConnected
  | otherError
  deriving DecidableEq, Repr

/-- The values of `errno` that `BaseSocket::connect` tells apart. -/
inductive Errno
  /-- `EISCONN` -/
  | isConnected
  /-- `EALREADY` or `EINPROGRESS` -/
  | inProgress
  | other
  deriving DecidableEq, Repr

/-- What `connect` answers. -/
inductive ConnectResult
  | ok
  | fail (errno : Errno)
  deriving DecidableEq, Repr

/-- What `send` answers. -/
inductive SendResult
  | all
  /-- at most `n` bytes, and not all -/
  | short (n : ℕ)
  /-- `EAGAIN` or `EWOULDBLOCK` -/
  | wouldBlock
  | fatal
  /-- `EPIPE`: the connection was reset, and without `MSG_NOSIGNAL` the process gets `SIGPIPE` -/
  | pipe
  deriving DecidableEq, Repr

/-- What `recv` answers. -/
inductive RecvResult
  /-- no byte stands for the end of the stream -/
  | data (bs : List UInt8)
  /-- `EAGAIN` or `EWOULDBLOCK` -/
  | wouldBlock
  | fatal
  deriving DecidableEq, Repr

/-- What `select` answers: an error, or which of the bits it leaves set. -/
inductive SelectResult
  | error
  | ready (r w e : ℤ → Bool)

/-- The operating system beneath the C library. -/
structure Env extends LibC where
  socket : ℕ → Option ℤ
  bind : ℕ → ℤ
  listen : ℕ → ℤ
  connect : ℕ → ConnectResult
  /-- what `errno` reads before the `i`-th call of `cp_connect` -/
  errno : ℕ → Errno
  /-- `inet_pton` on `AF_INET`; 1 is success -/
  inet_pton : String → ℤ
  accept : ℕ → AcceptResult
  /-- does `errno` read `EAGAIN`, `EWOULDBLOCK` or `ECONNABORTED` after the `i`-th `accept` -/
  acceptErrno : ℕ → Bool
  getpeername : ℕ → PeerResult
  getsockopt : ℕ → ℤ
  send : ℕ → SendResult
  recv : ℕ → RecvResult
  select : ℕ → SelectResult
  /-- does the memory of a destroyed handler still read as its number, at the `i`-th time that `close`
  reads it -/
  freed : ℕ → Bool
  /-- the file status flags of the `i`-th descriptor made -/
  flags : ℕ → BitVec 32
  /-- how many iterations of the loop of `handle_read` are followed -/
  fuel : ℕ
  junkState : State

/-- The classes of handlers. -/
inductive HandlerClass
  | baseSocket
  | socketHandler
  | virusHandler
  | tcpServerImpl
  deriving DecidableEq, Repr

/-- `BaseSocket`, and the members that only a `VirusHandler` has. -/
structure BaseSocket where
  cls : HandlerClass
  sock : ℤ
  addr : Addr
  /-- `none` is the null pointer -/
  p_handlers : Option ℕ
  connected : Bool
  connecting : Bool
  accepting : Bool
  virus : VirusHandler

/-- `auto_BaseSocket_t`: the object and the control block that owns it. -/
structure SharedPtr where
  obj : ℕ
  ctrl : ℕ
  deriving DecidableEq, Repr

/-- Where a descriptor comes from. -/
inductive Origin
  | accepted
  | created
  deriving DecidableEq, Repr

/-- An open descriptor. -/
structure Desc where
  origin : Origin
  flags : BitVec 32
  deriving DecidableEq, Repr

/-- The calls that other code overrides, `handle_read` to `handle_close`. -/
inductive Callback
  | read
  | write
  | expt
  | error
  | connect
  | accept
  | close
  deriving DecidableEq, Repr

/-- The three bits of `select`. -/
inductive Bit
  | read
  | write
  | expt
  deriving DecidableEq, Repr

/-- What was done, in the order in which it was begun. -/
inductive Act
  /-- `do_select` calls the event function of the bit -/
  | event (this : ℕ) (sock : ℤ) (bit : Bit)
  | callback (this : ℕ) (cb : Callback)
  | send (sock : ℤ)
  | recv (sock : ℤ)
  | close (this : ℕ) (sock : ℤ)
  deriving DecidableEq, Repr

/-- The state of the process. -/
structure World where
  objs : ℕ → BaseSocket
  nobj : ℕ
  /-- the objects that were destroyed -/
  dead : ℕ → Bool
  /-- the maps `ss_map_t`; `g_handlers` is the first -/
  maps : ℕ → Std.TreeMap ℤ SharedPtr
  nctrl : ℕ
  descs : ℤ → Option Desc
  ndesc : ℕ
  /-- the bytes taken by the system on a descriptor since it was made -/
  out : ℤ → List UInt8
  nsocket : ℕ
  nbind : ℕ
  nlisten : ℕ
  nconnect : ℕ
  naccept : ℕ
  ngetpeername : ℕ
  ngetsockopt : ℕ
  nsend : ℕ
  nrecv : ℕ
  nselect : ℕ
  nfreed : ℕ
  disk : Disk
  log : List Act

/-- A system that grants everything: connections come in on ever new descriptors, and
from each of them nothing but the end of the stream. -/
def Env.steady : Env where
  toLibC := .steady
  socket i := some (3 + i)
  bind _ := 0
  listen _ := 0
  connect _ := .ok
  errno _ := .other
  inet_pton _ := 1
  accept i := .conn (5 + i) ("10.0.0.1", 4000)
  acceptErrno _ := false
  getpeername _ := .peer ("10.0.0.1", 4000)
  getsockopt _ := 0
  send _ := .all
  recv _ := .data []
  select _ := .ready (fun _ => true) (fun _ => true) (fun _ => false)
  freed _ := false
  flags _ := 2
  fuel := 1000
  junkState := .ok

/-- A handler of which nothing has been set. -/
def BaseSocket.blank : BaseSocket where
  cls := .baseSocket
  sock := 0
  addr := ("", 0)
  p_handlers := none
  connected := false
  connecting := false
  accepting := false
  virus := .new (.new .auto ⟨0, 0⟩) .ok

/-- The process before it has done anything. -/
def World.init : World where
  objs _ := .blank
  nobj := 0
  dead _ := false
  maps _ := ∅
  nctrl := 0
  descs _ := none
  ndesc := 0
  out _ := []
  nsocket := 0
  nbind := 0
  nlisten := 0
  nconnect := 0
  naccept := 0
  ngetpeername := 0
  ngetsockopt := 0
  nsend := 0
  nrecv := 0
  nselect := 0
  nfreed := 0
  disk := .empty
  log := []

/-- `INVALID_SOCKET` -/
def invalidSocket : ℤ := -1

/-- `g_handlers` -/
def gHandlers : ℕ := 0

/-- Code that runs in the process. -/
abbrev Proc := EStateM Fault World

/-- The object behind a pointer. -/
def obj (this : ℕ) : Proc BaseSocket := return (← get).objs this

/-- `w` with the object `this` changed by `f`. -/
def World.setObj (w : World) (this : ℕ) (f : BaseSocket → BaseSocket) : World :=
  { w with objs := Function.update w.objs this (f (w.objs this)) }

/-- `w` with a new object. -/
def World.alloc (w : World) (o : BaseSocket) : World :=
  { w with
    nobj := w.nobj + 1
    objs := Function.update w.objs w.nobj o
    dead := Function.update w.dead w.nobj false }

/-- Assignments to members of `*this`. -/
def assign (this : ℕ) (f : BaseSocket → BaseSocket) : Proc Unit := modify (·.setObj this f)

/-- An entry of the log. -/
def act (a : Act) : Proc Unit := modify fun w => { w with log := w.log ++ [a] }

/-- A use of `*this` that a destroyed object does not survive. -/
def alive (this : ℕ) : Proc Unit := do
  if (← get).dead this then throw .destroyed

/-- The map behind a pointer. -/
def deref (p_handlers : Option ℕ) : Proc ℕ :=
  match p_handlers with
  | some m => pure m
  | none => throw .nullDeref

/-- `w` with the map `m` changed by `f`. -/
def World.setMap (w : World) (m : ℕ) (f : Std.TreeMap ℤ SharedPtr → Std.TreeMap ℤ SharedPtr) : World :=
  { w with maps := Function.update w.maps m (f (w.maps m)) }

/-- `erase(sock)` on the map `m`: with the entry its handler goes. -/
def World.erase (w : World) (m : ℕ) (sock : ℤ) : World :=
  { w.setMap m (·.erase sock) with
    dead := match (w.maps m)[sock]? with
      | some p => Function.update w.dead p.obj true
      | none => w.dead }

end DocFerry
