import DocFerry.Model.CpSocket

/-!
# `base_socket.cpp`: the handler of one socket

Registration in a map, the calls on the socket and the callbacks that these run into.
Callbacks are virtual: `handleClose`, `handleExpt`, ... look at the class. The messages
that the default callbacks print are left out.
-/

namespace DocFerry

variable (E : Env)

/-- The second argument of `socket`. -/
inductive SockType
  /-- `SOCK_STREAM` -/
  | stream
  /-- `SOCK_DGRAM` -/
  | dgram
  | other
  deriving DecidableEq, Repr

namespace BaseSocket

/-! ### Registration -/

/-- `BaseSocket::add_channel`: what is registered under the socket is let go, and a new
control block takes over `this`. -/
def addChannel (this : ℕ) (p_handlers : Option ℕ) : Proc Unit := do
  let m ← deref p_handlers
  let sock := (← obj this).sock
  modify (·.erase m sock)
  let w ← get
  set { w with nctrl := w.nctrl + 1 }
  modify (·.setMap m (·.insertIfNew sock ⟨this, w.nctrl⟩))

/-- `BaseSocket::del_channel` -/
def delChannel (this : ℕ) (p_handlers : Option ℕ) : Proc Unit := do
  let m ← deref p_handlers
  let sock := (← obj this).sock
  modify (·.erase m sock)

/-- `BaseSocket::set_socket` -/
def setSocket (this : ℕ) (sock : ℤ) (p_handlers : Option ℕ) : Proc Unit := do
  assign this ({ · with sock := sock })
  addChannel this p_handlers

/-- `BaseSocket::create_socket` -/
def createSocket (this : ℕ) (type : SockType) : Proc ℤ := do
  match type with
  | .stream | .dgram =>
    let sock ← cpSocket E
    assign this ({ · with sock := sock })
  | .other => pure ()
  let o ← obj this
  if cpSocketValid o.sock then
    let _ ← cpSetblocking o.sock false
    setSocket this o.sock o.p_handlers
    return 0
  return -1

/-- The members as `BaseSocket::BaseSocket` initialises them. -/
def begun (cls : HandlerClass) (sock : ℤ) (p_handlers : Option ℕ) : BaseSocket where
  cls := cls
  sock := sock
  addr := ("", 0)
  p_handlers := some (p_handlers.getD gHandlers)
  connected := false
  connecting := false
  accepting := false
  virus := .new (.new E.junkTo E.junkHeader) E.junkState

/-- The end of the constructor: the peer of a socket is asked for, and a handler of which
nothing can be learned is let go. What the constructor of a derived class then still writes
into it is left out. -/
def askPeer (this : ℕ) (sock : ℤ) : Proc Unit := do
  match ← cpGetpeername E sock with
  | .peer addr => assign this ({ · with addr := addr })
  | .notConnected => assign this ({ · with connected := false })
  | .otherError => delChannel this (← obj this).p_handlers

/-- `BaseSocket::BaseSocket`: a null map stands for `g_handlers` in the object, not in
the call of `set_socket`. -/
def new (cls : HandlerClass) (sock : ℤ) (p_handlers : Option ℕ) : Proc ℕ := do
  let this := (← get).nobj
  modify (·.alloc (begun E cls sock p_handlers))
  if cpSocketValid sock then
    let _ ← cpSetblocking sock false
    setSocket this sock p_handlers
    assign this ({ · with connected := true })
    askPeer E this sock
  return this

/-! ### Closing -/

/-- The number that `this->sock` reads as, `none` standing for one of no open descriptor. -/
def readSock (this : ℕ) : Proc (Option ℤ) := do
  let w ← get
  if w.dead this then
    set { w with nfreed := w.nfreed + 1 }
    return if E.freed w.nfreed then some (w.objs this).sock else none
  return some (w.objs this).sock

/-- `BaseSocket::close`: the socket is read after `del_channel` has let `this` go. -/
def close (this : ℕ) : Proc Unit := do
  assign this ({ · with connected := false, connecting := false, accepting := false })
  delChannel this (← obj this).p_handlers
  match ← readSock E this with
  | some sock =>
    act (.close this sock)
    cpCloseSocket sock
  | none => act (.close this invalidSocket)

/-- `handle_close`, which closes in every class. -/
def handleClose (this : ℕ) : Proc Unit := do
  alive this
  act (.callback this .close)
  close E this

/-- `handle_error`, which closes in every class. -/
def handleError (this : ℕ) : Proc Unit := do
  alive this
  act (.callback this .error)
  handleClose E this

/-- `handle_expt` -/
def handleExpt (this : ℕ) : Proc Unit := do
  alive this
  act (.callback this .expt)
  match (← obj this).cls with
  | .baseSocket | .tcpServerImpl => pure ()
  | .socketHandler | .virusHandler => handleClose E this

/-- `handle_connect`, which no class overrides. -/
def handleConnect (this : ℕ) : Proc Unit := do
  alive this
  act (.callback this .connect)

/-! ### The calls on the socket -/

/-- `BaseSocket::handle_connect_event` -/
def handleConnectEvent (this : ℕ) : Proc Unit := do
  let err ← getsockopt E (← obj this).sock
  if err ≠ 0 then
    handleError E this
  else
    handleConnect this
    assign this ({ · with connected := true, connecting := false })

/-- `BaseSocket::listen` -/
def listen (this : ℕ) : Proc ℤ := do
  assign this ({ · with accepting := true })
  cpListen E

/-- The host of an address; an empty one is passed on as a null pointer. -/
def hostArg (addr : Addr) : Option String := if addr.1 = "" then none else some addr.1

/-- `BaseSocket::bind` -/
def bind (this : ℕ) (addr : Addr) : Proc ℤ := do
  assign this ({ · with addr := addr })
  cpBind E (hostArg addr) addr.2

/-- `BaseSocket::connect` -/
def connect (this : ℕ) (addr : Addr) : Proc ℤ := do
  assign this ({ · with connected := false, connecting := true })
  let (ret, errno) ← cpConnect E (hostArg addr) addr.2
  if ret = 0 then
    assign this ({ · with addr := addr })
    handleConnectEvent E this
    return 0
  match errno with
  | .isConnected =>
    assign this ({ · with addr := addr })
    handleConnectEvent E this
    return 0
  | .inProgress =>
    assign this ({ · with addr := addr })
    return -1
  | .other => return -1

/-- `BaseSocket::accept`: the descriptor and the address stored for the caller. -/
def accept (this : ℕ) : Proc (ℤ × Option Addr) := do
  let i := (← get).naccept
  let (sock, peer) ← cpAccept E (← obj this).sock
  if cpSocketValid sock then return (sock, peer)
  if E.acceptErrno i then return (invalidSocket, none)
  return (sock, none)

/-- `BaseSocket::send` -/
def send (this : ℕ) (buf : Option (List UInt8)) (size : ℕ) : Proc ℤ := do
  alive this
  let (ret, again) ← cpSend E (← obj this).sock buf (toInt size)
  if ret = -1 then
    if again then return 0
    handleClose E this
  return ret

/-- `BaseSocket::recv`: the result and the bytes left in the buffer. The size goes through
`int` on its way. -/
def recv (this : ℕ) (buf : Bool) (size : ℕ) : Proc (ℤ × List UInt8) := do
  alive this
  let (ret, bs) ← cpRecv E (← obj this).sock buf (intToSize (toInt size))
  if ret = 0 then handleClose E this
  else if ret = -1 then handleExpt E this
  return (ret, bs)

end BaseSocket

end DocFerry
