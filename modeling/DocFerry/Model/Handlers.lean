import DocFerry.Model.BaseSocket

/-!
# `socket_handler.cpp`, `virus_handler.cpp` and `tcp_server.cpp`: the classes of handlers

What the classes override, the dispatch by class, and the event functions of
`base_socket.cpp` that run into it.
-/

namespace DocFerry

variable (E : Env)

/-! ### `SocketHandler` -/

/-- `SocketHandler::SocketHandler` -/
def SocketHandler.new (cls : HandlerClass) (sock : ℤ) (p_handlers : Option ℕ) : Proc ℕ := do
  let this ← BaseSocket.new E cls sock p_handlers
  let _ ← cpSetblocking sock true
  return this

/-- `SocketHandler::handle_read` -/
def SocketHandler.handleRead (this : ℕ) : Proc Unit := do
  let _ ← BaseSocket.recv E this true 4096

/-! ### `VirusHandler` -/

/-- `VirusHandler::handle_read` -/
def VirusHandler.handleRead (this : ℕ) : Proc Unit := do
  let (nread, buf) ← BaseSocket.recv E this true 65535
  if nread = 0 then return
  if nread = -1 then return
  let w ← get
  match VirusHandler.readLoop E.toLibC E.fuel (w.objs this).virus w.disk buf with
  | .error f => throw f
  | .ok (virus, d) => set { w.setObj this ({ · with virus := virus }) with disk := d }

/-- The loop over the value of a response in `VirusHandler::handle_write`: blocks of
4096 bytes are popped and sent. A `cache_pop` that fails gives a length of which
`send` sends nothing. -/
def VirusHandler.sendValue (this : ℕ) : ℕ → Cache → Proc Cache
  | 0, _ => throw .outOfFuel
  | n + 1, c => do
    let w ← get
    let (nread, buf, c, d) := cachePop E.toLibC w.disk c 4096
    set { w with disk := d }
    if nread > 0 then
      let _ ← BaseSocket.send E this (some buf) nread
      VirusHandler.sendValue this n c
    else return c

/-- The body of the loop in `VirusHandler::handle_write`, for a response just popped.
Each pop that gives bytes leaves fewer, so the inner loop gets as many iterations as
there are bytes, and one. -/
def VirusHandler.sendResp (this : ℕ) (resp : HV) : Proc Unit := do
  match resp.value with
  | none => pure ()
  | some c =>
    let _ ← BaseSocket.send E this (some (resp.header.bytes E.host)) sizeofHeader
    let c ← VirusHandler.sendValue E this (sizeSub c.priv.widx c.priv.ridx + 1) c
    let w ← get
    let (c, d) := deleteCache w.disk c
    set { w with disk := leaveCache d c }

/-- The loop of `VirusHandler::handle_write`, for at most as many responses as are
queued: none is queued meanwhile. The queue is looked at once more than that. -/
def VirusHandler.writeLoop (this : ℕ) : ℕ → Proc Unit
  | 0 => alive this
  | n + 1 => do
    alive this
    match (← obj this).virus.resp with
    | [] => pure ()
    | resp :: rest =>
      assign this fun o => { o with virus := { o.virus with resp := rest } }
      VirusHandler.sendResp E this resp
      VirusHandler.writeLoop this n

/-- `VirusHandler::handle_write` -/
def VirusHandler.handleWrite (this : ℕ) : Proc Unit := do
  VirusHandler.writeLoop E this (← obj this).virus.resp.length

/-! ### `TCPServerImpl` -/

/-- `TCPServerImpl::TCPServerImpl` -/
def TCPServerImpl.new (host : String) (port : UInt16) (p_handlers : Option ℕ) : Proc ℕ := do
  let this ← BaseSocket.new E .tcpServerImpl invalidSocket p_handlers
  let _ ← BaseSocket.createSocket E this .stream
  let _ ← BaseSocket.bind E this (host, port)
  let _ ← BaseSocket.listen E this
  return this

/-- `TCPServerImpl::handle_accept` -/
def TCPServerImpl.handleAccept (this : ℕ) : Proc Unit := do
  let (sock, _) ← BaseSocket.accept E this
  if cpSocketValid sock then
    let _ ← SocketHandler.new E .virusHandler sock (← obj this).p_handlers

/-! ### Dispatch by class, and the events -/

namespace BaseSocket

/-- `readable`, the same in every class -/
def readable (o : BaseSocket) : Bool := cpSocketValid o.sock

/-- `writable` -/
def writable (o : BaseSocket) : Bool :=
  match o.cls with
  | .baseSocket | .tcpServerImpl => cpSocketValid o.sock
  | .socketHandler => false
  | .virusHandler => !o.virus.resp.isEmpty

/-- `handle_read` -/
def handleRead (this : ℕ) : Proc Unit := do
  alive this
  act (.callback this .read)
  match (← obj this).cls with
  | .baseSocket | .tcpServerImpl => pure ()
  | .socketHandler => SocketHandler.handleRead E this
  | .virusHandler => VirusHandler.handleRead E this

/-- `handle_write` -/
def handleWrite (this : ℕ) : Proc Unit := do
  alive this
  act (.callback this .write)
  match (← obj this).cls with
  | .baseSocket | .tcpServerImpl | .socketHandler => pure ()
  | .virusHandler => VirusHandler.handleWrite E this

/-- `handle_accept` -/
def handleAccept (this : ℕ) : Proc Unit := do
  alive this
  act (.callback this .accept)
  match (← obj this).cls with
  | .baseSocket | .socketHandler | .virusHandler => pure ()
  | .tcpServerImpl => TCPServerImpl.handleAccept E this

/-- `BaseSocket::handle_read_event` -/
def handleReadEvent (this : ℕ) : Proc Unit := do
  let o ← obj this
  if o.accepting then handleAccept E this
  else if !o.connected then
    if o.connecting then handleConnectEvent E this
    handleRead E this
  else handleRead E this

/-- `BaseSocket::handle_write_event` -/
def handleWriteEvent (this : ℕ) : Proc Unit := do
  let o ← obj this
  if o.accepting then return
  if !o.connected then
    if o.connecting then handleConnectEvent E this
  handleWrite E this

/-- `BaseSocket::handle_expt_event` -/
def handleExptEvent (this : ℕ) : Proc Unit := do
  let err ← getsockopt E (← obj this).sock
  if err = 0 then handleExpt E this
  else handleClose E this

/-- The event function of a bit of `select`. -/
def handleEvent (this : ℕ) : Bit → Proc Unit
  | .read => handleReadEvent E this
  | .write => handleWriteEvent E this
  | .expt => handleExptEvent E this

end BaseSocket

end DocFerry
