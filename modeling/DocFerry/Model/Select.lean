import DocFerry.Model.Handlers

/-!
# `do_select`

One round of the event loop, for any handlers: `Table` holds what `do_select` asks of
them. `serverTable` is the table of the program.
-/

namespace DocFerry

/-- `FD_SETSIZE` -/
def fdSetSize : ℤ := 1024

/-- What `do_select` asks of handlers `H` in a map that is part of a state `σ`. -/
structure Table (ε σ H : Type) where
  /-- the fault of an `FD_SET` outside of its set -/
  fdFault : ℤ → ε
  map : σ → Std.TreeMap ℤ H
  readable : σ → H → Bool
  writable : σ → H → Bool
  isAccepting : σ → H → Bool
  handleEvent : ℤ → H → Bit → EStateM ε σ Unit

/-- Three `fd_set`s. `Table.fdSet` sees to it that no number without a bit comes into them. -/
structure FdSets where
  r : Finset ℤ
  w : Finset ℤ
  e : Finset ℤ
  deriving DecidableEq

/-- The set of a bit. -/
def FdSets.get (sets : FdSets) : Bit → Finset ℤ
  | .read => sets.r
  | .write => sets.w
  | .expt => sets.e

/-- The number of bits set. -/
def FdSets.card (sets : FdSets) : ℕ := sets.r.card + sets.w.card + sets.e.card

/-- What `do_select` builds before it calls `select`. -/
structure Selection where
  sets : FdSets
  select_socks : List ℤ
  max_fd : ℤ

namespace Table

variable {ε σ H : Type} (T : Table ε σ H)

/-- The body of the loop that builds the sets. -/
def addSock (s : σ) (sel : Selection) (entry : ℤ × H) : Selection :=
  let (sock, h) := entry
  let isr := T.readable s h
  let isw := T.writable s h
  let sel := if isr then
      { sel with
        sets := { sel.sets with r := insert sock sel.sets.r }
        max_fd := if sel.max_fd < sock then sock else sel.max_fd }
    else sel
  let sel := if isw && !T.isAccepting s h then
      { sel with
        sets := { sel.sets with w := insert sock sel.sets.w }
        max_fd := if sel.max_fd < sock then sock else sel.max_fd }
    else sel
  if isr || isw then
    { sets := { sel.sets with e := insert sock sel.sets.e }
      select_socks := sel.select_socks ++ [sock]
      max_fd := if sel.max_fd < sock then sock else sel.max_fd }
  else sel

/-- The sets, the sockets and the largest descriptor for `select`. -/
def collect (s : σ) : Selection :=
  (T.map s).toList.foldl (T.addSock s) ⟨⟨∅, ∅, ∅⟩, [], 0⟩

/-- The calls of `FD_SET`: the first for a number that no bit belongs to leaves the set. -/
def fdSet (select_socks : List ℤ) : EStateM ε σ Unit :=
  match select_socks.find? fun sock => !decide (0 ≤ sock ∧ sock < fdSetSize) with
  | some sock => throw (T.fdFault sock)
  | none => pure ()

/-- Does the handler still want the event. -/
def wants (s : σ) (h : H) : Bit → Bool
  | .read => T.readable s h
  | .write => T.writable s h
  | .expt => T.readable s h || T.writable s h

/-- One of the three blocks of the dispatch loop: the counter after it, and whether the
loop goes on with the next socket at once. -/
def dispatchBit (sets : FdSets) (sock : ℤ) (bit : Bit) (retv : ℤ) : EStateM ε σ (ℤ × Bool) := do
  if retv > 0 then
    let s ← get
    match (T.map s)[sock]? with
    | none => return (retv, true)
    | some h =>
      if retv > 0 ∧ sock ∈ sets.get bit ∧ T.wants s h bit then
        T.handleEvent sock h bit
        return (retv - 1, false)
  return (retv, false)

/-- The body of the dispatch loop. -/
def dispatchSock (sets : FdSets) (retv : ℤ) (sock : ℤ) : EStateM ε σ ℤ := do
  let (retv, cont) ← T.dispatchBit sets sock .read retv
  if cont then return retv
  let (retv, cont) ← T.dispatchBit sets sock .write retv
  if cont then return retv
  let (retv, _) ← T.dispatchBit sets sock .expt retv
  return retv

/-- `do_select`, with `select` as a parameter. -/
def doSelect (select : ℤ → FdSets → EStateM ε σ (ℤ × FdSets)) : EStateM ε σ Unit := do
  let s ← get
  if (T.map s).size = 0 then return
  let sel := T.collect s
  T.fdSet sel.select_socks
  if sel.max_fd = 0 then return
  let (retv, sets) ← select (sel.max_fd + 1) sel.sets
  if retv = 0 then return
  if retv = -1 then return
  let _ ← sel.select_socks.foldlM (T.dispatchSock sets) retv

end Table

variable (E : Env)

/-- `select`: it clears bits and counts those that are left. -/
def osSelect (_nfds : ℤ) (sets : FdSets) : Proc (ℤ × FdSets) := do
  let w ← get
  set { w with nselect := w.nselect + 1 }
  match E.select w.nselect with
  | .error => return (-1, sets)
  | .ready r w e =>
    let sets : FdSets := ⟨sets.r.filter (r · = true), sets.w.filter (w · = true), sets.e.filter (e · = true)⟩
    return (sets.card, sets)

/-- The handlers of the map `m`. -/
def serverTable (m : ℕ) : Table Fault World SharedPtr where
  fdFault := .fdSet
  map w := w.maps m
  readable w p := BaseSocket.readable (w.objs p.obj)
  writable w p := BaseSocket.writable (w.objs p.obj)
  isAccepting w p := (w.objs p.obj).accepting
  handleEvent sock p bit := do
    act (.event p.obj sock bit)
    BaseSocket.handleEvent E p.obj bit

/-- `do_select` on the map `m`. -/
def doSelect (m : ℕ) : Proc Unit := (serverTable E m).doSelect (osSelect E)

/-- `loop` with a count that is not zero, or the first `count` rounds of it. -/
def loop (p_handlers : Option ℕ) : ℕ → Proc Unit
  | 0 => pure ()
  | count + 1 => do
    let m := p_handlers.getD gHandlers
    if ((← get).maps m).size = 0 then return
    doSelect E m
    loop p_handlers count

/-- `TCPServer` -/
structure TCPServer where
  p_impl_sock : ℤ
  p_impl : ℕ
  p_handlers : ℕ

/-- `TCPServer::TCPServer` -/
def TCPServer.new (host : Option String) (port : UInt16) (p_handlers : Option ℕ) : Proc TCPServer := do
  let p_handlers := p_handlers.getD gHandlers
  let p_impl ← TCPServerImpl.new E (host.getD "") port (some p_handlers)
  return ⟨(← obj p_impl).sock, p_impl, p_handlers⟩

/-- `TCPServer::~TCPServer` -/
def TCPServer.delete (srv : TCPServer) : Proc Unit :=
  modify (·.erase srv.p_handlers srv.p_impl_sock)

end DocFerry
