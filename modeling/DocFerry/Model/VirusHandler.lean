import DocFerry.Lib.Loop
import DocFerry.Model.HV

/-!
# `virus_handler.cpp`: from received bytes to responses

What `VirusHandler` does with bytes it has received: the loop of `handle_read`
feeds them to the current request and queues a response for each request that is
complete. The socket side of the handler is in `BaseSocket`.
-/

namespace DocFerry

/-- The members of `VirusHandler` that its functions use. -/
structure VirusHandler where
  req : HV
  resp : List HV
  state : State

/-- `VirusHandler::VirusHandler`; `state` is not initialised. -/
def VirusHandler.new (req : HV) (state : State) : VirusHandler := ⟨req, [], state⟩

variable (E : LibC)

/-- `VirusHandler::request` -/
def VirusHandler.request (h : VirusHandler) (d : Disk) : VirusHandler × Disk :=
  let (req, d) := h.req.clear d
  ({ h with req := req }, d)

/-- `VirusHandler::response`; whether the response could be filled is not checked. -/
def VirusHandler.response (h : VirusHandler) (d : Disk) (state : State) :
    Except Fault (VirusHandler × Disk) := do
  let header : Header := ⟨h.req.header.id, 4⟩
  let resp := HV.new E.junkTo E.junkHeader
  let (_, resp, d) ← resp.writeMsg E d (some header) (some (storeWord E.host state.code))
  return ({ h with resp := h.resp ++ [resp] }, d)

/-- The variables of the loop in `VirusHandler::handle_read`. -/
structure ReadState where
  self : VirusHandler
  disk : Disk
  p_buf : List UInt8
  nread : ℤ

/-- One iteration of that loop. -/
def VirusHandler.readBody (c : ReadState) : Loop.Next Fault ReadState (VirusHandler × Disk) :=
  match c.self.req.write E c.disk (some c.p_buf) c.nread with
  | .error f => .fault f
  | .ok (wlen, req, d) =>
    let h := { c.self with req := req }
    if wlen = -1 then
      let (req, d) := h.req.clear d
      let h := { h with req := req, state := .internalError }
      match h.response E d .internalError with
      | .error f => .fault f
      | .ok r => .done r
    else
      let p_buf := c.p_buf.drop wlen.toNat
      let nread := c.nread - wlen
      let next : Except Fault (VirusHandler × Disk) :=
        if h.req.isComplete then
          let (h, d) := h.request d
          { h with state := .ok }.response E d .ok
        else .ok (h, d)
      match next with
      | .error f => .fault f
      | .ok (h, d) => if nread = 0 then .done (h, d) else .again ⟨h, d, p_buf, nread⟩

/-- The loop of `VirusHandler::handle_read` on the bytes that `recv` has left in
`buf`, for at most `fuel` iterations. -/
def VirusHandler.readLoop (fuel : ℕ) (h : VirusHandler) (d : Disk) (buf : List UInt8) :
    Except Fault (VirusHandler × Disk) :=
  (Loop.run (readBody E) fuel ⟨h, d, buf, buf.length⟩).getD (.error .outOfFuel)

end DocFerry
