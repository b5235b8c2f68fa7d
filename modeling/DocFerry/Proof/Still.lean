import DocFerry.Proof.Accounts
import DocFerry.Proof.Making

/-!
# Events that leave the requests alone

* `WriteRules`: what a relation needs so that `handle_write` is a step of it, where the responses are in
  memory and have no streams.
* `Still w w'`: between `w` and `w'` no request was touched, no stream opened or closed; new
  handlers have new requests. Everything that the process does is `Still` but the reading of bytes
  from a client, as long as no response has a stream. `still_rules` carries this through the calls on a
  socket, `still_write` through `handle_write`, `still_maker` through the making of handlers and
  `event_still` through whole events.
-/

namespace DocFerry

open Prog

/-- A handler as its constructor leaves it. -/
structure BaseSocket.Fresh (o : BaseSocket) : Prop where
  req : ∃ st head, o.virus.req = .new st head
  resp : o.virus.resp = []
  connecting : o.connecting = false

/-- The handler `o'` is `o`, with responses taken from its queue and flags cleared. -/
structure BaseSocket.Rests (o o' : BaseSocket) : Prop where
  cls : o'.cls = o.cls
  req : o'.virus.req = o.virus.req
  resp : o'.virus.resp ⊆ o.virus.resp
  connecting : o'.connecting = true → o.connecting = true

/-- No request was touched, and no stream opened or closed. -/
structure Still (w w' : World) : Prop where
  nobj : w.nobj ≤ w'.nobj
  old : ∀ i, i < w.nobj ∨ w'.nobj ≤ i → (w.objs i).Rests (w'.objs i)
  fresh : ∀ i, w.nobj ≤ i → i < w'.nobj → (w'.objs i).Fresh
  disk : w.disk.SameStreams w'.disk

/-- The responses of all handlers can be sent, and have no streams. -/
def World.Plain (w : World) : Prop := ∀ i, (w.objs i).virus.Plain

/-- `w` after the first response was taken off the queue of `this`, and `rest` left in it. -/
def World.popped (w : World) (this : ℕ) (rest : List HV) : World :=
  w.setObj this fun o => { o with virus := { o.virus with resp := rest } }

/-- What `handle_write` of `this` is made of when its responses are in memory. Nothing comes into the
queue. -/
structure WriteRules (E : Env) (this : ℕ) (R : World → World → Prop) : Prop extends CallRules E this R where
  popped : ∀ (w : World) r rest, (w.objs this).virus.resp = r :: rest → R w (w.popped this rest)
  resp : ∀ w w', R w w' → (w'.objs this).virus.resp ⊆ (w.objs this).virus.resp

variable {E : Env} {w w' : World} {this m : ℕ}

/-! ### `handle_write` -/

/-- Freeing a cache in memory leaves the disk alone. -/
theorem freed_disk {c : Cache} (hc : c.InMemory) (hw : c.priv.wfp = none) (d : Disk) :
    leaveCache (deleteCache d c).2 (deleteCache d c).1 = d := by
  obtain ⟨buf, hbuf, -⟩ := hc.buf
  simp only [deleteCache, hbuf, leaveCache, hw]

namespace WriteRules

variable {R : World → World → Prop} (hR : WriteRules E this R)

include hR

/-- The loop over a value in memory gives the cache back, emptied. -/
theorem sendValue (n : ℕ) {c : Cache} (hc : c.InMemory) (w : World) :
    R w (final (VirusHandler.sendValue E this n c w)) ∧
      ∀ c' w', VirusHandler.sendValue E this n c w = .ok c' w' → c'.InMemory ∧ c'.priv.wfp = c.priv.wfp := by
  induction n generalizing c w with
  | zero => exact ⟨hR.refl w, fun c' w' h => by cases h⟩
  | succ n ih =>
    obtain ⟨c₁, hpop, hc₁, -, hkept⟩ := cachePop_mem (E := E.toLibC) hc w.disk 4096
    have hwfp : c₁.priv.wfp = c.priv.wfp := by rw [hkept]
    rw [sendValue_succ, hpop]
    dsimp only
    by_cases hn : (c.rest.take 4096).length > 0
    · rw [if_pos hn]
      have hsend : R w (final (BaseSocket.send E this (some (c.rest.take 4096))
          (c.rest.take 4096).length w)) := hR.send w
      cases hrun : BaseSocket.send E this (some (c.rest.take 4096)) (c.rest.take 4096).length w with
      | error f w₁ =>
        rw [hrun] at hsend
        rw [bind_of_error hrun]
        exact ⟨hsend, fun c' w' h => by cases h⟩
      | ok ret w₁ =>
        rw [hrun] at hsend
        rw [bind_of_ok hrun]
        obtain ⟨hrest, hres⟩ := ih hc₁ w₁
        refine ⟨hR.trans _ _ _ hsend hrest, fun c' w' h => ?_⟩
        obtain ⟨hmem, hw⟩ := hres c' w' h
        exact ⟨hmem, hw.trans hwfp⟩
    · rw [if_neg hn]
      refine ⟨hR.refl w, fun c' w' h => ?_⟩
      cases h
      exact ⟨hc₁, hwfp⟩

/-- A response in memory is sent, and its cache freed. -/
theorem sendResp {r : HV} (hr : r.Sendable ∧ ∀ c, r.value = some c → c.priv.wfp = none) :
    Steps R (VirusHandler.sendResp E this r) := by
  unfold VirusHandler.sendResp
  cases hv : r.value with
  | none => exact hR.pure _
  | some c =>
    apply hR.bind hR.send
    intro _ w
    obtain ⟨hval, hres⟩ := hR.sendValue (sizeSub c.priv.widx c.priv.ridx + 1) (hr.1 c hv) w
    cases hrun : VirusHandler.sendValue E this (sizeSub c.priv.widx c.priv.ridx + 1) c w with
    | error f w₁ =>
      rw [hrun] at hval
      rwa [bind_of_error hrun]
    | ok c' w₁ =>
      rw [hrun] at hval
      obtain ⟨hmem', hw'⟩ := hres c' w₁ hrun
      rw [bind_of_ok hrun, get_bind]
      apply hR.trans _ _ _ hval
      -- the cache that is freed has no file
      change R w₁ { w₁ with disk := leaveCache (deleteCache w₁.disk c').2 (deleteCache w₁.disk c').1 }
      rw [freed_disk hmem' (hw'.trans (hr.2 c hv))]
      exact hR.refl w₁

/-- The loop over the queue. -/
theorem writeLoop (n : ℕ) (w : World) (hp : (w.objs this).virus.Plain) :
    R w (final (VirusHandler.writeLoop E this n w)) := by
  induction n generalizing w with
  | zero => exact hR.alive w
  | succ n ih =>
    unfold VirusHandler.writeLoop
    cases hd : w.dead this with
    | true =>
      rw [dead_bind hd]
      exact hR.refl w
    | false =>
      rw [alive_bind hd, bind_of_ok run_obj]
      cases hresp : (w.objs this).virus.resp with
      | nil => exact hR.refl w
      | cons r rest =>
        dsimp only
        rw [bind_of_ok run_assign]
        have hr : r ∈ (w.objs this).virus.resp := by
          rw [hresp]
          exact List.mem_cons_self
        have hpop : R w (w.popped this rest) := hR.popped w r rest hresp
        have hsent : R (w.popped this rest) (final (VirusHandler.sendResp E this r (w.popped this rest))) :=
          hR.sendResp (hp r hr) _
        apply hR.trans _ _ _ hpop
        change R (w.popped this rest)
          (final ((VirusHandler.sendResp E this r >>= fun _ => VirusHandler.writeLoop E this n) (w.popped this rest)))
        cases hrun : VirusHandler.sendResp E this r (w.popped this rest) with
        | error f w₂ =>
          rw [hrun] at hsent
          rwa [bind_of_error hrun]
        | ok u w₂ =>
          rw [hrun] at hsent
          rw [bind_of_ok hrun]
          apply hR.trans _ _ _ hsent
          -- what is left of the queue was there before
          apply ih
          intro r' hr'
          exact hp r' (hR.resp _ _ hpop (hR.resp _ _ hsent hr'))

/-- **`handle_write`** of a handler whose responses are in memory. -/
theorem handleWrite (hp : (w.objs this).virus.Plain) : R w (final (BaseSocket.handleWrite E this w)) := by
  unfold BaseSocket.handleWrite
  cases hd : w.dead this with
  | true =>
    rw [dead_bind hd]
    exact hR.refl w
  | false =>
    have hlog : R w (w.logged (.callback this .write)) := hR.act rfl (by simp) hd
    rw [alive_bind hd, bind_of_ok run_act, bind_of_ok run_obj, World.logged_objs]
    cases (w.objs this).cls with
    | baseSocket => exact hlog
    | tcpServerImpl => exact hlog
    | socketHandler => exact hlog
    | virusHandler => exact hR.trans _ _ _ hlog (hR.writeLoop _ _ hp)

end WriteRules

/-! ### The relation -/

theorem BaseSocket.Rests.refl (o : BaseSocket) : o.Rests o := ⟨rfl, rfl, List.Subset.refl _, id⟩

theorem BaseSocket.Rests.trans {o o' o'' : BaseSocket} (h : o.Rests o') (h' : o'.Rests o'') : o.Rests o'' :=
  ⟨h'.cls.trans h.cls, h'.req.trans h.req, fun _ hr => h.resp (h'.resp hr),
    fun hc => h.connecting (h'.connecting hc)⟩

theorem BaseSocket.Fresh.rests {o o' : BaseSocket} (h : o.Fresh) (h' : o.Rests o') : o'.Fresh := by
  refine ⟨by rw [h'.req]; exact h.req, List.subset_nil.1 (h.resp ▸ h'.resp), ?_⟩
  by_contra hc
  have := h'.connecting (by simpa using hc)
  rw [h.connecting] at this
  cases this

theorem Disk.SameStreams.trans {d d' d'' : Disk} (h : d.SameStreams d') (h' : d'.SameStreams d'') :
    d.SameStreams d'' :=
  ⟨h'.nstream.trans h.nstream, h'.nclose.trans h.nclose, h'.nfopen.trans h.nfopen,
    fun fp => (h'.closed fp).trans (h.closed fp)⟩

theorem Still.refl (w : World) : Still w w :=
  ⟨le_rfl, fun i _ => .refl _, fun i h h' => absurd h' (by omega), .refl _⟩

theorem Still.trans (w w' w'' : World) (h : Still w w') (h' : Still w' w'') : Still w w'' := by
  refine ⟨h.nobj.trans h'.nobj, fun i hi => ?_, fun i hi hi' => ?_, h.disk.trans h'.disk⟩
  · have h₁ := h.nobj
    have h₂ := h'.nobj
    exact (h.old i (by omega)).trans (h'.old i (by omega))
  · rcases Nat.lt_or_ge i w'.nobj with hlt | hge
    · exact (h.fresh i hi hlt).rests (h'.old i (.inl hlt))
    · exact h'.fresh i hge hi'

theorem Still.plain (h : Still w w') (hp : w.Plain) : w'.Plain := by
  intro i r hr
  by_cases hi : i < w.nobj ∨ w'.nobj ≤ i
  · exact hp i r ((h.old i hi).resp hr)
  · rw [(h.fresh i (by omega) (by omega)).resp] at hr
    cases hr

/-- A step that leaves the handlers and the disk. -/
theorem Still.soft (ho : w'.objs = w.objs) (hn : w'.nobj = w.nobj) (hd : w'.disk = w.disk) : Still w w' := by
  refine ⟨hn.ge, fun i _ => by rw [ho]; exact .refl _, fun i h h' => ?_, by rw [hd]; exact .refl _⟩
  rw [hn] at h'
  omega

theorem assign_still {i : ℕ} {f : BaseSocket → BaseSocket} (hf : (w.objs i).Rests (f (w.objs i))) :
    Still w (w.setObj i f) := by
  refine ⟨le_rfl, fun j _ => ?_, fun j h h' => ?_, .refl _⟩
  · rcases eq_or_ne j i with rfl | hj
    · rw [World.setObj_same]
      exact hf
    · rw [World.setObj_ne hj]
      exact .refl _
  · have h'' : j < w.nobj := h'
    omega

/-- Assignments to other members than the request. -/
theorem assign_rests {i : ℕ} {f : BaseSocket → BaseSocket}
    (hf : ∀ o, (f o).cls = o.cls ∧ (f o).virus = o.virus ∧ ((f o).connecting = true → o.connecting = true)) :
    Steps Still (assign i f) := by
  intro w
  apply assign_still
  obtain ⟨hc, hv, hcon⟩ := hf (w.objs i)
  exact ⟨hc, by rw [hv], by rw [hv]; exact List.Subset.refl _, hcon⟩

theorem close_still : Steps Still (BaseSocket.close E this) := by
  have hset : ∀ w : World, Still w
      (w.setObj this ({ · with connected := false, connecting := false, accepting := false })) :=
    assign_rests (f := ({ · with connected := false, connecting := false, accepting := false }))
      fun o => ⟨rfl, rfl, fun h => by cases h⟩
  exact steps_close hset fun w m _ => Still.trans _ _ _ (hset w) (.soft rfl rfl rfl)

/-- **The calls on the socket** leave the requests alone. -/
theorem still_rules : SocketRules E this Still where
  refl := Still.refl
  trans := Still.trans
  idle _ _ h _ := .soft h.objs h.nobj h.disk
  connected := assign_rests fun o => ⟨rfl, rfl, fun h => by cases h⟩
  handleClose := handleClose_of_close Still.refl Still.trans (fun _ => .soft rfl rfl rfl) close_still

/-- **The writing of responses** does so, too. -/
theorem still_write : WriteRules E this Still where
  toCallRules := still_rules.calls
  popped w r rest hresp := by
    apply assign_still
    refine ⟨rfl, rfl, ?_, id⟩
    rw [hresp]
    exact List.subset_cons_self r rest
  resp w w' h := by
    by_cases hi : this < w.nobj ∨ w'.nobj ≤ this
    · exact (h.old this hi).resp
    · -- a new handler has no responses
      rw [(h.fresh this (by omega) (by omega)).resp]
      exact List.nil_subset _

/-! ### New handlers -/

theorem begun_fresh (E : Env) (cls : HandlerClass) (sock : ℤ) (p_handlers : Option ℕ) :
    (BaseSocket.begun E cls sock p_handlers).Fresh := ⟨⟨_, _, rfl⟩, rfl, rfl⟩

theorem alloc_still {o : BaseSocket} (ho : o.Fresh) : Still w (w.alloc o) := by
  refine ⟨Nat.le_succ _, fun i hi => ?_, fun i h h' => ?_, .refl _⟩
  · have hne : i ≠ w.nobj := by
      simp only [World.alloc] at hi
      omega
    simp only [World.alloc, Function.update_of_ne hne]
    exact .refl _
  · have hi : i = w.nobj := by
      simp only [World.alloc] at h'
      omega
    subst hi
    simpa only [World.alloc, Function.update_self] using ho

/-- **The making of handlers** leaves the requests alone. -/
theorem still_maker : ListenRules E Still where
  refl := Still.refl
  trans := Still.trans
  aloof _ _ h := .soft h.objs h.nobj h.disk
  flags _ _ _ := .soft rfl rfl rfl
  alloc _ cls sock p_handlers := alloc_still (begun_fresh E cls sock p_handlers)
  assign _ _ hf := assign_rests fun o => by
    obtain ⟨hc, hv, hcon, -⟩ := hf o
    exact ⟨hc, hv, by rw [hcon]; exact id⟩
  openDesc _ _ _ _ := .soft rfl rfl rfl
  listening _ := assign_rests fun _ => ⟨rfl, rfl, id⟩

/-! ### Events -/

/-- In the event the handler gets bytes from its client. -/
def GetsBytes (E : Env) (w : World) (this : ℕ) (bit : Bit) : Prop :=
  bit = .read ∧ (w.objs this).cls = .virusHandler ∧ (w.objs this).accepting = false ∧
    ∃ bs, bs ≠ [] ∧ E.recv w.nrecv = .data bs

/-- **An event in which no bytes come from a client** leaves the requests alone. -/
theorem event_still (hp : (w.objs this).virus.Plain) (hcon : (w.objs this).connecting = false) {bit : Bit}
    (hno : ¬ GetsBytes E w this bit) : Still w (final (BaseSocket.handleEvent E this bit w)) := by
  cases bit with
  | write =>
    change Still w (final (BaseSocket.handleWriteEvent E this w))
    by_cases hacc : (w.objs this).accepting = true
    · unfold BaseSocket.handleWriteEvent
      rw [bind_of_ok run_obj, if_pos hacc]
      exact .refl w
    · rw [handleWriteEvent_writing (by simpa using hacc) hcon]
      exact still_write.handleWrite hp
  | expt => exact still_rules.calls.handleExptEvent w
  | read =>
    change Still w (final (BaseSocket.handleReadEvent E this w))
    by_cases hacc : (w.objs this).accepting = true
    · rw [handleReadEvent_accepting hacc]
      exact still_maker.handleAccept w
    · have hacc' : (w.objs this).accepting = false := by simpa using hacc
      rw [handleReadEvent_reading hacc' hcon]
      refine still_rules.calls.handleRead_nothing fun hc bs hd => ?_
      by_contra hne
      exact hno ⟨rfl, hc, hacc', bs, hne, hd⟩

end DocFerry
