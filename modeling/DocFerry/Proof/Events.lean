import DocFerry.Proof.Aside
import DocFerry.Proof.ByteOrder
import DocFerry.Proof.Leaks

/-!
# The two kinds of events

* `Unheard m w w'`: no request was touched, and of every client the bytes that it was sent and those
  that are queued for it are, taken together, what they were. `tcpServer_unheard`, `event_unheard`: so
  it is with listeners and with every event that brings no bytes.
* `event_reads`: an event that brings bytes is the loop of `handle_read` over them.
-/

namespace DocFerry

open Prog

/-- The bytes that the handler `o` was sent on the descriptor `k`, and those that are queued for it. -/
def World.wire (w : World) (host : Bytes.Endian) (k : ℤ) (o : BaseSocket) : List UInt8 :=
  w.out k ++ o.virus.resp.flatMap (HV.wire host)

/-- The bytes that it was sent on the descriptor `k`, and those that it will be sent: a response for
which there was no memory is not sent. -/
def World.owed (w : World) (host : Bytes.Endian) (k : ℤ) (o : BaseSocket) : List UInt8 :=
  w.out k ++ (o.virus.resp.flatMap (HV.blocks host)).flatten

/-- Every block that is sent is taken whole, or the connection is gone. -/
def Env.SendsWhole (E : Env) : Prop := ∀ i, (E.send i).Whole

/-- Between `w` and `w'` no request was touched; whoever is registered was so before and has no bytes
more or less, or is new; and whoever was registered was sent what was queued for him, if anything. -/
structure Unheard (E : Env) (m : ℕ) (w w' : World) : Prop where
  still : Still w w'
  server : Server m w'
  disk : w'.disk = w.disk
  registered : ∀ k p, w'.look m k = some p →
    w.look m k = some p ∧
        (E.SendsWhole → w'.owed E.host k (w'.objs p.obj) = w.owed E.host k (w.objs p.obj)) ∨
      w.nobj ≤ p.obj ∧ w'.out k = []
  sent : E.SendsWhole → ∀ k p, w.look m k = some p →
    w.out k <+: w'.out k ∧ w'.out k <+: w.owed E.host k (w.objs p.obj)

/-- What is queued are answers. -/
def World.Answers (E : Env) (w : World) : Prop :=
  ∀ i, ∀ r ∈ (w.objs i).virus.resp, ∃ id, r = HV.replyTo E.toLibC id .ok true

variable {E : Env} {m : ℕ} {w w' : World} {k : ℤ} {p : SharedPtr} {bit : Bit}

/-- Where nothing was sent. -/
theorem World.owed_of_out {host : Bytes.Endian} {o : BaseSocket} (h : w'.out k = w.out k) :
    w.out k <+: w'.out k ∧ w'.out k <+: w.owed host k o := by
  rw [h]
  exact ⟨List.prefix_rfl, List.prefix_append _ _⟩

theorem World.Answers.plain (h : w.Answers E) : w.Plain := by
  intro i r hr
  obtain ⟨id, rfl⟩ := h i r hr
  refine ⟨replyTo_sendable _ _ _ _, fun c hc => ?_⟩
  simp only [HV.replyTo, if_true] at hc
  cases hc
  rfl

theorem World.Answers.wellFormed (h : w.Answers E) (i : ℕ) : ∀ r ∈ (w.objs i).virus.resp, r.WellFormed := by
  intro r hr
  obtain ⟨id, rfl⟩ := h i r hr
  exact replyTo_wellFormed _ _ _

/-- Answers are sent as they are queued. -/
theorem World.Answers.owed (h : w.Answers E) (k : ℤ) (i : ℕ) :
    w.owed E.host k (w.objs i) = w.wire E.host k (w.objs i) := by
  unfold World.owed World.wire
  rw [flatten_blocks (h.wellFormed i)]

/-- A step that only counts or logs. -/
theorem Unheard.soft (hS : Server m w) (ho : w'.objs = w.objs) (hn : w'.nobj = w.nobj)
    (hx : w'.dead = w.dead) (hm : w'.maps = w.maps) (hd : w'.descs = w.descs) (hout : w'.out = w.out) (hdisk : w'.disk = w.disk) :
    Unheard E m w w' := by
  have hlook : ∀ k, w'.look m k = w.look m k := by
    intro k
    unfold World.look
    rw [hm]
  refine ⟨.soft ho hn hdisk, hS.congr ho hn hx hm hd, hdisk, fun k p hp => ?_, fun _ k p _ => ?_⟩
  swap
  · exact World.owed_of_out (congrFun hout k)
  rw [hlook] at hp
  refine .inl ⟨hp, fun _ => ?_⟩
  unfold World.owed
  rw [hout, ho]

/-- An entry of the log does not count. -/
theorem Unheard.of_logged {a : Act} (h : Unheard E m (w.logged a) w') : Unheard E m w w' := by
  have hlog : Still w (w.logged a) := .soft rfl rfl rfl
  exact ⟨hlog.trans _ _ _ h.still, h.server, h.disk, h.registered, h.sent⟩

/-! ### Listeners and connections that come in -/

/-- A step that adds handlers and descriptors, to those that there are. -/
theorem Opens.unheard (ho : Opens w w') (hs : Still w w') (hS : Server m w) (hS' : Server m w')
    (hobjs : ∀ i < w.nobj, w'.objs i = w.objs i)
    (hreg : ∀ k p, w'.look m k = some p → w.look m k = some p ∨ w.nobj ≤ p.obj ∧ w.descs k = none) :
    Unheard E m w w' := by
  refine ⟨hs, hS', ho.disk, fun k p hp => ?_, fun _ k p hp => ?_⟩
  swap
  · exact World.owed_of_out (ho.kept k (hS k p hp).isOpen).2
  rcases hreg k p hp with hold | ⟨hnew, hfree⟩
  · have hr := hS k p hold
    refine .inl ⟨hold, fun _ => ?_⟩
    unfold World.owed
    rw [(ho.kept k hr.isOpen).2, hobjs p.obj hr.obj]
  · exact .inr ⟨hnew, ho.made k hfree (hS' k p hp).isOpen⟩

/-- **A new listener** touches no session. -/
theorem tcpServer_unheard (hS : Server m w) {host : Option String} {port : UInt16}
    {srv : TCPServer} (hrun : TCPServer.new E host port (some m) w = .ok srv w') : Unheard E m w w' := by
  have hstill := still_maker.tcpServer (E := E) host port (some m) w
  have hopens := opens_maker.tcpServer (E := E) host port (some m) w
  obtain ⟨sock, w₁, hnew, hl, -⟩ := tcpServer_new E w host port m
  rw [hrun] at hnew hstill hopens
  cases hnew
  refine hopens.unheard hstill hS (hl.keeps hS).1 (fun i hi => hl.others i hi.ne) fun k p hp => ?_
  rcases hl.registers hp with hold | ⟨rfl, rfl, -, hfree⟩
  · exact .inl hold
  · exact .inr ⟨le_rfl, hfree⟩

/-- **A listener that has an event** touches no session. -/
theorem accept_unheard (hS : Server m w) (hp : w.look m k = some p)
    (hacc : (w.objs p.obj).accepting = true) (hc : (w.objs p.obj).cls = .tcpServerImpl) :
    Unheard E m w (final (BaseSocket.handleEvent E p.obj .read w)) := by
  have hrun : BaseSocket.handleEvent E p.obj .read w = BaseSocket.handleAccept E p.obj w :=
    handleReadEvent_accepting hacc
  have hopen : w.descs (w.objs p.obj).sock ≠ none := by
    rw [(hS k p hp).sock]
    exact (hS k p hp).isOpen
  have hobjs : ∀ i < w.nobj, (final (BaseSocket.handleAccept E p.obj w)).objs i = w.objs i := by
    intro i hi
    rcases handleAccept_cases E (hS k p hp).alive hc (hS k p hp).map hopen with ⟨-, h⟩ | ⟨-, h⟩ | ⟨f, w', -, -, h, hmade⟩
    · rw [h]
      rfl
    · rw [h]
      rfl
    · rw [h]
      exact hmade.others i (show i ≠ w.nobj from hi.ne)
  have hregs := event_registers (E := E) hS hp .read
  have hstep := event_stepped (E := E) hS hp .read
  rw [hrun] at hregs hstep ⊢
  refine (opens_maker.handleAccept w).unheard (still_maker.handleAccept w) hS hstep.server hobjs fun k' p' hp' => ?_
  rcases hregs k' p' hp' with hold | ⟨-, -, -, hnew, hinc, -⟩
  · exact .inl hold
  · exact .inr ⟨hnew, hinc.2.2⟩

/-! ### Writing -/

/-- **`handle_write`** that returns has sent all that was queued: a handler that a send has closed is
destroyed, and its queue is looked at once more. -/
theorem handleWrite_out (hS : Server m w) (hplain : w.Plain) (hE : E.SendsWhole) (hp : w.look m k = some p)
    (hc : (w.objs p.obj).cls = .virusHandler) (hrun : BaseSocket.handleWrite E p.obj w = .ok ⟨⟩ w') :
    w'.out k = w.out k ++ ((w.objs p.obj).virus.resp.flatMap (HV.blocks E.host)).flatten ∧
      (w'.objs p.obj).virus.resp = [] := by
  have hreg := hS k p hp
  have hw := handleWrite_written (E := E) hreg.alive hc hreg.map fun r hr => (hplain p.obj r hr).1
  have hlocal : Local E p.obj w (final (BaseSocket.handleWrite E p.obj w)) := handleWrite_local w
  rw [hrun, final_ok] at hlocal
  rw [hrun] at hw
  have ha := hw.alive _ _ rfl
  have hopen := hlocal.isOpen hreg.map ⟨p, by rw [hreg.sock]; exact hp, rfl⟩
    (by rw [hreg.sock]; exact hreg.isOpen) ha
  have hline := hw.line
  rw [hreg.sock] at hopen hline
  obtain ⟨sent, hout, -, hall⟩ := Line.sendAll_out E (w.line p.obj k)
    ((w.objs p.obj).virus.resp.flatMap (HV.blocks E.host)) fun i _ _ => hE i
  rw [← show w'.line p.obj k = _ from hline] at hout hall
  have hwhole := hall (line_open_iff.2 ⟨ha, hopen⟩)
  rw [hwhole] at hout
  exact ⟨hout, hw.resp _ _ rfl⟩

theorem handleWrite_owed (hS : Server m w) (hplain : w.Plain) (hE : E.SendsWhole) (hp : w.look m k = some p)
    (hc : (w.objs p.obj).cls = .virusHandler) (hrun : BaseSocket.handleWrite E p.obj w = .ok ⟨⟩ w') :
    w'.owed E.host k (w'.objs p.obj) = w.owed E.host k (w.objs p.obj) := by
  obtain ⟨hout, hresp⟩ := handleWrite_out hS hplain hE hp hc hrun
  unfold World.owed
  rw [hout, hresp, List.flatMap_nil, List.flatten_nil, List.append_nil]

/-- An event in which responses may be sent touches no other session, if it returns. -/
theorem write_unheard (hS : Server m w) (hplain : w.Plain) (hp : w.look m k = some p)
    (hc : (w.objs p.obj).cls = .virusHandler) (hcon : (w.objs p.obj).connecting = false)
    (hacc : (w.objs p.obj).accepting = false)
    (hrun : BaseSocket.handleEvent E p.obj .write w = .ok ⟨⟩ w') : Unheard E m w w' := by
  have hevent : BaseSocket.handleEvent E p.obj .write w = BaseSocket.handleWrite E p.obj w :=
    handleWriteEvent_writing hacc hcon
  have hregs := event_registers (E := E) hS hp .write
  have hserver := (event_stepped (E := E) hS hp .write).server
  have haside := aside_write.handleWrite (E := E) (hplain p.obj)
  have hstill := still_write.handleWrite (E := E) (hplain p.obj)
  rw [hrun, final_ok] at hregs hserver
  rw [hevent] at hrun
  rw [hrun, final_ok] at haside hstill
  have hout : ∀ k' p', k' ≠ k → w.look m k' = some p' → w'.out k' = w.out k' := by
    intro k' p' hne _
    exact haside.out k' (by rwa [(hS k p hp).sock])
  refine ⟨hstill, hserver, haside.disk, fun k' p' hp' => ?_, fun hE k' p' hp' => ?_⟩
  swap
  · rcases eq_or_ne k' k with rfl | hne
    · obtain rfl : p' = p := Option.some.inj (hp'.symm.trans hp)
      rw [(handleWrite_out hS hplain hE hp hc hrun).1, World.owed]
      exact ⟨List.prefix_append _ _, List.prefix_rfl⟩
    · exact World.owed_of_out (hout k' p' hne hp')
  rcases hregs k' p' hp' with hold | ⟨-, -, hbit, -⟩
  · refine .inl ⟨hold, fun hE => ?_⟩
    rcases eq_or_ne k' k with rfl | hne
    · obtain rfl : p' = p := Option.some.inj (hold.symm.trans hp)
      exact handleWrite_owed hS hplain hE hp hc hrun
    · unfold World.owed
      rw [haside.others p'.obj (hS.obj_ne hp hold hne), hout k' p' hne hold]
  · cases hbit

/-! ### Events -/

/-- **An event that brings no bytes** touches no session, if it returns. -/
theorem event_unheard (hS : Server m w) (hplain : w.Plain) (hp : w.look m k = some p)
    (hcon : (w.objs p.obj).connecting = false) (hno : ¬ GetsBytes E w p.obj bit)
    (hrun : BaseSocket.handleEvent E p.obj bit w = .ok ⟨⟩ w') : Unheard E m w w' := by
  by_cases ha : bit = .read ∧ (w.objs p.obj).accepting = true ∧ (w.objs p.obj).cls = .tcpServerImpl
  · obtain ⟨rfl, hacc, hc⟩ := ha
    have hu := accept_unheard (E := E) hS hp hacc hc
    rwa [hrun] at hu
  by_cases hw : bit = .write ∧ (w.objs p.obj).accepting = false ∧ (w.objs p.obj).cls = .virusHandler
  · obtain ⟨rfl, hacc, hc⟩ := hw
    exact write_unheard hS hplain hp hc hcon hacc hrun
  have hmute : Mute p.obj w (final (BaseSocket.handleEvent E p.obj bit w)) := by
    apply event_mute (hS k p hp).alive hcon hno
    · intro hb
      by_contra hor
      obtain ⟨hacc, hc⟩ := not_or.1 hor
      exact hw ⟨hb, by simpa using hacc, not_not.1 hc⟩
    · intro hb hacc hc
      exact ha ⟨hb, hacc, hc⟩
  have hstill := event_still (E := E) (hplain p.obj) hcon hno
  have hregs := event_registers (E := E) hS hp bit
  have hserver := (event_stepped (E := E) hS hp bit).server
  rw [hrun, final_ok] at hmute hstill hregs hserver
  refine ⟨hstill, hserver, hmute.disk, fun k' p' hp' => ?_,
    fun _ k' p' _ => World.owed_of_out (congrFun hmute.out k')⟩
  rcases hregs k' p' hp' with hold | ⟨hc, hacc, hb, -⟩
  · refine .inl ⟨hold, fun _ => ?_⟩
    unfold World.owed
    rw [hmute.out]
    rcases eq_or_ne p'.obj p.obj with heq | hne
    · rw [heq, hmute.virus]
    · rw [hmute.others _ hne]
  · exact absurd ⟨hb, hacc, hc⟩ ha

/-- The bytes that the handler `this` gets from its client in the event. -/
def World.gets (w : World) (E : Env) (this : ℕ) (bit : Bit) : List UInt8 :=
  if bit = .read ∧ (w.objs this).cls = .virusHandler ∧ (w.objs this).accepting = false then
    match E.recv w.nrecv with
    | .data bs => bs.take 65535
    | .wouldBlock => []
    | .fatal => []
  else []

/-- Without bytes there are none. -/
theorem gets_nil (hno : ¬ GetsBytes E w p.obj bit) : w.gets E p.obj bit = [] := by
  unfold World.gets
  by_cases h : bit = .read ∧ (w.objs p.obj).cls = .virusHandler ∧ (w.objs p.obj).accepting = false
  · obtain ⟨hb, hc, hacc⟩ := h
    rw [if_pos ⟨hb, hc, hacc⟩]
    cases hd : E.recv w.nrecv with
    | wouldBlock => rfl
    | fatal => rfl
    | data bs =>
      have hnil : bs = [] := by
        by_contra hne
        exact hno ⟨hb, hc, hacc, bs, hne, hd⟩
      rw [hnil]
      rfl
  · rw [if_neg h]

/-- What a run of the loop of `handle_read` makes of the process. -/
def World.looped (w : World) (this : ℕ) :
    Except Fault (VirusHandler × Disk) → EStateM.Result Fault World PUnit
  | .error f => .error f ((w.logged (.callback this .read)).received (w.objs this).sock)
  | .ok r => .ok ⟨⟩ ((w.logged (.callback this .read)).readBy this r.1 r.2)

/-- **An event that brings bytes** is the loop of `handle_read` over them, whatever becomes of it. -/
theorem event_loop (hS : Server m w) (hp : w.look m k = some p) (hcon : (w.objs p.obj).connecting = false)
    (hg : GetsBytes E w p.obj bit) :
    w.gets E p.obj bit ≠ [] ∧ (w.gets E p.obj bit).length ≤ 65535 ∧ (w.objs p.obj).cls = .virusHandler ∧
      BaseSocket.handleEvent E p.obj bit w = w.looped p.obj
        (VirusHandler.readLoop E.toLibC E.fuel (w.objs p.obj).virus w.disk (w.gets E p.obj bit)) := by
  obtain ⟨rfl, hc, hacc, bs, hne, hd⟩ := hg
  have hgets : w.gets E p.obj .read = bs.take 65535 := by
    unfold World.gets
    rw [if_pos ⟨rfl, hc, hacc⟩, hd]
  have hbs : bs.take 65535 ≠ [] := by
    intro hnil
    rcases List.take_eq_nil_iff.1 hnil with h0 | h0
    · cases h0
    · exact hne h0
  set w₁ := w.logged (.callback p.obj .read) with hw₁
  have hopen : w₁.descs (w₁.objs p.obj).sock ≠ none := by
    rw [show (w₁.objs p.obj).sock = k from (hS k p hp).sock]
    exact (hS k p hp).isOpen
  have hrun : BaseSocket.handleEvent E p.obj .read w = VirusHandler.handleRead E p.obj w₁ := by
    rw [hw₁, ← handleRead_virus (hS k p hp).alive hc, ← handleReadEvent_reading hacc hcon]
    rfl
  rw [hgets, hrun, virusRead_run (w := w₁) (hS k p hp).alive hopen hd hne]
  refine ⟨hbs, List.length_take_le _ _, hc, ?_⟩
  change _ = w.looped p.obj (VirusHandler.readLoop E.toLibC E.fuel (w₁.objs p.obj).virus w₁.disk (bs.take 65535))
  cases VirusHandler.readLoop E.toLibC E.fuel (w₁.objs p.obj).virus w₁.disk (bs.take 65535) with
  | error f => rfl
  | ok r => rfl

/-- Such an event that returns. -/
theorem event_reads (hS : Server m w) (hp : w.look m k = some p) (hcon : (w.objs p.obj).connecting = false)
    (hg : GetsBytes E w p.obj bit) (hrun : BaseSocket.handleEvent E p.obj bit w = .ok ⟨⟩ w') :
    w.gets E p.obj bit ≠ [] ∧ (w.gets E p.obj bit).length ≤ 65535 ∧ (w.objs p.obj).cls = .virusHandler ∧
      ∃ virus d, w' = (w.logged (.callback p.obj .read)).readBy p.obj virus d ∧
        Loop.Returns (VirusHandler.readBody E.toLibC)
          ⟨(w.objs p.obj).virus, w.disk, w.gets E p.obj bit, (w.gets E p.obj bit).length⟩ (virus, d) := by
  obtain ⟨hn, hlen, hc, hloop⟩ := event_loop hS hp hcon hg
  refine ⟨hn, hlen, hc, ?_⟩
  rw [hloop] at hrun
  cases hl : VirusHandler.readLoop E.toLibC E.fuel (w.objs p.obj).virus w.disk (w.gets E p.obj bit) with
  | error f =>
    rw [hl] at hrun
    cases hrun
  | ok r =>
    obtain ⟨virus, d⟩ := r
    rw [hl] at hrun
    cases hrun
    exact ⟨virus, d, rfl, E.fuel, readLoop_ok hl⟩

end DocFerry
