import DocFerry.Proof.Runs
import DocFerry.Proof.Still

/-!
# No stream is lost

* `Server.Moment`: the runs of the server, event by event; `Server.Reach.moments`: the rounds of
  `do_select` are made of them, by `doSelect_cases`.
* `Tidy`: the open streams are those of the requests of the registered handlers, one handler each.
  `Server.Moment.tidy` is its step.
* `streams_closed`: as long as no header is cut, no connection is closed in the middle of a value, and no
  frame of less than `DEFAULT_MAX_MEMORY_CACHE` bytes is completed, every stream is closed once, and in
  time.
-/

namespace DocFerry

open Prog

/-- What the server does next: it opens a listener, calls `select` with numbers that have a bit, or has
an event that `C` allows, given the handler, the bit and the state before. An event that does not return is
none of these: with it the run has come to its end. -/
inductive Server.Moment (E : Env) (m : ℕ) (C : ℕ → Bit → World → Prop) : World → World → Prop
  | server (host : Option String) (port : UInt16) {srv : TCPServer} {w w' : World}
      (hrun : TCPServer.new E host port (some m) w = .ok srv w') : Moment E m C w w'
  | select (w : World) (hlow : ∀ k ∈ ((serverTable E m).interest w).e, k < fdSetSize) :
      Moment E m C w { w with nselect := w.nselect + 1 }
  | event {k : ℤ} {p : SharedPtr} {bit : Bit} {w w' : World} (hp : w.look m k = some p)
      (hC : C p.obj bit w)
      (hrun : BaseSocket.handleEvent E p.obj bit (w.logged (.event p.obj k bit)) = .ok ⟨⟩ w') :
      Moment E m C w w'

/-- The states between the moments. -/
def Server.Runs (E : Env) (m : ℕ) (C : ℕ → Bit → World → Prop) : World → Prop :=
  Relation.ReflTransGen (Server.Moment E m C) World.init

/-- The event of the handler `this` does not close its connection. -/
def StaysOpen (E : Env) (this : ℕ) (w : World) : Bit → Prop
  | .read => ∃ bs, bs ≠ [] ∧ E.recv w.nrecv = .data bs
  | .write => ∀ i < ((w.objs this).virus.resp.flatMap (HV.blocks E.host)).length,
      ¬ (E.send (w.nsend + i)).Fatal
  | .expt => False

/-- The `n`-th call of `calloc` is the first one of a call of `create_cache`. -/
inductive LibC.Begins (E : LibC) : ℕ → Prop
  | zero : LibC.Begins E 0
  | fail {n : ℕ} (h : LibC.Begins E n) (hn : E.calloc n = false) : LibC.Begins E (n + 1)
  | both {n : ℕ} (h : LibC.Begins E n) (hn : E.calloc n = true) (hn' : E.calloc (n + 1) = true) :
      LibC.Begins E (n + 2)

/-- Wherever `create_cache` gets memory for its cache, it gets some for the private part as well. -/
def LibC.Pairs (E : LibC) : Prop := ∀ n, E.Begins n → E.calloc n = true → E.calloc (n + 1) = true

/-- The event of the handler `this` lets no stream go: no header is cut, no frame of less than
`DEFAULT_MAX_MEMORY_CACHE` bytes is completed, and in the middle of a value the connection is not
closed. -/
structure Calm (E : Env) (this : ℕ) (bit : Bit) (w : World) : Prop where
  memory : E.toLibC.Pairs
  header : bit = .read → (w.objs this).cls = .virusHandler → ∀ bs, bs ≠ [] → E.recv w.nrecv = .data bs →
    (w.objs this).virus.req.hlen = 0 ∨ (w.objs this).virus.req.hlen = 8
  long : bit = .read → (w.objs this).cls = .virusHandler → ∀ bs, E.recv w.nrecv = .data bs →
    (w.objs this).virus.req.CompletesLong (bs.take 65535)
  stays : (w.objs this).virus.req.value ≠ none → StaysOpen E this w bit

/-- The descriptors of the clients that are registered. -/
def Server.clients (m : ℕ) (w : World) : Set ℤ :=
  {k | ∃ p, w.look m k = some p ∧ (w.objs p.obj).cls = .virusHandler}

/-- Every stream was closed once or is open; an open one is that of a frame of which a registered
client has sent the header and not yet all of the value; and there are at most as many of them as
clients. -/
structure StreamsClosed (m : ℕ) (w : World) : Prop where
  once : ∀ fp, fp < w.disk.nstream → w.disk.nclose fp = if w.disk.streams fp = none then 1 else 0
  inTime : ∀ fp, w.disk.streams fp ≠ none → ∃ k p c, w.look m k = some p ∧
    (w.objs p.obj).cls = .virusHandler ∧ (w.objs p.obj).virus.req.value = some c ∧
    c.priv.wfp = some fp ∧ (w.objs p.obj).virus.req.headComplete = true ∧
    (w.objs p.obj).virus.req.valueComplete = false ∧
    c.priv.capacity = (w.objs p.obj).virus.req.header.length.toNat
  few : {fp | w.disk.streams fp ≠ none}.encard ≤ (Server.clients m w).encard

/-- The request of the handler registered under `k` has the stream `fp`. -/
def Owns (m : ℕ) (w : World) (k : ℤ) (fp : ℕ) : Prop :=
  ∃ p, w.look m k = some p ∧ (w.objs p.obj).virus.req.Holds fp

/-- What is known of a registered handler. -/
structure BaseSocket.Tidy (o : BaseSocket) (d : Disk) : Prop where
  part : o.virus.req.Partial d
  idle : o.connecting = false
  cls : o.virus.req.value ≠ none → o.cls = .virusHandler

/-- The open streams are those of the requests of the registered handlers, each of one handler. -/
structure Tidy (m : ℕ) (w : World) : Prop where
  server : Server m w
  plain : w.Plain
  balanced : w.disk.Balanced
  handler : ∀ k p, w.look m k = some p → (w.objs p.obj).Tidy w.disk
  held : ∀ fp, w.disk.streams fp ≠ none ↔ ∃ k, Owns m w k fp
  apart : ∀ k k' fp, Owns m w k fp → Owns m w k' fp → k = k'

variable {E : Env} {m : ℕ} {w w' : World} {C : ℕ → Bit → World → Prop} {k k' : ℤ} {fp this : ℕ}
  {p p' : SharedPtr} {bit : Bit}

/-! ### Rounds -/

/-- The deliveries of a round are events. -/
theorem deliveries_moments {l : List (ℤ × Bit)} (hC : ∀ i bit w, C i bit w)
    (hrun : l.forM (serverTable E m).deliver w = .ok ⟨⟩ w') :
    Relation.ReflTransGen (Server.Moment E m C) w w' := by
  induction l generalizing w with
  | nil =>
    cases hrun
    exact .refl
  | cons b l ih =>
    have hrun' : ((serverTable E m).deliver b >>= fun _ => l.forM (serverTable E m).deliver) w =
        .ok ⟨⟩ w' := hrun
    rw [bind_eq_ok] at hrun'
    obtain ⟨u, w₁, hb, hl⟩ := hrun'
    rcases deliver_cases E m w b with h | ⟨p, hp, h⟩
    · rw [h] at hb
      cases hb
      exact ih hl
    · rw [h] at hb
      exact .head (.event hp (hC _ _ _) hb) (ih hl)

/-- **A round that returns**: there was nothing to ask for, `select` gave an error, or what it gave was
delivered. -/
theorem doSelect_cases (hS : Server m w) (hrun : doSelect E m w = .ok ⟨⟩ w') :
    ((serverTable E m).interest w).e.max = ⊥ ∧ w' = w ∨
    ∃ (fd retv : ℤ) (sets : FdSets), (∀ k ∈ ((serverTable E m).interest w).e, k < fdSetSize) ∧
      osSelect E (fd + 1) ((serverTable E m).interest w) w =
        .ok (retv, sets) { w with nselect := w.nselect + 1 } ∧
      (retv = -1 ∧ w' = { w with nselect := w.nselect + 1 } ∨
        sets.bits.forM (serverTable E m).deliver { w with nselect := w.nselect + 1 } = .ok ⟨⟩ w') := by
  have hlow : ∀ k ∈ ((serverTable E m).interest w).e, k < fdSetSize := by
    by_contra hhigh
    push Not at hhigh
    obtain ⟨k, hk, hle⟩ := hhigh
    obtain ⟨k', -, -, hover⟩ := doSelect_overflows (serverTable E m) w hS.keys_pos (osSelect E) hk hle.not_gt
    rw [show doSelect E m w = _ from hover] at hrun
    cases hrun
  unfold doSelect at hrun
  rw [doSelect_eq_round _ _ hS.keys_pos hlow (osSelect_polls E)] at hrun
  unfold Table.round at hrun
  rw [get_bind] at hrun
  cases hm : ((serverTable E m).interest w).e.max with
  | bot =>
    rw [hm] at hrun
    cases hrun
    exact .inl ⟨rfl, rfl⟩
  | coe fd =>
    obtain ⟨retv, sets, hsel, -⟩ := osSelect_cases E (fd + 1) ((serverTable E m).interest w) w
    refine .inr ⟨fd, retv, sets, hlow, hsel, ?_⟩
    rw [hm] at hrun
    dsimp only at hrun
    rw [bind_of_ok hsel] at hrun
    dsimp only at hrun
    by_cases hr : retv = -1
    · rw [if_pos hr] at hrun
      cases hrun
      exact .inl ⟨hr, rfl⟩
    · rw [if_neg hr] at hrun
      exact .inr hrun

/-- **A step of the server** is a row of moments. -/
theorem Server.Step.moments (hC : ∀ i bit w, C i bit w) (hS : Server m w) (h : Server.Step E m w w') :
    Relation.ReflTransGen (Server.Moment E m C) w w' := by
  cases h with
  | server host port hrun => exact .single (.server host port hrun)
  | round hrun =>
    rcases doSelect_cases hS hrun with ⟨-, rfl⟩ | ⟨fd, retv, sets, hlow, -, ⟨-, rfl⟩ | hbits⟩
    · -- without a descriptor to poll the round is over
      exact .refl
    · exact .single (.select w hlow)
    · exact .head (.select w hlow) (deliveries_moments hC hbits)

/-- **The runs of the server** are among the runs by moments. -/
theorem Server.Reach.moments (hC : ∀ i bit w, C i bit w) (h : Server.Reach E m w) :
    Server.Runs E m C w := by
  induction h with
  | refl => exact .refl
  | tail hreach hstep ih => exact ih.trans (hstep.moments hC (Server.Reach.server hreach))

/-! ### Steps that touch no request -/

/-- A new handler is tidy. -/
theorem BaseSocket.Fresh.tidy {o : BaseSocket} (h : o.Fresh) (d : Disk) : o.Tidy d := by
  obtain ⟨st, head, hreq⟩ := h.req
  have hv : o.virus.req.value = none := by rw [hreq]; rfl
  refine ⟨⟨?_, fun h => absurd hv h, fun c hc => ?_, ?_⟩, h.connecting, fun h => absurd hv h⟩
  · rw [hreq]
    exact .new st head d
  · rw [hv] at hc
    cases hc
  · rw [hreq]
    rfl

theorem BaseSocket.Fresh.holds {o : BaseSocket} (h : o.Fresh) (fp : ℕ) : ¬ o.virus.req.Holds fp := by
  obtain ⟨st, head, hreq⟩ := h.req
  exact holds_none (by rw [hreq]; rfl) fp

/-- A handler whose request was not touched. -/
theorem BaseSocket.Rests.tidy {o o' : BaseSocket} {d d' : Disk} (h : o.Rests o') (ht : o.Tidy d)
    (hd : d.SameStreams d') : o'.Tidy d' := by
  refine ⟨?_, ?_, ?_⟩
  · rw [h.req]
    exact ht.part.same hd
  · by_contra hc
    have := h.connecting (by simpa using hc)
    rw [ht.idle] at this
    cases this
  · rw [h.req, h.cls]
    exact ht.cls

/-- **A step that touches no request** keeps the streams in order, as long as the handlers that have
a value stay registered. -/
theorem Tidy.still (h : Tidy m w) (hs : Still w w') (hS : Server m w')
    (hnew : ∀ k p, w'.look m k = some p → w.look m k = some p ∨ w.nobj ≤ p.obj)
    (hkept : ∀ k p, w.look m k = some p → (w.objs p.obj).virus.req.value ≠ none → w'.look m k = some p) :
    Tidy m w' := by
  -- the handlers that were there have their requests
  have hold : ∀ k p, w.look m k = some p → (w.objs p.obj).Rests (w'.objs p.obj) :=
    fun k p hp => hs.old _ (.inl (h.server k p hp).obj)
  have howns : ∀ k fp, Owns m w' k fp ↔ Owns m w k fp := by
    intro k fp
    constructor
    · rintro ⟨p, hp, hh⟩
      rcases hnew k p hp with hp₀ | hge
      · rw [(hold k p hp₀).req] at hh
        exact ⟨p, hp₀, hh⟩
      · exact absurd hh ((hs.fresh _ hge (hS k p hp).obj).holds fp)
    · rintro ⟨p, hp, hh⟩
      have hv : (w.objs p.obj).virus.req.value ≠ none := fun hv => holds_none hv fp hh
      refine ⟨p, hkept k p hp hv, ?_⟩
      rw [(hold k p hp).req]
      exact hh
  refine ⟨hS, hs.plain h.plain, hs.disk.balanced h.balanced, fun k p hp => ?_, fun fp => ?_, fun k k' fp => ?_⟩
  · rcases hnew k p hp with hp₀ | hge
    · exact (hold k p hp₀).tidy (h.handler k p hp₀) hs.disk
    · exact (hs.fresh _ hge (hS k p hp).obj).tidy _
  · rw [Ne, hs.disk.closed, ← Ne, h.held]
    exact exists_congr fun k => (howns k fp).symm
  · rw [howns, howns]
    exact h.apart k k' fp

/-- A step that leaves handlers, maps, descriptors and the disk. -/
theorem Tidy.soft (h : Tidy m w) (ho : w'.objs = w.objs) (hn : w'.nobj = w.nobj) (hm : w'.maps = w.maps)
    (hx : w'.dead = w.dead) (hd : w'.descs = w.descs) (hdisk : w'.disk = w.disk) : Tidy m w' := by
  have hlook : ∀ k, w'.look m k = w.look m k := fun k => by
    unfold World.look
    rw [hm]
  refine h.still (.soft ho hn hdisk) (h.server.congr ho hn hx hm hd) (fun k p hp => ?_) fun k p hp _ => ?_
  · rw [hlook] at hp
    exact .inl hp
  · rw [hlook]
    exact hp

/-- **A new listener** is none of the handlers that have a value. -/
theorem Tidy.listener (h : Tidy m w) {host : Option String} {port : UInt16} {srv : TCPServer}
    (hrun : TCPServer.new E host port (some m) w = .ok srv w') : Tidy m w' := by
  obtain ⟨sock, w'', hnew, hl, -⟩ := tcpServer_new E w host port m
  rw [hrun] at hnew
  cases hnew
  have hstill := still_maker.tcpServer (E := E) host port (some m) w
  rw [hrun, final_ok] at hstill
  refine h.still hstill (hl.keeps h.server).1 (fun k p hp => ?_)
    fun k p hp _ => hl.kept h.server hp
  rcases hl.registers hp with hold | ⟨rfl, -⟩
  · exact .inl hold
  · exact .inr le_rfl

/-! ### Events -/

/-- **Sends without a fatal answer** leave the handler registered. -/
theorem handleWrite_stays (hreg : Registered m w k p) (hp : w.look m k = some p)
    (hc : (w.objs p.obj).cls = .virusHandler) (hplain : w.Plain)
    (hE : ∀ i < ((w.objs p.obj).virus.resp.flatMap (HV.blocks E.host)).length,
      ¬ (E.send (w.nsend + i)).Fatal) :
    (final (BaseSocket.handleWrite E p.obj w)).look m k = some p := by
  have hlocal : Local E p.obj w (final (BaseSocket.handleWrite E p.obj w)) := handleWrite_local w
  have hw := handleWrite_written (E := E) hreg.alive hc hreg.map fun r hr => (hplain p.obj r hr).1
  have hline := hw.line
  rw [hreg.sock] at hline
  have hopen : (w.line p.obj k).status = .open := line_open_iff.2 ⟨hreg.alive, hreg.isOpen⟩
  -- the connection is open after the row of sends
  have hopen' : ((w.line p.obj k).sendAll E ((w.objs p.obj).virus.resp.flatMap (HV.blocks E.host))).status =
      .open := by
    refine Line.sendAll_open hopen fun i hi hlt => ?_
    have hnext := Line.next_sendAll_le E (w.line p.obj k)
      ((w.objs p.obj).virus.resp.flatMap (HV.blocks E.host))
    obtain ⟨j, rfl⟩ := Nat.exists_eq_add_of_le hi
    refine hE j ?_
    have hn : (w.line p.obj k).next = w.nsend := rfl
    omega
  cases hrun : BaseSocket.handleWrite E p.obj w with
  | error f w' =>
    rw [hrun] at hline
    exact absurd hopen' hline.status_error
  | ok a w' =>
    rw [hrun] at hlocal hline
    rw [show _ = w'.line p.obj k from hline.symm] at hopen'
    have hreg' := hlocal.reg m hreg.map
    rw [hreg.sock] at hreg'
    rcases hreg' with hr | hr
    · exact (hr.maps m k).trans hp
    · -- a handler that has left the map is destroyed
      have hdead : w'.dead p.obj = true := hr.dead_own hp
      rw [(line_open_iff.1 hopen').1] at hdead
      cases hdead

/-- A calm event without bytes leaves a handler registered that has a value. -/
theorem event_stays (h : Tidy m w) (hp : w.look m k = some p) (hC : Calm E p.obj bit w)
    (hv : (w.objs p.obj).virus.req.value ≠ none) (hno : ¬ GetsBytes E w p.obj bit) :
    (final (BaseSocket.handleEvent E p.obj bit w)).look m k = some p := by
  have hreg := h.server k p hp
  have htidy := h.handler k p hp
  have hc := htidy.cls hv
  have hstays := hC.stays hv
  cases bit with
  | expt => exact hstays.elim
  | read =>
    -- bytes would come, so the handler can only be one that accepts
    obtain ⟨bs, hne, hd⟩ := hstays
    have hacc : (w.objs p.obj).accepting = true := by
      by_contra hacc
      exact hno ⟨rfl, hc, by simpa using hacc, bs, hne, hd⟩
    change (final (BaseSocket.handleReadEvent E p.obj w)).look m k = some p
    rw [handleReadEvent_accepting hacc, handleAccept_other hreg.alive (by rw [hc]; decide)]
    exact hp
  | write =>
    change (final (BaseSocket.handleWriteEvent E p.obj w)).look m k = some p
    by_cases hacc : (w.objs p.obj).accepting = true
    · unfold BaseSocket.handleWriteEvent
      rw [bind_of_ok run_obj, if_pos hacc]
      exact hp
    · rw [handleWriteEvent_writing (by simpa using hacc) htidy.idle]
      exact handleWrite_stays hreg hp hc h.plain hstays

/-- **A calm event in which no bytes come.** -/
theorem Tidy.quiet (h : Tidy m w) (hp : w.look m k = some p) (hC : Calm E p.obj bit w)
    (hno : ¬ GetsBytes E w p.obj bit) : Tidy m (final (BaseSocket.handleEvent E p.obj bit w)) := by
  have hstep := event_stepped (E := E) h.server hp bit
  have hstill := event_still (E := E) (h.plain p.obj) (h.handler k p hp).idle hno
  have hnew := event_registers (E := E) h.server hp bit
  refine h.still hstill hstep.server (fun k' p' hp' => (hnew k' p' hp').imp_right (·.2.2.2.1))
    fun k' p' hp' hv => ?_
  rcases eq_or_ne k' k with rfl | hne
  · obtain rfl : p' = p := Option.some.inj (hp'.symm.trans hp)
    exact event_stays h hp hC hv hno
  · exact hstep.others k' p' hne hp'

/-- The streams of the handlers that are registered elsewhere than under `k`. -/
def OfOthers (m : ℕ) (w : World) (k : ℤ) : Set ℕ := {fp | ∃ k', k' ≠ k ∧ Owns m w k' fp}

/-- What the loop of `handle_read` finds. -/
theorem Tidy.settled (h : Tidy m w) (hp : w.look m k = some p) :
    (w.objs p.obj).virus.Settled (OfOthers m w k) w.disk := by
  have hown : ∀ fp, (w.objs p.obj).virus.req.Holds fp ↔ Owns m w k fp := by
    intro fp
    constructor
    · exact fun hh => ⟨p, hp, hh⟩
    · rintro ⟨p', hp', hh⟩
      obtain rfl : p' = p := Option.some.inj (hp'.symm.trans hp)
      exact hh
  refine ⟨(h.handler k p hp).part, ⟨h.balanced, fun fp => ?_, ?_⟩, h.plain p.obj⟩
  · rw [h.held, hown]
    constructor
    · rintro ⟨k', hk'⟩
      rcases eq_or_ne k' k with rfl | hne
      · exact .inr hk'
      · exact .inl ⟨k', hne, hk'⟩
    · rintro (⟨k', -, hk'⟩ | hk')
      · exact ⟨k', hk'⟩
      · exact ⟨k, hk'⟩
  · rintro fp ⟨k', hne, hk'⟩ hh
    exact hne (h.apart k' k fp hk' ((hown fp).1 hh))

/-- Handlers under different descriptors are different objects. -/
theorem Server.obj_ne (hS : Server m w) (hp : w.look m k = some p) (hp' : w.look m k' = some p')
    (hne : k' ≠ k) : p'.obj ≠ p.obj := by
  intro heq
  have hsock := (hS k' p' hp').sock
  rw [heq, (hS k p hp).sock] at hsock
  exact hne hsock.symm

/-- What `handle_read` makes of the streams that handlers have: those of its handler are new. -/
theorem readBy_owns (hS : Server m w) (hp : w.look m k = some p) (virus : VirusHandler) (d : Disk) :
    (∀ fp, Owns m (w.readBy p.obj virus d) k fp ↔ virus.req.Holds fp) ∧
      ∀ k' fp, k' ≠ k → (Owns m (w.readBy p.obj virus d) k' fp ↔ Owns m w k' fp) := by
  refine ⟨fun fp => ⟨?_, fun hh => ⟨p, hp, ?_⟩⟩, fun k' fp hne => ?_⟩
  · rintro ⟨p', hp', hh⟩
    obtain rfl : p' = p := Option.some.inj (hp'.symm.trans hp)
    rw [World.readBy_self] at hh
    exact hh
  · rw [World.readBy_self]
    exact hh
  · refine exists_congr fun p' => and_congr_right fun hp' => ?_
    rw [World.readBy_ne w virus d (hS.obj_ne hp hp' hne)]

/-- **What the loop leaves** is in order again. -/
theorem Tidy.readBy (h : Tidy m w) (hp : w.look m k = some p) (hc : (w.objs p.obj).cls = .virusHandler)
    {virus : VirusHandler} {d : Disk} (hs : virus.Settled (OfOthers m w k) d)
    (hS : Server m (w.readBy p.obj virus d)) : Tidy m (w.readBy p.obj virus d) := by
  obtain ⟨hown, howns⟩ := readBy_owns h.server hp virus d
  have hmem : ∀ k' fp, k' ≠ k → Owns m w k' fp → fp ∈ OfOthers m w k :=
    fun k' fp hne hk' => ⟨k', hne, hk'⟩
  refine ⟨hS, fun i => ?_, hs.shares.balanced, fun k' p' hp' => ?_, fun fp => ?_, fun k₁ k₂ fp h₁ h₂ => ?_⟩
  · rcases eq_or_ne i p.obj with rfl | hi
    · rw [World.readBy_self]
      exact hs.plain
    · rw [World.readBy_ne w virus d hi]
      exact h.plain i
  · rcases eq_or_ne k' k with rfl | hne
    · obtain rfl : p' = p := Option.some.inj (hp'.symm.trans hp)
      rw [World.readBy_self]
      exact ⟨hs.part, (h.handler _ _ hp).idle, fun _ => hc⟩
    · -- the streams of the others are open as before
      have ht := h.handler k' p' hp'
      rw [World.readBy_ne w virus d (h.server.obj_ne hp hp' hne)]
      refine ⟨ht.part.mono fun fp hh _ => ?_, ht.idle, ht.cls⟩
      exact (hs.shares.isOpen fp).2 (.inl (hmem k' fp hne ⟨p', hp', hh⟩))
  · change d.streams fp ≠ none ↔ _
    rw [hs.shares.isOpen]
    constructor
    · rintro (⟨k', hne, hk'⟩ | hh)
      · exact ⟨k', (howns k' fp hne).2 hk'⟩
      · exact ⟨k, (hown fp).2 hh⟩
    · rintro ⟨k', hk'⟩
      rcases eq_or_ne k' k with rfl | hne
      · exact .inr ((hown fp).1 hk')
      · exact .inl (hmem k' fp hne ((howns k' fp hne).1 hk'))
  · -- the stream of this handler is none of the others'
    have hapart : ∀ k', k' ≠ k → Owns m (w.readBy p.obj virus d) k fp →
        ¬ Owns m (w.readBy p.obj virus d) k' fp := fun k' hne hk hk' =>
      hs.shares.apart fp (hmem k' fp hne ((howns k' fp hne).1 hk')) ((hown fp).1 hk)
    by_cases hk₁ : k₁ = k
    · rw [hk₁] at h₁ ⊢
      by_contra hne
      exact hapart k₂ (Ne.symm hne) h₁ h₂
    · by_cases hk₂ : k₂ = k
      · rw [hk₂] at h₂
        exact absurd h₁ (hapart k₁ hk₁ h₂)
      · exact h.apart k₁ k₂ fp ((howns k₁ fp hk₁).1 h₁) ((howns k₂ fp hk₂).1 h₂)

/-- **A calm event in which bytes come.** -/
theorem Tidy.bytes (h : Tidy m w) (hp : w.look m k = some p) (hC : Calm E p.obj bit w)
    (hg : GetsBytes E w p.obj bit) (hrun : BaseSocket.handleEvent E p.obj bit w = .ok ⟨⟩ w') :
    Tidy m w' := by
  obtain ⟨rfl, hc, hacc, bs, hne, hd⟩ := hg
  have hreg := h.server k p hp
  have htidy := h.handler k p hp
  have hstep := event_stepped (E := E) h.server hp .read
  rw [hrun, final_ok] at hstep
  set w₁ := w.logged (.callback p.obj .read) with hw₁
  have h₁ : Tidy m w₁ := h.soft rfl rfl rfl rfl rfl rfl
  have hopen : w₁.descs (w₁.objs p.obj).sock ≠ none := by
    rw [show (w₁.objs p.obj).sock = k from hreg.sock]
    exact hreg.isOpen
  have hrun' : VirusHandler.handleRead E p.obj w₁ = .ok ⟨⟩ w' := by
    rw [hw₁, ← handleRead_virus hreg.alive hc, ← handleReadEvent_reading hacc htidy.idle]
    exact hrun
  rw [virusRead_run (w := w₁) hreg.alive hopen hd hne] at hrun'
  -- what `recv` gives is at most what the buffer holds, and not empty
  have hlen : (bs.take 65535).length ≤ 65535 := List.length_take_le _ _
  have hbs : bs.take 65535 ≠ [] := by
    intro hnil
    rcases List.take_eq_nil_iff.1 hnil with h0 | h0
    · cases h0
    · exact hne h0
  cases hl : VirusHandler.readLoop E.toLibC E.fuel (w₁.objs p.obj).virus w₁.disk (bs.take 65535) with
  | error f =>
    rw [hl] at hrun'
    cases hrun'
  | ok r =>
    obtain ⟨virus, d⟩ := r
    rw [hl] at hrun'
    cases hrun'
    -- the loop settles every frame that it completes
    have hs := readLoop_settled (h₁.settled (k := k) hp) hbs (by omega) (hC.long rfl hc bs hd) hl
    exact h₁.readBy hp hc hs hstep.server

/-! ### Runs -/

/-- **A calm moment** keeps the streams in order. -/
theorem Server.Moment.tidy (hm : Server.Moment E m (Calm E) w w') (h : Tidy m w) : Tidy m w' := by
  cases hm with
  | server host port hrun => exact h.listener hrun
  | select w => exact h.soft rfl rfl rfl rfl rfl rfl
  | @event k p bit w w' hp hC hrun =>
    have h₁ : Tidy m (w.logged (.event p.obj k bit)) := h.soft rfl rfl rfl rfl rfl rfl
    have hC₁ : Calm E p.obj bit (w.logged (.event p.obj k bit)) := ⟨hC.memory, hC.header, hC.long, hC.stays⟩
    by_cases hg : GetsBytes E (w.logged (.event p.obj k bit)) p.obj bit
    · exact h₁.bytes (k := k) hp hC₁ hg hrun
    · have := h₁.quiet (k := k) hp hC₁ hg
      rw [hrun, final_ok] at this
      exact this

theorem Tidy.init : Tidy m World.init := by
  have hlook : ∀ k p, World.init.look m k ≠ some p := by
    intro k p hp
    rw [init_look] at hp
    cases hp
  have howns : ∀ k fp, ¬ Owns m World.init k fp := by
    rintro k fp ⟨p, hp, -⟩
    exact hlook k p hp
  refine ⟨fun k p hp => absurd hp (hlook k p), fun i r hr => ?_, ⟨fun fp hfp => ?_, fun fp _ => ⟨rfl, rfl⟩⟩,
    fun k p hp => absurd hp (hlook k p), fun fp => ?_, fun k k' fp hk => absurd hk (howns k fp)⟩
  · cases hr
  · exact absurd hfp (Nat.not_lt_zero _)
  · refine iff_of_false (fun h => h rfl) ?_
    rintro ⟨k, hk⟩
    exact howns k fp hk

/-- **The streams stay in order** in every calm run. -/
theorem Server.Runs.tidy (h : Server.Runs E m (Calm E) w) : Tidy m w := by
  induction h with
  | refl => exact .init
  | tail _ hm ih => exact hm.tidy ih

/-- Each client holds at most one stream. -/
theorem Tidy.few (h : Tidy m w) : {fp | w.disk.streams fp ≠ none}.encard ≤ (Server.clients m w).encard := by
  choose! f hf using fun fp => (h.held fp).1
  refine Set.encard_le_encard_of_injOn (f := f) (fun fp hfp => ?_) fun fp hfp fp' hfp' heq => ?_
  · obtain ⟨p, hp, hh⟩ := hf fp hfp
    exact ⟨p, hp, (h.handler _ p hp).cls fun hv => holds_none hv fp hh⟩
  · -- a handler holds one stream
    obtain ⟨p, hp, c, hc, hw⟩ := hf fp hfp
    obtain ⟨p', hp', hh'⟩ := hf fp' hfp'
    rw [← heq] at hp'
    obtain rfl : p' = p := Option.some.inj (hp'.symm.trans hp)
    exact ((holds_iff hc hw).1 hh').symm

/-- **Every stream is closed once, and in time**, in every run of the server in which no header is cut,
no connection is closed in the middle of a value and no frame of less than `DEFAULT_MAX_MEMORY_CACHE` bytes
is completed. -/
theorem streams_closed (h : Server.Runs E m (Calm E) w) : StreamsClosed m w := by
  have ht := h.tidy
  refine ⟨ht.balanced.closed, fun fp hfp => ?_, ht.few⟩
  obtain ⟨k, p, hp, c, hc, hw⟩ := (ht.held fp).1 hfp
  have hpart := (ht.handler k p hp).part
  have hv : (w.objs p.obj).virus.req.value ≠ none := by
    rw [hc]
    simp
  refine ⟨k, p, c, hp, (ht.handler k p hp).cls hv, hc, hw, ?_, hpart.pending, hpart.own c hc⟩
  rw [hpart.inv.head, hpart.value hv]
  rfl

/-- A system that takes one connection in. The client sends `bs` and hangs up. -/
def Env.oneClient (bs : List UInt8) : Env :=
  { Env.steady with
    accept := fun i => if i = 0 then .conn 5 ("10.0.0.1", 4000) else .fail
    recv := fun i => .data (if i = 0 then bs else []) }

/-- A header that announces 2000 bytes, and the first of them. -/
def longRequest : List UInt8 := [0, 0, 0, 1, 0, 0, 7, 208, 9]

/-- A frame of one value byte. -/
def smallRequest : List UInt8 := [0, 0, 0, 1, 0, 0, 0, 1, 9]

/-- The process after its listener had an event. -/
def World.accepted (bs : List UInt8) : World :=
  final (BaseSocket.handleEvent (.oneClient bs) 0 .read
    ((World.opened (.oneClient bs) 0).logged (.event 0 3 .read)))

/-- The client has sent the header and one byte: its stream is open. -/
theorem streams_closed_open :
    StreamsClosed 0 (final (BaseSocket.handleEvent (.oneClient longRequest) 1 .read
      ((World.accepted longRequest).logged (.event 1 5 .read)))) := by
  -- the server is made, accepts a client, and reads the first chunk from it
  have hopened : Server.Moment (.oneClient longRequest) 0 (Calm (.oneClient longRequest)) World.init
      (World.opened (.oneClient longRequest) 0) := by
    obtain ⟨sock, w', hnew, -⟩ := tcpServer_new (.oneClient longRequest) World.init none 7890 0
    unfold World.opened
    rw [hnew]
    exact .server none 7890 hnew
  have hlistener : Calm (.oneClient longRequest) 0 .read (World.opened (.oneClient longRequest) 0) :=
    ⟨fun _ _ _ => rfl, fun _ hc => absurd hc (by decide +kernel), fun _ hc => absurd hc (by decide +kernel),
      fun hv => absurd (by decide +kernel) hv⟩
  have haccepted : Server.Moment (.oneClient longRequest) 0 (Calm (.oneClient longRequest))
      (World.opened (.oneClient longRequest) 0) (World.accepted longRequest) :=
    .event (k := 3) (p := ⟨0, 0⟩) (by decide +kernel) hlistener (eq_ok_final (by decide +kernel))
  have hclient : Calm (.oneClient longRequest) 1 .read (World.accepted longRequest) := by
    have hnrecv : (World.accepted longRequest).nrecv = 0 := by decide +kernel
    have hreq : ((World.accepted longRequest).objs 1).virus.req.hlen = 0 ∧
        ((World.accepted longRequest).objs 1).virus.req.value = none := by decide +kernel
    refine ⟨fun _ _ _ => rfl, fun _ _ _ _ _ => .inl hreq.1, fun _ _ bs hd => ?_, fun hv => absurd hreq.2 hv⟩
    rw [hnrecv] at hd
    cases hd
    unfold HV.CompletesLong
    rw [if_neg (by rw [hreq.1]; decide)]
    exact .value (by decide +kernel) (by decide +kernel)
  exact streams_closed (.tail (.tail (.tail .refl hopened) haccepted)
    (.event (k := 5) (p := ⟨1, 1⟩) (by decide +kernel) hclient (eq_ok_final (by decide +kernel))))

/-- The process after `n` rounds. -/
def World.rounds (bs : List UInt8) : ℕ → World
  | 0 => World.opened (.oneClient bs) 0
  | n + 1 => final (doSelect (.oneClient bs) 0 (World.rounds bs n))

/-- **Streams are lost**: that of a client that hangs up in the middle of a value stays open, with
the client gone, and so does that of a small frame, which was answered and cleared. -/
theorem streams_lost :
    (Server.Reach (.oneClient longRequest) 0 (World.rounds longRequest 3) ∧
      ¬ StreamsClosed 0 (World.rounds longRequest 3)) ∧
    Server.Reach (.oneClient smallRequest) 0 (World.rounds smallRequest 2) ∧
      ¬ StreamsClosed 0 (World.rounds smallRequest 2) := by
  have hlook : ∀ w k p, World.look w 0 k = some p → (k, p) ∈ (w.maps 0).toList :=
    fun w k p hp => Std.TreeMap.mem_toList_iff_getElem?_eq_some.2 hp
  refine ⟨⟨?_, fun h => ?_⟩, ?_, fun h => ?_⟩
  · exact ((opened_reach.round (by decide +kernel)).round (by decide +kernel)).round (by decide +kernel)
  · -- only the listener is registered
    obtain ⟨k, p, c, hp, hc, -⟩ := h.inTime 0 (by decide +kernel)
    have hin := hlook _ k p hp
    rw [show ((World.rounds longRequest 3).maps 0).toList = [(3, ⟨0, 0⟩)] by decide +kernel,
      List.mem_singleton] at hin
    cases hin
    revert hc
    decide +kernel
  · exact (opened_reach.round (by decide +kernel)).round (by decide +kernel)
  · -- the client waits for a header
    obtain ⟨k, p, c, hp, -, -, -, hh, -⟩ := h.inTime 0 (by decide +kernel)
    have hin := hlook _ k p hp
    rw [show ((World.rounds smallRequest 2).maps 0).toList = [(3, ⟨0, 0⟩), (5, ⟨1, 1⟩)] by decide +kernel,
      List.mem_cons, List.mem_singleton] at hin
    rcases hin with hin | hin
    · cases hin
      revert hh
      decide +kernel
    · cases hin
      revert hh
      decide +kernel

end DocFerry
