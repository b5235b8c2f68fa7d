import DocFerry.Proof.ReadStep
import DocFerry.Proof.Sending

/-!
# The replies on the wire

Responses come into the queue of a handler in `handle_read` and leave it in
`handle_write`.

* `handleRead_queues`: what `handle_read` does to the queue.
* `replies_prefix`: the bytes that the system has taken are a prefix of the responses, as
  long as it takes every block whole or refuses it for good.
-/

namespace DocFerry

open Prog

/-- A response with a value. -/
def HV.WellFormed (r : HV) : Prop := ∃ c, r.value = some c ∧ c.InMemory

/-- The bytes of a response: its header, and then its value. -/
def HV.wire (host : Bytes.Endian) (r : HV) : List UInt8 :=
  r.header.bytes host ++ (r.value.map Cache.rest).getD []

/-- `rs` was queued; on the connection nothing happened. -/
structure Queues (this : ℕ) (rs : List HV) (w w' : World) : Prop where
  resp : (w'.objs this).virus.resp = (w.objs this).virus.resp ++ rs
  cls : (w'.objs this).cls = (w.objs this).cls
  sock : (w'.objs this).sock = (w.objs this).sock
  map : (w'.objs this).p_handlers = (w.objs this).p_handlers
  status : (w'.line this (w.objs this).sock).status = (w.line this (w.objs this).sock).status
  next : w'.nsend = w.nsend
  out : w'.out (w.objs this).sock = w.out (w.objs this).sock

variable {E : Env} {w w' w₀ : World} {this m : ℕ}

/-! ### Where responses come from -/

theorem HV.WellFormed.sendable {r : HV} (h : r.WellFormed) : r.Sendable := by
  obtain ⟨c, hv, hc⟩ := h
  intro c' hv'
  rw [hv] at hv'
  cases hv'
  exact hc

theorem replyTo_inMemory (host : Bytes.Endian) (state : State) :
    (⟨[], some (storeWord host state.code), ⟨4, 4, 0, none, ['.']⟩⟩ : Cache).InMemory :=
  ⟨⟨_, rfl, by simp⟩, by simp, by simp⟩

theorem replyTo_sendable (E : LibC) (id : UInt32) (state : State) (filled : Bool) :
    (HV.replyTo E id state filled).Sendable := by
  intro c hc
  cases filled with
  | true => cases hc; exact replyTo_inMemory E.host state
  | false => cases hc

theorem replyTo_wellFormed (E : LibC) (id : UInt32) (state : State) :
    (HV.replyTo E id state true).WellFormed := ⟨_, rfl, replyTo_inMemory E.host state⟩

/-- The handler `h'` is `h` with replies queued. -/
def Replied (E : LibC) (h h' : VirusHandler) : Prop :=
  ∃ rs, h'.resp = h.resp ++ rs ∧ ∀ r ∈ rs, r.Sendable ∧
    ((∀ i, E.calloc i = true) → (∀ i, E.malloc i = true) → r.WellFormed)

theorem Replied.trans {E : LibC} {h h' h'' : VirusHandler} (h₁ : Replied E h h')
    (h₂ : Replied E h' h'') : Replied E h h'' := by
  obtain ⟨rs, hrs, hall⟩ := h₁
  obtain ⟨rs', hrs', hall'⟩ := h₂
  refine ⟨rs ++ rs', by rw [hrs', hrs, List.append_assoc], fun r hr => ?_⟩
  rcases List.mem_append.1 hr with hr | hr
  · exact hall r hr
  · exact hall' r hr

theorem Replied.of_resp {E : LibC} {h h' : VirusHandler} (hr : h'.resp = h.resp) : Replied E h h' :=
  ⟨[], by rw [hr, List.append_nil], by simp⟩

theorem response_replied {E : LibC} {h h' : VirusHandler} {d d' : Disk} {state : State}
    (hr : h.response E d state = .ok (h', d')) : Replied E h h' := by
  obtain ⟨filled, hresp, hfilled⟩ := response_queues hr
  refine ⟨[_], hresp, fun r hr => ?_⟩
  obtain rfl := List.mem_singleton.1 hr
  refine ⟨replyTo_sendable _ _ _ _, fun hc hm => ?_⟩
  rw [hfilled hc hm]
  exact replyTo_wellFormed _ _ _

theorem VirusHandler.Handled.replied {E : LibC} {h h' : VirusHandler} {s : HV} {d d' : Disk}
    (hh : h.Handled E s d h' d') : Replied E h h' := by
  cases hh with
  | pending _ => exact .of_resp rfl
  | complete _ hr =>
    refine Replied.trans ?_ (response_replied hr)
    exact .of_resp rfl

/-- **An iteration** queues a reply, or none. -/
theorem readBody_replied {E : LibC} {c : ReadState} :
    match VirusHandler.readBody E c with
    | .again c' => Replied E c.self c'.self
    | .done (h, _) => Replied E c.self h
    | .fault _ => True := by
  have hit := readBody_iterated E c
  generalize VirusHandler.readBody E c = r at hit ⊢
  cases hit with
  | fault f => trivial
  | failed _ hr =>
    refine Replied.trans ?_ (response_replied hr)
    exact .of_resp rfl
  | done _ _ hh _ => exact hh.replied
  | again _ _ hh _ => exact hh.replied

/-- The loop of `handle_read` queues replies. -/
theorem readLoop_replied {E : LibC} {fuel : ℕ} {h h' : VirusHandler} {d d' : Disk} {buf : List UInt8}
    (hrun : VirusHandler.readLoop E fuel h d buf = .ok (h', d')) : Replied E h h' := by
  refine Loop.run_ok_inv (P := fun c => Replied E h c.self) (Q := fun r => Replied E h r.1)
    (fun c c' hc hb => ?_) (fun c r hc hb => ?_) (Replied.of_resp rfl) (readLoop_ok hrun)
  · have hbody := readBody_replied (E := E) (c := c)
    rw [hb] at hbody
    exact hc.trans hbody
  · have hbody := readBody_replied (E := E) (c := c)
    rw [hb] at hbody
    exact hc.trans hbody

/-- `w` with what `handle_read` has made of the bytes it received. -/
def World.readBy (w : World) (this : ℕ) (virus : VirusHandler) (d : Disk) : World :=
  { (w.received (w.objs this).sock).setObj this ({ · with virus := virus }) with disk := d }

@[simp] theorem World.readBy_self (w : World) (this : ℕ) (virus : VirusHandler) (d : Disk) :
    (w.readBy this virus d).objs this = { w.objs this with virus := virus } :=
  Function.update_self ..

theorem World.readBy_ne (w : World) {this i : ℕ} (virus : VirusHandler) (d : Disk) (h : i ≠ this) :
    (w.readBy this virus d).objs i = w.objs i := Function.update_of_ne h ..

/-- **`VirusHandler::handle_read` on bytes that it receives** is its loop over them. -/
theorem virusRead_run {bs : List UInt8} (ha : w.dead this = false) (ho : w.descs (w.objs this).sock ≠ none)
    (hd : E.recv w.nrecv = .data bs) (hne : bs ≠ []) :
    VirusHandler.handleRead E this w =
      match VirusHandler.readLoop E.toLibC E.fuel (w.objs this).virus w.disk (bs.take 65535) with
      | .error f => .error f (w.received (w.objs this).sock)
      | .ok (virus, d) => .ok ⟨⟩ (w.readBy this virus d) := by
  have hpos : 0 < (bs.take 65535).length := by
    have := List.length_pos_iff.2 hne
    rw [List.length_take]
    omega
  unfold VirusHandler.handleRead
  rw [bind_of_ok (recv_data ha (by decide) (by decide) ho hd hne)]
  dsimp only
  rw [if_neg (by omega), if_neg (by omega), get_bind]
  change (match VirusHandler.readLoop E.toLibC E.fuel (w.objs this).virus w.disk (bs.take 65535) with
    | .error f => throw f
    | .ok (virus, d) => _ : Proc Unit) _ = _
  cases VirusHandler.readLoop E.toLibC E.fuel (w.objs this).virus w.disk (bs.take 65535) with
  | error f => rfl
  | ok r => rfl

/-- **`handle_read`** queues replies, when it has received bytes. -/
theorem handleRead_queues {bs : List UInt8} (ha : w.dead this = false) (hc : (w.objs this).cls = .virusHandler)
    (ho : w.descs (w.objs this).sock ≠ none) (hd : E.recv w.nrecv = .data bs) (hne : bs ≠ [])
    (hrun : BaseSocket.handleRead E this w = .ok ⟨⟩ w') :
    ∃ rs, Queues this rs w w' ∧ ∀ r ∈ rs, r.Sendable ∧
      ((∀ i, E.calloc i = true) → (∀ i, E.malloc i = true) → r.WellFormed) := by
  set w₁ := w.logged (.callback this .read) with hw₁
  have hread : VirusHandler.handleRead E this w₁ = _ := virusRead_run ha ho hd hne
  rw [handleRead_virus ha hc, ← hw₁, hread] at hrun
  cases hl : VirusHandler.readLoop E.toLibC E.fuel (w₁.objs this).virus w₁.disk (bs.take 65535) with
  | error f =>
    rw [hl] at hrun
    cases hrun
  | ok r =>
    obtain ⟨virus, d⟩ := r
    rw [hl] at hrun
    cases hrun
    obtain ⟨rs, hrs, hall⟩ := readLoop_replied hl
    have hobj : (w₁.readBy this virus d).objs this = { w.objs this with virus := virus } :=
      World.readBy_self w₁ this virus d
    refine ⟨rs, ⟨?_, ?_, ?_, ?_, rfl, rfl, rfl⟩, hall⟩
    · rw [hobj]
      exact hrs
    · rw [hobj]
    · rw [hobj]
    · rw [hobj]

/-! ### Runs -/

/-- Runs of a handler that began in `w₀`: of the responses `q`, in the order in which they
were queued, some have been handed to `handle_write`. -/
inductive Replying (E : Env) (this : ℕ) (w₀ : World) : List HV → World → Prop
  | start : Replying E this w₀ (w₀.objs this).virus.resp w₀
  | queue {q rs : List HV} {w w' : World} (h : Replying E this w₀ q w)
      (hrs : ∀ r ∈ rs, r.WellFormed) (hq : Queues this rs w w') : Replying E this w₀ (q ++ rs) w'
  | write {q : List HV} {w w' : World} (h : Replying E this w₀ q w)
      (hrun : BaseSocket.handleWrite E this w = .ok ⟨⟩ w') : Replying E this w₀ q w'

/-- The states of such a run, with the one that a `handle_write` leaves behind which does not return. -/
def Replies (E : Env) (this : ℕ) (w₀ : World) (q : List HV) (w : World) : Prop :=
  Replying E this w₀ q w ∨
    ∃ w₁ f, Replying E this w₀ q w₁ ∧ BaseSocket.handleWrite E this w₁ = .error f w

/-- A client with an open connection, all of whose responses are well-formed. -/
structure Client (m : ℕ) (w : World) (this : ℕ) : Prop where
  cls : (w.objs this).cls = .virusHandler
  map : (w.objs this).p_handlers = some m
  status : (w.line this (w.objs this).sock).status = .open
  queue : ∀ r ∈ (w.objs this).virus.resp, r.WellFormed

theorem HV.WellFormed.flatten_blocks {r : HV} (h : r.WellFormed) (host : Bytes.Endian) :
    (r.blocks host).flatten = r.wire host := by
  obtain ⟨c, hv, -⟩ := h
  simp only [HV.blocks, HV.wire, hv, List.flatten_cons, Option.map_some, Option.getD_some]
  rw [(isCut_blocksOf (by decide) c.rest).flatten]

theorem flatten_blocks {q : List HV} (h : ∀ r ∈ q, r.WellFormed) (host : Bytes.Endian) :
    (q.flatMap (HV.blocks host)).flatten = q.flatMap (HV.wire host) := by
  induction q with
  | nil => rfl
  | cons r q ih =>
    have hr := (h r List.mem_cons_self).flatten_blocks host
    rw [List.flatMap_cons, List.flatMap_cons, List.flatten_append, hr,
      ih fun r hr => h r (List.mem_cons_of_mem _ hr)]

/-- What holds in a run of which the responses `q` are known. -/
structure Replying.Inv (E : Env) (m : ℕ) (this : ℕ) (w₀ : World) (q : List HV) (w : World) : Prop where
  cls : (w.objs this).cls = .virusHandler
  sock : (w.objs this).sock = (w₀.objs this).sock
  map : (w.objs this).p_handlers = some m
  next : w₀.nsend ≤ w.nsend
  wellFormed : ∀ r ∈ q, r.WellFormed
  queue : (w.objs this).virus.resp <:+ q
  status : (∀ i, w₀.nsend ≤ i → i < w.nsend → ¬ (E.send i).Fatal) →
    (w.line this (w₀.objs this).sock).status = .open

/-- The connection after a `handle_write` in a run, whether it returns or not. -/
def Replying.after (E : Env) (this : ℕ) (w₀ w : World) : Line :=
  (w.line this (w₀.objs this).sock).sendAll E ((w.objs this).virus.resp.flatMap (HV.blocks E.host))

/-- `handle_write` in a run: a row of sends. -/
theorem Replying.Inv.written {q : List HV} (h : Replying.Inv E m this w₀ q w) (ha : w.dead this = false) :
    Ending this (w₀.objs this).sock (Replying.after E this w₀ w) (BaseSocket.handleWrite E this w) ∧
      Written E this (w.objs this).virus.resp w (BaseSocket.handleWrite E this w) := by
  have hwf : ∀ r ∈ (w.objs this).virus.resp, r.WellFormed := fun r hr =>
    h.wellFormed r (h.queue.mem hr)
  have hw := handleWrite_written (E := E) ha h.cls h.map fun r hr => (hwf r hr).sendable
  refine ⟨?_, hw⟩
  have hline := hw.line
  rw [h.sock] at hline
  exact hline

/-- A `handle_write` that returns was called on a handler that is there. -/
theorem handleWrite_alive (hrun : BaseSocket.handleWrite E this w = .ok ⟨⟩ w') : w.dead this = false := by
  cases hd : w.dead this with
  | false => rfl
  | true =>
    rw [show BaseSocket.handleWrite E this w = _ from dead_bind hd] at hrun
    cases hrun

/-- A `handle_write` that returns keeps the invariant. -/
theorem Replying.Inv.sent {q : List HV} (h : Replying.Inv E m this w₀ q w)
    (hrun : BaseSocket.handleWrite E this w = .ok ⟨⟩ w') :
    w'.line this (w₀.objs this).sock = Replying.after E this w₀ w ∧
      Replying.Inv E m this w₀ q w' ∧ w.nsend ≤ w'.nsend ∧ (w'.objs this).virus.resp = [] := by
  obtain ⟨hline, hw⟩ := h.written (handleWrite_alive hrun)
  rw [hrun] at hline hw
  have hresp := hw.resp _ _ rfl
  have hnext : w'.nsend = (Replying.after E this w₀ w).next := (Ending.final hline).1
  have hle : w.nsend ≤ w'.nsend := by
    rw [hnext]
    exact Line.next_le E (w.line this (w₀.objs this).sock) _
  refine ⟨hline, ⟨hw.cls.trans h.cls, hw.sock.trans h.sock, hw.map.trans h.map, h.next.trans hle,
    h.wellFormed, ?_, fun hf => ?_⟩, hle, hresp⟩
  · rw [hresp]
    exact List.nil_suffix
  · have hopen := h.status fun i hi hi' => hf i hi (lt_of_lt_of_le hi' hle)
    rw [show w'.line this (w₀.objs this).sock = _ from hline]
    refine Line.sendAll_open hopen fun i hi hi' => hf i (h.next.trans hi) ?_
    rw [hnext]
    exact hi'

/-- Queueing keeps the invariant. -/
theorem Replying.Inv.queued {q rs : List HV} (h : Replying.Inv E m this w₀ q w)
    (hrs : ∀ r ∈ rs, r.WellFormed) (hq : Queues this rs w w') :
    Replying.Inv E m this w₀ (q ++ rs) w' := by
  have hopen := hq.status
  rw [h.sock] at hopen
  refine ⟨hq.cls.trans h.cls, hq.sock.trans h.sock, hq.map.trans h.map, ?_, fun r hr => ?_, ?_,
    fun hf => ?_⟩
  · rw [hq.next]
    exact h.next
  · rcases List.mem_append.1 hr with hr | hr
    · exact h.wellFormed r hr
    · exact hrs r hr
  · obtain ⟨done, hdone⟩ := h.queue
    refine ⟨done, ?_⟩
    rw [hq.resp, ← hdone, List.append_assoc]
  · rw [hopen]
    exact h.status fun i hi hi' => hf i hi (by rw [hq.next]; exact hi')

/-- The invariant holds in every run. -/
theorem Replying.inv {q : List HV} (h₀ : Client m w₀ this) (h : Replying E this w₀ q w) :
    Replying.Inv E m this w₀ q w := by
  induction h with
  | start =>
    exact ⟨h₀.cls, rfl, h₀.map, le_rfl, h₀.queue, List.suffix_rfl, fun _ => h₀.status⟩
  | queue _ hrs hq ih => exact ih.queued hrs hq
  | write _ hrun ih => exact (ih.sent hrun).2.1

/-- Of the responses `done`, the bytes taken on the connection are a prefix, and all while it is open. -/
def Taken (E : Env) (this : ℕ) (w₀ : World) (done : List HV) (l : Line) : Prop :=
  ∃ sent, l.out = w₀.out (w₀.objs this).sock ++ sent ∧ sent <+: done.flatMap (HV.wire E.host) ∧
    (l.status = .open → sent = done.flatMap (HV.wire E.host))

/-- **A `handle_write`** gets the queue out behind what was taken before, when every block is
taken whole or refused. -/
theorem Taken.write {q done : List HV} (hI : Replying.Inv E m this w₀ q w)
    (hq : q = done ++ (w.objs this).virus.resp)
    (h : Taken E this w₀ done (w.line this (w₀.objs this).sock))
    (hE : ∀ i, w.nsend ≤ i → i < (Replying.after E this w₀ w).next → (E.send i).Whole) :
    Taken E this w₀ q (Replying.after E this w₀ w) := by
  obtain ⟨sent, hout, hpre, hall⟩ := h
  have hwf : ∀ r ∈ (w.objs this).virus.resp, r.WellFormed := fun r hr =>
    hI.wellFormed r (hI.queue.mem hr)
  obtain ⟨sent', hout', hpre', hall'⟩ := Line.sendAll_out E (w.line this (w₀.objs this).sock)
    ((w.objs this).virus.resp.flatMap (HV.blocks E.host)) hE
  rw [flatten_blocks hwf] at hpre' hall'
  by_cases hopen : (w.line this (w₀.objs this).sock).status = .open
  · -- what was taken so far is all of `done`, and the row of sends follows it
    have hsent : sent = done.flatMap (HV.wire E.host) := hall hopen
    refine ⟨sent ++ sent', ?_, ?_, fun ho => ?_⟩
    · rw [← List.append_assoc, ← hout]
      exact hout'
    · rw [hq, List.flatMap_append, hsent]
      exact (List.prefix_append_right_inj _).2 hpre'
    · rw [hq, List.flatMap_append, hsent, hall' ho]
  · have hgone : Replying.after E this w₀ w = w.line this (w₀.objs this).sock := Line.sendAll_gone _ hopen
    rw [hgone]
    refine ⟨sent, hout, ?_, fun ho => absurd ho hopen⟩
    rw [hq, List.flatMap_append]
    exact hpre.trans (List.prefix_append _ _)

/-- What has been taken in a run in which every block is taken whole or refused. -/
theorem Replying.taken {q : List HV} (h₀ : Client m w₀ this) (h : Replying E this w₀ q w)
    (hE : ∀ i, w₀.nsend ≤ i → i < w.nsend → (E.send i).Whole) :
    ∃ done, q = done ++ (w.objs this).virus.resp ∧
      Taken E this w₀ done (w.line this (w₀.objs this).sock) := by
  induction h with
  | start => exact ⟨[], rfl, [], by simp [World.line], List.prefix_rfl, fun _ => rfl⟩
  | queue h hrs hq ih =>
    obtain ⟨done, hdone, sent, hout, hpre, hall⟩ := ih fun i hi hi' => hE i hi (by rw [hq.next]; exact hi')
    have hs := (h.inv h₀).sock
    have hopen := hq.status
    have hout' := hq.out
    rw [hs] at hopen hout'
    refine ⟨done, by rw [hq.resp, hdone, List.append_assoc], sent, hout'.trans hout, hpre, fun ho => hall ?_⟩
    rw [← hopen]
    exact ho
  | write h hrun ih =>
    have hI := h.inv h₀
    obtain ⟨hline, -, hle, hresp⟩ := hI.sent hrun
    -- the answers used up before this `handle_write` are the earlier ones
    obtain ⟨done, hdone, htaken⟩ := ih fun i hi hi' => hE i hi (lt_of_lt_of_le hi' hle)
    have hnext := congrArg Line.next hline
    refine ⟨_, by rw [hresp, List.append_nil], ?_⟩
    rw [hline]
    exact htaken.write hI hdone fun i hi hi' => hE i (hI.next.trans hi) (by rw [← hnext] at hi'; exact hi')

/-- A process with one client, on descriptor 5, for which `q` is queued. -/
def World.client (q : List HV) : World :=
  { World.init with
    objs := fun _ =>
      { BaseSocket.blank with
        cls := .virusHandler, sock := 5, p_handlers := some 0, connected := true
        virus := { VirusHandler.new (.new .auto ⟨0, 0⟩) .ok with resp := q } }
    nobj := 1
    maps := fun _ => (∅ : Std.TreeMap ℤ SharedPtr).insert 5 ⟨0, 0⟩
    nctrl := 1
    descs := fun k => if k = 5 then some ⟨.accepted, 2⟩ else none }

theorem World.client_client {q : List HV} (hq : ∀ r ∈ q, r.WellFormed) : Client 0 (World.client q) 0 :=
  ⟨rfl, rfl, rfl, hq⟩

/-- **The bytes that the system has taken** are a prefix of the responses, and all of them when
the queue is empty and no error was fatal: in every run in which the system takes every
block whole or refuses it for good. -/
theorem replies_prefix {q : List HV} (h₀ : Client m w₀ this) (h : Replies E this w₀ q w)
    (hE : ∀ i, w₀.nsend ≤ i → i < w.nsend → (E.send i).Whole) :
    ∃ sent, w.out (w₀.objs this).sock = w₀.out (w₀.objs this).sock ++ sent ∧
      sent <+: q.flatMap (HV.wire E.host) ∧
      ((w.objs this).virus.resp = [] →
        (∀ i, w₀.nsend ≤ i → i < w.nsend → ¬ (E.send i).Fatal) →
          sent = q.flatMap (HV.wire E.host)) := by
  rcases h with h | ⟨w₁, f, h, hrun⟩
  · obtain ⟨done, hq, sent, hout, hpre, hall⟩ := h.taken h₀ hE
    refine ⟨sent, hout, ?_, fun hnil hf => ?_⟩
    · rw [hq, List.flatMap_append]
      exact hpre.trans (List.prefix_append _ _)
    · rw [hq, hnil, List.append_nil]
      exact hall ((h.inv h₀).status hf)
  · -- the `handle_write` that does not return: the connection did not survive one of its sends
    have hI := h.inv h₀
    cases hd : w₁.dead this with
    | true =>
      -- nothing is sent by a handler that is destroyed
      rw [show BaseSocket.handleWrite E this w₁ = _ from dead_bind hd] at hrun
      cases hrun
      obtain ⟨done, hq, sent, hout, hpre, -⟩ := h.taken h₀ hE
      refine ⟨sent, hout, ?_, fun _ hf => ?_⟩
      · rw [hq, List.flatMap_append]
        exact hpre.trans (List.prefix_append _ _)
      · have hst := hI.status hf
        rw [line_closed_of_dead hd] at hst
        cases hst
    | false =>
      obtain ⟨hline, -⟩ := hI.written (E := E) hd
      rw [hrun] at hline
      obtain ⟨hnext, hout'⟩ := Ending.final hline
      have hle : w₁.nsend ≤ w.nsend := by
        rw [show w.nsend = _ from hnext]
        exact Line.next_le E (w₁.line this (w₀.objs this).sock) _
      obtain ⟨done, hq, htaken⟩ := h.taken h₀ fun i hi hi' => hE i hi (lt_of_lt_of_le hi' hle)
      obtain ⟨sent, hout, hpre, -⟩ := htaken.write hI hq fun i hi hi' => hE i (hI.next.trans hi) (by
        rw [← hnext] at hi'
        exact hi')
      refine ⟨sent, hout'.trans hout, hpre, fun _ hf => ?_⟩
      have hopen := hI.status fun i hi hi' => hf i hi (lt_of_lt_of_le hi' hle)
      have hst : (Replying.after E this w₀ w₁).status = .open := by
        refine Line.sendAll_open hopen fun i hi hi' => hf i (hI.next.trans hi) ?_
        rw [show w.nsend = _ from hnext]
        exact hi'
      exact absurd hst hline.status_error

/-- One response, for the request 1, that the system takes whole. -/
theorem replies_prefix_one :
    ∃ w, Replies .steady 0 (.client [HV.replyTo LibC.steady 1 .ok true])
        [HV.replyTo LibC.steady 1 .ok true] w ∧ ∃ sent, w.out 5 = [] ++ sent ∧
      sent <+: [HV.replyTo LibC.steady 1 .ok true].flatMap (HV.wire .little) ∧
      ((w.objs 0).virus.resp = [] → (∀ i, 0 ≤ i → i < w.nsend → ¬ (Env.steady.send i).Fatal) →
        sent = [HV.replyTo LibC.steady 1 .ok true].flatMap (HV.wire .little)) := by
  have hq : ∀ r ∈ [HV.replyTo LibC.steady 1 .ok true], r.WellFormed := fun r hr => by
    obtain rfl := List.mem_singleton.1 hr
    exact replyTo_wellFormed _ _ _
  have hrun : Replies .steady 0 (.client [HV.replyTo LibC.steady 1 .ok true])
      [HV.replyTo LibC.steady 1 .ok true]
      (final (BaseSocket.handleWrite .steady 0 (.client [HV.replyTo LibC.steady 1 .ok true]))) :=
    .inl (.write .start (eq_ok_final (by decide +kernel)))
  exact ⟨_, hrun, replies_prefix (World.client_client hq) hrun fun _ _ _ => .inl rfl⟩

/-- The system takes three bytes of the header, and then all that it is offered. -/
def Env.short : Env := { Env.steady with send := fun i => if i = 0 then .short 3 else .all }

/-- After a short send of the header, the value follows the piece of the header that was
taken. -/
theorem replies_short_header :
    ∃ w, Replies .short 0 (.client [HV.replyTo LibC.steady 1 .ok true])
        [HV.replyTo LibC.steady 1 .ok true] w ∧ (w.objs 0).virus.resp = [] ∧
      w.out 5 = [0, 0, 0, 0, 0, 0, 0] ∧
      [HV.replyTo LibC.steady 1 .ok true].flatMap (HV.wire .little) =
        [0, 0, 0, 1, 0, 0, 0, 4, 0, 0, 0, 0] ∧
      ¬ w.out 5 <+: [HV.replyTo LibC.steady 1 .ok true].flatMap (HV.wire .little) :=
  ⟨_, .inl (.write .start (eq_ok_final (by decide +kernel))), by decide +kernel, by decide +kernel,
    by decide +kernel, by decide +kernel⟩

end DocFerry
