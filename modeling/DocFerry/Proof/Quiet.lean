import DocFerry.Proof.Admit
import DocFerry.Proof.Replies

/-!
# After the close

`event_quiet_iff`: when an event of a registered handler leaves the handler alone that it has closed.

* `Hushed`: what a step makes of the log. A handler that was destroyed does nothing more: whoever calls
  one of its callbacks, sends for it or looks at its queue ends in a fault. `hushed_callbacks` carries the
  relation through all that an event can do.
* The uses of a destroyed handler are in the connect check at the head of the read and write events, and in
  the loops of `handle_write`: `readEvent_clean_iff`, `writeEvent_clean_iff`.
-/

namespace DocFerry

open Prog

/-- The events of a handler. -/
inductive Event
  | read
  | write
  | connect
  | expt
  deriving DecidableEq, Repr

/-- `handle_read_event`, `handle_write_event`, `handle_connect_event` and
`handle_expt_event` -/
def Event.run (E : Env) (this : ℕ) : Event → Proc Unit
  | .read => BaseSocket.handleReadEvent E this
  | .write => BaseSocket.handleWriteEvent E this
  | .connect => BaseSocket.handleConnectEvent E this
  | .expt => BaseSocket.handleExptEvent E this

/-- How many sends a response takes: one for the header and one for each 4096 bytes of the
value. -/
def HV.sends (r : HV) : ℕ :=
  match r.value with
  | none => 0
  | some c => 1 + (c.priv.widx - c.priv.ridx + 4095) / 4096

/-- An unfinished connect of the handler turns out to have failed. -/
def ConnectFails (E : Env) (w : World) (this : ℕ) : Prop :=
  (w.objs this).connected = false ∧ (w.objs this).connecting = true ∧ E.getsockopt w.ngetsockopt ≠ 0

/-- No send that `handle_write` makes gets a fatal answer, unless the process was ended by one before. -/
def SendsHold (E : Env) (w : World) (this : ℕ) : Prop :=
  (w.objs this).cls = .virusHandler →
    ∀ i < ((w.objs this).virus.resp.map HV.sends).sum,
      (∀ j < i, ¬ (E.send (w.nsend + j)).Fatal) → E.send (w.nsend + i) ≠ .fatal

/-- When the event leaves a handler alone that it has closed. -/
def Event.Careful (E : Env) (w : World) (this : ℕ) : Event → Prop
  | .read => (w.objs this).accepting = true ∨ ¬ ConnectFails E w this
  | .write => (w.objs this).accepting = true ∨ ¬ ConnectFails E w this ∧ SendsHold E w this
  | .connect => True
  | .expt => True

/-- The handler `this` is registered in the map `m` under its own socket. -/
structure Owned (m : ℕ) (this : ℕ) (w : World) : Prop where
  map : (w.objs this).p_handlers = some m
  alive : w.dead this = false
  entry : ∃ p, w.look m (w.objs this).sock = some p ∧ p.obj = this

/-- Nothing is done on `fd` behind the close of `this`, no callback of `this` is called, and `this` is not
used any more. -/
def LeftAlone {α : Type} (this : ℕ) (fd : ℤ) (w : World) (r : EStateM.Result Fault World α) : Prop :=
  (∃ log, (final r).log = w.log ++ log ∧ Quiet this fd log) ∧
    ¬ (fault r = some .destroyed ∧ (final r).dead this = true)

variable {E : Env} {w w' : World} {this m : ℕ} {fd : ℤ}

/-! ### What is logged -/

/-- From `w` to `w'`, a destroyed `this` has done nothing, and a registered one has closed at the very end,
if at all. -/
structure Hushed (m this : ℕ) (w w' : World) : Prop where
  gone : w.dead this = true → w'.dead this = true ∧ w'.log = w.log
  own : Owned m this w → ∃ log, w'.log = w.log ++ log ∧
    ((∀ a ∈ log, a.closes this = false) ∧ Owned m this w' ∧ (w'.objs this).sock = (w.objs this).sock ∨
      w'.dead this = true ∧ ∃ l a, log = l ++ [a] ∧ ∀ b ∈ l, b.closes this = false)

/-- What concerns neither the object nor the map. -/
theorem Owned.congr (h : Owned m this w) (hm : (w'.objs this).p_handlers = (w.objs this).p_handlers)
    (hs : (w'.objs this).sock = (w.objs this).sock) (hd : w'.dead = w.dead) (hl : w'.maps = w.maps) :
    Owned m this w' := by
  refine ⟨hm.trans h.map, by rw [hd]; exact h.alive, ?_⟩
  unfold World.look
  rw [hl, hs]
  exact h.entry

theorem Hushed.refl (w : World) : Hushed m this w w :=
  ⟨fun h => ⟨h, rfl⟩, fun h => ⟨[], (List.append_nil _).symm, .inl ⟨by simp, h, rfl⟩⟩⟩

theorem Hushed.trans (w w' w'' : World) (h : Hushed m this w w') (h' : Hushed m this w' w'') :
    Hushed m this w w'' := by
  refine ⟨fun hd => ?_, fun ho => ?_⟩
  · obtain ⟨hd', hl⟩ := h.gone hd
    obtain ⟨hd'', hl'⟩ := h'.gone hd'
    exact ⟨hd'', hl'.trans hl⟩
  · obtain ⟨log, hl, ⟨hno, ho', hs⟩ | ⟨hd, hlast⟩⟩ := h.own ho
    · obtain ⟨log', hl', hend⟩ := h'.own ho'
      refine ⟨log ++ log', by rw [hl', hl, List.append_assoc], ?_⟩
      rcases hend with ⟨hno', ho'', hs'⟩ | ⟨hd, l, a, rfl, hl⟩
      · refine .inl ⟨fun a ha => ?_, ho'', hs'.trans hs⟩
        exact (List.mem_append.1 ha).elim (hno a) (hno' a)
      · refine .inr ⟨hd, log ++ l, a, (List.append_assoc ..).symm, fun b hb => ?_⟩
        exact (List.mem_append.1 hb).elim (hno b) (hl b)
    · -- nothing is logged behind the close
      obtain ⟨hd', hl'⟩ := h'.gone hd
      exact ⟨log, hl'.trans hl, .inr ⟨hd', hlast⟩⟩

/-- A step that logs calls only, and leaves the registration alone. -/
theorem Hushed.soft {l : List Act} (hl : w'.log = w.log ++ l) (hc : ∀ a ∈ l, a.isCall = true)
    (hnil : w.dead this = true → l = []) (hd : w'.dead = w.dead) (hmaps : w'.maps = w.maps)
    (hm : (w'.objs this).p_handlers = (w.objs this).p_handlers)
    (hs : (w'.objs this).sock = (w.objs this).sock) : Hushed m this w w' := by
  refine ⟨fun h => ⟨by rw [hd]; exact h, by rw [hl, hnil h, List.append_nil]⟩,
    fun h => ⟨l, hl, .inl ⟨fun a ha => ?_, h.congr hm hs hd hmaps, hs⟩⟩⟩
  have hcall := hc a ha
  cases a with
  | close i sock => cases hcall
  | event i sock bit => cases hcall
  | callback i cb => rfl
  | send sock => rfl
  | recv sock => rfl

/-- **`handle_close`** destroys a registered handler. -/
theorem handleClosed_dead (h : Owned m this w) : (w.handleClosed E this m).dead this = true :=
  World.closed_dead.2 (.inr h.entry)

theorem handleClosed_log (w : World) (E : Env) (this m : ℕ) : ∃ sock,
    (w.handleClosed E this m).log = w.log ++ [.callback this .close, .close this sock] := by
  unfold World.handleClosed World.closed
  exact ⟨_, List.append_assoc ..⟩

theorem handleClose_hushed : Steps (Hushed m this) (BaseSocket.handleClose E this) := by
  intro w
  refine ⟨fun hd => ?_, fun ho => ?_⟩
  · rw [show BaseSocket.handleClose E this w = _ from dead_bind hd]
    exact ⟨hd, rfl⟩
  · rw [handleClose_eq ho.alive ho.map, final_ok]
    obtain ⟨sock, hlog⟩ := handleClosed_log w E this m
    exact ⟨_, hlog, .inr ⟨handleClosed_dead ho, [.callback this .close], _, rfl, by simp [Act.closes]⟩⟩

/-- An assignment to other members than the socket and the map. -/
theorem assign_hushed {f : BaseSocket → BaseSocket}
    (hf : ∀ o, (f o).sock = o.sock ∧ (f o).p_handlers = o.p_handlers) :
    Steps (Hushed m this) (assign this f) := by
  intro w
  rw [run_assign, final_ok]
  refine .soft (l := []) (List.append_nil _).symm (by simp) (fun _ => rfl) rfl rfl ?_ ?_
  · rw [World.setObj_same]
    exact (hf _).2
  · rw [World.setObj_same]
    exact (hf _).1

theorem hushed_rules : SocketRules E this (Hushed m this) where
  refl := Hushed.refl
  trans := Hushed.trans
  idle w w' h hd := by
    obtain ⟨l, hl, hc⟩ := h.log
    refine .soft hl hc (fun h' => ?_) h.dead h.maps (by rw [h.objs]) (by rw [h.objs])
    exact List.self_eq_append_right.1 ((hd h').symm.trans hl)
  connected := assign_hushed fun _ => ⟨rfl, rfl⟩
  handleClose := handleClose_hushed

/-- **Whatever a handler does** is hushed. -/
theorem hushed_callbacks : HandlerRules E this (Hushed m this) where
  toCallRules := hushed_rules.calls
  virus _ := assign_hushed fun _ => ⟨rfl, rfl⟩
  disk _ _ := .soft (l := []) (List.append_nil _).symm (by simp) (fun _ => rfl) rfl rfl rfl rfl

theorem Hushed.quiet (h : Hushed m this w w') (ho : Owned m this w) (fd : ℤ) :
    ∃ log, w'.log = w.log ++ log ∧ Quiet this fd log := by
  obtain ⟨log, hl, ⟨hno, -⟩ | ⟨-, l, a, rfl, hno⟩⟩ := h.own ho
  · exact ⟨log, hl, (Quiet.of_closes hno (.send fd)).1⟩
  · exact ⟨_, hl, (Quiet.of_closes hno a).2⟩

/-- **The log of an event** is quiet. -/
theorem event_logged (ho : Owned m this w) (fd : ℤ) (e : Event) :
    ∃ log, (final (e.run E this w)).log = w.log ++ log ∧ Quiet this fd log := by
  cases e with
  | write => exact (hushed_rules.handleWriteEvent hushed_callbacks.handleWrite w).quiet ho fd
  | connect => exact (hushed_rules.handleConnectEvent w).quiet ho fd
  | expt => exact (hushed_callbacks.handleExptEvent w).quiet ho fd
  | read =>
    change ∃ log, (final (BaseSocket.handleReadEvent E this w)).log = _ ∧ _
    by_cases ha : (w.objs this).accepting = true
    · rw [handleReadEvent_accepting ha]
      exact ⟨_, handleAccept_log ho.alive ho.map,
        (Quiet.of_closes (by simp [Act.closes]) (.send fd)).1⟩
    · unfold BaseSocket.handleReadEvent
      rw [bind_of_ok run_obj, if_neg ha]
      exact (Steps.ite (hushed_rules.connecting _ hushed_callbacks.handleRead)
        hushed_callbacks.handleRead w).quiet ho fd

/-! ### Calls that close last -/

/-- A fault is none of a destroyed handler. -/
def Stays {α : Type} (this : ℕ) (r : EStateM.Result Fault World α) : Prop :=
  ¬ (fault r = some .destroyed ∧ (final r).dead this = true)

theorem Stays.ok {α : Type} (a : α) : Stays this (.ok a w : EStateM.Result Fault World α) :=
  fun h => by cases h.1

theorem handleExpt_ok (ho : Owned m this w) : ∃ w', BaseSocket.handleExpt E this w = .ok ⟨⟩ w' := by
  have ho₁ : Owned m this (w.logged (.callback this .expt)) := ho.congr rfl rfl rfl rfl
  unfold BaseSocket.handleExpt
  rw [alive_bind ho.alive, bind_of_ok run_act, bind_of_ok run_obj, World.logged_objs]
  cases (w.objs this).cls with
  | baseSocket => exact ⟨_, rfl⟩
  | tcpServerImpl => exact ⟨_, rfl⟩
  | socketHandler => exact ⟨_, handleClose_eq ho₁.alive ho₁.map⟩
  | virusHandler => exact ⟨_, handleClose_eq ho₁.alive ho₁.map⟩

/-- **`recv`** returns, and a handler for which it has bytes was not closed. -/
theorem recv_ok (ho : Owned m this w) (len : ℕ) (hl : 0 < len) (hi : len < 2 ^ 31) :
    ∃ ret bs w', BaseSocket.recv E this true len w = .ok (ret, bs) w' ∧
      (ret = 0 ∨ ret = -1 ∨ w'.dead this = false) := by
  -- whichever way the call went, only the log has changed
  obtain ⟨ret, bs, w₁, hrun, ho₁⟩ : ∃ ret bs w₁,
      cpRecv E (w.objs this).sock true len w = .ok (ret, bs) w₁ ∧ Owned m this w₁ := by
    rcases cpRecv_cases E w (w.objs this).sock hl with ⟨-, hrun⟩ | ⟨-, ⟨bs, -, hrun⟩ | ⟨-, hrun⟩⟩
    · exact ⟨_, _, _, hrun, ho.congr rfl rfl rfl rfl⟩
    · exact ⟨_, _, _, hrun, ho.congr rfl rfl rfl rfl⟩
    · exact ⟨_, _, _, hrun, ho.congr rfl rfl rfl rfl⟩
  unfold BaseSocket.recv
  rw [alive_bind ho.alive, bind_of_ok run_obj, intToSize_toInt hi, bind_of_ok hrun]
  dsimp only
  by_cases h0 : ret = 0
  · rw [if_pos h0, bind_of_ok (handleClose_eq ho₁.alive ho₁.map)]
    exact ⟨ret, bs, _, rfl, .inl h0⟩
  · rw [if_neg h0]
    by_cases h1 : ret = -1
    · obtain ⟨w₂, hexpt⟩ := handleExpt_ok (E := E) ho₁
      rw [if_pos h1, bind_of_ok hexpt]
      exact ⟨ret, bs, w₂, rfl, .inr (.inl h1)⟩
    · rw [if_neg h1]
      exact ⟨ret, bs, w₁, rfl, .inr (.inr ho₁.alive)⟩

/-- **`handle_read`** notices that `recv` has closed. -/
theorem handleRead_stays (ho : Owned m this w) : Stays this (BaseSocket.handleRead E this w) := by
  have ho₁ : Owned m this (w.logged (.callback this .read)) := ho.congr rfl rfl rfl rfl
  unfold BaseSocket.handleRead
  rw [alive_bind ho.alive, bind_of_ok run_act, bind_of_ok run_obj]
  generalize w.logged (.callback this .read) = w₁ at ho₁ ⊢
  cases (w₁.objs this).cls with
  | baseSocket => exact .ok _
  | tcpServerImpl => exact .ok _
  | socketHandler =>
    obtain ⟨ret, bs, w', hrun, -⟩ := recv_ok (E := E) ho₁ 4096 (by decide) (by decide)
    change Stays this (SocketHandler.handleRead E this w₁)
    unfold SocketHandler.handleRead
    rw [bind_of_ok hrun]
    exact .ok _
  | virusHandler =>
    obtain ⟨ret, bs, w', hrun, hret⟩ := recv_ok (E := E) ho₁ 65535 (by decide) (by decide)
    change Stays this (VirusHandler.handleRead E this w₁)
    unfold VirusHandler.handleRead
    rw [bind_of_ok hrun]
    dsimp only
    by_cases h0 : ret = 0
    · rw [if_pos h0]
      exact .ok _
    · rw [if_neg h0]
      by_cases h1 : ret = -1
      · rw [if_pos h1]
        exact .ok _
      · have hd : w'.dead this = false := (hret.resolve_left h0).resolve_left h1
        rw [if_neg h1, get_bind]
        cases VirusHandler.readLoop E.toLibC E.fuel (w'.objs this).virus w'.disk bs with
        | ok r => exact .ok _
        | error f =>
          -- the loop over the bytes may fault, but on a handler that is there
          rintro ⟨-, hdead⟩
          change w'.dead this = true at hdead
          rw [hd] at hdead
          cases hdead

/-! ### Calls that go on -/

theorem length_blocks {r : HV} (hr : r.Sendable) (host : Bytes.Endian) :
    (r.blocks host).length = r.sends := by
  unfold HV.blocks HV.sends
  cases hv : r.value with
  | none => rfl
  | some c =>
    dsimp only
    rw [List.length_cons, length_blocksOf (by decide), length_rest (hr c hv), Nat.add_comm]
    rfl

theorem length_flatMap_blocks {q : List HV} (hq : ∀ r ∈ q, r.Sendable) (host : Bytes.Endian) :
    (q.flatMap (HV.blocks host)).length = (q.map HV.sends).sum := by
  rw [List.length_flatMap]
  congr 1
  exact List.map_congr_left fun r hr => length_blocks (hq r hr) host

/-- The first fatal answer to the sends of `handle_write` is `r`. -/
def FirstFatal (E : Env) (w : World) (this : ℕ) (r : SendResult) : Prop :=
  ∃ i < ((w.objs this).virus.resp.map HV.sends).sum,
    (∀ j < i, ¬ (E.send (w.nsend + j)).Fatal) ∧ E.send (w.nsend + i) = r

/-- **How `handle_write` ends**: it returns, or goes on with a handler that a send has closed, or the
process is ended by a send. -/
theorem handleWrite_ends (ho : Owned m this w) (hd : w.descs (w.objs this).sock ≠ none)
    (hc : (w.objs this).cls = .virusHandler) (hq : ∀ r ∈ (w.objs this).virus.resp, r.Sendable) :
    (∀ i < ((w.objs this).virus.resp.map HV.sends).sum, ¬ (E.send (w.nsend + i)).Fatal) ∧
        (∃ w', BaseSocket.handleWrite E this w = .ok ⟨⟩ w') ∨
      FirstFatal E w this .fatal ∧
        (∃ w', BaseSocket.handleWrite E this w = .error .destroyed w' ∧ w'.dead this = true) ∨
      FirstFatal E w this .pipe ∧ ∃ w', BaseSocket.handleWrite E this w = .error .sigpipe w' := by
  have hw := handleWrite_written (E := E) ho.alive hc ho.map hq
  have hlocal : Local E this w (final (BaseSocket.handleWrite E this w)) := handleWrite_local w
  have hopen : (w.line this (w.objs this).sock).status = .open := line_open_iff.2 ⟨ho.alive, hd⟩
  have hlen := length_flatMap_blocks hq E.host
  have hst := Line.sendAll_status E ((w.objs this).virus.resp.flatMap (HV.blocks E.host)) hopen
  rw [hlen, show (w.line this (w.objs this).sock).next = w.nsend from rfl] at hst
  generalize BaseSocket.handleWrite E this w = r at hw hlocal ⊢
  have hline := hw.line
  rcases hst with ⟨hnone, hst, -⟩ | ⟨i, hi, hbefore, hfatal, hst, -⟩
  · -- no answer was fatal: it returns
    cases r with
    | ok a w' => exact .inl ⟨hnone, w', rfl⟩
    | error f w' => exact absurd hst hline.status_error
  · right
    cases r with
    | ok a w' =>
      -- it cannot have returned: a look at the queue comes last
      have ha := hw.alive _ _ rfl
      have hdescs : w'.descs (w.objs this).sock ≠ none := hlocal.isOpen ho.map ho.entry hd ha
      rw [← show w'.line this _ = _ from hline, line_open_iff.2 ⟨ha, hdescs⟩] at hst
      exact absurd hfatal (SendResult.status_open.1 hst.symm)
    | error f w' =>
      cases f with
      | destroyed =>
        rw [← hline.2, line_closed_of_dead hline.1] at hst
        rcases hfatal with hfatal | hpipe
        · exact .inl ⟨⟨i, hi, hbefore, hfatal⟩, w', rfl, hline.1⟩
        · rw [hpipe] at hst
          cases hst
      | sigpipe =>
        rw [show _ = _ from hline] at hst
        rcases hfatal with hfatal | hpipe
        · rw [hfatal] at hst
          cases hst
        · exact .inr ⟨⟨i, hi, hbefore, hpipe⟩, w', rfl⟩
      | nullDeref => cases hline
      | outside off len => cases hline
      | fdSet sock => cases hline
      | outOfFuel => cases hline

/-- The first fatal answer is one. -/
theorem FirstFatal.sendsHold (h : FirstFatal E w this .pipe) : SendsHold E w this := by
  obtain ⟨i, -, hbefore, hpipe⟩ := h
  intro _ j _ hbefore' hf
  rcases Nat.lt_trichotomy j i with hlt | rfl | hgt
  · exact hbefore j hlt (.inl hf)
  · rw [hpipe] at hf
    cases hf
  · exact hbefore' i hgt (.inr hpipe)

/-- **`handle_write`** does not use a handler that a send has closed when its sends hold. -/
theorem handleWrite_stays_iff (ho : Owned m this w) (hd : w.descs (w.objs this).sock ≠ none)
    (hq : ∀ r ∈ (w.objs this).virus.resp, r.Sendable) :
    Stays this (BaseSocket.handleWrite E this w) ↔ SendsHold E w this := by
  by_cases hc : (w.objs this).cls = .virusHandler
  · rcases handleWrite_ends (E := E) ho hd hc hq with ⟨hnone, w', hrun⟩ | ⟨href, w', hrun, hdead⟩ |
      ⟨href, w', hrun⟩
    · rw [hrun]
      exact iff_of_true (.ok _) fun _ i hi _ h => hnone i hi (.inl h)
    · obtain ⟨i, hi, hbefore, hfatal⟩ := href
      rw [hrun]
      exact iff_of_false (fun h => h ⟨rfl, hdead⟩) fun h => h hc i hi hbefore hfatal
    · rw [hrun]
      exact iff_of_true (fun h => by cases h.1) href.sendsHold
  · rw [handleWrite_other ho.alive hc]
    exact iff_of_true (.ok _) fun h => absurd h hc

/-- **`handle_connect_event`** destroys a handler whose connect has failed. -/
theorem connectEvent_fails (ho : Owned m this w) (hd : w.descs (w.objs this).sock ≠ none)
    (hv : E.getsockopt w.ngetsockopt ≠ 0) :
    ∃ w', BaseSocket.handleConnectEvent E this w = .ok ⟨⟩ w' ∧ w'.dead this = true := by
  have hopt := getsockopt_open (E := E) hd
  set w₁ : World := { w with ngetsockopt := w.ngetsockopt + 1 } with hw₁
  have h₁ : Owned m this (w₁.logged (.callback this .error)) := ho.congr rfl rfl rfl rfl
  refine ⟨(w₁.logged (.callback this .error)).handleClosed E this m, ?_, handleClosed_dead h₁⟩
  unfold BaseSocket.handleConnectEvent BaseSocket.handleError
  rw [bind_of_ok run_obj, bind_of_ok hopt, if_pos hv, alive_bind (show w₁.dead this = false from ho.alive),
    bind_of_ok run_act]
  exact handleClose_eq h₁.alive h₁.map

/-- What a successful connect changes. -/
def World.connectedAs (w : World) (this : ℕ) : World :=
  (({ w with ngetsockopt := w.ngetsockopt + 1 } : World).logged (.callback this .connect)).setObj this
    ({ · with connected := true, connecting := false })

theorem connectEvent_ok (ha : w.dead this = false) (ho : w.descs (w.objs this).sock ≠ none)
    (hv : E.getsockopt w.ngetsockopt = 0) :
    BaseSocket.handleConnectEvent E this w = .ok ⟨⟩ (w.connectedAs this) := by
  unfold BaseSocket.handleConnectEvent BaseSocket.handleConnect
  rw [bind_of_ok run_obj, bind_of_ok (getsockopt_open ho), if_neg (by simp [hv])]
  set w₁ : World := { w with ngetsockopt := w.ngetsockopt + 1 } with hw₁
  have hlook : (alive this >>= fun _ => act (.callback this .connect)) w₁ =
      .ok ⟨⟩ (w₁.logged (.callback this .connect)) := alive_bind ha
  rw [bind_of_ok hlook]
  rfl

theorem Owned.connectedAs (ho : Owned m this w) : Owned m this (w.connectedAs this) :=
  ho.congr (by rw [World.connectedAs, World.setObj_same]; rfl) (by rw [World.connectedAs, World.setObj_same]; rfl)
    rfl rfl

/-! ### The events -/

/-- The connect check at the head of the read and write events, before the callback `x`. -/
theorem checked_stays_iff {x : Proc Unit} {Q : Prop} (ho : Owned m this w)
    (hd : w.descs (w.objs this).sock ≠ none)
    (hx : ∀ w', w'.dead this = true → x w' = .error .destroyed w') (hself : Stays this (x w) ↔ Q)
    (hconn : Stays this (x (w.connectedAs this)) ↔ Q) :
    Stays this ((if (!(w.objs this).connected) = true then
        (if (w.objs this).connecting = true then BaseSocket.handleConnectEvent E this >>= fun _ => x
          else x)
        else x) w) ↔ ¬ ConnectFails E w this ∧ Q := by
  by_cases hc : (w.objs this).connected = false ∧ (w.objs this).connecting = true
  · rw [if_pos (by simp [hc.1]), if_pos hc.2]
    by_cases hv : E.getsockopt w.ngetsockopt = 0
    · -- connected: the handler goes on
      rw [bind_of_ok (connectEvent_ok ho.alive hd hv), hconn]
      exact ⟨fun hQ => ⟨fun hf => hf.2.2 hv, hQ⟩, fun hQ => hQ.2⟩
    · -- destroyed, and called all the same
      obtain ⟨w', hrun, hdead⟩ := connectEvent_fails (E := E) ho hd hv
      rw [bind_of_ok hrun, hx w' hdead]
      exact iff_of_false (fun h => h ⟨rfl, hdead⟩) fun hf => hf.1 ⟨hc.1, hc.2, hv⟩
  · -- nothing to check
    have hskip : (if (!(w.objs this).connected) = true then
        (if (w.objs this).connecting = true then BaseSocket.handleConnectEvent E this >>= fun _ => x
          else x)
        else x) = x := by
      by_cases hcon : (w.objs this).connected = true
      · simp [hcon]
      · have hcn : (w.objs this).connecting = false := by simpa [hcon] using hc
        simp [hcn]
    rw [hskip, hself]
    exact ⟨fun hQ => ⟨fun hf => hc ⟨hf.1, hf.2.1⟩, hQ⟩, fun hQ => hQ.2⟩

/-- A listener takes a connection in, or none, and returns. -/
theorem handleAccept_stays (ho : Owned m this w) (hd : w.descs (w.objs this).sock ≠ none) :
    Stays this (BaseSocket.handleAccept E this w) := by
  by_cases hc : (w.objs this).cls = .tcpServerImpl
  · rcases handleAccept_cases E ho.alive hc ho.map hd with ⟨-, hrun⟩ | ⟨-, hrun⟩ | ⟨f, w', -, -, hrun, -⟩
    · rw [hrun]
      exact .ok _
    · rw [hrun]
      exact .ok _
    · rw [hrun]
      exact .ok _
  · rw [handleAccept_other ho.alive hc]
    exact .ok _

/-- The read event: `handle_read` stops at the first close, but the connect check does not. -/
theorem readEvent_stays_iff (ho : Owned m this w) (hd : w.descs (w.objs this).sock ≠ none) :
    Stays this (BaseSocket.handleReadEvent E this w) ↔ Event.read.Careful E w this := by
  change _ ↔ (w.objs this).accepting = true ∨ ¬ ConnectFails E w this
  by_cases ha : (w.objs this).accepting = true
  · rw [handleReadEvent_accepting ha]
    exact iff_of_true (handleAccept_stays ho hd) (.inl ha)
  · unfold BaseSocket.handleReadEvent
    rw [bind_of_ok run_obj, if_neg ha]
    refine (checked_stays_iff (Q := True) ho hd (fun w' h => dead_bind h)
      (iff_of_true (handleRead_stays ho) trivial)
      (iff_of_true (handleRead_stays ho.connectedAs) trivial)).trans ?_
    rw [and_true]
    exact ⟨fun hf => .inr hf, fun hf => hf.resolve_left ha⟩

/-- The write event: `handle_write` goes on behind a send that closed the handler. -/
theorem writeEvent_stays_iff (ho : Owned m this w) (hd : w.descs (w.objs this).sock ≠ none)
    (hq : ∀ r ∈ (w.objs this).virus.resp, r.Sendable) :
    Stays this (BaseSocket.handleWriteEvent E this w) ↔ Event.write.Careful E w this := by
  change _ ↔ (w.objs this).accepting = true ∨ ¬ ConnectFails E w this ∧ SendsHold E w this
  unfold BaseSocket.handleWriteEvent
  rw [bind_of_ok run_obj]
  by_cases ha : (w.objs this).accepting = true
  · -- a listener has nothing to write
    rw [if_pos ha]
    exact iff_of_true (.ok _) (.inl ha)
  · rw [if_neg ha]
    have hsame : (w.connectedAs this).objs this =
        { w.objs this with connected := true, connecting := false } := World.setObj_same
    -- the connect check sends nothing, so the sends are the same behind it
    have hholds : SendsHold E (w.connectedAs this) this ↔ SendsHold E w this := by
      unfold SendsHold
      rw [hsame]
      rfl
    have hconn := handleWrite_stays_iff (E := E) ho.connectedAs (by rw [hsame]; exact hd)
      (by rw [hsame]; exact hq)
    refine (checked_stays_iff ho hd (fun w' h => dead_bind h) (handleWrite_stays_iff ho hd hq)
      (hconn.trans hholds)).trans ?_
    exact ⟨fun hf => .inr hf, fun hf => hf.resolve_left ha⟩

/-- The connect check alone. -/
theorem connectEvent_stays (ho : Owned m this w) (hd : w.descs (w.objs this).sock ≠ none) :
    Stays this (BaseSocket.handleConnectEvent E this w) := by
  by_cases hv : E.getsockopt w.ngetsockopt = 0
  · rw [connectEvent_ok ho.alive hd hv]
    exact .ok _
  · obtain ⟨w', hrun, -⟩ := connectEvent_fails (E := E) ho hd hv
    rw [hrun]
    exact .ok _

/-- The exception event: `handle_expt` and `handle_close` close at their very end, if at all. -/
theorem exptEvent_stays (ho : Owned m this w) (hd : w.descs (w.objs this).sock ≠ none) :
    Stays this (BaseSocket.handleExptEvent E this w) := by
  have ho₁ : Owned m this { w with ngetsockopt := w.ngetsockopt + 1 } := ho.congr rfl rfl rfl rfl
  unfold BaseSocket.handleExptEvent
  rw [bind_of_ok run_obj, bind_of_ok (getsockopt_open hd)]
  by_cases hv : E.getsockopt w.ngetsockopt = 0
  · obtain ⟨w', hrun⟩ := handleExpt_ok (E := E) ho₁
    rw [if_pos hv, hrun]
    exact .ok _
  · rw [if_neg hv, handleClose_eq ho₁.alive ho₁.map]
    exact .ok _

/-- **An event that closes its handler** does nothing more with it if and only if it is careful: no
further send or recv on the descriptor, no callback of the handler, no second close and no look at the
destroyed object. -/
theorem event_quiet_iff (ho : Owned m this w) (hd : w.descs (w.objs this).sock ≠ none)
    (hq : ∀ r ∈ (w.objs this).virus.resp, r.Sendable) (e : Event) :
    LeftAlone this (w.objs this).sock w (e.run E this w) ↔ e.Careful E w this := by
  have hlog := event_logged (E := E) ho (w.objs this).sock e
  refine (and_iff_right hlog).trans ?_
  cases e with
  | read => exact readEvent_stays_iff ho hd
  | write => exact writeEvent_stays_iff ho hd hq
  | connect => exact iff_of_true (connectEvent_stays ho hd) trivial
  | expt => exact iff_of_true (exptEvent_stays ho hd) trivial

/-- Every send on a connection gives an error, which is none of `SIGPIPE`. -/
def Env.reset : Env := { Env.steady with send := fun _ => .fatal }

theorem World.client_owned (q : List HV) : Owned 0 0 (World.client q) :=
  ⟨rfl, rfl, ⟨0, 0⟩, by
    change ((∅ : Std.TreeMap ℤ SharedPtr).insert 5 ⟨0, 0⟩)[(5 : ℤ)]? = _
    rw [Std.TreeMap.getElem?_insert_self], rfl⟩

/-- The write event of a client with one response. -/
theorem event_quiet_iff_client :
    LeftAlone 0 5 (.client [HV.replyTo LibC.steady 1 .ok true])
        (Event.write.run .reset 0 (.client [HV.replyTo LibC.steady 1 .ok true])) ↔
      Event.write.Careful .reset (.client [HV.replyTo LibC.steady 1 .ok true]) 0 := by
  refine event_quiet_iff (w := .client [HV.replyTo LibC.steady 1 .ok true]) (World.client_owned _)
    (by simp [World.client]) (fun r hr => ?_) .write
  obtain rfl := List.mem_singleton.1 hr
  exact replyTo_sendable _ _ _ _

/-- The header is refused and the handler closed, which destroys it: its descriptor stays open, and the
event goes on to send the value for it. -/
theorem refused_header_goes_on :
    fault (Event.write.run .reset 0 (.client [HV.replyTo LibC.steady 1 .ok true])) = some .destroyed ∧
      (final (Event.write.run .reset 0 (.client [HV.replyTo LibC.steady 1 .ok true]))).dead 0 = true ∧
      (final (Event.write.run .reset 0 (.client [HV.replyTo LibC.steady 1 .ok true]))).log =
        [.callback 0 .write, .send 5, .callback 0 .close, .close 0 (-1)] ∧
      ¬ LeftAlone 0 5 (.client [HV.replyTo LibC.steady 1 .ok true])
        (Event.write.run .reset 0 (.client [HV.replyTo LibC.steady 1 .ok true])) := by
  have hfault : fault (Event.write.run .reset 0 (.client [HV.replyTo LibC.steady 1 .ok true])) =
      some .destroyed := by decide +kernel
  have hdead : (final (Event.write.run .reset 0 (.client [HV.replyTo LibC.steady 1 .ok true]))).dead 0 =
      true := by decide +kernel
  exact ⟨hfault, hdead, by decide +kernel, fun h => h.2 ⟨hfault, hdead⟩⟩

end DocFerry
