import DocFerry.Proof.Local

/-!
# New handlers

* `setSocket_eq`: a handler is registered under its new socket.
* `new_invalid`, `new_valid`: the constructor of `BaseSocket`.
* `handleAccept_cases`: the ways in which a listener takes a connection in.
-/

namespace DocFerry

open Prog

variable {E : Env} {w : World} {this m : ℕ} {sock : ℤ} {cls : HandlerClass}

/-! ### Registration -/

/-- `w` after `this` was registered under `sock` in the map `m`, by a new control block. -/
def World.registered (w : World) (this : ℕ) (sock : ℤ) (m : ℕ) : World :=
  { ((w.setObj this ({ · with sock := sock })).erase m sock).setMap m
      (·.insertIfNew sock ⟨this, w.nctrl⟩) with
    nctrl := w.nctrl + 1 }

/-- **`set_socket`** registers the handler under the new socket. -/
theorem setSocket_eq : BaseSocket.setSocket this sock (some m) w = .ok ⟨⟩ (w.registered this sock m) := by
  unfold BaseSocket.setSocket BaseSocket.addChannel
  simp only [run_bind, run_assign, run_obj, World.setObj_same, run_deref, run_modify, run_get,
    run_set]
  rfl

theorem registered_look (j : ℕ) (k : ℤ) :
    (w.registered this sock m).look j k = if j = m ∧ k = sock then some ⟨this, w.nctrl⟩ else w.look j k := by
  set w₁ := (w.setObj this ({ · with sock := sock })).erase m sock with hw₁
  have hlook : (w.registered this sock m).look j k =
      (w₁.setMap m (·.insertIfNew sock ⟨this, w.nctrl⟩)).look j k := rfl
  have hgone : w₁.look m sock = none := by rw [World.look_erase, if_pos ⟨rfl, rfl⟩]
  have hnot : ¬ sock ∈ w₁.maps m := by
    rw [Std.TreeMap.mem_iff_isSome_getElem?]
    simpa [World.look] using hgone
  rw [hlook, World.look_setMap]
  by_cases hj : j = m
  · subst hj
    rw [if_pos rfl, Std.TreeMap.getElem?_insertIfNew]
    by_cases hk : k = sock
    · subst hk
      rw [if_pos ⟨Std.compare_self, hnot⟩, if_pos ⟨rfl, rfl⟩]
    · rw [if_neg (fun h => hk (Std.compare_eq_iff_eq.1 h.1).symm), if_neg (fun h => hk h.2)]
      have hkeep : w₁.look j k = _ := World.look_erase
      rw [if_neg (fun h => hk h.2)] at hkeep
      exact hkeep
  · rw [if_neg hj, if_neg (fun h => hj h.1), hw₁, World.look_erase, if_neg (fun h => hj h.1)]
    rfl

/-- Registration destroys what was registered under the number before. -/
theorem registered_dead {i : ℕ} : (w.registered this sock m).dead i = true ↔
    w.dead i = true ∨ ∃ p, w.look m sock = some p ∧ p.obj = i := World.dead_erase

/-- **`del_channel`** lets go what is registered under the socket. -/
theorem delChannel_eq :
    BaseSocket.delChannel this (some m) w = .ok ⟨⟩ (w.erase m (w.objs this).sock) := rfl

/-- `cp_setblocking` changes flags only. -/
theorem cpSetblocking_cases (w : World) (sock : ℤ) (b : Bool) :
    ∃ ret descs, cpSetblocking sock b w = .ok ret { w with descs := descs } ∧
      ∀ k, (descs k).map Desc.origin = (w.descs k).map Desc.origin := by
  unfold cpSetblocking
  rw [get_bind]
  cases hd : w.descs sock with
  | none => exact ⟨-1, w.descs, rfl, fun _ => rfl⟩
  | some desc =>
    refine ⟨0, _, rfl, fun k => ?_⟩
    rcases eq_or_ne k sock with rfl | hk
    · simp [hd]
    · simp [hk]

/-! ### The constructor -/

/-- **The constructor on an invalid socket** makes the object only. -/
theorem new_invalid (hv : cpSocketValid sock = false) (p_handlers : Option ℕ) :
    BaseSocket.new E cls sock p_handlers w =
      .ok w.nobj (w.alloc (BaseSocket.begun E cls sock p_handlers)) := by
  unfold BaseSocket.new
  rw [get_bind, bind_of_ok run_modify, hv]
  rfl

/-- What the system says about the peer of `sock`. -/
def World.peer (w : World) (E : Env) (sock : ℤ) : PeerResult :=
  if w.descs sock = none then .otherError else E.getpeername w.ngetpeername

/-- `w'` is `w` with a new handler for `sock`, which is registered in the map `m` unless its
peer could not be asked for. -/
structure Made (E : Env) (cls : HandlerClass) (sock : ℤ) (m : ℕ) (w w' : World) : Prop where
  log : w'.log = w.log
  nobj : w'.nobj = w.nobj + 1
  nfreed : w'.nfreed = w.nfreed
  naccept : w'.naccept = w.naccept
  ngetpeername : w'.ngetpeername = if w.descs sock = none then w.ngetpeername else w.ngetpeername + 1
  obj : (w'.objs w.nobj).cls = cls ∧ (w'.objs w.nobj).sock = sock ∧
    (w'.objs w.nobj).p_handlers = some m
  others : ∀ i, i ≠ w.nobj → w'.objs i = w.objs i
  dead : ∀ i, i ≠ w.nobj → (w'.dead i = true ↔ w.dead i = true ∨ ∃ p, w.look m sock = some p ∧ p.obj = i)
  own : (∀ p, w.look m sock = some p → p.obj ≠ w.nobj) →
    (w'.dead w.nobj = true ↔ w.peer E sock = .otherError)
  descs : ∀ k, (w'.descs k).map Desc.origin = (w.descs k).map Desc.origin
  maps : ∀ j k, w'.look j k =
    if j = m ∧ k = sock then
      (if w.peer E sock = .otherError then none else some ⟨w.nobj, w.nctrl⟩)
    else w.look j k

theorem cpGetpeername_eq (w : World) (sock : ℤ) :
    cpGetpeername E sock w = .ok (w.peer E sock)
      (if w.descs sock = none then w else { w with ngetpeername := w.ngetpeername + 1 }) := by
  unfold cpGetpeername World.peer
  rw [get_bind]
  by_cases h : w.descs sock = none
  · rw [if_pos h, if_pos h, if_pos h]; rfl
  · rw [if_neg h, if_neg h, if_neg h]; rfl

/-- What asking for the peer of `sock` makes of the handler `this`, registered in the map `m`. -/
structure PeerAsked (E : Env) (this : ℕ) (sock : ℤ) (m : ℕ) (w w' : World) : Prop where
  log : w'.log = w.log
  nobj : w'.nobj = w.nobj
  nfreed : w'.nfreed = w.nfreed
  naccept : w'.naccept = w.naccept
  ngetpeername : w'.ngetpeername = if w.descs sock = none then w.ngetpeername else w.ngetpeername + 1
  descs : w'.descs = w.descs
  others : ∀ i, i ≠ this → w'.objs i = w.objs i
  obj : (w'.objs this).cls = (w.objs this).cls ∧ (w'.objs this).sock = sock ∧
    (w'.objs this).p_handlers = some m
  connected : (w'.objs this).connected = true ↔
    (w.objs this).connected = true ∧ w.peer E sock ≠ .notConnected
  maps : ∀ j k, w'.look j k =
    if j = m ∧ k = sock ∧ w.peer E sock = .otherError then none else w.look j k
  dead : ∀ i, w'.dead i = true ↔
    w.dead i = true ∨ w.peer E sock = .otherError ∧ ∃ p, w.look m sock = some p ∧ p.obj = i

/-- **Asking for the peer** of a socket that is registered in the map `m`. -/
theorem askPeer_cases (E : Env) (hm : (w.objs this).p_handlers = some m)
    (hs : (w.objs this).sock = sock) :
    ∃ w', BaseSocket.askPeer E this sock w = .ok ⟨⟩ w' ∧ PeerAsked E this sock m w w' := by
  -- only a call on an open descriptor uses an answer up
  set w₁ : World := if w.descs sock = none then w else { w with ngetpeername := w.ngetpeername + 1 }
    with hw₁
  have hobjs : w₁.objs = w.objs := by rw [hw₁]; split <;> rfl
  have hlook : ∀ j k, w₁.look j k = w.look j k := by intro j k; rw [hw₁]; split <;> rfl
  have hdead : w₁.dead = w.dead := by rw [hw₁]; split <;> rfl
  have hlog : w₁.log = w.log := by rw [hw₁]; split <;> rfl
  have hnobj : w₁.nobj = w.nobj := by rw [hw₁]; split <;> rfl
  have hfreed : w₁.nfreed = w.nfreed := by rw [hw₁]; split <;> rfl
  have hacc : w₁.naccept = w.naccept := by rw [hw₁]; split <;> rfl
  have hdescs : w₁.descs = w.descs := by rw [hw₁]; split <;> rfl
  have hn : w₁.ngetpeername = (if w.descs sock = none then w.ngetpeername else w.ngetpeername + 1) := by
    rw [hw₁]; split <;> rfl
  unfold BaseSocket.askPeer
  rw [bind_of_ok (cpGetpeername_eq w sock), ← hw₁]
  cases hp : w.peer E sock with
  | peer addr =>
    refine ⟨_, rfl, hlog, hnobj, hfreed, hacc, hn, hdescs, fun i hi => ?_, ?_, ?_, fun j k => ?_,
      fun i => ?_⟩
    · rw [World.setObj_ne hi, hobjs]
    · simp [hobjs, hm, hs]
    · simp [hobjs, hp]
    · rw [hp, if_neg (by simp)]; exact hlook j k
    · simp [World.setObj, hdead, hp]
  -- not connected yet: the channel stays
  | notConnected =>
    refine ⟨_, rfl, hlog, hnobj, hfreed, hacc, hn, hdescs, fun i hi => ?_, ?_, ?_, fun j k => ?_,
      fun i => ?_⟩
    · rw [World.setObj_ne hi, hobjs]
    · simp [hobjs, hm, hs]
    · simp [hobjs, hp]
    · rw [hp, if_neg (by simp)]; exact hlook j k
    · simp [World.setObj, hdead, hp]
  -- any other failure deletes the channel
  | otherError =>
    refine ⟨w₁.erase m sock, ?_, hlog, hnobj, hfreed, hacc, hn, hdescs, fun i _ => ?_, ?_, ?_,
      fun j k => ?_, fun i => ?_⟩
    · dsimp only
      rw [bind_of_ok run_obj, hobjs, hm, delChannel_eq, hobjs, hs]
    · exact congrFun hobjs i
    · rw [show (w₁.erase m sock).objs this = w.objs this from congrFun hobjs this]
      exact ⟨rfl, hs, hm⟩
    · rw [show (w₁.erase m sock).objs this = w.objs this from congrFun hobjs this, hp]
      simp
    · rw [World.look_erase, hlook, hp]
      simp only [and_true]
    · rw [World.dead_erase, hdead, hlook, hp]
      simp

/-- **The constructor on a valid socket** registers the object, and lets it go again when
the peer cannot be asked for. -/
theorem new_valid (E : Env) (w : World) (cls : HandlerClass) (m : ℕ) (hv : cpSocketValid sock = true) :
    ∃ w', BaseSocket.new E cls sock (some m) w = .ok w.nobj w' ∧ Made E cls sock m w w' ∧
      ((w'.objs w.nobj).connected = true ↔ w.peer E sock ≠ .notConnected) := by
  set w₁ := w.alloc (BaseSocket.begun E cls sock (some m)) with hw₁
  obtain ⟨ret, descs, hblk, horig⟩ := cpSetblocking_cases w₁ sock false
  -- the object is there and registered, and counts as connected
  set w₂ : World := { w₁ with descs := descs } with hw₂
  set w₃ := (w₂.registered w.nobj sock m).setObj w.nobj ({ · with connected := true }) with hw₃
  have hobj : w₃.objs w.nobj = { BaseSocket.begun E cls sock (some m) with connected := true } := by
    simp [hw₃, hw₂, hw₁, World.registered, World.setMap, World.erase, World.alloc, BaseSocket.begun]
  have hothers : ∀ i, i ≠ w.nobj → w₃.objs i = w.objs i := by
    intro i hi
    simp [hw₃, hw₂, hw₁, World.registered, World.setMap, World.erase, World.alloc, World.setObj, hi]
  have hlook : ∀ j k, w₃.look j k = if j = m ∧ k = sock then some ⟨w.nobj, w.nctrl⟩ else w.look j k :=
    fun j k => registered_look (w := w₂) j k
  have hdead₂ : w₂.dead = Function.update w.dead w.nobj false := rfl
  have hdead : ∀ i, w₃.dead i = true ↔ w₂.dead i = true ∨ ∃ p, w.look m sock = some p ∧ p.obj = i :=
    fun i => registered_dead (w := w₂)
  have hnone : w₃.descs sock = none ↔ w.descs sock = none := origin_none (horig sock)
  have hpeer : w₃.peer E sock = w.peer E sock := by
    unfold World.peer
    by_cases h : w.descs sock = none
    · rw [if_pos h, if_pos (hnone.2 h)]
    · rw [if_neg h, if_neg (fun h' => h (hnone.1 h'))]; rfl
  have hm₃ : (w₃.objs w.nobj).p_handlers = some m := by rw [hobj]; rfl
  have hs₃ : (w₃.objs w.nobj).sock = sock := by rw [hobj]; rfl
  have hself : w₃.look m sock = some ⟨w.nobj, w.nctrl⟩ := by rw [hlook, if_pos ⟨rfl, rfl⟩]
  obtain ⟨w', hask, h'⟩ := askPeer_cases E hm₃ hs₃
  refine ⟨w', ?_, ⟨h'.log, h'.nobj, h'.nfreed, h'.naccept, ?_, ?_,
    fun i hi => (h'.others i hi).trans (hothers i hi), fun i hi => ?_, fun hfree => ?_, fun k => ?_,
    fun j k => ?_⟩, ?_⟩
  · unfold BaseSocket.new
    rw [get_bind, bind_of_ok run_modify, hv, if_pos rfl]
    change (cpSetblocking sock false >>= _) w₁ = _
    rw [bind_of_ok hblk, bind_of_ok setSocket_eq, bind_of_ok run_assign]
    exact bind_of_ok hask
  · rw [h'.ngetpeername]
    by_cases h : w.descs sock = none
    · rw [if_pos h, if_pos (hnone.2 h)]; rfl
    · rw [if_neg h, if_neg (fun h' => h (hnone.1 h'))]; rfl
  · obtain ⟨h1, h2, h3⟩ := h'.obj
    exact ⟨by rw [h1, hobj]; rfl, h2, h3⟩
  · -- of the others, only what the number belonged to before is gone
    rw [h'.dead, hdead, hself, hdead₂, Function.update_of_ne hi]
    simp [Ne.symm hi]
  · rw [h'.dead, hdead, hself, hdead₂, Function.update_self, hpeer]
    have hnot : ¬ ∃ p, w.look m sock = some p ∧ p.obj = w.nobj := by
      rintro ⟨p, hp, heq⟩
      exact hfree p hp heq
    simp [hnot]
  · rw [h'.descs]; exact horig k
  · rw [h'.maps, hlook, hpeer]
    by_cases hjk : j = m ∧ k = sock
    · rw [if_pos hjk, if_pos hjk]
      simp only [hjk, true_and]
    · rw [if_neg (fun h => hjk ⟨h.1, h.2.1⟩), if_neg hjk, if_neg hjk]
  · rw [h'.connected, hobj, hpeer]
    exact and_iff_right rfl

/-- The constructor of `SocketHandler` changes flags besides. -/
theorem socketHandler_valid (E : Env) (w : World) (cls : HandlerClass) (m : ℕ)
    (hv : cpSocketValid sock = true) :
    ∃ w', SocketHandler.new E cls sock (some m) w = .ok w.nobj w' ∧ Made E cls sock m w w' ∧
      ((w'.objs w.nobj).connected = true ↔ w.peer E sock ≠ .notConnected) := by
  obtain ⟨w₁, hnew, h, hconn⟩ := new_valid E w cls m hv
  obtain ⟨ret, descs, hblk, horig⟩ := cpSetblocking_cases w₁ sock true
  refine ⟨{ w₁ with descs := descs }, ?_, ⟨h.log, h.nobj, h.nfreed, h.naccept, h.ngetpeername,
    h.obj, h.others, h.dead, h.own, fun k => (horig k).trans (h.descs k), h.maps⟩, hconn⟩
  unfold SocketHandler.new
  rw [bind_of_ok hnew, bind_of_ok hblk]
  rfl

/-! ### Accepting -/

/-- The system has a connection for `accept`, on the free descriptor `f`. -/
def Incoming (E : Env) (w : World) (f : ℤ) : Prop :=
  (∃ peer, E.accept w.naccept = .conn f peer) ∧ 0 ≤ f ∧ w.descs f = none

/-- **`accept`** on an open descriptor makes a new one, or none. -/
theorem cpAccept_cases (E : Env) (w : World) (sock : ℤ) (ho : w.descs sock ≠ none) :
    (∃ f peer, Incoming E w f ∧ cpAccept E sock w =
        .ok (f, peer) (({ w with naccept := w.naccept + 1 } : World).openDesc E f .accepted)) ∨
      (∀ f, ¬ Incoming E w f) ∧
        cpAccept E sock w = .ok (-1, none) { w with naccept := w.naccept + 1 } := by
  unfold cpAccept
  rw [get_bind, if_neg ho]
  cases ha : E.accept w.naccept with
  | fail =>
    refine .inr ⟨?_, rfl⟩
    rintro f ⟨⟨peer, hp⟩, -⟩
    rw [ha] at hp; cases hp
  | conn f peer =>
    by_cases hf : 0 ≤ f ∧ w.descs f = none
    · left
      refine ⟨f, some peer, ⟨⟨peer, ha⟩, hf⟩, ?_⟩
      dsimp only
      rw [if_pos hf]
      rfl
    · right
      refine ⟨?_, ?_⟩
      · rintro f' ⟨⟨peer', hp⟩, hf'⟩
        rw [ha] at hp; cases hp
        exact hf hf'
      · dsimp only
        rw [if_neg hf]
        rfl

/-- `w` after the system has taken the connection on `f` in. -/
def World.incoming (w : World) (E : Env) (this : ℕ) (f : ℤ) : World :=
  ({ w.logged (.callback this .accept) with naccept := w.naccept + 1 } : World).openDesc E f .accepted

/-- `BaseSocket::accept` gives a valid descriptor on, and makes nothing valid of another. -/
theorem accept_eq {f : ℤ} {peer : Option Addr} {w' : World}
    (h : cpAccept E (w.objs this).sock w = .ok (f, peer) w') :
    ∃ f' peer', BaseSocket.accept E this w = .ok (f', peer') w' ∧
      (cpSocketValid f = true → f' = f) ∧ cpSocketValid f' = cpSocketValid f := by
  unfold BaseSocket.accept
  rw [get_bind, bind_of_ok run_obj, bind_of_ok h]
  dsimp only
  by_cases hv : cpSocketValid f = true
  · rw [if_pos hv]
    exact ⟨f, peer, rfl, fun _ => rfl, rfl⟩
  · rw [if_neg hv]
    have hv' : cpSocketValid f = false := by simpa using hv
    cases E.acceptErrno w.naccept with
    | true => exact ⟨invalidSocket, none, rfl, fun h => absurd h hv, hv'.symm⟩
    | false => exact ⟨f, none, rfl, fun _ => rfl, rfl⟩

/-- A listener has a `handle_accept` of its own. -/
theorem handleAccept_server (ha : w.dead this = false) (hc : (w.objs this).cls = .tcpServerImpl) :
    BaseSocket.handleAccept E this w =
      TCPServerImpl.handleAccept E this (w.logged (.callback this .accept)) := by
  unfold BaseSocket.handleAccept
  rw [alive_bind ha, bind_of_ok run_act, bind_of_ok run_obj, World.logged_objs, hc]

/-- **`handle_accept` of a listener** finds no connection, gets one on descriptor 0, which it
takes for none, or makes a handler for it. -/
theorem handleAccept_cases (E : Env) (ha : w.dead this = false) (hc : (w.objs this).cls = .tcpServerImpl)
    (hm : (w.objs this).p_handlers = some m) (ho : w.descs (w.objs this).sock ≠ none) :
    (∀ f, ¬ Incoming E w f) ∧ BaseSocket.handleAccept E this w =
        .ok ⟨⟩ { w.logged (.callback this .accept) with naccept := w.naccept + 1 } ∨
      Incoming E w 0 ∧ BaseSocket.handleAccept E this w = .ok ⟨⟩ (w.incoming E this 0) ∨
      ∃ f w', Incoming E w f ∧ 0 < f ∧ BaseSocket.handleAccept E this w = .ok ⟨⟩ w' ∧
        Made E .virusHandler f m (w.incoming E this f) w' := by
  set w₁ := w.logged (.callback this .accept) with hw₁
  rw [handleAccept_server ha hc, ← hw₁]
  unfold TCPServerImpl.handleAccept
  rcases cpAccept_cases E w₁ (w₁.objs this).sock ho with
    ⟨f, peer, hinc, hacc⟩ | ⟨hno, hacc⟩
  · obtain ⟨f', peer', hacc', hval, hsame⟩ := accept_eq hacc
    rw [bind_of_ok hacc']
    dsimp only
    rw [hsame]
    -- `socket_valid` takes descriptor 0 for no connection
    rcases eq_or_lt_of_le hinc.2.1 with rfl | hpos
    · exact .inr (.inl ⟨hinc, rfl⟩)
    · have hv : cpSocketValid f = true := by
        unfold cpSocketValid invalidSocket
        have h1 : f ≠ 0 := by omega
        have h2 : f ≠ -1 := by omega
        simp [h1, h2]
      obtain rfl := hval hv
      obtain ⟨w', hnew, hmade, -⟩ := socketHandler_valid E (w.incoming E this f') .virusHandler m hv
      refine .inr (.inr ⟨f', w', hinc, hpos, ?_, hmade⟩)
      rw [hv, if_pos rfl]
      change (obj this >>= fun o =>
        SocketHandler.new E .virusHandler f' o.p_handlers >>= fun _ => pure PUnit.unit)
        (w.incoming E this f') = _
      rw [bind_of_ok run_obj, show ((w.incoming E this f').objs this).p_handlers = some m from hm,
        bind_of_ok hnew]
      rfl
  · obtain ⟨f', peer', hacc', -, hsame⟩ := accept_eq hacc
    refine .inl ⟨hno, ?_⟩
    rw [bind_of_ok hacc']
    dsimp only
    rw [hsame]
    rfl

/-- `handle_accept` writes no more than its callback to the log. -/
theorem handleAccept_log (ha : w.dead this = false) (h : (w.objs this).p_handlers = some m) :
    (final (BaseSocket.handleAccept E this w)).log = w.log ++ [.callback this .accept] := by
  by_cases hc : (w.objs this).cls = .tcpServerImpl
  · by_cases ho : w.descs (w.objs this).sock = none
    · -- the descriptor is closed: there is nothing to accept
      set w₁ := w.logged (.callback this .accept) with hw₁
      have hacc : cpAccept E (w₁.objs this).sock w₁ = .ok (-1, none) w₁ := by
        unfold cpAccept
        rw [get_bind]
        exact congrFun (if_pos (show w₁.descs (w₁.objs this).sock = none from ho)) w₁
      obtain ⟨f, peer, hrun, -, hsame⟩ := accept_eq hacc
      have hinv : cpSocketValid f = false := hsame
      rw [handleAccept_server ha hc, ← hw₁]
      unfold TCPServerImpl.handleAccept
      rw [bind_of_ok hrun]
      dsimp only
      rw [hinv]
      rfl
    · rcases handleAccept_cases E ha hc h ho with ⟨-, hrun⟩ | ⟨-, hrun⟩ | ⟨f, w', -, -, hrun, hmade⟩
      · rw [hrun]
        rfl
      · rw [hrun]
        rfl
      · rw [hrun]
        exact hmade.log
  · rw [handleAccept_other ha hc]
    rfl

end DocFerry
