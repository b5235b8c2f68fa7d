import DocFerry.Lib.Prog
import DocFerry.Model.Select
import DocFerry.Proof.Cache
import DocFerry.Spec.Line

/-!
# What the calls on a handler do

Each call as a change of the process.

* `close_eq`, `handleClose_eq`: the handler leaves its map, and its descriptor if it is reached.
* `cpSend_open`, `send_open`, `send_pipe`, `send_gone`: a call of `send` by the answer of the system.
* `cpRecv_cases`: a call of `recv`.
* `handleRead_virus` and the like: what callbacks and events come to, by the class and the flags of
  the handler.
-/

namespace DocFerry

open Prog

variable {E : Env} {w : World} {this m size : ℕ} {sock len : ℤ} {buf : List UInt8}

/-! ### The small steps -/

/-- `w` with an entry more in its log. -/
def World.logged (w : World) (a : Act) : World := { w with log := w.log ++ [a] }

theorem run_obj : obj this w = .ok (w.objs this) w := rfl

theorem run_assign {f : BaseSocket → BaseSocket} : assign this f w = .ok ⟨⟩ (w.setObj this f) := rfl

theorem run_act {a : Act} : act a w = .ok ⟨⟩ (w.logged a) := rfl

theorem run_deref : deref (some m) w = .ok m w := rfl

@[simp] theorem World.setObj_same {f : BaseSocket → BaseSocket} :
    (w.setObj this f).objs this = f (w.objs this) := Function.update_self ..

theorem World.setObj_ne {f : BaseSocket → BaseSocket} {i : ℕ} (h : i ≠ this) :
    (w.setObj this f).objs i = w.objs i := Function.update_of_ne h ..

@[simp] theorem World.logged_objs (a : Act) : (w.logged a).objs = w.objs := rfl

/-- What is registered under the descriptor `k` in the map `m`. -/
def World.look (w : World) (m : ℕ) (k : ℤ) : Option SharedPtr := (w.maps m)[k]?

theorem World.look_setMap {f : Std.TreeMap ℤ SharedPtr → Std.TreeMap ℤ SharedPtr} {j : ℕ} {k : ℤ} :
    (w.setMap m f).look j k = if j = m then (f (w.maps m))[k]? else w.look j k := by
  change (Function.update w.maps m (f (w.maps m)) j)[k]? = if j = m then _ else (w.maps j)[k]?
  by_cases hj : j = m
  · subst hj
    rw [Function.update_self, if_pos rfl]
  · rw [Function.update_of_ne hj, if_neg hj]

/-- An object that was not destroyed can be used. -/
theorem run_alive (h : w.dead this = false) : alive this w = .ok ⟨⟩ w := by
  unfold alive
  rw [get_bind, if_neg (by simp [h])]
  rfl

theorem run_dead (h : w.dead this = true) : alive this w = .error .destroyed w := by
  unfold alive
  rw [get_bind, if_pos h]
  rfl

theorem alive_bind {α : Type} {x : Proc α} (h : w.dead this = false) : (alive this >>= fun _ => x) w = x w :=
  bind_of_ok (run_alive h)

theorem dead_bind {α : Type} {x : Proc α} (h : w.dead this = true) :
    (alive this >>= fun _ => x) w = .error .destroyed w := bind_of_error (run_dead h)

/-- Erasing touches the one entry. -/
theorem World.look_erase {j : ℕ} {k : ℤ} :
    (w.erase m sock).look j k = if j = m ∧ k = sock then none else w.look j k := by
  change (w.setMap m (·.erase sock)).look j k = _
  rw [World.look_setMap]
  by_cases hj : j = m
  · subst hj
    rw [if_pos rfl, Std.TreeMap.getElem?_erase]
    by_cases hk : k = sock
    · rw [if_pos (by simp [hk]), if_pos ⟨rfl, hk⟩]
    · rw [if_neg (by simpa [Int.compare_eq_eq] using Ne.symm hk), if_neg (by simp [hk])]
      rfl
  · rw [if_neg hj, if_neg (by simp [hj])]

/-- Erasing destroys the handler of the entry, and no other. -/
theorem World.dead_erase {i : ℕ} :
    (w.erase m sock).dead i = true ↔ w.dead i = true ∨ ∃ p, w.look m sock = some p ∧ p.obj = i := by
  unfold World.erase World.look
  cases hp : (w.maps m)[sock]? with
  | none => simp
  | some p =>
    rcases eq_or_ne i p.obj with rfl | hi
    · simp
    · simp [Function.update_of_ne hi, Ne.symm hi]

/-! ### Closing -/

/-- `w` after `this` has left the map `m`. -/
def World.detached (w : World) (this m : ℕ) : World :=
  (w.setObj this ({ · with connected := false, connecting := false, accepting := false })).erase m
    (w.objs this).sock

/-- Does `close` reach the descriptor: `this` is not destroyed, or its memory still holds the number. -/
def World.reaches (w : World) (E : Env) (this m : ℕ) : Bool :=
  !(w.detached this m).dead this || E.freed w.nfreed

/-- `w` after `this` was closed: out of the map `m`, its descriptor given back if it is reached. -/
def World.closed (w : World) (E : Env) (this m : ℕ) : World :=
  { w.detached this m with
    nfreed := if (w.detached this m).dead this then w.nfreed + 1 else w.nfreed
    log := w.log ++ [.close this (if w.reaches E this m then (w.objs this).sock else invalidSocket)]
    descs := if w.reaches E this m then Function.update w.descs (w.objs this).sock none else w.descs }

theorem World.detached_objs {i : ℕ} : (w.detached this m).objs i =
    (w.setObj this ({ · with connected := false, connecting := false, accepting := false })).objs i := rfl

theorem World.closed_objs {i : ℕ} : (w.closed E this m).objs i =
    (w.setObj this ({ · with connected := false, connecting := false, accepting := false })).objs i := rfl

theorem World.closed_look {j : ℕ} {k : ℤ} :
    (w.closed E this m).look j k = if j = m ∧ k = (w.objs this).sock then none else w.look j k :=
  World.look_erase

theorem World.closed_dead {i : ℕ} : (w.closed E this m).dead i = true ↔
    w.dead i = true ∨ ∃ p, w.look m (w.objs this).sock = some p ∧ p.obj = i := World.dead_erase

theorem World.reaches_eq_false : w.reaches E this m = false ↔
    (w.detached this m).dead this = true ∧ E.freed w.nfreed = false := by
  unfold World.reaches
  simp

theorem World.closed_nfreed : (w.closed E this m).nfreed =
    if (w.detached this m).dead this then w.nfreed + 1 else w.nfreed := rfl

theorem World.closed_descs_self (h : w.reaches E this m = true) :
    (w.closed E this m).descs (w.objs this).sock = none := by
  unfold World.closed
  rw [h]
  exact Function.update_self ..

theorem World.closed_descs_lost (h : w.reaches E this m = false) : (w.closed E this m).descs = w.descs := by
  unfold World.closed
  rw [h]
  rfl

theorem World.closed_descs_ne {k : ℤ} (h : k ≠ (w.objs this).sock) :
    (w.closed E this m).descs k = w.descs k := by
  cases hr : w.reaches E this m with
  | false => rw [World.closed_descs_lost hr]
  | true =>
    unfold World.closed
    rw [hr]
    exact Function.update_of_ne h ..

/-- What `close` reads as the socket of a handler that it has taken out of the map. -/
theorem readSock_detached : BaseSocket.readSock E this (w.detached this m) =
    .ok (if w.reaches E this m then some (w.objs this).sock else none)
      { w.detached this m with
        nfreed := if (w.detached this m).dead this then w.nfreed + 1 else w.nfreed } := by
  have hsock : ((w.detached this m).objs this).sock = (w.objs this).sock := by
    rw [World.detached_objs, World.setObj_same]
  have hn : (w.detached this m).nfreed = w.nfreed := rfl
  unfold BaseSocket.readSock World.reaches
  rw [get_bind]
  by_cases hd : (w.detached this m).dead this = true
  · rw [if_pos hd, bind_of_ok run_set, run_pure, hn, hsock, hd]
    rfl
  · rw [if_neg hd, run_pure, hsock, Bool.eq_false_iff.2 hd]
    rfl

/-- **`close`** takes the handler out of its map, and gives its descriptor back unless the handler went with
the entry and its memory lost the number. -/
theorem close_eq (h : (w.objs this).p_handlers = some m) :
    BaseSocket.close E this w = .ok ⟨⟩ (w.closed E this m) := by
  unfold BaseSocket.close BaseSocket.delChannel
  simp only [run_bind, run_assign, run_obj, World.setObj_same, h, run_deref, run_modify]
  rw [← World.detached, readSock_detached]
  unfold World.closed
  cases w.reaches E this m with
  | true => rfl
  | false => rfl

/-- **`close`** of a handler without a map. -/
theorem close_null (h : (w.objs this).p_handlers = none) : BaseSocket.close E this w = .error .nullDeref
    (w.setObj this ({ · with connected := false, connecting := false, accepting := false })) := by
  unfold BaseSocket.close BaseSocket.delChannel
  simp only [run_bind, run_assign, run_obj, World.setObj_same, h]
  rfl

/-- A relation between the state before `close` and the states that it can leave. -/
theorem steps_close {R : World → World → Prop}
    (hset : ∀ w, R w (w.setObj this ({ · with connected := false, connecting := false, accepting := false })))
    (hclosed : ∀ w m, (w.objs this).p_handlers = some m → R w (w.closed E this m)) :
    Steps R (BaseSocket.close E this) := by
  intro w
  cases h : (w.objs this).p_handlers with
  | some m => rw [close_eq h]; exact hclosed w m h
  | none => rw [close_null h]; exact hset w

/-- `w` after `handle_close` of `this`. -/
def World.handleClosed (w : World) (E : Env) (this m : ℕ) : World :=
  (w.logged (.callback this .close)).closed E this m

theorem handleClose_eq (ha : w.dead this = false) (h : (w.objs this).p_handlers = some m) :
    BaseSocket.handleClose E this w = .ok ⟨⟩ (w.handleClosed E this m) := by
  unfold BaseSocket.handleClose
  rw [alive_bind ha, bind_of_ok run_act]
  exact close_eq h

/-! ### Sending -/

/-- What `cp_send` returns. -/
def SendResult.ret (buf : List UInt8) : SendResult → ℤ
  | .all => buf.length
  | .short n => (min n (buf.length - 1) : ℕ)
  | .wouldBlock => -1
  | .fatal => -1
  | .pipe => -1

/-- `w` after a `send` of `buf` that the system has answered. -/
def World.sent (w : World) (E : Env) (sock : ℤ) (buf : List UInt8) : World :=
  (w.logged (.send sock)).taking sock ((E.send w.nsend).taken buf)

theorem cpSend_open (hl : ¬ len < 1) (ho : w.descs sock ≠ none) (hp : E.send w.nsend ≠ .pipe) :
    cpSend E sock (some buf) len w =
      .ok ((E.send w.nsend).ret (buf.take len.toNat), decide (E.send w.nsend = .wouldBlock))
        (w.sent E sock (buf.take len.toNat)) := by
  have ho' : (w.logged (.send sock)).descs sock ≠ none := ho
  have hn : (w.logged (.send sock)).nsend = w.nsend := rfl
  unfold cpSend World.sent
  rw [if_neg (by simpa using hl), bind_of_ok run_act, get_bind, if_neg ho', hn]
  cases hr : E.send w.nsend with
  | pipe => exact absurd hr hp
  | all => rfl
  | short n => rfl
  | wouldBlock => rfl
  | fatal => rfl

/-- A reset connection: the process is ended. -/
theorem cpSend_pipe (hl : ¬ len < 1) (ho : w.descs sock ≠ none) (hp : E.send w.nsend = .pipe) :
    cpSend E sock (some buf) len w = .error .sigpipe (w.sent E sock (buf.take len.toNat)) := by
  have ho' : (w.logged (.send sock)).descs sock ≠ none := ho
  have hn : (w.logged (.send sock)).nsend = w.nsend := rfl
  unfold cpSend World.sent
  rw [if_neg (by simpa using hl), bind_of_ok run_act, get_bind, if_neg ho', hn, hp]
  rfl

theorem cpSend_gone (hl : ¬ len < 1) (ho : w.descs sock = none) :
    cpSend E sock (some buf) len w = .ok (-1, false) (w.logged (.send sock)) := by
  have ho' : (w.logged (.send sock)).descs sock = none := ho
  unfold cpSend
  rw [if_neg (by simpa using hl), bind_of_ok run_act, get_bind, if_pos ho']
  rfl

/-- A null pointer or no length: the system is not called. -/
theorem cpSend_nothing {p : Option (List UInt8)} (h : p = none ∨ len < 1) :
    cpSend E sock p len w = .ok (0, false) w := by
  unfold cpSend
  rw [if_pos h]
  rfl

/-- **`send` on an open descriptor**: what is not taken is forgotten, and only a fatal
error closes the handler. -/
theorem send_open (buf : List UInt8) (ha : w.dead this = false) (h : (w.objs this).p_handlers = some m)
    (hl : ¬ toInt size < 1) (ho : w.descs (w.objs this).sock ≠ none) (hp : E.send w.nsend ≠ .pipe) :
    ∃ ret, BaseSocket.send E this (some buf) size w = .ok ret
      (if E.send w.nsend = .fatal then
        (w.sent E (w.objs this).sock (buf.take (toInt size).toNat)).handleClosed E this m
        else w.sent E (w.objs this).sock (buf.take (toInt size).toNat)) := by
  have hm : ((w.sent E (w.objs this).sock (buf.take (toInt size).toNat)).objs this).p_handlers = some m := h
  have ha' : (w.sent E (w.objs this).sock (buf.take (toInt size).toNat)).dead this = false := ha
  unfold BaseSocket.send
  rw [alive_bind ha, bind_of_ok run_obj, bind_of_ok (cpSend_open hl ho hp)]
  cases hr : E.send w.nsend with
  | pipe => exact absurd hr hp
  | all =>
    have hne : ¬ SendResult.ret (buf.take (toInt size).toNat) .all = -1 := by
      simp only [SendResult.ret]
      omega
    simp only [hne, if_false]
    exact ⟨_, rfl⟩
  | short n =>
    have hne : ¬ SendResult.ret (buf.take (toInt size).toNat) (.short n) = -1 := by
      simp only [SendResult.ret]
      omega
    simp only [hne, if_false]
    exact ⟨_, rfl⟩
  -- reported as 0, and the handler stays
  | wouldBlock => exact ⟨0, rfl⟩
  | fatal =>
    refine ⟨-1, ?_⟩
    rw [if_pos rfl]
    change (BaseSocket.handleClose E this >>= fun _ => pure (-1)) _ = _
    rw [bind_of_ok (handleClose_eq ha' hm)]
    rfl

/-- **`send` on a reset connection** ends the process. -/
theorem send_pipe (buf : List UInt8) (ha : w.dead this = false) (hl : ¬ toInt size < 1)
    (ho : w.descs (w.objs this).sock ≠ none) (hp : E.send w.nsend = .pipe) :
    BaseSocket.send E this (some buf) size w =
      .error .sigpipe (w.sent E (w.objs this).sock (buf.take (toInt size).toNat)) := by
  unfold BaseSocket.send
  rw [alive_bind ha, bind_of_ok run_obj, bind_of_error (cpSend_pipe hl ho hp)]

/-- **`send` on a descriptor that is gone** closes the handler, once more. -/
theorem send_gone (ha : w.dead this = false) (h : (w.objs this).p_handlers = some m)
    (hl : ¬ toInt size < 1) (ho : w.descs (w.objs this).sock = none) :
    BaseSocket.send E this (some buf) size w =
      .ok (-1) ((w.logged (.send (w.objs this).sock)).handleClosed E this m) := by
  have hm : ((w.logged (.send (w.objs this).sock)).objs this).p_handlers = some m := h
  have ha' : (w.logged (.send (w.objs this).sock)).dead this = false := ha
  unfold BaseSocket.send
  rw [alive_bind ha, bind_of_ok run_obj, bind_of_ok (cpSend_gone hl ho)]
  simp only [if_true, Bool.false_eq_true, if_false]
  rw [bind_of_ok (handleClose_eq ha' hm)]
  rfl

/-- **`send` of a handler that was destroyed.** -/
theorem send_dead {p : Option (List UInt8)} (ha : w.dead this = true) :
    BaseSocket.send E this p size w = .error .destroyed w := dead_bind ha

theorem send_nothing {p : Option (List UInt8)} (ha : w.dead this = false) (h : p = none ∨ toInt size < 1) :
    BaseSocket.send E this p size w = .ok 0 w := by
  unfold BaseSocket.send
  rw [alive_bind ha, bind_of_ok run_obj, bind_of_ok (cpSend_nothing h)]
  rfl

/-- What the system answers on an open descriptor. -/
theorem getsockopt_open {sock : ℤ} (ho : w.descs sock ≠ none) :
    getsockopt E sock w =
      .ok (E.getsockopt w.ngetsockopt) { w with ngetsockopt := w.ngetsockopt + 1 } := by
  unfold getsockopt
  rw [get_bind, if_neg ho]
  rfl

/-! ### Receiving -/

/-- `w` after the system has answered a `recv`. -/
def World.received (w : World) (sock : ℤ) : World :=
  { w.logged (.recv sock) with nrecv := w.nrecv + 1 }

/-- A null pointer or no length: the system is not called. -/
theorem cpRecv_nothing {p : Bool} {len : ℕ} (h : p = false ∨ len < 1) :
    cpRecv E sock p len w = .ok (0, []) w := by
  unfold cpRecv
  rw [if_pos h]
  rfl

/-- **`cp_recv`** logs the call, and makes it if the descriptor is open. -/
theorem cpRecv_cases (E : Env) (w : World) (sock : ℤ) {len : ℕ} (hl : 0 < len) :
    (w.descs sock = none ∧ cpRecv E sock true len w = .ok (-1, []) (w.logged (.recv sock))) ∨
      w.descs sock ≠ none ∧
        ((∃ bs, E.recv w.nrecv = .data bs ∧
            cpRecv E sock true len w = .ok (((bs.take len).length : ℤ), bs.take len) (w.received sock)) ∨
          (∀ bs, E.recv w.nrecv ≠ .data bs) ∧
            cpRecv E sock true len w = .ok (-1, []) (w.received sock)) := by
  have hn : (w.logged (.recv sock)).nrecv = w.nrecv := rfl
  unfold cpRecv
  rw [if_neg (by simp; omega), bind_of_ok run_act, get_bind, hn]
  by_cases ho : w.descs sock = none
  · have ho' : (w.logged (.recv sock)).descs sock = none := ho
    rw [if_pos ho']
    exact .inl ⟨ho, rfl⟩
  · have ho' : ¬ (w.logged (.recv sock)).descs sock = none := ho
    rw [if_neg ho', bind_of_ok run_set]
    refine .inr ⟨ho, ?_⟩
    cases hr : E.recv w.nrecv with
    | data bs => exact .inl ⟨bs, rfl, rfl⟩
    | wouldBlock => exact .inr ⟨by simp, rfl⟩
    | fatal => exact .inr ⟨by simp, rfl⟩

/-- **`recv` of bytes** hands them on. -/
theorem recv_data {bs : List UInt8} {len : ℕ} (ha : w.dead this = false) (hl : 0 < len) (hi : len < 2 ^ 31)
    (ho : w.descs (w.objs this).sock ≠ none) (hd : E.recv w.nrecv = .data bs) (hne : bs ≠ []) :
    BaseSocket.recv E this true len w =
      .ok (((bs.take len).length : ℤ), bs.take len) (w.received (w.objs this).sock) := by
  have hrun : cpRecv E (w.objs this).sock true len w =
      .ok (((bs.take len).length : ℤ), bs.take len) (w.received (w.objs this).sock) := by
    rcases cpRecv_cases E w (w.objs this).sock hl with ⟨hn, -⟩ | ⟨-, h⟩
    · exact absurd hn ho
    · rcases h with ⟨bs', hbs, hrun⟩ | ⟨hno, -⟩
      · rw [hd] at hbs
        cases hbs
        exact hrun
      · exact absurd hd (hno bs)
  have hpos : 0 < (bs.take len).length := by
    have := List.length_pos_iff.2 hne
    rw [List.length_take]
    omega
  unfold BaseSocket.recv
  rw [alive_bind ha, bind_of_ok run_obj, intToSize_toInt hi, bind_of_ok hrun]
  dsimp only
  rw [if_neg (by omega), if_neg (by omega)]
  rfl

/-! ### Callbacks and events -/

/-- Reading is what a client does on `handle_read`. -/
theorem handleRead_virus (ha : w.dead this = false) (hc : (w.objs this).cls = .virusHandler) :
    BaseSocket.handleRead E this w = VirusHandler.handleRead E this (w.logged (.callback this .read)) := by
  unfold BaseSocket.handleRead
  rw [alive_bind ha, bind_of_ok run_act, bind_of_ok run_obj, World.logged_objs, hc]

theorem handleWrite_virus (ha : w.dead this = false) (hc : (w.objs this).cls = .virusHandler) :
    BaseSocket.handleWrite E this w = VirusHandler.handleWrite E this (w.logged (.callback this .write)) := by
  unfold BaseSocket.handleWrite
  rw [alive_bind ha, bind_of_ok run_act, bind_of_ok run_obj, World.logged_objs, hc]

/-- Only a client writes. -/
theorem handleWrite_other (ha : w.dead this = false) (hc : (w.objs this).cls ≠ .virusHandler) :
    BaseSocket.handleWrite E this w = .ok ⟨⟩ (w.logged (.callback this .write)) := by
  unfold BaseSocket.handleWrite
  rw [alive_bind ha, bind_of_ok run_act, bind_of_ok run_obj, World.logged_objs]
  cases hcls : (w.objs this).cls with
  | baseSocket => rfl
  | socketHandler => rfl
  | tcpServerImpl => rfl
  | virusHandler => exact absurd hcls hc

/-- Only a listener takes connections in. -/
theorem handleAccept_other (ha : w.dead this = false) (hc : (w.objs this).cls ≠ .tcpServerImpl) :
    BaseSocket.handleAccept E this w = .ok ⟨⟩ (w.logged (.callback this .accept)) := by
  unfold BaseSocket.handleAccept
  rw [alive_bind ha, bind_of_ok run_act, bind_of_ok run_obj, World.logged_objs]
  cases hcls : (w.objs this).cls with
  | baseSocket => rfl
  | socketHandler => rfl
  | virusHandler => rfl
  | tcpServerImpl => exact absurd hcls hc

/-- A read event of a handler that accepts. -/
theorem handleReadEvent_accepting (ha : (w.objs this).accepting = true) :
    BaseSocket.handleReadEvent E this w = BaseSocket.handleAccept E this w := by
  unfold BaseSocket.handleReadEvent
  rw [bind_of_ok run_obj, if_pos ha]

/-- A read event of a handler that is not accepting, nor in the middle of connecting. -/
theorem handleReadEvent_reading (ha : (w.objs this).accepting = false)
    (hcon : (w.objs this).connecting = false) :
    BaseSocket.handleReadEvent E this w = BaseSocket.handleRead E this w := by
  unfold BaseSocket.handleReadEvent
  rw [bind_of_ok run_obj, if_neg (by rw [ha]; decide)]
  by_cases hc : (!(w.objs this).connected) = true
  · rw [if_pos hc, if_neg (by rw [hcon]; decide)]
  · rw [if_neg hc]

/-- The same of a write event. -/
theorem handleWriteEvent_writing (ha : (w.objs this).accepting = false)
    (hcon : (w.objs this).connecting = false) :
    BaseSocket.handleWriteEvent E this w = BaseSocket.handleWrite E this w := by
  unfold BaseSocket.handleWriteEvent
  rw [bind_of_ok run_obj, if_neg (by rw [ha]; decide)]
  by_cases hc : (!(w.objs this).connected) = true
  · rw [if_pos hc, if_neg (by rw [hcon]; decide)]
  · rw [if_neg hc]

end DocFerry
