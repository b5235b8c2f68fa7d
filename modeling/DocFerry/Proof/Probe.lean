import DocFerry.Proof.Admit
import DocFerry.Proof.Refused

/-!
# The connect check

`handle_connect_event` and `handle_expt_event` look at the result of `getsockopt` for the
pending error. With no place given for the error the call itself fails, so they take
every socket for a broken one; and what closes a registered handler destroys it.

* `unasked_callbacks`: only the connect event invokes `handle_connect`.
* `attempt_faults`: an event ends an attempt by calling a handler that it has just destroyed.
* `exptEvent_closes`: what an exception event does, whatever the error.
* `probed_iff`: when the events do what they are for.
-/

namespace DocFerry

open Prog

variable {E : Env} {w w' : World} {this m : ℕ} {e : ℤ} {r : EStateM.Result Fault World Unit}

/-- `getsockopt` fails when it is given no place for the value of the option. -/
def NullFails (E : Env) : Prop := ∀ i, E.getsockopt i = -1

/-- The handler `this` is there, and registered in the map `m`. -/
structure Entered (m this : ℕ) (w : World) : Prop where
  alive : w.dead this = false
  map : (w.objs this).p_handlers = some m
  own : ∃ c, w.look m (w.objs this).sock = some ⟨this, c⟩

/-- The call has returned, and has closed the handler and its descriptor. -/
def Closes (this : ℕ) (w : World) (r : EStateM.Result Fault World Unit) : Prop :=
  ∃ w' l, r = .ok ⟨⟩ w' ∧ w'.log = w.log ++ l ∧ (∃ a ∈ l, a.closes this = true) ∧
    w'.descs (w.objs this).sock = none

/-- How a read or write event is to end a connection attempt, `e` the pending error: with the
handler connected, or with the handler closed. -/
def Resolves (e : ℤ) (this : ℕ) (w : World) (r : EStateM.Result Fault World Unit) : Prop :=
  if e = 0 then
    ∃ w' l, r = .ok ⟨⟩ w' ∧ w'.log = w.log ++ l ∧ .callback this .connect ∈ l ∧
      (w'.objs this).connected = true ∧ (w'.objs this).connecting = false
  else Closes this w r ∧ ∃ l, (final r).log = w.log ++ l ∧ .callback this .connect ∉ l

/-- How an exception event is to end, `e` the pending error. -/
def Excepts (e : ℤ) (this : ℕ) (w : World) (r : EStateM.Result Fault World Unit) : Prop :=
  ∃ w' l, r = .ok ⟨⟩ w' ∧ w'.log = w.log ++ l ∧ (.callback this .expt ∈ l ↔ e = 0) ∧
    (e ≠ 0 → .callback this .close ∈ l)

/-! ### What invokes `handle_connect` -/

/-- Between `w` and `w'`, `handle_connect` of `this` was not invoked. -/
def Unasked (this : ℕ) (w w' : World) : Prop := ∃ l, w'.log = w.log ++ l ∧ .callback this .connect ∉ l

theorem Unasked.of_same (h : w'.log = w.log) : Unasked this w w' := ⟨[], by simp [h], List.not_mem_nil⟩

theorem Unasked.trans (w w' w'' : World) (h : Unasked this w w') (h' : Unasked this w' w'') :
    Unasked this w w'' := by
  obtain ⟨l, hl, hn⟩ := h
  obtain ⟨l', hl', hn'⟩ := h'
  refine ⟨l ++ l', by rw [hl', hl, List.append_assoc], fun hmem => ?_⟩
  exact (List.mem_append.1 hmem).elim hn hn'

theorem close_unasked : Steps (Unasked this) (BaseSocket.close E this) :=
  steps_close (fun _ => .of_same rfl) fun _ _ _ => ⟨[_], rfl, by simp⟩

/-- **Only the connect event** invokes `handle_connect`: no callback of any class does. -/
theorem unasked_callbacks : HandlerRules E this (Unasked this) where
  refl _ := .of_same rfl
  trans := Unasked.trans
  idle _ _ l _ _ hl hn _ := ⟨l, hl, hn⟩
  sent _ _ _ := ⟨[.send _], rfl, by simp⟩
  handleClose := by
    apply handleClose_of_close
    · exact fun _ => .of_same rfl
    · exact Unasked.trans
    · exact fun w => ⟨[.callback this .close], rfl, by simp⟩
    · exact close_unasked
  virus _ _ := .of_same rfl
  disk _ _ := .of_same rfl

/-! ### The probe -/

/-- **The probe fails** on every socket, open or not. -/
theorem getsockopt_null (hE : NullFails E) (sock : ℤ) (w : World) :
    ∃ n, getsockopt E sock w = .ok (-1) { w with ngetsockopt := n } := by
  unfold getsockopt
  rw [get_bind]
  by_cases ho : w.descs sock = none
  · rw [if_pos ho]
    exact ⟨w.ngetsockopt, rfl⟩
  · rw [if_neg ho, ← hE w.ngetsockopt]
    exact ⟨w.ngetsockopt + 1, rfl⟩

/-- Closing a registered handler destroys it. -/
theorem Entered.handleClosed_dead (h : Entered m this w) : (w.handleClosed E this m).dead this = true := by
  obtain ⟨c, hc⟩ := h.own
  refine World.closed_dead.2 (.inr ⟨⟨this, c⟩, ?_, rfl⟩)
  exact hc

/-- **`handle_connect_event`** closes the handler, whatever has become of the connection, and so
destroys it. -/
theorem connectEvent_destroys (hE : NullFails E) (h : Entered m this w) :
    ∃ w', BaseSocket.handleConnectEvent E this w = .ok ⟨⟩ w' ∧ w'.dead this = true := by
  obtain ⟨n, hopt⟩ := getsockopt_null hE (w.objs this).sock w
  set w₁ : World := ({ w with ngetsockopt := n } : World).logged (.callback this .error) with hw₁
  have h₁ : Entered m this w₁ := ⟨h.alive, h.map, h.own⟩
  refine ⟨w₁.handleClosed E this m, ?_, h₁.handleClosed_dead⟩
  unfold BaseSocket.handleConnectEvent BaseSocket.handleError
  have ha : ({ w with ngetsockopt := n } : World).dead this = false := h.alive
  rw [bind_of_ok run_obj, bind_of_ok hopt, if_pos (by decide), alive_bind ha, bind_of_ok run_act]
  exact handleClose_eq h₁.alive h₁.map

/-- **An event of a handler in the middle of connecting** comes to a call of a handler that is gone. -/
theorem attempt_faults (hE : NullFails E) (h : Entered m this w) {x : Proc Unit}
    (hx : ∀ w', w'.dead this = true → x w' = .error .destroyed w') :
    ∃ w', (BaseSocket.handleConnectEvent E this >>= fun _ => x) w = .error .destroyed w' := by
  obtain ⟨w', hrun, hd⟩ := connectEvent_destroys hE h
  exact ⟨w', by rw [bind_of_ok hrun, hx w' hd]⟩

/-- `w` after an exception event of `this`. -/
def World.excepted (w : World) (E : Env) (this m n : ℕ) : World :=
  ({ w with ngetsockopt := n } : World).handleClosed E this m

/-- **`handle_expt_event`** closes the handler likewise, and returns. -/
theorem exptEvent_closes (hE : NullFails E) (h : Entered m this w) :
    ∃ n, BaseSocket.handleExptEvent E this w = .ok ⟨⟩ (w.excepted E this m n) := by
  obtain ⟨n, hopt⟩ := getsockopt_null hE (w.objs this).sock w
  refine ⟨n, ?_⟩
  have h₁ : Entered m this ({ w with ngetsockopt := n } : World) := ⟨h.alive, h.map, h.own⟩
  unfold BaseSocket.handleExptEvent
  rw [bind_of_ok run_obj, bind_of_ok hopt, if_neg (by decide)]
  exact handleClose_eq h₁.alive h₁.map

/-- **The descriptor** of a handler that an exception event closes goes with it only if the memory of the
destroyed handler still holds the number. -/
theorem exptEvent_descriptor (hE : NullFails E) (h : Entered m this w)
    (ho : w.descs (w.objs this).sock ≠ none) :
    (final (BaseSocket.handleExptEvent E this w)).descs (w.objs this).sock = none ↔
      E.freed w.nfreed = true := by
  obtain ⟨n, hrun⟩ := exptEvent_closes hE h
  rw [hrun, final_ok]
  set w₁ := ({ w with ngetsockopt := n } : World).logged (.callback this .close) with hw₁
  have h₁ : Entered m this w₁ := ⟨h.alive, h.map, h.own⟩
  change (w₁.closed E this m).descs (w₁.objs this).sock = none ↔ E.freed w₁.nfreed = true
  cases hr : w₁.reaches E this m with
  | true =>
    refine iff_of_true (World.closed_descs_self hr) ?_
    by_contra hf
    have hgone : w₁.reaches E this m = false :=
      World.reaches_eq_false.2 ⟨h₁.handleClosed_dead (E := E), Bool.eq_false_iff.2 hf⟩
    rw [hr] at hgone
    cases hgone
  | false =>
    rw [World.closed_descs_lost hr, (World.reaches_eq_false.1 hr).2]
    exact iff_of_false ho (by decide)

/-! ### The events -/

/-- **Where `handle_connect` is not invoked**, an attempt is resolved only if there is an error
and the handler is closed. -/
theorem Unasked.resolves_iff (h : Unasked this w (final r)) :
    Resolves e this w r ↔ e ≠ 0 ∧ Closes this w r := by
  obtain ⟨l, hl, hn⟩ := h
  unfold Resolves
  by_cases he : e = 0
  · rw [if_pos he]
    refine iff_of_false ?_ fun h => h.1 he
    rintro ⟨w', l', rfl, hl', hmem, -⟩
    rw [List.append_cancel_left (hl'.symm.trans hl)] at hmem
    exact hn hmem
  · rw [if_neg he]
    exact ⟨fun h => ⟨he, h.1⟩, fun h => ⟨h.2, l, hl, hn⟩⟩

/-- A call that does not return resolves no attempt. -/
theorem not_resolves_error {f : Fault} : ¬ Resolves e this w (.error f w') := by
  unfold Resolves Closes
  split
  · rintro ⟨w₁, l, h, -⟩
    cases h
  · rintro ⟨⟨w₁, l, h, -⟩, -⟩
    cases h

/-- A connection that comes in resolves no attempt. -/
theorem accept_resolves (h : Entered m this w) : ¬ Resolves e this w (BaseSocket.handleAccept E this w) := by
  have hlog := handleAccept_log (E := E) h.alive h.map
  have hun : Unasked this w (final (BaseSocket.handleAccept E this w)) := ⟨_, hlog, by simp⟩
  rw [hun.resolves_iff]
  rintro ⟨-, w', l, hrun, hl, ⟨a, ha, hcl⟩, -⟩
  rw [hrun, final_ok] at hlog
  rw [List.append_cancel_left (hl.symm.trans hlog), List.mem_singleton] at ha
  subst ha
  cases hcl

/-- The callback of an event, behind the connection check: it ends an attempt only if the handler counts
as connected all the same. -/
theorem check_resolves_iff (hE : NullFails E) (h : Entered m this w) (hc : (w.objs this).connecting = true)
    {x : Proc Unit} (hx : Steps (Unasked this) x)
    (hxd : ∀ w', w'.dead this = true → x w' = .error .destroyed w') :
    Resolves e this w ((if !(w.objs this).connected then
        (if (w.objs this).connecting then BaseSocket.handleConnectEvent E this >>= fun _ => x else x)
        else x) w) ↔
      e ≠ 0 ∧ (w.objs this).connected = true ∧ Closes this w (x w) := by
  by_cases hcon : (w.objs this).connected = true
  · rw [if_neg (by simp [hcon]), Unasked.resolves_iff (hx w)]
    exact ⟨fun hr => ⟨hr.1, hcon, hr.2⟩, fun hr => ⟨hr.1, hr.2.2⟩⟩
  · rw [if_pos (by simpa using hcon), if_pos hc]
    obtain ⟨w', hrun⟩ := attempt_faults hE h hxd
    rw [hrun]
    exact iff_of_false not_resolves_error fun hr => hcon hr.2.1

/-- **A read event** of a handler in the middle of connecting. -/
theorem readEvent_resolves_iff (hE : NullFails E) (h : Entered m this w)
    (hc : (w.objs this).connecting = true) (e : ℤ) :
    Resolves e this w (BaseSocket.handleReadEvent E this w) ↔
      e ≠ 0 ∧ (w.objs this).accepting = false ∧ (w.objs this).connected = true ∧
        Closes this w (BaseSocket.handleRead E this w) := by
  by_cases ha : (w.objs this).accepting = true
  · rw [handleReadEvent_accepting ha]
    exact iff_of_false (accept_resolves h) (fun hf => by rw [ha] at hf; cases hf.2.1)
  have ha' : (w.objs this).accepting = false := by simpa using ha
  unfold BaseSocket.handleReadEvent
  rw [bind_of_ok run_obj, if_neg ha, ha']
  refine (check_resolves_iff hE h hc unasked_callbacks.handleRead fun w' hd => dead_bind hd).trans ?_
  exact ⟨fun hr => ⟨hr.1, rfl, hr.2⟩, fun hr => ⟨hr.1, hr.2.2⟩⟩

/-- **A write event** of a handler in the middle of connecting. -/
theorem writeEvent_resolves_iff (hE : NullFails E) (h : Entered m this w)
    (hc : (w.objs this).connecting = true) (e : ℤ) :
    Resolves e this w (BaseSocket.handleWriteEvent E this w) ↔
      e ≠ 0 ∧ (w.objs this).accepting = false ∧ (w.objs this).connected = true ∧
        Closes this w (BaseSocket.handleWrite E this w) := by
  unfold BaseSocket.handleWriteEvent
  rw [bind_of_ok run_obj]
  by_cases ha : (w.objs this).accepting = true
  · -- a listener does not look at its socket
    rw [if_pos ha]
    have hun : Unasked this w (final (.ok ⟨⟩ w : EStateM.Result Fault World Unit)) := .of_same rfl
    have hno : ¬ Resolves e this w (.ok ⟨⟩ w) := by
      rw [hun.resolves_iff]
      rintro ⟨-, w', l, hrun, hl, ⟨a, hmem, -⟩, -⟩
      cases hrun
      rw [← List.append_cancel_left ((List.append_nil _).trans hl)] at hmem
      cases hmem
    exact iff_of_false hno (fun hf => by rw [ha] at hf; cases hf.2.1)
  have ha' : (w.objs this).accepting = false := by simpa using ha
  rw [if_neg ha, ha']
  refine (check_resolves_iff hE h hc unasked_callbacks.handleWrite fun w' hd => dead_bind hd).trans ?_
  exact ⟨fun hr => ⟨hr.1, rfl, hr.2⟩, fun hr => ⟨hr.1, hr.2.2⟩⟩

/-- **An exception event** invokes `handle_close`, which is right only if there is an error. -/
theorem exptEvent_excepts_iff (hE : NullFails E) (h : Entered m this w) (e : ℤ) :
    Excepts e this w (BaseSocket.handleExptEvent E this w) ↔ e ≠ 0 := by
  obtain ⟨n, hrun⟩ := exptEvent_closes hE h
  obtain ⟨k, hlog⟩ : ∃ k, (w.excepted E this m n).log = w.log ++ [.callback this .close, .close this k] :=
    ⟨_, by simp [World.excepted, World.handleClosed, World.closed, World.logged]; rfl⟩
  rw [hrun]
  constructor
  · rintro ⟨w', l, hw', hl, hexpt, -⟩ he
    cases hw'
    rw [List.append_cancel_left (hl.symm.trans hlog)] at hexpt
    simp [he] at hexpt
  · intro he
    exact ⟨_, _, rfl, hlog, by simp [he], fun _ => by simp⟩

/-- **The connect check** ends an attempt as the pending error `e` says only of a handler that counts as
connected already, and the exception event tells an exception from an error exactly when there is an
error. -/
theorem probed_iff (hE : NullFails E) (h : Entered m this w) (hc : (w.objs this).connecting = true) (e : ℤ) :
    (Resolves e this w (BaseSocket.handleReadEvent E this w) ↔
      e ≠ 0 ∧ (w.objs this).accepting = false ∧ (w.objs this).connected = true ∧
        Closes this w (BaseSocket.handleRead E this w)) ∧
    (Resolves e this w (BaseSocket.handleWriteEvent E this w) ↔
      e ≠ 0 ∧ (w.objs this).accepting = false ∧ (w.objs this).connected = true ∧
        Closes this w (BaseSocket.handleWrite E this w)) ∧
    (Excepts e this w (BaseSocket.handleExptEvent E this w) ↔ e ≠ 0) :=
  ⟨readEvent_resolves_iff hE h hc e, writeEvent_resolves_iff hE h hc e, exptEvent_excepts_iff hE h e⟩

/-- A system that goes on connecting, and whose `getsockopt` needs a place for the value. -/
def Env.dialling : Env :=
  { Env.steady with connect := fun _ => .fail .inProgress, getsockopt := fun _ => -1 }

/-- The process whose handler waits for its connection. -/
def World.attempt : World := final (BaseSocket.connect .dialling 0 ("10.0.0.1", 80) (.socketed .dialling))

theorem World.attempt_entered : Entered 0 0 World.attempt :=
  ⟨by decide +kernel, by decide +kernel, 0, by decide +kernel⟩

/-- A connection that was refused (`ECONNREFUSED`). -/
theorem probed_iff_refused :
    (Resolves 111 0 .attempt (BaseSocket.handleReadEvent .dialling 0 .attempt) ↔
      (111 : ℤ) ≠ 0 ∧ (World.attempt.objs 0).accepting = false ∧ (World.attempt.objs 0).connected = true ∧
        Closes 0 .attempt (BaseSocket.handleRead .dialling 0 .attempt)) ∧
    (Resolves 111 0 .attempt (BaseSocket.handleWriteEvent .dialling 0 .attempt) ↔
      (111 : ℤ) ≠ 0 ∧ (World.attempt.objs 0).accepting = false ∧ (World.attempt.objs 0).connected = true ∧
        Closes 0 .attempt (BaseSocket.handleWrite .dialling 0 .attempt)) ∧
    (Excepts 111 0 .attempt (BaseSocket.handleExptEvent .dialling 0 .attempt) ↔ (111 : ℤ) ≠ 0) :=
  probed_iff (m := 0) (fun _ => rfl) World.attempt_entered (by decide +kernel) 111

/-- A connection that was made is not resolved by its first event, nor is one that was refused, and a
handler without an error takes an exception for one. -/
theorem attempt_never_connected :
    (World.attempt.objs 0).connecting = true ∧
    ¬ Resolves 0 0 .attempt (BaseSocket.handleReadEvent .dialling 0 .attempt) ∧
    ¬ Resolves 0 0 .attempt (BaseSocket.handleWriteEvent .dialling 0 .attempt) ∧
    ¬ Excepts 0 0 .attempt (BaseSocket.handleExptEvent .dialling 0 .attempt) ∧
    ¬ Resolves 111 0 .attempt (BaseSocket.handleReadEvent .dialling 0 .attempt) := by
  have hE : NullFails .dialling := fun _ => rfl
  have h := World.attempt_entered
  have hc : (World.attempt.objs 0).connecting = true := by decide +kernel
  have hn : (World.attempt.objs 0).connected = false := by decide +kernel
  refine ⟨hc, fun hr => ?_, fun hr => ?_, fun hr => ?_, fun hr => ?_⟩
  · exact ((readEvent_resolves_iff hE h hc 0).1 hr).1 rfl
  · exact ((writeEvent_resolves_iff hE h hc 0).1 hr).1 rfl
  · exact (exptEvent_excepts_iff hE h 0).1 hr rfl
  · have hcon := ((readEvent_resolves_iff hE h hc 111).1 hr).2.2.1
    rw [hn] at hcon
    cases hcon

end DocFerry
