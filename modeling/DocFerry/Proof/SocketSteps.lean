import DocFerry.Proof.Calls

/-!
# The calls on a socket, as steps of a relation

`RecvRules E this R`: what a relation `R` between states of the process needs so that the calls of
`BaseSocket` on the socket of `this` that send nothing are steps of it; `CallRules` for all its calls,
`SocketRules` for the connect event besides, and `HandlerRules` for the callbacks of every class.
Relations that say what an event leaves alone are proved from the rules.
-/

namespace DocFerry

open Prog

/-- Is it the delivery of an event? -/
def Act.isEvent : Act → Bool
  | .event .. => true
  | _ => false

/-- Is it a callback, or a call on a descriptor that leaves it open? -/
def Act.isCall : Act → Bool
  | .callback .. | .send _ | .recv _ => true
  | .event .. | .close .. => false

theorem Act.isEvent_of_isCall {a : Act} (h : a.isCall = true) : a.isEvent = false := by
  cases a with
  | event this sock bit => cases h
  | callback this cb => rfl
  | send sock => rfl
  | recv sock => rfl
  | close this sock => rfl

/-- Only the log has changed, and counters of calls on descriptors. -/
structure Idle (w w' : World) : Prop where
  log : ∃ l, w'.log = w.log ++ l ∧ ∀ a ∈ l, a.isCall = true
  objs : w'.objs = w.objs
  nobj : w'.nobj = w.nobj
  dead : w'.dead = w.dead
  nfreed : w'.nfreed = w.nfreed
  naccept : w'.naccept = w.naccept
  ngetpeername : w'.ngetpeername = w.ngetpeername
  maps : w'.maps = w.maps
  descs : w'.descs = w.descs
  disk : w'.disk = w.disk

theorem Idle.sent (w : World) (E : Env) (sock : ℤ) (buf : List UInt8) : Idle w (w.sent E sock buf) :=
  ⟨⟨[.send sock], rfl, by simp [Act.isCall]⟩, rfl, rfl, rfl, rfl, rfl, rfl, rfl, rfl, rfl⟩

theorem Idle.logged (w : World) {a : Act} (ha : a.isCall = true) : Idle w (w.logged a) :=
  ⟨⟨[a], rfl, by simpa using ha⟩, rfl, rfl, rfl, rfl, rfl, rfl, rfl, rfl, rfl⟩

/-- What the calls on the socket of `this` are made of that send nothing. An object that was destroyed
makes none. -/
structure RecvRules (E : Env) (this : ℕ) (R : World → World → Prop) : Prop where
  refl : ∀ w, R w w
  trans : ∀ w w' w'', R w w' → R w' w'' → R w w''
  idle : ∀ w w' l, Idle w w' → w'.out = w.out → w'.log = w.log ++ l → .callback this .connect ∉ l →
    (w.dead this = true → l = []) → R w w'
  handleClose : Steps R (BaseSocket.handleClose E this)

/-- What all the calls on the socket of `this` are made of. -/
structure CallRules (E : Env) (this : ℕ) (R : World → World → Prop) : Prop extends RecvRules E this R where
  sent : ∀ (w : World) buf, w.dead this = false → R w (w.sent E (w.objs this).sock buf)

/-- What the calls on the socket of `this` and its connect event are made of. -/
structure SocketRules (E : Env) (this : ℕ) (R : World → World → Prop) : Prop where
  refl : ∀ w, R w w
  trans : ∀ w w' w'', R w w' → R w' w'' → R w w''
  idle : ∀ w w', Idle w w' → (w.dead this = true → w'.log = w.log) → R w w'
  connected : Steps R (assign this ({ · with connected := true, connecting := false }))
  handleClose : Steps R (BaseSocket.handleClose E this)

/-- What the callbacks of `this` are made of, whatever its class. -/
structure HandlerRules (E : Env) (this : ℕ) (R : World → World → Prop) : Prop extends CallRules E this R where
  virus : ∀ f : VirusHandler → VirusHandler, Steps R (assign this fun o => { o with virus := f o.virus })
  disk : ∀ (w : World) d, R w { w with disk := d }

variable {E : Env} {this : ℕ} {R : World → World → Prop}

/-- A relation that a look at the object and idle steps keep allows `handle_close` if it allows `close`. -/
theorem handleClose_of_close (hr : ∀ w, R w w) (ht : ∀ w w' w'', R w w' → R w' w'' → R w w'')
    (hi : ∀ w, R w (w.logged (.callback this .close))) (hc : Steps R (BaseSocket.close E this)) :
    Steps R (BaseSocket.handleClose E this) := by
  intro w
  unfold BaseSocket.handleClose
  cases ha : w.dead this with
  | true => rw [dead_bind ha]; exact hr w
  | false =>
    rw [alive_bind ha, bind_of_ok run_act]
    exact ht _ _ _ (hi w) (hc _)

/-- A `recv` that gets no bytes says so. -/
theorem recv_none {w w' : World} {len : ℕ} (hno : ∀ bs, E.recv w.nrecv = .data bs → bs = []) (hl : 0 < len)
    (hi : len < 2 ^ 31) {nread : ℤ} {bs : List UInt8}
    (hrun : BaseSocket.recv E this true len w = .ok (nread, bs) w') : nread = 0 ∨ nread = -1 := by
  have ha : w.dead this = false := by
    cases hd : w.dead this with
    | false => rfl
    | true =>
      rw [show BaseSocket.recv E this true len w = _ from dead_bind hd] at hrun
      cases hrun
  unfold BaseSocket.recv at hrun
  rw [alive_bind ha, bind_of_ok run_obj, intToSize_toInt hi, bind_eq_ok] at hrun
  obtain ⟨⟨ret, bs'⟩, w₁, hcp, hrest⟩ := hrun
  have hret : ret = 0 ∨ ret = -1 := by
    rcases cpRecv_cases E w (w.objs this).sock hl with ⟨-, h⟩ | ⟨-, ⟨bs'', hd, h⟩ | ⟨-, h⟩⟩
    · rw [h] at hcp
      cases hcp
      exact .inr rfl
    · rw [hno bs'' hd, List.take_nil] at h
      rw [h] at hcp
      cases hcp
      exact .inl rfl
    · rw [h] at hcp
      cases hcp
      exact .inr rfl
  -- what `recv` does besides does not change its result
  dsimp only at hrest
  rcases hret with rfl | rfl
  · rw [if_pos rfl, bind_eq_ok] at hrest
    obtain ⟨-, w₂, -, hpure⟩ := hrest
    cases hpure
    exact .inl rfl
  · rw [if_neg (by decide), if_pos rfl, bind_eq_ok] at hrest
    obtain ⟨-, w₂, -, hpure⟩ := hrest
    cases hpure
    exact .inr rfl

namespace RecvRules

variable (hR : RecvRules E this R)

include hR

theorem act {a : Act} (ha : a.isCall = true) (hne : .callback this .connect ≠ a) {w : World}
    (hd : w.dead this = false) : R w (w.logged a) :=
  hR.idle w _ [a] (.logged w ha) rfl rfl (by simpa using hne) fun h => by rw [hd] at h; cases h

theorem obj {i : ℕ} : Steps R (obj i) := fun w => hR.refl w

theorem pure {α : Type} (a : α) : Steps R (Pure.pure a : Proc α) := Steps.pure hR.refl a

theorem bind {α β : Type} {x : Proc α} {f : α → Proc β} (hx : Steps R x) (hf : ∀ a, Steps R (f a)) :
    Steps R (x >>= f) := Steps.bind hR.trans hx hf

/-- What follows on a look at the object, which must be there. -/
theorem guarded {α : Type} {x : Proc α} (hx : ∀ w, w.dead this = false → R w (final (x w))) :
    Steps R (alive this >>= fun _ => x) := by
  intro w
  cases hd : w.dead this with
  | true => rw [dead_bind hd]; exact hR.refl w
  | false => rw [alive_bind hd]; exact hx w hd

theorem alive : Steps R (alive this) := by
  intro w
  cases hd : w.dead this with
  | true => rw [run_dead hd]; exact hR.refl w
  | false => rw [run_alive hd]; exact hR.refl w

/-- A callback, which begins with its entry in the log. -/
theorem callback {α : Type} {x : Proc α} {cb : Callback} (hne : cb ≠ .connect) (hx : Steps R x) :
    Steps R (DocFerry.alive this >>= fun _ => DocFerry.act (.callback this cb) >>= fun _ => x) := by
  refine hR.guarded fun w hd => ?_
  rw [bind_of_ok run_act]
  exact hR.trans _ _ _ (hR.act rfl (by simpa using Ne.symm hne) hd) (hx _)

theorem handleError : Steps R (BaseSocket.handleError E this) := hR.callback (by decide) hR.handleClose

theorem handleExpt : Steps R (BaseSocket.handleExpt E this) := by
  refine hR.callback (by decide) (hR.bind hR.obj fun o => ?_)
  cases o.cls with
  | baseSocket => exact hR.pure _
  | tcpServerImpl => exact hR.pure _
  | socketHandler => exact hR.handleClose
  | virusHandler => exact hR.handleClose

theorem getsockopt {sock : ℤ} : Steps R (getsockopt E sock) := by
  refine Steps.get_bind fun w => ?_
  by_cases ho : w.descs sock = none
  · rw [if_pos ho]
    exact hR.refl w
  · rw [if_neg ho]
    exact hR.idle _ _ []
      ⟨⟨[], by simp [run_bind, run_set, run_pure]⟩, rfl, rfl, rfl, rfl, rfl, rfl, rfl, rfl, rfl⟩ rfl
      (by simp [run_bind, run_set, run_pure]) List.not_mem_nil fun _ => rfl

theorem cpRecv {sock : ℤ} {p : Bool} {len : ℕ} {w : World} (hd : w.dead this = false) :
    R w (final (cpRecv E sock p len w)) := by
  by_cases hn : p = false ∨ len < 1
  · rw [cpRecv_nothing hn]
    exact hR.refl w
  obtain ⟨hp, hl⟩ := not_or.1 hn
  obtain rfl : p = true := by simpa using hp
  have hrec : R w (w.received sock) := hR.idle _ _ [.recv sock]
    ⟨⟨[.recv sock], rfl, by simp [Act.isCall]⟩, rfl, rfl, rfl, rfl, rfl, rfl, rfl, rfl, rfl⟩ rfl rfl (by simp)
    fun h => by rw [hd] at h; cases h
  rcases cpRecv_cases E w sock (by omega : 0 < len) with ⟨-, h⟩ | ⟨-, ⟨bs, -, h⟩ | ⟨-, h⟩⟩
  · rw [h]
    exact hR.act (a := .recv sock) rfl (by simp) hd
  · rw [h]
    exact hrec
  · rw [h]
    exact hrec

theorem recv {p : Bool} {size : ℕ} : Steps R (BaseSocket.recv E this p size) := by
  refine hR.guarded fun w hd => ?_
  rw [bind_of_ok run_obj]
  have hcall : R w (final (DocFerry.cpRecv E (w.objs this).sock p (intToSize (toInt size)) w)) :=
    hR.cpRecv hd
  cases hrun : DocFerry.cpRecv E (w.objs this).sock p (intToSize (toInt size)) w with
  | error f w' =>
    rw [hrun] at hcall
    rw [bind_of_error hrun]
    exact hcall
  | ok r w' =>
    obtain ⟨ret, bs⟩ := r
    rw [hrun] at hcall
    rw [bind_of_ok hrun]
    have hret : ∀ u : PUnit, Steps R (Pure.pure (ret, bs) : Proc (ℤ × List UInt8)) := fun _ => hR.pure _
    refine hR.trans _ _ _ hcall (Steps.ite (hR.bind hR.handleClose hret) (Steps.ite ?_ (hret ⟨⟩)) w')
    exact hR.bind hR.handleExpt hret

theorem handleExptEvent : Steps R (BaseSocket.handleExptEvent E this) := by
  refine hR.bind hR.obj fun o => hR.bind hR.getsockopt fun err => ?_
  exact Steps.ite hR.handleExpt hR.handleClose

/-- A client from which no bytes come. -/
theorem virusRead_nothing {w : World} (hno : ∀ bs, E.recv w.nrecv = .data bs → bs = []) :
    R w (final (VirusHandler.handleRead E this w)) := by
  have hrecv : R w (final (BaseSocket.recv E this true 65535 w)) := hR.recv w
  unfold VirusHandler.handleRead
  cases hrun : BaseSocket.recv E this true 65535 w with
  | error f w₁ =>
    rw [hrun] at hrecv
    rw [bind_of_error hrun]
    exact hrecv
  | ok x w₁ =>
    obtain ⟨nread, bs⟩ := x
    rw [hrun] at hrecv
    rw [bind_of_ok hrun]
    dsimp only
    rcases recv_none hno (by decide) (by decide) hrun with rfl | rfl
    · rw [if_pos rfl]
      exact hrecv
    · rw [if_neg (by decide), if_pos rfl]
      exact hrecv

/-- `handle_read`, if no bytes come from a client. -/
theorem handleRead_nothing {w : World}
    (h : (w.objs this).cls = .virusHandler → ∀ bs, E.recv w.nrecv = .data bs → bs = []) :
    R w (final (BaseSocket.handleRead E this w)) := by
  unfold BaseSocket.handleRead
  cases hd : w.dead this with
  | true => rw [dead_bind hd]; exact hR.refl w
  | false =>
    rw [alive_bind hd, bind_of_ok run_act, bind_of_ok run_obj, World.logged_objs]
    have hlog := hR.act (a := .callback this .read) rfl (by simp) hd
    cases hc : (w.objs this).cls with
    | baseSocket => exact hlog
    | tcpServerImpl => exact hlog
    | socketHandler => exact hR.trans _ _ _ hlog (hR.bind hR.recv (fun _ => hR.pure _) _)
    | virusHandler =>
      have hno : ∀ bs, E.recv (w.logged (.callback this .read)).nrecv = .data bs → bs = [] := h hc
      exact hR.trans _ _ _ hlog (hR.virusRead_nothing hno)

end RecvRules

namespace CallRules

variable (hR : CallRules E this R)

include hR

theorem cpSend {len : ℤ} {p : Option (List UInt8)} {w : World} (hd : w.dead this = false) :
    R w (final (cpSend E (w.objs this).sock p len w)) := by
  by_cases hn : p = none ∨ len < 1
  · rw [cpSend_nothing hn]
    exact hR.refl w
  obtain ⟨hp, hl⟩ := not_or.1 hn
  obtain ⟨buf, rfl⟩ := Option.ne_none_iff_exists'.1 hp
  by_cases ho : w.descs (w.objs this).sock = none
  · rw [cpSend_gone hl ho]
    exact hR.act (a := .send (w.objs this).sock) rfl (by simp) hd
  · have hsent := hR.sent w (buf.take len.toNat) hd
    by_cases hp : E.send w.nsend = .pipe
    · rw [cpSend_pipe hl ho hp]
      exact hsent
    · rw [cpSend_open hl ho hp]
      exact hsent

theorem send {p : Option (List UInt8)} {size : ℕ} : Steps R (BaseSocket.send E this p size) := by
  refine hR.guarded fun w hd => ?_
  rw [bind_of_ok run_obj]
  have hcall : R w (final (DocFerry.cpSend E (w.objs this).sock p (toInt size) w)) := hR.cpSend hd
  cases hrun : DocFerry.cpSend E (w.objs this).sock p (toInt size) w with
  | error f w' =>
    rw [hrun] at hcall
    rw [bind_of_error hrun]
    exact hcall
  | ok r w' =>
    obtain ⟨ret, again⟩ := r
    rw [hrun] at hcall
    rw [bind_of_ok hrun]
    refine hR.trans _ _ _ hcall (Steps.ite (Steps.ite (hR.pure _) ?_) (hR.pure _) w')
    exact hR.bind hR.handleClose fun _ => hR.pure _

end CallRules

namespace SocketRules

variable (hR : SocketRules E this R)

include hR

theorem calls : CallRules E this R where
  refl := hR.refl
  trans := hR.trans
  idle w w' l h _ hl _ hd := hR.idle w w' h fun hdead => by rw [hl, hd hdead, List.append_nil]
  sent w buf hd := hR.idle w _ (.sent w E _ buf) fun h => by rw [hd] at h; cases h
  handleClose := hR.handleClose

theorem bind {α β : Type} {x : Proc α} {f : α → Proc β} (hx : Steps R x) (hf : ∀ a, Steps R (f a)) :
    Steps R (x >>= f) := Steps.bind hR.trans hx hf

theorem handleConnect : Steps R (BaseSocket.handleConnect this) := by
  refine hR.calls.guarded fun w hd => ?_
  exact hR.idle w _ (.logged w rfl) fun h => by rw [hd] at h; cases h

theorem handleConnectEvent : Steps R (BaseSocket.handleConnectEvent E this) := by
  refine hR.bind hR.calls.obj fun o => hR.bind hR.calls.getsockopt fun err => ?_
  exact Steps.ite hR.calls.handleError (hR.bind hR.handleConnect fun _ => hR.connected)

/-- A callback behind the connection check. -/
theorem connecting {x : Proc PUnit} (o : BaseSocket) (hx : Steps R x) :
    Steps R (if o.connecting then (BaseSocket.handleConnectEvent E this >>= fun _ => x) else x) :=
  Steps.ite (hR.bind hR.handleConnectEvent fun _ => hx) hx

theorem handleWriteEvent (hx : Steps R (BaseSocket.handleWrite E this)) :
    Steps R (BaseSocket.handleWriteEvent E this) := by
  refine hR.bind hR.calls.obj fun o => Steps.ite (hR.calls.pure _) ?_
  exact Steps.ite (hR.connecting o hx) hx

end SocketRules

/-! ### The callbacks -/

/-- One block of a value: popped, and sent if there was any. -/
theorem sendValue_succ (n : ℕ) (c : Cache) (w : World) :
    VirusHandler.sendValue E this (n + 1) c w =
      match cachePop E.toLibC w.disk c 4096 with
      | (nread, buf, c, d) =>
        if nread > 0 then
          (BaseSocket.send E this (some buf) nread >>= fun _ => VirusHandler.sendValue E this n c) { w with disk := d }
        else .ok c { w with disk := d } := by
  conv_lhs => unfold VirusHandler.sendValue
  rw [get_bind]
  generalize cachePop E.toLibC w.disk c 4096 = p
  obtain ⟨nread, buf, c', d⟩ := p
  dsimp only
  rw [bind_of_ok run_set]
  split <;> rfl

namespace HandlerRules

variable (hR : HandlerRules E this R)

include hR

theorem sendValue (n : ℕ) (c : Cache) : Steps R (VirusHandler.sendValue E this n c) := by
  induction n generalizing c with
  | zero => exact Steps.throw hR.refl _
  | succ n ih =>
    intro w
    rw [sendValue_succ]
    generalize cachePop E.toLibC w.disk c 4096 = p
    obtain ⟨nread, buf, c', d⟩ := p
    dsimp only
    by_cases hn : nread > 0
    · rw [if_pos hn]
      exact hR.trans _ _ _ (hR.disk w d) (hR.bind hR.send (fun _ => ih c') _)
    · rw [if_neg hn]
      exact hR.disk w d

theorem sendResp (resp : HV) : Steps R (VirusHandler.sendResp E this resp) := by
  unfold VirusHandler.sendResp
  cases resp.value with
  | none => exact hR.pure _
  | some c =>
    refine hR.bind hR.send fun _ => hR.bind (hR.sendValue _ c) fun c' => ?_
    exact Steps.get_bind fun w => hR.disk w _

theorem writeLoop (n : ℕ) : Steps R (VirusHandler.writeLoop E this n) := by
  induction n with
  | zero => exact hR.alive
  | succ n ih =>
    refine hR.bind hR.alive fun _ => hR.bind hR.obj fun o => ?_
    cases o.virus.resp with
    | nil => exact hR.pure _
    | cons resp rest =>
      refine hR.bind (hR.virus fun v => { v with resp := rest }) fun _ => ?_
      exact hR.bind (hR.sendResp resp) fun _ => ih

theorem virusWrite : Steps R (VirusHandler.handleWrite E this) :=
  hR.bind hR.obj fun _ => hR.writeLoop _

theorem virusRead : Steps R (VirusHandler.handleRead E this) := by
  refine hR.bind hR.recv ?_
  rintro ⟨nread, buf⟩
  refine Steps.ite (hR.pure _) (Steps.ite (hR.pure _) ?_)
  refine Steps.get_bind fun w => ?_
  cases VirusHandler.readLoop E.toLibC E.fuel (w.objs this).virus w.disk buf with
  | error f => exact hR.refl w
  | ok r =>
    obtain ⟨virus, d⟩ := r
    exact hR.trans _ _ _ (hR.virus (fun _ => virus) w) (hR.disk _ d)

theorem handleRead : Steps R (BaseSocket.handleRead E this) := by
  refine hR.callback (by decide) (hR.bind hR.obj fun o => ?_)
  cases o.cls with
  | baseSocket => exact hR.pure _
  | tcpServerImpl => exact hR.pure _
  | socketHandler => exact hR.bind hR.recv fun _ => hR.pure _
  | virusHandler => exact hR.virusRead

theorem handleWrite : Steps R (BaseSocket.handleWrite E this) := by
  refine hR.callback (by decide) (hR.bind hR.obj fun o => ?_)
  cases o.cls with
  | baseSocket => exact hR.pure _
  | tcpServerImpl => exact hR.pure _
  | socketHandler => exact hR.pure _
  | virusHandler => exact hR.virusWrite

end HandlerRules

end DocFerry
