import DocFerry.Proof.Local
import DocFerry.Proof.Listener

/-!
# The operations on the handlers of one map

`Keyed m w`: what is registered in the map `m` is registered under its own socket, and was not destroyed.

* `ChannelOp.run_keyed`: an operation keeps it, unless it gives a new socket to a handler
  that is registered, or is called on one that was let go.
* `channels_keyed`: so it holds in every run of such operations, and no handler has two
  entries.
-/

namespace DocFerry

open Prog

variable {E : Env} {w w' : World} {this m : ℕ} {sock : ℤ}

/-- A public operation on a handler. -/
inductive ChannelOp
  | construct (cls : HandlerClass) (sock : ℤ)
  | createSocket (this : ℕ) (type : SockType)
  | setSocket (this : ℕ) (sock : ℤ)
  | addChannel (this : ℕ)
  | delChannel (this : ℕ)
  | connect (this : ℕ) (addr : Addr)
  | listen (this : ℕ)
  | close (this : ℕ)

namespace ChannelOp

/-- The operation, with the map `m` wherever it takes one. -/
def run (E : Env) (m : ℕ) : ChannelOp → Proc Unit
  | construct cls sock => do let _ ← BaseSocket.new E cls sock (some m)
  | createSocket this type => do let _ ← BaseSocket.createSocket E this type
  | setSocket this sock => BaseSocket.setSocket this sock (some m)
  | addChannel this => BaseSocket.addChannel this (some m)
  | delChannel this => BaseSocket.delChannel this (some m)
  | connect this addr => do let _ ← BaseSocket.connect E this addr
  | listen this => do let _ ← BaseSocket.listen E this
  | close this => BaseSocket.close E this

/-- The handler that the operation is called on. -/
def handler : ChannelOp → Option ℕ
  | construct .. => none
  | createSocket this _ | setSocket this _ | addChannel this | delChannel this
  | connect this _ | listen this | close this => some this

/-- The operations that register a handler there is. -/
def registers : ChannelOp → Bool
  | createSocket .. | setSocket .. | addChannel .. => true
  | _ => false

/-- The operation is called on a handler of the map `m`. -/
def Valid (m : ℕ) (w : World) (op : ChannelOp) : Prop :=
  ∀ this, op.handler = some this → this < w.nobj ∧ (w.objs this).p_handlers = some m

/-- The handler of the operation was not let go before, and is not registered if the operation
registers it. -/
def Fresh (m : ℕ) (w : World) (op : ChannelOp) : Prop :=
  (∀ this, op.handler = some this → w.dead this = false) ∧
    (op.registers = true → ∀ k p, w.look m k = some p → op.handler ≠ some p.obj)

end ChannelOp

/-- Runs of operations that satisfy `P`. -/
def Channels (E : Env) (m : ℕ) (P : World → ChannelOp → Prop) : World → World → Prop :=
  Relation.ReflTransGen fun w w' => ∃ op, op.Valid m w ∧ P w op ∧ op.run E m w = .ok ⟨⟩ w'

/-- What is registered in the map `m` is an object that there is, under its own socket. -/
def Keyed (m : ℕ) (w : World) : Prop :=
  ∀ k p, w.look m k = some p → p.obj < w.nobj ∧ (w.objs p.obj).sock = k ∧ w.dead p.obj = false

/-! ### What the operations do -/

theorem setObj_own (w : World) (this : ℕ) :
    w.setObj this ({ · with sock := (w.objs this).sock }) = w := by
  simp [World.setObj]

/-- **`add_channel`** registers the handler under the socket that it has. -/
theorem addChannel_eq :
    BaseSocket.addChannel this (some m) w = .ok ⟨⟩ (w.registered this (w.objs this).sock m) := by
  have h : BaseSocket.setSocket this (w.objs this).sock (some m) w = _ := setSocket_eq
  unfold BaseSocket.setSocket at h
  rw [bind_of_ok run_assign, setObj_own] at h
  exact h

theorem cpConnect_local {host : Option String} {port : UInt16} :
    Steps (Local E this) (cpConnect E host port) := by
  have hn : ∀ w : World, Local E this w { w with nconnect := w.nconnect + 1 } := fun w =>
    .soft ⟨[], by simp⟩ (fun _ => ⟨rfl, rfl, rfl⟩) rfl rfl rfl rfl rfl rfl rfl
  refine Steps.get_bind fun w => ?_
  rw [bind_of_ok run_set]
  refine Local.trans _ _ _ (hn w) ?_
  generalize ({ w with nconnect := w.nconnect + 1 } : World) = w'
  revert w'
  refine Steps.ite (Local.pure _) (Steps.ite (Local.pure _) ?_)
  cases E.connect w.nconnect with
  | ok => exact Local.pure _
  | fail errno => exact Local.pure _

theorem connect_local {addr : Addr} : Steps (Local E this) (BaseSocket.connect E this addr) := by
  -- with the address stored, and the connect event when the system reports success
  have haddr : Steps (Local E this) (assign this ({ · with addr := addr })) :=
    assign_local fun _ => ⟨rfl, rfl, rfl⟩
  have hconn : Steps (Local E this) (do
      assign this ({ · with addr := addr })
      BaseSocket.handleConnectEvent E this
      return (0 : ℤ)) :=
    Local.bind haddr fun _ =>
      Local.bind handleConnectEvent_local fun _ => Local.pure _
  unfold BaseSocket.connect
  refine Local.bind (assign_local fun _ => ⟨rfl, rfl, rfl⟩) fun _ =>
    Local.bind cpConnect_local ?_
  rintro ⟨ret, errno⟩
  refine Steps.ite hconn ?_
  cases errno with
  | isConnected => exact hconn
  | inProgress => exact Local.bind haddr fun _ => Local.pure _
  | other => exact Local.pure _

theorem listen_local : Steps (Local E this) (BaseSocket.listen E this) := by
  refine Local.bind (assign_local fun _ => ⟨rfl, rfl, rfl⟩) fun _ => ?_
  refine Steps.get_bind fun w => ?_
  rw [bind_of_ok run_set]
  exact .soft ⟨[], by simp [run_pure]⟩ (fun _ => ⟨rfl, rfl, rfl⟩) rfl rfl rfl rfl rfl rfl rfl

/-! ### The invariant -/

/-- A step that makes no entry keeps the invariant, if it destroys none of the handlers that it leaves
in the map. -/
theorem Keyed.mono (hK : Keyed m w) (hn : w.nobj ≤ w'.nobj)
    (ho : ∀ k p, w.look m k = some p → (w'.objs p.obj).sock = (w.objs p.obj).sock)
    (hl : ∀ k p, w'.look m k = some p → w.look m k = some p ∧ (w.dead p.obj = false → w'.dead p.obj = false)) :
    Keyed m w' := by
  intro k p hp
  obtain ⟨hp', hd⟩ := hl k p hp
  obtain ⟨hlt, hk, ha⟩ := hK k p hp'
  exact ⟨lt_of_lt_of_le hlt hn, (ho k p hp').trans hk, hd ha⟩

/-- Handlers under different numbers are different ones. -/
theorem Keyed.apart (hK : Keyed m w) {k k' : ℤ} {p p' : SharedPtr} (hp : w.look m k = some p)
    (hp' : w.look m k' = some p') (h : p.obj = p'.obj) : k = k' := by
  rw [← (hK k p hp).2.1, h, (hK k' p' hp').2.1]

/-- **Taking an entry out** keeps the invariant. -/
theorem Keyed.erased (hK : Keyed m w) (hn : w.nobj ≤ w'.nobj)
    (ho : ∀ k p, w.look m k = some p → (w'.objs p.obj).sock = (w.objs p.obj).sock)
    (hl : ∀ k, w'.look m k = if m = m ∧ k = sock then none else w.look m k)
    (hd : ∀ i, w'.dead i = true ↔ w.dead i = true ∨ ∃ p, w.look m sock = some p ∧ p.obj = i) :
    Keyed m w' := by
  refine hK.mono hn ho fun k p hp => ?_
  rw [hl] at hp
  by_cases hk : m = m ∧ k = sock
  · rw [if_pos hk] at hp
    cases hp
  · rw [if_neg hk] at hp
    refine ⟨hp, fun ha => ?_⟩
    rw [Bool.eq_false_iff, Ne, hd]
    rintro (hdead | ⟨p', hp', heq⟩)
    · rw [ha] at hdead
      cases hdead
    · exact hk ⟨rfl, (hK.apart hp' hp heq).symm⟩

/-- What is `Local` to a handler makes no entry. -/
theorem Local.keyed (h : Local E this w w') (hm : (w.objs this).p_handlers = some m)
    (hK : Keyed m w) : Keyed m w' := by
  rcases h.reg m hm with hk | hk
  · refine hK.mono h.nobj.ge (fun _ p _ => (h.objs p.obj).2.1) fun k p hp => ?_
    rw [hk.maps] at hp
    exact ⟨hp, fun ha => (hk.dead p.obj).trans ha⟩
  · exact hK.erased h.nobj.ge (fun _ p _ => (h.objs p.obj).2.1) (hk.maps m) hk.dead

/-- **Registering** a handler that has no entry and was not destroyed. -/
theorem Keyed.registered (hK : Keyed m w) (hlt : this < w.nobj) (ha : w.dead this = false)
    (hnew : ∀ k p, w.look m k = some p → p.obj ≠ this) : Keyed m (w.registered this sock m) := by
  intro k p hp
  have hdead : ∀ i, w.dead i = false → (∀ q, w.look m sock = some q → q.obj ≠ i) →
      (w.registered this sock m).dead i = false := by
    intro i hi hne
    rw [Bool.eq_false_iff, Ne, registered_dead]
    rintro (h | ⟨q, hq, heq⟩)
    · rw [hi] at h
      cases h
    · exact hne q hq heq
  have hobj : ∀ i, (w.registered this sock m).objs i = (w.setObj this ({ · with sock := sock })).objs i :=
    fun _ => rfl
  rw [registered_look] at hp
  by_cases hk : m = m ∧ k = sock
  · rw [if_pos hk] at hp
    obtain rfl := Option.some.inj hp
    refine ⟨hlt, ?_, hdead _ ha fun q hq => hnew sock q hq⟩
    rw [hobj, World.setObj_same]
    exact hk.2.symm
  · rw [if_neg hk] at hp
    obtain ⟨hlt', hk', ha'⟩ := hK k p hp
    refine ⟨hlt', ?_, hdead _ ha' fun q hq heq => ?_⟩
    · rw [hobj, World.setObj_ne (hnew k p hp)]
      exact hk'
    · exact hk ⟨rfl, (hK.apart hq hp heq).symm⟩

theorem construct_keyed (hK : Keyed m w) (cls : HandlerClass) (sock : ℤ) :
    Keyed m (final (BaseSocket.new E cls sock (some m) w)) := by
  -- nobody is registered as the object that is made
  have hne : ∀ k p, w.look m k = some p → p.obj ≠ w.nobj := fun k p hp => (hK k p hp).1.ne
  by_cases hv : cpSocketValid sock = true
  · obtain ⟨w', hrun, hmade, -⟩ := new_valid E w cls m hv
    rw [hrun, final_ok]
    intro k p hp
    rw [hmade.maps] at hp
    by_cases hk : m = m ∧ k = sock
    · rw [if_pos hk] at hp
      by_cases hpeer : w.peer E sock = .otherError
      · rw [if_pos hpeer] at hp
        cases hp
      · rw [if_neg hpeer] at hp
        obtain rfl := Option.some.inj hp
        obtain ⟨-, hs, -⟩ := hmade.obj
        refine ⟨?_, hs.trans hk.2.symm, ?_⟩
        · rw [hmade.nobj]
          exact Nat.lt_succ_self _
        · rw [Bool.eq_false_iff, Ne, hmade.own fun q hq => hne sock q hq]
          exact hpeer
    · rw [if_neg hk] at hp
      obtain ⟨hlt, hk', ha⟩ := hK k p hp
      refine ⟨?_, ?_, ?_⟩
      · rw [hmade.nobj]
        exact Nat.lt_succ_of_lt hlt
      · rw [hmade.others _ hlt.ne]
        exact hk'
      · rw [Bool.eq_false_iff, Ne, hmade.dead _ hlt.ne]
        rintro (h | ⟨q, hq, heq⟩)
        · rw [ha] at h
          cases h
        · exact hk ⟨rfl, (hK.apart hq hp heq).symm⟩
  · have hv' : cpSocketValid sock = false := by simpa using hv
    rw [new_invalid hv', final_ok]
    refine hK.mono (Nat.le_succ _) (fun k p hp => ?_) fun k p hp => ⟨hp, fun ha => ?_⟩
    · simp [World.alloc, hne k p hp]
    · simp [World.alloc, hne k p hp, ha]

theorem createSocket_keyed (hK : Keyed m w) (hlt : this < w.nobj) (ha : w.dead this = false)
    (hm : (w.objs this).p_handlers = some m)
    (hnew : ∀ k p, w.look m k = some p → p.obj ≠ this) (type : SockType) :
    Keyed m (final (BaseSocket.createSocket E this type w)) := by
  obtain ⟨ret, sock, w', hs, hrun, -⟩ := createSocket_run E hm type
  rw [hrun, final_ok]
  have hlook : ∀ k, w'.look m k = w.look m k := fun k => by unfold World.look; rw [hs.maps]
  have hK' : Keyed m w' := by
    refine hK.mono hs.nobj.ge (fun _ _ _ => by rw [hs.objs]) fun k p hp => ?_
    rw [← hlook, hs.dead]
    exact ⟨hp, id⟩
  have hnew' : ∀ k p, w'.look m k = some p → p.obj ≠ this := fun k p hp =>
    hnew k p (by rw [← hlook]; exact hp)
  by_cases hv : cpSocketValid sock = true
  · rw [equipped_valid hv]
    exact hK'.registered (by rw [hs.nobj]; exact hlt) (by rw [hs.dead]; exact ha) hnew'
  · -- the handler has lost its socket, and it has no entry
    rw [equipped_invalid hv]
    refine hK'.mono le_rfl (fun k p hp => ?_) fun _ _ hp => ⟨hp, id⟩
    rw [World.setObj_ne (hnew' k p hp)]

/-- **An operation** keeps the invariant, when it is called on a handler that is alive and registers none
that is registered. -/
theorem ChannelOp.run_keyed (hK : Keyed m w) {op : ChannelOp} (hv : op.Valid m w)
    (hf : op.Fresh m w) : Keyed m (final (op.run E m w)) := by
  -- a step that is local to a handler registers nothing
  have hlocal : ∀ {this : ℕ} {α : Type} {x : Proc α}, op.handler = some this →
      Steps (Local E this) x → Keyed m (final (x w)) := fun hthis hx =>
    (hx w).keyed (hv _ hthis).2 hK
  have hnew : ∀ {this : ℕ}, op.registers = true → op.handler = some this →
      ∀ k p, w.look m k = some p → p.obj ≠ this := fun hr hthis k p hp heq =>
    hf.2 hr k p hp (by rw [hthis, heq])
  cases op with
  | construct cls sock =>
    rw [ChannelOp.run, final_bind_pure]
    exact construct_keyed hK cls sock
  | createSocket this type =>
    rw [ChannelOp.run, final_bind_pure]
    exact createSocket_keyed hK (hv this rfl).1 (hf.1 this rfl) (hv this rfl).2 (hnew rfl rfl) type
  | setSocket this sock =>
    rw [ChannelOp.run, setSocket_eq, final_ok]
    exact hK.registered (hv this rfl).1 (hf.1 this rfl) (hnew rfl rfl)
  | addChannel this =>
    rw [ChannelOp.run, addChannel_eq, final_ok]
    exact hK.registered (hv this rfl).1 (hf.1 this rfl) (hnew rfl rfl)
  | delChannel this =>
    rw [ChannelOp.run, delChannel_eq, final_ok]
    exact hK.erased le_rfl (fun _ _ _ => rfl) (fun k => World.look_erase) fun i => World.dead_erase
  | connect this addr =>
    exact hlocal rfl (Local.bind connect_local fun _ => Local.pure _)
  | listen this =>
    exact hlocal rfl (Local.bind listen_local fun _ => Local.pure _)
  | close this => exact hlocal rfl close_local

/-- A run with one more operation. -/
theorem Channels.step {P : World → ChannelOp → Prop} {w₀ : World} (h : Channels E m P w₀ w)
    (op : ChannelOp) (hv : op.Valid m w) (hP : P w op) (hok : isOk (op.run E m w) = true) :
    Channels E m P w₀ (final (op.run E m w)) := .tail h ⟨op, hv, hP, eq_ok_final hok⟩

/-- The invariant holds in every run in which nothing is registered a second time. -/
theorem Channels.keyed {w₀ : World} (h : Channels E m (ChannelOp.Fresh m) w₀ w) (hK : Keyed m w₀) :
    Keyed m w := by
  induction h with
  | refl => exact hK
  | tail _ hstep ih =>
    obtain ⟨op, hv, hf, hrun⟩ := hstep
    have h := op.run_keyed (E := E) ih hv hf
    rw [hrun, final_ok] at h
    exact h

/-- **Every entry is under the socket of its handler**, which was not destroyed, and no handler has two
entries or two owners, in every run from an empty map in which no operation is called on a handler that
was let go, or registers one that is registered. -/
theorem channels_keyed {w₀ : World} (h₀ : ∀ k, w₀.look m k = none)
    (h : Channels E m (ChannelOp.Fresh m) w₀ w) :
    (∀ k p, w.look m k = some p → (w.objs p.obj).sock = k ∧ w.dead p.obj = false) ∧
      ∀ k p k' p', w.look m k = some p → w.look m k' = some p' → p.obj = p'.obj →
        k = k' ∧ p.ctrl = p'.ctrl := by
  have hK₀ : Keyed m w₀ := by
    intro k p hp
    rw [h₀] at hp
    cases hp
  have hK := h.keyed hK₀
  refine ⟨fun k p hp => (hK k p hp).2, fun k p k' p' hp hp' heq => ?_⟩
  obtain rfl := hK.apart hp hp' heq
  rw [hp] at hp'
  obtain rfl := Option.some.inj hp'
  exact ⟨rfl, rfl⟩

/-- A handler that is made and gets its first socket. -/
theorem channels_keyed_socket : ∃ w, Channels .steady 0 (ChannelOp.Fresh 0) World.init w ∧
    w.look 0 3 = some ⟨0, 0⟩ ∧
      (∀ k p, w.look 0 k = some p → (w.objs p.obj).sock = k ∧ w.dead p.obj = false) ∧
      ∀ k p k' p', w.look 0 k = some p → w.look 0 k' = some p' → p.obj = p'.obj →
        k = k' ∧ p.ctrl = p'.ctrl := by
  have hnew : ChannelOp.run .steady 0 (.construct .baseSocket (-1)) World.init =
      .ok ⟨⟩ (World.init.alloc (BaseSocket.begun .steady .baseSocket (-1) (some 0))) :=
    bind_of_ok (new_invalid rfl _)
  have hnone : ∀ k, (World.init.alloc (BaseSocket.begun .steady .baseSocket (-1) (some 0))).look 0 k = none :=
    fun _ => Std.TreeMap.getElem?_emptyc
  have h₁ : Channels .steady 0 (ChannelOp.Fresh 0) World.init
      (World.init.alloc (BaseSocket.begun .steady .baseSocket (-1) (some 0))) :=
    .tail .refl ⟨.construct .baseSocket (-1), (fun _ h => by cases h),
      ⟨(fun _ h => by cases h), (fun h => by cases h)⟩, hnew⟩
  have h₂ := h₁.step (.createSocket 0 .stream) (fun _ h => by cases h; decide +kernel)
    ⟨(fun _ h => by cases h; decide +kernel), fun _ k p hp => by rw [hnone] at hp; cases hp⟩
    (by decide +kernel)
  exact ⟨_, h₂, by decide +kernel, channels_keyed (fun _ => Std.TreeMap.getElem?_emptyc) h₂⟩

/-- A handler that has a socket and is given another stays under the first one as well, with
an owner of its own for each. -/
theorem set_socket_two_entries : ∃ w, Channels .steady 0 (fun _ _ => True) World.init w ∧
    w.look 0 3 = some ⟨0, 0⟩ ∧ w.look 0 7 = some ⟨0, 1⟩ ∧ (w.objs 0).sock = 7 := by
  have h₀ : Channels .steady 0 (fun _ _ => True) World.init World.init := .refl
  have h₁ := h₀.step (.construct .baseSocket (-1)) (fun _ h => by cases h) trivial (by decide +kernel)
  have h₂ := h₁.step (.createSocket 0 .stream) (fun _ h => by cases h; decide +kernel) trivial
    (by decide +kernel)
  have h₃ := h₂.step (.setSocket 0 7) (fun _ h => by cases h; decide +kernel) trivial
    (by decide +kernel)
  exact ⟨_, h₃, by decide +kernel, by decide +kernel, by decide +kernel⟩

end DocFerry
