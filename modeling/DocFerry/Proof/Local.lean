import DocFerry.Proof.SocketSteps

/-!
# What an event can change

`Local E this w w'`: between `w` and `w'` the process was changed as the handler `this` may
change it. Every map, every descriptor and the objects that were destroyed are as before, or `this` has
left its map, which destroys the handler of its entry. Then its descriptor is closed as well, unless
the number was gone from the memory of the destroyed handler. `local_rules` carries the relation through
the calls on the socket, `local_callbacks` through the callbacks, and `event_local` through whole events.
-/

namespace DocFerry

open Prog

/-- The maps, the descriptors and the objects that were destroyed are as before. -/
structure Kept (w w' : World) : Prop where
  maps : ∀ j k, w'.look j k = w.look j k
  dead : ∀ i, w'.dead i = w.dead i
  descs : ∀ k, (w'.descs k).map Desc.origin = (w.descs k).map Desc.origin

/-- In every close between `w` and `w'` the memory of a destroyed handler still held its number. -/
def IntactFrom (E : Env) (w w' : World) : Prop := ∀ i, w.nfreed ≤ i → i < w'.nfreed → E.freed i = true

/-- Of the maps, only the entry `sock` of the map `m` is gone, and with it its handler; of the
descriptors at most `sock`. -/
structure Left (E : Env) (m : ℕ) (sock : ℤ) (w w' : World) : Prop where
  maps : ∀ j k, w'.look j k = if j = m ∧ k = sock then none else w.look j k
  dead : ∀ i, w'.dead i = true ↔ w.dead i = true ∨ ∃ p, w.look m sock = some p ∧ p.obj = i
  others : ∀ k, k ≠ sock → (w'.descs k).map Desc.origin = (w.descs k).map Desc.origin
  own : w'.descs sock = none ∨
    (w'.descs sock).map Desc.origin = (w.descs sock).map Desc.origin ∧ ¬ IntactFrom E w w'

/-- What `this` may change. -/
structure Local (E : Env) (this : ℕ) (w w' : World) : Prop where
  log : ∃ l, w'.log = w.log ++ l ∧ ∀ a ∈ l, a.isEvent = false
  objs : ∀ i, (w'.objs i).cls = (w.objs i).cls ∧ (w'.objs i).sock = (w.objs i).sock ∧
    (w'.objs i).p_handlers = (w.objs i).p_handlers
  nobj : w'.nobj = w.nobj
  nfreed : w.nfreed ≤ w'.nfreed
  naccept : w'.naccept = w.naccept
  ngetpeername : w'.ngetpeername = w.ngetpeername
  reg : ∀ m, (w.objs this).p_handlers = some m → Kept w w' ∨ Left E m (w.objs this).sock w w'

variable {E : Env} {w w' w'' : World} {this m : ℕ} {sock : ℤ}

theorem Kept.refl (w : World) : Kept w w := ⟨fun _ _ => rfl, fun _ => rfl, fun _ => rfl⟩

theorem Kept.trans (h : Kept w w') (h' : Kept w' w'') : Kept w w'' :=
  ⟨fun j k => (h'.maps j k).trans (h.maps j k), fun i => (h'.dead i).trans (h.dead i),
    fun k => (h'.descs k).trans (h.descs k)⟩

theorem origin_none {k : ℤ} (h : (w'.descs k).map Desc.origin = (w.descs k).map Desc.origin) :
    w'.descs k = none ↔ w.descs k = none := by
  rw [← Option.map_eq_none_iff (f := Desc.origin), h, Option.map_eq_none_iff]

theorem IntactFrom.of_trans (hle : w.nfreed ≤ w'.nfreed) (hle' : w'.nfreed ≤ w''.nfreed)
    (h : IntactFrom E w w'') : IntactFrom E w w' ∧ IntactFrom E w' w'' :=
  ⟨fun i hi hi' => h i hi (lt_of_lt_of_le hi' hle'), fun i hi hi' => h i (hle.trans hi) hi'⟩

theorem Kept.left (h : Kept w w') (hle : w.nfreed ≤ w'.nfreed) (hle' : w'.nfreed ≤ w''.nfreed)
    (h' : Left E m sock w' w'') : Left E m sock w w'' := by
  refine ⟨fun j k => ?_, fun i => ?_, fun k hk => (h'.others k hk).trans (h.descs k), ?_⟩
  · rw [h'.maps, h.maps]
  · rw [h'.dead, h.dead, h.maps]
  · rcases h'.own with hown | ⟨hown, hi⟩
    · exact .inl hown
    · exact .inr ⟨hown.trans (h.descs sock), fun hall => hi (hall.of_trans hle hle').2⟩

theorem Left.kept (h : Left E m sock w w') (hle : w.nfreed ≤ w'.nfreed) (hle' : w'.nfreed ≤ w''.nfreed)
    (h' : Kept w' w'') : Left E m sock w w'' := by
  refine ⟨fun j k => ?_, fun i => ?_, fun k hk => (h'.descs k).trans (h.others k hk), ?_⟩
  · rw [h'.maps, h.maps]
  · rw [h'.dead, h.dead]
  · rcases h.own with hown | ⟨hown, hi⟩
    · exact .inl ((origin_none (h'.descs sock)).2 hown)
    · exact .inr ⟨(h'.descs sock).trans hown, fun hall => hi (hall.of_trans hle hle').1⟩

/-- Leaving twice is leaving once. -/
theorem Left.trans (h : Left E m sock w w') (hle : w.nfreed ≤ w'.nfreed) (hle' : w'.nfreed ≤ w''.nfreed)
    (h' : Left E m sock w' w'') : Left E m sock w w'' := by
  have hgone : w'.look m sock = none := by rw [h.maps, if_pos ⟨rfl, rfl⟩]
  refine ⟨fun j k => ?_, fun i => ?_, fun k hk => (h'.others k hk).trans (h.others k hk), ?_⟩
  · rw [h'.maps, h.maps]
    split <;> rfl
  · rw [h'.dead, h.dead, hgone]
    simp
  · rcases h'.own with hown' | ⟨hown', hi'⟩
    · exact .inl hown'
    · rcases h.own with hown | ⟨hown, hi⟩
      · exact .inl ((origin_none hown').2 hown)
      · exact .inr ⟨hown'.trans hown, fun hall => hi (hall.of_trans hle hle').1⟩

/-- A registered handler that was not destroyed still has its descriptor. -/
theorem Local.isOpen (h : Local E this w w') (hm : (w.objs this).p_handlers = some m)
    (hentry : ∃ p, w.look m (w.objs this).sock = some p ∧ p.obj = this)
    (hd : w.descs (w.objs this).sock ≠ none) (ha : w'.dead this = false) :
    w'.descs (w.objs this).sock ≠ none := by
  rcases h.reg m hm with hk | hk
  · intro hnone
    exact hd ((origin_none (hk.descs _)).1 hnone)
  · have hdead : w'.dead this = true := (hk.dead this).2 (.inr hentry)
    rw [ha] at hdead
    cases hdead

theorem Local.refl (w : World) : Local E this w w :=
  ⟨⟨[], by simp⟩, fun _ => ⟨rfl, rfl, rfl⟩, rfl, le_rfl, rfl, rfl, fun _ _ => .inl (.refl w)⟩

theorem Local.trans (w w' w'' : World) (h : Local E this w w') (h' : Local E this w' w'') :
    Local E this w w'' := by
  obtain ⟨l, hl, he⟩ := h.log
  obtain ⟨l', hl', he'⟩ := h'.log
  refine ⟨⟨l ++ l', by rw [hl', hl, List.append_assoc], ?_⟩, fun i => ?_, h'.nobj.trans h.nobj,
    h.nfreed.trans h'.nfreed, h'.naccept.trans h.naccept, h'.ngetpeername.trans h.ngetpeername,
    fun m hm => ?_⟩
  · intro a ha
    rcases List.mem_append.1 ha with ha | ha
    · exact he a ha
    · exact he' a ha
  · obtain ⟨h1, h2, h3⟩ := h.objs i
    obtain ⟨h1', h2', h3'⟩ := h'.objs i
    exact ⟨h1'.trans h1, h2'.trans h2, h3'.trans h3⟩
  · obtain ⟨-, hs, hp⟩ := h.objs this
    have hreg' := h'.reg m (hp.trans hm)
    rw [hs] at hreg'
    rcases h.reg m hm with hk | hk
    · rcases hreg' with hk' | hk'
      · exact .inl (hk.trans hk')
      · exact .inr (hk.left h.nfreed h'.nfreed hk')
    · rcases hreg' with hk' | hk'
      · exact .inr (hk.kept h.nfreed h'.nfreed hk')
      · exact .inr (hk.trans h.nfreed h'.nfreed hk')

theorem Local.bind {α β : Type} {x : Proc α} {f : α → Proc β} (hx : Steps (Local E this) x)
    (hf : ∀ a, Steps (Local E this) (f a)) : Steps (Local E this) (x >>= f) := Steps.bind Local.trans hx hf

theorem Local.pure {α : Type} (a : α) : Steps (Local E this) (Pure.pure a : Proc α) := Steps.pure Local.refl a

/-! ### The small steps -/

/-- A step that leaves maps and descriptors, and of the handlers all but their flags. -/
theorem Local.soft (hl : ∃ l, w'.log = w.log ++ l ∧ ∀ a ∈ l, a.isEvent = false)
    (ho : ∀ i, (w'.objs i).cls = (w.objs i).cls ∧ (w'.objs i).sock = (w.objs i).sock ∧
      (w'.objs i).p_handlers = (w.objs i).p_handlers)
    (hn : w'.nobj = w.nobj) (hx : w'.dead = w.dead) (hf : w'.nfreed = w.nfreed) (ha : w'.naccept = w.naccept) (hg : w'.ngetpeername = w.ngetpeername)
    (hm : w'.maps = w.maps) (hd : w'.descs = w.descs) : Local E this w w' :=
  ⟨hl, ho, hn, hf.ge, ha, hg, fun _ _ => .inl
    ⟨fun _ _ => by unfold World.look; rw [hm], fun _ => by rw [hx], fun _ => by rw [hd]⟩⟩

theorem Idle.local (h : Idle w w') : Local E this w w' := by
  obtain ⟨l, hl, hc⟩ := h.log
  exact .soft ⟨l, hl, fun a ha => Act.isEvent_of_isCall (hc a ha)⟩
    (fun i => by rw [h.objs]; exact ⟨rfl, rfl, rfl⟩) h.nobj h.dead h.nfreed h.naccept h.ngetpeername h.maps
    h.descs

/-- An assignment to other members than the class, the socket and the map. -/
theorem assign_local {i : ℕ} {f : BaseSocket → BaseSocket}
    (hf : ∀ o, (f o).cls = o.cls ∧ (f o).sock = o.sock ∧ (f o).p_handlers = o.p_handlers) :
    Steps (Local E this) (assign i f) := by
  intro w
  refine .soft ⟨[], by simp [run_assign, World.setObj]⟩ (fun j => ?_) rfl rfl rfl rfl rfl rfl rfl
  rcases eq_or_ne j i with rfl | hj
  · simpa [run_assign] using hf (w.objs j)
  · simp [run_assign, World.setObj_ne hj]

theorem closed_local (h : (w.objs this).p_handlers = some m) : Local E this w (w.closed E this m) := by
  refine ⟨⟨[_], rfl, by simp [Act.isEvent]⟩, fun i => ?_, rfl, ?_, rfl, rfl, fun m' hm' => .inr ?_⟩
  · rw [World.closed_objs]
    rcases eq_or_ne i this with rfl | hi
    · rw [World.setObj_same]
      exact ⟨rfl, rfl, rfl⟩
    · rw [World.setObj_ne hi]
      exact ⟨rfl, rfl, rfl⟩
  · change w.nfreed ≤ if (w.detached this m).dead this then w.nfreed + 1 else w.nfreed
    split
    · exact Nat.le_succ _
    · exact le_rfl
  · obtain rfl : m' = m := Option.some.inj (hm'.symm.trans h)
    refine ⟨fun j k => World.closed_look, fun i => World.closed_dead, fun k hk => ?_, ?_⟩
    · rw [World.closed_descs_ne hk]
    · cases hr : w.reaches E this m' with
      | true => exact .inl (World.closed_descs_self hr)
      | false =>
        refine .inr ⟨by rw [World.closed_descs_lost hr], fun hall => ?_⟩
        obtain ⟨hd, hf⟩ := World.reaches_eq_false.1 hr
        have hlt : w.nfreed < (w.closed E this m').nfreed := by
          rw [World.closed_nfreed, if_pos hd]
          exact Nat.lt_succ_self _
        rw [hall w.nfreed le_rfl hlt] at hf
        cases hf

/-- A call that faults at once, where the map of the handler is a null pointer, or does
what is `Local`. -/
theorem close_local : Steps (Local E this) (BaseSocket.close E this) := by
  apply steps_close
  · exact assign_local (f := ({ · with connected := false, connecting := false, accepting := false }))
      fun _ => ⟨rfl, rfl, rfl⟩
  · intro w m h
    exact closed_local h

/-- **The calls on the socket** are `Local`. -/
theorem local_rules : SocketRules E this (Local E this) where
  refl := Local.refl
  trans := Local.trans
  idle _ _ h _ := h.local
  connected := assign_local fun _ => ⟨rfl, rfl, rfl⟩
  handleClose := handleClose_of_close Local.refl Local.trans (fun w => (Idle.logged w rfl).local) close_local

/-- **The callbacks of every class** are `Local`. -/
theorem local_callbacks : HandlerRules E this (Local E this) where
  toCallRules := local_rules.calls
  virus _ := assign_local fun _ => ⟨rfl, rfl, rfl⟩
  disk _ _ := .soft ⟨[], by simp⟩ (fun _ => ⟨rfl, rfl, rfl⟩) rfl rfl rfl rfl rfl rfl rfl

theorem act_local {a : Act} (ha : a.isCall = true) : Steps (Local E this) (act a) := fun w =>
  (Idle.logged w ha).local

theorem handleConnectEvent_local : Steps (Local E this) (BaseSocket.handleConnectEvent E this) :=
  local_rules.handleConnectEvent

theorem send_local {p : Option (List UInt8)} {size : ℕ} :
    Steps (Local E this) (BaseSocket.send E this p size) := local_callbacks.send

theorem recv_local {p : Bool} {size : ℕ} : Steps (Local E this) (BaseSocket.recv E this p size) :=
  local_callbacks.recv

theorem sendResp_local (resp : HV) : Steps (Local E this) (VirusHandler.sendResp E this resp) :=
  local_callbacks.sendResp resp

theorem handleRead_local : Steps (Local E this) (BaseSocket.handleRead E this) := local_callbacks.handleRead

theorem handleWrite_local : Steps (Local E this) (BaseSocket.handleWrite E this) := local_callbacks.handleWrite

/-! ### Events -/

/-- **Every event but a connection that comes in** is `Local`. -/
theorem event_local (w : World) (bit : Bit)
    (h : (w.objs this).cls = .tcpServerImpl → (w.objs this).accepting = true → bit ≠ .read) :
    Local E this w (final (BaseSocket.handleEvent E this bit w)) := by
  cases bit with
  | write => exact local_rules.handleWriteEvent handleWrite_local w
  | expt => exact local_callbacks.handleExptEvent w
  | read =>
    change Local E this w (final (BaseSocket.handleReadEvent E this w))
    by_cases ha : (w.objs this).accepting = true
    · rw [handleReadEvent_accepting ha]
      cases hd : w.dead this with
      | true =>
        unfold BaseSocket.handleAccept
        rw [dead_bind hd]
        exact .refl w
      | false =>
        rw [handleAccept_other hd fun hc => h hc ha rfl]
        exact act_local rfl w
    · unfold BaseSocket.handleReadEvent
      rw [bind_of_ok run_obj, if_neg ha]
      exact Steps.ite (local_rules.connecting _ handleRead_local) handleRead_local w

end DocFerry
