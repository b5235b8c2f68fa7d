import DocFerry.Proof.Sessions

/-!
# Who listens

`listen` sets `accepting`, and only `close` clears it. A listener is therefore not touched by what its
clients do, and a client is none.

* `Hush this w w'`: nobody began to listen, and only `this` may have stopped. `hush_callbacks` and
  `hush_maker`: so it is with everything that an event comes to.
* `Server.Hears.deaf`: who listens is a `TCPServerImpl`.
* `event_listener`: a listener stays, unless an exception event of its own finds a pending error.
-/

namespace DocFerry

open Prog

/-- Nobody listens who did not, and of the handlers that there were all that did still do but `this`. -/
structure Hush (this : ℕ) (w w' : World) : Prop where
  nobj : w.nobj ≤ w'.nobj
  deaf : ∀ i, (w'.objs i).accepting = true → (w.objs i).accepting = true
  others : ∀ i < w.nobj, i ≠ this → (w'.objs i).accepting = (w.objs i).accepting

/-- Who listens is there, and a `TCPServerImpl`. -/
def Deaf (w : World) : Prop :=
  ∀ i, (w.objs i).accepting = true → i < w.nobj ∧ (w.objs i).cls = .tcpServerImpl

/-- The handler `p` listens on the descriptor `k`, and is registered for it. -/
structure World.IsListener (w : World) (m : ℕ) (k : ℤ) (p : SharedPtr) : Prop where
  look : w.look m k = some p
  cls : (w.objs p.obj).cls = .tcpServerImpl
  accepting : (w.objs p.obj).accepting = true

variable {E : Env} {w w' w'' : World} {this m : ℕ} {k : ℤ} {p : SharedPtr} {heard heard' : ℕ → List UInt8}

/-! ### The relation -/

theorem Hush.refl (w : World) : Hush this w w := ⟨le_rfl, fun _ => id, fun _ _ _ => rfl⟩

theorem Hush.trans (w w' w'' : World) (h : Hush this w w') (h' : Hush this w' w'') : Hush this w w'' :=
  ⟨h.nobj.trans h'.nobj, fun i hi => h.deaf i (h'.deaf i hi),
    fun i hi hne => (h'.others i (hi.trans_le h.nobj) hne).trans (h.others i hi hne)⟩

/-- A step that leaves the handlers. -/
theorem Hush.soft (ho : w'.objs = w.objs) (hn : w'.nobj = w.nobj) : Hush this w w' := by
  refine ⟨hn.ge, fun i => ?_, fun i _ _ => ?_⟩
  all_goals rw [ho]
  exact id

/-- An assignment that sets the flag of nobody but `this`, and there clears it. -/
theorem assign_hush {i : ℕ} {f : BaseSocket → BaseSocket}
    (hf : ∀ o : BaseSocket, ((f o).accepting = true → o.accepting = true) ∧
      (i ≠ this → (f o).accepting = o.accepting)) : Steps (Hush this) (assign i f) := by
  intro w
  rw [run_assign, final_ok]
  refine ⟨le_rfl, fun j => ?_, fun j _ hj => ?_⟩
  · rcases eq_or_ne j i with rfl | hne
    · rw [World.setObj_same]
      exact (hf _).1
    · rw [World.setObj_ne hne]
      exact id
  · rcases eq_or_ne j i with rfl | hne
    · rw [World.setObj_same]
      exact (hf _).2 hj
    · rw [World.setObj_ne hne]

/-- An assignment to other members. -/
theorem assign_unheeded {i : ℕ} {f : BaseSocket → BaseSocket} (hf : ∀ o, (f o).accepting = o.accepting) :
    Steps (Hush this) (assign i f) :=
  assign_hush fun o => ⟨fun h => (hf o).symm.trans h, fun _ => hf o⟩

theorem close_hush : Steps (Hush this) (BaseSocket.close E this) := by
  have hset : ∀ w : World, Hush this w
      (w.setObj this ({ · with connected := false, connecting := false, accepting := false })) :=
    assign_hush (f := ({ · with connected := false, connecting := false, accepting := false }))
      fun _ => ⟨fun h => Bool.noConfusion h, fun h => absurd rfl h⟩
  refine steps_close hset fun w m _ => Hush.trans _ _ _ (hset w) ?_
  exact .soft rfl rfl

/-- **The calls on the socket** make nobody listen. -/
theorem hush_rules : SocketRules E this (Hush this) where
  refl := Hush.refl
  trans := Hush.trans
  idle _ _ h _ := .soft h.objs h.nobj
  connected := assign_unheeded fun _ => rfl
  handleClose := handleClose_of_close Hush.refl Hush.trans (fun _ => .soft rfl rfl) close_hush

/-- **The callbacks** make nobody listen. -/
theorem hush_callbacks : HandlerRules E this (Hush this) where
  toCallRules := hush_rules.calls
  virus _ := assign_unheeded fun _ => rfl
  disk _ _ := .soft rfl rfl

/-! ### Connections that come in -/

/-- A new handler does not listen. -/
theorem alloc_hush (cls : HandlerClass) (sock : ℤ) (p_handlers : Option ℕ) :
    Hush this w (w.alloc (BaseSocket.begun E cls sock p_handlers)) := by
  refine ⟨Nat.le_succ _, fun i hi => ?_, fun i hi _ => ?_⟩
  · rcases eq_or_ne i w.nobj with rfl | hne
    · simp only [World.alloc, Function.update_self] at hi
      cases hi
    · simpa only [World.alloc, Function.update_of_ne hne] using hi
  · simp only [World.alloc, Function.update_of_ne hi.ne]

/-- **The making of a client's handler** makes nobody listen. -/
theorem hush_maker : MakerRules E (Hush this) where
  refl := Hush.refl
  trans := Hush.trans
  aloof _ _ h := .soft h.objs h.nobj
  flags _ _ _ := .soft rfl rfl
  alloc _ cls sock p_handlers := alloc_hush cls sock p_handlers
  assign _ _ hf := assign_unheeded fun o => (hf o).2.2.2
  openDesc _ _ _ _ := .soft rfl rfl

/-- **An event** makes nobody listen, and nobody stop but its own handler. -/
theorem event_hush (bit : Bit) : Steps (Hush this) (BaseSocket.handleEvent E this bit) := by
  cases bit with
  | write => exact hush_rules.handleWriteEvent hush_callbacks.handleWrite
  | expt => exact hush_callbacks.handleExptEvent
  | read =>
    refine (hush_callbacks (E := E)).bind (hush_callbacks (E := E)).obj fun o => ?_
    refine Steps.ite hush_maker.handleAccept (Steps.ite ?_ hush_callbacks.handleRead)
    exact hush_rules.connecting o hush_callbacks.handleRead

/-! ### The runs -/

variable {k' : ℤ} {p' : SharedPtr} {bit : Bit}

/-- No event changes the class of a handler that there was. -/
theorem event_cls (hS : Server m w) (hp : w.look m k = some p) (bit : Bit) {i : ℕ} (hi : i < w.nobj) :
    ((final (BaseSocket.handleEvent E p.obj bit w)).objs i).cls = (w.objs i).cls := by
  rcases event_cases (E := E) hS hp bit with hl | ⟨-, h | ⟨-, h⟩ | ⟨f, w', -, -, h, hmade⟩⟩
  · exact (hl.objs i).1
  · rw [h]
    rfl
  · rw [h]
    rfl
  · rw [h, final_ok, hmade.others i (show i ≠ w.nobj from hi.ne)]
    rfl

/-- A step that adds listeners only. -/
theorem Deaf.step (h : Deaf w) (hn : w.nobj ≤ w'.nobj)
    (hold : ∀ i < w.nobj, (w'.objs i).cls = (w.objs i).cls)
    (hacc : ∀ i, (w'.objs i).accepting = true →
      (w.objs i).accepting = true ∨ i < w'.nobj ∧ (w'.objs i).cls = .tcpServerImpl) : Deaf w' := by
  intro i hi
  rcases hacc i hi with hi' | hnew
  · obtain ⟨hlt, hc⟩ := h i hi'
    exact ⟨hlt.trans_le hn, (hold i hlt).trans hc⟩
  · exact hnew

theorem Deaf.hear (h : Deaf w) (hS : Server m w) (hs : Server.Hear E m heard w heard' w') : Deaf w' := by
  cases hs with
  | select => exact h
  | server host port hrun =>
    obtain ⟨sock, w₁, hnew, hl, -⟩ := tcpServer_new E w host port m
    rw [hrun] at hnew
    cases hnew
    refine h.step (by rw [hl.nobj]; exact Nat.le_succ _) (fun i hi => by rw [hl.others i hi.ne]) fun i hi => ?_
    rcases eq_or_ne i w.nobj with rfl | hne
    · right
      rw [hl.nobj]
      exact ⟨Nat.lt_succ_self _, hl.obj.1⟩
    · rw [hl.others i hne] at hi
      exact .inl hi
  | @event _ k p bit hp hrun =>
    set w₁ := w.logged (.event p.obj k bit) with hw₁
    have hS₁ : Server m w₁ := hS.congr rfl rfl rfl rfl rfl
    have hhush : Hush p.obj w₁ (final (BaseSocket.handleEvent E p.obj bit w₁)) := event_hush bit w₁
    have hcls := fun i (hi : i < w₁.nobj) => event_cls (E := E) (k := k) (p := p) hS₁ hp bit hi
    rw [hrun] at hhush hcls
    exact Deaf.step (w := w₁) h hhush.nobj hcls fun i hi => .inl (hhush.deaf i hi)

/-- **Who listens** is a `TCPServerImpl`, in every run. -/
theorem Server.Hears.deaf (h : Server.Hears E m heard w) (hE : E.toLibC.Succeeds) : Deaf w := by
  induction h with
  | init =>
    intro i hi
    cases hi
  | step h hs ih => exact ih.hear (h.sessions hE).server hs

theorem World.IsListener.logged (h : w.IsListener m k p) (a : Act) : (w.logged a).IsListener m k p :=
  ⟨h.look, h.cls, h.accepting⟩

/-- A listener that takes a connection in goes on to listen. -/
theorem accept_listener (hS : Server m w) (hl : w.IsListener m k p) :
    (final (BaseSocket.handleEvent E p.obj .read w)).IsListener m k p := by
  have hreg := hS k p hl.look
  have hopen : w.descs (w.objs p.obj).sock ≠ none := by
    rw [hreg.sock]
    exact hreg.isOpen
  have hrun : BaseSocket.handleEvent E p.obj .read w = BaseSocket.handleAccept E p.obj w :=
    handleReadEvent_accepting hl.accepting
  rw [hrun]
  rcases handleAccept_cases E hreg.alive hl.cls hreg.map hopen with ⟨-, h⟩ | ⟨-, h⟩ | ⟨f, w', hinc, -, h, hmade⟩
  · rw [h]
    exact ⟨hl.look, hl.cls, hl.accepting⟩
  · rw [h]
    exact ⟨hl.look, hl.cls, hl.accepting⟩
  · rw [h, final_ok]
    have hobj : w'.objs p.obj = w.objs p.obj := hmade.others _ (show p.obj ≠ w.nobj from hreg.obj.ne)
    -- the descriptor of the new handler was free
    have hne : ¬ (m = m ∧ k = f) := by
      rintro ⟨-, rfl⟩
      exact hreg.isOpen hinc.2.2
    refine ⟨?_, hobj ▸ hl.cls, hobj ▸ hl.accepting⟩
    rw [hmade.maps, if_neg hne]
    exact hl.look

/-- The exception event of a listener closes it if there is a pending error, and does nothing else. -/
theorem expt_listener (hS : Server m w) (hl : w.IsListener m k p) :
    (final (BaseSocket.handleEvent E p.obj .expt w)).IsListener m k p ↔ E.getsockopt w.ngetsockopt = 0 := by
  have hreg := hS k p hl.look
  have hopen : w.descs (w.objs p.obj).sock ≠ none := by
    rw [hreg.sock]
    exact hreg.isOpen
  set w₁ : World := { w with ngetsockopt := w.ngetsockopt + 1 } with hw₁
  have halive : w₁.dead p.obj = false := hreg.alive
  change (final (BaseSocket.handleExptEvent E p.obj w)).IsListener m k p ↔ _
  unfold BaseSocket.handleExptEvent
  rw [bind_of_ok run_obj, bind_of_ok (getsockopt_open hopen), ← hw₁]
  by_cases herr : E.getsockopt w.ngetsockopt = 0
  · have hexpt : BaseSocket.handleExpt E p.obj w₁ = .ok ⟨⟩ (w₁.logged (.callback p.obj .expt)) := by
      unfold BaseSocket.handleExpt
      have hcls : ((w₁.logged (.callback p.obj .expt)).objs p.obj).cls = .tcpServerImpl := hl.cls
      rw [alive_bind halive, bind_of_ok run_act, bind_of_ok run_obj, hcls]
      rfl
    rw [if_pos herr, hexpt]
    exact iff_of_true ⟨hl.look, hl.cls, hl.accepting⟩ herr
  · have hclose : BaseSocket.handleClose E p.obj w₁ = .ok ⟨⟩ (w₁.handleClosed E p.obj m) :=
      handleClose_eq halive hreg.map
    rw [if_neg herr, hclose]
    refine iff_of_false (fun h => ?_) herr
    have hacc := h.accepting
    rw [final_ok, World.handleClosed, World.closed_objs, World.setObj_same] at hacc
    cases hacc

/-- **A listener stays** in every event, but for one of its own that is an exception and finds a pending
error. -/
theorem event_listener (hS : Server m w) (hl : w.IsListener m k p) (hp : w.look m k' = some p') :
    (final (BaseSocket.handleEvent E p'.obj bit w)).IsListener m k p ↔
      (k' = k → bit = .expt → E.getsockopt w.ngetsockopt = 0) := by
  rcases eq_or_ne k' k with rfl | hne
  · obtain rfl : p' = p := Option.some.inj (hp.symm.trans hl.look)
    simp only [true_implies]
    cases bit with
    | read => exact iff_of_true (accept_listener hS hl) fun h => by cases h
    | expt =>
      rw [expt_listener hS hl]
      exact ⟨fun h _ => h, fun h => h rfl⟩
    | write =>
      have hrun : BaseSocket.handleEvent E p'.obj .write w = .ok ⟨⟩ w := by
        change BaseSocket.handleWriteEvent E p'.obj w = _
        unfold BaseSocket.handleWriteEvent
        rw [bind_of_ok run_obj, if_pos hl.accepting]
        rfl
      rw [hrun]
      exact iff_of_true hl fun h => by cases h
  · -- the event of another handler
    refine iff_of_true ?_ fun h => absurd h hne
    have hobj := (hS k p hl.look).obj
    have hhush : Hush p'.obj w (final (BaseSocket.handleEvent E p'.obj bit w)) := event_hush bit w
    refine ⟨(event_stepped (E := E) hS hp bit).others k p hne.symm hl.look, ?_, ?_⟩
    · rw [event_cls hS hp bit hobj]
      exact hl.cls
    · rw [hhush.others p.obj hobj (hS.obj_ne hp hl.look hne.symm)]
      exact hl.accepting

end DocFerry
