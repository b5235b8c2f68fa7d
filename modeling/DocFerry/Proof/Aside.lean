import DocFerry.Proof.Still

/-!
# What an event leaves of the others

* `Mute this w w'`: nothing was sent; of all handlers only the flags of `this` may have changed.
  `event_mute`: so it is with the events of a client that neither reads bytes nor writes.
* `Aside this w w'`: `this` may have sent responses on its own descriptor. `aside_write`: so it is with
  `handle_write`, as long as the responses are in memory.
* `Opens w w'`: descriptors may have been made. `opens_maker`: so it is with listeners and connections
  that come in.
-/

namespace DocFerry

open Prog

/-- Nothing was sent, and no handler was touched but for the flags of `this`. -/
structure Mute (this : ℕ) (w w' : World) : Prop where
  others : ∀ i, i ≠ this → w'.objs i = w.objs i
  sock : (w'.objs this).sock = (w.objs this).sock
  virus : (w'.objs this).virus = (w.objs this).virus
  out : w'.out = w.out
  disk : w'.disk = w.disk

/-- No handler was touched but `this`, of which the request was not, and nothing was sent but on its
descriptor. -/
structure Aside (this : ℕ) (w w' : World) : Prop where
  others : ∀ i, i ≠ this → w'.objs i = w.objs i
  sock : (w'.objs this).sock = (w.objs this).sock
  req : (w'.objs this).virus.req = (w.objs this).virus.req
  resp : (w'.objs this).virus.resp ⊆ (w.objs this).virus.resp
  out : ∀ k, k ≠ (w.objs this).sock → w'.out k = w.out k
  disk : w'.disk = w.disk

/-- Descriptors may have been made, on which nothing was sent so far. -/
structure Opens (w w' : World) : Prop where
  kept : ∀ k, w.descs k ≠ none → w'.descs k ≠ none ∧ w'.out k = w.out k
  made : ∀ k, w.descs k = none → w'.descs k ≠ none → w'.out k = []
  disk : w'.disk = w.disk

variable {E : Env} {w w' w'' : World} {this : ℕ}

/-! ### `Mute` -/

theorem Mute.refl (w : World) : Mute this w w := ⟨fun _ _ => rfl, rfl, rfl, rfl, rfl⟩

theorem Mute.trans (w w' w'' : World) (h : Mute this w w') (h' : Mute this w' w'') : Mute this w w'' :=
  ⟨fun i hi => (h'.others i hi).trans (h.others i hi), h'.sock.trans h.sock, h'.virus.trans h.virus,
    h'.out.trans h.out, h'.disk.trans h.disk⟩

/-- A step that leaves the handlers, what was sent and the disk. -/
theorem Mute.soft (ho : w'.objs = w.objs) (hout : w'.out = w.out) (hd : w'.disk = w.disk) : Mute this w w' := by
  refine ⟨fun i _ => ?_, ?_, ?_, hout, hd⟩
  all_goals rw [ho]

theorem assign_mute {f : BaseSocket → BaseSocket} (hf : ∀ o, (f o).sock = o.sock ∧ (f o).virus = o.virus) :
    Steps (Mute this) (assign this f) := by
  intro w
  refine ⟨fun i hi => World.setObj_ne hi, ?_, ?_, rfl, rfl⟩
  · rw [run_assign, final_ok, World.setObj_same]
    exact (hf _).1
  · rw [run_assign, final_ok, World.setObj_same]
    exact (hf _).2

theorem close_mute : Steps (Mute this) (BaseSocket.close E this) := by
  have hset : ∀ w : World, Mute this w
      (w.setObj this ({ · with connected := false, connecting := false, accepting := false })) :=
    assign_mute (f := ({ · with connected := false, connecting := false, accepting := false }))
      fun o => ⟨rfl, rfl⟩
  exact steps_close hset fun w m _ => Mute.trans _ _ _ (hset w) (.soft rfl rfl rfl)

/-- **The calls on the socket that send nothing** are mute. -/
theorem mute_rules : RecvRules E this (Mute this) where
  refl := Mute.refl
  trans := Mute.trans
  idle _ _ _ h hout _ _ _ := .soft h.objs hout h.disk
  handleClose := handleClose_of_close Mute.refl Mute.trans (fun _ => .soft rfl rfl rfl) close_mute

/-- **An event that neither brings bytes nor sends any**, nor takes a connection in. -/
theorem event_mute (hd : w.dead this = false) (hcon : (w.objs this).connecting = false) {bit : Bit}
    (hno : ¬ GetsBytes E w this bit)
    (hw : bit = .write → (w.objs this).accepting = true ∨ (w.objs this).cls ≠ .virusHandler)
    (ha : bit = .read → (w.objs this).accepting = true → (w.objs this).cls ≠ .tcpServerImpl) :
    Mute this w (final (BaseSocket.handleEvent E this bit w)) := by
  cases bit with
  | expt => exact mute_rules.handleExptEvent w
  | write =>
    change Mute this w (final (BaseSocket.handleWriteEvent E this w))
    by_cases hacc : (w.objs this).accepting = true
    · unfold BaseSocket.handleWriteEvent
      rw [bind_of_ok run_obj, if_pos hacc]
      exact .refl w
    · have hacc' : (w.objs this).accepting = false := by simpa using hacc
      rw [handleWriteEvent_writing hacc' hcon, handleWrite_other hd ((hw rfl).resolve_left hacc)]
      exact .soft rfl rfl rfl
  | read =>
    change Mute this w (final (BaseSocket.handleReadEvent E this w))
    by_cases hacc : (w.objs this).accepting = true
    · rw [handleReadEvent_accepting hacc, handleAccept_other hd (ha rfl hacc)]
      exact .soft rfl rfl rfl
    · have hacc' : (w.objs this).accepting = false := by simpa using hacc
      rw [handleReadEvent_reading hacc' hcon]
      apply mute_rules.handleRead_nothing
      intro hc bs hd
      by_contra hne
      exact hno ⟨rfl, hc, hacc', bs, hne, hd⟩

/-! ### `Aside` -/

theorem Mute.aside (h : Mute this w w') : Aside this w w' :=
  ⟨h.others, h.sock, by rw [h.virus], by rw [h.virus]; exact List.Subset.refl _, fun k _ => by rw [h.out], h.disk⟩

theorem Aside.refl (w : World) : Aside this w w := (Mute.refl w).aside

theorem Aside.trans (w w' w'' : World) (h : Aside this w w') (h' : Aside this w' w'') : Aside this w w'' :=
  ⟨fun i hi => (h'.others i hi).trans (h.others i hi), h'.sock.trans h.sock, h'.req.trans h.req,
    fun _ hr => h.resp (h'.resp hr), fun k hk => (h'.out k (by rwa [h.sock])).trans (h.out k hk),
    h'.disk.trans h.disk⟩

theorem sent_aside (w : World) (E : Env) (this : ℕ) (buf : List UInt8) :
    Aside this w (w.sent E (w.objs this).sock buf) :=
  ⟨fun _ _ => rfl, rfl, rfl, List.Subset.refl _, fun _ hk => Function.update_of_ne hk _ _, rfl⟩

/-- **The calls on the socket** send on its descriptor only. -/
theorem aside_rules : CallRules E this (Aside this) where
  refl := Aside.refl
  trans := Aside.trans
  idle _ _ _ h hout _ _ _ := (Mute.soft h.objs hout h.disk).aside
  sent w buf _ := sent_aside w E this buf
  handleClose w := (mute_rules.handleClose w).aside

/-- **The writing of responses** touches no other handler and no other descriptor. -/
theorem aside_write : WriteRules E this (Aside this) where
  toCallRules := aside_rules
  popped w r rest hresp := by
    refine ⟨fun i hi => World.setObj_ne hi, ?_, ?_, ?_, fun _ _ => rfl, rfl⟩
    · rw [World.popped, World.setObj_same]
    · rw [World.popped, World.setObj_same]
    · rw [World.popped, World.setObj_same, hresp]
      exact List.subset_cons_self r rest
  resp _ _ h := h.resp

/-! ### `Opens` -/

theorem Opens.refl (w : World) : Opens w w :=
  ⟨fun _ h => ⟨h, rfl⟩, fun _ h h' => absurd h h', rfl⟩

theorem Opens.trans (w w' w'' : World) (h : Opens w w') (h' : Opens w' w'') : Opens w w'' := by
  refine ⟨fun k hk => ?_, fun k hk hk'' => ?_, h'.disk.trans h.disk⟩
  · obtain ⟨ho, hout⟩ := h.kept k hk
    obtain ⟨ho', hout'⟩ := h'.kept k ho
    exact ⟨ho', hout'.trans hout⟩
  · by_cases hk' : w'.descs k = none
    · exact h'.made k hk' hk''
    · rw [(h'.kept k hk').2]
      exact h.made k hk hk'

/-- A step after which the same descriptors are open. -/
theorem Opens.soft (hd : ∀ k, w'.descs k = none ↔ w.descs k = none) (hout : w'.out = w.out)
    (hdisk : w'.disk = w.disk) : Opens w w' := by
  refine ⟨fun k hk => ⟨fun h => hk ((hd k).1 h), by rw [hout]⟩, fun k hk hk' => ?_, hdisk⟩
  exact absurd ((hd k).2 hk) hk'

theorem openDesc_opens {f : ℤ} (hf : w.descs f = none) (o : Origin) : Opens w (w.openDesc E f o) := by
  refine ⟨fun k hk => ?_, fun k hk hk' => ?_, rfl⟩
  · have hne : k ≠ f := by
      rintro rfl
      exact hk hf
    unfold World.openDesc
    simpa only [Function.update_of_ne hne, and_true] using hk
  · rcases eq_or_ne k f with rfl | hne
    · exact Function.update_self ..
    · unfold World.openDesc at hk'
      simp only [Function.update_of_ne hne] at hk'
      exact absurd hk hk'

/-- **The making of handlers** makes descriptors. -/
theorem opens_maker : ListenRules E Opens where
  refl := Opens.refl
  trans := Opens.trans
  aloof _ _ h := .soft (fun k => by rw [h.descs]) h.out h.disk
  flags _ _ horig := .soft (fun k => origin_none (horig k)) rfl rfl
  alloc _ _ _ _ := .soft (fun _ => Iff.rfl) rfl rfl
  assign _ _ _ := fun _ => .soft (fun _ => Iff.rfl) rfl rfl
  openDesc _ _ o hf := openDesc_opens hf o
  listening _ := fun _ => .soft (fun _ => Iff.rfl) rfl rfl

end DocFerry
