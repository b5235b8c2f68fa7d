import DocFerry.Proof.Replies

/-!
# Which calls close a connection

`send` and `recv` of `BaseSocket`, made on a client in any order, with any buffers and sizes.

* `IoCall.run_send`, `IoCall.run_recv`: when one call closes the connection.
* `closed_for_reason_iff`: every close has a reason exactly when every `recv` of an open connection
  reaches the system and is not answered that it would block.
-/

namespace DocFerry

open Prog

/-- A call of `send` or `recv`; of the buffer of a `recv` it only matters whether there is one. -/
inductive IoCall
  | send (buf : Option (List UInt8)) (size : ℕ)
  | recv (buf : Bool) (size : ℕ)

/-- The call on the handler `this`. -/
def IoCall.run (E : Env) (this : ℕ) : IoCall → World → World
  | .send buf size, w => final (BaseSocket.send E this buf size w)
  | .recv buf size, w => final (BaseSocket.recv E this buf size w)

/-- The calls one after another; one that ends the process leaves the state it has ended in. -/
def runCalls (E : Env) (this : ℕ) (w : World) (cs : List IoCall) : World :=
  cs.foldl (fun w c => c.run E this w) w

/-- Does the call come to the system? The size goes through an `int`. -/
def IoCall.Reaches : IoCall → Prop
  | .send buf size => buf ≠ none ∧ 1 ≤ toInt size
  | .recv buf size => buf = true ∧ 1 ≤ intToSize (toInt size)

/-- The system gives a reason to close: an error other than that the call would block, or the end
of the stream. -/
def IoCall.Reason (E : Env) (w : World) : IoCall → Prop
  | .send _ _ => E.send w.nsend = .fatal
  | .recv _ _ => E.recv w.nrecv = .fatal ∨ E.recv w.nrecv = .data []

/-- A `recv` comes to the system, and is not answered that it would block. -/
def IoCall.Harmless (E : Env) (w : World) (c : IoCall) : Prop :=
  match c with
  | .send _ _ => True
  | .recv _ _ => c.Reaches ∧ E.recv w.nrecv ≠ .wouldBlock

/-- The handler `this` is there and registered in the map `m`, and its descriptor is open. -/
structure Attached (this m : ℕ) (w : World) : Prop where
  alive : w.dead this = false
  isOpen : w.descs (w.objs this).sock ≠ none
  registered : ∃ c, w.look m (w.objs this).sock = some ⟨this, c⟩

/-- Every close in a row of calls has a reason: whenever the connection is attached before a call
and not behind it, the call has come to the system and got a reason from it. -/
def ClosedForReason (E : Env) (this m : ℕ) (w : World) (cs : List IoCall) : Prop :=
  ∀ before c behind, cs = before ++ c :: behind → Attached this m (runCalls E this w before) →
    Attached this m (c.run E this (runCalls E this w before)) ∨
      c.Reaches ∧ c.Reason E (runCalls E this w before)

/-- What makes a handler a client: its class and its map. -/
structure IsClient (this m : ℕ) (w : World) : Prop where
  cls : (w.objs this).cls = .virusHandler
  map : (w.objs this).p_handlers = some m

variable {E : Env} {w w' : World} {this m size : ℕ} {c : IoCall}

/-! ### One call -/

theorem IoCall.run_local (c : IoCall) (w : World) : Local E this w (c.run E this w) := by
  cases c with
  | send buf size => exact send_local w
  | recv buf size => exact recv_local w

/-- A call leaves the class and the map of the handler. -/
theorem IsClient.run (h : IsClient this m w) (c : IoCall) : IsClient this m (c.run E this w) := by
  have hl : Local E this w (c.run E this w) := c.run_local w
  obtain ⟨hcls, -, hmap⟩ := hl.objs this
  exact ⟨hcls.trans h.cls, hmap.trans h.map⟩

/-- What is attached stays so when neither maps nor descriptors nor the handler change. -/
theorem Attached.of_eq (h : Attached this m w) (ho : (w'.objs this).sock = (w.objs this).sock)
    (hm : w'.maps = w.maps) (hd : w'.descs = w.descs) (ha : w'.dead = w.dead) : Attached this m w' := by
  obtain ⟨halive, hopen, c, hreg⟩ := h
  refine ⟨?_, ?_, c, ?_⟩
  · rw [ha]
    exact halive
  · rw [ho, hd]
    exact hopen
  · unfold World.look at hreg ⊢
    rw [ho, hm]
    exact hreg

/-- Closing detaches. -/
theorem not_attached_handleClosed (w : World) (this m : ℕ) :
    ¬ Attached this m (w.handleClosed E this m) := by
  rintro ⟨-, -, c, hreg⟩
  rw [(handleClosed_obj w E this m).1] at hreg
  rw [World.handleClosed, World.closed_look, if_pos ⟨rfl, rfl⟩] at hreg
  cases hreg

theorem handleExpt_client (ha : w.dead this = false) (h : IsClient this m w) :
    BaseSocket.handleExpt E this w =
      .ok ⟨⟩ ((w.logged (.callback this .expt)).handleClosed E this m) := by
  have ha' : (w.logged (.callback this .expt)).dead this = false := ha
  have hm : ((w.logged (.callback this .expt)).objs this).p_handlers = some m := h.map
  unfold BaseSocket.handleExpt
  rw [alive_bind ha, bind_of_ok run_act, bind_of_ok run_obj, World.logged_objs, h.cls]
  exact handleClose_eq ha' hm

/-- **A `send`** closes the connection exactly when it comes to the system and gets a fatal
answer. -/
theorem IoCall.run_send (hc : IsClient this m w) (ha : Attached this m w) (buf : Option (List UInt8))
    (size : ℕ) : Attached this m ((IoCall.send buf size).run E this w) ↔
      ¬ ((IoCall.send buf size).Reaches ∧ E.send w.nsend = .fatal) := by
  unfold IoCall.run IoCall.Reaches
  dsimp only
  by_cases hn : buf = none ∨ toInt size < 1
  · -- the system is not called
    rw [send_nothing ha.alive hn, final_ok]
    refine iff_of_true ha fun h => ?_
    rcases hn with hn | hn
    · exact h.1.1 hn
    · have := h.1.2
      omega
  · obtain ⟨hbuf, hl⟩ := not_or.1 hn
    obtain ⟨bs, rfl⟩ := Option.ne_none_iff_exists'.1 hbuf
    have hreach : some bs ≠ none ∧ 1 ≤ toInt size := ⟨hbuf, by omega⟩
    by_cases hp : E.send w.nsend = .pipe
    · -- the process is gone, and has closed nothing
      rw [send_pipe bs ha.alive hl ha.isOpen hp, final_error]
      exact iff_of_true (ha.of_eq rfl rfl rfl rfl) fun h => by rw [hp] at h; cases h.2
    obtain ⟨ret, hrun⟩ := send_open (E := E) bs ha.alive hc.map hl ha.isOpen hp
    rw [hrun, final_ok]
    by_cases hf : E.send w.nsend = .fatal
    · rw [if_pos hf]
      exact iff_of_false (not_attached_handleClosed _ _ _) fun h => h ⟨hreach, hf⟩
    · rw [if_neg hf]
      exact iff_of_true (ha.of_eq rfl rfl rfl rfl) fun h => hf h.2

/-- **A `recv`** leaves the connection attached exactly when it comes to the system and gets
bytes. -/
theorem IoCall.run_recv (hc : IsClient this m w) (ha : Attached this m w) (buf : Bool) (size : ℕ) :
    Attached this m ((IoCall.recv buf size).run E this w) ↔
      (IoCall.recv buf size).Reaches ∧ ∃ bs, bs ≠ [] ∧ E.recv w.nrecv = .data bs := by
  unfold IoCall.run IoCall.Reaches
  dsimp only
  -- what follows a call of the library that gave nothing
  have hends : ∀ ret w₁, (ret = 0 ∨ ret = -1) → w₁.dead this = false → IsClient this m w₁ →
      cpRecv E (w.objs this).sock buf (intToSize (toInt size)) w = .ok (ret, []) w₁ →
      ¬ Attached this m (final (BaseSocket.recv E this buf size w)) := by
    intro ret w₁ hret ha₁ hc₁ hrun
    unfold BaseSocket.recv
    rw [alive_bind ha.alive, bind_of_ok run_obj, bind_of_ok hrun]
    dsimp only
    rcases hret with rfl | rfl
    · rw [if_pos rfl, bind_of_ok (handleClose_eq ha₁ hc₁.map)]
      exact not_attached_handleClosed _ _ _
    · rw [if_neg (by decide), if_pos rfl, bind_of_ok (handleExpt_client ha₁ hc₁)]
      exact not_attached_handleClosed _ _ _
  by_cases hn : buf = false ∨ intToSize (toInt size) < 1
  · refine iff_of_false (hends 0 w (.inl rfl) ha.alive hc (cpRecv_nothing hn)) fun h => ?_
    rcases hn with rfl | hn
    · exact absurd h.1.1 (by decide)
    · have := h.1.2
      omega
  · obtain ⟨hbuf, hl⟩ := not_or.1 hn
    obtain rfl : buf = true := by simpa using hbuf
    have hreach : true = true ∧ 1 ≤ intToSize (toInt size) := ⟨rfl, by omega⟩
    have ha₁ : (w.received (w.objs this).sock).dead this = false := ha.alive
    have hc₁ : IsClient this m (w.received (w.objs this).sock) := ⟨hc.cls, hc.map⟩
    rcases cpRecv_cases E w (w.objs this).sock (by omega : 0 < intToSize (toInt size)) with
      ⟨hgone, -⟩ | ⟨-, ⟨bs, hd, hrun⟩ | ⟨hno, hrun⟩⟩
    · exact absurd hgone ha.isOpen
    · rcases eq_or_ne bs [] with rfl | hne
      · -- the end of the stream
        rw [List.take_nil] at hrun
        refine iff_of_false (hends 0 _ (.inl rfl) ha₁ hc₁ hrun) fun h => ?_
        obtain ⟨-, bs', hne, hd'⟩ := h
        rw [hd] at hd'
        cases hd'
        exact hne rfl
      · refine iff_of_true ?_ ⟨hreach, bs, hne, hd⟩
        have hpos : 0 < (bs.take (intToSize (toInt size))).length := by
          have := List.length_pos_iff.2 hne
          rw [List.length_take]
          omega
        unfold BaseSocket.recv
        rw [alive_bind ha.alive, bind_of_ok run_obj, bind_of_ok hrun]
        dsimp only
        rw [if_neg (by omega), if_neg (by omega)]
        exact ha.of_eq rfl rfl rfl rfl
    · refine iff_of_false (hends (-1) _ (.inr rfl) ha₁ hc₁ hrun) fun h => ?_
      obtain ⟨-, bs, -, hd⟩ := h
      exact hno bs hd

/-- **One call** closes for a reason exactly when it is harmless. -/
theorem IoCall.reason_iff (hc : IsClient this m w) (ha : Attached this m w) (c : IoCall) :
    (Attached this m (c.run E this w) ∨ c.Reaches ∧ c.Reason E w) ↔ c.Harmless E w := by
  cases c with
  | send buf size =>
    rw [IoCall.run_send hc ha]
    exact iff_of_true (Classical.or_iff_not_imp_left.2 not_not.1) trivial
  | recv buf size =>
    rw [IoCall.run_recv hc ha]
    constructor
    · rintro (⟨hreach, bs, -, hd⟩ | ⟨hreach, hf | hd⟩)
      · exact ⟨hreach, by rw [hd]; simp⟩
      · exact ⟨hreach, by rw [hf]; simp⟩
      · exact ⟨hreach, by rw [hd]; simp⟩
    · rintro ⟨hreach, hwb⟩
      cases hr : E.recv w.nrecv with
      | wouldBlock => exact absurd hr hwb
      | fatal => exact .inr ⟨hreach, .inl hr⟩
      | data bs =>
        rcases eq_or_ne bs [] with rfl | hne
        · exact .inr ⟨hreach, .inr hr⟩
        · exact .inl ⟨hreach, bs, hne, rfl⟩

/-! ### Rows of calls -/

/-- The calls leave the handler a client. -/
theorem IsClient.runCalls (h : IsClient this m w) (cs : List IoCall) :
    IsClient this m (runCalls E this w cs) := by
  induction cs generalizing w with
  | nil => exact h
  | cons c cs ih => exact ih (h.run c)

/-- **Every close has a reason**, in any row of `send` and `recv` calls on a client, exactly when
every `recv` that is made on the open connection comes to the system and is not answered that it
would block. -/
theorem closed_for_reason_iff (hc : IsClient this m w) (cs : List IoCall) :
    ClosedForReason E this m w cs ↔
      ∀ before c behind, cs = before ++ c :: behind → Attached this m (runCalls E this w before) →
        c.Harmless E (runCalls E this w before) := by
  unfold ClosedForReason
  refine forall_congr' fun before => forall_congr' fun c => forall_congr' fun behind => ?_
  exact forall_congr' fun _ => forall_congr' fun ha => IoCall.reason_iff (hc.runCalls before) ha c

theorem World.client_attached : Attached 0 0 (World.client []) := by
  refine ⟨rfl, by simp [World.client], 0, ?_⟩
  simp [World.look, World.client]

/-- A send of one byte, and a `recv` that finds the end of the stream. -/
theorem closed_for_reason_iff_end :
    ClosedForReason .steady 0 0 (.client []) [.send (some [1]) 1, .recv true 10] ↔
      ∀ before c behind, [.send (some [1]) 1, .recv true 10] = before ++ c :: behind →
        Attached 0 0 (runCalls .steady 0 (.client []) before) →
          c.Harmless .steady (runCalls .steady 0 (.client []) before) :=
  closed_for_reason_iff ⟨rfl, rfl⟩ _

/-- A system that has no bytes yet. -/
def Env.waiting : Env := { Env.steady with recv := fun _ => .wouldBlock }

/-- A `recv` that would block closes the connection, and so does one that asks for no byte and
never comes to the system. -/
theorem recv_closes_without_reason :
    ¬ ClosedForReason .waiting 0 0 (.client []) [.recv true 10] ∧
      ¬ ClosedForReason .waiting 0 0 (.client []) [.recv true 0] := by
  refine ⟨fun h => ?_, fun h => ?_⟩
  · have hharm := (closed_for_reason_iff ⟨rfl, rfl⟩ _).1 h [] (.recv true 10) [] rfl World.client_attached
    exact hharm.2 rfl
  · have hharm := (closed_for_reason_iff ⟨rfl, rfl⟩ _).1 h [] (.recv true 0) [] rfl World.client_attached
    exact absurd hharm.1.2 (by decide)

end DocFerry
