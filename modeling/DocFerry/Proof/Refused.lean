import DocFerry.Proof.Calls

/-!
# Calls on the socket that are refused

`listen`, `bind` and `connect` set their fields before they ask the system, and set nothing
back. `connect` besides reads `errno` where no system call was made.

* `connect_cases`: the ways in which `connect` ends.
* `refused_iff`: a call that fails leaves the handler as it was exactly when there was nothing
  to change.
-/

namespace DocFerry

open Prog

variable {E : Env} {w w' : World} {this : ℕ} {addr : Addr}

/-- The members that decide how events are dispatched, and the address. -/
structure SameFields (o o' : BaseSocket) : Prop where
  addr : o'.addr = o.addr
  connected : o'.connected = o.connected
  connecting : o'.connecting = o.connecting
  accepting : o'.accepting = o.accepting

/-- If the call reports a failure, then the members are as before and no callback was begun. -/
def Undone (this : ℕ) (w : World) (r : EStateM.Result Fault World ℤ) : Prop :=
  ∀ ret w', r = .ok ret w' → ret ≠ 0 → SameFields (w.objs this) (w'.objs this) ∧
    ∃ l, w'.log = w.log ++ l ∧ ∀ i cb, .callback i cb ∉ l

/-- The host is one that `cp_inet_pton` turns down. -/
def BadHost (E : Env) (addr : Addr) : Prop :=
  cpInetPton E (BaseSocket.hostArg addr) = 0 ∨ cpInetPton E (BaseSocket.hostArg addr) = -1

/-- `cp_connect` makes the system call. -/
structure Dials (E : Env) (addr : Addr) : Prop where
  host : BaseSocket.hostArg addr ≠ none
  port : addr.2 ≠ 0
  good : ¬ BadHost E addr

instance (E : Env) (addr : Addr) : Decidable (BadHost E addr) := inferInstanceAs (Decidable (_ ∨ _))

instance (E : Env) (addr : Addr) : Decidable (Dials E addr) :=
  decidable_of_iff (BaseSocket.hostArg addr ≠ none ∧ addr.2 ≠ 0 ∧ ¬ BadHost E addr)
    ⟨fun ⟨h1, h2, h3⟩ => ⟨h1, h2, h3⟩, fun ⟨h1, h2, h3⟩ => ⟨h1, h2, h3⟩⟩

/-- What `errno` reads behind `cp_connect`: the failure of the system call, or what an earlier
call has left there. -/
def World.errnoAfter (w : World) (E : Env) (addr : Addr) : Errno :=
  match E.connect w.nconnect with
  | .ok => E.errno w.nconnect
  | .fail errno => if Dials E addr then errno else E.errno w.nconnect

/-- The system goes on connecting. -/
def InProgress (E : Env) (w : World) (addr : Addr) : Prop :=
  Dials E addr ∧ E.connect w.nconnect = .fail .inProgress

/-- The system has connected the socket. -/
def Connects (E : Env) (w : World) (addr : Addr) : Prop := Dials E addr ∧ E.connect w.nconnect = .ok

/-- Where the system was not called, `errno` is an old one. -/
theorem errnoAfter_stale (h : ¬ Dials E addr) : w.errnoAfter E addr = E.errno w.nconnect := by
  unfold World.errnoAfter
  cases E.connect w.nconnect with
  | ok => rfl
  | fail errno => exact if_neg h

/-! ### The calls -/

/-- `w` after a call of `connect` that has failed, `addr` its new address. -/
def World.dialled (w : World) (this : ℕ) (addr : Addr) : World :=
  { w.setObj this ({ · with connected := false, connecting := true, addr := addr }) with
    nconnect := w.nconnect + 1 }

/-- `cp_connect` by what it does. -/
theorem cpConnect_cases (E : Env) (w : World) (addr : Addr) :
    ∃ ret, cpConnect E (BaseSocket.hostArg addr) addr.2 w =
        .ok (ret, w.errnoAfter E addr) { w with nconnect := w.nconnect + 1 } ∧
      (ret = 0 ↔ Connects E w addr) := by
  unfold cpConnect
  rw [get_bind, bind_of_ok run_set]
  by_cases hearly : BaseSocket.hostArg addr = none ∨ addr.2 = 0
  · have hno : ¬ Dials E addr := fun h => hearly.elim h.host h.port
    rw [if_pos hearly]
    refine ⟨-2, ?_, iff_of_false (by decide) (fun h => hno h.1)⟩
    rw [errnoAfter_stale hno]
    rfl
  · rw [if_neg hearly]
    by_cases hbad : BadHost E addr
    · have hno : ¬ Dials E addr := fun h => h.good hbad
      refine ⟨-3, ?_, iff_of_false (by decide) (fun h => hno h.1)⟩
      unfold BadHost at hbad
      rw [errnoAfter_stale hno, if_pos hbad]
      rfl
    · have hdials : Dials E addr := ⟨fun h => hearly (.inl h), fun h => hearly (.inr h), hbad⟩
      -- the system is asked
      unfold BadHost at hbad
      unfold World.errnoAfter Connects
      rw [if_neg hbad]
      cases hc : E.connect w.nconnect with
      | ok => exact ⟨0, rfl, iff_of_true rfl ⟨hdials, rfl⟩⟩
      | fail errno =>
        refine ⟨-1, ?_, iff_of_false (by decide) (fun h => by cases h.2)⟩
        dsimp only
        rw [if_pos hdials]
        rfl

/-- **What `connect` comes to**: the connect event and 0, or a failure, behind which only the
address depends on `errno`. -/
theorem connect_cases (E : Env) (w : World) (this : ℕ) (addr : Addr) :
    (Connects E w addr ∨ w.errnoAfter E addr = .isConnected) ∧
        (∀ ret w', BaseSocket.connect E this addr w = .ok ret w' → ret = 0) ∨
      ¬ Connects E w addr ∧ ∃ a, BaseSocket.connect E this addr w = .ok (-1) (w.dialled this a) ∧
        (w.errnoAfter E addr = .inProgress ∧ a = addr ∨
          w.errnoAfter E addr = .other ∧ a = (w.objs this).addr) := by
  set w₁ := w.setObj this ({ · with connected := false, connecting := true }) with hw₁
  obtain ⟨ret, hrun, hret⟩ := cpConnect_cases E w₁ addr
  have herrno : w₁.errnoAfter E addr = w.errnoAfter E addr := rfl
  -- every way to 0 goes through the connect event
  have hzero : ∀ (a : Addr) (s : World) (ret : ℤ) (w' : World),
      (do
        assign this ({ · with addr := a })
        BaseSocket.handleConnectEvent E this
        return 0 : Proc ℤ) s = .ok ret w' → ret = 0 := by
    intro a s ret w' h
    obtain ⟨_, s₁, -, h⟩ := bind_eq_ok.1 h
    obtain ⟨_, s₂, -, h⟩ := bind_eq_ok.1 h
    cases h
    rfl
  unfold BaseSocket.connect
  rw [bind_of_ok run_assign, ← hw₁, bind_of_ok hrun]
  dsimp only
  by_cases h0 : ret = 0
  · rw [if_pos h0]
    exact .inl ⟨.inl (hret.1 h0), fun ret' w' h => hzero addr _ ret' w' h⟩
  · rw [if_neg h0, herrno]
    have hno : ¬ Connects E w addr := fun h => h0 (hret.2 h)
    cases he : w.errnoAfter E addr with
    | isConnected => exact .inl ⟨.inr rfl, fun ret' w' h => hzero addr _ ret' w' h⟩
    | inProgress =>
      refine .inr ⟨hno, addr, ?_, .inl ⟨rfl, rfl⟩⟩
      simp only [run_bind, run_assign, run_pure, World.dialled, World.setObj, hw₁, Function.update_self,
        Function.update_idem]
    | other =>
      refine .inr ⟨hno, (w.objs this).addr, ?_, .inr ⟨rfl, rfl⟩⟩
      simp only [run_pure, World.dialled, World.setObj, hw₁]

/-! ### Failures -/

/-- Of a call that wrote nothing to the log, the members decide. -/
theorem undone_iff {ret : ℤ} (hl : w'.log = w.log) :
    Undone this w (.ok ret w') ↔ (ret ≠ 0 → SameFields (w.objs this) (w'.objs this)) := by
  constructor
  · intro h hret
    exact (h ret w' rfl hret).1
  · rintro h ret' w'' heq hret
    obtain ⟨rfl, rfl⟩ := EStateM.Result.ok.inj heq
    exact ⟨h hret, [], by simp [hl], fun i cb => List.not_mem_nil⟩

theorem listen_undone_iff (E : Env) (w : World) (this : ℕ) :
    Undone this w (BaseSocket.listen E this w) ↔
      E.listen w.nlisten = 0 ∨ (w.objs this).accepting = true := by
  have hrun : BaseSocket.listen E this w = .ok (E.listen w.nlisten)
      { w.setObj this ({ · with accepting := true }) with nlisten := w.nlisten + 1 } := rfl
  have hsame : SameFields (w.objs this) ((w.setObj this ({ · with accepting := true })).objs this) ↔
      (w.objs this).accepting = true := by
    rw [World.setObj_same]
    exact ⟨fun h => h.accepting.symm, fun h => ⟨rfl, rfl, rfl, h.symm⟩⟩
  rw [hrun]
  refine (undone_iff ?_).trans ?_
  · rfl
  · rw [or_iff_not_imp_left]
    exact imp_congr_right fun _ => hsame

theorem bind_undone_iff (E : Env) (w : World) (this : ℕ) (addr : Addr) :
    Undone this w (BaseSocket.bind E this addr w) ↔
      ¬ BadHost E addr ∧ E.bind w.nbind = 0 ∨ (w.objs this).addr = addr := by
  have hsame : SameFields (w.objs this) ((w.setObj this ({ · with addr := addr })).objs this) ↔
      (w.objs this).addr = addr := by
    rw [World.setObj_same]
    exact ⟨fun h => h.addr.symm, fun h => ⟨h.symm, rfl, rfl, rfl⟩⟩
  by_cases hbad : BadHost E addr
  · -- `addr` is assigned before the host is looked at
    have hrun : BaseSocket.bind E this addr w = .ok (-2) (w.setObj this ({ · with addr := addr })) := by
      unfold BaseSocket.bind cpBind
      unfold BadHost at hbad
      rw [bind_of_ok run_assign, if_pos hbad]
      rfl
    rw [hrun]
    refine (undone_iff ?_).trans ⟨?_, ?_⟩
    · rfl
    · intro h
      exact .inr (hsame.1 (h (by decide)))
    · rintro (⟨hgood, -⟩ | h) _
      · exact absurd hbad hgood
      · exact hsame.2 h
  · have hrun : BaseSocket.bind E this addr w = .ok (E.bind w.nbind)
        { w.setObj this ({ · with addr := addr }) with nbind := w.nbind + 1 } := by
      unfold BaseSocket.bind cpBind
      unfold BadHost at hbad
      rw [bind_of_ok run_assign, if_neg hbad]
      rfl
    rw [hrun]
    refine (undone_iff ?_).trans ?_
    · rfl
    · rw [and_iff_right hbad, or_iff_not_imp_left]
      exact imp_congr_right fun _ => hsame

/-- The members that `connect` has changed when it fails. -/
theorem dialled_same_iff (w : World) (this : ℕ) (a : Addr) :
    SameFields (w.objs this) ((w.dialled this a).objs this) ↔
      (w.objs this).connected = false ∧ (w.objs this).connecting = true ∧ (w.objs this).addr = a := by
  have hobj : (w.dialled this a).objs this =
      { w.objs this with connected := false, connecting := true, addr := a } :=
    Function.update_self ..
  rw [hobj]
  constructor
  · intro h
    exact ⟨h.connected.symm, h.connecting.symm, h.addr.symm⟩
  · rintro ⟨h1, h2, h3⟩
    exact ⟨h3.symm, h1.symm, h2.symm, rfl⟩

theorem connect_undone_iff (E : Env) (w : World) (this : ℕ) (addr : Addr) :
    Undone this w (BaseSocket.connect E this addr w) ↔
      Connects E w addr ∨ w.errnoAfter E addr = .isConnected ∨
        (w.objs this).connected = false ∧ (w.objs this).connecting = true ∧
          (w.errnoAfter E addr = .inProgress → (w.objs this).addr = addr) := by
  rcases connect_cases E w this addr with ⟨hok, hret⟩ | ⟨hno, a, hrun, ha⟩
  · refine iff_of_true (fun ret w' h hne => absurd (hret ret w' h) hne) ?_
    exact hok.elim .inl (fun h => .inr (.inl h))
  · have hlog : (w.dialled this a).log = w.log := rfl
    rw [hrun, undone_iff hlog]
    have hsame := dialled_same_iff w this a
    rcases ha with ⟨he, rfl⟩ | ⟨he, rfl⟩
    · -- in progress: the call has set `addr` as well
      rw [he, hsame]
      constructor
      · intro h
        obtain ⟨h1, h2, h3⟩ := h (by decide)
        exact .inr (.inr ⟨h1, h2, fun _ => h3⟩)
      · rintro (h | h | ⟨h1, h2, h3⟩) _
        · exact absurd h hno
        · cases h
        · exact ⟨h1, h2, h3 rfl⟩
    · -- any other error: only the flags have changed
      rw [he, hsame]
      constructor
      · intro h
        obtain ⟨h1, h2, -⟩ := h (by decide)
        exact .inr (.inr ⟨h1, h2, fun h => by cases h⟩)
      · rintro (h | h | ⟨h1, h2, -⟩) _
        · exact absurd h hno
        · cases h
        · exact ⟨h1, h2, rfl⟩

/-- **A call that is refused** leaves the members of the handler, and calls nothing back,
exactly when they had the values that the call sets: `listen` the accepting flag, `bind` the
address, `connect` its two flags and, where `errno` reads as if it went on, the address. -/
theorem refused_iff (E : Env) (w : World) (this : ℕ) (addr : Addr) :
    (Undone this w (BaseSocket.listen E this w) ↔
      E.listen w.nlisten = 0 ∨ (w.objs this).accepting = true) ∧
    (Undone this w (BaseSocket.bind E this addr w) ↔
      ¬ BadHost E addr ∧ E.bind w.nbind = 0 ∨ (w.objs this).addr = addr) ∧
    ((¬ InProgress E w addr → Undone this w (BaseSocket.connect E this addr w)) ↔
      InProgress E w addr ∨ Connects E w addr ∨ w.errnoAfter E addr = .isConnected ∨
        (w.objs this).connected = false ∧ (w.objs this).connecting = true ∧
          (w.errnoAfter E addr = .inProgress → (w.objs this).addr = addr)) := by
  refine ⟨listen_undone_iff E w this, bind_undone_iff E w this addr, ?_⟩
  rw [connect_undone_iff]
  exact or_iff_not_imp_left.symm

/-- The process with one handler, for a new stream socket. -/
def World.socketed (E : Env) : World :=
  final ((do
    let this ← BaseSocket.new E .baseSocket invalidSocket none
    let _ ← BaseSocket.createSocket E this .stream : Proc Unit) World.init)

/-- A system that turns down hosts and listeners, behind a connection attempt that goes on. -/
def Env.refusing : Env :=
  { Env.steady with listen := fun _ => -1, inet_pton := fun _ => 0, errno := fun _ => .inProgress }

/-- On a new socket all three calls fail and leave something behind; the system was not even
called for `bind` and `connect`. -/
theorem refused_changes :
    ¬ Undone 0 (.socketed .refusing) (BaseSocket.listen .refusing 0 (.socketed .refusing)) ∧
    ¬ Undone 0 (.socketed .refusing)
      (BaseSocket.bind .refusing 0 ("no.such.host", 80) (.socketed .refusing)) ∧
    ¬ InProgress .refusing (.socketed .refusing) ("no.such.host", 80) ∧
    ¬ Undone 0 (.socketed .refusing)
      (BaseSocket.connect .refusing 0 ("no.such.host", 80) (.socketed .refusing)) := by
  have hbad : BadHost .refusing ("no.such.host", 80) := .inl (by decide)
  refine ⟨?_, ?_, fun h => h.1.good hbad, ?_⟩
  · rw [listen_undone_iff]
    rintro (h | h)
    · cases h
    · revert h; decide +kernel
  · rw [bind_undone_iff]
    rintro (⟨hgood, -⟩ | h)
    · exact hgood hbad
    · revert h; decide +kernel
  · rw [connect_undone_iff]
    rintro (h | h | ⟨-, h, -⟩)
    · exact h.1.good hbad
    · rw [errnoAfter_stale (fun h => h.good hbad)] at h
      cases h
    · revert h; decide +kernel

end DocFerry
