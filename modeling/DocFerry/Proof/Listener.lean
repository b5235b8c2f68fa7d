import DocFerry.Proof.Admit

/-!
# New listeners

* `createSocket_run`: `create_socket` registers the handler under the descriptor that the
  system has made.
* `tcpServer_new`: a `TCPServer` adds one listener, or one object that is registered
  nowhere.
-/

namespace DocFerry

open Prog

variable {E : Env} {w : World} {this m : ℕ} {sock : ℤ}

/-- `w'` is `w` after `create_socket` has come by the descriptor `sock`, where `old` is the one
that the handler had. -/
structure Socketed (old sock : ℤ) (w w' : World) : Prop where
  objs : w'.objs = w.objs
  nobj : w'.nobj = w.nobj
  dead : w'.dead = w.dead
  nfreed : w'.nfreed = w.nfreed
  maps : w'.maps = w.maps
  nctrl : w'.nctrl = w.nctrl
  log : w'.log = w.log
  naccept : w'.naccept = w.naccept
  ngetpeername : w'.ngetpeername = w.ngetpeername
  descs : (∀ k, (w'.descs k).map Desc.origin = (w.descs k).map Desc.origin) ∧
      (sock = old ∨ sock = -1) ∨
    0 ≤ sock ∧ w.descs sock = none ∧
      ∀ k, (w'.descs k).map Desc.origin =
        if k = sock then some .created else (w.descs k).map Desc.origin

theorem Socketed.setDescs {old : ℤ} {w' : World} {descs : ℤ → Option Desc}
    (h : Socketed old sock w w')
    (hd : ∀ k, (descs k).map Desc.origin = (w'.descs k).map Desc.origin) :
    Socketed old sock w { w' with descs := descs } := by
  refine ⟨h.objs, h.nobj, h.dead, h.nfreed, h.maps, h.nctrl, h.log, h.naccept, h.ngetpeername, ?_⟩
  rcases h.descs with ⟨hsame, hold⟩ | ⟨hpos, hfree, hnew⟩
  · exact .inl ⟨fun k => (hd k).trans (hsame k), hold⟩
  · exact .inr ⟨hpos, hfree, fun k => (hd k).trans (hnew k)⟩

/-- `sock` is what `socket` comes back with: the number that the system has made, if it is free, or -1. -/
structure Provided (E : Env) (w : World) (sock : ℤ) : Prop where
  answer : sock = -1 ∨ E.socket w.nsocket = some sock
  free : ∀ k, E.socket w.nsocket = some k → 0 ≤ k → w.descs k = none → sock = k

/-- **The system makes a socket**, on a free descriptor, or none. -/
theorem cpSocket_run (E : Env) (w : World) (old : ℤ) :
    ∃ sock w', cpSocket E w = .ok sock w' ∧ Socketed old sock w w' ∧ Provided E w sock := by
  unfold cpSocket
  rw [get_bind]
  have hnone : Socketed old (-1) w { w with nsocket := w.nsocket + 1 } :=
    ⟨rfl, rfl, rfl, rfl, rfl, rfl, rfl, rfl, rfl, .inl ⟨fun _ => rfl, .inr rfl⟩⟩
  cases hs : E.socket w.nsocket with
  | none =>
    refine ⟨-1, _, rfl, hnone, .inl rfl, fun k hk => ?_⟩
    rw [hs] at hk
    cases hk
  | some sock =>
    have hsame : ∀ k, E.socket w.nsocket = some k → k = sock := fun k hk =>
      Option.some.inj (hk.symm.trans hs)
    by_cases hfree : 0 ≤ sock ∧ w.descs sock = none
    · dsimp only
      rw [if_pos hfree]
      refine ⟨sock, _, rfl, ⟨rfl, rfl, rfl, rfl, rfl, rfl, rfl, rfl, rfl, .inr ⟨hfree.1, hfree.2, fun k => ?_⟩⟩,
        .inr hs, fun k hk _ _ => (hsame k hk).symm⟩
      simp only [World.openDesc]
      by_cases hk : k = sock
      · subst hk
        simp
      · simp [hk]
    · dsimp only
      rw [if_neg hfree]
      refine ⟨-1, _, rfl, hnone, .inl rfl, fun k hk h0 hnone => ?_⟩
      obtain rfl := hsame k hk
      exact absurd ⟨h0, hnone⟩ hfree

/-- `w` after the handler `this` was given the descriptor `sock`: it is registered under it in the map `m`
if the descriptor counts as valid. -/
def World.equipped (w : World) (this : ℕ) (sock : ℤ) (m : ℕ) : World :=
  if cpSocketValid sock = true then w.registered this sock m else w.setObj this ({ · with sock := sock })

theorem equipped_valid (hv : cpSocketValid sock = true) :
    w.equipped this sock m = w.registered this sock m := if_pos hv

theorem equipped_invalid (hv : ¬ cpSocketValid sock = true) :
    w.equipped this sock m = w.setObj this ({ · with sock := sock }) := if_neg hv

theorem equipped_objs :
    (w.equipped this sock m).objs = (w.setObj this ({ · with sock := sock })).objs := by
  unfold World.equipped
  split <;> rfl

/-- Registering touches the map alone. -/
theorem equipped_same : (w.equipped this sock m).log = w.log ∧ (w.equipped this sock m).nobj = w.nobj ∧
    (w.equipped this sock m).nfreed = w.nfreed ∧ (w.equipped this sock m).naccept = w.naccept ∧
    (w.equipped this sock m).ngetpeername = w.ngetpeername ∧ (w.equipped this sock m).descs = w.descs := by
  unfold World.equipped
  split <;> exact ⟨rfl, rfl, rfl, rfl, rfl, rfl⟩

theorem equipped_look (j : ℕ) (k : ℤ) : (w.equipped this sock m).look j k =
    if cpSocketValid sock = true ∧ j = m ∧ k = sock then some ⟨this, w.nctrl⟩ else w.look j k := by
  by_cases hv : cpSocketValid sock = true
  · rw [equipped_valid hv, registered_look]
    simp only [hv, true_and]
  · rw [equipped_invalid hv, if_neg (fun h => hv h.1)]
    rfl

/-- What was registered under the number before is destroyed. -/
theorem equipped_dead {i : ℕ} : (w.equipped this sock m).dead i = true ↔
    w.dead i = true ∨ cpSocketValid sock = true ∧ ∃ p, w.look m sock = some p ∧ p.obj = i := by
  by_cases hv : cpSocketValid sock = true
  · rw [equipped_valid hv, registered_dead]
    simp [hv]
  · rw [equipped_invalid hv]
    simp [hv, World.setObj]

/-- **`create_socket`** gives the handler the descriptor that it came by, and registers it if
the descriptor counts as valid. -/
theorem createSocket_run (E : Env) (hm : (w.objs this).p_handlers = some m) (type : SockType) :
    ∃ ret sock w', Socketed (w.objs this).sock sock w w' ∧
      BaseSocket.createSocket E this type w = .ok ret (w'.equipped this sock m) ∧
      (type = .other ∨ Provided E w sock) := by
  -- what follows on the descriptor, whichever the type
  have hrest : ∀ sock w', Socketed (w.objs this).sock sock w w' → ∃ ret w'',
      Socketed (w.objs this).sock sock w w'' ∧
      (do
        let o ← obj this
        if cpSocketValid o.sock then
          let _ ← cpSetblocking o.sock false
          BaseSocket.setSocket this o.sock o.p_handlers
          return (0 : ℤ)
        return -1 : Proc ℤ) (w'.setObj this ({ · with sock := sock })) = .ok ret (w''.equipped this sock m) := by
    intro sock w' h
    rw [bind_of_ok run_obj, World.setObj_same]
    by_cases hv : cpSocketValid sock = true
    · obtain ⟨ret, descs, hblk, horig⟩ :=
        cpSetblocking_cases (w'.setObj this ({ · with sock := sock })) sock false
      refine ⟨0, { w' with descs := descs }, h.setDescs horig, ?_⟩
      have hm' : (w'.objs this).p_handlers = some m := by rw [h.objs]; exact hm
      rw [equipped_valid hv]
      simp only [hv, if_true, hm']
      rw [bind_of_ok hblk, bind_of_ok setSocket_eq]
      simp only [World.registered, World.setMap, World.setObj, Function.update_self, Function.update_idem]
      rfl
    · refine ⟨-1, w', h, ?_⟩
      rw [equipped_invalid hv]
      simp only [hv]
      rfl
  have hsame : Socketed (w.objs this).sock (w.objs this).sock w w :=
    ⟨rfl, rfl, rfl, rfl, rfl, rfl, rfl, rfl, rfl, .inl ⟨fun _ => rfl, .inl rfl⟩⟩
  obtain ⟨sock, w', hsock, h, hfrom⟩ := cpSocket_run E w (w.objs this).sock
  cases type with
  | stream | dgram =>
    obtain ⟨ret, w'', h'', hrun⟩ := hrest sock w' h
    refine ⟨ret, sock, w'', h'', ?_, .inr hfrom⟩
    unfold BaseSocket.createSocket
    dsimp only
    rw [bind_of_ok hsock, bind_of_ok run_assign]
    exact hrun
  | other =>
    obtain ⟨ret, w'', h'', hrun⟩ := hrest _ w hsame
    refine ⟨ret, _, w'', h'', ?_, .inl rfl⟩
    have hid : w.setObj this ({ · with sock := (w.objs this).sock }) = w := by
      simp [World.setObj]
    unfold BaseSocket.createSocket
    rw [hid] at hrun
    exact hrun

/-- `bind` changes the address. -/
theorem bind_run (E : Env) (w : World) (this : ℕ) (addr : Addr) :
    ∃ ret n, BaseSocket.bind E this addr w =
      .ok ret { w.setObj this ({ · with addr := addr }) with nbind := n } := by
  unfold BaseSocket.bind cpBind
  rw [bind_of_ok run_assign]
  dsimp only
  by_cases h : cpInetPton E (BaseSocket.hostArg addr) = 0 ∨ cpInetPton E (BaseSocket.hostArg addr) = -1
  · rw [if_pos h]
    exact ⟨-2, w.nbind, rfl⟩
  · rw [if_neg h]
    exact ⟨_, _, rfl⟩

/-- `listen` makes the handler an accepting one. -/
theorem listen_run (E : Env) (w : World) (this : ℕ) :
    ∃ ret n, BaseSocket.listen E this w =
      .ok ret { w.setObj this ({ · with accepting := true }) with nlisten := n } :=
  ⟨_, _, rfl⟩

/-- `w'` is `w` with a new listener for `sock`, which is registered if `sock` counts as a valid
descriptor. -/
structure Listening (m : ℕ) (sock : ℤ) (w w' : World) : Prop where
  log : w'.log = w.log
  nobj : w'.nobj = w.nobj + 1
  nfreed : w'.nfreed = w.nfreed
  naccept : w'.naccept = w.naccept
  ngetpeername : w'.ngetpeername = w.ngetpeername
  obj : (w'.objs w.nobj).cls = .tcpServerImpl ∧ (w'.objs w.nobj).sock = sock ∧
    (w'.objs w.nobj).p_handlers = some m
  accepting : (w'.objs w.nobj).accepting = true
  others : ∀ i, i ≠ w.nobj → w'.objs i = w.objs i
  dead : ∀ i, i ≠ w.nobj →
    (w'.dead i = true ↔ w.dead i = true ∨ cpSocketValid sock = true ∧ ∃ p, w.look m sock = some p ∧ p.obj = i)
  own : (∀ p, w.look m sock = some p → p.obj ≠ w.nobj) → w'.dead w.nobj = false
  descs : sock = -1 ∧ (∀ k, (w'.descs k).map Desc.origin = (w.descs k).map Desc.origin) ∨
    0 ≤ sock ∧ w.descs sock = none ∧ ∀ k, (w'.descs k).map Desc.origin =
      if k = sock then some .created else (w.descs k).map Desc.origin
  maps : ∀ j k, w'.look j k =
    if cpSocketValid sock = true ∧ j = m ∧ k = sock then some ⟨w.nobj, w.nctrl⟩ else w.look j k

/-- **A new `TCPServer`** on the map `m`. -/
theorem tcpServer_new (E : Env) (w : World) (host : Option String) (port : UInt16) (m : ℕ) :
    ∃ sock w', TCPServer.new E host port (some m) w = .ok ⟨sock, w.nobj, m⟩ w' ∧ Listening m sock w w' ∧
      Provided E w sock := by
  -- the steps of the constructor: the object, its descriptor, then `bind` and `listen`
  set w₁ := w.alloc (BaseSocket.begun E .tcpServerImpl invalidSocket (some m)) with hw₁
  have hobj₁ : w₁.objs w.nobj = BaseSocket.begun E .tcpServerImpl invalidSocket (some m) := by
    simp [hw₁, World.alloc]
  have hm₁ : (w₁.objs w.nobj).p_handlers = some m := by rw [hobj₁]; rfl
  obtain ⟨ret, sock, w₂, h₂, hsock, hfrom⟩ := createSocket_run E hm₁ .stream
  set w₃ : World := w₂.equipped w.nobj sock m with hw₃
  obtain ⟨ret₄, n₄, hbind⟩ := bind_run E w₃ w.nobj (host.getD "", port)
  set w₄ : World := { w₃.setObj w.nobj ({ · with addr := (host.getD "", port) }) with nbind := n₄ }
    with hw₄
  obtain ⟨ret₅, n₅, hlisten⟩ := listen_run E w₄ w.nobj
  set w₅ : World := { w₄.setObj w.nobj ({ · with accepting := true }) with nlisten := n₅ } with hw₅
  have hnew : TCPServerImpl.new E (host.getD "") port (some m) w = .ok w.nobj w₅ := by
    unfold TCPServerImpl.new
    rw [bind_of_ok (new_invalid rfl _), bind_of_ok hsock, bind_of_ok hbind, bind_of_ok hlisten]
    rfl
  have hobj₃ : w₃.objs = (w₂.setObj w.nobj ({ · with sock := sock })).objs := equipped_objs
  have hobj₅ : (w₅.objs w.nobj).sock = sock := by simp [hw₅, hw₄, hobj₃, World.setObj]
  have hprov : Provided E w sock := by
    rcases hfrom with hother | hfrom
    · cases hother
    · exact ⟨hfrom.answer, hfrom.free⟩
  refine ⟨sock, w₅, ?_, ?_, hprov⟩
  · unfold TCPServer.new
    rw [show (some m).getD gHandlers = m from rfl, bind_of_ok hnew, bind_of_ok run_obj]
    have hsrv : (⟨(w₅.objs w.nobj).sock, w.nobj, m⟩ : TCPServer) = ⟨sock, w.nobj, m⟩ := by rw [hobj₅]
    exact congrArg (EStateM.Result.ok · w₅) hsrv
  obtain ⟨hlog, hnobj, hfreed, hacc, hpeer, hdescs⟩ : w₃.log = w₂.log ∧ w₃.nobj = w₂.nobj ∧
    w₃.nfreed = w₂.nfreed ∧ w₃.naccept = w₂.naccept ∧ w₃.ngetpeername = w₂.ngetpeername ∧
      w₃.descs = w₂.descs := equipped_same
  have hlook₂ : ∀ j k, w₂.look j k = w.look j k := by
    intro j k
    unfold World.look
    rw [h₂.maps]
    rfl
  have hdead₂ : w₂.dead = Function.update w.dead w.nobj false := h₂.dead
  have hdead₃ : ∀ i, w₃.dead i = true ↔
      w₂.dead i = true ∨ cpSocketValid sock = true ∧ ∃ p, w.look m sock = some p ∧ p.obj = i := by
    intro i
    rw [hw₃, equipped_dead, hlook₂]
  refine ⟨hlog.trans h₂.log, hnobj.trans h₂.nobj, hfreed.trans h₂.nfreed, hacc.trans h₂.naccept,
    hpeer.trans h₂.ngetpeername, ?_, ?_, fun i hi => ?_, fun i hi => ?_, fun hfree => ?_, ?_, fun j k => ?_⟩
  · simp [hw₅, hw₄, hobj₃, h₂.objs, hobj₁, BaseSocket.begun, World.setObj]
  · simp [hw₅]
  · simp [hw₅, hw₄, hobj₃, h₂.objs, hw₁, World.setObj, World.alloc, hi]
  · change w₃.dead i = true ↔ _
    rw [hdead₃, hdead₂, Function.update_of_ne hi]
  · change w₃.dead w.nobj = false
    rw [Bool.eq_false_iff, Ne, hdead₃, hdead₂, Function.update_self]
    have hnot : ¬ ∃ p, w.look m sock = some p ∧ p.obj = w.nobj := by
      rintro ⟨p, hp, heq⟩
      exact hfree p hp heq
    simp [hnot]
  · -- one descriptor more is open, or none
    change (sock = -1 ∧ ∀ k, (w₃.descs k).map _ = _) ∨ _ ∧ _ ∧ ∀ k, (w₃.descs k).map _ = _
    rw [hdescs]
    rcases h₂.descs with ⟨hsame, hold⟩ | hopen
    · refine .inl ⟨?_, hsame⟩
      rw [hobj₁] at hold
      exact hold.elim id id
    · exact .inr hopen
  · -- only a valid descriptor is registered
    change w₃.look j k = _
    rw [hw₃, equipped_look, hlook₂, h₂.nctrl]
    rfl

/-- **What is registered after a new listener** was so before, or is the listener, on a descriptor that
was free. -/
theorem Listening.registers {w' : World} {k : ℤ} {p : SharedPtr} (h : Listening m sock w w')
    (hp : w'.look m k = some p) :
    w.look m k = some p ∨
      p = ⟨w.nobj, w.nctrl⟩ ∧ k = sock ∧ 0 < sock ∧ w.descs sock = none := by
  rw [h.maps] at hp
  by_cases hnew : cpSocketValid sock = true ∧ m = m ∧ k = sock
  · rw [if_pos hnew] at hp
    obtain ⟨hv, -, hk⟩ := hnew
    unfold cpSocketValid invalidSocket at hv
    simp only [Bool.and_eq_true, decide_eq_true_eq] at hv
    rcases h.descs with ⟨hs, -⟩ | ⟨hpos, hfree, -⟩
    · exact absurd hs hv.2
    · exact .inr ⟨(Option.some.inj hp).symm, hk, by omega, hfree⟩
  · rw [if_neg hnew] at hp
    exact .inl hp

end DocFerry
