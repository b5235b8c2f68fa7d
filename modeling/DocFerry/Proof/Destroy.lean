import DocFerry.Proof.Leaks

/-!
# Servers that are destroyed

`~TCPServer` erases what is registered under the number that its listener had at first, and closes
nothing.

* `Hosted`: the runs of any number of servers on one map, with the servers that were destroyed.
* `Servers`: what holds between the steps of a run. A listener's descriptor is open and its number stands
  for no other handler, or it was closed and the listener is registered nowhere. The event that closes a
  listener destroys it, and misses the descriptor unless the freed memory still holds the number.
* `delete_right_iff`: which destructions do what they should.
-/

namespace DocFerry

open Prog

/-- The process, its servers, and those servers whose listening descriptor was closed since they were
made. -/
structure Hosting where
  world : World
  servers : List TCPServer
  closed : List TCPServer

/-- The process has come to `w'`. -/
def Hosting.next (s : Hosting) (w' : World) : Hosting :=
  ⟨w', s.servers, s.closed ++ s.servers.filter fun srv => (w'.descs srv.p_impl_sock).isNone⟩

/-- The same, with a new server. -/
def Hosting.add (s : Hosting) (srv : TCPServer) (w' : World) : Hosting :=
  { s.next w' with servers := s.servers ++ [srv] }

/-- The same, without the server. -/
def Hosting.remove (s : Hosting) (srv : TCPServer) (w' : World) : Hosting :=
  { s.next w' with servers := s.servers.filter (·.p_impl ≠ srv.p_impl) }

/-- The process before it has done anything. -/
def Hosting.start : Hosting := ⟨World.init, [], []⟩

/-- The destruction of a server: the states before and after it. -/
structure Destruction where
  srv : TCPServer
  before : Hosting
  after : Hosting

/-- The runs of servers on the map `m`, and the destructions in them. A run ends with a call that does not
return. -/
inductive Hosted (E : Env) (m : ℕ) : Hosting → List Destruction → Prop
  | init : Hosted E m .start []
  | server {s : Hosting} {ds : List Destruction} (h : Hosted E m s ds) (host : Option String) (port : UInt16)
      {srv : TCPServer} {w' : World} (hrun : TCPServer.new E host port (some m) s.world = .ok srv w') :
      Hosted E m (s.add srv w') ds
  | select {s : Hosting} {ds : List Destruction} (h : Hosted E m s ds) :
      Hosted E m (s.next { s.world with nselect := s.world.nselect + 1 }) ds
  | event {s : Hosting} {ds : List Destruction} (h : Hosted E m s ds) {k : ℤ} {p : SharedPtr} {bit : Bit}
      {w' : World} (hp : s.world.look m k = some p)
      (hrun : BaseSocket.handleEvent E p.obj bit (s.world.logged (.event p.obj k bit)) = .ok ⟨⟩ w') :
      Hosted E m (s.next w') ds
  | delete {s : Hosting} {ds : List Destruction} (h : Hosted E m s ds) {srv : TCPServer} {w' : World}
      (hsrv : srv ∈ s.servers) (hrun : TCPServer.delete srv s.world = .ok ⟨⟩ w') :
      Hosted E m (s.remove srv w') (ds ++ [⟨srv, s, s.remove srv w'⟩])

/-- A destruction takes from the maps no more than the entry of the server's own `TCPServerImpl`, puts
nothing in, and the listening descriptor has been closed, if there was one. -/
structure Destruction.Right (d : Destruction) : Prop where
  own : ∀ j k p, d.before.world.look j k = some p → d.after.world.look j k ≠ some p →
    p.obj = d.srv.p_impl
  adds : ∀ j k p, d.after.world.look j k = some p → d.before.world.look j k = some p
  closed : d.srv.p_impl_sock = -1 ∨ d.srv ∈ d.after.closed

/-- There was no listening descriptor; or an event has closed it, and its number is free. -/
def Destruction.Harmless (m : ℕ) (d : Destruction) : Prop :=
  d.srv.p_impl_sock = -1 ∨
    d.srv ∈ d.before.closed ∧ d.before.world.look m d.srv.p_impl_sock = none

/-- What is known of a server. -/
structure TCPServer.Known (m : ℕ) (w : World) (srv : TCPServer) : Prop where
  map : srv.p_handlers = m
  lt : srv.p_impl < w.nobj
  sock : (w.objs srv.p_impl).sock = srv.p_impl_sock

/-- The descriptor has been open all the time, and its number stands for the server's own listener. -/
structure TCPServer.Opened (m : ℕ) (w : World) (closed : List TCPServer) (srv : TCPServer) : Prop where
  isOpen : w.descs srv.p_impl_sock ≠ none
  own : ∀ p, w.look m srv.p_impl_sock = some p → p.obj = srv.p_impl
  notClosed : srv ∉ closed

/-- The descriptor was closed, and the listener is registered nowhere. -/
structure TCPServer.Shut (m : ℕ) (w : World) (closed : List TCPServer) (srv : TCPServer) : Prop where
  mem : srv ∈ closed
  unregistered : ∀ k p, w.look m k = some p → p.obj ≠ srv.p_impl

/-- What holds between the steps of a run. -/
structure Servers (m : ℕ) (s : Hosting) : Prop where
  server : Server m s.world
  known : ∀ srv ∈ s.servers, srv.Known m s.world
  past : ∀ srv ∈ s.closed, srv.p_impl < s.world.nobj
  listener : ∀ srv ∈ s.servers,
    srv.p_impl_sock = -1 ∨ srv.Opened m s.world s.closed ∨ srv.Shut m s.world s.closed

variable {E : Env} {m : ℕ} {s : Hosting} {ds : List Destruction} {w w' : World} {srv : TCPServer} {k : ℤ}
  {p : SharedPtr} {bit : Bit}

theorem Hosting.mem_next {s : Hosting} {w' : World} {srv : TCPServer} :
    srv ∈ (s.next w').closed ↔
      srv ∈ s.closed ∨ srv ∈ s.servers ∧ w'.descs srv.p_impl_sock = none := by
  unfold Hosting.next
  rw [List.mem_append, List.mem_filter, Option.isNone_iff_eq_none]

/-- **A step that opens nothing under an open number**, and registers old handlers or new ones. -/
theorem Servers.next (h : Servers m s) (hS : Server m w') (hn : s.world.nobj ≤ w'.nobj)
    (hsock : ∀ i < s.world.nobj, (w'.objs i).sock = (s.world.objs i).sock)
    (hreg : ∀ k p, w'.look m k = some p →
      s.world.look m k = some p ∨ s.world.nobj ≤ p.obj ∧ s.world.descs k = none) :
    Servers m (s.next w') := by
  have hknown : ∀ srv ∈ s.servers, srv.Known m w' := by
    intro srv hsrv
    obtain ⟨hmap, hlt, hs⟩ := h.known srv hsrv
    exact ⟨hmap, lt_of_lt_of_le hlt hn, (hsock _ hlt).trans hs⟩
  refine ⟨hS, hknown, fun srv hsrv => ?_, fun srv hsrv => ?_⟩
  · rcases Hosting.mem_next.1 hsrv with hold | ⟨hmem, -⟩
    · exact lt_of_lt_of_le (h.past srv hold) hn
    · exact (hknown srv hmem).lt
  have hlt := (h.known srv hsrv).lt
  rcases h.listener srv hsrv with hnone | ho | hc
  · exact .inl hnone
  · right
    by_cases hd : w'.descs srv.p_impl_sock = none
    · -- closed in this step: a registered handler has an open descriptor
      refine .inr ⟨Hosting.mem_next.2 (.inr ⟨hsrv, hd⟩), fun k p hp hobj => ?_⟩
      have hr := hS k p hp
      have hk : k = srv.p_impl_sock := by rw [← hr.sock, hobj, (hknown srv hsrv).sock]
      exact hr.isOpen (hk ▸ hd)
    · refine .inl ⟨hd, fun p hp => ?_, fun hmem => ?_⟩
      · rcases hreg _ p hp with hold | ⟨-, hfree⟩
        · exact ho.own p hold
        · exact absurd hfree ho.isOpen
      · rcases Hosting.mem_next.1 hmem with hold | ⟨-, hnone⟩
        · exact ho.notClosed hold
        · exact hd hnone
  · refine .inr (.inr ⟨Hosting.mem_next.2 (.inl hc.mem), fun k p hp => ?_⟩)
    rcases hreg k p hp with hold | ⟨hge, -⟩
    · exact hc.unregistered k p hold
    · intro hobj
      omega

/-- **An event** is such a step. -/
theorem Servers.event (h : Servers m s) (hp : s.world.look m k = some p)
    (hrun : BaseSocket.handleEvent E p.obj bit (s.world.logged (.event p.obj k bit)) = .ok ⟨⟩ w') :
    Servers m (s.next w') := by
  have hS : Server m (s.world.logged (.event p.obj k bit)) := h.server.congr rfl rfl rfl rfl rfl
  have hstep := (event_stepped (E := E) hS hp bit).server
  have hobjs := event_objs (E := E) hS hp bit
  have hregs := event_registers (E := E) hS hp bit
  rw [hrun, final_ok] at hstep hobjs hregs
  refine h.next hstep hobjs.1 hobjs.2 fun k' p' hp' => ?_
  rcases hregs k' p' hp' with hold | ⟨-, -, -, hge, hinc, -⟩
  · exact .inl hold
  · exact .inr ⟨hge, hinc.2.2⟩

/-- **A new server** has its own number. -/
theorem Servers.server_new (h : Servers m s) {host : Option String} {port : UInt16}
    (hrun : TCPServer.new E host port (some m) s.world = .ok srv w') :
    Servers m (s.add srv w') := by
  obtain ⟨sock, w'', hnew, hl, -⟩ := tcpServer_new E s.world host port m
  rw [hrun] at hnew
  cases hnew
  have hS := (hl.keeps h.server).1
  have hreg : ∀ k p, w'.look m k = some p →
      s.world.look m k = some p ∨ s.world.nobj ≤ p.obj ∧ s.world.descs k = none := by
    intro k p hp
    rcases hl.registers hp with hold | ⟨rfl, rfl, -, hfree⟩
    · exact .inl hold
    · exact .inr ⟨le_rfl, hfree⟩
  have hold := h.next hS (by rw [hl.nobj]; exact Nat.le_succ _)
    (fun i hi => by rw [hl.others i hi.ne]) hreg
  have hknown : TCPServer.Known m w' ⟨sock, s.world.nobj, m⟩ := by
    refine ⟨rfl, ?_, hl.obj.2.1⟩
    rw [hl.nobj]
    exact Nat.lt_succ_self _
  refine ⟨hS, fun srv hsrv => ?_, hold.past, fun srv hsrv => ?_⟩
  · rcases List.mem_append.1 hsrv with hsrv | hsrv
    · exact hold.known srv hsrv
    · rw [List.mem_singleton.1 hsrv]
      exact hknown
  · rcases List.mem_append.1 hsrv with hsrv | hsrv
    · exact hold.listener srv hsrv
    · rw [List.mem_singleton.1 hsrv]
      by_cases hne : sock = -1
      · exact .inl hne
      · -- the system has just opened the descriptor
        obtain ⟨hfree, hd⟩ := (hl.descs.resolve_left fun hs => hne hs.1).2
        have hopen : w'.descs sock ≠ none := by
          intro hnone
          have hnew := hd sock
          rw [if_pos rfl, hnone] at hnew
          cases hnew
        refine .inr (.inl ⟨hopen, fun p hp => ?_, fun hmem => ?_⟩)
        · rcases hl.registers hp with hold | ⟨rfl, -⟩
          · rw [h.server.look_free hfree] at hold
            cases hold
          · rfl
        · -- no server that there was has its number
          rcases Hosting.mem_next.1 hmem with hpast | ⟨hsrv', -⟩
          · exact absurd (h.past _ hpast) (lt_irrefl _)
          · exact absurd (h.known _ hsrv').lt (lt_irrefl _)

/-- What the destructor does. -/
theorem delete_look (hrun : TCPServer.delete srv w = .ok ⟨⟩ w') (j : ℕ) (k : ℤ) :
    w'.look j k = if j = srv.p_handlers ∧ k = srv.p_impl_sock then none else w.look j k := by
  cases hrun
  exact World.look_erase

/-- **A destruction** leaves the other servers. -/
theorem Servers.delete (h : Servers m s) (hsrv : srv ∈ s.servers)
    (hrun : TCPServer.delete srv s.world = .ok ⟨⟩ w') :
    Servers m (s.remove srv w') := by
  have hlook : ∀ k p, w'.look m k = some p → s.world.look m k = some p := by
    intro k p hp
    rw [delete_look hrun] at hp
    split at hp
    · cases hp
    · exact hp
  have hS : Server m w' := by
    intro k p hp
    have hold := hlook k p hp
    have hgone : ¬ (m = srv.p_handlers ∧ k = srv.p_impl_sock) := by
      intro hk
      rw [delete_look hrun, if_pos hk] at hp
      cases hp
    refine (h.server k p hold).mono (by cases hrun; exact le_rfl) (by cases hrun; exact ⟨rfl, rfl, rfl⟩) ?_
      (by cases hrun; rfl)
    -- the handler of the entry that is erased is another one
    rw [(h.server k p hold).alive, Bool.eq_false_iff, Ne]
    cases hrun
    rw [World.dead_erase, (h.server k p hold).alive]
    rintro (hd | ⟨q, hq, hobj⟩)
    · cases hd
    · rw [(h.known srv hsrv).map] at hq hgone
      exact hgone ⟨rfl, h.server.apart hold hq hobj.symm⟩
  have hnext : Servers m (s.next w') :=
    h.next hS (by cases hrun; exact le_rfl) (by cases hrun; exact fun _ _ => rfl)
      fun k p hp => .inl (hlook k p hp)
  refine ⟨hnext.server, fun i hi => ?_, hnext.past, fun i hi => ?_⟩
  · exact hnext.known i (List.mem_filter.1 hi).1
  · exact hnext.listener i (List.mem_filter.1 hi).1

/-- **What holds in every run.** -/
theorem Hosted.servers (h : Hosted E m s ds) : Servers m s := by
  induction h with
  | init =>
    refine ⟨fun k p hp => ?_, fun _ h => absurd h List.not_mem_nil, fun _ h => absurd h List.not_mem_nil,
      fun _ h => absurd h List.not_mem_nil⟩
    change World.init.look m k = some p at hp
    rw [init_look] at hp
    cases hp
  | server _ host port hrun ih => exact ih.server_new hrun
  | select _ ih =>
    exact ih.next (ih.server.congr rfl rfl rfl rfl rfl) le_rfl (fun _ _ => rfl) fun _ _ hp => .inl hp
  | event _ hp hrun ih => exact ih.event hp hrun
  | delete _ hsrv hrun ih => exact ih.delete hsrv hrun

/-- **One destruction.** -/
theorem Servers.right_iff (h : Servers m s) (hsrv : srv ∈ s.servers)
    (hrun : TCPServer.delete srv s.world = .ok ⟨⟩ w') :
    (Destruction.mk srv s (s.remove srv w')).Right ↔ (Destruction.mk srv s (s.remove srv w')).Harmless m := by
  have hknown := h.known srv hsrv
  have hlook := delete_look hrun
  have hdescs : w'.descs = s.world.descs := by
    cases hrun
    rfl
  constructor
  · intro hr
    by_cases hne : srv.p_impl_sock = -1
    · exact .inl hne
    right
    rcases h.listener srv hsrv with hnone | ho | hc
    · exact absurd hnone hne
    · -- the destructor does not close the descriptor
      rcases Hosting.mem_next.1 (hr.closed.resolve_left hne) with hold | ⟨-, hnone⟩
      · exact absurd hold ho.notClosed
      · rw [hdescs] at hnone
        exact absurd hnone ho.isOpen
    · refine ⟨hc.mem, ?_⟩
      by_contra hsome
      obtain ⟨p, hp⟩ := Option.ne_none_iff_exists'.1 hsome
      have hgone : w'.look m srv.p_impl_sock ≠ some p := by
        rw [hlook, if_pos ⟨hknown.map.symm, rfl⟩]
        exact fun h => by cases h
      exact hc.unregistered _ p hp (hr.own m _ p hp hgone)
  · intro hh
    have hfree : s.world.look m srv.p_impl_sock = none := by
      rcases hh with hnone | ⟨-, hfree⟩
      · -- the map has no entry under -1
        cases hl : s.world.look m srv.p_impl_sock with
        | none => rfl
        | some p =>
          have hpos := (h.server _ p hl).pos
          change srv.p_impl_sock = -1 at hnone
          omega
      · exact hfree
    have hsame : ∀ j k, w'.look j k = s.world.look j k := by
      intro j k
      rw [hlook]
      split
      · rename_i hjk
        rw [hjk.1, hjk.2, hknown.map, hfree]
      · rfl
    refine ⟨fun j k p hp hne => absurd ((hsame j k).trans hp) hne,
      fun j k p hp => (hsame j k).symm.trans hp, ?_⟩
    exact hh.imp_right fun hc => Hosting.mem_next.2 (.inl hc.1)

/-- **Which destructions are right**, in every run of servers on one map: those of a server whose
listener was closed by an event, as long as nobody is registered under the number. The destructor closes
nothing, and erases whoever is registered. -/
theorem delete_right_iff (h : Hosted E m s ds) : ∀ d ∈ ds, d.Right ↔ d.Harmless m := by
  induction h with
  | init => exact fun d hd => absurd hd List.not_mem_nil
  | server _ _ _ _ ih => exact ih
  | select _ ih => exact ih
  | event _ _ _ ih => exact ih
  | delete h hsrv hrun ih =>
    intro d hd
    rcases List.mem_append.1 hd with hd | hd
    · exact ih d hd
    · rw [List.mem_singleton.1 hd]
      exact h.servers.right_iff hsrv hrun

/-- The runs of the server, event by event, are runs in which nothing is destroyed. -/
theorem Server.Runs.hosted (h : Server.Runs E m (fun _ _ _ => True) w) :
    ∃ s, Hosted E m s [] ∧ s.world = w := by
  induction h with
  | refl => exact ⟨_, .init, rfl⟩
  | tail _ hstep ih =>
    obtain ⟨s, h, rfl⟩ := ih
    cases hstep with
    | server host port hrun => exact ⟨_, .server h host port hrun, rfl⟩
    | select _ _ => exact ⟨_, .select h, rfl⟩
    | event hp _ hrun => exact ⟨_, .event h hp hrun, rfl⟩

/-! ### One server -/

/-- A new server by the socket of its listener. -/
theorem new_eq (E : Env) (w : World) (host : Option String) (port : UInt16) (m : ℕ) (sock : ℤ)
    (hs : ((final (TCPServer.new E host port (some m) w)).objs w.nobj).sock = sock) :
    TCPServer.new E host port (some m) w =
      .ok ⟨sock, w.nobj, m⟩ (final (TCPServer.new E host port (some m) w)) := by
  obtain ⟨sock', w', hnew, hl, -⟩ := tcpServer_new E w host port m
  rw [hnew, final_ok] at hs ⊢
  rw [← hs, hl.obj.2.1]

/-- A system that makes no socket. -/
def Env.socketless : Env := { Env.steady with socket := fun _ => none }

/-- The destruction of a server that has no listening descriptor. -/
theorem delete_right_iff_none :
    (Destruction.mk ⟨-1, 0, 0⟩ (Hosting.start.add ⟨-1, 0, 0⟩ (World.opened .socketless 0))
      ((Hosting.start.add ⟨-1, 0, 0⟩ (World.opened .socketless 0)).remove ⟨-1, 0, 0⟩
        ((World.opened .socketless 0).erase 0 (-1)))).Right := by
  have hnew : Hosted .socketless 0 (Hosting.start.add ⟨-1, 0, 0⟩ (World.opened .socketless 0)) [] :=
    .server .init none 7890 (new_eq .socketless World.init none 7890 0 (-1) (by decide +kernel))
  have hmem : (⟨-1, 0, 0⟩ : TCPServer) ∈ (Hosting.start.add ⟨-1, 0, 0⟩ (World.opened .socketless 0)).servers :=
    List.mem_cons_self
  have hdel := Hosted.delete hnew hmem rfl
  exact (delete_right_iff hdel _ (List.mem_singleton_self _)).2 (.inl rfl)

/-- A system on which `getsockopt` fails. -/
def Env.probeless : Env := { Env.steady with getsockopt := fun _ => -1 }

/-- The server, its listener on 3. -/
def Hosting.first : Hosting := Hosting.start.add ⟨3, 0, 0⟩ (World.opened .probeless 0)

/-- The listener has had an exception. -/
def World.bereft : World :=
  final (BaseSocket.handleEvent .probeless 0 .expt ((World.opened .probeless 0).logged (.event 0 3 .expt)))

theorem hosted_first : Hosted .probeless 0 .first [] :=
  .server .init none 7890 (new_eq .probeless World.init none 7890 0 3 (by decide +kernel))

theorem hosted_excepted : Hosted .probeless 0 (Hosting.first.next World.bereft) [] := by
  have hlook : (World.opened .probeless 0).look 0 3 = some ⟨0, 0⟩ := by decide +kernel
  have hok : isOk (BaseSocket.handleEvent .probeless 0 .expt
      ((World.opened .probeless 0).logged (.event 0 3 .expt))) = true := by decide +kernel
  exact .event hosted_first hlook (eq_ok_final hok)

/-- **A destructor that does harm**: the listening descriptor stays open, also where an exception has
closed the listener before. -/
theorem delete_wrong :
    (∃ s d, Hosted .probeless 0 s [d] ∧ d.before.world.look 0 3 = some ⟨0, 0⟩ ∧
      d.after.world.descs 3 ≠ none ∧ ¬ d.Right) ∧
    ∃ s d, Hosted .probeless 0 s [d] ∧ d.before.world.look 0 3 = none ∧
      d.after.world.descs 3 ≠ none ∧ ¬ d.Right := by
  constructor
  · have hmem : (⟨3, 0, 0⟩ : TCPServer) ∈ Hosting.first.servers := List.mem_cons_self
    have hlook : (World.opened .probeless 0).look 0 3 = some ⟨0, 0⟩ := by decide +kernel
    have hopen : ((World.opened .probeless 0).erase 0 3).descs 3 ≠ none := by decide +kernel
    refine ⟨_, _, .delete hosted_first hmem rfl, hlook, hopen, fun h => ?_⟩
    rcases Hosting.mem_next.1 (h.closed.resolve_left (by decide)) with hold | ⟨-, hnone⟩
    · cases hold
    · exact hopen hnone
  · have hmem : (⟨3, 0, 0⟩ : TCPServer) ∈ (Hosting.first.next World.bereft).servers := List.mem_cons_self
    have hlook : World.bereft.look 0 3 = none := by decide +kernel
    have hstill : World.bereft.descs 3 ≠ none := by decide +kernel
    have hopen : (World.bereft.erase 0 3).descs 3 ≠ none := by decide +kernel
    refine ⟨_, _, .delete hosted_excepted hmem rfl, hlook, hopen, fun h => ?_⟩
    rcases Hosting.mem_next.1 (h.closed.resolve_left (by decide)) with hold | ⟨-, hnone⟩
    · rcases Hosting.mem_next.1 hold with hold | ⟨-, hnone⟩
      · cases hold
      · exact hstill hnone
    · exact hopen hnone

end DocFerry
