import DocFerry.Proof.Leaks

/-!
# The range of an `fd_set`

An `fd_set` of Linux has `FD_SETSIZE` bits, and the macros do not look at the number they are given.

* `collect_nfds`: the first argument of `select` is above every descriptor in the sets.
* `inBounds_iff`: the macros of a round stay within the sets exactly when no handler is registered
  under a number from `FD_SETSIZE` on. Nothing in the code looks at that.
* `selection_inBounds`: so they do in every run in which the system hands out no such number to a
  handler.
-/

namespace DocFerry

open Prog

/-- The macros are applied to bits that there are: `FD_SET` gets the members of the sets, `FD_ISSET`
the sockets that the dispatch loop goes through. -/
structure Selection.InBounds (sel : Selection) : Prop where
  fdSet : ∀ bit, ∀ k ∈ sel.sets.get bit, 0 ≤ k ∧ k < fdSetSize
  fdIsset : ∀ k ∈ sel.select_socks, 0 ≤ k ∧ k < fdSetSize

/-- Whoever is registered has a bit in an `fd_set`. -/
def LowKeys (m : ℕ) (w : World) : Prop := ∀ k p, w.look m k = some p → k < fdSetSize

/-- The system makes the free descriptor `f` for `socket`. -/
def Makes (E : Env) (w : World) (f : ℤ) : Prop :=
  E.socket w.nsocket = some f ∧ 0 ≤ f ∧ w.descs f = none

/-- The event of the handler `this` takes no connection in that gets a handler and has no bit in an
`fd_set`. -/
def LowEvent (E : Env) (this : ℕ) (bit : Bit) (w : World) : Prop :=
  (w.objs this).cls = .tcpServerImpl → (w.objs this).accepting = true → bit = .read →
    E.getpeername w.ngetpeername ≠ .otherError → ∀ f, Incoming E w f → f < fdSetSize

/-- What the server does next, where nobody gets a number that has no bit in an `fd_set`. A run ends with a
call that does not return. -/
inductive Server.LowMoment (E : Env) (m : ℕ) : World → World → Prop
  | server (host : Option String) (port : UInt16) {srv : TCPServer} {w w' : World}
      (hlow : ∀ f, Makes E w f → f < fdSetSize)
      (hrun : TCPServer.new E host port (some m) w = .ok srv w') : LowMoment E m w w'
  | select (w : World) : LowMoment E m w { w with nselect := w.nselect + 1 }
  | event {k : ℤ} {p : SharedPtr} {bit : Bit} {w w' : World} (hp : w.look m k = some p)
      (hlow : LowEvent E p.obj bit w)
      (hrun : BaseSocket.handleEvent E p.obj bit (w.logged (.event p.obj k bit)) = .ok ⟨⟩ w') :
      LowMoment E m w w'

/-- The states between such moments. -/
def Server.LowRuns (E : Env) (m : ℕ) : World → Prop :=
  Relation.ReflTransGen (Server.LowMoment E m) World.init

variable {E : Env} {m : ℕ} {w w' : World} {k : ℤ} {p : SharedPtr} {bit : Bit}

/-! ### One round -/

section Collect

variable {ε σ H : Type} (T : Table ε σ H) (s : σ)

/-- What is in a set is gone through by the dispatch loop. -/
theorem collect_socks (bit : Bit) (h : k ∈ (T.collect s).sets.get bit) :
    k ∈ (T.collect s).select_socks := by
  obtain ⟨hr, hw, he, hs, -⟩ := collect_collected T s
  have hsub : ∀ p : H → Bool, (∀ x, p x = true → (T.readable s x || T.writable s x) = true) →
      k ∈ (socksOf (T.map s).toList p).toFinset → k ∈ (T.collect s).select_socks := by
    intro p hp hk
    rw [hs]
    simp only [socksOf, List.mem_toFinset, List.mem_map, List.mem_filter] at hk ⊢
    obtain ⟨entry, ⟨hin, hx⟩, rfl⟩ := hk
    exact ⟨entry, ⟨hin, hp _ hx⟩, rfl⟩
  cases bit with
  | read =>
    change k ∈ (T.collect s).sets.r at h
    rw [hr] at h
    exact hsub _ (fun x hx => by rw [hx, Bool.true_or]) h
  | write =>
    change k ∈ (T.collect s).sets.w at h
    rw [hw] at h
    exact hsub _ (fun x hx => by rw [((Bool.and_eq_true _ _).mp hx).1, Bool.or_true]) h
  | expt =>
    change k ∈ (T.collect s).sets.e at h
    rw [he] at h
    exact hsub _ (fun _ hx => hx) h

/-- **The first argument of `select`** is above every descriptor in the sets. -/
theorem collect_nfds (bit : Bit) (h : k ∈ (T.collect s).sets.get bit) :
    k < (T.collect s).max_fd + 1 := by
  obtain ⟨-, -, -, hs, hm⟩ := collect_collected T s
  have hk := collect_socks T s bit h
  rw [hs] at hk
  have hle := (foldl_max_spec _ 0).2.1 k hk
  rw [← hm] at hle
  omega

end Collect

/-- Every registered handler is asked about. -/
theorem registered_asked (hS : Server m w) (hp : w.look m k = some p) :
    k ∈ ((serverTable E m).collect w).select_socks := by
  obtain ⟨-, -, -, hs, -⟩ := collect_collected (serverTable E m) w
  have hreg := hS k p hp
  have hread : BaseSocket.readable (w.objs p.obj) = true := by
    unfold BaseSocket.readable cpSocketValid invalidSocket
    have hpos := hreg.pos
    rw [hreg.sock]
    simp only [Bool.and_eq_true, decide_eq_true_eq]
    omega
  rw [hs, socksOf, List.mem_map]
  refine ⟨(k, p), List.mem_filter.2 ⟨Std.TreeMap.mem_toList_iff_getElem?_eq_some.2 hp, ?_⟩, rfl⟩
  exact (Bool.or_eq_true _ _).mpr (.inl hread)

/-- Nobody else is asked about. -/
theorem asked_registered (h : k ∈ ((serverTable E m).collect w).select_socks) :
    ∃ p, w.look m k = some p := by
  obtain ⟨-, -, -, hs, -⟩ := collect_collected (serverTable E m) w
  rw [hs, socksOf, List.mem_map] at h
  obtain ⟨⟨k', p⟩, hin, rfl⟩ := h
  exact ⟨p, Std.TreeMap.mem_toList_iff_getElem?_eq_some.1 (List.mem_filter.1 hin).1⟩

/-- **The macros of a round stay within the sets** exactly when every registered number has a bit. -/
theorem inBounds_iff (hS : Server m w) :
    ((serverTable E m).collect w).InBounds ↔ LowKeys m w := by
  constructor
  · intro h k p hp
    exact (h.fdIsset k (registered_asked hS hp)).2
  · intro h
    have hsocks : ∀ k ∈ ((serverTable E m).collect w).select_socks, 0 ≤ k ∧ k < fdSetSize := by
      intro k hk
      obtain ⟨p, hp⟩ := asked_registered hk
      exact ⟨(hS k p hp).pos.le, h k p hp⟩
    exact ⟨fun bit k hk => hsocks k (collect_socks _ _ bit hk), hsocks⟩

/-! ### Runs -/

/-- A listener with a low number. -/
theorem LowKeys.listener (h : LowKeys m w) {host : Option String} {port : UInt16} {srv : TCPServer}
    (hlow : ∀ f, Makes E w f → f < fdSetSize)
    (hrun : TCPServer.new E host port (some m) w = .ok srv w') : LowKeys m w' := by
  obtain ⟨sock, w'', hnew, hl, hprov⟩ := tcpServer_new E w host port m
  rw [hrun] at hnew
  cases hnew
  intro k p hp
  rcases hl.registers hp with hold | ⟨-, rfl, hpos, hfree⟩
  · exact h k p hold
  · -- the new listener: its number is the system's
    rcases hprov.answer with rfl | hanswer
    · omega
    · exact hlow k ⟨hanswer, hpos.le, hfree⟩

/-- **An event** registers nobody, or the connection that it takes in. -/
theorem LowKeys.event (hS : Server m w) (h : LowKeys m w) (hp : w.look m k = some p)
    (hlow : LowEvent E p.obj bit w) : LowKeys m (final (BaseSocket.handleEvent E p.obj bit w)) := by
  intro k' p' hp'
  rcases event_registers hS hp bit k' p' hp' with hold | ⟨hc, ha, hb, -, hinc, hpeer⟩
  · exact h k' p' hold
  · exact hlow hc ha hb hpeer k' hinc

/-- **A low moment** keeps the invariant of the server, and every number low. -/
theorem Server.LowMoment.keeps (hm : Server.LowMoment E m w w') (hS : Server m w) (h : LowKeys m w) :
    Server m w' ∧ LowKeys m w' := by
  cases hm with
  | @server host port _ _ _ hlow hrun =>
    refine ⟨?_, h.listener hlow hrun⟩
    obtain ⟨sock, w'', hnew, hl, -⟩ := tcpServer_new E w host port m
    rw [hrun] at hnew
    cases hnew
    exact (hl.keeps hS).1
  | select => exact ⟨hS.congr rfl rfl rfl rfl rfl, h⟩
  | @event k p bit _ _ hp hlow hrun =>
    have hS' : Server m (w.logged (.event p.obj k bit)) := hS.congr rfl rfl rfl rfl rfl
    have hserver := (event_stepped (E := E) hS' hp bit).server
    have hkeys := LowKeys.event (E := E) hS' h hp hlow
    rw [hrun, final_ok] at hserver hkeys
    exact ⟨hserver, hkeys⟩

/-- What holds in every run of low moments. -/
theorem Server.LowRuns.keeps (h : Server.LowRuns E m w) : Server m w ∧ LowKeys m w := by
  induction h with
  | refl =>
    have hempty : ∀ k p, ¬ World.init.look m k = some p := fun k p hp => by
      rw [init_look] at hp
      cases hp
    exact ⟨fun k p hp => absurd hp (hempty k p), fun k p hp => absurd hp (hempty k p)⟩
  | tail _ hstep ih => exact hstep.keeps ih.1 ih.2

/-- Where the system hands out low numbers only, every run of the server is one of low moments. -/
theorem Server.Reach.low (hacc : ∀ i f peer, E.accept i = .conn f peer → f < fdSetSize)
    (hsock : ∀ i f, E.socket i = some f → f < fdSetSize) (h : Server.Reach E m w) :
    Server.LowRuns E m w := by
  have hC : ∀ i bit w, LowEvent E i bit w := by
    intro i bit w _ _ _ _ f hinc
    obtain ⟨⟨peer, hf⟩, -⟩ := hinc
    exact hacc _ f peer hf
  have hmom : Server.Runs E m (LowEvent E) w := h.moments hC
  clear h
  induction hmom with
  | refl => exact .refl
  | @tail w₁ w₂ _ hstep ih =>
    refine ih.tail ?_
    cases hstep with
    | server host port hrun => exact .server host port (fun f hf => hsock _ f hf.1) hrun
    | select _ _ => exact .select w₁
    | event hp hlow hrun => exact .event hp hlow hrun

/-- **`do_select` stays within its sets** in every run in which no handler gets a number from
`FD_SETSIZE` on, and the first argument of `select` is above all that is in them. -/
theorem selection_inBounds (h : Server.LowRuns E m w) :
    ((serverTable E m).collect w).InBounds ∧
      ∀ bit, ∀ k ∈ ((serverTable E m).collect w).sets.get bit,
        k < ((serverTable E m).collect w).max_fd + 1 :=
  ⟨(inBounds_iff h.keeps.1).2 h.keeps.2, fun bit _ hk => collect_nfds _ _ bit hk⟩

/-- The round after a listener on descriptor 3 has taken in a client on descriptor 5. -/
theorem selection_inBounds_client :
    ((serverTable (.oneClient []) 0).collect (World.accepted [])).InBounds ∧
      ∀ bit, ∀ k ∈ ((serverTable (.oneClient []) 0).collect (World.accepted [])).sets.get bit,
        k < ((serverTable (.oneClient []) 0).collect (World.accepted [])).max_fd + 1 := by
  have hmakes : ∀ f, Makes (.oneClient []) World.init f → f < fdSetSize := by
    rintro f ⟨hf, -⟩
    cases hf
    decide
  have hopened : Server.LowMoment (.oneClient []) 0 World.init (World.opened (.oneClient []) 0) := by
    obtain ⟨sock, w', hnew, -⟩ := tcpServer_new (.oneClient []) World.init none 7890 0
    unfold World.opened
    rw [hnew]
    exact .server none 7890 hmakes hnew
  have hnaccept : (World.opened (.oneClient []) 0).naccept = 0 := by decide +kernel
  have hlow : LowEvent (.oneClient []) 0 .read (World.opened (.oneClient []) 0) := by
    rintro - - - - f ⟨⟨peer, hf⟩, -⟩
    rw [hnaccept] at hf
    cases hf
    decide
  have haccepted : Server.LowMoment (.oneClient []) 0 (World.opened (.oneClient []) 0) (World.accepted []) :=
    .event (k := 3) (p := ⟨0, 0⟩) (by decide +kernel) hlow (eq_ok_final (by decide +kernel))
  exact selection_inBounds (.tail (.tail .refl hopened) haccepted)

/-- **A client on descriptor 1024**: its handler is registered, and `FD_SET` writes behind the set. -/
theorem selection_outOfBounds :
    ∃ w, Server.Reach .crowded 0 w ∧ ¬ ((serverTable .crowded 0).collect w).InBounds := by
  refine ⟨_, opened_reach.round (by decide +kernel), fun h => ?_⟩
  have hlt := (h.fdSet .read 1024 (by decide +kernel)).2
  exact absurd hlt (by decide)

end DocFerry
