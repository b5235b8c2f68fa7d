import DocFerry.Model.Main
import DocFerry.Proof.Rounds

/-!
# `main` goes on to serve

* `tcpServer_listener`: where `socket` gives a descriptor, a `TCPServer` is registered and listens on it.
* `Serves`: the listener is there, or an exception event of its own has found a pending error.
  `deliver_serves`, `doSelect_serves`: so it stays.
* `main_serves`: `main` comes back for no other reason, and until then the listener is asked for.
-/

namespace DocFerry

open Prog

/-- At a moment of the run, when the listener `p` was there, an exception event of its own has found a
pending error. -/
def Struck (E : Env) (m : ℕ) (k : ℤ) (p : SharedPtr) (w : World) : Prop :=
  ∃ heard w₀ log, Server.Hears E m heard w₀ ∧ w₀.IsListener m k p ∧ E.getsockopt w₀.ngetsockopt ≠ 0 ∧
    w.log = w₀.log ++ .event p.obj k .expt :: log

/-- The listener `p` is there, or was struck. -/
structure Serves (E : Env) (m : ℕ) (k : ℤ) (p : SharedPtr) (w : World) : Prop where
  hears : ∃ heard, Server.Hears E m heard w
  server : Server m w
  listens : w.IsListener m k p ∨ Struck E m k p w

variable {E : Env} {m : ℕ} {w w' : World} {k : ℤ} {p : SharedPtr} {b : ℤ × Bit} {l : List (ℤ × Bit)}

theorem Struck.mono {log : List Act} (h : Struck E m k p w) (hlog : w'.log = w.log ++ log) : Struck E m k p w' := by
  obtain ⟨heard, w₀, log₀, hears, hl, herr, hlog₀⟩ := h
  refine ⟨heard, w₀, log₀ ++ log, hears, hl, herr, ?_⟩
  rw [hlog, hlog₀, List.append_assoc, List.cons_append]

/-! ### The listener is made -/

/-- **A new `TCPServer`** for which there is a descriptor listens on it. -/
theorem tcpServer_listener (host : Option String) (port : UInt16) (hsock : E.socket w.nsocket = some k) (hk : 0 < k)
    (hfree : w.descs k = none) :
    ∃ srv w', TCPServer.new E host port (some m) w = .ok srv w' ∧ w'.IsListener m k ⟨w.nobj, w.nctrl⟩ := by
  have hv : cpSocketValid k = true := by
    have h₀ : k ≠ 0 := by omega
    have h₁ : k ≠ -1 := by omega
    simp [cpSocketValid, invalidSocket, h₀, h₁]
  obtain ⟨sock, w', hrun, hl, hprov⟩ := tcpServer_new E w host port m
  obtain rfl : sock = k := hprov.free k hsock hk.le hfree
  refine ⟨_, w', hrun, ?_, hl.obj.1, hl.accepting⟩
  rw [hl.maps, if_pos ⟨hv, rfl, rfl⟩]

/-! ### Rounds -/

/-- A delivery is a step of a run, or nothing. -/
theorem deliver_hears (h : ∃ heard, Server.Hears E m heard w) (hrun : (serverTable E m).deliver b w = .ok ⟨⟩ w') :
    ∃ heard, Server.Hears E m heard w' := by
  obtain ⟨heard, h⟩ := h
  rcases deliver_cases E m w b with hidle | ⟨p, hp, hevent⟩
  · rw [hidle] at hrun
    cases hrun
    exact ⟨heard, h⟩
  · rw [hevent] at hrun
    exact ⟨_, h.step (.event hp hrun)⟩

/-- **A delivery** takes no listener away, unless it strikes it. -/
theorem deliver_serves (h : Serves E m k p w) (hrun : (serverTable E m).deliver b w = .ok ⟨⟩ w') :
    Serves E m k p w' := by
  have hdel : Delivered E m (w.look m) w (final ((serverTable E m).deliver b w)) :=
    (deliver_delivered h.server b fun _ hp => hp).1
  rw [hrun, final_ok] at hdel
  obtain ⟨log, hlog, -⟩ := hdel.log
  refine ⟨deliver_hears h.hears hrun, hdel.server, ?_⟩
  rcases h.listens with hl | hstruck
  swap
  · exact .inr (hstruck.mono hlog)
  rcases deliver_cases E m w b with hidle | ⟨pb, hpb, hevent⟩
  · rw [hidle] at hrun
    cases hrun
    exact .inl hl
  · obtain ⟨kb, bit⟩ := b
    rw [hrun] at hevent
    have hS₁ : Server m (w.logged (.event pb.obj kb bit)) := h.server.congr rfl rfl rfl rfl rfl
    have hiff : (final (BaseSocket.handleEvent E pb.obj bit (w.logged (.event pb.obj kb bit)))).IsListener m k p ↔ _ :=
      event_listener hS₁ (hl.logged _) hpb
    have hstep := (event_stepped (E := E) hS₁ hpb bit).log
    rw [← hevent, final_ok] at hiff hstep
    by_cases hkeep : w'.IsListener m k p
    · exact .inl hkeep
    · -- it was the exception event of the listener, and there was an error
      right
      rw [hiff] at hkeep
      push Not at hkeep
      obtain ⟨rfl, rfl, herr⟩ := hkeep
      obtain rfl : pb = p := Option.some.inj (hpb.symm.trans hl.look)
      obtain ⟨heard, hears⟩ := h.hears
      obtain ⟨log', hlog', -⟩ := hstep
      refine ⟨heard, w, log', hears, hl, herr, ?_⟩
      rw [hlog']
      exact List.append_assoc ..

theorem deliveries_serve (h : Serves E m k p w) (hrun : l.forM (serverTable E m).deliver w = .ok ⟨⟩ w') :
    Serves E m k p w' := by
  induction l generalizing w with
  | nil =>
    cases hrun
    exact h
  | cons b l ih =>
    obtain ⟨u, w₁, hfirst, hrest⟩ := bind_eq_ok.1
      (show ((serverTable E m).deliver b >>= fun _ => l.forM (serverTable E m).deliver) w = _ from hrun)
    exact ih (deliver_serves h hfirst) hrest

/-- **A round** takes no listener away, unless it strikes it. -/
theorem doSelect_serves (h : Serves E m k p w) (hrun : doSelect E m w = .ok ⟨⟩ w') : Serves E m k p w' := by
  rcases doSelect_cases h.server hrun with ⟨-, rfl⟩ | ⟨fd, retv, sets, hlow, -, hend⟩
  · exact h
  have hcount : Serves E m k p { w with nselect := w.nselect + 1 } := by
    obtain ⟨heard, hears⟩ := h.hears
    refine ⟨⟨heard, hears.step (.select hlow)⟩, h.server.congr rfl rfl rfl rfl rfl, ?_⟩
    rcases h.listens with hl | hstruck
    · exact .inl ⟨hl.look, hl.cls, hl.accepting⟩
    · exact .inr hstruck
  rcases hend with ⟨-, rfl⟩ | hbits
  · exact hcount
  · exact deliveries_serve hcount hbits

/-- So do any number of rounds. -/
theorem loop_serves {n : ℕ} (h : Serves E m k p w) (hrun : loop E (some m) n w = .ok ⟨⟩ w') :
    Serves E m k p w' := by
  induction n generalizing w with
  | zero =>
    cases hrun
    exact h
  | succ n ih =>
    unfold loop at hrun
    dsimp only [Option.getD_some] at hrun
    rw [get_bind] at hrun
    by_cases hsize : (w.maps m).size = 0
    · rw [if_pos hsize] at hrun
      cases hrun
      exact h
    · rw [if_neg hsize] at hrun
      obtain ⟨u, w₁, hround, hrest⟩ := bind_eq_ok.1 hrun
      exact ih (doSelect_serves h hround) hrest

/-- A map with a listener is not empty. -/
theorem World.IsListener.size (h : w.IsListener m k p) : (w.maps m).size ≠ 0 := by
  intro hzero
  have hempty : (w.maps m).isEmpty = true := by
    rw [Std.TreeMap.isEmpty_eq_size_eq_zero, hzero]
    rfl
  have hlook : (w.maps m)[k]? = some p := h.look
  rw [Std.TreeMap.getElem?_of_isEmpty hempty] at hlook
  cases hlook

/-- A listener is asked for. -/
theorem World.IsListener.interest (h : w.IsListener m k p) (hS : Server m w) :
    k ∈ ((serverTable E m).interest w).r := by
  have hreg := hS k p h.look
  refine mem_socks.2 ⟨p, h.look, ?_⟩
  change cpSocketValid (w.objs p.obj).sock = true
  have h₀ : k ≠ 0 := hreg.pos.ne'
  have h₁ : k ≠ -1 := by
    have := hreg.pos
    omega
  simp [hreg.sock, cpSocketValid, invalidSocket, h₀, h₁]

/-- **The `while` ends** only when the listener was struck. -/
theorem loopWhile_struck {fuel : ℕ} (h : Serves E m k p w) (hrun : loopWhile E m fuel w = .ok ⟨⟩ w') :
    Struck E m k p w' := by
  induction fuel generalizing w with
  | zero => cases hrun
  | succ fuel ih =>
    unfold loopWhile at hrun
    rw [get_bind] at hrun
    by_cases hsize : (w.maps m).size = 0
    · rw [if_pos hsize] at hrun
      cases hrun
      exact h.listens.resolve_left fun hl => hl.size hsize
    · rw [if_neg hsize] at hrun
      obtain ⟨u, w₁, hround, hrest⟩ := bind_eq_ok.1 hrun
      exact ih (doSelect_serves h hround) hrest

/-! ### `main` -/

theorem opened_serves (hsock : E.socket 0 = some k) (hk : 0 < k) :
    ∃ srv, TCPServer.new E none 7890 (some m) .init = .ok srv (World.opened E m) ∧
      Serves E m k ⟨0, 0⟩ (World.opened E m) := by
  obtain ⟨srv, w', hrun, hl⟩ := tcpServer_listener (w := .init) (m := m) none 7890 hsock hk rfl
  have hw' : World.opened E m = w' := by
    unfold World.opened
    rw [hrun, final_ok]
  rw [hw']
  exact ⟨srv, hrun, ⟨_, .step .init (.server none 7890 hrun)⟩, hw' ▸ opened_reach.server, .inl hl⟩

/-- **`main` goes on to serve.** Where `socket` gives it a descriptor, whatever its clients and the system do,
`main` comes back only if an exception event of its listener has found a pending error; until then the
listener is registered and `select` is asked for its connections, after any number of rounds. -/
theorem main_serves (hsock : E.socket 0 = some k) (hk : 0 < k) :
    (∀ fuel w', main E fuel .init = .ok ⟨⟩ w' → Struck E sockHandlers k ⟨0, 0⟩ w') ∧
      ∀ n w', loop E (some sockHandlers) n (World.opened E sockHandlers) = .ok ⟨⟩ w' →
        Struck E sockHandlers k ⟨0, 0⟩ w' ∨
          w'.IsListener sockHandlers k ⟨0, 0⟩ ∧ k ∈ ((serverTable E sockHandlers).interest w').r := by
  obtain ⟨srv, hnew, hopened⟩ := opened_serves (m := sockHandlers) hsock hk
  constructor
  · intro fuel w' hrun
    unfold main at hrun
    rw [bind_of_ok hnew] at hrun
    obtain ⟨u, w₁, hloop, hdelete⟩ := bind_eq_ok.1 hrun
    have hstruck : Struck E sockHandlers k ⟨0, 0⟩ w₁ := by
      unfold loopCall at hloop
      rw [Option.getD_some, get_bind] at hloop
      by_cases hsize : ((World.opened E sockHandlers).maps sockHandlers).size = 0
      · rw [if_pos hsize] at hloop
        cases hloop
        exact hopened.listens.resolve_left fun hl => hl.size hsize
      · rw [if_neg hsize, if_pos rfl] at hloop
        exact loopWhile_struck hopened hloop
    cases hdelete
    exact hstruck
  · intro n w' hrun
    have hserves := loop_serves hopened hrun
    rcases hserves.listens with hl | hstruck
    · exact .inr ⟨hl, hl.interest hserves.server⟩
    · exact .inl hstruck

/-- A system that reports an exception on every descriptor, and an error behind it. -/
def Env.striking : Env :=
  { Env.steady with
    select := fun _ => .ready (fun _ => false) (fun _ => false) (fun _ => true)
    getsockopt := fun _ => 111 }

/-- There `main` comes back after one round. -/
theorem main_serves_striking : Struck .striking sockHandlers 3 ⟨0, 0⟩ (final (main .striking 2 .init)) :=
  (main_serves (E := .striking) rfl (by decide)).1 2 _ (eq_ok_final (by decide +kernel))

end DocFerry
