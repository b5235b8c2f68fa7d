import DocFerry.Proof.Server
import DocFerry.Proof.Listener

/-!
# The runs of the server

A server opens listeners on its map and goes through rounds of `do_select`.

* `Server.Reach.server`: the invariant holds at every state that it comes to.
* `doSelect_registered`: no event goes to a handler that was made in its round.
* `clients_registered`: the accepted descriptors that are open are those with a handler, as long as no
  close has missed its descriptor.
-/

namespace DocFerry

open Prog

variable {E : Env} {w w' : World} {m : ℕ} {sock : ℤ}

/-- A step of the server. -/
inductive Server.Step (E : Env) (m : ℕ) : World → World → Prop
  | server (host : Option String) (port : UInt16) {srv : TCPServer} {w w' : World}
      (hrun : TCPServer.new E host port (some m) w = .ok srv w') : Step E m w w'
  | round {w w' : World} (hrun : doSelect E m w = .ok ⟨⟩ w') : Step E m w w'

/-- The states between the steps. -/
def Server.Reach (E : Env) (m : ℕ) : World → Prop :=
  Relation.ReflTransGen (Server.Step E m) World.init

/-- Nothing is registered under the descriptor of a new listener. -/
theorem Listening.fresh (h : Listening m sock w w') (hS : Server m w) (hv : cpSocketValid sock = true) :
    w.look m sock = none := by
  rcases h.descs with ⟨rfl, -⟩ | ⟨-, hfree, -⟩
  · cases hv
  · exact hS.look_free hfree

/-- A new listener destroys no handler. -/
theorem Listening.dead_eq (h : Listening m sock w w') (hS : Server m w) {i : ℕ} (hi : i ≠ w.nobj) :
    w'.dead i = w.dead i := by
  have hiff : w'.dead i = true ↔ w.dead i = true := by
    rw [h.dead i hi]
    refine ⟨fun hd => hd.elim id ?_, .inl⟩
    rintro ⟨hv, p, hp, -⟩
    rw [h.fresh hS hv] at hp
    cases hp
  exact Bool.eq_iff_iff.2 hiff

/-- Whoever is registered stays so: the descriptor of a new listener was free. -/
theorem Listening.kept {k : ℤ} {p : SharedPtr} (h : Listening m sock w w') (hS : Server m w)
    (hp : w.look m k = some p) : w'.look m k = some p := by
  rw [h.maps, if_neg]
  · exact hp
  rintro ⟨hv, -, rfl⟩
  rw [h.fresh hS hv] at hp
  cases hp

/-- **A new listener** keeps the invariant, and its descriptor is no accepted one. -/
theorem Listening.keeps (h : Listening m sock w w') (hS : Server m w) :
    Server m w' ∧ (Clients m w → Clients m w') := by
  -- the descriptor was free: no other handler has it
  have horig : ∀ k, w.descs k ≠ none →
      (w'.descs k).map Desc.origin = (w.descs k).map Desc.origin := by
    intro k hk
    rcases h.descs with ⟨-, hsame⟩ | ⟨-, hfree, hnew⟩
    · exact hsame k
    · have hne : k ≠ sock := fun hks => hk (by rw [hks]; exact hfree)
      rw [hnew, if_neg hne]
  constructor
  · intro k p hp
    rcases h.registers hp with hold | ⟨rfl, rfl, hpos, -⟩
    · have hr := hS k p hold
      refine hr.mono (by rw [h.nobj]; exact Nat.le_succ _) ?_ (h.dead_eq hS hr.obj.ne) (horig k hr.isOpen)
      rw [h.others _ hr.obj.ne]
      exact ⟨rfl, rfl, rfl⟩
    · -- the listener itself
      obtain ⟨hc, hs, hm⟩ := h.obj
      rcases h.descs with ⟨hs', -⟩ | ⟨-, -, hd⟩
      · omega
      · refine ⟨hpos, ?_, hs, hm, ?_, .inr ⟨hc, by rw [hd, if_pos rfl]⟩⟩
        · rw [h.nobj]
          exact Nat.lt_succ_self _
        · exact h.own fun q hq => (hS _ q hq).obj.ne
  · intro hC k hk
    -- an accepted descriptor is none that a listener has made
    have hk' : (w.descs k).map Desc.origin = some .accepted := by
      rcases h.descs with ⟨-, hsame⟩ | ⟨-, -, hnew⟩
      · exact (hsame k).symm.trans hk
      · rw [hnew] at hk
        by_cases hks : k = sock
        · rw [if_pos hks] at hk; cases hk
        · rw [if_neg hks] at hk; exact hk
    obtain ⟨p, hp⟩ := hC k hk'
    exact ⟨p, h.kept hS hp⟩

/-- What a step of the server keeps. -/
theorem Server.Step.keeps (h : Server.Step E m w w') (hS : Server m w) :
    Server m w' ∧ (Orderly E w' → Orderly E w) ∧ (Clients m w → Orderly E w' → Clients m w') := by
  cases h with
  | @server host port srv _ _ hrun =>
    obtain ⟨sock, w'', hnew, hl, -⟩ := tcpServer_new E w host port m
    rw [hnew] at hrun
    cases hrun
    obtain ⟨hS', hC⟩ := hl.keeps hS
    exact ⟨hS', fun ho => ho.mono hl.naccept.ge hl.ngetpeername.ge hl.nfreed.ge, fun h _ => hC h⟩
  | round hrun =>
    have h := doSelect_delivered (E := E) hS
    rw [hrun, final_ok] at h
    exact ⟨h.server, fun ho => ho.mono h.naccept h.ngetpeername h.nfreed, h.clients⟩

theorem init_look (k : ℤ) : World.init.look m k = none := Std.TreeMap.getElem?_emptyc

/-- **The invariant of the server** holds at every state it comes to. -/
theorem Server.Reach.server (h : Server.Reach E m w) : Server m w := by
  induction h with
  | refl =>
    intro k p hp
    rw [init_look] at hp
    cases hp
  | tail _ hstep ih => exact (hstep.keeps ih).1

/-- Of an orderly run, every accepted descriptor has its handler. -/
theorem Server.Reach.clients (h : Server.Reach E m w) (ho : Orderly E w) : Clients m w := by
  induction h with
  | refl => intro k hk; cases hk
  | tail hreach hstep ih =>
    obtain ⟨-, hbefore, hC⟩ := hstep.keeps (Server.Reach.server hreach)
    exact hC (ih (hbefore ho)) ho

/-- The process with one listener on the map `m`. -/
def World.opened (E : Env) (m : ℕ) : World := final (TCPServer.new E none 7890 (some m) World.init)

theorem opened_reach : Server.Reach E m (World.opened E m) := by
  obtain ⟨sock, w', hnew, -⟩ := tcpServer_new E World.init none 7890 m
  unfold World.opened
  rw [hnew]
  exact .tail .refl (.server none 7890 hnew)

/-- A round that comes to its end. -/
theorem Server.Reach.round (h : Server.Reach E m w) (hok : isOk (doSelect E m w) = true) :
    Server.Reach E m (final (doSelect E m w)) := .tail h (.round (eq_ok_final hok))

/-- **Every event of a round** goes to the handler that was registered under the descriptor
when `select` was called, none to a handler that was made in the round. -/
theorem doSelect_registered (h : Server.Reach E m w) :
    ∃ l, (final (doSelect E m w)).log = w.log ++ l ∧ ∀ this k bit, .event this k bit ∈ l →
      this < w.nobj ∧ ∃ p, w.look m k = some p ∧ p.obj = this := by
  have hS := h.server
  obtain ⟨l, hl, he⟩ := (doSelect_delivered (E := E) hS).log
  refine ⟨l, hl, fun this k bit ha => ?_⟩
  obtain ⟨p, hp, rfl⟩ := he this k bit ha
  exact ⟨(hS k p hp).obj, p, hp, rfl⟩

/-- The second round of a server: its listener and its first client have an event. -/
theorem doSelect_registered_second :
    ∃ l, (final (doSelect .steady 0 (final (doSelect .steady 0 (World.opened .steady 0))))).log =
        (final (doSelect .steady 0 (World.opened .steady 0))).log ++ l ∧
      ∀ this k bit, .event this k bit ∈ l →
        this < (final (doSelect .steady 0 (World.opened .steady 0))).nobj ∧
          ∃ p, (final (doSelect .steady 0 (World.opened .steady 0))).look 0 k = some p ∧
            p.obj = this :=
  doSelect_registered (opened_reach.round (by decide +kernel))

/-- **The accepted descriptors that are open** are those with a registered `VirusHandler`, in
every run in which no connection was taken in on descriptor 0, every peer could be asked for, and no
close has missed its descriptor. -/
theorem clients_registered (h : Server.Reach E m w) (ho : Orderly E w) (k : ℤ) :
    (w.descs k).map Desc.origin = some .accepted ↔
      ∃ p, w.look m k = some p ∧ (w.objs p.obj).cls = .virusHandler := by
  constructor
  · intro hk
    obtain ⟨p, hp⟩ := h.clients ho k hk
    refine ⟨p, hp, ?_⟩
    rcases (h.server k p hp).kind with ⟨hc, -⟩ | ⟨-, hcr⟩
    · exact hc
    · rw [hcr] at hk; cases hk
  · rintro ⟨p, hp, hc⟩
    rcases (h.server k p hp).kind with ⟨-, ha⟩ | ⟨hc', -⟩
    · exact ha
    · rw [hc] at hc'; cases hc'

/-- The first client of a server. -/
theorem clients_registered_first :
    ((final (doSelect .steady 0 (World.opened .steady 0))).descs 5).map Desc.origin = some .accepted ↔
      ∃ p, (final (doSelect .steady 0 (World.opened .steady 0))).look 0 5 = some p ∧
        ((final (doSelect .steady 0 (World.opened .steady 0))).objs p.obj).cls = .virusHandler := by
  have hacc : ∀ i peer, Env.steady.accept i ≠ .conn 0 peer := by
    intro i peer h
    simp only [Env.steady, AcceptResult.conn.injEq] at h
    omega
  have hpeer : ∀ i, Env.steady.getpeername i ≠ .otherError := by
    intro i h
    cases h
  have hnone : (final (doSelect .steady 0 (World.opened .steady 0))).nfreed = 0 := by decide +kernel
  exact clients_registered (opened_reach.round (by decide +kernel))
    ⟨fun i _ peer => hacc i peer, fun i _ => hpeer i, fun i hi => by rw [hnone] at hi; omega⟩ 5

/-- A connection on descriptor 0 has no handler, and neither has one whose peer cannot be
asked for, nor one whose client has hung up; all of them stay open. -/
theorem accepted_without_handler :
    (∃ w, Server.Reach { Env.steady with accept := fun _ => .conn 0 ("10.0.0.1", 4000) } 0 w ∧
      (w.descs 0).map Desc.origin = some .accepted ∧ w.look 0 0 = none) ∧
    (∃ w, Server.Reach { Env.steady with getpeername := fun _ => .otherError } 0 w ∧
      (w.descs 5).map Desc.origin = some .accepted ∧ w.look 0 5 = none) ∧
    ∃ w, Server.Reach .steady 0 w ∧
      (w.descs 5).map Desc.origin = some .accepted ∧ w.look 0 5 = none :=
  ⟨⟨_, opened_reach.round (by decide +kernel), by decide +kernel, by decide +kernel⟩,
    ⟨_, opened_reach.round (by decide +kernel), by decide +kernel, by decide +kernel⟩,
    ⟨_, (opened_reach.round (by decide +kernel)).round (by decide +kernel), by decide +kernel,
      by decide +kernel⟩⟩

end DocFerry
