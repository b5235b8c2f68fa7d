import DocFerry.Proof.Admit
import DocFerry.Proof.Dispatch

/-!
# The invariant of the server

What holds of the process between any two events of a server whose handlers share the
map `m`.

* `Server m w`: whatever is registered has its descriptor open, is registered under its
  own socket, and is a listener or an accepted client.
* `event_cases`: an event changes nothing but what is its handler's, or takes a connection in.
* `event_stepped`: an event keeps the invariant, and touches no other entry.
* `doSelect_delivered`: so does a round of `do_select`, and its events go to the handlers
  that were registered when it began.
-/

namespace DocFerry

open Prog

/-- What is known of a handler registered under `k`. -/
structure Registered (m : ℕ) (w : World) (k : ℤ) (p : SharedPtr) : Prop where
  pos : 0 < k
  obj : p.obj < w.nobj
  sock : (w.objs p.obj).sock = k
  map : (w.objs p.obj).p_handlers = some m
  alive : w.dead p.obj = false
  kind : (w.objs p.obj).cls = .virusHandler ∧ (w.descs k).map Desc.origin = some .accepted ∨
    (w.objs p.obj).cls = .tcpServerImpl ∧ (w.descs k).map Desc.origin = some .created

/-- The invariant of the server. -/
def Server (m : ℕ) (w : World) : Prop := ∀ k p, w.look m k = some p → Registered m w k p

/-- Every accepted descriptor that is open has its handler. -/
def Clients (m : ℕ) (w : World) : Prop :=
  ∀ k, (w.descs k).map Desc.origin = some .accepted → ∃ p, w.look m k = some p

/-- In the calls made so far no connection was taken in on descriptor 0, every peer could be asked for,
and every close of a destroyed handler found its number in the memory given back. -/
structure Orderly (E : Env) (w : World) : Prop where
  accept : ∀ i < w.naccept, ∀ peer, E.accept i ≠ .conn 0 peer
  getpeername : ∀ i < w.ngetpeername, E.getpeername i ≠ .otherError
  freed : ∀ i < w.nfreed, E.freed i = true

/-- What an event of the handler `p`, registered under `k`, makes of the process. -/
structure Stepped (E : Env) (m : ℕ) (k : ℤ) (p : SharedPtr) (w w' : World) : Prop where
  log : ∃ l, w'.log = w.log ++ l ∧ ∀ a ∈ l, a.isEvent = false
  server : Server m w'
  others : ∀ k' p', k' ≠ k → w.look m k' = some p' → w'.look m k' = some p'
  own : w'.look m k = some p ∨ w'.look m k = none
  naccept : w.naccept ≤ w'.naccept
  ngetpeername : w.ngetpeername ≤ w'.ngetpeername
  nfreed : w.nfreed ≤ w'.nfreed
  clients : Clients m w → Orderly E w' → Clients m w'

variable {E : Env} {w w' : World} {m : ℕ} {k : ℤ} {p : SharedPtr}

theorem Registered.isOpen (h : Registered m w k p) : w.descs k ≠ none := by
  rcases h.kind with ⟨-, h⟩ | ⟨-, h⟩ <;> intro hn <;> rw [hn] at h <;> cases h

/-- What is known of a handler carries over when its object and its descriptor do. -/
theorem Registered.mono (h : Registered m w k p) (hn : w.nobj ≤ w'.nobj)
    (ho : (w'.objs p.obj).cls = (w.objs p.obj).cls ∧ (w'.objs p.obj).sock = (w.objs p.obj).sock ∧
      (w'.objs p.obj).p_handlers = (w.objs p.obj).p_handlers)
    (ha : w'.dead p.obj = w.dead p.obj)
    (hd : (w'.descs k).map Desc.origin = (w.descs k).map Desc.origin) : Registered m w' k p := by
  obtain ⟨hc, hs, hm⟩ := ho
  exact ⟨h.pos, lt_of_lt_of_le h.obj hn, hs.trans h.sock, hm.trans h.map, ha.trans h.alive,
    by rw [hc, hd]; exact h.kind⟩

/-- Handlers under different numbers are different ones. -/
theorem Server.apart (hS : Server m w) {k' : ℤ} {p' : SharedPtr} (hp : w.look m k = some p)
    (hp' : w.look m k' = some p') (h : p.obj = p'.obj) : k = k' := by
  rw [← (hS k p hp).sock, h, (hS k' p' hp').sock]

/-- The invariant speaks of the objects, the maps and the descriptors only. -/
theorem Server.congr (hS : Server m w) (ho : w'.objs = w.objs) (hn : w'.nobj = w.nobj)
    (hx : w'.dead = w.dead) (hm : w'.maps = w.maps) (hd : w'.descs = w.descs) : Server m w' := by
  intro k p hp
  unfold World.look at hp
  rw [hm] at hp
  exact (hS k p hp).mono hn.ge (by rw [ho]; exact ⟨rfl, rfl, rfl⟩) (by rw [hx]) (by rw [hd])

/-- A handler that leaves its map takes no other with it. -/
theorem Left.dead_other (hS : Server m w) (hp : w.look m k = some p) (h : Left E m k w w') {k' : ℤ}
    {p' : SharedPtr} (hp' : w.look m k' = some p') (hne : k' ≠ k) : w'.dead p'.obj = w.dead p'.obj := by
  rw [(hS k' p' hp').alive, Bool.eq_false_iff, Ne, h.dead, (hS k' p' hp').alive, hp]
  rintro (hd | ⟨q, hq, heq⟩)
  · cases hd
  · cases hq
    exact hne (hS.apart hp hp' heq).symm

/-- A handler that leaves its map is destroyed. -/
theorem Left.dead_own (hp : w.look m k = some p) (h : Left E m k w w') : w'.dead p.obj = true :=
  (h.dead p.obj).2 (.inr ⟨p, hp, rfl⟩)

/-- An event that is `Local` to its handler. -/
theorem Local.stepped (hS : Server m w) (hp : w.look m k = some p) (h : Local E p.obj w w') :
    Stepped E m k p w w' := by
  have hreg := hS k p hp
  -- the map and the descriptors are kept, or the handler has left both
  have hr := h.reg m hreg.map
  rw [hreg.sock] at hr
  refine ⟨h.log, fun k' p' hk' => ?_, fun k' p' hne hk' => ?_, ?_, h.naccept.ge, h.ngetpeername.ge,
    h.nfreed, fun hc ho k' hk' => ?_⟩
  · rcases hr with hr | hr
    · rw [hr.maps] at hk'
      exact (hS k' p' hk').mono h.nobj.ge (h.objs _) (hr.dead _) (hr.descs k')
    · rw [hr.maps] at hk'
      by_cases hkk : k' = k
      · rw [if_pos ⟨rfl, hkk⟩] at hk'; cases hk'
      · rw [if_neg (fun h => hkk h.2)] at hk'
        exact (hS k' p' hk').mono h.nobj.ge (h.objs _) (hr.dead_other hS hp hk' hkk) (hr.others k' hkk)
  · rcases hr with hr | hr
    · rw [hr.maps]; exact hk'
    · rw [hr.maps, if_neg (fun h => hne h.2)]; exact hk'
  · rcases hr with hr | hr
    · left; rw [hr.maps]; exact hp
    · right; rw [hr.maps, if_pos ⟨rfl, rfl⟩]
  · rcases hr with hr | hr
    · rw [hr.descs] at hk'
      obtain ⟨p', hp'⟩ := hc k' hk'
      exact ⟨p', by rw [hr.maps]; exact hp'⟩
    · by_cases hkk : k' = k
      · -- the descriptor is given back with the handler, since its number was still there
        rw [hkk] at hk'
        rcases hr.own with hown | ⟨-, hlost⟩
        · rw [hown] at hk'; cases hk'
        · exact absurd (fun i _ hi => ho.freed i hi) hlost
      · rw [hr.others k' hkk] at hk'
        obtain ⟨p', hp'⟩ := hc k' hk'
        exact ⟨p', by rw [hr.maps, if_neg (fun h => hkk h.2)]; exact hp'⟩

/-- A free descriptor has no handler. -/
theorem Server.look_free (hS : Server m w) {f : ℤ} (hf : w.descs f = none) : w.look m f = none := by
  cases hl : w.look m f with
  | none => rfl
  | some p => exact absurd hf (hS f p hl).isOpen

theorem openDesc_origin (w : World) (E : Env) (f : ℤ) (o : Origin) (k : ℤ) :
    ((w.openDesc E f o).descs k).map Desc.origin =
      if k = f then some o else (w.descs k).map Desc.origin := by
  rcases eq_or_ne k f with rfl | hk
  · simp [World.openDesc]
  · simp [World.openDesc, hk]

/-- **What an event of a registered handler comes to**: it is `Local`, or a listener looks for a
connection, finds one on descriptor 0, which it takes for none, or makes a handler for it. -/
theorem event_cases (hS : Server m w) (hp : w.look m k = some p) (bit : Bit) :
    Local E p.obj w (final (BaseSocket.handleEvent E p.obj bit w)) ∨
      ((w.objs p.obj).cls = .tcpServerImpl ∧ (w.objs p.obj).accepting = true ∧ bit = .read) ∧
        (BaseSocket.handleEvent E p.obj bit w =
            .ok ⟨⟩ { w.logged (.callback p.obj .accept) with naccept := w.naccept + 1 } ∨
          Incoming E w 0 ∧ BaseSocket.handleEvent E p.obj bit w = .ok ⟨⟩ (w.incoming E p.obj 0) ∨
          ∃ f w', Incoming E w f ∧ 0 < f ∧ BaseSocket.handleEvent E p.obj bit w = .ok ⟨⟩ w' ∧
            Made E .virusHandler f m (w.incoming E p.obj f) w') := by
  have hreg := hS k p hp
  by_cases hacc : (w.objs p.obj).cls = .tcpServerImpl ∧ (w.objs p.obj).accepting = true ∧ bit = .read
  · obtain ⟨hc, ha, rfl⟩ := hacc
    have hrun : BaseSocket.handleEvent E p.obj .read w = BaseSocket.handleAccept E p.obj w :=
      handleReadEvent_accepting ha
    have hopen : w.descs (w.objs p.obj).sock ≠ none := by
      rw [hreg.sock]
      exact hreg.isOpen
    rw [hrun]
    exact .inr ⟨⟨hc, ha, rfl⟩, (handleAccept_cases E hreg.alive hc hreg.map hopen).imp_left (·.2)⟩
  · exact .inl (event_local w bit fun hc ha hb => hacc ⟨hc, ha, hb⟩)

/-- The listener has found no connection. -/
theorem unaccepted_stepped (hS : Server m w) (hp : w.look m k = some p) :
    Stepped E m k p w { w.logged (.callback p.obj .accept) with naccept := w.naccept + 1 } :=
  ⟨⟨[_], rfl, by simp [Act.isEvent]⟩, fun k' p' hk' =>
    (hS k' p' hk').mono le_rfl ⟨rfl, rfl, rfl⟩ rfl rfl, fun _ _ _ hk' => hk', .inl hp, Nat.le_succ _,
    le_rfl, le_rfl, fun hcl _ => hcl⟩

theorem incoming_origin (w : World) (E : Env) (i : ℕ) (f k : ℤ) :
    ((w.incoming E i f).descs k).map Desc.origin =
      if k = f then some .accepted else (w.descs k).map Desc.origin :=
  openDesc_origin ({ w.logged (.callback i .accept) with naccept := w.naccept + 1 }) E f .accepted k

theorem incoming_isOpen (w : World) (E : Env) (i : ℕ) (f : ℤ) : (w.incoming E i f).descs f ≠ none := by
  simp [World.incoming, World.openDesc]

/-- What is known about the peer of a connection that comes in. -/
theorem incoming_peer (w : World) (E : Env) (i : ℕ) (f : ℤ) :
    (w.incoming E i f).peer E f = E.getpeername w.ngetpeername := by
  unfold World.peer
  rw [if_neg (incoming_isOpen w E i f)]
  rfl

/-- The connection on descriptor 0 has no handler. -/
theorem incoming_zero_stepped (hS : Server m w) (hp : w.look m k = some p) (hinc : Incoming E w 0) :
    Stepped E m k p w (w.incoming E p.obj 0) := by
  refine ⟨⟨[_], rfl, by simp [Act.isEvent]⟩, fun k' p' hk' => ?_, fun _ _ _ hk' => hk', .inl hp,
    Nat.le_succ _, le_rfl, le_rfl, fun _ ho => ?_⟩
  · have hr := hS k' p' hk'
    refine hr.mono le_rfl ⟨rfl, rfl, rfl⟩ rfl ?_
    exact (incoming_origin w E p.obj 0 k').trans (if_neg hr.pos.ne')
  · obtain ⟨peer, hacc⟩ := hinc.1
    exact absurd hacc (ho.accept w.naccept (Nat.lt_succ_self _) peer)

/-- **A connection that gets a handler** adds an entry under a descriptor that was free. -/
theorem Made.stepped {f : ℤ} (hS : Server m w) (hp : w.look m k = some p) (hinc : Incoming E w f)
    (hpos : 0 < f) (h : Made E .virusHandler f m (w.incoming E p.obj f) w') : Stepped E m k p w w' := by
  have hdescs : ∀ k', (w'.descs k').map Desc.origin =
      if k' = f then some .accepted else (w.descs k').map Desc.origin :=
    fun k' => (h.descs k').trans (incoming_origin w E p.obj f k')
  have hlook : ∀ k', k' ≠ f → w'.look m k' = w.look m k' := fun k' hk' => by
    rw [h.maps, if_neg (fun h => hk' h.2)]; rfl
  have hown : w'.look m f = if E.getpeername w.ngetpeername = .otherError then none else
      some ⟨w.nobj, w.nctrl⟩ := by
    rw [h.maps, if_pos ⟨rfl, rfl⟩, incoming_peer]
    rfl
  have hpeers : w'.ngetpeername = w.ngetpeername + 1 := by
    rw [h.ngetpeername, if_neg (incoming_isOpen w E p.obj f)]
    rfl
  -- whoever is registered stays so: the descriptor was free
  have hkept : ∀ k' p', w.look m k' = some p' → w'.look m k' = some p' := by
    intro k' p' hk'
    rw [hlook k' (fun hkf => by rw [hkf, hS.look_free hinc.2.2] at hk'; cases hk')]
    exact hk'
  have hfree : (w.incoming E p.obj f).look m f = none := hS.look_free hinc.2.2
  refine ⟨⟨[_], h.log, by simp [Act.isEvent]⟩, fun k' p' hk' => ?_, fun k' p' _ hk' => hkept k' p' hk',
    .inl (hkept k p hp), by rw [h.naccept]; exact Nat.le_succ _, by rw [hpeers]; exact Nat.le_succ _,
    h.nfreed.ge, fun hcl ho k' hk' => ?_⟩
  · by_cases hkf : k' = f
    · -- the new handler
      subst hkf
      rw [hown] at hk'
      by_cases hpeer : E.getpeername w.ngetpeername = .otherError
      · rw [if_pos hpeer] at hk'
        cases hk'
      · rw [if_neg hpeer] at hk'
        obtain rfl := Option.some.inj hk'
        obtain ⟨h1, h2, h3⟩ := h.obj
        refine ⟨hpos, ?_, h2, h3, ?_, .inl ⟨h1, by rw [hdescs, if_pos rfl]⟩⟩
        · rw [h.nobj]
          exact Nat.lt_succ_self _
        · have hnot : (w.incoming E p.obj k').peer E k' ≠ .otherError := by
            rw [incoming_peer]
            exact hpeer
          rw [Bool.eq_false_iff, Ne]
          exact fun hd => hnot ((h.own fun q hq => by rw [hfree] at hq; cases hq).1 hd)
    · rw [hlook k' hkf] at hk'
      have hr := hS k' p' hk'
      have hne : p'.obj ≠ (w.incoming E p.obj f).nobj := hr.obj.ne
      refine hr.mono (by rw [h.nobj]; exact Nat.le_succ _) ?_ ?_ (by rw [hdescs, if_neg hkf])
      · rw [h.others _ hne]
        exact ⟨rfl, rfl, rfl⟩
      · rw [hr.alive, Bool.eq_false_iff, Ne, h.dead _ hne]
        rintro (hd | ⟨q, hq, -⟩)
        · exact absurd hr.alive (by rw [show w.dead p'.obj = true from hd]; decide)
        · rw [hfree] at hq
          cases hq
  · by_cases hkf : k' = f
    · subst hkf
      have hpeer : E.getpeername w.ngetpeername ≠ .otherError := by
        refine ho.getpeername _ ?_
        rw [hpeers]
        exact Nat.lt_succ_self _
      exact ⟨_, by rw [hown, if_neg hpeer]⟩
    · rw [hdescs, if_neg hkf] at hk'
      obtain ⟨p', hp'⟩ := hcl k' hk'
      exact ⟨p', hkept k' p' hp'⟩

/-- **An event keeps the invariant** and touches no other entry of the map. -/
theorem event_stepped (hS : Server m w) (hp : w.look m k = some p) (bit : Bit) :
    Stepped E m k p w (final (BaseSocket.handleEvent E p.obj bit w)) := by
  rcases event_cases (E := E) hS hp bit with hl | ⟨-, h | ⟨hinc, h⟩ | ⟨f, w', hinc, hpos, h, hmade⟩⟩
  · exact hl.stepped hS hp
  · rw [h, final_ok]
    exact unaccepted_stepped hS hp
  · rw [h, final_ok]
    exact incoming_zero_stepped hS hp hinc
  · rw [h, final_ok]
    exact hmade.stepped hS hp hinc hpos

/-- **What is registered after an event** was so before, or is the new handler of a connection that a
listener has taken in and whose peer is known. -/
theorem event_registers (hS : Server m w) (hp : w.look m k = some p) (bit : Bit) :
    ∀ k' p', (final (BaseSocket.handleEvent E p.obj bit w)).look m k' = some p' →
      w.look m k' = some p' ∨
        (w.objs p.obj).cls = .tcpServerImpl ∧ (w.objs p.obj).accepting = true ∧ bit = .read ∧
          w.nobj ≤ p'.obj ∧ Incoming E w k' ∧ E.getpeername w.ngetpeername ≠ .otherError := by
  intro k' p' hp'
  rcases event_cases (E := E) hS hp bit with
    hl | ⟨⟨hc, ha, hb⟩, h | ⟨-, h⟩ | ⟨f, w', hinc, -, h, hmade⟩⟩
  · rcases hl.reg m (hS k p hp).map with hr | hr
    · rw [hr.maps] at hp'
      exact .inl hp'
    · rw [hr.maps] at hp'
      split at hp'
      · cases hp'
      · exact .inl hp'
  · rw [h] at hp'
    exact .inl hp'
  · rw [h] at hp'
    exact .inl hp'
  · rw [h, final_ok, hmade.maps] at hp'
    by_cases hk' : m = m ∧ k' = f
    · -- the handler that the listener has made
      rw [if_pos hk', incoming_peer] at hp'
      by_cases hpeer : E.getpeername w.ngetpeername = .otherError
      · rw [if_pos hpeer] at hp'
        cases hp'
      · rw [if_neg hpeer] at hp'
        cases hp'
        exact .inr ⟨hc, ha, hb, le_rfl, hk'.2 ▸ hinc, hpeer⟩
    · rw [if_neg hk'] at hp'
      exact .inl hp'

/-- No event touches the socket of a handler that there was. -/
theorem event_objs (hS : Server m w) (hp : w.look m k = some p) (bit : Bit) :
    w.nobj ≤ (final (BaseSocket.handleEvent E p.obj bit w)).nobj ∧
      ∀ i < w.nobj, ((final (BaseSocket.handleEvent E p.obj bit w)).objs i).sock = (w.objs i).sock := by
  rcases event_cases (E := E) hS hp bit with hl | ⟨-, h | ⟨-, h⟩ | ⟨f, w', -, -, h, hmade⟩⟩
  · exact ⟨hl.nobj.ge, fun i _ => (hl.objs i).2.1⟩
  · rw [h]
    exact ⟨le_rfl, fun _ _ => rfl⟩
  · rw [h]
    exact ⟨le_rfl, fun _ _ => rfl⟩
  · rw [h, final_ok]
    refine ⟨by rw [hmade.nobj]; exact Nat.le_succ _, fun i hi => ?_⟩
    rw [hmade.others i (show i ≠ w.nobj from hi.ne)]
    rfl

/-! ### Deliveries -/

/-- **A delivery** does nothing, or logs the event and runs it on the handler that is
registered. -/
theorem deliver_cases (E : Env) (m : ℕ) (w : World) (b : ℤ × Bit) :
    (serverTable E m).deliver b w = .ok ⟨⟩ w ∨
      ∃ p, w.look m b.1 = some p ∧ (serverTable E m).deliver b w =
        BaseSocket.handleEvent E p.obj b.2 (w.logged (.event p.obj b.1 b.2)) := by
  unfold Table.deliver
  rw [get_bind]
  have hmap : ((serverTable E m).map w)[b.1]? = w.look m b.1 := rfl
  rw [hmap]
  cases hl : w.look m b.1 with
  | none => exact .inl rfl
  | some p =>
    by_cases hw : (serverTable E m).wants w p b.2 = true
    · refine .inr ⟨p, rfl, ?_⟩
      simp only [hw, if_true]
      rfl
    · left
      simp only [hw]
      rfl

/-- What deliveries make of the process: they keep the invariant, and every event goes to
what `reg` knows to be registered. -/
structure Delivered (E : Env) (m : ℕ) (reg : ℤ → Option SharedPtr) (w w' : World) : Prop where
  log : ∃ l, w'.log = w.log ++ l ∧
    ∀ this k bit, .event this k bit ∈ l → ∃ p, reg k = some p ∧ p.obj = this
  server : Server m w'
  naccept : w.naccept ≤ w'.naccept
  ngetpeername : w.ngetpeername ≤ w'.ngetpeername
  nfreed : w.nfreed ≤ w'.nfreed
  clients : Clients m w → Orderly E w' → Clients m w'

theorem Delivered.refl {reg : ℤ → Option SharedPtr} (hS : Server m w) : Delivered E m reg w w :=
  ⟨⟨[], by simp⟩, hS, le_rfl, le_rfl, le_rfl, fun h _ => h⟩

/-- Calls made so far are made later on, too. -/
theorem Orderly.mono (h : Orderly E w') (ha : w.naccept ≤ w'.naccept)
    (hg : w.ngetpeername ≤ w'.ngetpeername) (hf : w.nfreed ≤ w'.nfreed) : Orderly E w :=
  ⟨fun i hi => h.accept i (lt_of_lt_of_le hi ha), fun i hi => h.getpeername i (lt_of_lt_of_le hi hg),
    fun i hi => h.freed i (lt_of_lt_of_le hi hf)⟩

theorem Delivered.trans {reg : ℤ → Option SharedPtr} {w'' : World} (h : Delivered E m reg w w')
    (h' : Delivered E m reg w' w'') : Delivered E m reg w w'' := by
  obtain ⟨l, hl, he⟩ := h.log
  obtain ⟨l', hl', he'⟩ := h'.log
  refine ⟨⟨l ++ l', by rw [hl', hl, List.append_assoc], ?_⟩, h'.server, h.naccept.trans h'.naccept,
    h.ngetpeername.trans h'.ngetpeername, h.nfreed.trans h'.nfreed,
    fun hc ho => h'.clients (h.clients hc (ho.mono h'.naccept h'.ngetpeername h'.nfreed)) ho⟩
  intro this k bit ha
  rcases List.mem_append.1 ha with ha | ha
  · exact he this k bit ha
  · exact he' this k bit ha

/-- **One delivery** keeps the invariant and all other entries, and puts nothing new under
its own descriptor. -/
theorem deliver_delivered (hS : Server m w) (b : ℤ × Bit) {reg : ℤ → Option SharedPtr}
    (hreg : ∀ p, w.look m b.1 = some p → reg b.1 = some p) :
    Delivered E m reg w (final ((serverTable E m).deliver b w)) ∧
      (∀ k p, k ≠ b.1 → w.look m k = some p →
        (final ((serverTable E m).deliver b w)).look m k = some p) ∧
      ((final ((serverTable E m).deliver b w)).look m b.1 = w.look m b.1 ∨
        (final ((serverTable E m).deliver b w)).look m b.1 = none) := by
  rcases deliver_cases E m w b with hrun | ⟨p, hp, hrun⟩
  · rw [hrun, final_ok]
    exact ⟨.refl hS, fun _ _ _ h => h, .inl rfl⟩
  · rw [hrun]
    -- the event is put down before the handler is called
    have hS' : Server m (w.logged (.event p.obj b.1 b.2)) := hS.congr rfl rfl rfl rfl rfl
    have h := event_stepped (E := E) hS' hp b.2
    generalize final (BaseSocket.handleEvent E p.obj b.2 (w.logged (.event p.obj b.1 b.2))) = w' at h ⊢
    obtain ⟨l, hl, he⟩ := h.log
    refine ⟨⟨⟨.event p.obj b.1 b.2 :: l, ?_, ?_⟩, h.server, h.naccept, h.ngetpeername, h.nfreed, h.clients⟩,
      h.others, ?_⟩
    · rw [hl]
      simp [World.logged]
    · intro this k bit ha
      rcases List.mem_cons.1 ha with ha | ha
      · cases ha
        exact ⟨p, hreg p hp, rfl⟩
      · cases he _ ha
    · rw [hp]
      exact h.own

/-- In a process that began the round with the handlers `reg`, the bits `l` are still to
come: each finds the handler it was asked for, or nobody, and nobody only at the
descriptor whose turn it is. -/
def Pending (m : ℕ) (reg : ℤ → Option SharedPtr) (w : World) (l : List (ℤ × Bit)) : Prop :=
  ∀ b ∈ l, w.look m b.1 = reg b.1 ∨ w.look m b.1 = none ∧ ∀ c ∈ l, b.1 ≤ c.1

/-- **The deliveries of a round** go to the handlers that were registered when it began. -/
theorem deliveries_delivered {reg : ℤ → Option SharedPtr} {l : List (ℤ × Bit)}
    (hS : Server m w) (hP : Pending m reg w l) (hl : l.Pairwise Before)
    (hreg : ∀ b ∈ l, ∃ p, reg b.1 = some p) :
    Delivered E m reg w (final (l.forM (serverTable E m).deliver w)) := by
  induction l generalizing w with
  | nil => exact .refl hS
  | cons b l ih =>
    have hb : ∀ p, w.look m b.1 = some p → reg b.1 = some p := by
      intro p hp
      rcases hP b List.mem_cons_self with h | ⟨h, -⟩
      · rw [← h]; exact hp
      · rw [hp] at h; cases h
    obtain ⟨hdel, hothers, hown⟩ := deliver_delivered (E := E) hS b hb
    change Delivered E m reg w (final (((serverTable E m).deliver b >>= fun _ =>
      l.forM (serverTable E m).deliver) w))
    cases hrun : (serverTable E m).deliver b w with
    | error f w' =>
      rw [hrun, final_error] at hdel
      rw [bind_of_error hrun]
      exact hdel
    | ok u w' =>
      rw [hrun, final_ok] at hdel hothers hown
      rw [bind_of_ok hrun]
      refine hdel.trans (ih hdel.server ?_ hl.of_cons fun c hc => hreg c (List.mem_cons_of_mem _ hc))
      -- what is pending: the turn of `b` changes no descriptor behind it
      intro c hc
      have hbc : b.1 ≤ c.1 := by
        rcases List.rel_of_pairwise_cons hl hc with h | ⟨h, -⟩
        · exact h.le
        · exact h.le
      have hle : ∀ d ∈ l, b.1 ≤ d.1 := fun d hd => by
        rcases List.rel_of_pairwise_cons hl hd with h | ⟨h, -⟩
        · exact h.le
        · exact h.le
      by_cases heq : c.1 = b.1
      · rcases hown with h | h
        · rcases hP b List.mem_cons_self with h' | ⟨h', -⟩
          · left; rw [heq, h, h']
          · right; exact ⟨by rw [heq, h, h'], fun d hd => heq ▸ hle d hd⟩
        · right; exact ⟨by rw [heq, h], fun d hd => heq ▸ hle d hd⟩
      · have hc' : w.look m c.1 = reg c.1 := by
          rcases hP c (List.mem_cons_of_mem _ hc) with h | ⟨-, h⟩
          · exact h
          · exact absurd (le_antisymm (h b List.mem_cons_self) hbc) heq
        obtain ⟨p, hp⟩ := hreg c (List.mem_cons_of_mem _ hc)
        left
        rw [hothers c.1 p heq (hc'.trans hp), hp]

/-- What a bit was asked for is registered. -/
theorem interest_registered {w : World} {b : ℤ × Bit} (hb : b.1 ∈ ((serverTable E m).interest w).e) :
    ∃ p, w.look m b.1 = some p := by
  simp only [Table.interest, Table.socks, socksOf, List.mem_toFinset, List.mem_map, List.mem_filter] at hb
  obtain ⟨⟨k, p⟩, ⟨hin, -⟩, hk⟩ := hb
  rw [Std.TreeMap.mem_toList_iff_getElem?_eq_some] at hin
  exact ⟨p, by rw [← hk]; exact hin⟩

theorem Server.keys_pos (hS : Server m w) : ∀ k ∈ (serverTable E m).map w, 0 < k := by
  intro k hk
  rw [Std.TreeMap.mem_iff_isSome_getElem?, Option.isSome_iff_exists] at hk
  obtain ⟨p, hp⟩ := hk
  exact (hS k p hp).pos

/-- **One round of `do_select`** keeps the invariant, and every event of it goes to the
handler that was registered under the descriptor when the round began. -/
theorem doSelect_delivered (hS : Server m w) :
    Delivered E m (w.look m) w (final (doSelect E m w)) := by
  by_cases hlow : ∀ k ∈ ((serverTable E m).interest w).e, k < fdSetSize
  · unfold doSelect
    rw [doSelect_eq_round _ _ hS.keys_pos hlow (osSelect_polls E)]
    unfold Table.round
    rw [get_bind]
    cases hm : ((serverTable E m).interest w).e.max with
    | bot => exact .refl hS
    | coe fd =>
      obtain ⟨retv, sets, hsel, hok⟩ := osSelect_cases E (fd + 1) ((serverTable E m).interest w) w
      dsimp only
      rw [bind_of_ok hsel]
      have hS' : Server m { w with nselect := w.nselect + 1 } := hS.congr rfl rfl rfl rfl rfl
      have hstep : Delivered E m (w.look m) w { w with nselect := w.nselect + 1 } :=
        ⟨⟨[], by simp⟩, hS', le_rfl, le_rfl, le_rfl, fun h _ => h⟩
      dsimp only
      by_cases hr : retv = -1
      · rw [if_pos hr]
        exact hstep
      · rw [if_neg hr]
        obtain ⟨hsub, -⟩ := hok.resolve_left hr
        refine hstep.trans
          (deliveries_delivered hS' (fun b _ => .inl rfl) sets.bits_pairwise fun b hb => ?_)
        obtain ⟨k, bit⟩ := b
        exact interest_registered (E := E) (hsub.mem_e (FdSets.mem_get_union (FdSets.mem_bits.1 hb)))
  · -- a number without a bit: the round ends before `select`
    push Not at hlow
    obtain ⟨k, hk, hle⟩ := hlow
    obtain ⟨k', -, -, hrun⟩ := doSelect_overflows (serverTable E m) w hS.keys_pos (osSelect E) hk hle.not_gt
    rw [show doSelect E m w = _ from hrun]
    exact .refl hS

end DocFerry
