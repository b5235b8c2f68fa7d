import DocFerry.Proof.Admit

/-!
# The constructors and the map

A null map pointer stands for `g_handlers` in the new object; the call that registers the object gets
the pointer as it was given.

* `construct_given`: on a map that was given, the constructors do what they are for.
* `construct_null`: without one they follow a null pointer.
* `construct_iff`: when a constructor on a valid socket does all that it is for.
-/

namespace DocFerry

open Prog

/-- The constructors that are given a socket. -/
inductive Constructor
  | baseSocket
  | socketHandler
  | virusHandler
  deriving DecidableEq, Repr

/-- The call of a constructor. -/
def Constructor.run (E : Env) (sock : ℤ) (p_handlers : Option ℕ) : Constructor → Proc ℕ
  | .baseSocket => BaseSocket.new E .baseSocket sock p_handlers
  | .socketHandler => SocketHandler.new E .socketHandler sock p_handlers
  | .virusHandler => SocketHandler.new E .virusHandler sock p_handlers

/-- What a constructor does to the maps, where `m` is the effective map and `this` the new handler. -/
structure Mapped (E : Env) (sock : ℤ) (m this : ℕ) (w w' : World) : Prop where
  effective : (w'.objs this).p_handlers = some m
  registered : w.peer E sock ≠ .otherError →
    (∃ ctrl, w'.look m sock = some ⟨this, ctrl⟩) ∧
      ∀ j k, ¬ (j = m ∧ k = sock) → w'.look j k = w.look j k
  refused : w.peer E sock = .otherError → w'.look m sock = none

/-- The handler `this` counts as connected exactly when its peer is known. -/
def ConnectedRight (E : Env) (sock : ℤ) (this : ℕ) (w w' : World) : Prop :=
  (w'.objs this).connected = true ↔ ∃ addr, w.peer E sock = .peer addr

/-- The handler is alive: the map owns it. -/
def Alive (m : ℕ) (sock : ℤ) (this : ℕ) (w' : World) : Prop :=
  ∃ ctrl, w'.look m sock = some ⟨this, ctrl⟩

variable {E : Env} {w : World} {sock : ℤ} {m : ℕ}

/-- A handler that was made on the map `m` is in it, or was let go again. -/
theorem Made.mapped {cls : HandlerClass} {w' : World} (h : Made E cls sock m w w') :
    Mapped E sock m w.nobj w w' ∧ (Alive m sock w.nobj w' ↔ w.peer E sock ≠ .otherError) := by
  have hown : w'.look m sock =
      if w.peer E sock = .otherError then none else some ⟨w.nobj, w.nctrl⟩ := by
    rw [h.maps, if_pos ⟨rfl, rfl⟩]
  have hreg : w.peer E sock ≠ .otherError → w'.look m sock = some ⟨w.nobj, w.nctrl⟩ := by
    intro hp
    rw [hown, if_neg hp]
  have hgone : w.peer E sock = .otherError → w'.look m sock = none := by
    intro hp
    rw [hown, if_pos hp]
  refine ⟨⟨h.obj.2.2, fun hp => ⟨⟨_, hreg hp⟩, fun j k hjk => ?_⟩, hgone⟩, ?_, fun hp => ⟨_, hreg hp⟩⟩
  · rw [h.maps, if_neg hjk]
  · rintro ⟨ctrl, hl⟩ hp
    rw [hgone hp] at hl
    cases hl

/-- **On a map that was given** the constructors register the handler, or let it go again; `connected`
is cleared for a socket without a peer only. -/
theorem construct_given (E : Env) (w : World) (c : Constructor) (m : ℕ) (hv : cpSocketValid sock = true) :
    ∃ w', c.run E sock (some m) w = .ok w.nobj w' ∧ Mapped E sock m w.nobj w w' ∧
      (Alive m sock w.nobj w' ↔ w.peer E sock ≠ .otherError) ∧
      ((w'.objs w.nobj).connected = true ↔ w.peer E sock ≠ .notConnected) := by
  cases c with
  | baseSocket =>
    obtain ⟨w', hrun, hmade, hconn⟩ := new_valid E w .baseSocket m hv
    obtain ⟨hmap, halive⟩ := hmade.mapped
    exact ⟨w', hrun, hmap, halive, hconn⟩
  | socketHandler =>
    obtain ⟨w', hrun, hmade, hconn⟩ := socketHandler_valid E w .socketHandler m hv
    obtain ⟨hmap, halive⟩ := hmade.mapped
    exact ⟨w', hrun, hmap, halive, hconn⟩
  | virusHandler =>
    obtain ⟨w', hrun, hmade, hconn⟩ := socketHandler_valid E w .virusHandler m hv
    obtain ⟨hmap, halive⟩ := hmade.mapped
    exact ⟨w', hrun, hmap, halive, hconn⟩

/-- **Without a map** the registration follows the null pointer that the constructor was given. -/
theorem construct_null (E : Env) (w : World) (c : Constructor) (hv : cpSocketValid sock = true) :
    ∃ w', c.run E sock none w = .error .nullDeref w' := by
  have hnew : ∀ cls, ∃ w', BaseSocket.new E cls sock none w = .error .nullDeref w' := by
    intro cls
    obtain ⟨ret, descs, hblk, -⟩ :=
      cpSetblocking_cases (w.alloc (BaseSocket.begun E cls sock none)) sock false
    -- the object has the default map, its registration gets the null argument
    have hset : ∀ w₁ : World, ∃ w', BaseSocket.setSocket w.nobj sock none w₁ = .error .nullDeref w' :=
      fun w₁ => ⟨_, rfl⟩
    obtain ⟨w', hset'⟩ := hset { w.alloc (BaseSocket.begun E cls sock none) with descs := descs }
    refine ⟨w', ?_⟩
    unfold BaseSocket.new
    rw [get_bind, bind_of_ok run_modify, hv, if_pos rfl]
    rw [bind_of_ok hblk]
    exact bind_of_error hset'
  cases c with
  | baseSocket => exact hnew _
  | socketHandler =>
    obtain ⟨w', h⟩ := hnew .socketHandler
    exact ⟨w', bind_of_error h⟩
  | virusHandler =>
    obtain ⟨w', h⟩ := hnew .virusHandler
    exact ⟨w', bind_of_error h⟩

/-- **When a constructor on a valid socket does what it is for**: never without a map. With one it keeps
the map as it should, and `connected` is right of every handler that is still there; only that of a
handler that was let go again is left at true. -/
theorem construct_iff (E : Env) (w : World) (c : Constructor) (p_handlers : Option ℕ)
    (hv : cpSocketValid sock = true) :
    ((∃ this w', c.run E sock p_handlers w = .ok this w' ∧
        Mapped E sock (p_handlers.getD gHandlers) this w w' ∧ ConnectedRight E sock this w w') ↔
      p_handlers ≠ none ∧ w.peer E sock ≠ .otherError) ∧
    ((∃ this w', c.run E sock p_handlers w = .ok this w' ∧
        Mapped E sock (p_handlers.getD gHandlers) this w w' ∧
        (Alive (p_handlers.getD gHandlers) sock this w' → ConnectedRight E sock this w w')) ↔
      p_handlers ≠ none) := by
  cases p_handlers with
  | none =>
    -- both properties ask for a call that returns
    obtain ⟨w₁, hrun⟩ := construct_null E w c hv
    constructor
    · refine iff_of_false ?_ fun h => h.1 rfl
      rintro ⟨this, w', h, -⟩
      rw [hrun] at h
      cases h
    · refine iff_of_false ?_ fun h => h rfl
      rintro ⟨this, w', h, -⟩
      rw [hrun] at h
      cases h
  | some m =>
    obtain ⟨w₁, hrun, hmap, halive, hconn⟩ := construct_given E w c m hv
    have hright : w.peer E sock ≠ .otherError → ConnectedRight E sock w.nobj w w₁ := by
      intro hp
      unfold ConnectedRight
      rw [hconn]
      cases hpeer : w.peer E sock with
      | peer addr => simp
      | notConnected => simp
      | otherError => exact absurd hpeer hp
    constructor
    · constructor
      · rintro ⟨this, w', h, -, hc⟩
        rw [hrun] at h
        cases h
        refine ⟨Option.some_ne_none m, fun hp => ?_⟩
        -- the handler was let go and still counts as connected
        have htrue : (w₁.objs w.nobj).connected = true := hconn.2 (by rw [hp]; decide)
        obtain ⟨addr, haddr⟩ := hc.1 htrue
        rw [hp] at haddr
        cases haddr
      · rintro ⟨-, hp⟩
        exact ⟨w.nobj, w₁, hrun, hmap, hright hp⟩
    · refine iff_of_true ?_ (Option.some_ne_none m)
      exact ⟨w.nobj, w₁, hrun, hmap, fun ha => hright (halive.1 ha)⟩

/-- The process with a connection on descriptor 5. -/
def World.linked (E : Env) : World := World.init.openDesc E 5 .accepted

/-- The handler of a connection, on `g_handlers` itself. -/
theorem construct_iff_connection :
    ((∃ this w',
        Constructor.run .steady 5 (some gHandlers) .virusHandler (World.linked .steady) = .ok this w' ∧
        Mapped .steady 5 gHandlers this (World.linked .steady) w' ∧
        ConnectedRight .steady 5 this (World.linked .steady) w') ↔
      some gHandlers ≠ none ∧ (World.linked .steady).peer .steady 5 ≠ .otherError) ∧
    ((∃ this w',
        Constructor.run .steady 5 (some gHandlers) .virusHandler (World.linked .steady) = .ok this w' ∧
        Mapped .steady 5 gHandlers this (World.linked .steady) w' ∧
        (Alive gHandlers 5 this w' → ConnectedRight .steady 5 this (World.linked .steady) w')) ↔
      some gHandlers ≠ none) :=
  construct_iff .steady (World.linked .steady) .virusHandler (some gHandlers) (by decide)

/-- A system on which no peer can be asked for. -/
def Env.mute : Env := { Env.steady with getpeername := fun _ => .otherError }

/-- **The default map** makes the constructor follow a null pointer; and of a handler that is let go
again `connected` stays true. -/
theorem construct_wrong :
    (¬ ∃ this w', Constructor.run .steady 5 none .virusHandler (World.linked .steady) = .ok this w' ∧
        Mapped .steady 5 gHandlers this (World.linked .steady) w' ∧
        ConnectedRight .steady 5 this (World.linked .steady) w') ∧
    ¬ ∃ this w',
        Constructor.run .mute 5 (some gHandlers) .virusHandler (World.linked .mute) = .ok this w' ∧
        Mapped .mute 5 gHandlers this (World.linked .mute) w' ∧
        ConnectedRight .mute 5 this (World.linked .mute) w' := by
  constructor
  · rintro ⟨this, w', h, -⟩
    have hv : cpSocketValid 5 = true := by decide
    obtain ⟨w₁, hrun⟩ := construct_null .steady (World.linked .steady) .virusHandler hv
    rw [hrun] at h
    cases h
  · rintro ⟨this, w', h, -, hc⟩
    have hv : cpSocketValid 5 = true := by decide
    have hpeer : (World.linked .mute).peer .mute 5 = .otherError := by decide +kernel
    obtain ⟨w₁, hrun, -, -, hconn⟩ :=
      construct_given .mute (World.linked .mute) .virusHandler gHandlers hv
    rw [hrun] at h
    cases h
    obtain ⟨addr, haddr⟩ := hc.1 (hconn.2 (by rw [hpeer]; decide))
    rw [hpeer] at haddr
    cases haddr

end DocFerry
