import DocFerry.Proof.Listener

/-!
# The making of handlers, as steps of a relation

`MakerRules E R`: what a relation `R` between states of the process needs so that constructors, `accept`
and what is around them are steps of it: `MakerRules.handleAccept`. With `ListenRules E R` listeners are,
too: `ListenRules.tcpServer`.
-/

namespace DocFerry

open Prog

/-- Handlers, descriptors, what was sent and the disk are as before. -/
structure Aloof (w w' : World) : Prop where
  objs : w'.objs = w.objs
  nobj : w'.nobj = w.nobj
  descs : w'.descs = w.descs
  out : w'.out = w.out
  disk : w'.disk = w.disk

/-- What the making of handlers is made of. -/
structure MakerRules (E : Env) (R : World → World → Prop) : Prop where
  refl : ∀ w, R w w
  trans : ∀ w w' w'', R w w' → R w' w'' → R w w''
  aloof : ∀ w w', Aloof w w' → R w w'
  flags : ∀ (w : World) descs, (∀ k, (descs k).map Desc.origin = (w.descs k).map Desc.origin) →
    R w { w with descs := descs }
  alloc : ∀ (w : World) cls sock p_handlers, R w (w.alloc (BaseSocket.begun E cls sock p_handlers))
  assign : ∀ i f, (∀ o : BaseSocket, (f o).cls = o.cls ∧ (f o).virus = o.virus ∧
    (f o).connecting = o.connecting ∧ (f o).accepting = o.accepting) → Steps R (assign i f)
  openDesc : ∀ (w : World) f o, w.descs f = none → R w (w.openDesc E f o)

/-- What the making of listeners is made of. -/
structure ListenRules (E : Env) (R : World → World → Prop) : Prop extends MakerRules E R where
  listening : ∀ i, Steps R (DocFerry.assign i ({ · with accepting := true }))

variable {E : Env} {R : World → World → Prop} {this : ℕ} {sock : ℤ}

namespace MakerRules

variable (hR : MakerRules E R)

include hR

theorem obj {i : ℕ} : Steps R (obj i) := fun w => hR.refl w

theorem pure {α : Type} (a : α) : Steps R (Pure.pure a : Proc α) := Steps.pure hR.refl a

theorem bind {α β : Type} {x : Proc α} {f : α → Proc β} (hx : Steps R x) (hf : ∀ a, Steps R (f a)) :
    Steps R (x >>= f) := Steps.bind hR.trans hx hf

theorem of_aloof {α : Type} {x : Proc α} (h : ∀ w, Aloof w (final (x w))) : Steps R x :=
  fun w => hR.aloof w _ (h w)

theorem alive : Steps R (alive this) := by
  apply hR.of_aloof
  intro w
  cases hd : w.dead this with
  | true => rw [run_dead hd]; exact ⟨rfl, rfl, rfl, rfl, rfl⟩
  | false => rw [run_alive hd]; exact ⟨rfl, rfl, rfl, rfl, rfl⟩

theorem cpSetblocking {b : Bool} : Steps R (cpSetblocking sock b) := by
  intro w
  obtain ⟨ret, descs, hrun, horig⟩ := cpSetblocking_cases w sock b
  rw [hrun]
  exact hR.flags w descs horig

/-! ### Registration -/

theorem addChannel (p_handlers : Option ℕ) : Steps R (BaseSocket.addChannel this p_handlers) := by
  apply hR.of_aloof
  intro w
  cases p_handlers with
  | none => exact ⟨rfl, rfl, rfl, rfl, rfl⟩
  | some m => exact ⟨rfl, rfl, rfl, rfl, rfl⟩

theorem delChannel (p_handlers : Option ℕ) : Steps R (BaseSocket.delChannel this p_handlers) := by
  apply hR.of_aloof
  intro w
  cases p_handlers with
  | none => exact ⟨rfl, rfl, rfl, rfl, rfl⟩
  | some m => exact ⟨rfl, rfl, rfl, rfl, rfl⟩

theorem setSocket (p_handlers : Option ℕ) : Steps R (BaseSocket.setSocket this sock p_handlers) :=
  hR.bind (hR.assign _ _ fun _ => ⟨rfl, rfl, rfl, rfl⟩) fun _ => hR.addChannel p_handlers

/-! ### Constructors -/

theorem cpGetpeername : Steps R (cpGetpeername E sock) := by
  apply hR.of_aloof
  intro w
  rw [cpGetpeername_eq, final_ok]
  split
  · exact ⟨rfl, rfl, rfl, rfl, rfl⟩
  · exact ⟨rfl, rfl, rfl, rfl, rfl⟩

theorem askPeer : Steps R (BaseSocket.askPeer E this sock) := by
  refine hR.bind hR.cpGetpeername fun r => ?_
  cases r with
  | peer addr => exact hR.assign _ _ fun _ => ⟨rfl, rfl, rfl, rfl⟩
  | notConnected => exact hR.assign _ _ fun _ => ⟨rfl, rfl, rfl, rfl⟩
  | otherError => exact hR.bind hR.obj fun _ => hR.delChannel _

theorem new (cls : HandlerClass) (sock : ℤ) (p_handlers : Option ℕ) :
    Steps R (BaseSocket.new E cls sock p_handlers) := by
  intro w
  unfold BaseSocket.new
  rw [get_bind, bind_of_ok run_modify]
  apply hR.trans _ _ _ (hR.alloc w cls sock p_handlers)
  refine Steps.ite ?_ (hR.pure _) _
  apply hR.bind hR.cpSetblocking
  intro _
  apply hR.bind (hR.setSocket p_handlers)
  intro _
  refine hR.bind (hR.assign _ _ fun _ => ⟨rfl, rfl, rfl, rfl⟩) fun _ => ?_
  exact hR.bind hR.askPeer fun _ => hR.pure _

theorem socketHandler (cls : HandlerClass) (sock : ℤ) (p_handlers : Option ℕ) :
    Steps R (SocketHandler.new E cls sock p_handlers) := by
  apply hR.bind (hR.new cls sock p_handlers)
  intro _
  exact hR.bind hR.cpSetblocking fun _ => hR.pure _

/-! ### Accepting -/

theorem cpAccept : Steps R (cpAccept E sock) := by
  intro w
  by_cases ho : w.descs sock = none
  · unfold DocFerry.cpAccept
    rw [get_bind, if_pos ho]
    exact hR.refl w
  · have hcount : R w { w with naccept := w.naccept + 1 } := hR.aloof _ _ ⟨rfl, rfl, rfl, rfl, rfl⟩
    rcases cpAccept_cases E w sock ho with ⟨f, peer, hinc, hrun⟩ | ⟨-, hrun⟩
    · rw [hrun]
      exact hR.trans _ _ _ hcount (hR.openDesc { w with naccept := w.naccept + 1 } f .accepted hinc.2.2)
    · rw [hrun]
      exact hcount

theorem accept : Steps R (BaseSocket.accept E this) := by
  refine Steps.get_bind fun w => hR.bind hR.obj (fun o => ?_) w
  apply hR.bind hR.cpAccept
  rintro ⟨sock, peer⟩
  exact Steps.ite (hR.pure _) (Steps.ite (hR.pure _) (hR.pure _))

/-- **A connection that comes in**. -/
theorem handleAccept : Steps R (BaseSocket.handleAccept E this) := by
  apply hR.bind hR.alive
  intro _
  refine hR.bind (hR.of_aloof fun _ => ⟨rfl, rfl, rfl, rfl, rfl⟩) fun _ => hR.bind hR.obj fun o => ?_
  cases o.cls with
  | baseSocket => exact hR.pure _
  | socketHandler => exact hR.pure _
  | virusHandler => exact hR.pure _
  | tcpServerImpl =>
    apply hR.bind hR.accept
    rintro ⟨sock, peer⟩
    refine Steps.ite (hR.bind hR.obj fun o => ?_) (hR.pure _)
    exact hR.bind (hR.socketHandler _ _ _) fun _ => hR.pure _

/-! ### Listeners -/

theorem cpSocket : Steps R (cpSocket E) := by
  intro w
  unfold DocFerry.cpSocket
  rw [get_bind]
  have hcount : R w { w with nsocket := w.nsocket + 1 } := hR.aloof _ _ ⟨rfl, rfl, rfl, rfl, rfl⟩
  cases E.socket w.nsocket with
  | none => exact hcount
  | some sock =>
    dsimp only
    by_cases hf : 0 ≤ sock ∧ w.descs sock = none
    · rw [if_pos hf]
      exact hR.trans _ _ _ hcount (hR.openDesc { w with nsocket := w.nsocket + 1 } sock .created hf.2)
    · rw [if_neg hf]
      exact hcount

theorem createSocket : Steps R (BaseSocket.createSocket E this .stream) := by
  apply hR.bind hR.cpSocket
  intro sock
  refine hR.bind (hR.assign _ _ fun _ => ⟨rfl, rfl, rfl, rfl⟩) fun _ => ?_
  refine hR.bind hR.obj fun o => Steps.ite ?_ (hR.pure _)
  apply hR.bind hR.cpSetblocking
  intro _
  exact hR.bind (hR.setSocket _) fun _ => hR.pure _

theorem bindAddr {addr : Addr} : Steps R (BaseSocket.bind E this addr) := by
  refine hR.bind (hR.assign _ _ fun _ => ⟨rfl, rfl, rfl, rfl⟩) fun _ => hR.of_aloof fun w => ?_
  unfold cpBind
  by_cases h : cpInetPton E (BaseSocket.hostArg addr) = 0 ∨ cpInetPton E (BaseSocket.hostArg addr) = -1
  · rw [if_pos h]
    exact ⟨rfl, rfl, rfl, rfl, rfl⟩
  · rw [if_neg h]
    exact ⟨rfl, rfl, rfl, rfl, rfl⟩

end MakerRules

namespace ListenRules

variable (hR : ListenRules E R)

include hR

theorem listen : Steps R (BaseSocket.listen E this) :=
  hR.bind (hR.listening this) fun _ => hR.of_aloof fun _ => ⟨rfl, rfl, rfl, rfl, rfl⟩

/-- **A new `TCPServer`**. -/
theorem tcpServer (host : Option String) (port : UInt16) (p_handlers : Option ℕ) :
    Steps R (TCPServer.new E host port p_handlers) := by
  refine hR.bind ?_ fun _ => hR.bind hR.obj fun _ => hR.pure _
  apply hR.bind (hR.new _ _ _)
  intro this
  apply hR.bind hR.createSocket
  intro _
  apply hR.bind hR.bindAddr
  intro _
  exact hR.bind hR.listen fun _ => hR.pure _

end ListenRules

end DocFerry
