import DocFerry.Proof.Quiet
import DocFerry.Proof.Sessions

/-!
# What the server does not survive

An event stops the process when it leaves an object or uses one that was destroyed, or when the system ends
the process; and it hangs when the loop of `handle_read` does not end.

* `event_returns`: an event that brings no bytes returns, unless a send in it is refused for good.
* `crashes_iff`: in every state that the server reaches, whatever its clients have sent, an event stops
  the process exactly when its client stands inside a header and more bytes come, or a send in it is
  refused for good. Otherwise it returns.
-/

namespace DocFerry

open Prog

/-- The event brings bytes of a client that stands inside a header. -/
def InsideHeader (E : Env) (w : World) (this : ℕ) (bit : Bit) (bs : List UInt8) : Prop :=
  GetsBytes E w this bit ∧ 0 < (requests.rest false bs).length ∧ (requests.rest false bs).length < 8

/-- The event sends answers, and the first fatal answer to a send is `r`. -/
def Refused (E : Env) (w : World) (this : ℕ) (bit : Bit) (r : SendResult) : Prop :=
  bit = .write ∧ (w.objs this).cls = .virusHandler ∧ (w.objs this).accepting = false ∧ FirstFatal E w this r

variable {E : Env} {m : ℕ} {heard : ℕ → List UInt8} {w w' : World} {k : ℤ} {p : SharedPtr} {bit : Bit} {this : ℕ}

theorem Server.owned (hS : Server m w) (hp : w.look m k = some p) : Owned m p.obj w := by
  have hreg := hS k p hp
  refine ⟨hreg.map, hreg.alive, p, ?_, rfl⟩
  rw [hreg.sock]
  exact hp

theorem Server.descs_open (hS : Server m w) (hp : w.look m k = some p) :
    w.descs (w.objs p.obj).sock ≠ none := by
  rw [(hS k p hp).sock]
  exact (hS k p hp).isOpen

/-! ### Events without bytes -/

/-- **`handle_read`** that gets no bytes returns. -/
theorem handleRead_returns (ho : Owned m this w)
    (hno : (w.objs this).cls = .virusHandler → ∀ bs, E.recv w.nrecv = .data bs → bs = []) :
    ∃ w', BaseSocket.handleRead E this w = .ok ⟨⟩ w' := by
  have ho₁ : Owned m this (w.logged (.callback this .read)) := ho.congr rfl rfl rfl rfl
  unfold BaseSocket.handleRead
  rw [alive_bind ho.alive, bind_of_ok run_act, bind_of_ok run_obj, World.logged_objs]
  cases hc : (w.objs this).cls with
  | baseSocket => exact ⟨_, rfl⟩
  | tcpServerImpl => exact ⟨_, rfl⟩
  | socketHandler =>
    obtain ⟨ret, bs, w', hrun, -⟩ := recv_ok (E := E) ho₁ 4096 (by decide) (by decide)
    dsimp only
    unfold SocketHandler.handleRead
    rw [bind_of_ok hrun]
    exact ⟨_, rfl⟩
  | virusHandler =>
    have hnone : ∀ bs, E.recv (w.logged (.callback this .read)).nrecv = .data bs → bs = [] := hno hc
    obtain ⟨ret, bs, w', hrun, -⟩ := recv_ok (E := E) ho₁ 65535 (by decide) (by decide)
    dsimp only
    unfold VirusHandler.handleRead
    rw [bind_of_ok hrun]
    dsimp only
    rcases recv_none hnone (by decide) (by decide) hrun with rfl | rfl
    · rw [if_pos rfl]
      exact ⟨_, rfl⟩
    · rw [if_neg (by decide), if_pos rfl]
      exact ⟨_, rfl⟩

/-- The exception event returns, and closes the handler or leaves it. -/
theorem handleExptEvent_returns (ho : Owned m this w) (hd : w.descs (w.objs this).sock ≠ none) :
    ∃ w', BaseSocket.handleExptEvent E this w = .ok ⟨⟩ w' := by
  have ho₁ : Owned m this { w with ngetsockopt := w.ngetsockopt + 1 } := ho.congr rfl rfl rfl rfl
  unfold BaseSocket.handleExptEvent
  rw [bind_of_ok run_obj, bind_of_ok (getsockopt_open hd)]
  by_cases hv : E.getsockopt w.ngetsockopt = 0
  · rw [if_pos hv]
    exact handleExpt_ok ho₁
  · rw [if_neg hv]
    exact ⟨_, handleClose_eq ho₁.alive ho₁.map⟩

/-- **An event that brings no bytes** returns, unless a send in it is refused for good. -/
theorem event_returns (hS : Server m w) (hA : w.Answers E) (hp : w.look m k = some p)
    (hcon : (w.objs p.obj).connecting = false) (hno : ¬ GetsBytes E w p.obj bit)
    (hfatal : ¬ Refused E w p.obj bit .fatal) (hpipe : ¬ Refused E w p.obj bit .pipe) :
    ∃ w', BaseSocket.handleEvent E p.obj bit w = .ok ⟨⟩ w' := by
  have ho := hS.owned hp
  have hopen := hS.descs_open hp
  cases bit with
  | expt => exact handleExptEvent_returns ho hopen
  | write =>
    change ∃ w', BaseSocket.handleWriteEvent E p.obj w = .ok ⟨⟩ w'
    by_cases hacc : (w.objs p.obj).accepting = true
    · unfold BaseSocket.handleWriteEvent
      rw [bind_of_ok run_obj, if_pos hacc]
      exact ⟨_, rfl⟩
    · have hacc' : (w.objs p.obj).accepting = false := by simpa using hacc
      rw [handleWriteEvent_writing hacc' hcon]
      by_cases hc : (w.objs p.obj).cls = .virusHandler
      · have hq : ∀ r ∈ (w.objs p.obj).virus.resp, r.Sendable := fun r hr =>
          (hA.wellFormed p.obj r hr).sendable
        rcases handleWrite_ends (E := E) ho hopen hc hq with ⟨-, hrun⟩ | ⟨href, -⟩ | ⟨href, -⟩
        · exact hrun
        · exact absurd ⟨rfl, hc, hacc', href⟩ hfatal
        · exact absurd ⟨rfl, hc, hacc', href⟩ hpipe
      · rw [handleWrite_other ho.alive hc]
        exact ⟨_, rfl⟩
  | read =>
    change ∃ w', BaseSocket.handleReadEvent E p.obj w = .ok ⟨⟩ w'
    by_cases hacc : (w.objs p.obj).accepting = true
    · rw [handleReadEvent_accepting hacc]
      by_cases hc : (w.objs p.obj).cls = .tcpServerImpl
      · rcases handleAccept_cases E ho.alive hc ho.map hopen with ⟨-, h⟩ | ⟨-, h⟩ | ⟨f, w', -, -, h, -⟩
        · exact ⟨_, h⟩
        · exact ⟨_, h⟩
        · exact ⟨_, h⟩
      · exact ⟨_, handleAccept_other ho.alive hc⟩
    · have hacc' : (w.objs p.obj).accepting = false := by simpa using hacc
      rw [handleReadEvent_reading hacc' hcon]
      apply handleRead_returns ho
      intro hc bs hd
      by_contra hne
      exact hno ⟨rfl, hc, hacc', bs, hne, hd⟩

/-- **A send that is refused for good**: the event goes on with the handler that it has destroyed, or the
process is ended by `SIGPIPE`. -/
theorem event_refused (hS : Server m w) (hA : w.Answers E) (hp : w.look m k = some p)
    (hcon : (w.objs p.obj).connecting = false) {r : SendResult} (hr : Refused E w p.obj bit r) :
    (r = .fatal → ∃ w', BaseSocket.handleEvent E p.obj bit w = .error .destroyed w' ∧ w'.dead p.obj = true) ∧
      (r = .pipe → ∃ w', BaseSocket.handleEvent E p.obj bit w = .error .sigpipe w') := by
  obtain ⟨rfl, hc, hacc, i, hi, hbefore, hri⟩ := hr
  have hrun : BaseSocket.handleEvent E p.obj .write w = BaseSocket.handleWrite E p.obj w :=
    handleWriteEvent_writing hacc hcon
  have hq : ∀ r ∈ (w.objs p.obj).virus.resp, r.Sendable := fun r hr =>
    (hA.wellFormed p.obj r hr).sendable
  -- the first fatal answer decides
  have hfirst : ∀ r', r'.Fatal → FirstFatal E w p.obj r' → r.Fatal → r' = r := by
    rintro r' hf ⟨j, -, hbefore', hrj⟩ hfr
    rcases Nat.lt_trichotomy i j with hlt | rfl | hgt
    · exact absurd (hri ▸ hfr) (hbefore' i hlt)
    · exact hrj.symm.trans hri
    · exact absurd (hrj ▸ hf) (hbefore j hgt)
  rw [hrun]
  rcases handleWrite_ends (E := E) (hS.owned hp) (hS.descs_open hp) hc hq with ⟨hnone, -⟩ |
    ⟨href, hend⟩ | ⟨href, hend⟩
  · refine ⟨fun h => ?_, fun h => ?_⟩
    · exact absurd (.inl (hri.trans h)) (hnone i hi)
    · exact absurd (.inr (hri.trans h)) (hnone i hi)
  · refine ⟨fun _ => hend, fun h => ?_⟩
    cases (hfirst .fatal (.inl rfl) href (.inr h)).trans h
  · refine ⟨fun h => ?_, fun _ => hend⟩
    cases (hfirst .pipe (.inr rfl) href (.inl h)).trans h

/-! ### Events with bytes -/

/-- **Bytes that come inside a header** are copied behind the header object. -/
theorem readLoop_cut {C : LibC} {virus : VirusHandler} {d : Disk} {stale : Bool} {rest buf : List UInt8}
    (h : virus.req.Pends d stale rest) (h0 : 0 < rest.length) (h8 : rest.length < 8) (hn : buf ≠ []) {fuel : ℕ}
    (hf : 0 < fuel) : VirusHandler.readLoop C fuel virus d buf =
      .error (.outside (8 * rest.length) (min (8 - rest.length) buf.length)) := by
  have hlen : virus.req.hlen = rest.length := h.hlen.trans (min_eq_left h8.le)
  have hwrite := write_cut (E := C) (s := virus.req) (d := d) (by rw [hlen]; exact h0) (by rw [hlen]; exact h8)
    (List.length_pos_iff.2 hn) (le_refl buf.length)
  have hbody := readBody_error (c := ⟨virus, d, buf, buf.length⟩) hwrite
  obtain ⟨n, rfl⟩ := Nat.exists_eq_succ_of_ne_zero hf.ne'
  unfold VirusHandler.readLoop Loop.run
  rw [hbody, hlen]
  rfl

/-- A loop that returns does so with enough iterations. -/
theorem readLoop_returns {C : LibC} {virus : VirusHandler} {d : Disk} {buf : List UInt8} {r : VirusHandler × Disk}
    (h : Loop.Returns (VirusHandler.readBody C) ⟨virus, d, buf, buf.length⟩ r) :
    ∃ n, ∀ fuel, n ≤ fuel → VirusHandler.readLoop C fuel virus d buf = .ok r := by
  obtain ⟨n, hn⟩ := h
  refine ⟨n, fun fuel hle => ?_⟩
  obtain ⟨j, rfl⟩ := Nat.exists_eq_add_of_le hle
  unfold VirusHandler.readLoop
  rw [Loop.run_mono (k := j) hn]
  rfl

/-- **What the server does not survive.** In every state that it reaches, whatever its clients have sent and
in whichever order, there are three ways in which an event of a registered handler stops the process. Its
client stands inside a header and more bytes come: these are copied to eight times their place. A send is
refused for good: the handler is destroyed, and used again. The connection was reset: the system ends the
process. Otherwise the event returns, but for what a constructor writes into a handler that it has let go
(`askPeer`). -/
theorem crashes_iff (hE : E.toLibC.Succeeds) (h : Server.Hears E m heard w) (hp : w.look m k = some p)
    (bit : Bit) :
    (InsideHeader E w p.obj bit (heard p.obj) → ∀ fuel, 0 < fuel → ∃ w',
      BaseSocket.handleEvent (E.withFuel fuel) p.obj bit (w.logged (.event p.obj k bit)) =
        .error (.outside (8 * (requests.rest false (heard p.obj)).length)
          (min (8 - (requests.rest false (heard p.obj)).length) (w.gets E p.obj bit).length)) w') ∧
      (Refused E w p.obj bit .fatal → ∃ w',
        BaseSocket.handleEvent E p.obj bit (w.logged (.event p.obj k bit)) = .error .destroyed w' ∧
          w'.dead p.obj = true) ∧
      (Refused E w p.obj bit .pipe → ∃ w',
        BaseSocket.handleEvent E p.obj bit (w.logged (.event p.obj k bit)) = .error .sigpipe w') ∧
      (¬ InsideHeader E w p.obj bit (heard p.obj) → ¬ Refused E w p.obj bit .fatal →
        ¬ Refused E w p.obj bit .pipe → ∃ n, ∀ fuel, n ≤ fuel → ∃ w',
          BaseSocket.handleEvent (E.withFuel fuel) p.obj bit (w.logged (.event p.obj k bit)) = .ok ⟨⟩ w') := by
  have hs := h.sessions hE
  set w₁ := w.logged (.event p.obj k bit) with hw₁
  have hS₁ : Server m w₁ := hs.server.congr rfl rfl rfl rfl rfl
  have hidle : (w₁.objs p.obj).connecting = false := hs.idle k p hp
  -- the bytes that come do not depend on the fuel
  have hloop : GetsBytes E w p.obj bit → ∀ fuel, w.gets E p.obj bit ≠ [] ∧
      (w.gets E p.obj bit).length ≤ 65535 ∧ (w.objs p.obj).cls = .virusHandler ∧
      BaseSocket.handleEvent (E.withFuel fuel) p.obj bit w₁ = w₁.looped p.obj
        (VirusHandler.readLoop E.toLibC fuel (w.objs p.obj).virus w.disk (w.gets E p.obj bit)) :=
    fun hg fuel => event_loop (E := E.withFuel fuel) hS₁ hp hidle hg
  refine ⟨fun ⟨hg, h0, h8⟩ fuel hfuel => ?_, fun hr => ?_, fun hr => ?_, fun hno hfatal hpipe => ?_⟩
  · obtain ⟨hn, -, hc, hrun⟩ := hloop hg fuel
    refine ⟨(w₁.logged (.callback p.obj .read)).received (w.objs p.obj).sock, ?_⟩
    rw [hrun, readLoop_cut (hs.pends k p hp hc) h0 h8 hn hfuel]
    rfl
  · exact (event_refused (w := w₁) hS₁ hs.answers hp hidle hr).1 rfl
  · exact (event_refused (w := w₁) hS₁ hs.answers hp hidle hr).2 rfl
  · by_cases hg : GetsBytes E w p.obj bit
    · obtain ⟨hn, hlen, hc, -⟩ := hloop hg 0
      have hk : requests.rest false (heard p.obj) = [] ∨ 8 ≤ (requests.rest false (heard p.obj)).length := by
        rcases Nat.eq_zero_or_pos (requests.rest false (heard p.obj)).length with h0 | h0
        · exact .inl (List.eq_nil_of_length_eq_zero h0)
        · right
          by_contra h8
          exact hno ⟨hg, h0, not_le.1 h8⟩
      obtain ⟨virus, d, hret, -⟩ := readLoop_scans hE (ScanRules.trivial E.toLibC False) [] (hs.pends k p hp hc)
        hk hn (by omega) (fun hf => hf.elim) trivial
      obtain ⟨n, hret⟩ := readLoop_returns hret
      refine ⟨n, fun fuel hle => ⟨(w₁.logged (.callback p.obj .read)).readBy p.obj virus d, ?_⟩⟩
      rw [(hloop hg fuel).2.2.2, hret fuel hle]
      rfl
    · exact ⟨0, fun fuel _ => event_returns (E := E.withFuel fuel) hS₁ hs.answers hp hidle hg hfatal hpipe⟩

/-- A client that has sent nothing yet: what comes from it first is read. -/
theorem crashes_iff_first : ∃ n, ∀ fuel, n ≤ fuel → ∃ w',
    BaseSocket.handleEvent ((Env.oneClient smallRequest).withFuel fuel) 1 .read
      ((World.accepted smallRequest).logged (.event 1 5 .read)) = .ok ⟨⟩ w' := by
  obtain ⟨heard, haccept, hnil⟩ := accepted_hears smallRequest (by decide +kernel) (by decide +kernel)
  refine (crashes_iff (p := ⟨1, 1⟩) LibC.steady_succeeds haccept (by decide +kernel) .read).2.2.2 ?_
    (fun h => by cases h.1) fun h => by cases h.1
  rintro ⟨-, h0, -⟩
  rw [hnil, Scanner.rest_none (requests.next_nil _)] at h0
  cases h0

end DocFerry
