import DocFerry.Lib.Cut
import DocFerry.Proof.Local
import DocFerry.Proof.Memory

/-!
# `handle_write` as a row of sends

`handleWrite_sent`: of what it does, its connection sees one row of sends, the blocks of
the queued responses in the order of the queue. That blocks come out of caches and that the answers of
the system are ignored is no longer to be seen in it.

`Sent E this bs w r`: the result `r`, reached from `w`, is one of sending `bs`. Where it is a fault, the
handler was closed and destroyed by a send, and `handle_write` has gone on with it, or the process was ended
by the system.
-/

namespace DocFerry

open Prog

/-- A response that `handle_write` can send: its value, if there was memory for one, is in
memory. -/
def HV.Sendable (r : HV) : Prop := ∀ c, r.value = some c → c.InMemory

/-- The blocks that `handle_write` sends for a response. -/
def HV.blocks (host : Bytes.Endian) (r : HV) : List (List UInt8) :=
  match r.value with
  | none => []
  | some c => r.header.bytes host :: blocksOf 4096 c.rest

/-- Does the result `r` leave the connection of `this` on `fd` as `l`? -/
def Ending {α : Type} (this : ℕ) (fd : ℤ) (l : Line) : EStateM.Result Fault World α → Prop
  | .ok _ w => w.line this fd = l
  | .error .destroyed w => w.dead this = true ∧ w.line this fd = l
  | .error .sigpipe w => l = { w.line this fd with status := .reset }
  | .error _ _ => False

/-- The result `r` is one of sending `bs` from `w`. -/
structure Sent {α : Type} (E : Env) (this : ℕ) (bs : List (List UInt8)) (w : World)
    (r : EStateM.Result Fault World α) : Prop where
  line : Ending this (w.objs this).sock ((w.line this (w.objs this).sock).sendAll E bs) r
  sock : ((final r).objs this).sock = (w.objs this).sock
  map : ((final r).objs this).p_handlers = (w.objs this).p_handlers
  virus : ((final r).objs this).virus = (w.objs this).virus

variable {E : Env} {w w' : World} {this m : ℕ} {sock : ℤ} {buf : List UInt8} {c : Cache}
  {bs bs' : List (List UInt8)} {α β : Type} {l : Line}

/-! ### Endings -/

theorem line_closed_of_dead (h : w.dead this = true) (fd : ℤ) : (w.line this fd).status = .closed := by
  unfold World.line
  rw [if_neg (fun hopen => by rw [h] at hopen; cases hopen.1)]

theorem line_open_iff {fd : ℤ} :
    (w.line this fd).status = .open ↔ w.dead this = false ∧ w.descs fd ≠ none := by
  unfold World.line
  by_cases h : w.dead this = false ∧ w.descs fd ≠ none
  · rw [if_pos h]
    exact iff_of_true rfl h
  · rw [if_neg h]
    exact iff_of_false (by simp) h

/-- What a result leaves of the connection. -/
theorem Ending.final {fd : ℤ} {r : EStateM.Result Fault World α} (h : Ending this fd l r) :
    (final r).nsend = l.next ∧ (final r).out fd = l.out := by
  cases r with
  | ok a w => subst h; exact ⟨rfl, rfl⟩
  | error f w =>
    cases f with
    | destroyed => obtain ⟨-, rfl⟩ := h; exact ⟨rfl, rfl⟩
    | sigpipe => cases h; exact ⟨rfl, rfl⟩
    | nullDeref => cases h
    | outside off len => cases h
    | fdSet sock => cases h
    | outOfFuel => cases h

/-- After a fault the connection is not open. -/
theorem Ending.status_error {fd : ℤ} {f : Fault}
    (h : Ending this fd l (.error f w : EStateM.Result Fault World α)) : l.status ≠ .open := by
  cases f with
  | destroyed =>
    obtain ⟨hd, rfl⟩ := h
    rw [line_closed_of_dead hd]
    exact LineStatus.noConfusion
  | sigpipe =>
    obtain rfl := h
    exact LineStatus.noConfusion
  | nullDeref => cases h
  | outside off len => cases h
  | fdSet sock => cases h
  | outOfFuel => cases h

/-- A fault is the end of the connection, and nothing is sent behind it. -/
theorem Ending.error {fd : ℤ} {f : Fault} (h : Ending this fd l (.error f w : EStateM.Result Fault World α))
    (bs : List (List UInt8)) :
    Ending this fd (l.sendAll E bs) (.error f w : EStateM.Result Fault World β) := by
  rw [Line.sendAll_gone bs h.status_error]
  cases f with
  | destroyed => exact h
  | sigpipe => exact h
  | nullDeref => exact h
  | outside off len => exact h
  | fdSet sock => exact h
  | outOfFuel => exact h

/-! ### One send -/

theorem Sent.ok (a : α) : Sent E this [] w (.ok a w) := ⟨rfl, rfl, rfl, rfl⟩

/-- **One row of sends and then another.** -/
theorem Sent.bind {x : Proc α} {f : α → Proc β} (hx : Sent E this bs w (x w))
    (hf : ∀ a w', x w = .ok a w' → Sent E this bs' w' (f a w')) :
    Sent E this (bs ++ bs') w ((x >>= f) w) := by
  cases hrun : x w with
  | ok a w' =>
    have h := hf a w' hrun
    rw [hrun] at hx
    rw [bind_of_ok hrun]
    have hl := h.line
    have hline : w'.line this (w.objs this).sock = _ := hx.line
    rw [show (w'.objs this).sock = _ from hx.sock, hline, ← Line.sendAll_append] at hl
    exact ⟨hl, h.sock.trans hx.sock, h.map.trans hx.map, h.virus.trans hx.virus⟩
  | error e w' =>
    rw [hrun] at hx
    rw [bind_of_error hrun]
    refine ⟨?_, hx.sock, hx.map, hx.virus⟩
    rw [Line.sendAll_append]
    exact hx.line.error bs'

/-- A look at the handler: it is there, or was closed before. -/
theorem alive_sent : Sent E this [] w (alive this w) := by
  cases h : w.dead this with
  | false =>
    rw [run_alive h]
    exact .ok _
  | true =>
    rw [run_dead h]
    exact ⟨⟨h, rfl⟩, rfl, rfl, rfl⟩

/-- What closing leaves of the connection. -/
theorem handleClosed_line : (w.handleClosed E this m).line this (w.objs this).sock =
    { w.line this (w.objs this).sock with status := .closed } := by
  have hgone : ¬ ((w.handleClosed E this m).dead this = false ∧
      (w.handleClosed E this m).descs (w.objs this).sock ≠ none) := by
    rintro ⟨hd, ho⟩
    set w₁ := w.logged (.callback this .close) with hw₁
    have hs : (w₁.objs this).sock = (w.objs this).sock := rfl
    cases hr : w₁.reaches E this m with
    | true =>
      rw [← hs] at ho
      exact ho (World.closed_descs_self hr)
    | false =>
      -- the descriptor is missed only by a handler that is destroyed
      have hdead : (w₁.closed E this m).dead this = true := (World.reaches_eq_false.1 hr).1
      rw [show (w.handleClosed E this m).dead this = true from hdead] at hd
      cases hd
  unfold World.line
  rw [if_neg hgone]
  rfl

theorem handleClosed_obj (w : World) (E : Env) (this m : ℕ) :
    ((w.handleClosed E this m).objs this).sock = (w.objs this).sock ∧
      ((w.handleClosed E this m).objs this).p_handlers = (w.objs this).p_handlers ∧
        ((w.handleClosed E this m).objs this).virus = (w.objs this).virus := by
  unfold World.handleClosed
  rw [World.closed_objs, World.setObj_same]
  exact ⟨rfl, rfl, rfl⟩

/-- What the system's answer leaves of the connection, if the handler is not closed. -/
theorem sent_line (ho : (w.line this sock).status = .open) :
    (w.sent E sock buf).line this sock =
      ⟨.open, w.nsend + 1, w.out sock ++ (E.send w.nsend).taken buf⟩ := by
  have hopen : (w.sent E sock buf).dead this = false ∧ (w.sent E sock buf).descs sock ≠ none :=
    line_open_iff.1 ho
  unfold World.line
  rw [if_pos hopen]
  simp [World.sent, World.taking, World.logged]

/-- **`BaseSocket::send`** is one send on the connection. -/
theorem send_sent (buf : List UInt8) (h : (w.objs this).p_handlers = some m) (hpos : 0 < buf.length)
    (hi : buf.length < 2 ^ 31) :
    Sent E this [buf] w (BaseSocket.send E this (some buf) buf.length w) := by
  have hl : toInt buf.length = buf.length := toInt_of_lt hi
  have hb : ¬ toInt buf.length < 1 := by omega
  have hall : buf.take (toInt buf.length).toNat = buf := by
    rw [hl, Int.toNat_natCast, List.take_length]
  cases ha : w.dead this with
  | true =>
    -- the handler was destroyed by an earlier send
    have hgone : (w.line this (w.objs this).sock).status ≠ .open := by
      rw [line_closed_of_dead ha]
      decide
    rw [send_dead ha]
    refine ⟨⟨ha, ?_⟩, rfl, rfl, rfl⟩
    rw [Line.sendAll_gone _ hgone]
  | false =>
    by_cases ho : w.descs (w.objs this).sock = none
    · -- the descriptor is gone, the handler is not
      have hgone : (w.line this (w.objs this).sock).status ≠ .open := fun hst =>
        (line_open_iff.1 hst).2 ho
      rw [send_gone ha h hb ho]
      obtain ⟨hs, hm, hv⟩ := handleClosed_obj (w.logged (.send (w.objs this).sock)) E this m
      refine ⟨?_, hs, hm, hv⟩
      rw [Line.sendAll_gone _ hgone]
      refine handleClosed_line.trans ?_
      simp [World.line, World.logged, ho]
    · have hopen : (w.line this (w.objs this).sock).status = .open := line_open_iff.2 ⟨ha, ho⟩
      have hsent : (w.sent E (w.objs this).sock buf).line this (w.objs this).sock =
          ⟨.open, w.nsend + 1, w.out (w.objs this).sock ++ (E.send w.nsend).taken buf⟩ := sent_line hopen
      by_cases hp : E.send w.nsend = .pipe
      · rw [send_pipe buf ha hb ho hp, hall]
        refine ⟨?_, rfl, rfl, rfl⟩
        change (w.line this (w.objs this).sock).send E buf = _
        rw [hsent, Line.send_open hopen]
        simp [World.line, SendResult.status, hp]
      · obtain ⟨ret, hrun⟩ := send_open (E := E) buf ha h hb ho hp
        rw [hall] at hrun
        rw [hrun]
        by_cases hr : E.send w.nsend = .fatal
        · rw [if_pos hr]
          obtain ⟨hs, hm, hv⟩ := handleClosed_obj (w.sent E (w.objs this).sock buf) E this m
          refine ⟨?_, hs, hm, hv⟩
          change _ = (w.line this (w.objs this).sock).send E buf
          refine (handleClosed_line (w := w.sent E (w.objs this).sock buf)).trans ?_
          rw [show ((w.sent E (w.objs this).sock buf).objs this).sock = (w.objs this).sock from rfl, hsent,
            Line.send_open hopen]
          simp [World.line, SendResult.status, hr]
        · rw [if_neg hr]
          refine ⟨?_, rfl, rfl, rfl⟩
          change _ = (w.line this (w.objs this).sock).send E buf
          have hst : (E.send w.nsend).status = .open :=
            SendResult.status_open.2 fun hf => hf.elim hr hp
          rw [hsent, Line.send_open hopen]
          simp [World.line, hst]

/-! ### The blocks of a value -/

/-- **The loop over a value** sends its blocks. -/
theorem sendValue_sent (n : ℕ) (hc : c.InMemory) (hn : c.rest.length < n)
    (h : (w.objs this).p_handlers = some m) :
    Sent E this (blocksOf 4096 c.rest) w (VirusHandler.sendValue E this n c w) := by
  induction n generalizing c w with
  | zero => exact absurd hn (Nat.not_lt_zero _)
  | succ n ih =>
    obtain ⟨c', hpop, hc', hrest, -⟩ := cachePop_mem (E := E.toLibC) hc w.disk 4096
    rw [sendValue_succ, hpop]
    dsimp only
    rcases eq_or_ne c.rest [] with hnil | hne
    · -- nothing is left
      rw [hnil, if_neg (by simp), blocksOf_nil]
      exact ⟨rfl, rfl, rfl, rfl⟩
    · have hpos := List.length_pos_iff.2 hne
      have hlen : (c.rest.take 4096).length = min 4096 c.rest.length := List.length_take
      rw [if_pos (by rw [hlen]; omega), blocksOf_step (by decide) hne]
      have hsend := send_sent (E := E) (w := { w with disk := w.disk }) (c.rest.take 4096) h
        (by omega) (by omega)
      refine Sent.bind hsend fun ret w₁ hrun => ?_
      rw [hrun] at hsend
      have hval := ih (w := w₁) hc' (by rw [hrest, List.length_drop]; omega) (hsend.map.trans h)
      rwa [hrest] at hval

/-! ### The queue -/

/-- **The body of the loop** sends the blocks of the response. -/
theorem sendResp_sent {r : HV} (hr : r.Sendable) (h : (w.objs this).p_handlers = some m) :
    Sent E this (r.blocks E.host) w (VirusHandler.sendResp E this r w) := by
  unfold VirusHandler.sendResp HV.blocks
  cases hv : r.value with
  | none => exact .ok _
  | some c =>
    have hc := hr c hv
    have hlen : (r.header.bytes E.host).length = sizeofHeader := Header.length_bytes _ _
    have hsend := send_sent (E := E) (r.header.bytes E.host) h (by rw [hlen]; decide)
      (by rw [hlen]; decide)
    rw [hlen] at hsend
    have hfuel : c.rest.length < sizeSub c.priv.widx c.priv.ridx + 1 := by
      rw [length_rest hc, sizeSub_of_le hc.ridx hc.small]
      exact Nat.lt_succ_self _
    dsimp only
    change Sent E this ([r.header.bytes E.host] ++ blocksOf 4096 c.rest) w _
    refine Sent.bind hsend fun ret w₁ hrun => ?_
    rw [hrun] at hsend
    have hval := sendValue_sent (E := E) (w := w₁) _ hc hfuel (hsend.map.trans h)
    rw [← List.append_nil (blocksOf 4096 c.rest)]
    -- the cache is let go: only the disk sees it
    exact Sent.bind hval fun c' w₂ _ => ⟨rfl, rfl, rfl, rfl⟩

/-- What `handle_write` makes of a queue: a row of sends, behind which the queue is empty if it returns. -/
structure Written (E : Env) (this : ℕ) (q : List HV) (w : World)
    (r : EStateM.Result Fault World Unit) : Prop where
  line : Ending this (w.objs this).sock
    ((w.line this (w.objs this).sock).sendAll E (q.flatMap (HV.blocks E.host))) r
  sock : ((final r).objs this).sock = (w.objs this).sock
  map : ((final r).objs this).p_handlers = (w.objs this).p_handlers
  cls : ((final r).objs this).cls = (w.objs this).cls
  resp : ∀ a w', r = .ok a w' → (w'.objs this).virus.resp = []
  alive : ∀ a w', r = .ok a w' → w'.dead this = false

/-- **The loop over the queue** sends the blocks of all its responses and empties it. -/
theorem writeLoop_written {q : List HV} (hq : ∀ r ∈ q, r.Sendable)
    (hresp : (w.objs this).virus.resp = q) (h : (w.objs this).p_handlers = some m) :
    Written E this q w (VirusHandler.writeLoop E this q.length w) := by
  induction q generalizing w with
  | nil =>
    have hal : Sent E this [] w (DocFerry.alive this w) := alive_sent
    change Written E this [] w (DocFerry.alive this w)
    cases hd : w.dead this with
    | true =>
      rw [run_dead hd] at hal ⊢
      exact ⟨hal.line, rfl, rfl, rfl, (fun _ _ h => by cases h), fun _ _ h => by cases h⟩
    | false =>
      rw [run_alive hd] at hal ⊢
      exact ⟨hal.line, rfl, rfl, rfl, (fun _ _ h => by cases h; exact hresp), fun _ _ h => by cases h; exact hd⟩
  | cons r q ih =>
    cases hd : w.dead this with
    | true =>
      -- the handler was closed by the response before
      have hrun : VirusHandler.writeLoop E this (r :: q).length w = .error .destroyed w := by
        rw [List.length_cons, VirusHandler.writeLoop]
        exact dead_bind hd
      rw [hrun]
      have hend : Ending this (w.objs this).sock (w.line this (w.objs this).sock)
        (.error .destroyed w : EStateM.Result Fault World Unit) := ⟨hd, rfl⟩
      exact ⟨hend.error _, rfl, rfl, rfl, (fun _ _ h => by cases h), fun _ _ h => by cases h⟩
    | false =>
      -- the response is taken off the queue before it is sent
      set w₁ := w.setObj this fun o => { o with virus := { o.virus with resp := q } } with hw₁
      have hobj₁ : w₁.objs this = { w.objs this with virus := { (w.objs this).virus with resp := q } } :=
        World.setObj_same
      have hm₁ : (w₁.objs this).p_handlers = some m := by rw [hobj₁]; exact h
      have hs₁ : (w₁.objs this).sock = (w.objs this).sock := by rw [hobj₁]
      have hl₁ : w₁.line this (w.objs this).sock = w.line this (w.objs this).sock := rfl
      have hrun : VirusHandler.writeLoop E this (r :: q).length w =
          (VirusHandler.sendResp E this r >>= fun _ => VirusHandler.writeLoop E this q.length) w₁ := by
        rw [List.length_cons, VirusHandler.writeLoop, alive_bind hd, bind_of_ok run_obj, hresp]
        dsimp only
        rw [bind_of_ok run_assign]
      have hbody := sendResp_sent (E := E) (hq r List.mem_cons_self) hm₁
      have hcls : Local E this w₁ (final (VirusHandler.sendResp E this r w₁)) := sendResp_local r w₁
      have hsum : (w.line this (w.objs this).sock).sendAll E ((r :: q).flatMap (HV.blocks E.host)) =
          ((w₁.line this (w₁.objs this).sock).sendAll E (r.blocks E.host)).sendAll E
            (q.flatMap (HV.blocks E.host)) := by
        rw [List.flatMap_cons, Line.sendAll_append, hs₁, hl₁]
      rw [hrun]
      cases hr : VirusHandler.sendResp E this r w₁ with
      | error f w₂ =>
        rw [hr] at hbody hcls
        rw [bind_of_error hr]
        refine ⟨?_, hbody.sock.trans hs₁, hbody.map.trans (hm₁.trans h.symm),
          (hcls.objs this).1.trans (by rw [hobj₁]), (fun _ _ h => by cases h), fun _ _ h => by cases h⟩
        rw [hsum, ← hs₁]
        exact hbody.line.error _
      | ok a w₂ =>
        rw [hr] at hbody hcls
        rw [bind_of_ok hr]
        have hrest := ih (w := w₂) (fun r hr => hq r (List.mem_cons_of_mem _ hr))
          (by rw [show (w₂.objs this).virus = _ from hbody.virus, hobj₁])
          ((show (w₂.objs this).p_handlers = _ from hbody.map).trans hm₁)
        have hline := hrest.line
        have hl₂ : w₂.line this (w₁.objs this).sock = _ := hbody.line
        rw [show (w₂.objs this).sock = _ from hbody.sock, hl₂, ← hsum, hs₁] at hline
        exact ⟨hline, hrest.sock.trans (hbody.sock.trans hs₁),
          hrest.map.trans (hbody.map.trans (hm₁.trans h.symm)),
          hrest.cls.trans ((hcls.objs this).1.trans (by rw [hobj₁])), hrest.resp, hrest.alive⟩

/-- **`handle_write` of a `VirusHandler`** is one row of sends. -/
theorem handleWrite_written (ha : w.dead this = false) (hc : (w.objs this).cls = .virusHandler)
    (h : (w.objs this).p_handlers = some m) (hq : ∀ r ∈ (w.objs this).virus.resp, r.Sendable) :
    Written E this (w.objs this).virus.resp w (BaseSocket.handleWrite E this w) := by
  have hrun : BaseSocket.handleWrite E this w =
      VirusHandler.writeLoop E this (w.objs this).virus.resp.length (w.logged (.callback this .write)) := by
    rw [handleWrite_virus ha hc]
    unfold VirusHandler.handleWrite
    rw [bind_of_ok run_obj]
    rfl
  rw [hrun]
  have hloop := writeLoop_written (E := E) (w := w.logged (.callback this .write)) hq rfl h
  exact ⟨hloop.line, hloop.sock, hloop.map, hloop.cls, hloop.resp, hloop.alive⟩

end DocFerry
