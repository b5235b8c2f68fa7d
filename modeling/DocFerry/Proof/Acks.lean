import DocFerry.Proof.Sessions
import DocFerry.Proof.Stores

/-!
# What clients are told, whatever the library does

Here `calloc`, `malloc`, `fopen`, `fseek` and `fwrite` may fail, or take less than they are given, at any
time. What the server understands then depends on it, but not the form of what it sends.

* `Told`: the bytes that are sent to a client answer headers that it has sent.
* `Told.write`, `Told.answer`: a call of `write` reads bytes on, and an answer takes up the header.
* `Acks`: what holds between two events. `Acks.unheard` and `Acks.reads` are its steps.
* `answers_framed`: every client is sent whole answers, each to eight bytes of its own that were taken
  for a header, and to none of them twice.
-/

namespace DocFerry

open Bytes Prog

/-- `sent` answers headers that were read from `bs`, and the header that `s` has begun lies behind them. -/
def Told (E : LibC) (bs : List UInt8) (s : HV) (sent : List UInt8) : Prop :=
  ∃ (pre : List UInt8) (hs : List Header) (as : List Ack), ReadHeaders pre hs ∧ pre ++ s.headBytes E <+: bs ∧
    sent = wires (as.map (Ack.frame E.host)) ∧ (as.map Ack.id).Sublist (hs.map Header.id) ∧
      ∀ a ∈ as, a.state = .ok ∨ a.state = .internalError

/-- What the handler has queued are replies, filled or not. -/
def VirusHandler.Replies (E : LibC) (h : VirusHandler) : Prop :=
  ∀ r ∈ h.resp, ∃ id state filled, r = HV.replyTo E id state filled

def World.Replies (E : Env) (w : World) : Prop := ∀ i, (w.objs i).virus.Replies E.toLibC

/-- A client that has sent `bs`: it was sent whole answers, whole answers wait in its queue `resp`, and each
is to eight bytes of `bs` that were taken for a header, in their order and none twice. -/
def Acknowledged (host : Endian) (out : List UInt8) (resp : List HV) (bs : List UInt8) : Prop :=
  ∃ (told queued : List Ack) (hs : List Header), out = wires (told.map (Ack.frame host)) ∧
    (resp.flatMap (HV.blocks host)).flatten = wires (queued.map (Ack.frame host)) ∧
    ReadHeaders bs hs ∧ ((told ++ queued).map Ack.id).Sublist (hs.map Header.id) ∧
    ∀ a ∈ told ++ queued, a.state = .ok ∨ a.state = .internalError

/-- What holds between two events. -/
structure Acks (E : Env) (m : ℕ) (heard : ℕ → List UInt8) (w : World) : Prop where
  server : Server m w
  replies : w.Replies E
  idle : ∀ k p, w.look m k = some p → (w.objs p.obj).connecting = false
  unmade : ∀ i, w.nobj ≤ i → heard i = []
  reached : ∀ k p, w.look m k = some p → (w.objs p.obj).virus.req.Reached
  told : ∀ k p, w.look m k = some p → (w.objs p.obj).cls = .virusHandler →
    Told E.toLibC (heard p.obj) (w.objs p.obj).virus.req (w.owed E.host k (w.objs p.obj))

variable {E : LibC} {s s' : HV} {d d' : Disk} {bs cs data sent buf : List UInt8} {ret : ℤ} {n : ℕ}
  {state : State} {id : UInt32}

/-! ### One request -/

theorem Told.mono (h : Told E bs s sent) (hle : bs <+: cs) : Told E cs s sent := by
  obtain ⟨pre, hs, as, hpre, hhead, hrest⟩ := h
  exact ⟨pre, hs, as, hpre, hhead.trans hle, hrest⟩

/-- Nothing was sent to a new client. -/
theorem Told.new (st : StorageTo) (head : Header) : Told E bs (.new st head) [] :=
  ⟨[], [], [], .nil _, List.nil_prefix, rfl, List.Sublist.refl _, fun a ha => by cases ha⟩

/-- The value part counts no header bytes. -/
theorem writeValue_hlen (hw : s.writeValue E d (some data) n = .ok (ret, s', d')) : s'.hlen = s.hlen := by
  rcases Nat.eq_zero_or_pos n with rfl | hn
  · rw [Nat.cast_zero, writeValue_nothing] at hw
    cases hw
    rfl
  cases hh : s.headComplete with
  | false =>
    have hpos : ¬ ((n : ℤ) ≤ 0) := by omega
    simp only [HV.writeValue, if_neg hpos, hh, if_true] at hw
    cases hw
    rfl
  | true =>
    cases hv : s.value with
    | some c =>
      rw [writeValue_cached hh hv hn] at hw
      cases hw
      rfl
    | none =>
      rw [writeValue_missing hh hv hn] at hw
      cases hc : createCache E d none s.header.length.toNat .file with
      | error f =>
        rw [hc] at hw
        cases hw
      | ok r =>
        obtain ⟨value, d₁⟩ := r
        rw [hc] at hw
        cases value with
        | none =>
          cases hw
          rfl
        | some c =>
          dsimp only at hw
          rw [writeValue_cached (s := { s with value := some c }) hh rfl hn] at hw
          cases hw
          rfl

/-- **A call that fails** has its header. -/
theorem write_failed_hlen (hf : s.Fits) (h1 : 0 < n) (hn : n ≤ data.length)
    (hw : s.write E d (some data) n = .ok (-1, s', d')) : s'.hlen = 8 := by
  have hle := hf.hlen
  -- the value part has failed, behind a whole header
  have hvalue : ∀ (off : ℕ) (s₁ : HV), s₁.hlen = 8 → off ≤ n →
      addOffset off (s₁.writeValue E d (some (data.drop off)) ((n : ℤ) - off)) = .ok (-1, s', d') →
        s'.hlen = 8 := by
    intro off s₁ h8 hoff hrun
    have hcast : (n : ℤ) - off = ((n - off : ℕ) : ℤ) := by omega
    rw [hcast] at hrun
    cases hv : s₁.writeValue E d (some (data.drop off)) ((n - off : ℕ) : ℤ) with
    | error f =>
      rw [hv] at hrun
      cases hrun
    | ok r =>
      obtain ⟨ret, s₂, d₂⟩ := r
      have hlen := writeValue_hlen hv
      rw [hv] at hrun
      unfold addOffset at hrun
      dsimp only at hrun
      split at hrun
      all_goals
        have hs : s₂ = s' := congrArg (fun r => r.2.1) (Except.ok.inj hrun)
        rw [← hs]
        exact hlen.trans h8
  rcases Nat.eq_zero_or_pos s.hlen with h0 | hpos
  · rcases Nat.lt_or_ge n 8 with h8 | h8
    · rw [write_short h0 h1 h8 hn] at hw
      have hret := congrArg Prod.fst (Except.ok.inj hw)
      dsimp only at hret
      omega
    · rw [write_head h0 (hf.not_head h0) h8 hn] at hw
      refine hvalue 8 (s.headed (headOf (data.take 8))) rfl h8 ?_
      have hcast : ((n - 8 : ℕ) : ℤ) = (n : ℤ) - (8 : ℕ) := by omega
      rw [← hw, ← hcast]
  · rcases Nat.lt_or_ge s.hlen 8 with h8 | h8
    · rw [write_cut hpos h8 h1 hn] at hw
      cases hw
    · have h8 : s.hlen = 8 := by omega
      rw [write_body h8] at hw
      refine hvalue 0 s h8 (Nat.zero_le n) ?_
      simpa using hw

/-- A whole header is read as it was sent. -/
theorem headOf_headBytes (hf : s.Fits) (h8 : s.hlen = 8) :
    (s.headBytes E).length = 8 ∧ headOf (s.headBytes E) = s.header := by
  have hbytes : s.headBytes E = s.header.bytes .big := by
    unfold HV.headBytes
    rw [hf.head_of_whole h8, h8, if_pos rfl]
    exact List.take_of_length_le (Header.length_bytes _ _).le
  have hid : (s.header.bytes .big).take 4 = storeWord .big s.header.id :=
    List.take_left' (length_storeWord _ _)
  have hlen : (s.header.bytes .big).drop 4 = storeWord .big s.header.length :=
    List.drop_left' (length_storeWord _ _)
  refine ⟨hbytes ▸ Header.length_bytes _ _, ?_⟩
  rw [hbytes, headOf, hid, hlen, List.take_of_length_le (length_storeWord _ _).le, loadWord_storeWord,
    loadWord_storeWord]

/-- **A call of `write`** reads bytes on. -/
theorem Told.write (h : Told E bs s sent) (hreach : s.Reached) (h1 : 0 < n) (hn : n ≤ data.length)
    (hi : n < 2 ^ 31) (hw : s.write E d (some data) n = .ok (ret, s', d')) :
    ∃ k ≤ n, (ret = -1 ∨ ret = k) ∧ Told E (bs ++ data.take k) s' sent := by
  have hf := hreach.fits
  have hcut : ¬ (0 < s.hlen ∧ s.hlen < 8) := by
    rintro ⟨hpos, hlt⟩
    rw [write_cut hpos hlt h1 hn] at hw
    cases hw
  have hnull : ¬ s.NullCache E d n := by
    intro hnull
    rw [write_null hf h1 hn hcut hnull] at hw
    cases hw
  obtain ⟨k, hk, ret', s'', d'', hrun, hret, ⟨head, value, hsplit, hhead, -⟩, -⟩ :=
    write_stores hf h1 hn hi hcut hnull
  rw [hw] at hrun
  obtain ⟨rfl, rfl, rfl⟩ := hrun
  refine ⟨k, hk, hret, ?_⟩
  obtain ⟨pre, hs, as, hpre, hbytes, hrest⟩ := h
  rcases Nat.eq_zero_or_pos s.hlen with h0 | hpos
  · -- the next header begins where the bytes begin
    refine ⟨bs, hs, as, hpre.mono ((List.prefix_append pre _).trans hbytes), ?_, hrest⟩
    rw [hhead, headBytes_begin h0, List.nil_append, hsplit, ← List.append_assoc]
    exact List.prefix_append _ _
  · -- the header is there, and no byte goes to it
    have hle := hf.hlen
    have hlen := congrArg List.length hhead
    have hs' : (s'.headBytes E).length ≤ 8 := by
      unfold HV.headBytes
      rw [List.length_take, Header.length_bytes]
      exact min_le_right _ _
    rw [List.length_append, (headOf_headBytes hf (by omega)).1] at hlen
    have hnil : head = [] := List.eq_nil_of_length_eq_zero (by omega)
    refine ⟨pre, hs, as, hpre, ?_, hrest⟩
    rw [hhead, hnil, List.append_nil]
    exact hbytes.trans (List.prefix_append _ _)

/-- A reply that is filled is an answer on the wire. -/
theorem replyTo_frame (E : LibC) (id : UInt32) (state : State) :
    ((HV.replyTo E id state true).blocks E.host).flatten = (Ack.frame E.host ⟨id, state⟩).wire := by
  have hlen : (Ack.frame E.host ⟨id, state⟩).len = 4 := by
    unfold Frame.len Ack.frame
    rw [length_storeWord]
    rfl
  rw [replyTo_blocks, Frame.wire, Frame.head, hlen, List.flatten_cons, List.flatten_singleton]
  rfl

/-- **An answer** takes up the header. -/
theorem Told.answer (h : Told E bs s sent) (hf : s.Fits) (h8 : s.hlen = 8)
    (hstate : state = .ok ∨ state = .internalError) (filled : Bool) (d : Disk) :
    Told E bs (s.clear d).1 (sent ++ ((HV.replyTo E s.header.id state filled).blocks E.host).flatten) := by
  obtain ⟨pre, hs, as, hpre, hbytes, rfl, hids, hstates⟩ := h
  obtain ⟨hlen, hhead⟩ := headOf_headBytes (E := E) hf h8
  have hread : ReadHeaders bs (hs ++ [s.header]) := hhead ▸ hpre.snoc hlen hbytes
  have hbegin : bs ++ (s.clear d).1.headBytes E <+: bs := by
    rw [headBytes_begin (clear_begins s d).1, List.append_nil]
  cases filled with
  | false =>
    -- there was no memory for the answer
    refine ⟨bs, hs ++ [s.header], as, hread, hbegin, ?_, ?_, hstates⟩
    · exact List.append_nil _
    · rw [List.map_append]
      exact hids.trans (List.sublist_append_left _ _)
  | true =>
    refine ⟨bs, hs ++ [s.header], as ++ [⟨s.header.id, state⟩], hread, hbegin, ?_, ?_, fun a ha => ?_⟩
    · rw [replyTo_frame, List.map_append, wires_append]
      simp
    · rw [List.map_append, List.map_append]
      exact hids.append (List.Sublist.refl _)
    · rcases List.mem_append.1 ha with ha | ha
      · exact hstates a ha
      · rw [List.mem_singleton.1 ha]
        exact hstate

/-! ### The loop of `handle_read` -/

variable {h h₀ h' : VirusHandler} {out : List UInt8} {c c' : ReadState}

/-- What the handler sends when it has sent `out`, and then its queue. -/
def VirusHandler.sends (E : LibC) (out : List UInt8) (h : VirusHandler) : List UInt8 :=
  out ++ (h.resp.flatMap (HV.blocks E.host)).flatten

/-- A response that is queued behind the others. -/
theorem response_told (hr : h₀.response E (s.clear d).2 state = .ok (h', d')) (hreq : h₀.req = (s.clear d).1)
    (hresp : h₀.resp = h.resp) (htold : Told E bs s (h.sends E out)) (hrep : h.Replies E) (hf : s.Fits)
    (h8 : s.hlen = 8) (hstate : state = .ok ∨ state = .internalError) :
    Told E bs h'.req (h'.sends E out) ∧ h'.Replies E := by
  obtain ⟨filled, hqueue, -⟩ := response_queues hr
  obtain ⟨hreq', -⟩ := response_streams hr
  rw [hreq, (clear_keeps s d).1, hresp] at hqueue
  constructor
  · have hanswer := htold.answer hf h8 hstate filled d
    rw [hreq', hreq]
    unfold VirusHandler.sends at hanswer ⊢
    rw [hqueue, List.flatMap_append, List.flatten_append, ← List.append_assoc, List.flatMap_singleton]
    exact hanswer
  · intro r hin
    rw [hqueue] at hin
    rcases List.mem_append.1 hin with hin | hin
    · exact hrep r hin
    · exact ⟨s.header.id, state, filled, List.mem_singleton.1 hin⟩

theorem VirusHandler.Handled.told (hh : h.Handled E s d h' d') (htold : Told E bs s (h.sends E out))
    (hrep : h.Replies E) (hf : s.Fits) : Told E bs h'.req (h'.sends E out) ∧ h'.Replies E := by
  cases hh with
  | pending _ => exact ⟨htold, hrep⟩
  | complete hs hr =>
    have hhead : s.headComplete = true := by
      unfold HV.isComplete at hs
      exact (Bool.and_eq_true_iff.1 hs).1
    have h8 : s.hlen = 8 := by
      rw [hf.head] at hhead
      exact of_decide_eq_true hhead
    exact response_told hr rfl rfl htold hrep hf h8 (.inl rfl)

/-- The loop stands inside `buf`, and what it has taken so far is told. -/
structure ReadState.Tells (E : LibC) (bs out buf : List UInt8) (c : ReadState) : Prop where
  inside : c.Inside buf
  told : ∀ k, c.p_buf = buf.drop k → k ≤ buf.length → Told E (bs ++ buf.take k) c.self.req (c.self.sends E out)
  replies : c.self.Replies E

/-- **A call in the loop.** -/
theorem ReadState.Tells.write (h : c.Tells E bs out buf) (hi : buf.length < 2 ^ 31)
    (hw : c.self.req.write E c.disk (some c.p_buf) c.nread = .ok (ret, s, d)) :
    s.Reached ∧ ∃ k ≤ buf.length, c.p_buf = buf.drop k ∧ ∃ j ≤ buf.length - k, (ret = -1 ∨ ret = j) ∧
      Told E (bs ++ buf.take (k + j)) s (c.self.sends E out) := by
  obtain ⟨n, hn, h1, hlen, hle⟩ := h.inside.exists_nat
  obtain ⟨k, hk, hp, hnread⟩ := h.inside.within
  have hreach : s.Reached := h.inside.reached.write ⟨some c.p_buf, c.nread, by simp; omega, by omega⟩ hw
  rw [hn] at hw
  obtain ⟨j, hj, hret, htold⟩ := (h.told k hp hk).write h.inside.reached h1 hlen.le (by omega) hw
  refine ⟨hreach, k, hk, hp, j, by omega, hret, ?_⟩
  rw [List.take_add, ← List.append_assoc, ← hp]
  exact htold

/-- **An iteration** that goes on. -/
theorem ReadState.Tells.again (h : c.Tells E bs out buf) (hi : buf.length < 2 ^ 31)
    (hb : VirusHandler.readBody E c = .again c') : c'.Tells E bs out buf := by
  have hinside := readBody_inside hi h.inside hb
  have hit := readBody_iterated E c
  rw [hb] at hit
  cases hit with
  | @again wlen s d d' h' hw hne hh h0 =>
    obtain ⟨hreach, k, hk, hp, j, hj, hret, htold⟩ := h.write hi hw
    obtain rfl : wlen = j := hret.resolve_left hne
    obtain ⟨htold', hrep⟩ := hh.told htold h.replies hreach.fits
    refine ⟨hinside, fun k' hk' hle => ?_, hrep⟩
    have hlen := congrArg List.length hk'
    dsimp only at hlen
    rw [hp, List.drop_drop, List.length_drop, List.length_drop, Int.toNat_natCast] at hlen
    obtain rfl : k' = k + j := by omega
    exact htold'

/-- **An iteration** that ends the loop. -/
theorem ReadState.Tells.done (h : c.Tells E bs out buf) (hi : buf.length < 2 ^ 31)
    (hb : VirusHandler.readBody E c = .done (h', d')) :
    Told E (bs ++ buf) h'.req (h'.sends E out) ∧ h'.Replies E ∧ h'.req.Reached := by
  have hall : ∀ k, bs ++ buf.take k <+: bs ++ buf := fun k =>
    (List.prefix_append_right_inj bs).2 (List.take_prefix k buf)
  have hit := readBody_iterated E c
  rw [hb] at hit
  cases hit with
  | failed hw hr =>
    obtain ⟨hreach, k, hk, hp, j, hj, -, htold⟩ := h.write hi hw
    obtain ⟨n, hn, h1, hlen, hle⟩ := h.inside.exists_nat
    rw [hn] at hw
    have h8 := write_failed_hlen h.inside.reached.fits h1 hlen.le hw
    obtain ⟨htold', hrep⟩ := response_told hr rfl rfl htold h.replies hreach.fits h8 (.inr rfl)
    obtain ⟨hreq, -⟩ := response_streams hr
    exact ⟨htold'.mono (hall _), hrep, by rw [hreq]; exact hreach.clear _⟩
  | done hw hne hh h0 =>
    obtain ⟨hreach, k, hk, hp, j, hj, -, htold⟩ := h.write hi hw
    obtain ⟨htold', hrep⟩ := hh.told htold h.replies hreach.fits
    exact ⟨htold'.mono (hall _), hrep, hh.reached hreach⟩

/-- **The loop of `handle_read`** tells what it has read. -/
theorem readLoop_told (htold : Told E bs h.req (h.sends E out)) (hrep : h.Replies E) (hreach : h.req.Reached)
    (hn : buf ≠ []) (hi : buf.length < 2 ^ 31)
    (hret : Loop.Returns (VirusHandler.readBody E) ⟨h, d, buf, buf.length⟩ (h', d')) :
    Told E (bs ++ buf) h'.req (h'.sends E out) ∧ h'.Replies E ∧ h'.req.Reached := by
  obtain ⟨fuel, hrun⟩ := hret
  have hstart : ReadState.Tells E bs out buf ⟨h, d, buf, buf.length⟩ := by
    refine ⟨⟨⟨0, Nat.zero_le _, rfl, by simp⟩, ?_, hreach⟩, fun k hk hle => ?_, hrep⟩
    · change (0 : ℤ) < (buf.length : ℤ)
      exact_mod_cast List.length_pos_iff.2 hn
    · have hlen := congrArg List.length hk
      dsimp only at hlen
      rw [List.length_drop] at hlen
      obtain rfl : k = 0 := by omega
      rw [List.take_zero, List.append_nil]
      exact htold
  exact Loop.run_ok_inv (P := ReadState.Tells E bs out buf)
    (Q := fun r => Told E (bs ++ buf) r.1.req (r.1.sends E out) ∧ r.1.Replies E ∧ r.1.req.Reached)
    (fun c c' hc hb => hc.again hi hb) (fun c r hc hb => hc.done hi hb) hstart hrun

/-! ### The server -/

section Server

variable {E : Env} {m : ℕ} {heard heard' : ℕ → List UInt8} {w w' : World} {k : ℤ} {p : SharedPtr}

theorem World.Replies.plain (h : w.Replies E) : w.Plain := by
  intro i r hr
  obtain ⟨id, state, filled, rfl⟩ := h i r hr
  refine ⟨replyTo_sendable _ _ _ _, fun c hc => ?_⟩
  cases filled with
  | true =>
    cases hc
    rfl
  | false => cases hc

/-- **A step that touches no session.** -/
theorem Acks.unheard (h : Acks E m heard w) (hsend : E.SendsWhole) (hu : Unheard E m w w') :
    Acks E m heard w' := by
  refine ⟨hu.server, hu.queued h.replies, hu.idle h.server h.idle,
    fun i hi => h.unmade i (hu.still.nobj.trans hi), fun k p hp => ?_, fun k p hp hc => ?_⟩
  · rcases hu.registered k p hp with ⟨hold, -⟩ | ⟨hnew, -⟩
    · rw [(hu.rests h.server hold).req]
      exact h.reached k p hold
    · obtain ⟨storage, head, hreq⟩ := (hu.fresh hp hnew).req
      rw [hreq]
      exact .new storage head
  · rcases hu.registered k p hp with ⟨hold, howed⟩ | ⟨hnew, hout⟩
    · have hr := hu.rests h.server hold
      rw [hr.req, howed hsend]
      exact h.told k p hold (by rwa [← hr.cls])
    · -- a new client was sent nothing
      obtain ⟨storage, head, hreq⟩ := (hu.fresh hp hnew).req
      rw [hreq, World.owed, hout, (hu.fresh hp hnew).resp]
      exact .new storage head

/-- **A client whose bytes are read.** -/
theorem Acks.reads (h : Acks E m heard w) (hp : w.look m k = some p) (hc : (w.objs p.obj).cls = .virusHandler)
    {buf : List UInt8} (hn : buf ≠ []) (hlen : buf.length ≤ 65535) {virus : VirusHandler}
    (hret : Loop.Returns (VirusHandler.readBody E.toLibC)
      ⟨(w.objs p.obj).virus, w.disk, buf, buf.length⟩ (virus, d))
    (hS : Server m (w.readBy p.obj virus d)) :
    Acks E m (Function.update heard p.obj (heard p.obj ++ buf)) (w.readBy p.obj virus d) := by
  have hsends : Told E.toLibC (heard p.obj) (w.objs p.obj).virus.req
      ((w.objs p.obj).virus.sends E.toLibC (w.out k)) := h.told k p hp hc
  obtain ⟨htold, hrep, hreach⟩ := readLoop_told hsends (h.replies p.obj) (h.reached k p hp) hn (by omega) hret
  have hself : ∀ p', w.look m k = some p' → p' = p := fun p' hp' => Option.some.inj (hp'.symm.trans hp)
  have hne : ∀ k' p', k' ≠ k → w.look m k' = some p' → p'.obj ≠ p.obj :=
    fun k' p' hk hp' => h.server.obj_ne hp hp' hk
  have hother : ∀ k' p', k' ≠ k → w.look m k' = some p' →
      (w.readBy p.obj virus d).objs p'.obj = w.objs p'.obj :=
    fun k' p' hk hp' => World.readBy_ne w virus d (hne k' p' hk hp')
  refine ⟨hS, fun i r hr => ?_, fun k' p' hp' => (w.readBy_connecting ..).trans (h.idle k' p' hp'),
    h.server.unmade_update hp h.unmade _, fun k' p' hp' => ?_, fun k' p' hp' hc' => ?_⟩
  · rcases eq_or_ne i p.obj with rfl | hi
    · rw [World.readBy_self] at hr
      exact hrep r hr
    · rw [World.readBy_ne w virus d hi] at hr
      exact h.replies i r hr
  · rcases eq_or_ne k' k with rfl | hk
    · obtain rfl := hself p' hp'
      rw [World.readBy_self]
      exact hreach
    · rw [hother k' p' hk hp']
      exact h.reached k' p' hp'
  · rcases eq_or_ne k' k with rfl | hk
    · obtain rfl := hself p' hp'
      rw [World.readBy_self, Function.update_self]
      exact htold
    · rw [hother k' p' hk hp'] at hc' ⊢
      rw [Function.update_of_ne (hne k' p' hk hp')]
      exact h.told k' p' hp' hc'

theorem Acks.init : Acks E m (fun _ => []) .init := by
  have hlook : ∀ k p, World.init.look m k ≠ some p := by
    intro k p hp
    rw [init_look] at hp
    cases hp
  refine ⟨fun k p hp => absurd hp (hlook k p), fun i r hr => ?_, fun k p hp => absurd hp (hlook k p),
    fun _ _ => rfl, fun k p hp => absurd hp (hlook k p), fun k p hp => absurd hp (hlook k p)⟩
  cases hr

/-- It holds in every run. -/
theorem Server.Hears.acks (h : Server.Hears E m heard w) (hsend : E.SendsWhole) : Acks E m heard w := by
  induction h with
  | init => exact .init
  | @step heard heard' w w' _ hs ih =>
    cases hs.sorted ih.server ih.replies.plain ih.idle with
    | unheard hu => exact ih.unheard hsend hu
    | @reads k p buf virus d log hp hc hn hlen hret hS =>
      have h₁ : Acks E m heard { w with log := log } :=
        ih.unheard hsend (.soft ih.server rfl rfl rfl rfl rfl rfl rfl)
      exact h₁.reads (k := k) hp hc hn hlen hret hS

/-- Replies that wait in a queue are answers on the wire. -/
theorem replies_acks {rs : List HV}
    (hrep : ∀ r ∈ rs, ∃ id state filled, r = HV.replyTo E.toLibC id state filled) :
    ∃ qs : List Ack, (rs.flatMap (HV.blocks E.host)).flatten = wires (qs.map (Ack.frame E.host)) := by
  induction rs with
  | nil => exact ⟨[], rfl⟩
  | cons r rs ih =>
    obtain ⟨qs, hqs⟩ := ih fun r hr => hrep r (List.mem_cons_of_mem _ hr)
    obtain ⟨id, state, filled, rfl⟩ := hrep r List.mem_cons_self
    rw [List.flatMap_cons, List.flatten_append, hqs]
    cases filled with
    | true => exact ⟨⟨id, state⟩ :: qs, by rw [replyTo_frame, List.map_cons, wires_cons]⟩
    | false => exact ⟨qs, List.nil_append _⟩

/-- Who is told no more than it has asked for gets at most three bytes for two. -/
theorem Acknowledged.length_le {host : Endian} {out bs : List UInt8} {resp : List HV}
    (h : Acknowledged host out resp bs) : 2 * out.length ≤ 3 * bs.length := by
  obtain ⟨told, queued, hs, rfl, -, hread, hids, -⟩ := h
  have hlen := hids.length_le
  have hle := hread.length_le
  rw [List.length_map, List.length_map, List.length_append] at hlen
  rw [Ack.length_wires]
  omega

/-- **What a client is told, whatever the library does.** In every run in which sends are taken whole or fail,
and the library may fail at any time: a client that is registered was sent whole answers only, and whole
answers wait for it. Each is to eight of its own bytes, which were taken for a header whatever they were to
the client, in their order and no byte twice, and says `OK` or `INTERNAL_ERROR`; so no client is sent more
than three bytes for two of its own. -/
theorem answers_framed (hsend : E.SendsWhole) (h : Server.Hears E m heard w) (hp : w.look m k = some p)
    (hc : (w.objs p.obj).cls = .virusHandler) :
    Acknowledged E.host (w.out k) (w.objs p.obj).virus.resp (heard p.obj) ∧
      2 * (w.out k).length ≤ 3 * (heard p.obj).length := by
  have hacks := h.acks hsend
  obtain ⟨pre, hs, as, hpre, hbytes, hsent, hids, hstates⟩ := hacks.told k p hp hc
  obtain ⟨qs, hqs⟩ := replies_acks (hacks.replies p.obj)
  rw [World.owed, hqs] at hsent
  obtain ⟨told, queued, rfl, hout, hqueue⟩ := Ack.wires_split hsent
  have hread := hpre.mono ((List.prefix_append pre _).trans hbytes)
  have hframed : Acknowledged E.host (w.out k) (w.objs p.obj).virus.resp (heard p.obj) :=
    ⟨told, queued, hs, hout, hqs.trans hqueue, hread, hids, hstates⟩
  exact ⟨hframed, hframed.length_le⟩

/-- A system with one client that sends a small request, and where no file can be made. -/
def Env.starved : Env := { Env.oneClient smallRequest with fopen := fun _ => false }

/-- The process after the client was taken in and its request was read. -/
def World.starved : World := final (doSelect .starved 0 (final (doSelect .starved 0 (World.opened .starved 0))))

/-- The client waits to be told that its request has failed. -/
theorem answers_framed_starved :
    ((World.starved.objs 1).virus.resp.flatMap (HV.blocks .little)).flatten =
        (Ack.frame .little ⟨1, .internalError⟩).wire ∧
      ∃ heard : ℕ → List UInt8,
        Acknowledged Env.starved.host (World.starved.out 5) (World.starved.objs 1).virus.resp (heard 1) := by
  have hreach : Server.Reach .starved 0 .starved :=
    (opened_reach.round (by decide +kernel)).round (by decide +kernel)
  obtain ⟨heard, h⟩ := (hreach.moments (C := fun _ _ _ => True) fun _ _ _ => trivial).hears
  have hp : World.starved.look 0 5 = some ⟨1, 1⟩ := by decide +kernel
  have hc : (World.starved.objs 1).cls = .virusHandler := by decide +kernel
  have hsend : Env.starved.SendsWhole := fun _ => .inl rfl
  refine ⟨by decide +kernel, heard, ?_⟩
  -- what is known of the process is enough
  generalize World.starved = w at h hp hc ⊢
  exact (answers_framed hsend h hp hc).1

end Server

end DocFerry
