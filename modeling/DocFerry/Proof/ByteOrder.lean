import DocFerry.Proof.Replies

/-!
# The byte order of a response

The id of a request comes in network order and is converted once, the header of the response is
converted back, and its value is not converted at all.

* `request_id`: the id that a request has once its header was read.
* `response_decodes_iff`: the client reads the id, the length and the state that were meant
  exactly when the host is big-endian or the state is `OK`.
-/

namespace DocFerry

open Bytes Prog

/-- What a client of the byte order `client` reads: `ntohl` of the id, the length and the error
code. -/
def clientReads (client : Endian) (bs : List UInt8) : UInt32 × UInt32 × UInt32 :=
  (ntohl client (loadWord client (bs.take 4)), ntohl client (loadWord client ((bs.drop 4).take 4)),
    ntohl client (loadWord client (bs.drop 8)))

/-- The bytes of a header come, perhaps with value bytes behind them; the request is let go, answered
with `state`, and the answer is written, as `handle_read` and `handle_write` do these. -/
def VirusHandler.serve (E : Env) (this : ℕ) (id length : UInt32) (rest : List UInt8) (state : State) :
    Proc Unit := do
  let w ← get
  let h := (w.objs this).virus
  let buf := storeWord .big id ++ storeWord .big length ++ rest
  match h.req.write E.toLibC w.disk (some buf) buf.length with
  | .error f => throw f
  | .ok (_, req, d) =>
    let (req, d) := req.clear d
    match VirusHandler.response E.toLibC { h with req := req } d state with
    | .error f => throw f
    | .ok (virus, d) =>
      set { w.setObj this ({ · with virus := virus }) with disk := d }
      BaseSocket.handleWrite E this

/-- The connection of `this` once the responses that are queued have been written. -/
def World.written (w : World) (E : Env) (this : ℕ) : Line :=
  (w.line this (w.objs this).sock).sendAll E ((w.objs this).virus.resp.flatMap (HV.blocks E.host))

variable {E : Env} {w : World} {this m : ℕ} {id length : UInt32} {rest : List UInt8} {state : State}

/-- The header words at the front of a buffer. -/
theorem headOf_words (id length : UInt32) (rest : List UInt8) :
    headOf ((storeWord .big id ++ storeWord .big length ++ rest).take 8) = ⟨id, length⟩ := by
  have h8 : (storeWord .big id ++ storeWord .big length).length = 8 := by simp
  have h4 : (storeWord .big id).length = 4 := length_storeWord _ _
  have hl4 : (storeWord .big length).length = 4 := length_storeWord _ _
  rw [List.take_left' h8]
  unfold headOf
  rw [List.take_left' h4, List.drop_left' h4, List.take_of_length_le hl4.le, loadWord_storeWord,
    loadWord_storeWord]

/-- **The id of a request** is the number that the wire carries, whatever becomes of its value. -/
theorem request_id {s : HV} {d : Disk} (hE : ∀ i, E.calloc i = true) (hr : HV.Reach E.toLibC s d)
    (h0 : s.hlen = 0) (hi : 8 + rest.length < 2 ^ 31) (id length : UInt32) :
    ∃ ret s' d', s.write E.toLibC d (some (storeWord .big id ++ storeWord .big length ++ rest))
        (storeWord .big id ++ storeWord .big length ++ rest).length = .ok (ret, s', d') ∧
      s'.header = ⟨id, length⟩ := by
  set buf := storeWord .big id ++ storeWord .big length ++ rest with hbuf
  have hlen : buf.length = 8 + rest.length := by simp [hbuf, ← Nat.add_assoc]
  have hhead : headOf (buf.take 8) = ⟨id, length⟩ := headOf_words id length rest
  have hbegun : ∀ {off : ℕ} {s₁ : HV}, Begun s buf buf.length off s₁ → s₁.header = ⟨id, length⟩ := by
    intro off s₁ hb
    cases hb with
    | body h8 => omega
    | head _ _ => exact hhead
  have hw : Wrote E.toLibC s d buf buf.length (s.write E.toLibC d (some buf) buf.length) :=
    write_wrote hr.inv (by omega) le_rfl (by omega)
  generalize s.write E.toLibC d (some buf) buf.length = r at hw
  cases hw with
  | cut h0' _ => omega
  | short _ h8 => omega
  | head _ _ => exact ⟨_, _, _, rfl, hhead⟩
  | crash hc =>
    obtain ⟨i, hi⟩ := hc
    rw [hE i] at hi
    cases hi
  | noCache hb _ _ => exact ⟨_, _, _, rfl, hbegun hb⟩
  | push hb _ _ _ _ _ _ =>
    have hs₁ := hbegun hb
    exact ⟨_, _, _, rfl, hs₁⟩

/-- The two blocks of a filled reply. -/
theorem replyTo_blocks (E : LibC) (id : UInt32) (state : State) :
    (HV.replyTo E id state true).blocks E.host =
      [storeWord .big id ++ storeWord .big 4, storeWord E.host state.code] := by
  have hlen : (storeWord E.host state.code).length = 4 := length_storeWord _ _
  have hne : storeWord E.host state.code ≠ [] := List.length_pos_iff.1 (by omega)
  have hrest : Cache.rest ⟨[], some (storeWord E.host state.code), ⟨4, 4, 0, none, ['.']⟩⟩ =
      storeWord E.host state.code := by
    simp only [Cache.rest, Option.getD_some, List.drop_zero, Nat.sub_zero]
    exact List.take_of_length_le hlen.le
  simp only [HV.blocks, HV.replyTo, if_true, hrest, Header.bytes, storeWord_htonl]
  rw [blocksOf_step (by decide) hne, List.take_of_length_le (by omega),
    List.drop_eq_nil_of_le (by omega), blocksOf_nil]

/-- What the client reads in the twelve bytes of a reply. -/
theorem clientReads_reply (client host : Endian) (id code : UInt32) :
    clientReads client (storeWord .big id ++ storeWord .big 4 ++ storeWord host code) =
      (id, 4, loadWord .big (storeWord host code)) := by
  have h4 : (storeWord .big id).length = 4 := length_storeWord _ _
  have hl4 : (storeWord .big 4).length = 4 := length_storeWord _ _
  have h8 : (storeWord .big id ++ storeWord .big 4).length = 8 := by simp
  unfold clientReads
  rw [List.drop_left' h8, List.append_assoc, List.take_left' h4, List.drop_left' h4, List.take_left' hl4,
    ntohl_loadWord client h4, ntohl_loadWord client hl4, ntohl_loadWord client (length_storeWord _ _),
    loadWord_storeWord, loadWord_storeWord]

/-- A state in host order reads as itself in network order on a big-endian host only, unless it
is `OK`. -/
theorem code_swapped (host : Endian) (state : State) :
    loadWord .big (storeWord host state.code) = state.code ↔ host = .big ∨ state = .ok := by
  cases host with
  | big => exact iff_of_true (loadWord_storeWord _ _) (.inl rfl)
  | little => cases state <;> decide

/-- A handler that is served sends its reply in two blocks, behind what was queued before. -/
theorem serve_sent (hcalloc : ∀ i, E.calloc i = true) (hmalloc : ∀ i, E.malloc i = true)
    (ha : w.dead this = false) (hc : (w.objs this).cls = .virusHandler)
    (hm : (w.objs this).p_handlers = some m) (hq : ∀ r ∈ (w.objs this).virus.resp, r.Sendable)
    (hr : HV.Reach E.toLibC (w.objs this).virus.req w.disk) (h0 : (w.objs this).virus.req.hlen = 0)
    (hi : 8 + rest.length < 2 ^ 31) (id length : UInt32) (state : State) :
    Ending this (w.objs this).sock
      ((w.written E this).sendAll E [storeWord .big id ++ storeWord .big 4, storeWord E.host state.code])
      (VirusHandler.serve E this id length rest state w) := by
  obtain ⟨ret, req, d, hwrite, hhead⟩ := request_id hcalloc hr h0 hi id length
  obtain ⟨hid, -, -⟩ := clear_keeps req d
  have hresp := response_eq hcalloc { (w.objs this).virus with req := (req.clear d).1 } (req.clear d).2 state
  rw [hid, hhead, hmalloc] at hresp
  -- the handler and the world with the reply queued
  set virus : VirusHandler := { (w.objs this).virus with
    req := (req.clear d).1
    resp := (w.objs this).virus.resp ++ [HV.replyTo E.toLibC id state true] } with hvirus
  set w₁ : World := { w.setObj this ({ · with virus := virus }) with disk := (req.clear d).2.replied } with hw₁
  have hobj : w₁.objs this = { w.objs this with virus := virus } := by
    show (w.setObj this ({ · with virus := virus })).objs this = _
    rw [World.setObj_same]
  have hresp₁ : (w₁.objs this).virus.resp =
      (w.objs this).virus.resp ++ [HV.replyTo E.toLibC id state true] := by rw [hobj, hvirus]
  have hw := handleWrite_written (E := E) (w := w₁) ha (by rw [hobj]; exact hc) (by rw [hobj]; exact hm)
    fun r hr => by
      rw [hresp₁, List.mem_append, List.mem_singleton] at hr
      rcases hr with hr | rfl
      · exact hq r hr
      · exact replyTo_sendable _ _ _ _
  have hrun : VirusHandler.serve E this id length rest state w = BaseSocket.handleWrite E this w₁ := by
    unfold VirusHandler.serve
    rw [get_bind]
    simp only [hwrite, hresp]
    rfl
  have hline := hw.line
  rw [hresp₁, List.flatMap_append, List.flatMap_singleton, replyTo_blocks, hobj,
    Line.sendAll_append] at hline
  rw [hrun]
  exact hline

/-- **A response decodes to what was meant** exactly when the host is big-endian or the state is
`OK`: whatever the system makes of the two sends, if they get twelve bytes out. They do, and the call
returns, if both are taken whole on an open connection. -/
theorem response_decodes_iff (hcalloc : ∀ i, E.calloc i = true) (hmalloc : ∀ i, E.malloc i = true)
    (ha : w.dead this = false) (hc : (w.objs this).cls = .virusHandler)
    (hm : (w.objs this).p_handlers = some m) (hq : ∀ r ∈ (w.objs this).virus.resp, r.Sendable)
    (hr : HV.Reach E.toLibC (w.objs this).virus.req w.disk) (h0 : (w.objs this).virus.req.hlen = 0)
    (hi : 8 + rest.length < 2 ^ 31) (id length : UInt32) (state : State) (client : Endian) :
    ∃ sent, (final (VirusHandler.serve E this id length rest state w)).out (w.objs this).sock =
        (w.written E this).out ++ sent ∧
      (sent.length = 12 →
        (clientReads client sent = (id, 4, state.code) ↔ E.host = .big ∨ state = .ok)) ∧
      ((w.written E this).status = .open → E.send (w.written E this).next = .all →
        E.send ((w.written E this).next + 1) = .all →
          sent.length = 12 ∧ ∃ w', VirusHandler.serve E this id length rest state w = .ok ⟨⟩ w') := by
  have hline := serve_sent hcalloc hmalloc ha hc hm hq hr h0 hi id length state
  set l := w.written E this with hl
  set bs := [storeWord .big id ++ storeWord .big 4, storeWord E.host state.code] with hbs
  have hflat : bs.flatten = storeWord .big id ++ storeWord .big 4 ++ storeWord E.host state.code := by
    simp [hbs]
  have h12 : bs.flatten.length = 12 := by rw [hflat]; simp
  obtain ⟨sent, hout, -, hall⟩ := Line.sendAll_whole E l bs
  refine ⟨sent, hline.final.2.trans hout, fun hlen => ?_, fun hopen hs hs' => ?_⟩
  · rw [hall (by rw [hlen, h12]), hflat, clientReads_reply, Prod.mk.injEq, Prod.mk.injEq, code_swapped]
    simp
  · -- both blocks are taken whole
    set l₁ := l.send E (storeWord .big id ++ storeWord .big 4) with hl₁
    have hsend : l₁ = _ := Line.send_open hopen
    rw [hs] at hsend
    have hopen₁ : l₁.status = .open := by rw [hsend]; rfl
    have hs₁ : E.send l₁.next = .all := by rw [hsend]; exact hs'
    have hfull : l.sendAll E bs = ⟨.open, l₁.next + 1, l.out ++ bs.flatten⟩ := by
      rw [hbs, Line.sendAll_cons, Line.sendAll_cons, ← hl₁, Line.send_open hopen₁, hs₁, hsend]
      simp [Line.sendAll, SendResult.taken, SendResult.status]
    refine ⟨?_, ?_⟩
    · rw [hfull] at hout
      rw [← List.append_cancel_left hout, h12]
    · -- a fault would have cost the connection
      cases hrun : VirusHandler.serve E this id length rest state w with
      | ok a w' => exact ⟨w', rfl⟩
      | error f w' =>
        rw [hrun] at hline
        have hst : (l.sendAll E bs).status = .open := by rw [hfull]
        exact absurd hst hline.status_error

/-- A client for which nothing is queued, and the answer `OK` to its request 7. -/
theorem response_decodes_iff_seven :
    ∃ sent, (final (VirusHandler.serve .steady 0 7 1 [9] .ok (.client []))).out 5 =
        ((World.client []).written .steady 0).out ++ sent ∧
      (sent.length = 12 → (clientReads .big sent = (7, 4, 0) ↔ Endian.little = .big ∨ State.ok = .ok)) ∧
      (((World.client []).written .steady 0).status = .open →
        Env.steady.send ((World.client []).written .steady 0).next = .all →
          Env.steady.send (((World.client []).written .steady 0).next + 1) = .all →
            sent.length = 12 ∧ ∃ w', VirusHandler.serve .steady 0 7 1 [9] .ok (.client []) = .ok ⟨⟩ w') := by
  have ha : (World.client []).dead 0 = false := rfl
  have hi : 8 + ([9] : List UInt8).length < 2 ^ 31 := by decide
  have h := response_decodes_iff (E := .steady) (m := 0) (fun _ => rfl) (fun _ => rfl) ha rfl rfl
    (fun _ hr => by cases hr) (.new .auto ⟨0, 0⟩ .empty) rfl hi 7 1 .ok .big
  have hs : ((World.client []).objs 0).sock = 5 := rfl
  rw [hs] at h
  exact h

/-- The answer `INTERNAL_ERROR` to the request 7 on a little-endian host: the client reads
`0x03000000`. -/
theorem error_code_swapped :
    ∃ w', VirusHandler.serve .steady 0 7 1 [9] .internalError (.client []) = .ok ⟨⟩ w' ∧
      w'.out 5 = [0, 0, 0, 7, 0, 0, 0, 4, 3, 0, 0, 0] ∧
      clientReads .little (w'.out 5) = (7, 4, 0x03000000) ∧
      clientReads .little (w'.out 5) ≠ (7, 4, State.internalError.code) :=
  ⟨_, eq_ok_final (by decide +kernel), by decide +kernel, by decide +kernel, by decide +kernel⟩

end DocFerry
