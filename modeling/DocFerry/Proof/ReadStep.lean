import DocFerry.Model.VirusHandler
import DocFerry.Proof.HVInv

/-!
# One iteration of the loop of `VirusHandler::handle_read`

* `response_eq`: what `response` queues.
* `readBody_error`, `readBody_failed`, `readBody_pending`, `readBody_complete`: the
  iteration by what its call of `write` gives.
* `readBody_iterated`: everything it can do, whatever the library answers.
* `readLoop_ok`: a loop that gives a handler has come to its end.
-/

namespace DocFerry

open Bytes

variable {E : LibC} {h : VirusHandler} {d : Disk} {c : ReadState}

/-- The response that answers `id` with `state`, filled when there is memory for it. -/
def HV.replyTo (E : LibC) (id : UInt32) (state : State) (filled : Bool) : HV :=
  { HV.new E.junkTo E.junkHeader with
    header := ⟨htonl E.host id, htonl E.host 4⟩
    value := if filled then some ⟨[], some (storeWord E.host state.code), ⟨4, 4, 0, none, ['.']⟩⟩
      else none }

/-- The disk after a response was made. -/
def Disk.replied (d : Disk) : Disk := { d with ncalloc := d.ncalloc + 2, nmalloc := d.nmalloc + 1 }

/-- **`response` queues the reply**, the two `calloc` calls of its cache working. -/
theorem response_run (hc : E.calloc d.ncalloc = true) (hc' : E.calloc (d.ncalloc + 1) = true)
    (h : VirusHandler) (state : State) :
    h.response E d state =
      .ok ({ h with resp := h.resp ++ [HV.replyTo E h.req.header.id state (E.malloc d.nmalloc)] },
        d.replied) := by
  have hlen : (UInt32.toNat 4) = 4 := rfl
  unfold VirusHandler.response HV.writeMsg
  simp only [HV.new, createCache_mem _ hc hc', bind, Except.bind, pure, Except.pure, hlen]
  cases hm : E.malloc d.nmalloc with
  | false => rfl
  | true =>
    -- the four bytes of the state fit into the new cache
    have hpush : cachePush E d.replied (memCache E 4) (storeWord E.host state.code) 4 = _ :=
      cachePush_mem E d.replied rfl (by simp [memCache]) (by simp [memCache]) (by decide)
    have hfit : min ((memCache E 4).priv.capacity - (memCache E 4).priv.widx) 4 = 4 := rfl
    rw [hfit] at hpush
    have hne : storeWord E.host state.code ≠ [] := by
      intro hnil
      have := length_storeWord E.host state.code
      simp [hnil] at this
    have hov : overwrite (List.replicate 4 E.junk) 0 ((storeWord E.host state.code).take 4) =
        storeWord E.host state.code := by
      rw [List.take_of_length_le (by simp)]
      simp [overwrite, hne]
    simp only [if_true]
    rw [show ({ d with ncalloc := d.ncalloc + 2, nmalloc := d.nmalloc + 1 } : Disk) = d.replied from rfl,
      hpush]
    simp only [memCache, Cache.grow, hov]
    simp [intToSize, HV.replyTo, HV.new]

theorem response_eq (hE : ∀ i, E.calloc i = true) (h : VirusHandler) (d : Disk) (state : State) :
    h.response E d state =
      .ok ({ h with resp := h.resp ++ [HV.replyTo E h.req.header.id state (E.malloc d.nmalloc)] },
        d.replied) := response_run (hE _) (hE _) h state

/-- **A `response` that returns** has queued the reply, or one without a value when there was no
memory for its cache. -/
theorem response_cases {state : State} {h' : VirusHandler} {d' : Disk}
    (hr : h.response E d state = .ok (h', d')) :
    h' = { h with resp := h.resp ++ [HV.replyTo E h.req.header.id state (E.malloc d.nmalloc)] } ∧
        d' = d.replied ∨
      E.calloc d.ncalloc = false ∧
        h' = { h with resp := h.resp ++ [HV.replyTo E h.req.header.id state false] } ∧
        d' = { d with ncalloc := d.ncalloc + 1 } := by
  by_cases hc : E.calloc d.ncalloc = true
  · by_cases hc' : E.calloc (d.ncalloc + 1) = true
    · rw [response_run hc hc'] at hr
      cases hr
      exact .inl ⟨rfl, rfl⟩
    · -- the second `calloc` is not checked
      have hc'' : E.calloc (d.ncalloc + 1) = false := by simpa using hc'
      simp only [VirusHandler.response, HV.writeMsg, HV.new, createCache, calloc, hc, hc'', bind,
        Except.bind, pure, Except.pure] at hr
      cases hr
  · have hc'' : E.calloc d.ncalloc = false := by simpa using hc
    simp only [VirusHandler.response, HV.writeMsg, HV.new, createCache, calloc, hc'', bind, Except.bind,
      pure, Except.pure] at hr
    cases hr
    exact .inr ⟨hc'', rfl, rfl⟩

/-- What `response` queues is the reply, filled if there was memory for it. -/
theorem response_queues {state : State} {h' : VirusHandler} {d' : Disk}
    (hr : h.response E d state = .ok (h', d')) :
    ∃ filled, h'.resp = h.resp ++ [HV.replyTo E h.req.header.id state filled] ∧
      ((∀ i, E.calloc i = true) → (∀ i, E.malloc i = true) → filled = true) := by
  rcases response_cases hr with ⟨rfl, -⟩ | ⟨hc, rfl, -⟩
  · exact ⟨_, rfl, fun _ hm => hm _⟩
  · refine ⟨false, rfl, fun hcalloc _ => ?_⟩
    rw [hcalloc] at hc
    cases hc

/-- Making a response touches no stream. -/
theorem HV.Inv.replied {s : HV} (h : s.Inv d) : s.Inv d.replied := by
  refine ⟨h.hlen, h.head, h.storage, fun c hc => ?_, h.complete⟩
  have hf := h.value c hc
  exact ⟨hf.buf, hf.isOpen, hf.le, hf.small⟩

/-! ### The iteration -/

/-- A call of `write` that faults stops the loop. -/
theorem readBody_error {f : Fault}
    (hw : c.self.req.write E c.disk (some c.p_buf) c.nread = .error f) :
    VirusHandler.readBody E c = .fault f := by
  simp only [VirusHandler.readBody, hw]

/-- `clear` touches neither the header nor a counter of the library. -/
theorem clear_keeps (s : HV) (d : Disk) :
    (s.clear d).1.header = s.header ∧ (s.clear d).2.nmalloc = d.nmalloc ∧
      (s.clear d).2.nfwrite = d.nfwrite ∧ (s.clear d).2.nfopen = d.nfopen := by
  unfold HV.clear
  dsimp only
  split
  · cases hv : s.value with
    | none => exact ⟨rfl, rfl, rfl, rfl⟩
    | some c =>
      refine ⟨rfl, ?_, ?_, ?_⟩ <;> (simp only [leaveCache]; split <;> rfl)
  · exact ⟨rfl, rfl, rfl, rfl⟩

/-- The handler once its request `s` has found no cache for its value. -/
def VirusHandler.failed (E : LibC) (h : VirusHandler) (s : HV) (d : Disk) : VirusHandler where
  req := (s.clear d).1
  resp := h.resp ++ [HV.replyTo E s.header.id .internalError (E.malloc d.nmalloc)]
  state := .internalError

/-- **A call of `write` that fails** ends the loop with an error queued for the client; what
it took of the bytes is not looked at. -/
theorem readBody_failed (hE : ∀ i, E.calloc i = true) {s : HV} {d : Disk}
    (hw : c.self.req.write E c.disk (some c.p_buf) c.nread = .ok (-1, s, d)) :
    VirusHandler.readBody E c = .done (c.self.failed E s d, (s.clear d).2.replied) := by
  obtain ⟨hid, hm, -⟩ := clear_keeps s d
  simp only [VirusHandler.readBody, hw, if_true, response_eq hE, hid, hm]
  rfl

/-- The state after an iteration that took `k` bytes. -/
def ReadState.next (c : ReadState) (h : VirusHandler) (d : Disk) (k : ℕ) : ReadState :=
  ⟨h, d, c.p_buf.drop k, c.nread - k⟩

/-- A call of `write` that leaves the frame pending. -/
theorem readBody_pending {k : ℕ} {s : HV} {d : Disk}
    (hw : c.self.req.write E c.disk (some c.p_buf) c.nread = .ok ((k : ℤ), s, d))
    (hs : s.isComplete = false) :
    VirusHandler.readBody E c =
      if c.nread - k = 0 then .done ({ c.self with req := s }, d)
      else .again (c.next { c.self with req := s } d k) := by
  have hk : ¬ ((k : ℤ) = -1) := by omega
  simp only [VirusHandler.readBody, hw, hk, if_false, hs]
  rfl

/-- A call of `write` that takes all that is left and leaves the frame pending is the last one. -/
theorem readBody_last {k : ℕ} {s : HV} {d : Disk}
    (hw : c.self.req.write E c.disk (some c.p_buf) c.nread = .ok ((k : ℤ), s, d))
    (hs : s.isComplete = false) (hk : c.nread = k) :
    VirusHandler.readBody E c = .done ({ c.self with req := s }, d) := by
  rw [readBody_pending hw hs, hk, if_pos (sub_self _)]

/-- The handler once its complete request `s` has been answered. -/
def VirusHandler.answered (E : LibC) (h : VirusHandler) (s : HV) (d : Disk) : VirusHandler where
  req := (s.clear d).1
  resp := h.resp ++ [HV.replyTo E s.header.id .ok (E.malloc d.nmalloc)]
  state := .ok

/-- **A call of `write` that completes the frame** clears the request and queues the answer. -/
theorem readBody_complete (hE : ∀ i, E.calloc i = true) {k : ℕ} {s : HV} {d : Disk}
    (hw : c.self.req.write E c.disk (some c.p_buf) c.nread = .ok ((k : ℤ), s, d))
    (hs : s.isComplete = true) :
    VirusHandler.readBody E c =
      if c.nread - k = 0 then .done (c.self.answered E s d, (s.clear d).2.replied)
      else .again (c.next (c.self.answered E s d) (s.clear d).2.replied k) := by
  have hk : ¬ ((k : ℤ) = -1) := by omega
  obtain ⟨hid, hm, -⟩ := clear_keeps s d
  simp only [VirusHandler.readBody, hw, hk, if_false, hs, if_true, VirusHandler.request,
    response_eq hE, hid, hm]
  rfl

/-! ### Whatever the library answers -/

/-- What becomes of the handler `h` when a call of `write` has left it the request `s`: a complete
request is cleared and answered. -/
inductive VirusHandler.Handled (E : LibC) (h : VirusHandler) (s : HV) (d : Disk) :
    VirusHandler → Disk → Prop
  | pending (hs : s.isComplete = false) : Handled E h s d { h with req := s } d
  | complete {h' : VirusHandler} {d' : Disk} (hs : s.isComplete = true)
      (hr : VirusHandler.response E { h with req := (s.clear d).1, state := .ok } (s.clear d).2 .ok =
        .ok (h', d')) : Handled E h s d h' d'

/-- The ways in which an iteration ends. -/
inductive Iterated (E : LibC) (c : ReadState) : Loop.Next Fault ReadState (VirusHandler × Disk) → Prop
  | fault (f : Fault) : Iterated E c (.fault f)
  /-- the client is told that the call has failed -/
  | failed {s : HV} {d d' : Disk} {h' : VirusHandler}
      (hw : c.self.req.write E c.disk (some c.p_buf) c.nread = .ok (-1, s, d))
      (hr : VirusHandler.response E { c.self with req := (s.clear d).1, state := .internalError }
        (s.clear d).2 .internalError = .ok (h', d')) : Iterated E c (.done (h', d'))
  | done {wlen : ℤ} {s : HV} {d d' : Disk} {h' : VirusHandler}
      (hw : c.self.req.write E c.disk (some c.p_buf) c.nread = .ok (wlen, s, d)) (hlen : wlen ≠ -1)
      (hh : c.self.Handled E s d h' d') (h0 : c.nread - wlen = 0) : Iterated E c (.done (h', d'))
  | again {wlen : ℤ} {s : HV} {d d' : Disk} {h' : VirusHandler}
      (hw : c.self.req.write E c.disk (some c.p_buf) c.nread = .ok (wlen, s, d)) (hlen : wlen ≠ -1)
      (hh : c.self.Handled E s d h' d') (h0 : c.nread - wlen ≠ 0) :
      Iterated E c (.again ⟨h', d', c.p_buf.drop wlen.toNat, c.nread - wlen⟩)

/-- **Everything an iteration can do.** -/
theorem readBody_iterated (E : LibC) (c : ReadState) : Iterated E c (VirusHandler.readBody E c) := by
  -- bytes may be left once the request was looked at
  have hrest : ∀ {wlen : ℤ} {s : HV} {d d' : Disk} {h' : VirusHandler},
      c.self.req.write E c.disk (some c.p_buf) c.nread = .ok (wlen, s, d) → wlen ≠ -1 →
      c.self.Handled E s d h' d' → Iterated E c (if c.nread - wlen = 0 then .done (h', d')
        else .again ⟨h', d', c.p_buf.drop wlen.toNat, c.nread - wlen⟩) := by
    intro wlen s d d' h' hw hlen hh
    by_cases h0 : c.nread - wlen = 0
    · rw [if_pos h0]
      exact .done hw hlen hh h0
    · rw [if_neg h0]
      exact .again hw hlen hh h0
  unfold VirusHandler.readBody
  cases hw : c.self.req.write E c.disk (some c.p_buf) c.nread with
  | error f => exact .fault f
  | ok r =>
    obtain ⟨wlen, s, d⟩ := r
    dsimp only
    by_cases hlen : wlen = -1
    · rw [if_pos hlen]
      cases hr : VirusHandler.response E { c.self with req := (s.clear d).1, state := .internalError }
          (s.clear d).2 .internalError with
      | error f => exact .fault f
      | ok r =>
        subst hlen
        exact .failed hw hr
    · rw [if_neg hlen]
      by_cases hs : s.isComplete = true
      · rw [if_pos hs]
        cases hr : VirusHandler.response E { c.self with req := (s.clear d).1, state := .ok }
            (s.clear d).2 .ok with
        | error f =>
          simp only [VirusHandler.request, hr]
          exact .fault f
        | ok r =>
          simp only [VirusHandler.request, hr]
          exact hrest hw hlen (.complete hs hr)
      · rw [if_neg hs]
        exact hrest hw hlen (.pending (by simpa using hs))

/-! ### The loop -/

/-- A loop that gives a handler has come to its end. -/
theorem readLoop_ok {fuel : ℕ} {buf : List UInt8} {r : VirusHandler × Disk}
    (hrun : VirusHandler.readLoop E fuel h d buf = .ok r) :
    Loop.run (VirusHandler.readBody E) fuel ⟨h, d, buf, buf.length⟩ = some (.ok r) := by
  unfold VirusHandler.readLoop at hrun
  cases hr : Loop.run (VirusHandler.readBody E) fuel ⟨h, d, buf, buf.length⟩ with
  | none =>
    rw [hr] at hrun
    cases hrun
  | some x =>
    rw [hr] at hrun
    exact congrArg some hrun

end DocFerry
