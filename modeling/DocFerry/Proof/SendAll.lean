import DocFerry.Model.CpSocket

/-!
# `cp_send_all`

The loop goes on from the first byte that the system has not taken.

* `SendAll.Running`: the invariant at the head of the loop; `sendAllBody_again`, `sendAllBody_done` are
  the steps.
* `cpSendAll_sends`: whatever `send` answers, the calls and the result are those of a loop that sends the
  buffer from the first byte to the last.
-/

namespace DocFerry

variable {send : ℕ → ℤ → ℤ} {buf : List UInt8} {len ret : ℤ} {s s' : SendAll} {calls : List SendCall}

/-- The bytes that a call asks for. -/
def SendCall.bytes (c : SendCall) (buf : List UInt8) : List UInt8 :=
  (buf.drop c.off.toNat).take c.count.toNat

/-- The bytes that the system takes in a call. -/
def SendCall.taken (c : SendCall) (buf : List UInt8) : List UInt8 := (c.bytes buf).take c.ret.toNat

/-- The number of bytes taken in all. -/
def sentIn (calls : List SendCall) : ℤ := (calls.map fun c => max c.ret 0).sum

/-- The bytes taken in all. -/
def takenIn (buf : List UInt8) (calls : List SendCall) : List UInt8 := calls.flatMap (·.taken buf)

/-- Every call gets its answer from `send`, and asks for the bytes from the first one that was not taken
before to the end of the buffer. -/
def Asked (send : ℕ → ℤ → ℤ) (buf : List UInt8) (len : ℤ) (calls : List SendCall) : Prop :=
  ∀ pre c, pre ++ [c] <+: calls → c = ⟨sentIn pre, len - sentIn pre, send pre.length (len - sentIn pre)⟩ ∧
    takenIn buf pre ++ c.bytes buf = buf.take len.toNat

/-- The first call that took nothing is the last one, and decides on the result. -/
def Failed (ret : ℤ) (calls : List SendCall) : Prop :=
  ∃ pre c, calls = pre ++ [c] ∧ (∀ d ∈ pre, 0 < d.ret) ∧ (c.ret = 0 ∧ ret = 0 ∨ c.ret < 0 ∧ ret = -1)

@[simp] theorem sentIn_concat (calls : List SendCall) (c : SendCall) :
    sentIn (calls ++ [c]) = sentIn calls + max c.ret 0 := by
  simp [sentIn]

@[simp] theorem takenIn_concat (calls : List SendCall) (c : SendCall) :
    takenIn buf (calls ++ [c]) = takenIn buf calls ++ c.taken buf := by
  simp [takenIn]

/-- At the head of the loop: the buffer up to `n_total_send` was taken, by calls that all took
something. -/
structure SendAll.Running (send : ℕ → ℤ → ℤ) (buf : List UInt8) (len : ℤ) (s : SendAll) : Prop where
  lt : s.n_total_send < len
  total : sentIn s.calls = s.n_total_send
  calls_le : (s.calls.length : ℤ) ≤ s.n_total_send
  taken : takenIn buf s.calls = buf.take s.n_total_send.toNat
  pos : ∀ c ∈ s.calls, 0 < c.ret
  asked : Asked send buf len s.calls

theorem SendAll.Running.init (hlen : 1 ≤ len) : SendAll.Running send buf len ⟨0, []⟩ := by
  refine ⟨by dsimp only; omega, rfl, le_rfl, rfl, fun c hc => absurd hc List.not_mem_nil, ?_⟩
  intro pre c h
  have hnil := List.eq_nil_of_prefix_nil h
  simp at hnil

/-- The call that the body makes. -/
def SendAll.next (send : ℕ → ℤ → ℤ) (len : ℤ) (s : SendAll) : SendCall :=
  ⟨s.n_total_send, len - s.n_total_send, send s.calls.length (len - s.n_total_send)⟩

theorem sendAllBody_eq (send : ℕ → ℤ → ℤ) (len : ℤ) (s : SendAll) :
    sendAllBody send len s =
      if (s.next send len).ret > 0 then
        if s.n_total_send + (s.next send len).ret < len then
          .again ⟨s.n_total_send + (s.next send len).ret, s.calls ++ [s.next send len]⟩
        else .done (len, s.calls ++ [s.next send len])
      else if (s.next send len).ret = 0 then .done (0, s.calls ++ [s.next send len])
      else .done (-1, s.calls ++ [s.next send len]) := rfl

/-- **The next call** asks for what is left, too. -/
theorem SendAll.Running.asked_next (h : s.Running send buf len) :
    Asked send buf len (s.calls ++ [s.next send len]) := by
  intro pre c hpre
  rcases List.prefix_concat_iff.1 hpre with heq | hold
  · obtain ⟨rfl, hc⟩ := List.append_inj' heq rfl
    cases hc
    refine ⟨by rw [h.total]; rfl, ?_⟩
    have hpos : 0 ≤ s.n_total_send := le_trans (Int.natCast_nonneg _) h.calls_le
    have hlt := h.lt
    have hsplit : len.toNat = s.n_total_send.toNat + (len - s.n_total_send).toNat := by omega
    rw [h.taken, hsplit, List.take_add]
    rfl
  · exact h.asked pre c hold

/-- What is taken after the next call. -/
theorem SendAll.Running.taken_next (h : s.Running send buf len)
    (hle : (s.next send len).ret ≤ len - s.n_total_send) :
    takenIn buf (s.calls ++ [s.next send len]) =
      buf.take (sentIn (s.calls ++ [s.next send len])).toNat := by
  have hpos : 0 ≤ s.n_total_send := le_trans (Int.natCast_nonneg _) h.calls_le
  have hret : (s.next send len).ret.toNat ≤ (s.next send len).count.toNat := Int.toNat_le_toNat hle
  have hsum : (s.n_total_send + max (s.next send len).ret 0).toNat =
      s.n_total_send.toNat + (s.next send len).ret.toNat := by omega
  rw [takenIn_concat, sentIn_concat, h.taken, h.total, hsum, List.take_add]
  unfold SendCall.taken SendCall.bytes
  rw [List.take_take, min_eq_left hret]
  rfl

/-- What the loop leaves behind. -/
structure SentAll (send : ℕ → ℤ → ℤ) (buf : List UInt8) (len ret : ℤ) (calls : List SendCall) : Prop where
  calls_le : (calls.length : ℤ) ≤ len
  asked : Asked send buf len calls
  taken : takenIn buf calls = buf.take (sentIn calls).toNat
  sent_le : sentIn calls ≤ len
  all : ret = len ↔ sentIn calls = len
  failed : sentIn calls ≠ len → Failed ret calls

section Step

variable (hsend : ∀ i n, 1 ≤ n → send i n ≤ n)
include hsend

theorem SendAll.Running.ret_le (h : s.Running send buf len) :
    (s.next send len).ret ≤ len - s.n_total_send := by
  have hlt := h.lt
  exact hsend _ _ (by omega)

/-- **An iteration that goes on** has taken some bytes and left some. -/
theorem sendAllBody_again (h : s.Running send buf len) (hb : sendAllBody send len s = .again s') :
    s'.Running send buf len ∧ s.n_total_send < s'.n_total_send := by
  have htaken := h.taken_next (h.ret_le hsend)
  have hasked := h.asked_next
  have htotal := h.total
  rw [sendAllBody_eq] at hb
  by_cases hpos : (s.next send len).ret > 0
  · rw [if_pos hpos] at hb
    by_cases hlt : s.n_total_send + (s.next send len).ret < len
    · rw [if_pos hlt] at hb
      cases hb
      change _ ∧ s.n_total_send < s.n_total_send + (s.next send len).ret
      have hsum : sentIn (s.calls ++ [s.next send len]) = s.n_total_send + (s.next send len).ret := by
        rw [sentIn_concat, htotal, max_eq_left hpos.le]
      rw [hsum] at htaken
      refine ⟨⟨hlt, hsum, ?_, htaken, fun c hc => ?_, hasked⟩, by omega⟩
      · -- the call has taken at least one byte
        have hle := h.calls_le
        change ((s.calls ++ [_]).length : ℤ) ≤ s.n_total_send + (s.next send len).ret
        rw [List.length_append, List.length_singleton]
        omega
      · rcases List.mem_append.1 hc with hc | hc
        · exact h.pos c hc
        · rw [List.mem_singleton.1 hc]
          exact hpos
    · rw [if_neg hlt] at hb
      cases hb
  · rw [if_neg hpos] at hb
    split at hb <;> cases hb

/-- **The last iteration** has taken the rest, or nothing. -/
theorem sendAllBody_done (h : s.Running send buf len)
    (hb : sendAllBody send len s = .done (ret, calls)) : SentAll send buf len ret calls := by
  have hle := h.ret_le hsend
  have htaken := h.taken_next hle
  have hasked := h.asked_next
  have hcalls := h.calls_le
  have hlt := h.lt
  have hsum : sentIn (s.calls ++ [s.next send len]) = s.n_total_send + max (s.next send len).ret 0 := by
    rw [sentIn_concat, h.total]
  have hlength : ((s.calls ++ [s.next send len]).length : ℤ) ≤ len := by
    rw [List.length_append, List.length_singleton]
    omega
  rw [sendAllBody_eq] at hb
  by_cases hpos : (s.next send len).ret > 0
  · rw [if_pos hpos] at hb
    by_cases hmore : s.n_total_send + (s.next send len).ret < len
    · rw [if_pos hmore] at hb
      cases hb
    · -- everything was taken: `err` is the length
      rw [if_neg hmore] at hb
      cases hb
      have hall : sentIn (s.calls ++ [s.next send len]) = len := by rw [hsum]; omega
      exact ⟨hlength, hasked, htaken, hall.le, iff_of_true rfl hall, fun hne => absurd hall hne⟩
  · rw [if_neg hpos] at hb
    have hless : sentIn (s.calls ++ [s.next send len]) < len := by rw [hsum]; omega
    have hzero : 0 ≤ s.n_total_send := le_trans (Int.natCast_nonneg _) hcalls
    by_cases h0 : (s.next send len).ret = 0
    · rw [if_pos h0] at hb
      cases hb
      exact ⟨hlength, hasked, htaken, hless.le, iff_of_false (by omega) hless.ne,
        fun _ => ⟨s.calls, s.next send len, rfl, h.pos, .inl ⟨h0, rfl⟩⟩⟩
    · rw [if_neg h0] at hb
      cases hb
      exact ⟨hlength, hasked, htaken, hless.le, iff_of_false (by omega) hless.ne,
        fun _ => ⟨s.calls, s.next send len, rfl, h.pos, .inr ⟨by omega, rfl⟩⟩⟩

/-- The loop comes to its end: what is left shrinks. -/
theorem sendAllBody_terminates (h : s.Running send buf len) : Loop.Terminates (sendAllBody send len) s := by
  refine Loop.terminates_of_progress (SendAll.Running send buf len)
    (fun s => (len - s.n_total_send).toNat) (fun s hs => ?_) s h
  cases hb : sendAllBody send len s with
  | again s' =>
    obtain ⟨hs', hmore⟩ := sendAllBody_again hsend hs hb
    have hlt := hs'.lt
    exact .inr ⟨s', .step hb (.refl s'), hs', by omega⟩
  | done b => exact .inl (Loop.terminates_done hb)
  | fault e =>
    rw [sendAllBody_eq] at hb
    split at hb
    · split at hb <;> cases hb
    · split at hb <;> cases hb

end Step

/-- **`cp_send_all`** ends after at most `len` calls, each of which asks for the bytes from the first one
not taken to the end of the buffer; what is taken is always the buffer up to some byte; and the result
is `len` exactly when all was taken, else it tells how the first call failed that took nothing. -/
theorem cpSendAll_sends (send : ℕ → ℤ → ℤ) (buf : List UInt8) (len : ℤ) (hlen : 1 ≤ len)
    (hsend : ∀ i n, 1 ≤ n → send i n ≤ n) :
    ∃ ret calls, (∃ n, cpSendAll send (some buf) len n = some (.ok (ret, calls))) ∧
      SentAll send buf len ret calls := by
  have hrun : ∀ n, cpSendAll send (some buf) len n = Loop.run (sendAllBody send len) n ⟨0, []⟩ := by
    intro n
    unfold cpSendAll
    rw [if_neg]
    rintro (h | h)
    · cases h
    · omega
  have hinit : SendAll.Running send buf len ⟨0, []⟩ := .init hlen
  obtain ⟨⟨ret, calls⟩, n, hn⟩ := sendAllBody_terminates hsend hinit
  refine ⟨ret, calls, ⟨n, (hrun n).trans hn⟩, ?_⟩
  have hinv := Loop.run_ok_inv (P := SendAll.Running send buf len)
    (Q := fun b => SentAll send buf len b.1 b.2) (fun s s' hs hb => (sendAllBody_again hsend hs hb).1)
    (fun s b hs hb => sendAllBody_done hsend hs hb) hinit hn
  exact hinv

/-- A system that takes two bytes at a time. -/
theorem cpSendAll_sends_twos :
    ∃ ret calls, (∃ n, cpSendAll (fun _ n => min n 2) (some [7, 8, 9]) 3 n = some (.ok (ret, calls))) ∧
      SentAll (fun _ n => min n 2) [7, 8, 9] 3 ret calls :=
  cpSendAll_sends (fun _ n => min n 2) [7, 8, 9] 3 (by decide) fun _ n _ => min_le_left n 2

example : cpSendAll (fun _ n => min n 2) (some [7, 8, 9]) 3 3 = some (.ok (3, [⟨0, 3, 2⟩, ⟨2, 1, 1⟩])) := rfl

end DocFerry
