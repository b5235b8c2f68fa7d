import DocFerry.Proof.ReadStep

/-!
# When the loop of `VirusHandler::handle_read` ends

An iteration may take no byte: one that only completes a pending frame, and one
whose stream refuses the value bytes.

* `readBody_step`: an iteration ends the loop, takes a byte, clears a complete frame,
  or stands before a cache with room.
* `terminates_of_accepting`: such a standstill ends as soon as the stream takes a byte.
* `readLoop_terminates_iff`: the loop ends exactly when it never comes to a cache with
  room whose stream refuses every byte from there on.
-/

namespace DocFerry

open Bytes

variable {E : LibC} {c : ReadState}

/-- The head of the loop: bytes are left, and the header is whole or has not begun. -/
structure ReadState.Ok (c : ReadState) : Prop where
  inv : c.self.req.Inv c.disk
  pos : 0 < c.nread
  le : c.nread ≤ c.p_buf.length
  int : c.nread < 2 ^ 31
  whole : c.self.req.hlen = 0 ∨ c.self.req.hlen = 8

/-- The frame is at its value and its cache has room. -/
def ReadState.Room (c : ReadState) : Prop :=
  c.self.req.hlen = 8 ∧ ∃ v, c.self.req.value = some v ∧ cacheFull v = false

/-- The cache has room, but from here on its stream takes nothing. -/
structure Stuck (E : LibC) (c : ReadState) : Prop where
  room : c.Room
  refused : ∀ i, c.disk.nfwrite ≤ i → E.fwrite i = some 0

/-- The bytes left at the head of the loop, as a number. -/
theorem ReadState.Ok.exists_nat (h : c.Ok) :
    ∃ n : ℕ, c.nread = n ∧ 0 < n ∧ n ≤ c.p_buf.length ∧ n < 2 ^ 31 := by
  obtain ⟨n, hn⟩ := Int.eq_ofNat_of_zero_le h.pos.le
  have h1 := h.pos
  have h2 := h.le
  have h3 := h.int
  rw [hn] at h1 h2 h3
  exact ⟨n, hn, by exact_mod_cast h1, by exact_mod_cast h2, by exact_mod_cast h3⟩

/-- Bytes that are left after an iteration lead to the head of the loop again. -/
theorem ReadState.Ok.next (h : c.Ok) {s : VirusHandler} {d : Disk} {k : ℕ} (hi : s.req.Inv d)
    (hw : s.req.hlen = 0 ∨ s.req.hlen = 8) (hk : (k : ℤ) ≤ c.nread) (hne : c.nread - k ≠ 0) :
    (c.next s d k).Ok := by
  have hle := h.le
  have hint := h.int
  refine ⟨hi, ?_, ?_, ?_, hw⟩
  · simp only [ReadState.next]; omega
  · simp only [ReadState.next, List.length_drop]; omega
  · simp only [ReadState.next]; omega

/-- A cache with room asks the stream to take at least one byte. -/
theorem taken_eq_zero {d : Disk} {m : ℕ} (hm : 0 < m) (h : E.taken d m = 0) :
    E.fwrite d.nfwrite = some 0 := by
  unfold LibC.taken at h
  cases hf : E.fwrite d.nfwrite with
  | none => rw [hf] at h; simp only at h; omega
  | some k => rw [hf] at h; simp only at h; congr; omega

/-- **One iteration**: it ends the loop, takes bytes, or takes none and has cleared a
complete frame or stands before a cache with room. -/
theorem readBody_step (hE : ∀ i, E.calloc i = true) (h : c.Ok) :
    (∃ b, VirusHandler.readBody E c = .done b) ∨
      ∃ c', VirusHandler.readBody E c = .again c' ∧ c'.Ok ∧
        (c'.nread < c.nread ∨ c'.nread = c.nread ∧ c.self.req.hlen = 8 ∧
          (c'.self.req.hlen = 0 ∨ c'.Room ∧
            (c.Room → E.fwrite c.disk.nfwrite = some 0 ∧
              c'.disk.nfwrite = c.disk.nfwrite + 1))) := by
  obtain ⟨n, hn, hpos, hle, hint⟩ := h.exists_nat
  have hw := write_wrote (E := E) h.inv hpos hle hint
  rw [← hn] at hw
  generalize hr : c.self.req.write E c.disk (some c.p_buf) c.nread = r at hw
  cases hw with
  | cut h0 h8 => have := h.whole; omega
  | short h0 h8 =>
    left
    have hnc : (c.self.req.patched E (c.p_buf.take n)).isComplete = false := by
      simp [HV.isComplete, HV.patched, h.inv.head, h0]
    exact ⟨_, readBody_last hr hnc hn⟩
  | head h0 h8 =>
    left
    have hv : c.self.req.valueComplete = false := by
      by_contra hv
      have := (h.inv.complete (by simpa using hv)).1
      omega
    have hnc : (c.self.req.headed (headOf (c.p_buf.take 8))).isComplete = false := by
      simp [HV.isComplete, HV.headed, hv]
    exact ⟨_, readBody_last (k := 8) hr hnc (by rw [hn, h8])⟩
  | crash hc => obtain ⟨i, hi⟩ := hc; rw [hE] at hi; cases hi
  | noCache _ _ _ => exact .inl ⟨_, readBody_failed hE hr⟩
  | push hb hoff hc hf hk hf' hnw =>
    rename_i off k s₁ v d₀ d'
    have hinv : (s₁.filled (v.grow k)).Inv d' :=
      (Wrote.push (E := E) hb hoff hc hf hk hf' hnw).inv h.inv
    have hkn : (((off + k : ℕ) : ℕ) : ℤ) ≤ c.nread := by
      have := E.taken_le d₀ (min (v.priv.capacity - v.priv.widx) (n - off))
      rw [hn]; omega
    have hhlen : (s₁.filled (v.grow k)).hlen = 8 := hb.hlen
    by_cases hcomp : (s₁.filled (v.grow k)).isComplete = true
    · rw [readBody_complete hE hr hcomp]
      by_cases h0 : c.nread - ((off + k : ℕ) : ℤ) = 0
      · rw [if_pos h0]; exact .inl ⟨_, rfl⟩
      · rw [if_neg h0]
        obtain ⟨hz, -⟩ := clear_begins (s₁.filled (v.grow k)) d'
        refine .inr ⟨_, rfl, h.next (clear_inv hinv).replied (.inl hz) hkn h0, ?_⟩
        rcases Nat.eq_zero_or_pos (off + k) with hz' | hz'
        · refine .inr ⟨by simp [ReadState.next, hz'], ?_, .inl hz⟩
          cases hb with
          | body h8 => exact h8
          | head _ _ => omega
        · left; simp only [ReadState.next]; omega
    · have hnc : (s₁.filled (v.grow k)).isComplete = false := by simpa using hcomp
      rw [readBody_pending hr hnc]
      by_cases h0 : c.nread - ((off + k : ℕ) : ℤ) = 0
      · rw [if_pos h0]; exact .inl ⟨_, rfl⟩
      · rw [if_neg h0]
        refine .inr ⟨_, rfl, h.next hinv (.inr hhlen) hkn h0, ?_⟩
        rcases Nat.eq_zero_or_pos (off + k) with hz' | hz'
        · obtain ⟨rfl, rfl⟩ : off = 0 ∧ k = 0 := by omega
          cases hb with
          | body h8 =>
            have hroom : cacheFull (v.grow 0) = false := by
              have hh : c.self.req.headComplete = true := by rw [h.inv.head, h8]; rfl
              simp only [HV.isComplete, HV.filled, hh, Bool.true_and, Bool.or_eq_false_iff] at hnc
              exact hnc.2
            refine .inr ⟨by simp [ReadState.next], h8, .inr ⟨⟨h8, _, rfl, hroom⟩, ?_⟩⟩
            rintro ⟨-, v', hv', hfull'⟩
            -- the cache with room was there before, so only one `fwrite` was made
            rcases hc with ⟨hv, rfl⟩ | ⟨hv, -⟩
            · refine ⟨taken_eq_zero ?_ hk.symm, hnw⟩
              have hle' := hf.le
              simp only [Cache.grow_zero, cacheFull, beq_eq_false_iff_ne, ne_eq] at hroom
              omega
            · rw [hv] at hv'; cases hv'
        · left; simp only [ReadState.next]; omega

/-- **A refused push** leaves the loop where it was. -/
theorem readBody_refused (h : c.Ok) (hroom : c.Room) (hz : E.fwrite c.disk.nfwrite = some 0) :
    ∃ d', VirusHandler.readBody E c = .again { c with disk := d' } ∧ ({ c with disk := d' } : ReadState).Ok ∧
      d'.nfwrite = c.disk.nfwrite + 1 := by
  obtain ⟨n, hn, hpos, hle, hint⟩ := h.exists_nat
  obtain ⟨h8, v, hv, hfull⟩ := hroom
  have hh : c.self.req.headComplete = true := by rw [h.inv.head, h8]; rfl
  -- a cache with room belongs to a value that is not complete
  have hvc : c.self.req.valueComplete = false := by
    by_contra hvc
    obtain ⟨-, v', hv', hfull'⟩ := h.inv.complete (by simpa using hvc)
    obtain rfl := Option.some.inj (hv.symm.trans hv')
    rw [hfull] at hfull'; cases hfull'
  obtain ⟨k, d', hrun, hk, hf', hnw, -⟩ :=
    writeValue_push (E := E) hh hv (h.inv.value v hv) hpos hle hint
  obtain rfl : k = 0 := by rw [hk, LibC.taken, hz]; simp
  -- a push of nothing leaves the object as it was
  have hself : c.self.req.filled (v.grow 0) = c.self.req := by
    rw [Cache.grow_zero]
    unfold HV.filled
    rw [hvc, hfull, ← hv]
    conv_rhs => rw [show c.self.req = { c.self.req with valueComplete := false } by rw [← hvc]]
    rfl
  rw [hself] at hrun
  have hw : c.self.req.write E c.disk (some c.p_buf) c.nread = .ok (((0 : ℕ) : ℤ), c.self.req, d') := by
    rw [hn, write_body h8, hrun]
    rfl
  have hnc : c.self.req.isComplete = false := by simp [HV.isComplete, hvc]
  have hne : ¬ c.nread - ((0 : ℕ) : ℤ) = 0 := by omega
  refine ⟨d', ?_, ⟨?_, h.pos, h.le, h.int, h.whole⟩, hnw⟩
  · rw [readBody_pending hw hnc, if_neg hne]
    simp [ReadState.next]
  · refine ⟨h.inv.hlen, h.inv.head, h.inv.storage, fun v' hv' => ?_, h.inv.complete⟩
    obtain rfl := Option.some.inj (hv.symm.trans hv')
    simpa using hf'

/-- A standstill before a cache with room ends once the stream takes a byte. -/
theorem terminates_of_accepting (hE : ∀ i, E.calloc i = true) {j : ℕ} (hj : E.fwrite j ≠ some 0)
    (h : c.Ok) (hroom : c.Room) (hle : c.disk.nfwrite ≤ j) :
    Loop.Terminates (VirusHandler.readBody E) c ∨
      ∃ c', Loop.Reaches (VirusHandler.readBody E) c c' ∧ c'.Ok ∧
        (c'.nread < c.nread ∨ c'.nread = c.nread ∧ c'.self.req.hlen = 0) := by
  obtain ⟨m, hm⟩ := Nat.exists_eq_add_of_le hle
  induction m generalizing c with
  | zero =>
    rcases readBody_step hE h with ⟨b, hb⟩ | ⟨c', hc', hok, hlt | ⟨heq, -, h0 | ⟨-, hz⟩⟩⟩
    · exact .inl (Loop.terminates_done hb)
    · exact .inr ⟨c', .step hc' (.refl _), hok, .inl hlt⟩
    · exact .inr ⟨c', .step hc' (.refl _), hok, .inr ⟨heq, h0⟩⟩
    · obtain rfl : j = c.disk.nfwrite := hm
      exact absurd (hz hroom).1 hj
  | succ m ih =>
    rcases readBody_step hE h with ⟨b, hb⟩ | ⟨c', hc', hok, hlt | ⟨heq, -, h0 | ⟨hroom', hz⟩⟩⟩
    · exact .inl (Loop.terminates_done hb)
    · exact .inr ⟨c', .step hc' (.refl _), hok, .inl hlt⟩
    · exact .inr ⟨c', .step hc' (.refl _), hok, .inr ⟨heq, h0⟩⟩
    · -- still at the same cache, one refused `fwrite` later
      have hnw := (hz hroom).2
      rcases ih hok hroom' (by omega) (by omega) with ht | ⟨c'', hr, hok', hlt⟩
      · exact .inl ((Loop.terminates_again hc').2 ht)
      · rw [heq] at hlt
        exact .inr ⟨c'', .step hc' hr, hok', hlt⟩

/-- From a frame whose header has not begun the loop ends or takes a byte. -/
theorem readBody_fresh (hE : ∀ i, E.calloc i = true) (h : c.Ok) (h0 : c.self.req.hlen = 0) :
    Loop.Terminates (VirusHandler.readBody E) c ∨
      ∃ c', VirusHandler.readBody E c = .again c' ∧ c'.Ok ∧ c'.nread < c.nread := by
  rcases readBody_step hE h with ⟨b, hb⟩ | ⟨c', hc', hok, hlt | ⟨-, h8, -⟩⟩
  · exact .inl (Loop.terminates_done hb)
  · exact .inr ⟨c', hc', hok, hlt⟩
  · omega

/-- **The loop ends from a head that does not lead to a stuck one.** -/
theorem terminates_of_not_stuck (hE : ∀ i, E.calloc i = true) (h : c.Ok)
    (hs : ∀ c', Loop.Reaches (VirusHandler.readBody E) c c' → ¬ Stuck E c') :
    Loop.Terminates (VirusHandler.readBody E) c := by
  refine Loop.terminates_of_progress
    (fun c => c.Ok ∧ ∀ c', Loop.Reaches (VirusHandler.readBody E) c c' → ¬ Stuck E c')
    (fun c => c.nread.toNat) ?_ c ⟨h, hs⟩
  clear h hs
  rintro c ⟨h, hs⟩
  -- a state further on is smaller as soon as it has fewer bytes left
  have hsmall : ∀ c', Loop.Reaches (VirusHandler.readBody E) c c' → c'.Ok → c'.nread < c.nread →
      Loop.Terminates (VirusHandler.readBody E) c ∨
        ∃ c', Loop.Reaches (VirusHandler.readBody E) c c' ∧
          (c'.Ok ∧ ∀ c'', Loop.Reaches (VirusHandler.readBody E) c' c'' → ¬ Stuck E c'') ∧
          c'.nread.toNat < c.nread.toNat := by
    intro c' hr hok hlt
    have hp := hok.pos
    exact .inr ⟨c', hr, ⟨hok, fun c'' hr' => hs c'' (hr.trans hr')⟩, by omega⟩
  -- and one whose header has not begun takes a byte in its next iteration
  have hfresh : ∀ c', Loop.Reaches (VirusHandler.readBody E) c c' → c'.Ok → c'.nread ≤ c.nread →
      c'.self.req.hlen = 0 → Loop.Terminates (VirusHandler.readBody E) c ∨
        ∃ c', Loop.Reaches (VirusHandler.readBody E) c c' ∧
          (c'.Ok ∧ ∀ c'', Loop.Reaches (VirusHandler.readBody E) c' c'' → ¬ Stuck E c'') ∧
          c'.nread.toNat < c.nread.toNat := by
    intro c' hr hok hle h0
    rcases readBody_fresh hE hok h0 with ht | ⟨c'', hb, hok', hlt⟩
    · exact .inl (hr.terminates.2 ht)
    · exact hsmall c'' (hr.trans (.step hb (.refl _))) hok' (by omega)
  rcases readBody_step hE h with ⟨b, hb⟩ | ⟨c', hc', hok, hlt | ⟨heq, -, h0 | ⟨hroom, -⟩⟩⟩
  · exact .inl (Loop.terminates_done hb)
  · exact hsmall c' (.step hc' (.refl _)) hok hlt
  · exact hfresh c' (.step hc' (.refl _)) hok heq.le h0
  · -- before a cache with room: the stream is not stuck, so some later `fwrite` takes bytes
    have hr : Loop.Reaches (VirusHandler.readBody E) c c' := .step hc' (.refl _)
    obtain ⟨j, hle, hj⟩ : ∃ j, c'.disk.nfwrite ≤ j ∧ E.fwrite j ≠ some 0 := by
      by_contra hno
      push Not at hno
      exact hs c' hr ⟨hroom, hno⟩
    rcases terminates_of_accepting hE hj hok hroom hle with ht | ⟨c'', hr', hok', hlt | ⟨heq', h0⟩⟩
    · exact .inl (hr.terminates.2 ht)
    · exact hsmall c'' (hr.trans hr') hok' (by omega)
    · exact hfresh c'' (hr.trans hr') hok' (by omega) h0

/-- **A stuck loop runs forever.** -/
theorem Stuck.not_terminates (h : Stuck E c) (hok : c.Ok) :
    ¬ Loop.Terminates (VirusHandler.readBody E) c := by
  refine Loop.not_terminates_of_inv (fun c => c.Ok ∧ Stuck E c) ?_ ⟨hok, h⟩
  rintro c ⟨hok, hst⟩
  obtain ⟨d', hb, hok', hnw⟩ := readBody_refused hok hst.room (hst.refused _ le_rfl)
  refine ⟨_, hb, hok', hst.room, fun i hi => hst.refused i ?_⟩
  have : c.disk.nfwrite + 1 ≤ i := hnw ▸ hi
  omega

/-- The head of the loop stays one. -/
theorem ReadState.Ok.reaches (hE : ∀ i, E.calloc i = true) (h : c.Ok) {c' : ReadState}
    (hr : Loop.Reaches (VirusHandler.readBody E) c c') : c'.Ok := by
  refine hr.inv (fun s s' hs hb => ?_) h
  rcases readBody_step hE hs with ⟨b, hb'⟩ | ⟨s'', hb', hok, -⟩
  · rw [hb'] at hb; cases hb
  · rw [hb'] at hb; cases hb; exact hok

/-- **When the loop of `handle_read` ends.** Exactly when no header is pending with some of
its bytes there, and the loop never comes to a cache with room whose stream refuses every
byte from there on. -/
theorem readLoop_terminates_iff (hE : ∀ i, E.calloc i = true) {h : VirusHandler} {d : Disk}
    (hr : HV.Reach E h.req d) {buf : List UInt8} (h1 : 1 ≤ buf.length) (hb : buf.length ≤ 65535) :
    Loop.Terminates (VirusHandler.readBody E) ⟨h, d, buf, buf.length⟩ ↔
      ¬ (0 < h.req.hlen ∧ h.req.hlen < 8) ∧
        ∀ c, Loop.Reaches (VirusHandler.readBody E) ⟨h, d, buf, buf.length⟩ c → ¬ Stuck E c := by
  have hinv := hr.inv
  have hh8 := hinv.hlen
  have hok : ¬ (0 < h.req.hlen ∧ h.req.hlen < 8) →
      ({ self := h, disk := d, p_buf := buf, nread := buf.length } : ReadState).Ok := by
    intro hcut
    refine ⟨hinv, ?_, le_rfl, ?_, ?_⟩
    · simp only; omega
    · simp only; omega
    · simp only; omega
  constructor
  · -- a cut header is a fault, and a stuck state is never left
    intro ht
    have hcut : ¬ (0 < h.req.hlen ∧ h.req.hlen < 8) := by
      rintro ⟨h0, h8⟩
      exact Loop.not_terminates_fault (readBody_error (write_cut h0 h8 h1 le_rfl)) ht
    refine ⟨hcut, fun c hreach hst => ?_⟩
    exact hst.not_terminates ((hok hcut).reaches hE hreach) (hreach.terminates.1 ht)
  · rintro ⟨hcut, hs⟩
    exact terminates_of_not_stuck hE (hok hcut) hs

/-- A handler that has read nothing. -/
def VirusHandler.fresh : VirusHandler := .new (.new .auto ⟨0, 0⟩) .ok

/-- A new handler that receives the small frame gets to the end of its loop. -/
theorem readLoop_terminates_iff_small :
    Loop.Terminates (VirusHandler.readBody .steady)
        ⟨.fresh, .empty, smallFrame.wire, smallFrame.wire.length⟩ ↔
      ¬ (0 < VirusHandler.fresh.req.hlen ∧ VirusHandler.fresh.req.hlen < 8) ∧
        ∀ c, Loop.Reaches (VirusHandler.readBody .steady)
          ⟨.fresh, .empty, smallFrame.wire, smallFrame.wire.length⟩ c → ¬ Stuck .steady c :=
  readLoop_terminates_iff (fun _ => rfl) (.new .auto ⟨0, 0⟩ .empty) (by decide) (by decide)

/-- Streams that take the byte which gives a file its length, and nothing after it. -/
def LibC.refusing : LibC := { LibC.steady with fwrite := fun i => if i = 0 then none else some 0 }

/-- The header of a frame of two bytes, and the bytes. -/
def twoByteChunk : List UInt8 := [0, 0, 0, 1, 0, 0, 0, 2, 5, 6]

/-- After one iteration the loop stands before the cache of the two bytes. -/
theorem refusing_first :
    (match VirusHandler.readBody .refusing ⟨.fresh, .empty, twoByteChunk, 10⟩ with
      | .again c => c.self.req.hlen == 8 && c.self.req.value.map cacheFull == some false &&
          c.disk.nfwrite == 2
      | _ => false) = true := by
  decide +kernel

/-- With a stream that refuses the value bytes the loop of `handle_read` never ends. -/
theorem refusing_runs_forever :
    (∀ i, LibC.refusing.calloc i = true) ∧ HV.Reach .refusing VirusHandler.fresh.req .empty ∧
      twoByteChunk.length = 10 ∧
      ¬ Loop.Terminates (VirusHandler.readBody .refusing) ⟨.fresh, .empty, twoByteChunk, 10⟩ := by
  refine ⟨fun _ => rfl, .new .auto ⟨0, 0⟩ .empty, rfl, fun ht => ?_⟩
  have hok : ({ self := .fresh, disk := .empty, p_buf := twoByteChunk, nread := 10 } : ReadState).Ok :=
    ⟨.new .auto ⟨0, 0⟩ .empty, by decide, by decide, by decide, .inl rfl⟩
  have h := refusing_first
  split at h
  · rename_i c hc
    simp only [Bool.and_eq_true, beq_iff_eq] at h
    obtain ⟨⟨h8, hroom⟩, hnw⟩ := h
    obtain ⟨v, hv, hfull⟩ := Option.map_eq_some_iff.1 hroom
    have hst : Stuck .refusing c := by
      refine ⟨⟨h8, v, hv, hfull⟩, fun i hi => ?_⟩
      have hi0 : ¬ i = 0 := by omega
      simp [LibC.refusing, hi0]
    have hreach := Loop.Reaches.step hc (.refl _)
    exact hst.not_terminates (hok.reaches (fun _ => rfl) hreach) (hreach.terminates.1 ht)
  · cases h

end DocFerry
