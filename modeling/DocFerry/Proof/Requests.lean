import DocFerry.Lib.Cut
import DocFerry.Proof.HVAt
import DocFerry.Proof.ReadStep

/-!
# A stream of requests

The stream is `wires fs ++ tail`: complete frames, then a proper prefix of the frame
`g`. A handler stands at byte `k` of the first of the frames that are left (`At`).

* `read_chunk`: the loop of `handle_read` moves a handler on by a chunk and answers
  the frames that the chunk completes.
* `KeepsCache` is what the chunk lemma needs of the frames: no value may follow a
  short frame, whose full cache stays behind.
-/

namespace DocFerry

open Bytes

/-- The response tells the client that the request `id` ended in `state`. -/
def HV.Answers (E : LibC) (id : UInt32) (state : State) (r : HV) : Prop :=
  ntohl E.host r.header.id = id ∧ ntohl E.host r.header.length = 4 ∧
    ∃ c, r.value = some c ∧ c.buf = some (storeWord E.host state.code) ∧
      c.priv.ridx = 0 ∧ c.priv.widx = 4

theorem HV.replyTo_answers (E : LibC) (id : UInt32) (state : State) :
    (HV.replyTo E id state true).Answers E id state :=
  ⟨ntohl_htonl _ _, ntohl_htonl _ _, _, rfl, rfl, rfl, rfl⟩

/-- One response for each frame, in order, with its id and state `OK`. -/
def Answered (E : LibC) (resp : List HV) (fs : List Frame) : Prop :=
  List.Forall₂ (fun r f => HV.Answers E f.id .ok r) resp fs

/-- After a frame of less than `DEFAULT_MAX_MEMORY_CACHE` bytes no value byte comes. -/
def KeepsCache (fs : List Frame) (tail : List UInt8) : Prop :=
  ∀ f₁ f f₂, fs = f₁ ++ f :: f₂ → f.len < defaultMaxMemoryCache →
    (∀ f' ∈ f₂, f'.value = []) ∧ tail.length ≤ 8

theorem KeepsCache.suffix {f₁ f₂ : List Frame} {tail : List UInt8} (h : KeepsCache (f₁ ++ f₂) tail) :
    KeepsCache f₂ tail := by
  rintro g₁ f g₂ rfl hf
  exact h (f₁ ++ g₁) f g₂ (by simp) hf

/-- The frame that is being read when `fs` and then `g` are left. -/
def current (fs : List Frame) (g : Frame) : Frame := fs.head?.getD g

@[simp] theorem current_nil (g : Frame) : current [] g = g := rfl

@[simp] theorem current_cons (f : Frame) (fs : List Frame) (g : Frame) : current (f :: fs) g = f := rfl

/-- The handler has read `k` bytes of the current frame. A cache left over from an
earlier frame is harmless: no value byte is still to come. -/
def VirusHandler.At (d : Disk) (tail : List UInt8) (fs : List Frame) (g : Frame) (k : ℕ)
    (h : VirusHandler) : Prop :=
  ∃ stale, h.req.At d stale (current fs g) k ∧
    (stale = true → (∀ f ∈ fs, f.value = []) ∧ tail.length ≤ 8)

variable {E : LibC} {h : VirusHandler} {d : Disk} {tail p : List UInt8} {fs : List Frame} {f g : Frame}
  {k : ℕ}

/-- A frame at which a handler stands is not over, or lacks only the byte behind it. -/
theorem VirusHandler.At.bound (hat : h.At d tail fs g k) :
    k < 8 + (current fs g).value.length ∨ (current fs g).value = [] ∧ k = 8 := by
  obtain ⟨stale, hreq, -⟩ := hat
  rcases hreq.value.bound with hk | hk
  · rcases List.eq_nil_or_concat (current fs g).value with hv | ⟨l, b, hv⟩
    · rcases Nat.lt_or_eq_of_le hk with hk | hk
      · exact .inl (by omega)
      · exact .inr ⟨hv, hk⟩
    · exact .inl (by simp [hv]; omega)
  · exact .inl hk

/-- A cleared request is ready for any frame; the cache of a short frame stays with it. -/
theorem HV.Done.clear_at {s : HV} {stale : Bool} (hs : s.Done d stale f) (f' : Frame) :
    (s.clear d).1.At (s.clear d).2.replied (decide (f.len < defaultMaxMemoryCache)) f' 0 := by
  obtain ⟨c, hv, hc, hfull, -⟩ := hs.value
  have hst := hs.storage
  by_cases hlt : f.len < defaultMaxMemoryCache
  · rw [if_pos hlt] at hst
    rw [clear_mem hst]
    have hc' : FileCache d.replied c := ⟨hc.buf, hc.isOpen, hc.le, hc.small⟩
    refine ⟨rfl, rfl, by simp, by simp, rfl, ?_⟩
    simp only [hv, hlt, decide_true]
    exact .stale hc' hfull (by simp)
  · rw [if_neg hlt] at hst
    rw [clear_file hst]
    refine ⟨rfl, rfl, by simp, by simp, rfl, ?_⟩
    simp only [hlt, decide_false]
    exact .none (by simp)

/-- An empty frame is not complete before a byte behind it has come: `k` bytes have. -/
def Pushed (fs : List Frame) (k : ℕ) : Prop := ∀ fs' f, fs = fs' ++ [f] → f.value = [] → 0 < k

theorem Pushed.nil : Pushed [] k := fun fs' f h => absurd h (by simp)

theorem Pushed.single {f : Frame} (h : f.value = [] → 0 < k) : Pushed [f] k := by
  intro fs' e he hv
  obtain ⟨-, he⟩ := List.append_inj' (show [] ++ [f] = fs' ++ [e] from he) rfl
  obtain rfl := (List.cons.inj he).1
  exact h hv

/-- Of two rows of frames the last one counts, if it is not empty. -/
theorem Pushed.append {f₁ f₂ : List Frame} {k' : ℕ} (h₁ : Pushed f₁ k) (h₂ : Pushed f₂ k')
    (hk : f₂ = [] → k ≤ k') : Pushed (f₁ ++ f₂) k' := by
  intro fs' f hf hv
  rcases List.eq_nil_or_concat' f₂ with rfl | ⟨l, b, rfl⟩
  · rw [List.append_nil] at hf
    exact lt_of_lt_of_le (h₁ fs' f hf hv) (hk rfl)
  · rw [← List.append_assoc] at hf
    obtain ⟨-, hb⟩ := List.append_inj' hf rfl
    obtain rfl := (List.cons.inj hb).1
    exact h₂ l b rfl hv

/-- **A chunk of the stream** is read whole, and the frames it completes are answered. -/
theorem read_chunk (hE : E.Succeeds) (htail : tail <+: g.wire) (hlt : tail.length < g.wire.length)
    (hkeep : KeepsCache fs tail) (hat : h.At d tail fs g k) (hk : k = 0 ∨ 8 ≤ k) (hp : p ≠ [])
    (hint : p.length < 2 ^ 31) (hpre : p <+: (wires fs ++ tail).drop k) :
    ∃ h' d' f₁ f₂ k' as,
      Loop.Returns (VirusHandler.readBody E) ⟨h, d, p, p.length⟩ (h', d') ∧ fs = f₁ ++ f₂ ∧
        (wires f₁).length + k' = k + p.length ∧ h'.At d' tail f₂ g k' ∧
        h'.resp = h.resp ++ as ∧ Answered E as f₁ ∧ Pushed f₁ k' := by
  induction fs generalizing h d p k with
  | nil =>
    obtain ⟨stale, hreq, hst⟩ := hat
    simp only [wires_nil, List.nil_append] at hpre
    have hple : p.length ≤ tail.length - k := by
      have := hpre.length_le; rwa [List.length_drop] at this
    have hpos := List.length_pos_iff.2 hp
    rw [g.length_wire] at hlt
    obtain ⟨m, s', d', hrun, hm, haft⟩ := write_at hE (Y := []) hreq hk hp hint
      (by simpa using hpre.trans (htail.drop k)) (fun hs => .inr (by have := (hst hs).2; omega))
    obtain rfl : m = p.length := by simp only [current_nil] at hm; omega
    rcases haft with ⟨hend, -, -⟩ | ⟨-, hat'⟩
    · simp only [current_nil] at hend; omega
    · -- the chunk ends inside the incomplete frame
      refine ⟨{ h with req := s' }, d', [], [], k + p.length, [], ?_, rfl, by simp, ⟨stale, hat', hst⟩,
        by simp, .nil, .nil⟩
      exact Loop.returns_done (readBody_last (c := ⟨h, d, p, p.length⟩) hrun hat'.not_complete rfl)
  | cons f fs ih =>
    have hbound := hat.bound
    obtain ⟨stale, hreq, hst⟩ := hat
    simp only [current_cons] at hreq hbound
    have hkle : k ≤ f.wire.length := by
      rw [f.length_wire]; rcases hbound with hb | ⟨-, hb⟩ <;> omega
    rw [wires_cons, List.append_assoc, List.drop_append_of_le_length hkle] at hpre
    obtain ⟨m, s', d', hrun, hm, haft⟩ := write_at hE hreq hk hp hint hpre
      (fun hs => .inl ((hst hs).1 f List.mem_cons_self))
    rcases haft with ⟨hend, hmore, hdone⟩ | ⟨hpend, hat'⟩
    · -- the frame is complete: it is answered, and the loop goes on with the next one
      have hbody := readBody_complete (c := ⟨h, d, p, p.length⟩) hE.calloc hrun hdone.isComplete
      have hnext : (h.answered E s' d').At (s'.clear d').2.replied tail fs g 0 :=
        ⟨_, hdone.clear_at _, fun hs => hkeep [] f fs rfl (by simpa using hs)⟩
      have hans : HV.Answers E f.id .ok (HV.replyTo E s'.header.id .ok (E.malloc d'.nmalloc)) := by
        rw [hE.malloc, hdone.header]
        exact HV.replyTo_answers E f.id .ok
      by_cases hm0 : (p.length : ℤ) - m = 0
      · rw [if_pos hm0] at hbody
        -- an empty frame would have left a byte to read
        have hpush : Pushed [f] 0 := .single fun hv => by
          have := hmore hv
          omega
        refine ⟨_, _, [f], fs, 0, [_], Loop.returns_done hbody, rfl, ?_, hnext, rfl, .cons hans .nil, hpush⟩
        simp only [wires_cons, wires_nil, List.append_nil, f.length_wire]
        omega
      · rw [if_neg hm0] at hbody
        have hdrop : (f.wire.drop k).length = m := by rw [List.length_drop, f.length_wire]; omega
        have hpre' : p.drop m <+: wires fs ++ tail := by
          have h1 := hpre.drop m
          rwa [List.drop_left' hdrop] at h1
        have hlen' : ((p.drop m).length : ℤ) = p.length - m := by rw [List.length_drop]; omega
        have hkeep' : KeepsCache ([f] ++ fs) tail := hkeep
        obtain ⟨h'', d'', f₁, f₂, k', as, hret, rfl, hpos, hat'', hresp, has, hpush⟩ :=
          ih hkeep'.suffix hnext (.inl rfl)
            (by intro hnil; have := congrArg List.length hnil; simp at this; omega)
            (by rw [List.length_drop]; omega) hpre'
        have hret' : Loop.Returns (VirusHandler.readBody E) ⟨h, d, p, p.length⟩ (h'', d'') := by
          rw [Loop.returns_again hbody]
          simp only [ReadState.next]
          rwa [hlen'] at hret
        have hpush' : Pushed [f] (k + p.length - f.wire.length) := .single fun _ => by
          rw [f.length_wire]
          omega
        refine ⟨h'', d'', f :: f₁, f₂, k', _ :: as, hret', rfl, ?_, hat'', ?_, .cons hans has,
          hpush'.append hpush fun hf₁ => ?_⟩
        · rw [wires_cons, List.length_append, f.length_wire]
          rw [List.length_drop] at hpos
          omega
        · rw [hresp]
          simp [VirusHandler.answered]
        · rw [hf₁, wires_nil, List.length_drop] at hpos
          rw [f.length_wire]
          simp only [List.length_nil] at hpos
          omega
    · -- the chunk ends inside the frame, or right behind the header of an empty one
      obtain rfl : m = p.length := by rcases hpend with hlt' | ⟨-, hm'⟩ <;> omega
      refine ⟨{ h with req := s' }, d', [], f :: fs, k + p.length, [], ?_, rfl, by simp,
        ⟨stale, hat', hst⟩, by simp, .nil, .nil⟩
      exact Loop.returns_done (readBody_last (c := ⟨h, d, p, p.length⟩) hrun hat'.not_complete rfl)

end DocFerry
