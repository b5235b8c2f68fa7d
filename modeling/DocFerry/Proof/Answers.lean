import DocFerry.Proof.Replies
import DocFerry.Proof.Requests

/-!
# Requests and their answers

`requests_answered_iff`: when a new handler that receives a stream of frames in chunks
answers them all. `Reads` says what the handler makes of the chunks, without sockets and
without a bound on the iterations of its loop.

* `reads_cases`: the chunks are read to the end, or a boundary between two of them lies
  inside a header.
* `handleReads_of_reads`, `reads_of_handleReads`: the calls of `handle_read` in the process do
  what `Reads` says.
-/

namespace DocFerry

open Prog

/-- `handle_read` on one chunk after another, each call coming to its end. -/
inductive Reads (E : LibC) : VirusHandler → Disk → List (List UInt8) → VirusHandler → Disk → Prop
  | nil (h : VirusHandler) (d : Disk) : Reads E h d [] h d
  | cons {h h' h'' : VirusHandler} {d d' d'' : Disk} {p : List UInt8} {ps : List (List UInt8)}
      (hp : Loop.Returns (VirusHandler.readBody E) ⟨h, d, p, p.length⟩ (h', d'))
      (hps : Reads E h' d' ps h'' d'') : Reads E h d (p :: ps) h'' d''

/-- No boundary between two chunks lies inside a header, `k` bytes of the first frame having
been there before. -/
def WholeFrom (k : ℕ) (fs : List Frame) (chunks : List (List UInt8)) : Prop :=
  ∀ ps qs, chunks = ps ++ qs → ps ≠ [] → qs ≠ [] → ∀ f₁ f₂, fs = f₁ ++ f₂ →
    k + ps.flatten.length ≤ (wires f₁).length ∨ (wires f₁).length + 8 ≤ k + ps.flatten.length

/-- No boundary between two chunks lies inside the header of a frame or of the incomplete
frame behind the last one. -/
def HeadersWhole (fs : List Frame) (chunks : List (List UInt8)) : Prop :=
  ∀ ps qs, chunks = ps ++ qs → ps ≠ [] → qs ≠ [] → ∀ f₁ f₂, fs = f₁ ++ f₂ →
    ps.flatten.length ≤ (wires f₁).length ∨ (wires f₁).length + 8 ≤ ps.flatten.length

theorem wholeFrom_zero {fs : List Frame} {chunks : List (List UInt8)} :
    WholeFrom 0 fs chunks ↔ HeadersWhole fs chunks := by
  simp only [WholeFrom, HeadersWhole, zero_add]

variable {E : LibC} {h h' : VirusHandler} {d d' : Disk} {tail p : List UInt8} {fs f₁ f₂ : List Frame}
  {g : Frame} {k k' : ℕ} {ps chunks : List (List UInt8)}

/-! ### Boundaries -/

/-- **The first chunk taken off.** It has brought the handler to byte `k'` of the first of the
frames `f₂`. -/
theorem wholeFrom_cons (hpos : (wires f₁).length + k' = k + p.length)
    (hk' : ∀ f ∈ f₂.head?, k' ≤ f.wire.length) :
    WholeFrom k (f₁ ++ f₂) (p :: ps) ↔ (ps ≠ [] → k' = 0 ∨ 8 ≤ k') ∧ WholeFrom k' f₂ ps := by
  constructor
  · intro hw
    refine ⟨fun hps => ?_, fun qs rs hqs hne hrs a b hab => ?_⟩
    · have := hw [p] ps rfl (by simp) hps f₁ f₂ rfl
      simp only [List.flatten_cons, List.flatten_nil, List.append_nil] at this
      omega
    · have := hw (p :: qs) rs (by rw [hqs]; rfl) (by simp) hrs (f₁ ++ a) b (by rw [hab, List.append_assoc])
      simp only [List.flatten_cons, List.length_append, wires_append] at this
      omega
  · rintro ⟨hfirst, hw⟩ qs rs hqs hne hrs a b hab
    obtain ⟨q, qs, rfl⟩ := List.exists_cons_of_ne_nil hne
    obtain ⟨rfl, rfl⟩ := List.cons.inj hqs
    simp only [List.flatten_cons, List.length_append]
    rcases List.append_eq_append_iff.1 hab with ⟨c, rfl, rfl⟩ | ⟨c, rfl, rfl⟩
    · -- the header is behind the first chunk
      rw [wires_append, List.length_append]
      rcases eq_or_ne qs [] with rfl | hqs'
      · have hk := hfirst (by simpa using hrs)
        cases c with
        | nil =>
          simp only [wires_nil, List.length_nil, List.flatten_nil]
          omega
        | cons f c =>
          have hle := hk' f (by simp)
          simp only [wires_cons, List.length_append, List.flatten_nil, List.length_nil]
          omega
      · have := hw qs rs rfl hqs' hrs c b rfl
        omega
    · -- the header belongs to a frame that the first chunk has completed
      cases c with
      | nil =>
        rcases eq_or_ne qs [] with rfl | hqs'
        · have hk := hfirst (by simpa using hrs)
          simp only [List.append_nil, List.flatten_nil, List.length_nil] at hpos ⊢
          omega
        · have := hw qs rs rfl hqs' hrs [] _ rfl
          simp only [List.append_nil, wires_nil, List.length_nil] at hpos this
          omega
      | cons f c =>
        rw [wires_append, wires_cons, List.length_append, List.length_append, f.length_wire] at hpos
        omega

/-! ### Reading -/

/-- Reading has one outcome. -/
theorem Reads.cons_inv {h₁ : VirusHandler} {d₁ : Disk} (hr : Reads E h d (p :: ps) h' d')
    (hp : Loop.Returns (VirusHandler.readBody E) ⟨h, d, p, p.length⟩ (h₁, d₁)) :
    Reads E h₁ d₁ ps h' d' := by
  cases hr with
  | cons hp' hps =>
    obtain ⟨rfl, rfl⟩ := Prod.mk.inj (hp.unique hp')
    exact hps

theorem Reads.unique {h'' : VirusHandler} {d'' : Disk} (hr : Reads E h d ps h' d')
    (hr' : Reads E h d ps h'' d'') : h' = h'' := by
  induction hr with
  | nil h d =>
    cases hr'
    rfl
  | cons hp _ ih => exact ih (hr'.cons_inv hp)

/-- **A chunk that begins inside a header** is not read. -/
theorem not_reads_cut {q : List UInt8} (hat : h.At d tail fs g k) (h0 : 0 < k) (h8 : k < 8)
    (hq : q ≠ []) : ¬ Reads E h d (q :: ps) h' d' := by
  obtain ⟨stale, hreq, -⟩ := hat
  have hlen : h.req.hlen = k := by rw [hreq.hlen]; omega
  have hpos := List.length_pos_iff.2 hq
  intro hr
  cases hr with
  | cons hp hps =>
    have hw : h.req.write E d (some q) q.length = _ :=
      write_cut (by omega) (by omega) hpos le_rfl
    exact Loop.not_terminates_fault (readBody_error (c := ⟨h, d, q, q.length⟩) hw) ⟨_, hp⟩

/-- What is known when the chunks have been read. -/
structure ReadTo (E : LibC) (tail : List UInt8) (fs : List Frame) (g : Frame) (pos : ℕ) (h h' : VirusHandler)
    (d' : Disk) : Prop where
  split : ∃ f₁ f₂ k as, fs = f₁ ++ f₂ ∧ (wires f₁).length + k = pos ∧ h'.At d' tail f₂ g k ∧
    h'.resp = h.resp ++ as ∧ Answered E as f₁ ∧ Pushed f₁ k

/-- **A row of chunks** is read to the end, and the frames that it completes are answered, or
one of its boundaries lies inside a header. -/
theorem reads_cases (hE : E.Succeeds) (htail : tail <+: g.wire) (hlt : tail.length < g.wire.length)
    (hkeep : KeepsCache fs tail) (hat : h.At d tail fs g k) (hk : k = 0 ∨ 8 ≤ k)
    (hcut : IsCut 65535 ((wires fs ++ tail).drop k) chunks) :
    (WholeFrom k fs chunks ∧ ∃ h' d', Reads E h d chunks h' d' ∧
        ReadTo E tail fs g (k + chunks.flatten.length) h h' d') ∨
      ¬ WholeFrom k fs chunks ∧ ∀ h' d', ¬ Reads E h d chunks h' d' := by
  induction chunks generalizing h d fs k with
  | nil =>
    left
    refine ⟨fun ps qs hps hne => ?_, h, d, .nil h d, ⟨[], fs, k, [], rfl, by simp, hat, by simp, .nil, .nil⟩⟩
    exact absurd (List.append_eq_nil_iff.1 hps.symm).1 hne
  | cons p ps ih =>
    have hp := hcut.head_ne_nil
    have hple := hcut.head_le
    obtain ⟨h₁, d₁, f₁, f₂, k₁, as, hret, rfl, hpos, hat₁, hresp, has, hpush⟩ :=
      read_chunk hE htail hlt hkeep hat hk hp (by omega) hcut.head_prefix
    have hbound : ∀ f ∈ f₂.head?, k₁ ≤ f.wire.length := by
      intro f hf
      have hcur : current f₂ g = f := by
        unfold current
        rw [Option.mem_def.1 hf]
        rfl
      have := hat₁.bound
      rw [hcur] at this
      rw [f.length_wire]
      omega
    rw [wholeFrom_cons hpos hbound]
    by_cases hhead : ps ≠ [] → k₁ = 0 ∨ 8 ≤ k₁
    · rcases eq_or_ne ps [] with rfl | hps
      · -- the last chunk
        left
        refine ⟨⟨hhead, fun qs rs hqs hne => ?_⟩, h₁, d₁, .cons hret (.nil h₁ d₁),
          ⟨f₁, f₂, k₁, as, rfl, ?_, hat₁, hresp, has, hpush⟩⟩
        · exact absurd (List.append_eq_nil_iff.1 hqs.symm).1 hne
        · rw [hpos]
          simp
      · have hdrop : ((wires (f₁ ++ f₂) ++ tail).drop k).drop p.length = (wires f₂ ++ tail).drop k₁ := by
          rw [List.drop_drop, ← hpos, wires_append, List.append_assoc, List.drop_append]
          simp
        have hcut' := hcut.tail
        rw [hdrop] at hcut'
        rcases ih hkeep.suffix hat₁ (hhead hps) hcut' with ⟨hw, h', d', hreads, hto⟩ | ⟨hw, hno⟩
        · left
          obtain ⟨g₁, g₂, k₂, as', rfl, hpos', hat', hresp', has', hpush'⟩ := hto.split
          refine ⟨⟨hhead, hw⟩, h', d', .cons hret hreads,
            ⟨f₁ ++ g₁, g₂, k₂, as ++ as', by rw [List.append_assoc], ?_, hat', ?_,
              List.rel_append has has', hpush.append hpush' fun hg₁ => ?_⟩⟩
          · rw [wires_append, List.length_append, List.flatten_cons, List.length_append]
            omega
          · rw [hresp', hresp, List.append_assoc]
          · rw [hg₁, wires_nil, List.length_nil] at hpos'
            omega
        · right
          exact ⟨fun h => hw h.2, fun h' d' hreads => hno h' d' (hreads.cons_inv hret)⟩
    · -- the next chunk begins inside a header
      right
      refine ⟨fun h => hhead h.1, fun h' d' hreads => ?_⟩
      rw [Classical.not_imp, not_or] at hhead
      obtain ⟨hps, hk0, hk8⟩ := hhead
      have hrest := hreads.cons_inv hret
      obtain ⟨q, qs, rfl⟩ := List.exists_cons_of_ne_nil hps
      exact not_reads_cut hat₁ (by omega) (by omega) (hcut.tail.head_ne_nil) hrest

/-- The last frame has a value, or something follows it. -/
def EndsPushed (fs : List Frame) (tail : List UInt8) : Prop :=
  tail = [] → ∀ f ∈ fs.getLast?, f.value ≠ []

/-- **What is answered at the end of the stream**: every frame, unless the last one is empty
and nothing follows it. -/
theorem ReadTo.answered_iff (hto : ReadTo E tail fs g ((wires fs).length + tail.length) h h' d')
    (hnil : h.resp = []) : Answered E h'.resp fs ↔ EndsPushed fs tail := by
  obtain ⟨f₁, f₂, k, as, rfl, hpos, hat, hresp, has, hpush⟩ := hto.split
  rw [hnil, List.nil_append] at hresp
  rw [hresp]
  rw [wires_append, List.length_append] at hpos
  cases f₂ with
  | nil =>
    -- nothing but the tail is left
    rw [List.append_nil]
    rw [wires_nil, List.length_nil] at hpos
    refine iff_of_true has fun htail f hf hv => ?_
    obtain ⟨l, hl⟩ := List.getLast?_eq_some_iff.1 (Option.mem_def.1 hf)
    have hk := hpush l f hl hv
    rw [htail, List.length_nil] at hpos
    omega
  | cons f f₂ =>
    have hb := hat.bound
    rw [current_cons] at hb
    rw [wires_cons, List.length_append, f.length_wire] at hpos
    rcases hb with hb | ⟨hv, hb⟩
    · omega
    · -- the last frame is empty, and waits for the byte behind it
      rw [hv, List.length_nil] at hpos
      have htail : tail = [] := List.eq_nil_of_length_eq_zero (by omega)
      have hf₂ : f₂ = [] := by
        cases f₂ with
        | nil => rfl
        | cons e f₂ =>
          rw [wires_cons, List.length_append, e.length_wire] at hpos
          omega
      rw [hf₂]
      refine iff_of_false (fun hall => ?_) fun hend => hend htail f (by simp) hv
      have hlen := hall.length_eq
      rw [has.length_eq, List.length_append] at hlen
      simp at hlen

/-! ### In the process -/

/-- `n` calls of `VirusHandler::handle_read`. -/
def VirusHandler.handleReads (E : Env) (this : ℕ) : ℕ → Proc Unit
  | 0 => pure ()
  | n + 1 => do
    VirusHandler.handleRead E this
    VirusHandler.handleReads E this n

/-- From the `n`-th call of `recv` on, the chunks are what is received. -/
def Receives (E : Env) (n : ℕ) (chunks : List (List UInt8)) : Prop :=
  ∀ i p, chunks[i]? = some p → E.recv (n + i) = .data p

/-- `E`, with `n` iterations of the loop of `handle_read` followed. -/
def Env.withFuel (E : Env) (n : ℕ) : Env := { E with fuel := n }

/-- Reading the chunks one after another, the handler queues exactly one response for each
frame, in order, with its id and state `OK`. -/
def AnswersAll (E : Env) (this : ℕ) (w : World) (chunks : List (List UInt8)) (fs : List Frame) : Prop :=
  ∃ n, ∀ fuel, n ≤ fuel → ∃ w', VirusHandler.handleReads (E.withFuel fuel) this chunks.length w = .ok ⟨⟩ w' ∧
    Answered E.toLibC (w'.objs this).virus.resp fs

section Process

variable {E : Env} {w w' : World} {this : ℕ}

theorem Receives.rest {n : ℕ} (hr : Receives E n (p :: ps)) : Receives E (n + 1) ps := by
  intro i q hq
  rw [Nat.add_assoc, Nat.add_comm 1]
  exact hr (i + 1) q (by rw [List.getElem?_cons_succ]; exact hq)

/-- What a call of `handle_read` leaves as it was, and what not. -/
theorem readBy_eq (virus : VirusHandler) (d : Disk) (ha : w.dead this = false)
    (ho : w.descs (w.objs this).sock ≠ none) :
    ((w.readBy this virus d).objs this).virus = virus ∧ (w.readBy this virus d).disk = d ∧
      (w.readBy this virus d).nrecv = w.nrecv + 1 ∧ (w.readBy this virus d).dead this = false ∧
      (w.readBy this virus d).descs ((w.readBy this virus d).objs this).sock ≠ none := by
  rw [World.readBy_self]
  exact ⟨rfl, rfl, rfl, ha, ho⟩

/-- **The calls of `handle_read` do what `Reads` says**, with enough iterations followed. -/
theorem handleReads_of_reads (this : ℕ) {h h' : VirusHandler} (hr : Reads E.toLibC h d ps h' d')
    (hps : ∀ p ∈ ps, p ≠ [] ∧ p.length ≤ 65535) :
    ∃ n, ∀ fuel, n ≤ fuel → ∀ w : World, (w.objs this).virus = h → w.disk = d →
      w.dead this = false → w.descs (w.objs this).sock ≠ none → Receives E w.nrecv ps →
        ∃ w', VirusHandler.handleReads (E.withFuel fuel) this ps.length w = .ok ⟨⟩ w' ∧
          (w'.objs this).virus = h' := by
  induction hr with
  | nil h d => exact ⟨0, fun _ _ w hw _ _ _ _ => ⟨w, rfl, hw⟩⟩
  | @cons h h₁ h₂ d d₁ d₂ p ps hp _ ih =>
    obtain ⟨n, hn⟩ := hp
    obtain ⟨n', hn'⟩ := ih fun q hq => hps q (List.mem_cons_of_mem _ hq)
    refine ⟨n + n', fun fuel hfuel w hw hd ha ho hrecv => ?_⟩
    obtain ⟨hne, hle⟩ := hps p List.mem_cons_self
    have hdata : (E.withFuel fuel).recv w.nrecv = .data p := hrecv 0 p rfl
    -- more iterations than the chunk needs give the same
    have hloop : VirusHandler.readLoop (E.withFuel fuel).toLibC (E.withFuel fuel).fuel (w.objs this).virus
        w.disk (p.take 65535) = .ok (h₁, d₁) := by
      obtain ⟨k, rfl⟩ := Nat.exists_eq_add_of_le (Nat.le_of_add_right_le hfuel)
      have hrun := Loop.run_mono (k := k) hn
      unfold VirusHandler.readLoop
      rw [List.take_of_length_le hle, hw, hd]
      change (Loop.run (VirusHandler.readBody E.toLibC) (n + k) ⟨h, d, p, p.length⟩).getD _ = _
      rw [hrun]
      rfl
    have hread : VirusHandler.handleRead (E.withFuel fuel) this w = .ok ⟨⟩ (w.readBy this h₁ d₁) := by
      rw [virusRead_run ha ho hdata hne, hloop]
    obtain ⟨hv, hd', hnr, ha', ho'⟩ := readBy_eq h₁ d₁ ha ho
    obtain ⟨w', hrest, hw'⟩ := hn' fuel (Nat.le_of_add_left_le hfuel) _ hv hd' ha' ho'
      (by rw [hnr]; exact hrecv.rest)
    refine ⟨w', ?_, hw'⟩
    rw [List.length_cons, VirusHandler.handleReads, bind_of_ok hread]
    exact hrest

/-- Calls of `handle_read` that come to their end have read the chunks. -/
theorem reads_of_handleReads (hps : ∀ p ∈ ps, p ≠ [] ∧ p.length ≤ 65535) (ha : w.dead this = false)
    (ho : w.descs (w.objs this).sock ≠ none) (hrecv : Receives E w.nrecv ps)
    (hrun : VirusHandler.handleReads E this ps.length w = .ok ⟨⟩ w') :
    ∃ d', Reads E.toLibC (w.objs this).virus w.disk ps (w'.objs this).virus d' := by
  induction ps generalizing w with
  | nil =>
    cases hrun
    exact ⟨_, .nil _ _⟩
  | cons p ps ih =>
    obtain ⟨hne, hle⟩ := hps p List.mem_cons_self
    rw [List.length_cons, VirusHandler.handleReads, bind_eq_ok] at hrun
    obtain ⟨⟨⟩, w₁, hread, hrest⟩ := hrun
    -- one call reads the first chunk
    rw [virusRead_run ha ho (hrecv 0 p rfl) hne, List.take_of_length_le hle] at hread
    cases hl : VirusHandler.readLoop E.toLibC E.fuel (w.objs this).virus w.disk p with
    | error f =>
      rw [hl] at hread
      cases hread
    | ok r =>
      obtain ⟨virus, d⟩ := r
      rw [hl] at hread
      cases hread
      obtain ⟨hv, hd', hnr, ha', ho'⟩ := readBy_eq virus d ha ho
      obtain ⟨d', hreads⟩ := ih (fun q hq => hps q (List.mem_cons_of_mem _ hq)) ha' ho'
        (by rw [hnr]; exact hrecv.rest) hrest
      rw [hv, hd'] at hreads
      exact ⟨d', .cons ⟨E.fuel, readLoop_ok hl⟩ hreads⟩

/-- **In the process and out of it** the chunks are read alike. -/
theorem answersAll_iff (hps : ∀ p ∈ ps, p ≠ [] ∧ p.length ≤ 65535) (ha : w.dead this = false)
    (ho : w.descs (w.objs this).sock ≠ none) (hrecv : Receives E w.nrecv ps) :
    AnswersAll E this w ps fs ↔ ∃ h' d', Reads E.toLibC (w.objs this).virus w.disk ps h' d' ∧
      Answered E.toLibC h'.resp fs := by
  constructor
  · rintro ⟨n, hn⟩
    obtain ⟨w', hrun, hans⟩ := hn n le_rfl
    obtain ⟨d', hreads⟩ := reads_of_handleReads (E := E.withFuel n) hps ha ho hrecv hrun
    exact ⟨_, d', hreads, hans⟩
  · rintro ⟨h', d', hreads, hans⟩
    obtain ⟨n, hn⟩ := handleReads_of_reads this hreads hps
    refine ⟨n, fun fuel hfuel => ?_⟩
    obtain ⟨w', hrun, hw'⟩ := hn fuel hfuel w rfl rfl ha ho hrecv
    exact ⟨w', hrun, by rw [hw']; exact hans⟩

/-- **A new handler answers a stream of frames**, whatever the chunks it comes in, if and only
if no boundary between two chunks lies inside a header and the last frame has a value or
something follows it. Of the frames it is assumed that no value byte comes after a frame
of less than `DEFAULT_MAX_MEMORY_CACHE` bytes. -/
theorem requests_answered_iff (hE : E.toLibC.Succeeds) {st : StorageTo} {head : Header} {state : State}
    (hnew : (w.objs this).virus = .new (.new st head) state) (ha : w.dead this = false)
    (ho : w.descs (w.objs this).sock ≠ none) (htail : Incomplete tail)
    (hcut : IsCut 65535 (wires fs ++ tail) chunks) (hrecv : Receives E w.nrecv chunks)
    (hkeep : KeepsCache fs tail) :
    AnswersAll E this w chunks fs ↔ HeadersWhole fs chunks ∧ EndsPushed fs tail := by
  obtain ⟨g, hpre, hne⟩ := htail
  have hlt : tail.length < g.wire.length :=
    lt_of_le_of_ne hpre.length_le fun hlen => hne (hpre.eq_of_length hlen)
  have hat : (w.objs this).virus.At w.disk tail fs g 0 := by
    refine ⟨false, ?_, fun h => by cases h⟩
    rw [hnew]
    exact .new st head w.disk _
  have hresp : (w.objs this).virus.resp = [] := by rw [hnew]; rfl
  rw [answersAll_iff (fun p hp => ⟨hcut.ne_nil p hp, hcut.le p hp⟩) ha ho hrecv, ← wholeFrom_zero]
  rcases reads_cases hE hpre hlt hkeep hat (.inl rfl) hcut with ⟨hw, h', d', hreads, hto⟩ | ⟨hw, hno⟩
  · -- every header comes whole: the chunks are read, and only the last frame is in question
    rw [hcut.flatten, zero_add, List.length_append] at hto
    constructor
    · rintro ⟨h'', d'', hreads', hans⟩
      refine ⟨hw, (hto.answered_iff hresp).1 ?_⟩
      rw [hreads.unique hreads']
      exact hans
    · rintro ⟨-, hend⟩
      exact ⟨h', d', hreads, (hto.answered_iff hresp).2 hend⟩
  · -- a header is cut: no run of the calls comes to its end
    refine iff_of_false ?_ fun h => hw h.1
    rintro ⟨h', d', hreads, -⟩
    exact hno h' d' hreads

end Process

theorem receives_pair {E : Env} {p q : List UInt8} (h : ∀ i, E.recv i = .data (if i = 0 then p else q)) :
    Receives E 0 [p, q] := by
  intro i r hr
  rw [Nat.zero_add, h]
  match i with
  | 0 => cases hr; rfl
  | 1 => cases hr; rfl
  | i + 2 => simp at hr

/-- A system from which each `recv` gets the same bytes. -/
def Env.receiving (bs : ℕ → List UInt8) : Env := { Env.steady with recv := fun i => .data (bs i) }

/-- A frame of one value byte, its header in one chunk, its value and three bytes of the next
header in another. -/
theorem requests_answered_iff_small :
    AnswersAll (.receiving fun i => if i = 0 then smallFrame.head else [5, 0, 0, 0]) 0 (.client [])
        [smallFrame.head, [5, 0, 0, 0]] [smallFrame] ↔
      HeadersWhole [smallFrame] [smallFrame.head, [5, 0, 0, 0]] ∧
        EndsPushed [smallFrame] [0, 0, 0] := by
  refine requests_answered_iff (w := .client []) LibC.steady_succeeds rfl rfl (by simp [World.client])
    ⟨smallFrame, by decide, by decide⟩ ⟨by decide, by decide, by decide⟩ (receives_pair fun _ => rfl) ?_
  intro f₁ f f₂ hfs _
  cases f₁ with
  | nil =>
    obtain ⟨-, rfl⟩ := List.cons.inj hfs
    exact ⟨by simp, by decide⟩
  | cons g f₁ => simp at hfs

/-- An empty frame with nothing behind it is not answered. -/
theorem empty_frame_unanswered :
    IsCut 65535 (wires [emptyFrame] ++ []) [emptyFrame.wire] ∧
      Receives (.receiving fun _ => emptyFrame.wire) 0 [emptyFrame.wire] ∧
      ¬ AnswersAll (.receiving fun _ => emptyFrame.wire) 0 (.client []) [emptyFrame.wire] [emptyFrame] := by
  have hrecv : Receives (.receiving fun _ => emptyFrame.wire) 0 [emptyFrame.wire] := by
    intro i p hp
    match i with
    | 0 => cases hp; rfl
    | i + 1 => simp at hp
  refine ⟨⟨by decide, by decide, by decide⟩, hrecv, fun hans => ?_⟩
  obtain ⟨h', d', hreads, hall⟩ :=
    (answersAll_iff (w := .client []) (by decide) rfl (by simp [World.client]) hrecv).1 hans
  -- one iteration, in which all eight bytes are taken and nothing is complete
  have hrun : (match VirusHandler.readLoop LibC.steady 1 (.new (.new .auto ⟨0, 0⟩) .ok) .empty
      emptyFrame.wire with
    | .ok r => r.1.resp.isEmpty
    | .error _ => false) = true := by decide +kernel
  cases hl : VirusHandler.readLoop LibC.steady 1 (.new (.new .auto ⟨0, 0⟩) .ok) .empty emptyFrame.wire with
  | error f =>
    rw [hl] at hrun
    cases hrun
  | ok r =>
    rw [hl] at hrun
    have hreads' : Reads LibC.steady (.new (.new .auto ⟨0, 0⟩) .ok) .empty [emptyFrame.wire] r.1 r.2 :=
      .cons ⟨1, readLoop_ok hl⟩ (.nil _ _)
    obtain rfl : r.1 = h' := hreads'.unique hreads
    have hnil : r.1.resp = [] := List.isEmpty_iff.1 hrun
    rw [hnil] at hall
    cases hall

end DocFerry
