import DocFerry.Proof.Replies
import DocFerry.Proof.Streams

/-!
# The streams of a request

* `Disk.Balanced`: every stream that is not open any more was closed once.
* `Disk.Shares`: the open streams are those of others and that of the request;
  `Disk.Shares.write` and `Disk.Shares.clear` are its steps.
* `HV.Partial`: the request is in the middle of a value at most.
* `readLoop_settled`: the loop of `handle_read` keeps both, as long as the frames that it completes
  have at least `DEFAULT_MAX_MEMORY_CACHE` bytes.
-/

namespace DocFerry

open Bytes

/-- Every stream was closed once, or is open and was not. -/
structure Disk.Balanced (d : Disk) : Prop where
  closed : ∀ fp, fp < d.nstream → d.nclose fp = if d.streams fp = none then 1 else 0
  fresh : ∀ fp, d.nstream ≤ fp → d.streams fp = none ∧ d.nclose fp = 0

/-- The request has a cache for its value, whose stream is `fp`. -/
def HV.Holds (s : HV) (fp : ℕ) : Prop := ∃ c, s.value = some c ∧ c.priv.wfp = some fp

/-- The open streams are those in `O` and that of the request `s`. -/
structure Disk.Shares (d : Disk) (O : Set ℕ) (s : HV) : Prop where
  balanced : d.Balanced
  isOpen : ∀ fp, d.streams fp ≠ none ↔ fp ∈ O ∨ s.Holds fp
  apart : ∀ fp ∈ O, ¬ s.Holds fp

variable {E : LibC} {s s' : HV} {d d' : Disk} {O : Set ℕ} {r : ℤ}

/-! ### Streams that are opened and closed -/

theorem Disk.Balanced.lt (h : d.Balanced) {fp : ℕ} (hs : d.streams fp ≠ none) : fp < d.nstream := by
  by_contra hlt
  exact hs (h.fresh fp (by omega)).1

theorem Disk.Balanced.same (h : d.Balanced) (hn : d'.nstream = d.nstream) (hc : d'.nclose = d.nclose)
    (hs : ∀ fp, d'.streams fp = none ↔ d.streams fp = none) : d'.Balanced := by
  refine ⟨fun fp hfp => ?_, fun fp hfp => ?_⟩
  · rw [hn] at hfp
    simp only [hc, hs, h.closed fp hfp]
  · rw [hn] at hfp
    rw [hc, hs]
    exact h.fresh fp hfp

theorem Disk.SameStreams.balanced (hd : d.SameStreams d') (h : d.Balanced) : d'.Balanced :=
  h.same hd.nstream hd.nclose hd.closed

theorem Disk.Opens.balanced (hd : d.Opens d') (h : d.Balanced) : d'.Balanced := by
  refine ⟨fun fp hfp => ?_, fun fp hfp => ?_⟩
  · rw [hd.nstream] at hfp
    rw [hd.nclose]
    rcases Nat.lt_succ_iff_lt_or_eq.1 hfp with hlt | rfl
    · simp only [h.closed fp hlt, hd.closed]
      have hne : fp ≠ d.nstream := by omega
      simp only [hne, ne_eq, not_false_eq_true, true_and]
    · rw [(h.fresh _ le_rfl).2, if_neg fun hno => ((hd.closed _).1 hno).1 rfl]
  · rw [hd.nstream] at hfp
    obtain ⟨hnone, hzero⟩ := h.fresh fp (by omega)
    rw [hd.nclose]
    exact ⟨(hd.closed fp).2 ⟨by omega, hnone⟩, hzero⟩

/-- An open stream is closed for the first time. -/
theorem Disk.Balanced.fclose (h : d.Balanced) {fp : ℕ} (hs : d.streams fp ≠ none) :
    (fclose d fp).Balanced := by
  have hlt := h.lt hs
  refine ⟨fun k hk => ?_, fun k hk => ?_⟩
  · rcases eq_or_ne k fp with rfl | hne
    · have hzero := h.closed k hlt
      rw [if_neg hs] at hzero
      simp [DocFerry.fclose, hzero]
    · simpa [DocFerry.fclose, hne] using h.closed k hk
  · have hk' : d.nstream ≤ k := hk
    have hne : k ≠ fp := by omega
    simpa [DocFerry.fclose, hne] using h.fresh k hk'

theorem Disk.Restored.balanced (hd : d.Restored d') (h : d.Balanced) :
    d'.Balanced ∧ ∀ fp, d'.streams fp = none ↔ d.streams fp = none := by
  cases hd with
  | same hs hn hc => exact ⟨h.same hn hc fun fp => by rw [hs], fun fp => by rw [hs]⟩
  | @closed d₁ ho =>
    have hopen : d₁.streams d.nstream ≠ none := fun hno => ((ho.closed _).1 hno).1 rfl
    refine ⟨(ho.balanced h).fclose hopen, fun fp => ?_⟩
    rcases eq_or_ne fp d.nstream with rfl | hne
    · simp [fclose, (h.fresh _ le_rfl).1]
    · have := ho.closed fp
      simp only [fclose, Function.update_of_ne hne, this, ne_eq, hne, not_false_eq_true, true_and]

/-! ### One call -/

theorem Disk.Shares.congr (h : d.Shares O s) (hv : ∀ fp, s'.Holds fp ↔ s.Holds fp) (hb : d'.Balanced)
    (hs : ∀ fp, d'.streams fp = none ↔ d.streams fp = none) : d'.Shares O s' := by
  refine ⟨hb, fun fp => ?_, fun fp hfp => ?_⟩
  · rw [hv, ← h.isOpen fp, Ne, hs]
  · rw [hv]
    exact h.apart fp hfp

theorem holds_none (hv : s.value = none) (fp : ℕ) : ¬ s.Holds fp := by
  rintro ⟨c, hc, -⟩
  rw [hv] at hc
  cases hc

/-- The request holds one stream. -/
theorem holds_iff {c : Cache} {fp k : ℕ} (hv : s.value = some c) (hw : c.priv.wfp = some fp) :
    s.Holds k ↔ k = fp := by
  constructor
  · rintro ⟨c', hc', hw'⟩
    rw [hv] at hc'
    obtain rfl := Option.some.inj hc'
    rw [hw] at hw'
    exact (Option.some.inj hw').symm
  · rintro rfl
    exact ⟨c, hv, hw⟩

theorem Disk.Shares.same (h : d.Shares O s) (hd : d.SameStreams d') : d'.Shares O s :=
  h.congr (fun _ => Iff.rfl) (hd.balanced h.balanced) hd.closed

/-- **A call of `write`** adds the stream of a new cache to those of the request. -/
theorem Disk.Shares.write (h : d.Shares O s) (hst : HV.Streams E s d r s' d') : d'.Shares O s' := by
  cases hst with
  | kept hv hd =>
    refine h.congr (fun fp => ?_) (hd.balanced h.balanced) hd.closed
    have hmap : ∀ t : HV, t.Holds fp ↔ (t.value.map fun c => c.priv.wfp) = some (some fp) := by
      intro t
      simp only [HV.Holds, Option.map_eq_some_iff]
    rw [hmap, hmap, hv]
  | @made r s' d' c hv ho hc hw hd =>
    have hholds : ∀ fp, s'.Holds fp ↔ fp = d.nstream := fun fp => holds_iff hc hw
    refine ⟨hd.balanced h.balanced, fun fp => ?_, fun fp hfp hin => ?_⟩
    · have hold := h.isOpen fp
      rw [hholds, Ne, hd.closed]
      rcases eq_or_ne fp d.nstream with rfl | hne
      · simp
      · simp only [ne_eq, hne, not_false_eq_true, true_and, or_false]
        rw [← ne_eq, hold, or_iff_left (holds_none hv fp)]
    · -- the streams of the others were there before
      obtain rfl := (hholds fp).1 hin
      exact absurd (h.balanced.lt ((h.isOpen _).2 (.inl hfp))) (lt_irrefl _)
  | lost hv hv' hd =>
    obtain ⟨hb, hs⟩ := hd.balanced h.balanced
    exact h.congr (fun fp => iff_of_false (holds_none hv' fp) (holds_none hv fp)) hb hs

/-- **`clear`** closes the stream of the request, or leaves it there. -/
theorem Disk.Shares.clear (h : d.Shares O s) : (s.clear d).2.Shares O (s.clear d).1 := by
  unfold HV.clear
  dsimp only
  split
  · cases hv : s.value with
    | none => exact h.congr (fun fp => by simp only [HV.Holds, hv]) h.balanced fun _ => Iff.rfl
    | some c =>
      cases hw : c.priv.wfp with
      | none =>
        simp only [leaveCache, hw]
        refine h.congr (fun fp => iff_of_false (holds_none rfl fp) ?_) h.balanced fun _ => Iff.rfl
        rintro ⟨c', hc', hw'⟩
        rw [hv] at hc'
        obtain rfl := Option.some.inj hc'
        rw [hw] at hw'
        cases hw'
      | some fp =>
        simp only [leaveCache, hw]
        -- the stream that is closed is the request's own, and nobody else's
        have honly : ∀ k, s.Holds k ↔ k = fp := fun k => holds_iff hv hw
        have hown := (honly fp).2 rfl
        refine ⟨h.balanced.fclose ((h.isOpen fp).2 (.inr hown)), fun k => ?_, fun k _ => holds_none rfl k⟩
        rw [or_iff_left (holds_none rfl k)]
        rcases eq_or_ne k fp with rfl | hne
        · exact iff_of_false (by simp [fclose]) fun hO => h.apart k hO hown
        · have hk := h.isOpen k
          rw [honly, or_iff_left hne] at hk
          simpa [fclose, hne] using hk
  · exact h.congr (fun fp => Iff.rfl) h.balanced fun _ => Iff.rfl

/-! ### The frames that bytes complete -/

/-- From a header on, the bytes complete no frame of less than `DEFAULT_MAX_MEMORY_CACHE` bytes; an
empty frame is complete with the byte behind it. -/
inductive LongFrames : List UInt8 → Prop
  | header {bs : List UInt8} (h : bs.length < 8) : LongFrames bs
  | value {bs : List UInt8} (h : 8 ≤ bs.length)
      (hv : bs.length - 8 < max (headOf (bs.take 8)).length.toNat 1) : LongFrames bs
  | frame {bs : List UInt8} (h : 8 ≤ bs.length) (hl : ¬ (headOf (bs.take 8)).length < defaultMaxMemoryCache)
      (hrest : LongFrames ((bs.drop 8).drop (headOf (bs.take 8)).length.toNat)) : LongFrames bs

/-- How many value bytes the current frame lacks. -/
def HV.missing (s : HV) : ℕ :=
  match s.value with
  | some c => c.priv.capacity - c.priv.widx
  | none => s.header.length.toNat

/-- The same from the middle of the frame on that the request has begun. -/
def HV.CompletesLong (s : HV) (bs : List UInt8) : Prop :=
  if s.hlen = 8 then
    bs.length < max s.missing 1 ∨
      ¬ s.header.length < defaultMaxMemoryCache ∧ LongFrames (bs.drop s.missing)
  else LongFrames bs

/-- A request that has no value, or is in the middle of the one that its header announces. -/
structure HV.Partial (d : Disk) (s : HV) : Prop where
  inv : s.Inv d
  value : s.value ≠ none → s.hlen = 8
  own : ∀ c, s.value = some c → c.priv.capacity = s.header.length.toNat
  pending : s.valueComplete = false

variable {data : List UInt8} {n : ℕ}

/-- Before its header is whole a request has no value. -/
theorem HV.Partial.noValue (hs : s.Partial d) (h0 : s.hlen = 0) : s.value = none := by
  by_contra hv
  have := hs.value hv
  omega

/-- A request without a value and its end is in the middle of none. -/
theorem HV.Inv.atRest (hi : s.Inv d) (hv : s.value = none) (hp : s.valueComplete = false) : s.Partial d := by
  refine ⟨hi, fun hv' => absurd hv hv', fun c hc => ?_, hp⟩
  rw [hv] at hc
  cases hc

/-- The header taken off. -/
theorem Begun.midway {off : ℕ} {s₁ : HV} (hs : s.Partial d) (hb : Begun s data n off s₁) : s₁.Partial d := by
  have hinv := hb.inv hs.inv
  cases hb with
  | body _ => exact hs
  | head h0 _ => exact hinv.atRest (hs.noValue h0) hs.pending

theorem Begun.completesLong {off : ℕ} {s₁ : HV} (hs : s.Partial d) (hb : Begun s data data.length off s₁)
    (hl : s.CompletesLong data) : s₁.CompletesLong (data.drop off) := by
  cases hb with
  | body h8 => simpa using hl
  | head h0 h8 =>
    unfold HV.CompletesLong at hl
    rw [if_neg (by omega)] at hl
    have hm : (s.headed (headOf (data.take 8))).missing = (headOf (data.take 8)).length.toNat := by
      simp only [HV.missing, HV.headed, hs.noValue h0]
    unfold HV.CompletesLong
    rw [if_pos (show (s.headed (headOf (data.take 8))).hlen = 8 from rfl), hm, List.length_drop]
    cases hl with
    | header h => omega
    | value _ hv => exact .inl hv
    | frame _ hlong hrest => exact .inr ⟨hlong, hrest⟩

/-- The value bytes that a call has taken are no longer missing. -/
theorem HV.CompletesLong.push {s₁ : HV} {c : Cache} {k : ℕ} (hl : s₁.CompletesLong data)
    (h8 : s₁.hlen = 8) (hne : data ≠ []) (hm : s₁.missing = c.priv.capacity - c.priv.widx)
    (hk : k ≤ c.priv.capacity - c.priv.widx) (hkd : k ≤ data.length) :
    (cacheFull (c.grow k) = false → (s₁.filled (c.grow k)).CompletesLong (data.drop k)) ∧
      (cacheFull (c.grow k) = true → c.priv.widx ≤ c.priv.capacity →
        ¬ s₁.header.length < defaultMaxMemoryCache ∧ LongFrames (data.drop k)) := by
  have hpos := List.length_pos_iff.2 hne
  unfold HV.CompletesLong at hl
  rw [if_pos h8] at hl
  constructor
  · intro hfull
    -- what a push takes is missing no more
    have hm' : (s₁.filled (c.grow k)).missing = s₁.missing - k := by
      rw [hm]
      simp only [HV.missing, HV.filled, Cache.grow_capacity, Cache.grow_widx]
      omega
    unfold HV.CompletesLong
    rw [if_pos (show (s₁.filled (c.grow k)).hlen = 8 from h8), hm', List.length_drop, List.drop_drop,
      show k + (s₁.missing - k) = s₁.missing by omega]
    refine hl.imp (fun hlt => ?_) id
    have hroom : c.priv.widx + k ≠ c.priv.capacity := by simpa [cacheFull] using hfull
    omega
  · intro hfull hle
    have hall : c.priv.widx + k = c.priv.capacity := by simpa [cacheFull] using hfull
    obtain ⟨hlong, hrest⟩ := hl.resolve_left (by omega)
    rw [show s₁.missing = k by omega] at hrest
    exact ⟨hlong, hrest⟩

/-- What a call of `write` on `data` leaves, by its result: no cache, a frame that is not complete,
or one that is, and goes to a file. -/
inductive HV.Result (data : List UInt8) (s : HV) (d : Disk) : ℤ → Prop
  | noCache (hv : s.value = none) : HV.Result data s d (-1)
  | pending {k : ℕ} (hk : k ≤ data.length) (hs : s.isComplete = false) (hp : s.Partial d)
      (hl : k < data.length → s.CompletesLong (data.drop k)) : HV.Result data s d k
  | complete {k : ℕ} (hk : k ≤ data.length) (hs : s.isComplete = true) (hf : s.storage = .file)
      (hl : LongFrames (data.drop k)) : HV.Result data s d k

/-- A push leaves the frame with room in its cache, or complete. -/
theorem Begun.result {off k : ℕ} {s₁ : HV} {c : Cache} {d₀ : Disk} (hs : s.Partial d)
    (hl : s.CompletesLong data) (hb : Begun s data data.length off s₁) (hn : off < data.length)
    (hc : s₁.value = some c ∧ d₀ = d ∨
      s₁.value = none ∧ c.priv.capacity = s₁.header.length.toNat ∧ c.priv.widx = 0)
    (hf : FileCache d₀ c) (hk : k ≤ min (c.priv.capacity - c.priv.widx) (data.length - off))
    (hinv : (s₁.filled (c.grow k)).Inv d') :
    (s₁.filled (c.grow k)).Result data d' ((off + k : ℕ) : ℤ) := by
  have hs₁ := hb.midway hs
  have hle := hf.le
  -- the cache, old or new, has the room that the frame is missing
  have hm : s₁.missing = c.priv.capacity - c.priv.widx := by
    unfold HV.missing
    rcases hc with ⟨hv, -⟩ | ⟨hv, hcap, hw0⟩
    · rw [hv]
    · rw [hv, hcap, hw0, Nat.sub_zero]
  have hown : c.priv.capacity = s₁.header.length.toNat := by
    rcases hc with ⟨hv, -⟩ | ⟨-, hcap, -⟩
    · exact hs₁.own c hv
    · exact hcap
  have hhead : s₁.headComplete = true := by rw [hs₁.inv.head, hb.hlen]; rfl
  have hdne : data.drop off ≠ [] := List.ne_nil_of_length_pos (by rw [List.length_drop]; omega)
  obtain ⟨hroom, hfull⟩ := (hb.completesLong hs hl).push hb.hlen hdne hm (k := k) (by omega)
    (by rw [List.length_drop]; omega)
  rw [List.drop_drop] at hroom hfull
  -- a pushed frame is complete if and only if its cache is full
  have hcomp : (s₁.filled (c.grow k)).isComplete = cacheFull (c.grow k) := by
    simp only [HV.isComplete, HV.filled, hhead, hs₁.pending, Bool.true_and, Bool.false_or]
  cases hcf : cacheFull (c.grow k) with
  | false =>
    rw [hcf] at hcomp
    refine .pending (by omega) hcomp ⟨hinv, fun _ => hb.hlen, fun c' hc' => ?_, ?_⟩ fun _ => hroom hcf
    · obtain rfl : c.grow k = c' := Option.some.inj hc'
      rw [Cache.grow_capacity]
      exact hown
    · simp only [HV.filled, hs₁.pending, hcf, Bool.or_self]
  | true =>
    rw [hcf] at hcomp
    obtain ⟨hlong, hrest⟩ := hfull hcf hle
    have hst := hs₁.inv.storage hb.hlen
    rw [if_neg hlong] at hst
    exact .complete (by omega) hcomp hst hrest

/-- **What a call of `write` leaves.** -/
theorem Wrote.result (hs : s.Partial d) (hl : s.CompletesLong data)
    (hw : Wrote E s d data data.length (.ok (r, s', d'))) : s'.Inv d' ∧ s'.Result data d' r := by
  have hinv := hw.inv hs.inv
  refine ⟨hinv, ?_⟩
  cases hw with
  | short h0 h8 =>
    refine .pending le_rfl ?_ (hinv.atRest (hs.noValue h0) hs.pending) fun hlt => absurd hlt (lt_irrefl _)
    simp [HV.isComplete, HV.patched, hs.pending]
  | head h0 h8 =>
    refine .pending (k := 8) h8.ge ?_ (hinv.atRest (hs.noValue h0) hs.pending) fun hlt => by omega
    simp [HV.isComplete, HV.headed, hs.pending]
  | noCache _ _ hv => exact .noCache hv
  | @push off k s₁ c d₀ d' hb hn hc hf hk hf' hw =>
    exact hb.result hs hl hn hc hf (hk ▸ E.taken_le d₀ _) hinv

/-! ### The loop -/

/-- Every response of the handler can be sent, and has no stream. -/
def VirusHandler.Plain (h : VirusHandler) : Prop :=
  ∀ r ∈ h.resp, r.Sendable ∧ ∀ c, r.value = some c → c.priv.wfp = none

theorem VirusHandler.Plain.reply {h h' : VirusHandler} {id : UInt32} {state : State} {filled : Bool}
    (h₀ : h.Plain) (hr : h'.resp = h.resp ++ [HV.replyTo E id state filled]) : h'.Plain := by
  intro r hin
  rw [hr] at hin
  rcases List.mem_append.1 hin with hin | hin
  · exact h₀ r hin
  · obtain rfl := List.mem_singleton.1 hin
    refine ⟨replyTo_sendable _ _ _ _, fun c hc => ?_⟩
    cases filled with
    | true => cases hc; rfl
    | false => cases hc

/-- **Making a response** touches neither the request nor a stream. -/
theorem response_streams {h h' : VirusHandler} {state : State}
    (hr : h.response E d state = .ok (h', d')) :
    h'.req = h.req ∧ d.SameStreams d' ∧ (h.Plain → h'.Plain) := by
  rcases response_cases hr with ⟨rfl, rfl⟩ | ⟨-, rfl, rfl⟩
  · exact ⟨rfl, ⟨rfl, rfl, rfl, fun _ => Iff.rfl⟩, fun hp => hp.reply rfl⟩
  · exact ⟨rfl, ⟨rfl, rfl, rfl, fun _ => Iff.rfl⟩, fun hp => hp.reply rfl⟩

/-- What the loop of `handle_read` leaves: a request in the middle of a value at most, whose stream
is the only one besides those in `O`. -/
structure VirusHandler.Settled (O : Set ℕ) (h : VirusHandler) (d : Disk) : Prop where
  part : h.req.Partial d
  shares : d.Shares O h.req
  plain : h.Plain

/-- The head of the loop. -/
structure ReadState.Settled (O : Set ℕ) (c : ReadState) : Prop where
  settled : c.self.Settled O c.disk
  nread : c.nread = c.p_buf.length
  ne : c.p_buf ≠ []
  int : c.p_buf.length < 2 ^ 31
  long : c.self.req.CompletesLong c.p_buf

/-- A request that was cleared and had its value in a file, or had none, is ready for the next
header. -/
theorem clear_partial (hi : s.Inv d) (hs : s.value ≠ none → s.storage = .file) :
    (s.clear d).1.Partial (s.clear d).2 ∧ (s.clear d).1.hlen = 0 := by
  obtain ⟨h0, hp⟩ := clear_begins s d
  refine ⟨(clear_inv hi).atRest ?_ hp, h0⟩
  by_cases hv : s.value = none
  · rw [clear_empty hv]
    exact hv
  · rw [clear_file (hs hv)]

/-- What else becomes of the disk does not matter, as long as the stream of the request stays open. -/
theorem HV.Partial.mono (h : s.Partial d)
    (ho : ∀ fp, s.Holds fp → d.streams fp ≠ none → d'.streams fp ≠ none) : s.Partial d' := by
  refine ⟨⟨h.inv.hlen, h.inv.head, h.inv.storage, fun c hc => ?_, h.inv.complete⟩, h.value, h.own, h.pending⟩
  have hf := h.inv.value c hc
  obtain ⟨st, hst⟩ := hf.isOpen
  obtain ⟨fp, hfp, hopen⟩ := Option.bind_eq_some_iff.1 hst
  refine ⟨hf.buf, ?_, hf.le, hf.small⟩
  obtain ⟨st', hst'⟩ := Option.ne_none_iff_exists'.1 (ho fp ⟨c, hc, hfp⟩ (by rw [hopen]; simp))
  exact ⟨st', by unfold Disk.stream; rw [hfp]; exact hst'⟩

theorem HV.Partial.same (h : s.Partial d) (hd : d.SameStreams d') : s.Partial d' :=
  h.mono fun fp _ hs => by rwa [Ne, hd.closed]

/-- A response settles nothing anew. -/
theorem VirusHandler.Settled.response {h h' : VirusHandler} {state : State} (hs : h.Settled O d)
    (hr : h.response E d state = .ok (h', d')) : h'.Settled O d' ∧ h'.req = h.req := by
  obtain ⟨hreq, hd, hp⟩ := response_streams hr
  refine ⟨⟨?_, ?_, hp hs.plain⟩, hreq⟩
  · rw [hreq]
    exact hs.part.same hd
  · rw [hreq]
    exact hs.shares.same hd

/-- What the call of `write` leaves at the head of the loop. -/
theorem ReadState.Settled.wrote {c : ReadState} {wlen : ℤ} (hc : c.Settled O)
    (hw : c.self.req.write E c.disk (some c.p_buf) c.nread = .ok (wlen, s, d)) :
    s.Inv d ∧ d.Shares O s ∧ s.Result c.p_buf d wlen := by
  have hshares := hc.settled.shares.write (write_streams hw)
  have hwr := write_wrote (E := E) hc.settled.part.inv (List.length_pos_iff.2 hc.ne) le_rfl hc.int
  rw [hc.nread] at hw
  rw [hw] at hwr
  obtain ⟨hinv, hres⟩ := hwr.result hc.settled.part hc.long
  exact ⟨hinv, hshares, hres⟩

/-- The request after a call that has not failed. -/
theorem VirusHandler.Handled.settled {c : ReadState} {wlen : ℤ} {h' : VirusHandler} (hc : c.Settled O)
    (hw : c.self.req.write E c.disk (some c.p_buf) c.nread = .ok (wlen, s, d)) (hlen : wlen ≠ -1)
    (hh : c.self.Handled E s d h' d') :
    h'.Settled O d' ∧ ∃ k : ℕ, wlen = k ∧ k ≤ c.p_buf.length ∧
      (k < c.p_buf.length → h'.req.CompletesLong (c.p_buf.drop k)) := by
  obtain ⟨hinv, hshares, hres⟩ := hc.wrote hw
  cases hres with
  | noCache _ => exact absurd rfl hlen
  | @pending k hk hs hp hl =>
    cases hh with
    | pending _ => exact ⟨⟨hp, hshares, hc.settled.plain⟩, k, rfl, hk, hl⟩
    | complete hs' _ =>
      rw [hs] at hs'
      cases hs'
  | @complete k hk hs hf hl =>
    cases hh with
    | pending hs' =>
      rw [hs] at hs'
      cases hs'
    | complete _ hr =>
      -- its stream is closed, and the next header begins
      obtain ⟨hpart, h0⟩ := clear_partial hinv fun _ => hf
      have hcleared : VirusHandler.Settled O { c.self with req := (s.clear d).1, state := .ok }
          (s.clear d).2 := ⟨hpart, hshares.clear, hc.settled.plain⟩
      obtain ⟨hset, hreq⟩ := hcleared.response hr
      refine ⟨hset, k, rfl, hk, fun _ => ?_⟩
      unfold HV.CompletesLong
      rw [hreq, if_neg (by rw [h0]; decide)]
      exact hl

/-- **One iteration.** -/
theorem readBody_settled {c : ReadState} (hc : c.Settled O) :
    match VirusHandler.readBody E c with
    | .again c' => c'.Settled O
    | .done (h, d) => h.Settled O d
    | .fault _ => True := by
  have hit := readBody_iterated E c
  generalize VirusHandler.readBody E c = r at hit ⊢
  cases hit with
  | fault f => trivial
  | @failed s d d' h' hw hr =>
    -- no cache: there is nothing to close
    obtain ⟨hinv, hshares, hres⟩ := hc.wrote hw
    have hv : s.value = none := by
      generalize hr : (-1 : ℤ) = r at hres
      cases hres with
      | noCache hv => exact hv
      | pending _ _ _ _ => omega
      | complete _ _ _ _ => omega
    obtain ⟨hpart, -⟩ := clear_partial hinv fun hv' => absurd hv hv'
    have hcleared : VirusHandler.Settled O
        { c.self with req := (s.clear d).1, state := .internalError } (s.clear d).2 :=
      ⟨hpart, hshares.clear, hc.settled.plain⟩
    exact (hcleared.response hr).1
  | done hw hlen hh _ => exact (hh.settled hc hw hlen).1
  | @again wlen s d d' h' hw hlen hh h0 =>
    obtain ⟨hset, k, rfl, hk, hlong⟩ := hh.settled hc hw hlen
    have hrest : (c.p_buf.drop k).length = c.p_buf.length - k := List.length_drop
    have hnread := hc.nread
    have hint := hc.int
    simp only [Int.toNat_natCast]
    refine ⟨hset, ?_, ?_, ?_, hlong (by omega)⟩
    · simp only [hrest]
      omega
    · exact List.ne_nil_of_length_pos (by simp only [hrest]; omega)
    · simp only [hrest]
      omega

/-- **The loop of `handle_read`** settles. -/
theorem readLoop_settled {fuel : ℕ} {h h' : VirusHandler} {buf : List UInt8} (hs : h.Settled O d)
    (hne : buf ≠ []) (hi : buf.length < 2 ^ 31) (hl : h.req.CompletesLong buf)
    (hrun : VirusHandler.readLoop E fuel h d buf = .ok (h', d')) : h'.Settled O d' := by
  refine Loop.run_ok_inv (P := fun c => c.Settled O) (Q := fun r => r.1.Settled O r.2)
    (fun c c' hc hb => ?_) (fun c r hc hb => ?_) (⟨hs, rfl, hne, hi, hl⟩ : ReadState.Settled O _)
    (readLoop_ok hrun)
  · have hbody := readBody_settled (E := E) hc
    rwa [hb] at hbody
  · have hbody := readBody_settled (E := E) hc
    rwa [hb] at hbody

end DocFerry
