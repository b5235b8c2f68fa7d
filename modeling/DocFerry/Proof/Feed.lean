import DocFerry.Lib.Cut
import DocFerry.Proof.HVAt

/-!
# One frame, cut in any way

`HV.feed` hands the pieces of a frame to `write` one after another.

* `feed_after`: pieces that begin in the frame move it on by the bytes of the frame.
* `feed_at`: from any place that is not inside the header, the remaining pieces
  complete the frame.
* `feed_same_iff`: two ways of cutting a frame end in the same state exactly when both
  leave the header whole. A header cut anywhere sends its second piece outside the
  header object (`feed_cut`).
-/

namespace DocFerry

/-- The largest `int`. -/
def intMax : ℕ := 2 ^ 31 - 1

/-- The pieces given to `write` one after another, and the sum of its results. -/
def HV.feed (E : LibC) : List (List UInt8) → HV → Disk → Except Fault (ℤ × HV × Disk)
  | [], s, d => .ok (0, s, d)
  | p :: ps, s, d =>
    match s.write E d (some p) p.length with
    | .error f => .error f
    | .ok (r, s', d') =>
      match HV.feed E ps s' d' with
      | .error f => .error f
      | .ok (t, s'', d'') => .ok (r + t, s'', d'')

/-- What can be seen of an `HV`: its header, how far it has come and the value bytes
it has stored. -/
structure HV.View where
  id : UInt32
  length : UInt32
  hlen : ℕ
  headComplete : Bool
  valueComplete : Bool
  stored : Option (List UInt8)
  deriving DecidableEq

def HV.view (s : HV) (d : Disk) : HV.View :=
  ⟨s.header.id, s.header.length, s.hlen, s.headComplete, s.valueComplete, s.value.map d.stored⟩

/-- The first piece holds the whole header. -/
def HeaderWhole (ps : List (List UInt8)) : Prop := ∀ p ∈ ps.head?, 8 ≤ p.length

/-- Feeding the cuts `p` and `q` of `f` to new objects ends in the same view after as
many bytes taken, with every header byte of `f` at its place in the header. -/
def SameEnd (E : LibC) (f : Frame) (p q : List (List UInt8)) (st : StorageTo) (h : Header) (d : Disk)
    (st' : StorageTo) (h' : Header) (d' : Disk) : Prop :=
  ∃ t s e t' s' e', HV.feed E p (HV.new st h) d = .ok (t, s, e) ∧
    HV.feed E q (HV.new st' h') d' = .ok (t', s', e') ∧
    t = t' ∧ s.view e = s'.view e' ∧ s.header = ⟨f.id, f.len⟩

variable {E : LibC} {s : HV} {d : Disk} {f : Frame} {k : ℕ} {l Y : List UInt8} {ps : List (List UInt8)}

/-- **Pieces of a frame** that does not stand inside its header, the last one beginning in the
frame and perhaps ending behind it: the bytes of the frame are taken. -/
theorem feed_after (hE : E.Succeeds) (h : s.At d false f k) (hk : 8 ≤ k ∨ k = 0 ∧ HeaderWhole ps)
    (hps : IsCut intMax l ps) (hl : l <+: f.wire.drop k ++ Y)
    (hend : ps ≠ [] → ps.dropLast.flatten.length < 8 + f.value.length - k) :
    ∃ s' d', HV.feed E ps s d = .ok (((min l.length (8 + f.value.length - k) : ℕ) : ℤ), s', d') ∧
      After d' false f k (min l.length (8 + f.value.length - k)) l.length s' := by
  induction ps generalizing s d k l with
  | nil =>
    obtain rfl := hps.eq_nil
    have hb := h.value.bound
    refine ⟨s, d, by simp [HV.feed], .inr ⟨?_, by simpa using h⟩⟩
    rcases eq_or_ne f.value [] with hv | hv
    · exact .inr ⟨hv, by simp⟩
    · have := List.length_pos_iff.2 hv
      refine .inl ?_
      rw [List.length_nil, Nat.zero_min]
      omega
  | cons p ps ih =>
    have hp := hps.head_prefix
    have hpl := hps.head_le
    obtain ⟨m, s', d', hrun, hm, haft⟩ := write_at hE h (hk.symm.imp_left And.left) hps.head_ne_nil
      (by unfold intMax at hpl; omega) (hp.trans hl) (by simp)
    have hlen : l.length = p.length + ps.flatten.length := by
      rw [← hps.flatten, List.flatten_cons, List.length_append]
    simp only [HV.feed, hrun]
    rcases eq_or_ne ps [] with rfl | hne
    · -- the last piece
      rw [List.flatten_nil, List.length_nil, Nat.add_zero] at hlen
      rw [hlen, ← hm]
      exact ⟨s', d', by simp [HV.feed], haft⟩
    · have hlt := hend (List.cons_ne_nil _ _)
      rw [List.dropLast_cons_of_ne_nil hne, List.flatten_cons, List.length_append] at hlt
      obtain rfl : m = p.length := by omega
      have hat : s'.At d' false f (k + p.length) := by
        rcases haft with ⟨hfull, -, -⟩ | ⟨-, hat⟩
        · omega
        · exact hat
      have hk' : 8 ≤ k + p.length := by
        rcases hk with hk | ⟨-, hw⟩
        · omega
        · have := hw p rfl
          omega
      have hdrop : l.drop p.length <+: f.wire.drop (k + p.length) ++ Y := by
        have hle : p.length ≤ (f.wire.drop k).length := by
          rw [List.length_drop, f.length_wire]
          omega
        have h1 := hl.drop p.length
        rwa [List.drop_append_of_le_length hle, List.drop_drop] at h1
      obtain ⟨s'', d'', hrun', haft'⟩ := ih hat (.inl hk') hps.tail hdrop fun _ => by omega
      rw [List.length_drop] at hrun' haft'
      have hsum : p.length + min (l.length - p.length) (8 + f.value.length - (k + p.length)) =
          min l.length (8 + f.value.length - k) := by omega
      refine ⟨s'', d'', ?_, ?_⟩
      · rw [hrun', ← hsum]
        push_cast
        rfl
      · rw [← hsum]
        rcases haft' with ⟨h1, h2, h3⟩ | ⟨h1, h2⟩
        · exact .inl ⟨by omega, fun hv => by have := h2 hv; omega, h3⟩
        · refine .inr ⟨h1.imp (fun h => by omega) (fun h => ⟨h.1, by omega⟩), ?_⟩
          rwa [← Nat.add_assoc]

/-- **The rest of a frame** that does not stand inside its header is taken whole. -/
theorem feed_at (hE : E.Succeeds) (hf : f.value ≠ []) (h : s.At d false f k)
    (hk : 8 ≤ k ∨ k = 0 ∧ HeaderWhole ps) (hps : IsCut intMax (f.wire.drop k) ps) :
    ∃ s' d', HV.feed E ps s d = .ok ((8 + f.value.length - k : ℕ), s', d') ∧ s'.Done d' false f := by
  have hlen : (f.wire.drop k).length = 8 + f.value.length - k := by
    rw [List.length_drop, f.length_wire]
  obtain ⟨s', d', hrun, haft⟩ := feed_after hE h hk hps (List.prefix_append _ []) fun hne => by
    rw [← hlen]
    exact hps.length_dropLast hne
  rw [hlen, Nat.min_self] at hrun haft
  refine ⟨s', d', hrun, ?_⟩
  have hb := h.value.bound
  have hv := List.length_pos_iff.2 hf
  rcases haft with ⟨-, -, hdone⟩ | ⟨hlt | ⟨hnil, -⟩, -⟩
  · exact hdone
  · omega
  · exact absurd hnil hf

/-- **A cut header** sends its second piece outside the header object. -/
theorem feed_cut (hps : IsCut intMax f.wire ps) (hcut : ¬ HeaderWhole ps) (st : StorageTo) (h : Header)
    (d : Disk) : ∃ off len, HV.feed E ps (HV.new st h) d = .error (.outside off len) := by
  rcases ps with - | ⟨p, - | ⟨q, ps⟩⟩
  · exact absurd (by simp [HeaderWhole]) hcut
  · have hlen := congrArg List.length hps.flatten
    simp [HeaderWhole] at hlen hcut; omega
  · have h8 : p.length < 8 := by simpa [HeaderWhole] using hcut
    have hp := List.length_pos_iff.2 hps.head_ne_nil
    have hq := List.length_pos_iff.2 hps.tail.head_ne_nil
    have hrun : (HV.new st h).write E d (some p) p.length =
        .ok ((p.length : ℤ), (HV.new st h).patched E (p.take p.length), d) :=
      write_short rfl hp h8 le_rfl
    rw [List.take_length] at hrun
    refine ⟨8 * p.length, min (8 - p.length) q.length, ?_⟩
    rw [HV.feed, hrun]
    simp only [HV.feed]
    rw [write_cut (s := (HV.new st h).patched E p) hp h8 hq le_rfl]
    rfl

/-- The view of a complete frame. -/
theorem HV.Done.view (h : s.Done d false f) :
    s.view d = ⟨f.id, f.len, 8, true, true, some f.value⟩ := by
  obtain ⟨c, hv, -, -, hc⟩ := h.value
  simp [HV.view, h.header, h.hlen, h.head, h.complete, hv, (hc rfl).2]

/-- **Cutting a frame does not matter exactly when both cuts leave the header whole.** -/
theorem feed_same_iff (hE : E.Succeeds) (f : Frame) (hf : f.value ≠ []) {p q : List (List UInt8)}
    (hp : IsCut intMax f.wire p) (hq : IsCut intMax f.wire q) (st st' : StorageTo) (h h' : Header)
    (d d' : Disk) : SameEnd E f p q st h d st' h' d' ↔ HeaderWhole p ∧ HeaderWhole q := by
  constructor
  · rintro ⟨t, s, e, t', s', e', hp', hq', -⟩
    constructor
    · by_contra hcut
      obtain ⟨off, len, herr⟩ := feed_cut (E := E) hp hcut st h d
      rw [herr] at hp'; cases hp'
    · by_contra hcut
      obtain ⟨off, len, herr⟩ := feed_cut (E := E) hq hcut st' h' d'
      rw [herr] at hq'; cases hq'
  · rintro ⟨hwp, hwq⟩
    obtain ⟨s, e, hrun, hdone⟩ := feed_at hE hf (.new st h d f) (.inr ⟨rfl, hwp⟩) hp
    obtain ⟨s', e', hrun', hdone'⟩ := feed_at hE hf (.new st' h' d' f) (.inr ⟨rfl, hwq⟩) hq
    exact ⟨_, s, e, _, s', e', hrun, hrun', rfl, by rw [hdone.view, hdone'.view], hdone.header⟩

/-- With the header whole in the first piece the ends are the same. -/
theorem feed_same_iff_small :
    SameEnd .steady smallFrame [smallFrame.head, [5]] [smallFrame.wire] .auto ⟨0, 0⟩ .empty .file ⟨7, 7⟩
      .empty ↔ HeaderWhole [smallFrame.head, [5]] ∧ HeaderWhole [smallFrame.wire] :=
  feed_same_iff LibC.steady_succeeds smallFrame (by decide) ⟨by decide, by decide, by decide⟩
    ⟨by decide, by decide, by decide⟩ _ _ _ _ _ _

/-- A header cut behind its first byte is written outside the header object. -/
theorem feed_same_cut_header :
    LibC.steady.Succeeds ∧ smallFrame.value ≠ [] ∧
      IsCut intMax smallFrame.wire [[0], [0, 0, 1, 0, 0, 0, 1, 5]] ∧
      IsCut intMax smallFrame.wire [smallFrame.wire] ∧
      ¬ SameEnd .steady smallFrame [[0], [0, 0, 1, 0, 0, 0, 1, 5]] [smallFrame.wire] .auto ⟨0, 0⟩ .empty
        .auto ⟨0, 0⟩ .empty := by
  have hcut : IsCut intMax smallFrame.wire [[0], [0, 0, 1, 0, 0, 0, 1, 5]] :=
    ⟨by decide, by decide, by decide⟩
  refine ⟨LibC.steady_succeeds, by decide, hcut, ⟨by decide, by decide, by decide⟩, ?_⟩
  rintro ⟨t, s, e, t', s', e', hrun, -⟩
  obtain ⟨off, len, herr⟩ := feed_cut (E := LibC.steady) hcut (by simp [HeaderWhole]) .auto ⟨0, 0⟩ .empty
  rw [herr] at hrun
  cases hrun

end DocFerry
