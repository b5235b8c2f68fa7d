import DocFerry.Proof.Feed

/-!
# When a frame counts as complete

* `completes_in_time_iff`: `is_complete` turns true in the very call that takes the last byte of
  the frame, unless the frame is empty and nothing comes behind its header in that call.
-/

namespace DocFerry

/-- After any of the first pieces, the object has taken what came of the frame, and is complete
exactly when that was the whole frame. -/
def CompletesInTime (E : LibC) (f : Frame) (ps : List (List UInt8)) (st : StorageTo) (h : Header)
    (d : Disk) : Prop :=
  ∀ qs, qs <+: ps → ∃ (t : ℕ) (s : HV) (d' : Disk), HV.feed E qs (HV.new st h) d = .ok ((t : ℤ), s, d') ∧
    t = min qs.flatten.length (8 + f.value.length) ∧ (s.isComplete = true ↔ t = 8 + f.value.length)

variable {E : LibC} {f : Frame} {Y : List UInt8} {ps : List (List UInt8)}

/-- The first pieces, the last of all beginning in the frame. -/
theorem feed_prefix (hE : E.Succeeds) (hps : IsCut intMax (f.wire ++ Y) ps) (hw : HeaderWhole ps)
    (hend : ps.dropLast.flatten.length < 8 + f.value.length) (st : StorageTo) (h : Header) (d : Disk)
    {qs : List (List UInt8)} (hq : qs <+: ps) :
    ∃ s d', HV.feed E qs (HV.new st h) d =
        .ok (((min qs.flatten.length (8 + f.value.length) : ℕ) : ℤ), s, d') ∧
      After d' false f 0 (min qs.flatten.length (8 + f.value.length)) qs.flatten.length s := by
  have hwq : HeaderWhole qs := by
    obtain ⟨rs, rfl⟩ := hq
    cases qs with
    | nil => intro p hp; cases hp
    | cons q qs => exact hw
  have hl : qs.flatten <+: f.wire.drop 0 ++ Y := by
    obtain ⟨rs, rfl⟩ := hq
    exact ⟨rs.flatten, by rw [← List.flatten_append, hps.flatten]; rfl⟩
  refine feed_after hE (.new st h d f) (.inr ⟨rfl, hwq⟩) (hps.of_prefix hq) hl fun hne => ?_
  -- the pieces before the last of `qs` come before the last of `ps`
  rcases eq_or_ne qs ps with rfl | hqp
  · exact hend
  · have hle := IsCut.length_le_dropLast hq hqp
    have hlt := (hps.of_prefix hq).length_dropLast hne
    omega

/-- **A frame counts as complete in the call that takes its last byte** exactly when it has a
value, or that call offers bytes behind it. -/
theorem completes_in_time_iff (hE : E.Succeeds) (hps : IsCut intMax (f.wire ++ Y) ps) (hw : HeaderWhole ps)
    (hend : ps.dropLast.flatten.length < 8 + f.value.length) (st : StorageTo) (h : Header) (d : Disk) :
    CompletesInTime E f ps st h d ↔ f.value ≠ [] ∨ Y ≠ [] := by
  have hall : ps.flatten.length = 8 + f.value.length + Y.length := by
    rw [hps.flatten, List.length_append, f.length_wire]
  constructor
  · intro hin
    by_contra hno
    rw [not_or, not_not, not_not] at hno
    obtain ⟨hv, rfl⟩ := hno
    -- the header of an empty frame is all there is
    obtain ⟨s, d', hrun, haft⟩ := feed_prefix hE hps hw hend st h d List.prefix_rfl
    obtain ⟨t, s₁, d₁, hrun', ht, hc⟩ := hin ps List.prefix_rfl
    rw [hrun] at hrun'
    cases hrun'
    simp only [hall, hv, List.length_nil, Nat.add_zero, Nat.min_self] at haft hc
    rcases haft with ⟨-, hlt, -⟩ | ⟨-, hat⟩
    · exact absurd (hlt hv) (lt_irrefl _)
    · rw [hat.not_complete] at hc
      exact absurd (hc.2 trivial) (by decide)
  · intro hcond qs hq
    obtain ⟨s, d', hrun, haft⟩ := feed_prefix hE hps hw hend st h d hq
    refine ⟨_, s, d', hrun, rfl, ?_⟩
    rcases haft with ⟨hfull, -, hdone⟩ | ⟨hlt, hat⟩
    · rw [Nat.zero_add] at hfull
      exact iff_of_true hdone.isComplete hfull
    · rw [Nat.zero_add] at hlt
      refine iff_of_false (by rw [hat.not_complete]; decide) fun hfull => ?_
      rcases hlt with hlt | ⟨hv, hlt⟩
      · omega
      · -- an empty frame with bytes behind it: no call ends with the header
        have hY : 0 < Y.length := List.length_pos_iff.2 (hcond.resolve_left (not_not.2 hv))
        rw [hv, List.length_nil] at hfull hlt hend hall
        rcases eq_or_ne qs ps with rfl | hqp
        · omega
        · have := IsCut.length_le_dropLast hq hqp
          omega

/-- The small frame in two pieces. -/
theorem completes_in_time_iff_small :
    CompletesInTime .steady smallFrame [smallFrame.head, [5]] .auto ⟨0, 0⟩ .empty ↔
      smallFrame.value ≠ [] ∨ ([] : List UInt8) ≠ [] :=
  completes_in_time_iff LibC.steady_succeeds ⟨by decide, by decide, by decide⟩
    (by simp [HeaderWhole]) (by decide) _ _ _

/-- An empty frame that came whole is not complete. -/
theorem empty_frame_incomplete : ∃ s d,
    (HV.new .auto ⟨0, 0⟩).write .steady .empty (some emptyFrame.wire) 8 = .ok (8, s, d) ∧
      s.isComplete = false ∧ ¬ CompletesInTime .steady emptyFrame [emptyFrame.wire] .auto ⟨0, 0⟩ .empty := by
  refine ⟨_, _, rfl, rfl, fun hin => ?_⟩
  obtain ⟨t, s, d, hrun, ht, hc⟩ := hin [emptyFrame.wire] List.prefix_rfl
  have hfed : HV.feed .steady [emptyFrame.wire] (HV.new .auto ⟨0, 0⟩) .empty =
      .ok (8, (HV.new .auto ⟨0, 0⟩).headed ⟨1, 0⟩, .empty) := rfl
  rw [hfed] at hrun
  cases hrun
  have : (false : Bool) = true := hc.2 ht
  cases this

end DocFerry
