import DocFerry.Proof.Answers
import DocFerry.Proof.Filling
import DocFerry.Spec.Session

/-!
# A session, whatever the client sends

`HV.Pends d stale rest s`: behind its last complete request, `s` has got the bytes `rest`.

* `write_pends`: a call of `write` takes what the scanner `requests` says.
* `readLoop_scans`: the loop of `handle_read` follows the scanner. What is to be known besides is a
  parameter of the rule.
* `session_scans`: chunks are read to the end exactly when none of them ends inside a header, and then
  everything that the client can see is a function of the bytes, not of the chunks.
-/

namespace DocFerry

open Bytes

/-- The value cache of a request of which `rest` has come: none yet, one for the value bytes so
far, or the full one of an earlier request. -/
inductive ValuePends (d : Disk) (rest : List UInt8) : Bool → Option Cache → Prop
  | none (hk : rest.length ≤ 8) : ValuePends d rest false none
  | some {c : Cache} (hc : FileCache d c) (hcap : c.priv.capacity = (headOf rest).length.toNat)
      (hw : c.priv.widx + 8 = rest.length) (hlt : c.priv.widx < c.priv.capacity) :
      ValuePends d rest false (some c)
  | stale {c : Cache} (hc : FileCache d c) (hf : cacheFull c = true) (hk : rest.length ≤ 8) :
      ValuePends d rest true (some c)

/-- `s` has got `rest` of its request. -/
structure HV.Pends (d : Disk) (stale : Bool) (rest : List UInt8) (s : HV) : Prop where
  hlen : s.hlen = min rest.length 8
  head : s.headComplete = decide (8 ≤ rest.length)
  header : 8 ≤ rest.length → s.header = headOf rest
  storage : 8 ≤ rest.length → s.storage = if leavesCache (headOf rest) then .mem else .file
  pending : s.valueComplete = false
  value : ValuePends d rest stale s.value

/-- `s` has got all of the request `id`, and leaves its cache behind or not. -/
structure HV.Got (d : Disk) (id : UInt32) (stale : Bool) (s : HV) : Prop where
  head : s.headComplete = true
  complete : s.valueComplete = true
  id : s.header.id = id
  storage : s.storage = if stale then .mem else .file
  value : ∃ c, s.value = some c ∧ FileCache d c ∧ cacheFull c = true

/-- The cache of the request, if it has one, holds `v`. -/
def HV.InFile (d : Disk) (v : List UInt8) (s : HV) : Prop := ∀ c, s.value = some c → d.Fills c v

/-- What a call of `write` makes of the value and of the disk: nothing, or a push. -/
inductive HV.Worked (E : LibC) (s : HV) (d : Disk) (s' : HV) : Disk → Prop
  | kept (hv : s'.value = s.value) : HV.Worked E s d s' d
  | pushed {c : Cache} {d₁ : Disk} {n fp k : ℕ} {st : Stream} {data : List UInt8}
      (hc : s.Cached E n d c d₁) (hf : FileCache d₁ c) (hw : c.priv.wfp = some fp)
      (hs : d₁.streams fp = some st) (hk : k ≤ c.priv.capacity - c.priv.widx) (hv : s'.value = some (c.grow k)) :
      HV.Worked E s d s' (d₁.pushing E fp st data k)

/-- What a call that got the last `n` bytes of `bs` and took `m` of them leaves behind. -/
def Took (d : Disk) (stale : Bool) (bs : List UInt8) (m n : ℕ) (s : HV) : Prop :=
  match nextRequest stale bs with
  | none => m = n ∧ s.Pends d stale bs
  | some (q, stale', k) => k + n = bs.length + m ∧ s.Got d q.id stale'

/-- What is in the file then. -/
def Filed (d : Disk) (stale : Bool) (bs : List UInt8) (s : HV) : Prop :=
  match nextRequest stale bs with
  | none => stale = false → s.InFile d (bs.drop 8)
  | some (q, _) => ∀ v, q.value = some v → s.InFile d v

variable {E : LibC} {s s' : HV} {d d' d₁ : Disk} {c : Cache} {stale stale' : Bool}
  {rest data bs : List UInt8} {q : Request} {id : UInt32} {n k m : ℕ}

theorem HV.Pends.new (st : StorageTo) (header : Header) (d : Disk) : (HV.new st header).Pends d false [] :=
  ⟨rfl, rfl, by simp, by simp, rfl, .none (by simp)⟩

theorem HV.Pends.not_complete (h : s.Pends d stale rest) : s.isComplete = false := by
  simp [HV.isComplete, h.pending]

theorem HV.Got.isComplete (h : s.Got d id stale) : s.isComplete = true := by
  simp [HV.isComplete, h.head, h.complete]

theorem HV.Pends.hasFile (h : s.Pends d stale rest) : ∀ c, s.value = some c → FileCache d c := by
  intro c hc
  have hv := h.value
  rw [hc] at hv
  cases hv with
  | some hf => exact hf
  | stale hf => exact hf

/-- What has come of a request is not all of it. -/
theorem HV.Pends.next (h : s.Pends d stale rest) : nextRequest stale rest = none := by
  apply nextRequest_none
  have hv := h.value
  generalize s.value = value at hv
  cases hv with
  | none hk => exact .inl hk
  | some _ hcap hw hlt =>
    right
    simp only [valueLen, Bool.false_eq_true, if_false]
    omega
  | stale _ _ hk => exact .inl hk

/-- A cache in which a value goes on has room for it. -/
theorem HV.Pends.open_value (h : s.Pends d stale rest) (hnext : nextRequest stale bs = some (q, stale', k)) :
    q.value ≠ none → ∀ c, s.value = some c → cacheFull c = false := by
  intro hq c hc
  obtain ⟨-, -, -, -, rfl⟩ := nextRequest_inv hnext
  have hv := h.value
  rw [hc] at hv
  cases hv with
  | some _ _ _ hlt =>
    simp only [cacheFull, beq_eq_false_iff_ne, ne_eq]
    omega
  | stale => exact absurd rfl hq

/-- Before the value begins it does not matter how much of the header has come. -/
theorem ValuePends.move {bs : List UInt8} {v : Option Cache} (h : ValuePends d rest stale v)
    (hk : rest.length < 8) (hk' : bs.length ≤ 8) : ValuePends d bs stale v := by
  cases h with
  | none _ => exact .none hk'
  | some _ _ hw _ => omega
  | stale hc hf _ => exact .stale hc hf hk'

/-- How much room the cache has, with which the value part goes on. -/
theorem HV.Pends.room (h : s.Pends d stale rest) (h8 : 8 ≤ rest.length)
    (hc : s.Cached E s.header.length.toNat d c d₁) :
    c.priv.widx ≤ c.priv.capacity ∧ rest.length ≤ 8 + valueLen stale (headOf rest) ∧
      c.priv.capacity - c.priv.widx = 8 + valueLen stale (headOf rest) - rest.length ∧
      (stale = false →
        c.priv.capacity = (headOf rest).length.toNat ∧ c.priv.widx + 8 = rest.length) := by
  have hv := h.value
  cases hc with
  | old hval =>
    rw [hval] at hv
    cases hv with
    | some hf hcap hw hlt =>
      simp only [valueLen, Bool.false_eq_true, if_false]
      exact ⟨hf.le, by omega, by omega, fun _ => ⟨hcap, hw⟩⟩
    | stale hf hfull hk =>
      have hwc : c.priv.widx = c.priv.capacity := by simpa [cacheFull] using hfull
      simp only [valueLen, if_true]
      exact ⟨hf.le, by omega, by omega, by simp⟩
  | new hval =>
    rw [hval] at hv
    cases hv with
    | none hk =>
      have hhead := h.header h8
      simp only [valueLen, Bool.false_eq_true, if_false, Disk.newCache, fileCache, hhead]
      exact ⟨Nat.zero_le _, by omega, by omega, fun _ => ⟨trivial, by omega⟩⟩

/-- What the cache holds, with which the value part goes on. -/
theorem HV.InFile.cached (h : s.InFile d (rest.drop 8)) (hp : s.Pends d stale rest)
    (hc : s.Cached E n d c d₁) : d₁.Fills c (rest.drop 8) := by
  cases hc with
  | old hval => exact h c hval
  | new hval =>
    have hv := hp.value
    rw [hval] at hv
    cases hv with
    | none hk =>
      rw [List.drop_eq_nil_of_le hk]
      exact fills_made E d _

/-- **The value part of a call** takes what the scanner says. -/
theorem writeValue_pends (hE : E.Succeeds) (h : s.Pends d stale rest) (h8 : 8 ≤ rest.length)
    (hn : data ≠ []) (hi : data.length < 2 ^ 31) :
    ∃ (m : ℕ) (s' : HV) (d' : Disk), s.writeValue E d (some data) data.length = .ok ((m : ℤ), s', d') ∧
      s.Worked E d s' d' ∧ Took d' stale (rest ++ data) m data.length s' ∧
        ((stale = false → s.InFile d (rest.drop 8)) → Filed d' stale (rest ++ data) s') := by
  have hpos : 0 < data.length := List.length_pos_iff.2 hn
  have hh : s.headComplete = true := by simp [h.head, h8]
  obtain ⟨c, d₁, fp, st, hc, hf, hw, hs, hrun⟩ := writeValue_run hE hh h.hasFile hpos le_rfl hi
  obtain ⟨hle, hrest, hroom, hown⟩ := h.room h8 hc
  have hhead : headOf (rest ++ data) = headOf rest := headOf_append h8 data
  have hlen : (rest ++ data).length = rest.length + data.length := List.length_append
  set need := valueLen stale (headOf rest) with hneed
  set k := min (c.priv.capacity - c.priv.widx) data.length with hk
  have hkc : k ≤ c.priv.capacity - c.priv.widx := by omega
  have hgrown : FileCache (d₁.pushing E fp st data k) (c.grow k) := hf.writing hw hkc _
  refine ⟨k, _, _, hrun, .pushed hc hf hw hs hkc rfl, ?_, fun hfile => ?_⟩
  · unfold Took
    by_cases hall : 8 + need ≤ rest.length + data.length
    · -- the request is complete: its cache is full
      have hfull : cacheFull (c.grow k) = true := by
        simp only [cacheFull, Cache.grow_widx, Cache.grow_capacity, beq_iff_eq]
        omega
      rw [nextRequest_some (by omega) (by rw [hhead, hlen]; exact hall)]
      refine ⟨by rw [hhead, hlen]; omega, hh, by simp [HV.filled, hfull], ?_, ?_, c.grow k, rfl, hgrown, hfull⟩
      · rw [hhead]
        exact congrArg Header.id (h.header h8)
      · rw [hhead]
        exact h.storage h8
    · have hst : stale = false := by
        by_contra hst
        have : need = 0 := by simp [hneed, valueLen, hst]
        omega
      subst hst
      obtain ⟨hcap, hwr⟩ := hown rfl
      have hfull : cacheFull (c.grow k) = false := by
        simp only [cacheFull, Cache.grow_widx, Cache.grow_capacity, beq_eq_false_iff_ne]
        omega
      rw [nextRequest_none (by rw [hhead, hlen]; omega)]
      refine ⟨by omega, ?_, ?_, fun _ => ?_, fun _ => ?_, ?_, ?_⟩
      · rw [hlen, min_eq_right (by omega)]
        exact h.hlen.trans (min_eq_right h8)
      · rw [hlen, decide_eq_true (by omega)]
        exact hh
      · rw [hhead]
        exact h.header h8
      · rw [hhead]
        exact h.storage h8
      · simp [HV.filled, h.pending, hfull]
      · refine .some hgrown ?_ ?_ ?_
        · rw [hhead, Cache.grow_capacity, hcap]
        · rw [hlen, Cache.grow_widx]
          omega
        · rw [Cache.grow_widx, Cache.grow_capacity]
          omega
  · have hkd : k ≤ data.length := by omega
    have hdrop : (rest ++ data).drop 8 = rest.drop 8 ++ data := List.drop_append_of_le_length h8
    have hfills : stale = false → (d₁.pushing E fp st data k).Fills (c.grow k) (rest.drop 8 ++ data.take k) :=
      fun hst => ((hfile hst).cached h hc).grow hw hs hkc hkd (E.written_le_length ..)
    unfold Filed
    by_cases hall : 8 + need ≤ rest.length + data.length
    · rw [nextRequest_some (by omega) (by rw [hhead, hlen]; exact hall)]
      intro v hv c' hc'
      cases hc'
      cases stale with
      | true => cases hv
      | false =>
        obtain rfl := Option.some.inj hv
        obtain ⟨hcap, hwr⟩ := hown rfl
        have htake : ((rest ++ data).drop 8).take (headOf (rest ++ data)).length.toNat =
            rest.drop 8 ++ data.take k := by
          rw [hdrop, hhead, List.take_append, List.length_drop, List.take_of_length_le]
          · congr 2
            omega
          · rw [List.length_drop]
            omega
        rw [htake]
        exact hfills rfl
    · rw [nextRequest_none (by rw [hhead, hlen]; omega)]
      intro hst c' hc'
      cases hc'
      have htake : data.take k = data := List.take_of_length_le (by omega)
      have hall := hfills hst
      rwa [htake, ← hdrop] at hall

/-- Bytes behind a header that has not come whole. -/
theorem HV.Pends.patched (h : s.Pends d stale []) (hd : data.length < 8) :
    (s.patched E data).Pends d stale data := by
  have hnc : s.headComplete = false := by simp [h.head]
  refine ⟨?_, ?_, by omega, by omega, h.pending, h.value.move (by simp) hd.le⟩
  · simp only [HV.patched]
    omega
  · simp only [HV.patched, hnc]
    rw [decide_eq_false (by omega)]

/-- The header has come. -/
theorem HV.Pends.headed (h : s.Pends d stale []) (hd : 8 ≤ data.length) :
    (s.headed (headOf (data.take 8))).Pends d stale (data.take 8) := by
  have hlen : (data.take 8).length = 8 := by
    rw [List.length_take]
    omega
  refine ⟨by rw [hlen]; rfl, by rw [hlen]; rfl, fun _ => rfl, fun _ => ?_, h.pending,
    h.value.move (by simp) hlen.le⟩
  simp [HV.headed, leavesCache]

/-- **One call of `write`** takes what the scanner says, unless it begins inside a header. -/
theorem write_pends (hE : E.Succeeds) (h : s.Pends d stale rest) (hk : rest = [] ∨ 8 ≤ rest.length)
    (hn : data ≠ []) (hi : data.length < 2 ^ 31) :
    ∃ (m : ℕ) (s' : HV) (d' : Disk), s.write E d (some data) data.length = .ok ((m : ℤ), s', d') ∧
      s.Worked E d s' d' ∧ Took d' stale (rest ++ data) m data.length s' ∧
        ((stale = false → s.InFile d (rest.drop 8)) → Filed d' stale (rest ++ data) s') := by
  have hpos : 0 < data.length := List.length_pos_iff.2 hn
  rcases hk with rfl | h8
  · have h0 : s.hlen = 0 := by simp [h.hlen]
    have hnc : s.headComplete = false := by simp [h.head]
    rw [List.nil_append]
    rcases Nat.lt_trichotomy data.length 8 with hlt | heq | hgt
    · -- not even a header
      have hp := h.patched (E := E) hlt
      have hnext := hp.next
      refine ⟨data.length, _, d, write_short h0 hpos hlt le_rfl, .kept rfl, ?_, fun hfile => ?_⟩
      · unfold Took
        rw [hnext, List.take_length]
        exact ⟨rfl, hp⟩
      · unfold Filed
        rw [hnext, List.drop_eq_nil_of_le (by omega)]
        intro hst c hc
        exact hfile hst c hc
    · -- a header and nothing else
      have htake : data.take 8 = data := List.take_of_length_le (by omega)
      have hp : (s.headed (headOf (data.take 8))).Pends d stale (data.take 8) := h.headed (by omega)
      rw [htake] at hp
      have hnext := hp.next
      have hrun : s.write E d (some data) data.length = .ok (((8 : ℕ) : ℤ), s.headed (headOf data), d) := by
        rw [write_head h0 hnc (by omega) le_rfl, heq, htake, Nat.sub_self, Nat.cast_zero,
          writeValue_nothing]
        rfl
      refine ⟨8, _, d, hrun, .kept rfl, ?_, fun hfile => ?_⟩
      · unfold Took
        rw [hnext]
        exact ⟨heq.symm, hp⟩
      · unfold Filed
        rw [hnext, List.drop_eq_nil_of_le (by omega)]
        intro hst c hc
        exact hfile hst c hc
    · -- a header and value bytes
      have hp : (s.headed (headOf (data.take 8))).Pends d stale (data.take 8) := h.headed (by omega)
      have hlen : (data.take 8).length = 8 := by
        rw [List.length_take]
        omega
      have hdrop : (data.drop 8).length = data.length - 8 := List.length_drop
      obtain ⟨m, s', d', hrun, hwork, htook, hfiled⟩ := writeValue_pends hE hp hlen.ge
        (by intro hnil; rw [hnil, List.length_nil] at hdrop; omega) (by omega : (data.drop 8).length < 2 ^ 31)
      rw [List.take_append_drop, hdrop] at htook
      rw [List.take_append_drop, List.drop_eq_nil_of_le hlen.le] at hfiled
      rw [hdrop] at hrun
      refine ⟨8 + m, s', d', ?_, ?_, ?_, fun hfile => hfiled fun hst c hc => hfile hst c hc⟩
      · have hne : ¬ ((m : ℤ) = -1) := by omega
        rw [write_head h0 hnc (by omega) le_rfl, hrun]
        simp [addOffset, hne]
      · cases hwork with
        | kept hv => exact .kept hv
        | pushed hc hf hw hs hk hv => exact .pushed (hc.of_value rfl) hf hw hs hk hv
      · unfold Took at htook ⊢
        cases hnext : nextRequest stale data with
        | none =>
          rw [hnext] at htook
          exact ⟨by omega, htook.2⟩
        | some r =>
          rw [hnext] at htook
          exact ⟨by have := htook.1; omega, htook.2⟩
  · have h8' : s.hlen = 8 := h.hlen.trans (min_eq_right h8)
    obtain ⟨m, s', d', hrun, hrest⟩ := writeValue_pends hE h h8 hn hi
    refine ⟨m, s', d', ?_, hrest⟩
    have hne : ¬ ((m : ℤ) = -1) := by omega
    rw [write_body h8', hrun]
    simp [addOffset, hne]

/-! ### The loop -/

/-- A request that was cleared has got nothing. -/
theorem HV.Got.clear (h : s.Got d id stale) : (s.clear d).1.Pends (s.clear d).2.replied stale [] := by
  obtain ⟨c, hv, hc, hfull⟩ := h.value
  have hst := h.storage
  cases stale with
  | true =>
    rw [clear_mem hst]
    refine ⟨rfl, rfl, by simp, by simp, rfl, ?_⟩
    dsimp only
    rw [hv]
    exact .stale ⟨hc.buf, hc.isOpen, hc.le, hc.small⟩ hfull (by simp)
  | false =>
    rw [clear_file hst]
    exact ⟨rfl, rfl, by simp, by simp, rfl, .none (by simp)⟩

/-- What the loop carries along, as it follows the scanner: `I` is kept by calls of `write` that
leave a request pending, and by requests that are complete and cleared. `K` tells whether the files
are looked at. -/
structure ScanRules (E : LibC) (K : Prop) (I : List Request → HV → Disk → Prop) : Prop where
  work : ∀ qs stale rest bs s d s' d', I qs s d → s.Pends d stale rest → s.Worked E d s' d' →
    s'.Pends d' stale bs → I qs s' d'
  done : ∀ qs q stale stale' rest bs k s d s' d', I qs s d → s.Pends d stale rest → s.Worked E d s' d' →
    s'.Got d' q.id stale' → nextRequest stale bs = some (q, stale', k) →
      (K → ∀ v, q.value = some v → s'.InFile d' v) → I (qs ++ [q]) (s'.clear d').1 (s'.clear d').2.replied

/-- The answer to a request. -/
def Request.reply (E : LibC) (q : Request) : HV := HV.replyTo E q.id .ok true

/-- **The loop of `handle_read`** follows the scanner. -/
theorem readLoop_scans (hE : E.Succeeds) {K : Prop} {I : List Request → HV → Disk → Prop}
    (hI : ScanRules E K I) {h : VirusHandler} {buf : List UInt8} (qs : List Request)
    (hp : h.req.Pends d stale rest) (hk : rest = [] ∨ 8 ≤ rest.length) (hn : buf ≠ [])
    (hi : buf.length < 2 ^ 31) (hfile : K → stale = false → h.req.InFile d (rest.drop 8))
    (hq : I qs h.req d) :
    ∃ h' d', Loop.Returns (VirusHandler.readBody E) ⟨h, d, buf, buf.length⟩ (h', d') ∧
      h'.req.Pends d' (requests.mode stale (rest ++ buf)) (requests.rest stale (rest ++ buf)) ∧
      h'.resp = h.resp ++ (requests.items stale (rest ++ buf)).map (Request.reply E) ∧
      (K → requests.mode stale (rest ++ buf) = false →
        h'.req.InFile d' ((requests.rest stale (rest ++ buf)).drop 8)) ∧
      I (qs ++ requests.items stale (rest ++ buf)) h'.req d' := by
  induction hlen : (rest ++ buf).length using Nat.strong_induction_on generalizing h d stale rest buf qs with
  | _ n ih =>
    obtain ⟨m, s, d₁, hrun, hwork, htook, hfiled⟩ := write_pends hE hp hk hn hi
    unfold Took at htook
    unfold Filed at hfiled
    cases hnext : nextRequest stale (rest ++ buf) with
    | none =>
      rw [hnext] at htook hfiled
      obtain ⟨rfl, hpend⟩ := htook
      refine ⟨{ h with req := s }, d₁, ?_, ?_, ?_, ?_, ?_⟩
      · exact Loop.returns_done (readBody_last (c := ⟨h, d, buf, buf.length⟩) hrun hpend.not_complete rfl)
      · rwa [Scanner.mode_none (S := requests) hnext, Scanner.rest_none (S := requests) hnext]
      · rw [Scanner.items_none (S := requests) hnext, List.map_nil, List.append_nil]
      · rw [Scanner.mode_none (S := requests) hnext, Scanner.rest_none (S := requests) hnext]
        exact fun hK => hfiled (hfile hK)
      · rw [Scanner.items_none (S := requests) hnext, List.append_nil]
        exact hI.work _ _ _ _ _ _ _ _ hq hp hwork hpend
    | some r =>
      obtain ⟨q, stale', k⟩ := r
      rw [hnext] at htook hfiled
      obtain ⟨hkm, hgot⟩ := htook
      have hkpos := requests.pos (k := k) hnext
      have hkle := requests.le (k := k) hnext
      have hall : (rest ++ buf).length = rest.length + buf.length := List.length_append
      -- what is left of the chunk is what the scanner goes on with
      have hleft : (rest ++ buf).drop k = buf.drop m := by
        rw [List.drop_append, List.drop_eq_nil_of_le (by omega), List.nil_append]
        congr 1
        omega
      have hans : (h.answered E s d₁).resp = h.resp ++ [q.reply E] := by
        simp only [VirusHandler.answered, hE.malloc, hgot.id]
        rfl
      have hI' : I (qs ++ [q]) (s.clear d₁).1 (s.clear d₁).2.replied :=
        hI.done _ _ _ _ _ _ _ _ _ _ _ hq hp hwork hgot hnext fun hK => hfiled (hfile hK)
      have hbody := readBody_complete (c := ⟨h, d, buf, buf.length⟩) hE.calloc hrun hgot.isComplete
      rw [Scanner.mode_some (S := requests) hnext, Scanner.rest_some (S := requests) hnext,
        Scanner.items_some (S := requests) hnext, hleft]
      have hnofile : stale' = false → (s.clear d₁).1.InFile (s.clear d₁).2.replied [] := by
        rintro rfl c hc
        rw [clear_file hgot.storage] at hc
        cases hc
      by_cases hm : (buf.length : ℤ) - m = 0
      · rw [if_pos hm] at hbody
        have hnil : buf.drop m = [] := List.drop_eq_nil_of_le (by omega)
        refine ⟨_, _, Loop.returns_done hbody, ?_, ?_, ?_, ?_⟩
        · rw [hnil, Scanner.mode_none (requests.next_nil _), Scanner.rest_none (requests.next_nil _)]
          exact hgot.clear
        · rw [hnil, Scanner.items_none (requests.next_nil _), hans]
          rfl
        · rw [hnil, Scanner.mode_none (requests.next_nil _), Scanner.rest_none (requests.next_nil _)]
          exact fun _ => hnofile
        · rw [hnil, Scanner.items_none (requests.next_nil _)]
          exact hI'
      · rw [if_neg hm] at hbody
        have hlen' : (buf.drop m).length = buf.length - m := List.length_drop
        obtain ⟨h', d', hret, hpend', hresp', hfile', hq'⟩ := ih (buf.drop m).length (by omega)
          (h := h.answered E s d₁) (qs ++ [q]) hgot.clear (.inl rfl)
          (by intro hnil; rw [hnil, List.length_nil] at hlen'; omega) (by omega) (fun _ => hnofile) hI' rfl
        rw [List.nil_append] at hpend' hresp' hfile' hq'
        refine ⟨h', d', ?_, hpend', ?_, hfile', ?_⟩
        · rw [Loop.returns_again hbody]
          simp only [ReadState.next]
          rwa [show (buf.length : ℤ) - m = ((buf.drop m).length : ℤ) by omega]
        · rw [hresp', hans, List.append_assoc]
          rfl
        · rwa [List.append_assoc] at hq'

/-! ### Chunks -/

/-- No boundary between two chunks lies inside a header, where `rest` has come before. -/
def HeadersIn (stale : Bool) (rest : List UInt8) (chunks : List (List UInt8)) : Prop :=
  ∀ ps qs, chunks = ps ++ qs → ps ≠ [] → qs ≠ [] →
    requests.rest stale (rest ++ ps.flatten) = [] ∨ 8 ≤ (requests.rest stale (rest ++ ps.flatten)).length

/-- The handler `h'` is `h` after it has read `bs` behind `rest`, as the scanner says. -/
structure VirusHandler.Scanned (E : LibC) (stale : Bool) (bs : List UInt8) (h h' : VirusHandler) (d' : Disk) :
    Prop where
  pends : h'.req.Pends d' (requests.mode stale bs) (requests.rest stale bs)
  resp : h'.resp = h.resp ++ (requests.items stale bs).map (Request.reply E)
  file : requests.mode stale bs = false → h'.req.InFile d' ((requests.rest stale bs).drop 8)

theorem headersIn_nil : HeadersIn stale rest [] := by
  intro ps qs heq hne _
  exact absurd (List.append_eq_nil_iff.1 heq.symm).1 hne

/-- **The first chunk taken off.** -/
theorem headersIn_cons {p : List UInt8} {ps : List (List UInt8)} :
    HeadersIn stale rest (p :: ps) ↔
      (ps ≠ [] → requests.rest stale (rest ++ p) = [] ∨ 8 ≤ (requests.rest stale (rest ++ p)).length) ∧
        HeadersIn (requests.mode stale (rest ++ p)) (requests.rest stale (rest ++ p)) ps := by
  have hjoin : ∀ qs : List (List UInt8), requests.rest stale (rest ++ (p :: qs).flatten) =
      requests.rest (requests.mode stale (rest ++ p)) (requests.rest stale (rest ++ p) ++ qs.flatten) := by
    intro qs
    rw [List.flatten_cons, ← List.append_assoc, Scanner.rest_append]
  constructor
  · intro h
    refine ⟨fun hne => ?_, fun qs rs heq hqs hrs => ?_⟩
    · have h1 := h [p] ps rfl (by simp) hne
      rwa [List.flatten_singleton] at h1
    · have h1 := h (p :: qs) rs (by rw [heq]; rfl) (by simp) hrs
      rwa [hjoin] at h1
  · rintro ⟨hfirst, hrest⟩ qs rs heq hqs hrs
    cases qs with
    | nil => exact absurd rfl hqs
    | cons q qs =>
      obtain ⟨rfl, hps⟩ := List.cons.inj heq
      rcases eq_or_ne qs [] with rfl | hqs'
      · rw [List.flatten_singleton]
        exact hfirst (by rw [hps]; exact hrs)
      · rw [hjoin]
        exact hrest qs rs hps hqs' hrs

/-- A chunk that begins inside a header is not read. -/
theorem HV.Pends.not_reads {h h' : VirusHandler} {p : List UInt8} {ps : List (List UInt8)}
    (hp : h.req.Pends d stale rest) (h0 : rest ≠ []) (h8 : rest.length < 8) (hn : p ≠ []) :
    ¬ Reads E h d (p :: ps) h' d' := by
  intro hr
  have hlen : h.req.hlen = rest.length := hp.hlen.trans (min_eq_left h8.le)
  have hpos := List.length_pos_iff.2 h0
  have hw := write_cut (E := E) (s := h.req) (d := d) (by rw [hlen]; exact hpos) (by rw [hlen]; exact h8)
    (List.length_pos_iff.2 hn) (le_refl p.length)
  cases hr with
  | cons hret _ => exact Loop.not_terminates_fault (readBody_error (c := ⟨h, d, p, p.length⟩) hw) ⟨_, hret⟩

/-- What one read of `bs` and one of `cs` make together. -/
theorem VirusHandler.Scanned.append {h h' h'' : VirusHandler} {cs : List UInt8}
    (h₁ : h.Scanned E stale bs h' d')
    (h₂ : h'.Scanned E (requests.mode stale bs) (requests.rest stale bs ++ cs) h'' d₁) :
    h.Scanned E stale (bs ++ cs) h'' d₁ := by
  obtain ⟨hp, hr, hf⟩ := h₂
  rw [← Scanner.mode_append, ← Scanner.rest_append] at hp hf
  refine ⟨hp, ?_, hf⟩
  rw [hr, h₁.resp, Scanner.items_append requests stale bs cs, List.map_append, List.append_assoc]

/-- Nothing but the scanner. -/
theorem ScanRules.trivial (E : LibC) (K : Prop) : ScanRules E K fun _ _ _ => True := by
  constructor
  · intros
    exact True.intro
  · intros
    exact True.intro

/-- **A row of chunks** is read as the scanner says, or one of its boundaries lies inside a
header. -/
theorem reads_scan (hE : E.Succeeds) {h : VirusHandler} {chunks : List (List UInt8)}
    (hp : h.req.Pends d stale rest) (hnext : chunks ≠ [] → rest = [] ∨ 8 ≤ rest.length)
    (hfile : stale = false → h.req.InFile d (rest.drop 8))
    (hps : ∀ p ∈ chunks, p ≠ [] ∧ p.length ≤ 65535) :
    (HeadersIn stale rest chunks ∧ ∃ h' d', Reads E h d chunks h' d' ∧
        h.Scanned E stale (rest ++ chunks.flatten) h' d') ∨
      ¬ HeadersIn stale rest chunks ∧ ∀ h' d', ¬ Reads E h d chunks h' d' := by
  induction chunks generalizing h d stale rest with
  | nil =>
    have hpend := hp.next
    refine .inl ⟨headersIn_nil, h, d, .nil h d, ?_⟩
    rw [List.flatten_nil, List.append_nil]
    refine ⟨?_, ?_, ?_⟩
    · rwa [Scanner.mode_none (S := requests) hpend, Scanner.rest_none (S := requests) hpend]
    · rw [Scanner.items_none (S := requests) hpend, List.map_nil, List.append_nil]
    · rwa [Scanner.mode_none (S := requests) hpend, Scanner.rest_none (S := requests) hpend]
  | cons p ps ih =>
    obtain ⟨hne, hle⟩ := hps p List.mem_cons_self
    obtain ⟨h₁, d₁, hret, hp₁, hr₁, hf₁, -⟩ := readLoop_scans hE (ScanRules.trivial E True) []
      hp (hnext (by simp)) hne (by omega) (fun _ => hfile) True.intro
    have hscan : h.Scanned E stale (rest ++ p) h₁ d₁ := ⟨hp₁, hr₁, hf₁ True.intro⟩
    rw [headersIn_cons]
    by_cases hmore : ps ≠ [] → requests.rest stale (rest ++ p) = [] ∨
        8 ≤ (requests.rest stale (rest ++ p)).length
    · -- the chunk ends outside of the headers
      rcases ih hp₁ hmore (hf₁ True.intro) (fun q hq => hps q (List.mem_cons_of_mem _ hq)) with
        ⟨hin, h', d', hreads, hscan'⟩ | ⟨hin, hnot⟩
      · refine .inl ⟨⟨hmore, hin⟩, h', d', .cons hret hreads, ?_⟩
        rw [List.flatten_cons, ← List.append_assoc]
        exact hscan.append hscan'
      · refine .inr ⟨fun hin' => hin hin'.2, fun h' d' hreads => ?_⟩
        exact hnot h' d' (hreads.cons_inv hret)
    · -- the next chunk would begin inside a header
      refine .inr ⟨fun hin => hmore hin.1, fun h' d' hreads => ?_⟩
      obtain ⟨hps', hcut⟩ := Classical.not_imp.1 hmore
      obtain ⟨h0, h8⟩ := not_or.1 hcut
      obtain ⟨q, qs, rfl⟩ := List.exists_cons_of_ne_nil hps'
      obtain ⟨hq, -⟩ := hps q (by simp)
      exact hp₁.not_reads h0 (by omega) hq (hreads.cons_inv hret)

/-- **A session depends on its bytes only.** A new handler that receives chunks reads them to the end
exactly when no boundary between two of them lies inside a header. Then it has queued one reply for
each request of the stream, in order, and stands where the stream stands, however the stream was cut
and whatever it holds. -/
theorem session_scans (hE : E.Succeeds) (st : StorageTo) (header : Header) (state : State) (d : Disk)
    {chunks : List (List UInt8)} (hps : ∀ p ∈ chunks, p ≠ [] ∧ p.length ≤ 65535) :
    (HeadersIn false [] chunks → ∃ h' d', Reads E (.new (.new st header) state) d chunks h' d' ∧
        h'.resp = (requests.items false chunks.flatten).map (Request.reply E) ∧
        h'.req.Pends d' (requests.mode false chunks.flatten) (requests.rest false chunks.flatten) ∧
        (requests.mode false chunks.flatten = false →
          h'.req.InFile d' ((requests.rest false chunks.flatten).drop 8))) ∧
      (¬ HeadersIn false [] chunks → ∀ h' d', ¬ Reads E (.new (.new st header) state) d chunks h' d') := by
  have hfile : (false : Bool) = false → (HV.new st header).InFile d ([].drop 8) := by
    intro _ c hc
    cases hc
  rcases reads_scan hE (h := .new (.new st header) state) (.new st header d) (fun _ => .inl rfl) hfile hps with
    ⟨hin, h', d', hreads, hscan⟩ | ⟨hin, hnot⟩
  · refine ⟨fun _ => ⟨h', d', hreads, ?_, hscan.pends, hscan.file⟩, fun h => absurd hin h⟩
    exact hscan.resp
  · exact ⟨fun h => absurd h hin, fun _ => hnot⟩

/-- A small frame, and a header behind it that announces seven bytes. -/
def oddStream : List UInt8 := smallFrame.wire ++ [0, 0, 0, 2, 0, 0, 0, 7]

/-- The scanner on it: the request behind the small one is not over with its header. -/
theorem requests_odd : requests.run false oddStream = ([⟨1, some [5]⟩], true, [0, 0, 0, 2, 0, 0, 0, 7]) := by
  have h₁ : requests.next false oddStream = some (⟨1, some [5]⟩, true, 9) := by decide
  have h₂ : requests.next true (oddStream.drop 9) = none := by decide
  rw [Scanner.run_some h₁, Scanner.items_none h₂, Scanner.run_none h₂]
  decide

/-- With one byte more it is, and that byte belongs to the next header. -/
theorem requests_odd_nine : requests.run false (oddStream ++ [9]) = ([⟨1, some [5]⟩, ⟨2, none⟩], true, [9]) := by
  have h₃ : requests.next true [0, 0, 0, 2, 0, 0, 0, 7, 9] = some (⟨2, none⟩, true, 8) := by decide
  have h₄ : requests.next true [9] = none := by decide
  rw [Scanner.run_append, Scanner.items, Scanner.mode, Scanner.rest, requests_odd]
  change (_ ++ requests.items true [0, 0, 0, 2, 0, 0, 0, 7, 9],
    (requests.run true [0, 0, 0, 2, 0, 0, 0, 7, 9]).2) = _
  rw [Scanner.items_some h₃, Scanner.run_some h₃]
  change ([⟨1, some [5]⟩] ++ ⟨2, none⟩ :: requests.items true [9], (requests.run true [9]).2) = _
  rw [Scanner.items_none h₄, Scanner.run_none h₄]
  rfl

/-- Such a stream in two chunks: the value of the second request is not read as one. -/
theorem session_scans_odd :
    ∃ h' d', Reads .steady (.new (.new .auto ⟨0, 0⟩) .ok) .empty [oddStream, [9]] h' d' ∧
      h'.resp = [HV.replyTo .steady 1 .ok true, HV.replyTo .steady 2 .ok true] := by
  have hin : HeadersIn false [] [oddStream, [9]] := by
    rw [headersIn_cons, headersIn_cons, List.nil_append, Scanner.rest, Scanner.mode, requests_odd]
    exact ⟨fun _ => .inr le_rfl, fun h => absurd rfl h, headersIn_nil⟩
  obtain ⟨h', d', hreads, hresp, -⟩ :=
    (session_scans LibC.steady_succeeds .auto ⟨0, 0⟩ .ok .empty (by decide)).1 hin
  refine ⟨h', d', hreads, ?_⟩
  rw [hresp, show [oddStream, [9]].flatten = oddStream ++ [9] from rfl, Scanner.items, requests_odd_nine]
  rfl

end DocFerry
