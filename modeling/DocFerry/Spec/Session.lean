import DocFerry.Lib.Scan
import DocFerry.Model.HV
import DocFerry.Spec.Frame

/-!
# What a session makes of its bytes

How the code reads a stream of bytes, whatever the bytes are, told without its state. A request is over
with its last value byte. Two habits of the code are not those of the format: an empty request is over
with the byte behind its header; and after a request of less than `DEFAULT_MAX_MEMORY_CACHE` bytes, whose
cache is left behind, the next header is a request without a value, so that the value bytes behind it are
taken for a header again.

* `requests`: the scanner. Its mode tells whether an old cache is there.
* `requests_wires`: a stream of frames that leave no cache behind is read as these frames.
* `ReadHeaders`: eight bytes here and there that were taken for headers, in their order. That they were
  headers to the client is not said.
-/

namespace DocFerry

/-- A request as it was understood: its value is missing when an old cache stood in the way. -/
structure Request where
  id : UInt32
  value : Option (List UInt8)
  deriving DecidableEq, Repr

/-- How many value bytes belong to a request with this header. -/
def valueLen (stale : Bool) (header : Header) : ℕ := if stale then 0 else header.length.toNat

/-- Is a cache left behind by a request with this header? -/
def leavesCache (header : Header) : Bool := decide (header.length < defaultMaxMemoryCache)

/-- A frame that leaves no cache behind. -/
def Frame.Large (f : Frame) : Prop := defaultMaxMemoryCache.toNat ≤ f.value.length

/-- The request that a frame is. -/
def Frame.request (f : Frame) : Request := ⟨f.id, some f.value⟩

theorem Frame.Large.leaves {f : Frame} (h : f.Large) : leavesCache ⟨f.id, f.len⟩ = false := by
  unfold leavesCache
  rw [decide_eq_false_iff_not, UInt32.lt_iff_toNat_lt, f.len_toNat]
  exact not_lt.2 h

/-- The request at the front of `bs`. -/
def nextRequest (stale : Bool) (bs : List UInt8) : Option (Request × Bool × ℕ) :=
  if 8 < bs.length ∧ 8 + valueLen stale (headOf bs) ≤ bs.length then
    some (⟨(headOf bs).id, if stale then none else some ((bs.drop 8).take (headOf bs).length.toNat)⟩,
      leavesCache (headOf bs), 8 + valueLen stale (headOf bs))
  else none

/-- The values of requests, as far as they are not empty. -/
def values (qs : List Request) : List (List UInt8) := (qs.filterMap Request.value).filter (· ≠ [])

theorem values_append (qs rs : List Request) : values (qs ++ rs) = values qs ++ values rs := by
  simp only [values, List.filterMap_append, List.filter_append]

/-- The first eight bytes make the header. -/
theorem headOf_append {bs : List UInt8} (h : 8 ≤ bs.length) (cs : List UInt8) :
    headOf (bs ++ cs) = headOf bs := by
  unfold headOf
  rw [List.take_append_of_le_length (by omega), List.drop_append_of_le_length (by omega),
    List.take_append_of_le_length (by rw [List.length_drop]; omega)]

theorem nextRequest_none {stale : Bool} {bs : List UInt8}
    (h : bs.length ≤ 8 ∨ bs.length < 8 + valueLen stale (headOf bs)) : nextRequest stale bs = none := by
  unfold nextRequest
  rw [if_neg (by omega)]

theorem nextRequest_some {stale : Bool} {bs : List UInt8} (h8 : 8 < bs.length)
    (h : 8 + valueLen stale (headOf bs) ≤ bs.length) :
    nextRequest stale bs =
      some (⟨(headOf bs).id, if stale then none else some ((bs.drop 8).take (headOf bs).length.toNat)⟩,
        leavesCache (headOf bs), 8 + valueLen stale (headOf bs)) := by
  unfold nextRequest
  rw [if_pos ⟨h8, h⟩]

theorem nextRequest_inv {stale stale' : Bool} {bs : List UInt8} {q : Request} {k : ℕ}
    (h : nextRequest stale bs = some (q, stale', k)) :
    8 < bs.length ∧ k = 8 + valueLen stale (headOf bs) ∧ k ≤ bs.length ∧
      stale' = leavesCache (headOf bs) ∧
      q = ⟨(headOf bs).id, if stale then none else some ((bs.drop 8).take (headOf bs).length.toNat)⟩ := by
  unfold nextRequest at h
  split at h
  · rename_i hle
    cases h
    exact ⟨hle.1, rfl, hle.2, rfl, rfl⟩
  · cases h

/-- The requests in a stream of bytes. -/
def requests : Scanner Bool Request UInt8 where
  next := nextRequest
  pos h := by
    obtain ⟨-, rfl, -⟩ := nextRequest_inv h
    omega
  le h := (nextRequest_inv h).2.2.1
  extend {stale bs r} cs h := by
    obtain ⟨q, stale', k⟩ := r
    obtain ⟨h8, rfl, hle, rfl, rfl⟩ := nextRequest_inv h
    have hhead : headOf (bs ++ cs) = headOf bs := headOf_append h8.le cs
    rw [nextRequest_some (by rw [List.length_append]; omega)
      (by rw [hhead, List.length_append]; omega), hhead, List.drop_append_of_le_length h8.le]
    cases stale with
    | true => rfl
    | false =>
      have hlen : (headOf bs).length.toNat ≤ (bs.drop 8).length := by
        rw [List.length_drop]
        simp only [valueLen, Bool.false_eq_true, if_false] at hle
        omega
      rw [List.take_append_of_le_length hlen]

/-- **A stream of large frames** is read as these frames. -/
theorem requests_wires {fs : List Frame} (hlarge : ∀ f ∈ fs, f.Large) :
    requests.run false (wires fs) = (fs.map Frame.request, false, []) := by
  induction fs with
  | nil => exact Scanner.run_none (requests.next_nil false)
  | cons f fs ih =>
    have hf := (hlarge f List.mem_cons_self).leaves
    have hhead : headOf (f.wire ++ wires fs) = ⟨f.id, f.len⟩ :=
      headOf_of_prefix ⟨f.value ++ wires fs, by rw [Frame.wire, List.append_assoc]⟩
    have hpos : 0 < f.value.length := lt_of_lt_of_le (by decide) (hlarge f List.mem_cons_self)
    have hdrop : (f.wire ++ wires fs).drop 8 = f.value ++ wires fs := by
      rw [Frame.wire, List.append_assoc, List.drop_left' f.length_head]
    have hnext : nextRequest false (f.wire ++ wires fs) =
        some (⟨f.id, some f.value⟩, false, 8 + f.value.length) := by
      rw [nextRequest_some (by rw [List.length_append, f.length_wire]; omega)
        (by rw [hhead, List.length_append, f.length_wire]; simp [valueLen]), hhead, hdrop]
      simp only [valueLen, Bool.false_eq_true, if_false, Frame.len_toNat, hf, List.take_left']
    rw [wires_cons, Scanner.run_some (S := requests) hnext]
    have hrest : (f.wire ++ wires fs).drop (8 + f.value.length) = wires fs :=
      List.drop_left' f.length_wire
    rw [hrest, Scanner.items, ih fun g hg => hlarge g (List.mem_cons_of_mem _ hg)]
    rfl

/-- So is the front of a stream that begins with large frames. -/
theorem requests_of_wires {fs : List Frame} {bs : List UInt8} (hlarge : ∀ f ∈ fs, f.Large)
    (h : wires fs <+: bs) : fs.map Frame.request <+: requests.items false bs := by
  obtain ⟨cs, rfl⟩ := h
  have hitems : requests.items false (wires fs) = fs.map Frame.request := by
    rw [Scanner.items, requests_wires hlarge]
  rw [← hitems]
  exact Scanner.items_prefix requests false (wires fs) cs

/-! ### Headers and what they are told -/

/-- The headers `hs` were read from `bs`, one behind the other. -/
inductive ReadHeaders : List UInt8 → List Header → Prop
  | nil (bs : List UInt8) : ReadHeaders bs []
  | snoc {pre bs b : List UInt8} {hs : List Header} (h : ReadHeaders pre hs) (h8 : b.length = 8)
      (hb : pre ++ b <+: bs) : ReadHeaders bs (hs ++ [headOf b])

theorem ReadHeaders.mono {bs cs : List UInt8} {hs : List Header} (h : ReadHeaders bs hs) (hle : bs <+: cs) :
    ReadHeaders cs hs := by
  cases h with
  | nil => exact .nil cs
  | snoc h h8 hb => exact .snoc h h8 (hb.trans hle)

/-- No byte is in two headers. -/
theorem ReadHeaders.length_le {bs : List UInt8} {hs : List Header} (h : ReadHeaders bs hs) :
    8 * hs.length ≤ bs.length := by
  induction h with
  | nil => exact Nat.zero_le _
  | snoc _ h8 hb ih =>
    have hle := hb.length_le
    rw [List.length_append] at hle ⊢
    rw [List.length_singleton]
    omega

/-- What a client is told about a request: the id and the state of an answer. -/
structure Ack where
  id : UInt32
  state : State

/-- The frame of an answer: the state lies in it as on the host. -/
def Ack.frame (host : Bytes.Endian) (a : Ack) : Frame where
  id := a.id
  value := storeWord host a.state.code
  small := by
    rw [length_storeWord]
    decide

theorem Ack.length_wires (host : Bytes.Endian) (as : List Ack) :
    (wires (as.map (Ack.frame host))).length = 12 * as.length := by
  induction as with
  | nil => rfl
  | cons a as ih =>
    have ha : (a.frame host).value.length = 4 := length_storeWord _ _
    rw [List.map_cons, wires_cons, List.length_append, Frame.length_wire, ha, ih, List.length_cons]
    omega

/-- Answers that end with answers begin with answers. -/
theorem Ack.wires_split {host : Bytes.Endian} {out : List UInt8} {qs as : List Ack}
    (h : out ++ wires (qs.map (Ack.frame host)) = wires (as.map (Ack.frame host))) :
    ∃ told queued, as = told ++ queued ∧ out = wires (told.map (Ack.frame host)) ∧
      wires (qs.map (Ack.frame host)) = wires (queued.map (Ack.frame host)) := by
  have hlen := congrArg List.length h
  rw [List.length_append, Ack.length_wires, Ack.length_wires] at hlen
  set j := as.length - qs.length with hj
  have hsplit : as = as.take j ++ as.drop j := (List.take_append_drop j as).symm
  have hout : out.length = (wires ((as.take j).map (Ack.frame host))).length := by
    rw [Ack.length_wires, List.length_take]
    omega
  rw [hsplit, List.map_append, wires_append] at h
  exact ⟨as.take j, as.drop j, hsplit, List.append_inj h hout⟩

end DocFerry
