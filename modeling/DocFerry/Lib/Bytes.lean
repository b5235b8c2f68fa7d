import Mathlib.Tactic

/-!
# Words in memory and writes into byte arrays

* `encode`, `decode`: a number as `k` bytes in either byte order, and back;
  `decode_encode` and `encode_decode` are the two round trips.
* `overwrite`: a block of bytes stored at an offset of a byte array, which grows
  if the block ends behind it. `take_overwrite` says what the array holds up to
  the end of the block.
-/

namespace Bytes

/-! ### Byte order -/

/-- The order in which the bytes of a word lie in memory. -/
inductive Endian
  | little
  | big
  deriving DecidableEq, Repr

/-- The `k` low bytes of `n`, the lowest one first. -/
def leBytes : ℕ → ℕ → List UInt8
  | 0, _ => []
  | k + 1, n => UInt8.ofNat n :: leBytes k (n / 256)

/-- The number whose bytes are `bs`, the lowest one first. -/
def ofLe : List UInt8 → ℕ
  | [] => 0
  | b :: bs => b.toNat + 256 * ofLe bs

@[simp] theorem length_leBytes (k n : ℕ) : (leBytes k n).length = k := by
  induction k generalizing n with
  | zero => rfl
  | succ k ih => simp [leBytes, ih]

theorem ofLe_lt (bs : List UInt8) : ofLe bs < 256 ^ bs.length := by
  induction bs with
  | nil => simp [ofLe]
  | cons b bs ih =>
    have hb := b.toNat_lt
    simp only [ofLe, List.length_cons, pow_succ]
    omega

theorem ofLe_leBytes {k n : ℕ} (h : n < 256 ^ k) : ofLe (leBytes k n) = n := by
  induction k generalizing n with
  | zero => simp only [pow_zero, Nat.lt_one_iff] at h; simp [leBytes, ofLe, h]
  | succ k ih =>
    have hd : n / 256 < 256 ^ k := by
      rw [pow_succ] at h; omega
    simp only [leBytes, ofLe, ih hd, UInt8.toNat_ofNat']
    omega

theorem leBytes_ofLe (bs : List UInt8) : leBytes bs.length (ofLe bs) = bs := by
  induction bs with
  | nil => rfl
  | cons b bs ih =>
    have hb := b.toNat_lt
    have hdiv : (b.toNat + 256 * ofLe bs) / 256 = ofLe bs := by omega
    have hmod : UInt8.ofNat (b.toNat + 256 * ofLe bs) = b := by
      apply UInt8.toNat_inj.1
      rw [UInt8.toNat_ofNat']; omega
    simp only [List.length_cons, ofLe, leBytes, hdiv, hmod, ih]

/-- `n` as `k` bytes of memory. -/
def encode (e : Endian) (k n : ℕ) : List UInt8 :=
  match e with
  | .little => leBytes k n
  | .big => (leBytes k n).reverse

/-- The number that the bytes `bs` of memory hold. -/
def decode (e : Endian) (bs : List UInt8) : ℕ :=
  match e with
  | .little => ofLe bs
  | .big => ofLe bs.reverse

@[simp] theorem length_encode (e : Endian) (k n : ℕ) : (encode e k n).length = k := by
  cases e <;> simp [encode]

theorem decode_lt (e : Endian) (bs : List UInt8) : decode e bs < 256 ^ bs.length := by
  cases e with
  | little => exact ofLe_lt bs
  | big => simpa [decode] using ofLe_lt bs.reverse

/-- **Storing a number and loading it gives it back.** -/
theorem decode_encode (e : Endian) {k n : ℕ} (h : n < 256 ^ k) : decode e (encode e k n) = n := by
  cases e with
  | little => exact ofLe_leBytes h
  | big => simpa [decode, encode] using ofLe_leBytes h

/-- **Loading bytes and storing the number gives the bytes back.** -/
theorem encode_decode (e : Endian) (bs : List UInt8) : encode e bs.length (decode e bs) = bs := by
  cases e with
  | little => exact leBytes_ofLe bs
  | big =>
    have h := leBytes_ofLe bs.reverse
    rw [List.length_reverse] at h
    simp only [encode, decode, h, List.reverse_reverse]

/-! ### Writing into an array of bytes -/

/-- `l` with the block `bs` stored at offset `pos`. Bytes between the old end and
`pos` read as zero; an empty block changes nothing. -/
def overwrite (l : List UInt8) (pos : ℕ) (bs : List UInt8) : List UInt8 :=
  if bs = [] then l
  else l.take pos ++ List.replicate (pos - l.length) 0 ++ bs ++ l.drop (pos + bs.length)

@[simp] theorem overwrite_nil (l : List UInt8) (pos : ℕ) : overwrite l pos [] = l := if_pos rfl

/-- Where the array reaches up to the block, it is parted by it. -/
theorem overwrite_eq {l b : List UInt8} {pos : ℕ} (h : pos ≤ l.length) :
    overwrite l pos b = l.take pos ++ b ++ l.drop (pos + b.length) := by
  unfold overwrite
  split
  · rename_i hb
    simp [hb]
  · rw [Nat.sub_eq_zero_of_le h, List.replicate_zero, List.append_nil]

/-- **Two blocks one behind the other** are stored as one. -/
theorem overwrite_append (l a b : List UInt8) (pos : ℕ) :
    overwrite (overwrite l pos a) (pos + a.length) b = overwrite l pos (a ++ b) := by
  rcases eq_or_ne a [] with rfl | ha
  · simp
  rcases eq_or_ne b [] with rfl | hb
  · simp
  have hab : a ++ b ≠ [] := by simp [ha]
  -- the array reaches to the end of the first block
  set l' := l.take pos ++ List.replicate (pos - l.length) 0 with hl'
  have hlen : l'.length = pos := by
    rw [hl', List.length_append, List.length_take, List.length_replicate]
    omega
  have hfirst : overwrite l pos a = l' ++ a ++ l.drop (pos + a.length) := if_neg ha
  have htake : (l' ++ a ++ l.drop (pos + a.length)).take (pos + a.length) = l' ++ a :=
    List.take_left' (by rw [List.length_append, hlen])
  have hdrop : (l' ++ a ++ l.drop (pos + a.length)).drop (pos + a.length + b.length) =
      l.drop (pos + (a ++ b).length) := by
    rw [← List.drop_drop, List.drop_left' (by rw [List.length_append, hlen]), List.drop_drop,
      List.length_append, Nat.add_assoc]
  have hle : pos + a.length ≤ (l' ++ a ++ l.drop (pos + a.length)).length := by
    simp only [List.length_append, hlen]
    omega
  rw [hfirst, overwrite_eq hle, htake, hdrop]
  unfold overwrite
  rw [if_neg hab, ← hl']
  simp only [List.append_assoc]

/-- Up to the end of the block, the array holds what it held before the block,
then the block. -/
theorem take_overwrite {l b : List UInt8} {pos : ℕ} (h : pos ≤ l.length) :
    (overwrite l pos b).take (pos + b.length) = l.take pos ++ b := by
  unfold overwrite
  split
  · rename_i hb; simp [hb]
  · have hpos : min pos l.length = pos := min_eq_left h
    rw [Nat.sub_eq_zero_of_le h, List.replicate_zero, List.append_nil,
      List.take_left' (by simp [hpos])]

theorem length_overwrite {l b : List UInt8} {pos : ℕ} (h : pos + b.length ≤ l.length) :
    (overwrite l pos b).length = l.length := by
  unfold overwrite
  split
  · rfl
  · simp only [List.length_append, List.length_take, List.length_replicate, List.length_drop]
    omega

theorem le_length_overwrite {l b : List UInt8} {pos : ℕ} (h : pos ≤ l.length) :
    pos + b.length ≤ (overwrite l pos b).length := by
  unfold overwrite
  split
  · rename_i hb; simpa [hb] using h
  · simp only [List.length_append, List.length_take, List.length_replicate]
    omega

end Bytes
