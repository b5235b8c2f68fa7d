import DocFerry.Proof.Directory

/-!
# The indices of a cache

Both calls clamp their count by an unsigned subtraction of two indices: one index out of order,
and the count would be close to `2 ^ 64`.

* `Cache.Ordered` is the invariant, `Called.ordered` its step and `Called.run_ordered` the run.
* `Cache.Ordered.inside`: where it holds, no subtraction wraps and no access leaves the buffer.
* `cache_indices_ordered`: any calls on a cache that `create_cache` has made.
-/

namespace DocFerry

open Bytes

variable {E : LibC} {d d' : Disk} {c c' : Cache} {cache_dir : Option (List Char)} {k n : ℕ}
  {storage : StorageTo}

/-- The indices of a cache of `n` bytes are in order, and a buffer is that long. -/
structure Cache.Ordered (n : ℕ) (c : Cache) : Prop where
  capacity : c.priv.capacity = n
  ridx_le : c.priv.ridx ≤ c.priv.widx
  widx_le : c.priv.widx ≤ c.priv.capacity
  buf : ∀ buf ∈ c.buf, buf.length = n

/-- Whatever the next call is: its unsigned subtraction gives the difference, and what it copies
into the buffer or out of it lies inside. -/
structure Cache.Inside (c : Cache) : Prop where
  room : (sizeSub c.priv.capacity c.priv.widx : ℤ) = c.priv.capacity - c.priv.widx
  left : (sizeSub c.priv.widx c.priv.ridx : ℤ) = c.priv.widx - c.priv.ridx
  push : ∀ buf ∈ c.buf, ∀ data_len, c.priv.widx + c.pushLen data_len ≤ buf.length
  pop : ∀ buf ∈ c.buf, ∀ data_len, c.priv.ridx + c.popLen data_len ≤ buf.length

/-- One call on a cache, `delete_cache` included. Each call meets a library and a disk of its own,
so that `fread` and `fwrite` may give whatever they can give. -/
inductive Called : Cache → Cache → Prop
  | used {c c' : Cache} (h : Used c c') : Called c c'
  | deleted (d : Disk) (c : Cache) : Called c (deleteCache d c).1

/-! ### What the calls of the library give -/

theorem fwrite_le (E : LibC) (d : Disk) (fp : ℕ) (data : List UInt8) :
    (fwrite E d fp data).1 ≤ data.length := by
  unfold fwrite
  cases d.streams fp with
  | none => exact Nat.zero_le _
  | some st => exact E.taken_le d _

theorem length_fread_le (E : LibC) (d : Disk) (fp n : ℕ) : (fread E d fp n).1.length ≤ n := by
  unfold fread
  cases d.streams fp with
  | none => exact Nat.zero_le _
  | some st =>
    dsimp only
    by_cases hr : st.readable = true
    · rw [if_pos hr]
      refine (List.length_take_le _ _).trans ?_
      split
      · exact le_rfl
      · exact min_le_right _ _
    · rw [if_neg hr]
      exact Nat.zero_le _

/-- `fwrite` may give any count up to that which was asked for. -/
theorem fwrite_any (fp : ℕ) {data : List UInt8} (hk : k ≤ data.length) :
    ∃ E d, (fwrite E d fp data).1 = k := by
  refine ⟨{ LibC.steady with fwrite := fun _ => some k },
    { Disk.empty with streams := fun _ => some ⟨0, 0, [], false⟩ }, ?_⟩
  exact min_eq_left hk

/-- `fread` may give any bytes up to the count that was asked for. -/
theorem fread_any (fp : ℕ) {bs : List UInt8} (hn : bs.length ≤ n) :
    ∃ E d, (fread E d fp n).1 = bs := by
  refine ⟨.steady, { Disk.empty with streams := fun _ => some ⟨0, 0, [], true⟩, files := fun _ => bs }, ?_⟩
  exact List.take_of_length_le hn

/-! ### The counts -/

theorem Cache.Ordered.capacity_lt (h : c.Ordered n) (hn : n < 2 ^ 32) : c.priv.capacity < 2 ^ 64 := by
  have hcap := h.capacity
  omega

theorem Cache.Ordered.widx_lt (h : c.Ordered n) (hn : n < 2 ^ 32) : c.priv.widx < 2 ^ 64 :=
  h.widx_le.trans_lt (h.capacity_lt hn)

theorem Cache.Ordered.pushLen (h : c.Ordered n) (hn : n < 2 ^ 32) (m : ℕ) :
    c.pushLen m = min (c.priv.capacity - c.priv.widx) m :=
  Cache.pushLen_eq h.widx_le (h.capacity_lt hn) m

theorem Cache.Ordered.popLen (h : c.Ordered n) (hn : n < 2 ^ 32) (m : ℕ) :
    c.popLen m = min (c.priv.widx - c.priv.ridx) m :=
  Cache.popLen_eq h.ridx_le (h.widx_lt hn) m

/-- **Where the indices are in order** the next call stays inside the buffer. -/
theorem Cache.Ordered.inside (h : c.Ordered n) (hn : n < 2 ^ 32) : c.Inside := by
  have hridx := h.ridx_le
  have hwidx := h.widx_le
  have hcap := h.capacity
  refine ⟨?_, ?_, fun buf hbuf m => ?_, fun buf hbuf m => ?_⟩
  · rw [sizeSub_of_le hwidx (h.capacity_lt hn), Nat.cast_sub hwidx]
  · rw [sizeSub_of_le hridx (h.widx_lt hn), Nat.cast_sub hridx]
  · rw [h.buf buf hbuf, h.pushLen hn]
    omega
  · rw [h.buf buf hbuf, h.popLen hn]
    omega

/-! ### The calls -/

/-- A cache that has taken `k` bytes. -/
theorem Cache.Ordered.push (h : c.Ordered n) (hn : n < 2 ^ 32) {m : ℕ} (hk : k ≤ c.pushLen m)
    {b : Option (List UInt8)} (hb : ∀ buf ∈ b, buf.length = n) :
    ({ c with buf := b, priv := { c.priv with widx := sizeAdd c.priv.widx k } } : Cache).Ordered n := by
  rw [h.pushLen hn] at hk
  have hridx := h.ridx_le
  have hwidx := h.widx_le
  have hcap := h.capacity
  have hadd : sizeAdd c.priv.widx k = c.priv.widx + k := sizeAdd_of_lt (by omega)
  refine ⟨hcap, ?_, ?_, hb⟩
  · show c.priv.ridx ≤ sizeAdd c.priv.widx k
    omega
  · show sizeAdd c.priv.widx k ≤ c.priv.capacity
    omega

theorem cachePush_ordered (h : c.Ordered n) (hn : n < 2 ^ 32) (E : LibC) (d : Disk)
    (data : List UInt8) (m : ℕ) : (cachePush E d c data m).2.1.Ordered n := by
  cases hb : c.buf with
  | some buf =>
    rw [cachePush_buf E d hb]
    refine h.push hn (m := m) le_rfl fun buf' hbuf' => ?_
    obtain rfl := Option.some.inj hbuf'
    -- the block that is copied ends before the buffer does
    have hend := (h.inside hn).push buf hb m
    have hblock : (data.take (c.pushLen m)).length ≤ c.pushLen m := List.length_take_le _ _
    rw [length_overwrite (by omega)]
    exact h.buf buf hb
  | none =>
    cases hw : c.priv.wfp with
    | none =>
      rw [cachePush_deleted E d hb hw]
      exact h
    | some fp =>
      rw [cachePush_stream E d hb hw]
      exact h.push hn ((fwrite_le E d fp _).trans (List.length_take_le _ _)) h.buf

/-- A cache that has given `k` bytes. -/
theorem Cache.Ordered.pop (h : c.Ordered n) (hn : n < 2 ^ 32) {m : ℕ} (hk : k ≤ c.popLen m) :
    ({ c with priv := { c.priv with ridx := sizeAdd c.priv.ridx k } } : Cache).Ordered n := by
  rw [h.popLen hn] at hk
  have hridx := h.ridx_le
  have hwidx := h.widx_le
  have hcap := h.capacity
  have hadd : sizeAdd c.priv.ridx k = c.priv.ridx + k := sizeAdd_of_lt (by omega)
  refine ⟨hcap, ?_, hwidx, h.buf⟩
  show sizeAdd c.priv.ridx k ≤ c.priv.widx
  omega

theorem cachePop_ordered (h : c.Ordered n) (hn : n < 2 ^ 32) (E : LibC) (d : Disk) (m : ℕ) :
    (cachePop E d c m).2.2.1.Ordered n := by
  cases hb : c.buf with
  | some buf =>
    rw [cachePop_buf E d hb]
    exact h.pop hn (m := m) le_rfl
  | none =>
    cases hw : c.priv.wfp with
    | none =>
      rw [cachePop_deleted E d hb hw]
      exact h
    | some fp =>
      rw [cachePop_stream E d hb hw]
      exact h.pop hn (m := m) (length_fread_le E d fp _)

theorem deleteCache_ordered (h : c.Ordered n) (d : Disk) : (deleteCache d c).1.Ordered n := by
  unfold deleteCache
  cases hb : c.buf with
  | some buf => exact ⟨h.capacity, h.ridx_le, h.widx_le, fun _ hbuf => by cases hbuf⟩
  | none =>
    dsimp only
    by_cases hp : c.path ≠ []
    · rw [if_pos hp]
      exact ⟨h.capacity, h.ridx_le, h.widx_le, fun _ hbuf => by cases hbuf⟩
    · rw [if_neg hp]
      exact h

/-- **A call keeps the indices in order.** -/
theorem Called.ordered (h : Called c c') (hn : n < 2 ^ 32) (hc : c.Ordered n) : c'.Ordered n := by
  cases h with
  | used h =>
    cases h with
    | push E d _ data m => exact cachePush_ordered hc hn E d data m
    | pop E d _ m => exact cachePop_ordered hc hn E d m
  | deleted d _ => exact deleteCache_ordered hc d

theorem Called.run_ordered (h : Relation.ReflTransGen Called c c') (hn : n < 2 ^ 32)
    (hc : c.Ordered n) : c'.Ordered n := by
  induction h with
  | refl => exact hc
  | tail _ hu ih => exact hu.ordered hn ih

/-- A new cache is empty. -/
theorem createCache_ordered (hc : createCache E d cache_dir n storage = .ok (some c, d')) :
    c.Ordered n := by
  rcases createCache_some hc with ⟨-, dir, rfl⟩ | ⟨-, dir, content, start, held, rfl, -⟩
  · refine ⟨rfl, le_rfl, Nat.zero_le _, fun buf hbuf => ?_⟩
    obtain rfl := Option.some.inj hbuf
    exact List.length_replicate
  · exact ⟨rfl, le_rfl, Nat.zero_le _, fun _ hbuf => by cases hbuf⟩

/-- **The indices of a cache stay in order.** In memory or in a file, after any calls of
`cache_push`, `cache_pop` and `delete_cache`, `ridx ≤ widx ≤ capacity`; so in the next call no
subtraction wraps, and what it copies lies inside the bytes that were allocated. -/
theorem cache_indices_ordered (hn : n < 2 ^ 32)
    (hc : createCache E d cache_dir n storage = .ok (some c, d'))
    (hr : Relation.ReflTransGen Called c c') : c'.Ordered n ∧ c'.Inside := by
  have hord := Called.run_ordered hr hn (createCache_ordered hc)
  exact ⟨hord, hord.inside hn⟩

/-- Four bytes are pushed into a cache of three, two are popped, and the cache is deleted. -/
theorem cache_indices_ordered_three : ∃ c, createCache .steady .empty none 3 .mem =
      .ok (some c, { Disk.empty with ncalloc := 2, nmalloc := 1 }) ∧
    ∃ c', Relation.ReflTransGen Called c c' ∧ c'.priv.widx = 3 ∧ c'.priv.ridx = 2 ∧
      c'.Ordered 3 ∧ c'.Inside := by
  have hc : createCache .steady .empty none 3 .mem =
      .ok (some (memCache .steady 3), { Disk.empty with ncalloc := 2, nmalloc := 1 }) :=
    createCache_mem 3 rfl rfl
  have hrun := Relation.ReflTransGen.refl (r := Called) (a := memCache .steady 3)
    |>.tail (.used (.push .steady .empty _ [1, 2, 3, 4] 4))
    |>.tail (.used (.pop .steady .empty _ 2))
    |>.tail (.deleted .empty _)
  exact ⟨_, hc, _, hrun, by decide, by decide, cache_indices_ordered (by decide) hc hrun⟩

end DocFerry
