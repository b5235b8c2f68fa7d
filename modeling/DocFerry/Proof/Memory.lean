import DocFerry.Lib.Fifo
import DocFerry.Proof.Cache

/-!
# A cache in memory is a queue

`Holds q c`: the buffer of the cache `c` holds what the queue `q` has taken, and the two
indices of `c` stand where `q` counts.

* `Holds.push`, `Holds.pop`: `cache_push` and `cache_pop` are the operations of the queue.
* `memory_cache_fifo`: a cache created in memory under any row of pushes and pops.
-/

namespace DocFerry

open Bytes

/-- The bytes that are left in a cache in memory. -/
def Cache.rest (c : Cache) : List UInt8 :=
  ((c.buf.getD []).drop c.priv.ridx).take (c.priv.widx - c.priv.ridx)

/-- A cache in memory. -/
structure Cache.InMemory (c : Cache) : Prop where
  buf : ∃ buf, c.buf = some buf ∧ c.priv.widx ≤ buf.length
  ridx : c.priv.ridx ≤ c.priv.widx
  small : c.priv.widx < 2 ^ 64

/-- The cache holds the queue `q`. -/
structure Holds (q : Fifo UInt8) (c : Cache) : Prop where
  buf : ∃ buf, c.buf = some buf ∧ buf.length = q.cap ∧ buf.take c.priv.widx = q.taken
  capacity : c.priv.capacity = q.cap
  widx : c.priv.widx = q.taken.length
  ridx : c.priv.ridx = q.given
  small : q.cap < 2 ^ 64

variable {E : LibC} {d d' : Disk} {c : Cache} {q : Fifo UInt8} {n : ℕ}

theorem length_rest (hc : c.InMemory) : c.rest.length = c.priv.widx - c.priv.ridx := by
  obtain ⟨buf, hbuf, hlen⟩ := hc.buf
  simp only [Cache.rest, hbuf, Option.getD_some, List.length_take, List.length_drop]
  omega

/-- **`cache_pop`** gives the bytes at the front of what is left. -/
theorem cachePop_mem (hc : c.InMemory) (d : Disk) (k : ℕ) :
    ∃ c', cachePop E d c k = ((c.rest.take k).length, c.rest.take k, c', d) ∧ c'.InMemory ∧
      c'.rest = c.rest.drop k ∧
        c' = { c with priv := { c.priv with ridx := c.priv.ridx + min k c.rest.length } } := by
  obtain ⟨buf, hbuf, hlen⟩ := hc.buf
  have hr := hc.ridx
  have hsm := hc.small
  have hrl := length_rest hc
  have hn : c.popLen k = min k c.rest.length := by
    rw [Cache.popLen_eq hr hsm, hrl, min_comm]
  have hrest : c.rest = (buf.drop c.priv.ridx).take (c.priv.widx - c.priv.ridx) := by
    simp [Cache.rest, hbuf]
  have hbytes : (buf.drop c.priv.ridx).take (min k c.rest.length) = c.rest.take k := by
    rw [hrl, hrest, List.take_take]
  refine ⟨{ c with priv := { c.priv with ridx := c.priv.ridx + min k c.rest.length } }, ?_,
    ⟨⟨buf, hbuf, hlen⟩, ?_, hsm⟩, ?_, rfl⟩
  · rw [cachePop_buf E d hbuf, hn, hbytes, sizeAdd_of_lt (by omega), List.length_take]
  · show c.priv.ridx + min k c.rest.length ≤ c.priv.widx
    omega
  · -- what is left lies behind the new index
    rw [hrl, hrest]
    simp only [Cache.rest, hbuf, Option.getD_some]
    rw [List.drop_take, List.drop_drop]
    rcases Nat.le_total k (c.priv.widx - c.priv.ridx) with hle | hle
    · rw [min_eq_left hle, Nat.sub_sub]
    · rw [min_eq_right hle, show c.priv.widx - (c.priv.ridx + (c.priv.widx - c.priv.ridx)) = 0 by omega,
        Nat.sub_eq_zero_of_le hle]
      rfl

/-! ### The queue -/

theorem Holds.inMemory (h : Holds q c) : c.InMemory := by
  obtain ⟨buf, hbuf, hlen, -⟩ := h.buf
  have hle := q.le_cap
  have hsmall := h.small
  have hw := h.widx
  refine ⟨⟨buf, hbuf, by omega⟩, ?_, by omega⟩
  rw [hw, h.ridx]
  exact q.le_taken

theorem Holds.rest (h : Holds q c) : c.rest = q.rest := by
  obtain ⟨buf, hbuf, -, htake⟩ := h.buf
  simp only [Cache.rest, hbuf, Option.getD_some]
  rw [← List.drop_take, htake, h.ridx, Fifo.rest]

theorem Holds.full (h : Holds q c) : cacheFull c = true ↔ q.taken.length = q.cap := by
  simp [cacheFull, h.widx, h.capacity]

/-- **A push** is that of the queue. -/
theorem Holds.push (h : Holds q c) (d : Disk) {data : List UInt8} (hi : data.length < 2 ^ 31) :
    ∃ c', cachePush E d c data data.length = (((min q.room data.length : ℕ) : ℤ), c', d) ∧
      Holds (q.push data) c' := by
  obtain ⟨buf, hbuf, hlen, htake⟩ := h.buf
  have hcap := h.capacity
  have hwidx := h.widx
  have hle := q.le_cap
  have hroom : c.priv.capacity - c.priv.widx = q.room := by rw [hcap, hwidx]; rfl
  have hsmall := h.small
  have hrun : cachePush E d c data data.length = _ := cachePush_mem E d hbuf (by omega) (by omega) hi
  rw [hroom] at hrun
  refine ⟨_, hrun, ⟨_, rfl, ?_, ?_⟩, hcap, ?_, h.ridx, h.small⟩
  · rw [length_overwrite, hlen, Fifo.push_cap]
    rw [List.length_take]
    have : q.room = q.cap - q.taken.length := rfl
    omega
  · have hk : (data.take (min q.room data.length)).length = min q.room data.length := by
      rw [List.length_take]; omega
    have hover := take_overwrite (l := buf) (b := data.take (min q.room data.length))
      (show c.priv.widx ≤ buf.length by omega)
    rw [hk] at hover
    simp only [Cache.grow_widx]
    rw [hover, htake, Fifo.push_taken, ← List.take_eq_take_min]
  · simp only [Cache.grow_widx, Fifo.push_taken, List.length_append, List.length_take, hwidx]

/-- **A pop** is that of the queue. -/
theorem Holds.pop (h : Holds q c) (d : Disk) (k : ℕ) :
    ∃ c', cachePop E d c k = (min k q.rest.length, q.rest.take k, c', d) ∧ Holds (q.pop k) c' := by
  obtain ⟨buf, hbuf, hlen, htake⟩ := h.buf
  obtain ⟨c', hrun, -, -, rfl⟩ := cachePop_mem (E := E) h.inMemory d k
  rw [h.rest, List.length_take] at hrun
  refine ⟨_, hrun, ⟨⟨buf, hbuf, hlen, htake⟩, h.capacity, h.widx, ?_, h.small⟩⟩
  rw [Fifo.pop_given, ← h.ridx]

/-! ### Rows of calls -/

/-- One call on a cache: its result and the bytes that it gives. -/
def cacheCall (E : LibC) (c : Cache) (d : Disk) : Fifo.Op UInt8 → (ℤ × List UInt8) × Cache × Disk
  | .push data =>
    let (n, c, d) := cachePush E d c data data.length
    ((n, []), c, d)
  | .pop k =>
    let (n, bs, c, d) := cachePop E d c k
    ((n, bs), c, d)

/-- A row of calls. -/
def cacheCalls (E : LibC) : List (Fifo.Op UInt8) → Cache → Disk → List (ℤ × List UInt8) × Cache × Disk
  | [], c, d => ([], c, d)
  | op :: ops, c, d =>
    let (a, c, d) := cacheCall E c d op
    let (as, c, d) := cacheCalls E ops c d
    (a :: as, c, d)

/-- No push is longer than an `int` can say. -/
def ShortPushes (ops : List (Fifo.Op UInt8)) : Prop := ∀ data, .push data ∈ ops → data.length < 2 ^ 31

/-- The answer of a cache that is the answer `a` of a queue. -/
def asCount (a : ℕ × List UInt8) : ℤ × List UInt8 := (a.1, a.2)

/-- **A row of calls on a cache that holds a queue** is answered as by the queue. -/
theorem Holds.calls (h : Holds q c) (d : Disk) {ops : List (Fifo.Op UInt8)} (hs : ShortPushes ops) :
    ∃ c', cacheCalls E ops c d = ((Fifo.run ops q).1.map asCount, c', d) ∧
      Holds (Fifo.run ops q).2 c' := by
  induction ops generalizing q c with
  | nil => exact ⟨c, rfl, h⟩
  | cons op ops ih =>
    have hs' : ShortPushes ops := fun data hd => hs data (List.mem_cons_of_mem _ hd)
    cases op with
    | push data =>
      obtain ⟨c₁, hrun, h₁⟩ := h.push (E := E) d (hs data List.mem_cons_self)
      obtain ⟨c', hruns, h'⟩ := ih h₁ hs'
      refine ⟨c', ?_, h'⟩
      simp only [cacheCalls, cacheCall, hrun, hruns, Fifo.run, Fifo.step, List.map_cons, asCount]
    | pop k =>
      obtain ⟨c₁, hrun, h₁⟩ := h.pop (E := E) d k
      obtain ⟨c', hruns, h'⟩ := ih h₁ hs'
      refine ⟨c', ?_, h'⟩
      simp only [cacheCalls, cacheCall, hrun, hruns, Fifo.run, Fifo.step, List.map_cons, asCount]

/-- A cache created in memory is empty. -/
theorem created_holds {dir : Option (List Char)} (hn : n < 2 ^ 64)
    (h : createCache E d dir n .mem = .ok (some c, d')) : Holds (Fifo.new n) c := by
  rcases createCache_some h with ⟨-, dir, rfl⟩ | ⟨hs, -⟩
  · exact ⟨⟨_, rfl, List.length_replicate, List.take_zero⟩, rfl, rfl, rfl, hn⟩
  · cases hs

/-- The bytes that the pushes of a row have put in, by the results that they were given. -/
def acceptedBytes (ops : List (Fifo.Op UInt8)) (as : List (ℤ × List UInt8)) : List UInt8 :=
  Fifo.accepted ops (as.map (·.1.toNat))

/-- The bytes that the pops of a row have given. -/
def poppedBytes (as : List (ℤ × List UInt8)) : List UInt8 := (as.map Prod.snd).flatten

/-- **A cache created in memory is a bounded queue of bytes.** After any row of pushes and
pops: what was popped and what stands between the indices is what was accepted; the next push
accepts the longest prefix that still fits, the next pop gives as many bytes as it asks for or
all that there are; and the cache is full when its capacity has been accepted. -/
theorem memory_cache_fifo {dir : Option (List Char)} (hn : n < 2 ^ 64)
    (h : createCache E d dir n .mem = .ok (some c, d')) (ops : List (Fifo.Op UInt8))
    (hs : ShortPushes ops) :
    ∃ as c₁, cacheCalls E ops c d' = (as, c₁, d') ∧
      poppedBytes as ++ c₁.rest = acceptedBytes ops as ∧
      (cacheFull c₁ = true ↔ (acceptedBytes ops as).length = n) ∧
      (∀ data : List UInt8, data.length < 2 ^ 31 →
        (cachePush E d' c₁ data data.length).1 =
          min (n - (acceptedBytes ops as).length) data.length) ∧
      ∀ k, (cachePop E d' c₁ k).1 = min k ((acceptedBytes ops as).length - (poppedBytes as).length) ∧
        (cachePop E d' c₁ k).2.1 = c₁.rest.take k := by
  obtain ⟨c₁, hrun, h₁⟩ := (created_holds hn h).calls (E := E) d' hs
  obtain ⟨htaken, hgave, hcap⟩ := Fifo.run_conserves ops (Fifo.new n)
  -- the queue that the cache is after the calls
  set q₁ := (Fifo.run ops (Fifo.new n)).2
  set as := (Fifo.run ops (Fifo.new n)).1.map asCount
  have hacc : acceptedBytes ops as = q₁.taken := by
    rw [htaken, Fifo.new_taken, List.nil_append, acceptedBytes, List.map_map]
    rfl
  have hpop : poppedBytes as = q₁.gave := by
    rw [hgave, poppedBytes, List.map_map]
    rfl
  have hlen : q₁.gave.length = q₁.given := by
    have := q₁.le_taken
    rw [Fifo.gave, List.length_take]
    omega
  refine ⟨as, c₁, hrun, ?_, ?_, fun data hi => ?_, fun k => ?_⟩
  · rw [hpop, hacc, h₁.rest, q₁.gave_rest]
  · rw [h₁.full, hacc, hcap]
    rfl
  · obtain ⟨c₂, hpush, -⟩ := h₁.push (E := E) d' hi
    rw [hpush, hacc, Fifo.room, hcap]
    push_cast
    rfl
  · obtain ⟨c₂, hpopk, -⟩ := h₁.pop (E := E) d' k
    rw [hpopk, h₁.rest, hacc, hpop, hlen, q₁.length_rest]
    exact ⟨rfl, rfl⟩

/-- A cache for three bytes: two go in, one comes out, and of two more one fits. -/
theorem memory_cache_fifo_three :
    ∃ as c₁, cacheCalls .steady [.push [1, 2], .pop 1, .push [3, 4]] (bufferCache .steady ['.'] 3)
        { Disk.empty with ncalloc := 2, nmalloc := 1 } =
          (as, c₁, { Disk.empty with ncalloc := 2, nmalloc := 1 }) ∧
      poppedBytes as ++ c₁.rest = acceptedBytes [.push [1, 2], .pop 1, .push [3, 4]] as ∧
      (cacheFull c₁ = true ↔ (acceptedBytes [.push [1, 2], .pop 1, .push [3, 4]] as).length = 3) ∧
      (∀ data : List UInt8, data.length < 2 ^ 31 →
        (cachePush .steady { Disk.empty with ncalloc := 2, nmalloc := 1 } c₁ data data.length).1 =
          min (3 - (acceptedBytes [.push [1, 2], .pop 1, .push [3, 4]] as).length) data.length) ∧
      ∀ k, (cachePop .steady { Disk.empty with ncalloc := 2, nmalloc := 1 } c₁ k).1 =
          min k ((acceptedBytes [.push [1, 2], .pop 1, .push [3, 4]] as).length - (poppedBytes as).length) ∧
        (cachePop .steady { Disk.empty with ncalloc := 2, nmalloc := 1 } c₁ k).2.1 = c₁.rest.take k := by
  refine memory_cache_fifo (by decide)
    (show createCache .steady .empty none 3 .mem = .ok (some _, _) from rfl) _ fun data hd => ?_
  simp only [List.mem_cons, Fifo.Op.push.injEq, List.not_mem_nil, or_false, reduceCtorEq, false_or] at hd
  rcases hd with rfl | rfl
  · decide
  · decide

end DocFerry
