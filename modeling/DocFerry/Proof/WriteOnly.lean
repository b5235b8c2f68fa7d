import DocFerry.Proof.Memory

/-!
# A cache in a file is not read back

`create_cache_file` opens its stream for writing only, so `cache_pop` gets nothing out of it.

* `Unread.push`, `Unread.pop`: what a file cache answers as long as nobody has got a byte.
* `file_like_memory_iff`: a file cache answers like one in memory exactly when no pop asks for
  bytes that were pushed.
-/

namespace DocFerry

open Bytes

/-- Does the operation offer a byte? -/
def Puts : Fifo.Op UInt8 → Prop
  | .push data => data ≠ []
  | .pop _ => False

/-- Does the operation ask for a byte? -/
def Asks : Fifo.Op UInt8 → Prop
  | .push _ => False
  | .pop k => 0 < k

/-- No operation of the row asks for a byte after one was offered. -/
def NeverReadBack (ops : List (Fifo.Op UInt8)) : Prop := ops.Pairwise fun a b => ¬ (Puts a ∧ Asks b)

/-- A file cache that has given nothing: it counts as the queue `q` does, and its stream is for
writing only. -/
structure Unread (q : Fifo UInt8) (d : Disk) (c : Cache) : Prop where
  buf : c.buf = none
  stream : ∃ fp st, c.priv.wfp = some fp ∧ d.streams fp = some st ∧ st.readable = false
  capacity : c.priv.capacity = q.cap
  widx : c.priv.widx = q.taken.length
  ridx : c.priv.ridx = 0
  small : q.cap < 2 ^ 64

variable {E : LibC} {d d' df dm : Disk} {c cf cm : Cache} {q : Fifo UInt8} {n : ℕ}
  {ops : List (Fifo.Op UInt8)}

/-- **A push into a file cache** is that of the queue, when the stream takes every byte. -/
theorem Unread.push (hE : E.Succeeds) (h : Unread q d c) {data : List UInt8}
    (hi : data.length < 2 ^ 31) :
    ∃ c' d', cachePush E d c data data.length = (((min q.room data.length : ℕ) : ℤ), c', d') ∧
      Unread (q.push data) d' c' := by
  obtain ⟨fp, st, hfp, hst, hro⟩ := h.stream
  have hle := q.le_cap
  have hsmall := h.small
  have hroom : q.room = q.cap - q.taken.length := rfl
  -- the push asks for what the queue has room for
  have hwl : c.pushLen data.length = min q.room data.length := by
    have hcap := h.capacity
    have hwidx := h.widx
    rw [Cache.pushLen_eq (by omega) (by omega), hcap, hwidx, ← hroom]
  have htake : (data.take (min q.room data.length)).length = min q.room data.length := by
    rw [List.length_take]
    omega
  have hadd : sizeAdd c.priv.widx (min q.room data.length) = q.taken.length + min q.room data.length := by
    rw [h.widx, sizeAdd_of_lt (by omega)]
  have hint : toInt (min q.room data.length) = (min q.room data.length : ℕ) := toInt_of_lt (by omega)
  have hwr := fwrite_open (E := E) hst (data.take (min q.room data.length))
  rw [hE.taken, htake] at hwr
  refine ⟨{ c with priv := { c.priv with widx := q.taken.length + min q.room data.length } },
    (fwrite E d fp (data.take (min q.room data.length))).2, ?_, ⟨h.buf, ⟨fp, ?_⟩, h.capacity, ?_, h.ridx, hsmall⟩⟩
  · rw [cachePush_stream E d h.buf hfp, hwl, hwr, hadd, hint]
  · rw [hwr]
    exact ⟨_, hfp, writing_stream_self .., hro⟩
  · simp only [Fifo.push_taken, List.length_append, List.length_take]

/-- **A pop from a file cache** gives nothing: its stream is not for reading. -/
theorem Unread.pop (h : Unread q d c) (k : ℕ) :
    ∃ d', cachePop E d c k = (0, [], c, d') ∧ Unread q d' c := by
  obtain ⟨fp, st, hfp, hst, hro⟩ := h.stream
  refine ⟨{ d with nfread := d.nfread + 1 }, ?_, ⟨h.buf, ⟨fp, st, hfp, hst, hro⟩, h.capacity, h.widx, h.ridx,
    h.small⟩⟩
  have hr := h.ridx
  have hb := h.buf
  obtain ⟨path, buf, ⟨capacity, widx, ridx, wfp, dir⟩⟩ := c
  dsimp only at hr hb hfp
  subst hr hb hfp
  simp only [cachePop, fread, hst, hro, Bool.false_eq_true, if_false, List.length_nil]
  rfl

/-- A cache created in a file is empty. -/
theorem created_unread {dir : Option (List Char)} (hn : n < 2 ^ 64)
    (h : createCache E d dir n .file = .ok (some c, d')) : Unread (Fifo.new n) d' c := by
  rcases createCache_some h with ⟨hs, -⟩ | ⟨-, dir, content, start, held, rfl, rfl⟩
  · cases hs
  · exact ⟨rfl, ⟨_, _, rfl, Function.update_self .., rfl⟩, rfl, rfl, rfl, hn⟩

/-- Offering bytes to a queue that has taken none and has room. -/
theorem push_taken_ne_nil (hcap : 0 < q.cap) (data : List UInt8) :
    (q.push data).taken ≠ [] ↔ q.taken ≠ [] ∨ data ≠ [] := by
  rw [Fifo.push_taken, Ne, List.append_eq_nil_iff, List.take_eq_nil_iff, not_and_or, not_or]
  constructor
  · rintro (h | ⟨-, h⟩)
    · exact .inl h
    · exact .inr h
  · rintro (h | h)
    · exact .inl h
    · rcases eq_or_ne q.taken [] with hq | hq
      · refine .inr ⟨?_, h⟩
        have hroom : q.room = q.cap := by unfold Fifo.room; rw [hq]; rfl
        omega
      · exact .inl hq

/-- **Two caches that count alike**, one in a file and one in memory, answer alike exactly when
no byte that was taken, or is offered, is asked for later. -/
theorem answers_eq_iff (hE : E.Succeeds) (hcap : 0 < q.cap) (hg : q.given = 0) (hf : Unread q df cf)
    (hs : ShortPushes ops) :
    (cacheCalls E ops cf df).1 = (Fifo.run ops q).1.map asCount ↔
      (q.taken ≠ [] → ∀ op ∈ ops, ¬ Asks op) ∧ NeverReadBack ops := by
  induction ops generalizing q cf df with
  | nil => simp [cacheCalls, Fifo.run, NeverReadBack]
  | cons op ops ih =>
    have hs' : ShortPushes ops := fun data hd => hs data (List.mem_cons_of_mem _ hd)
    cases op with
    | push data =>
      obtain ⟨c₁, d₁, hrun, h₁⟩ := hf.push hE (hs data List.mem_cons_self)
      have hrest := ih (q := q.push data) hcap hg h₁ hs'
      rw [push_taken_ne_nil hcap] at hrest
      simp only [cacheCalls, cacheCall, hrun, Fifo.run, Fifo.step, List.map_cons, asCount, List.cons.injEq,
        true_and]
      rw [hrest]
      simp only [NeverReadBack, List.pairwise_cons, List.mem_cons, forall_eq_or_imp, Puts, Asks,
        not_false_eq_true, true_and, not_and]
      tauto
    | pop k =>
      obtain ⟨d₁, hrun, h₁⟩ := hf.pop (E := E) k
      have hrestq : q.rest = q.taken := by rw [Fifo.rest, hg, List.drop_zero]
      by_cases hgive : q.taken = [] ∨ k = 0
      · -- nothing is there, or nothing is asked for: both caches give nothing
        have hmin : min k q.rest.length = 0 := by
          rw [hrestq]
          rcases hgive with h | h
          · rw [h]; exact Nat.min_zero k
          · rw [h]; exact Nat.zero_min _
        have htake : q.rest.take k = [] := by
          rw [List.take_eq_take_min, hmin, List.take_zero]
        have hq₁ : Unread (q.pop k) d₁ cf :=
          ⟨h₁.buf, h₁.stream, h₁.capacity, h₁.widx, h₁.ridx, h₁.small⟩
        have hrest := ih (q := q.pop k) hcap (by rw [Fifo.pop_given, hg, hmin]) hq₁ hs'
        rw [Fifo.pop_taken] at hrest
        simp only [cacheCalls, cacheCall, hrun, Fifo.run, Fifo.step, List.map_cons, asCount, hmin, htake,
          List.cons.injEq, Nat.cast_zero, true_and]
        rw [hrest]
        simp only [NeverReadBack, List.pairwise_cons, List.mem_cons, forall_eq_or_imp, Puts, Asks, false_and,
          not_false_eq_true, implies_true, true_and]
        refine and_congr_left fun _ => imp_congr_right fun ht => ?_
        have hk : k = 0 := hgive.resolve_left ht
        simp [hk]
      · -- memory gives a byte, the file does not
        obtain ⟨ht, hk⟩ := not_or.1 hgive
        have hpos : 0 < min k q.rest.length := by
          rw [hrestq]
          have := List.length_pos_iff.2 ht
          omega
        refine iff_of_false (fun heq => ?_) fun hno => ?_
        · simp only [cacheCalls, cacheCall, hrun, Fifo.run, Fifo.step, List.map_cons, asCount,
            List.cons.injEq, Prod.mk.injEq] at heq
          omega
        · exact hno.1 ht (.pop k) List.mem_cons_self (Nat.pos_of_ne_zero hk)

/-- **A cache in a file answers like one in memory** exactly when no pop asks for a byte after a
push has offered one. -/
theorem file_like_memory_iff {dir : Option (List Char)} (hE : E.Succeeds) (h1 : 1 ≤ n) (hn : n < 2 ^ 64)
    (hf : createCache E d dir n .file = .ok (some cf, df))
    (hm : createCache E d' dir n .mem = .ok (some cm, dm)) (hs : ShortPushes ops) :
    (cacheCalls E ops cf df).1 = (cacheCalls E ops cm dm).1 ↔ NeverReadBack ops := by
  obtain ⟨c', hrun, -⟩ := (created_holds hn hm).calls (E := E) dm hs
  rw [hrun, answers_eq_iff hE (q := Fifo.new n) h1 rfl (created_unread hn hf) hs]
  simp

/-- The disk after a file cache was made on an empty one, and after a cache in memory was. -/
def madeDisk (storage : StorageTo) : Disk :=
  match createCache .steady .empty none 2 storage with
  | .ok (_, d) => d
  | .error _ => .empty

/-- Two caches for two bytes that are only filled. -/
theorem file_like_memory_iff_filled :
    (cacheCalls .steady [.push [1], .push [2, 3]] (fileCache "./cache_0_0".toList ['.'] 2 0)
        (madeDisk .file)).1 =
      (cacheCalls .steady [.push [1], .push [2, 3]] (bufferCache .steady ['.'] 2) (madeDisk .mem)).1 ↔
        NeverReadBack [.push [1], .push [2, 3]] := by
  refine file_like_memory_iff (d := .empty) LibC.steady_succeeds (by decide) (by decide)
    (show createCache .steady .empty none 2 .file = .ok (some _, _) from rfl)
    (show createCache .steady .empty none 2 .mem = .ok (some _, _) from rfl) fun data hd => ?_
  simp only [List.mem_cons, Fifo.Op.push.injEq, List.not_mem_nil, or_false] at hd
  rcases hd with rfl | rfl
  · decide
  · decide

/-- A byte that was pushed comes out of memory and not out of a file. -/
theorem file_gives_nothing :
    createCache .steady .empty none 2 .file =
        .ok (some (fileCache "./cache_0_0".toList ['.'] 2 0), madeDisk .file) ∧
      createCache .steady .empty none 2 .mem =
        .ok (some (bufferCache .steady ['.'] 2), madeDisk .mem) ∧
      (cacheCalls .steady [.push [1], .pop 1] (fileCache "./cache_0_0".toList ['.'] 2 0)
        (madeDisk .file)).1 = [(1, []), (0, [])] ∧
      (cacheCalls .steady [.push [1], .pop 1] (bufferCache .steady ['.'] 2) (madeDisk .mem)).1 =
        [(1, []), (1, [1])] := by
  refine ⟨rfl, rfl, by decide +kernel, by decide +kernel⟩

end DocFerry
