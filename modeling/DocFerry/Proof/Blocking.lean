import DocFerry.Proof.Admit

/-!
# The mode of a descriptor

`cp_setblocking` for the blocking mode masks with `O_NONBLOCK` where it has to mask it out:
the bit stays as it is, and the other flags that `fcntl` can set are cleared.

* `switched_eq`: the flags after any calls of `cp_setblocking`, in closed form.
* `setblocking_iff`: they are the ones asked for exactly when nothing had to be cleared, and the
  descriptor of a `SocketHandler` is never in the blocking mode.
-/

namespace DocFerry

open Prog

variable {E : Env} {w w' : World} {m : ℕ} {sock : ℤ} {desc : Desc} {flags : BitVec 32}

/-- The flags behind `cp_setblocking`: `F_SETFL` takes over the settable bits. -/
def switch (flags : BitVec 32) (is_block : Bool) : BitVec 32 :=
  (flags &&& ~~~setflMask) |||
    ((if is_block then flags &&& oNonblock else flags ||| oNonblock) &&& setflMask)

/-- The flags behind any number of calls. -/
def switched (flags : BitVec 32) (calls : List Bool) : BitVec 32 := calls.foldl switch flags

/-- The flags that are asked for: `O_NONBLOCK` as in the last call, the others as at first. -/
def asSwitched (flags : BitVec 32) (calls : List Bool) : BitVec 32 :=
  match calls.getLast? with
  | none => flags
  | some true => flags &&& ~~~oNonblock
  | some false => flags ||| oNonblock

/-- The calls of `cp_setblocking`, one after another. -/
def cpSetblockings (sock : ℤ) : List Bool → Proc Unit
  | [] => pure ()
  | b :: calls => do
    let _ ← cpSetblocking sock b
    cpSetblockings sock calls

/-- The settable flags but `O_NONBLOCK`. -/
def otherFlags : BitVec 32 := setflMask &&& ~~~oNonblock

/-- The calls clear nothing they should not, and leave nothing that they should clear. -/
def Harmless (flags : BitVec 32) (calls : List Bool) : Prop :=
  true ∉ calls ∨ flags &&& otherFlags = 0#32 ∧
    (calls.getLast? = some false ∨ false ∉ calls ∧ flags &&& oNonblock = 0#32)

/-! ### The bits -/

/-- `O_NONBLOCK` is one of the settable bits. -/
theorem oNonblock_settable {i : ℕ} (hi : i < 32) : (oNonblock[i] && !setflMask[i]) = false := by
  have h : oNonblock &&& ~~~setflMask = 0#32 := by decide
  simpa using congrArg (fun x : BitVec 32 => x[i]) h

theorem switch_false (flags : BitVec 32) : switch flags false = flags ||| oNonblock := by
  unfold switch
  ext i hi
  have hs := oNonblock_settable hi
  simp only [Bool.false_eq_true, if_false, BitVec.getElem_or, BitVec.getElem_and, BitVec.getElem_not]
  revert hs
  generalize oNonblock[i] = b
  generalize setflMask[i] = s
  cases flags[i] <;> cases b <;> cases s <;> decide

/-- The blocking mode: settable bits are cleared, but for `O_NONBLOCK`. -/
theorem switch_true (flags : BitVec 32) : switch flags true = flags &&& ~~~otherFlags := by
  unfold switch otherFlags
  ext i hi
  have hs := oNonblock_settable hi
  simp only [if_true, BitVec.getElem_or, BitVec.getElem_and, BitVec.getElem_not]
  revert hs
  generalize oNonblock[i] = b
  generalize setflMask[i] = s
  cases flags[i] <;> cases b <;> cases s <;> decide

/-- `O_NONBLOCK` is none of the other flags. -/
theorem oNonblock_apart {i : ℕ} (hi : i < 32) : (oNonblock[i] && otherFlags[i]) = false := by
  have h : oNonblock &&& otherFlags = 0#32 := by decide
  simpa using congrArg (fun x : BitVec 32 => x[i]) h

/-- **The flags after any calls**: the other settable flags are gone once a call asked for the
blocking mode, and `O_NONBLOCK` is there once a call did not. -/
theorem switched_eq (flags : BitVec 32) (calls : List Bool) :
    switched flags calls =
      ((if true ∈ calls then flags &&& ~~~otherFlags else flags) |||
        (if false ∈ calls then oNonblock else 0#32)) := by
  induction calls generalizing flags with
  | nil => simp [switched]
  | cons b calls ih =>
    change switched (switch flags b) calls = _
    rw [ih]
    cases b with
    | true =>
      have hmem : false ∈ true :: calls ↔ false ∈ calls := by simp
      simp only [switch_true, hmem, if_pos (List.mem_cons_self (a := true) (l := calls)),
        BitVec.and_assoc, BitVec.and_self, ite_self]
    | false =>
      have hmem : true ∈ false :: calls ↔ true ∈ calls := by simp
      -- `O_NONBLOCK` is not among the flags that the blocking mode clears
      have hand : (flags ||| oNonblock) &&& ~~~otherFlags = (flags &&& ~~~otherFlags) ||| oNonblock := by
        ext i hi
        have hs := oNonblock_apart hi
        simp only [BitVec.getElem_or, BitVec.getElem_and, BitVec.getElem_not]
        revert hs
        cases flags[i] <;> cases oNonblock[i] <;> cases otherFlags[i] <;> decide
      have habs : oNonblock ||| (if false ∈ calls then oNonblock else 0#32) = oNonblock := by
        split
        · exact BitVec.or_self
        · exact BitVec.or_zero
      simp only [switch_false, hmem, if_pos (List.mem_cons_self (a := false) (l := calls)), hand]
      by_cases ht : true ∈ calls
      · rw [if_pos ht, if_pos ht, BitVec.or_assoc, habs]
      · rw [if_neg ht, if_neg ht, BitVec.or_assoc, habs]

/-- Clearing the other flags goes unseen only where they are not set. -/
theorem cleared_or_iff : (flags &&& ~~~otherFlags) ||| oNonblock = flags ||| oNonblock ↔
    flags &&& otherFlags = 0#32 := by
  constructor
  · intro h
    ext i hi
    have hbit := congrArg (fun x : BitVec 32 => x[i]) h
    have hs := oNonblock_apart hi
    simp only [BitVec.getElem_or, BitVec.getElem_and, BitVec.getElem_not, BitVec.getElem_zero] at hbit ⊢
    revert hbit hs
    cases flags[i] <;> cases oNonblock[i] <;> cases otherFlags[i] <;> decide
  · intro h
    ext i hi
    have hbit := congrArg (fun x : BitVec 32 => x[i]) h
    simp only [BitVec.getElem_or, BitVec.getElem_and, BitVec.getElem_not, BitVec.getElem_zero] at hbit ⊢
    revert hbit
    cases flags[i] <;> cases oNonblock[i] <;> cases otherFlags[i] <;> decide

/-- What `cp_setblocking` does instead of clearing `O_NONBLOCK`, for a descriptor that has the
bit (`b`) after all or not. -/
theorem cleared_eq_iff (flags : BitVec 32) (b : Bool) :
    (flags &&& ~~~otherFlags) ||| (if b then oNonblock else 0#32) = flags &&& ~~~oNonblock ↔
      flags &&& otherFlags = 0#32 ∧ b = false ∧ flags &&& oNonblock = 0#32 := by
  constructor
  · intro h
    -- the two masks share no bit, so the equation can be read bit by bit
    have hbits : ∀ i (hi : i < 32), (flags[i] && otherFlags[i]) = false ∧
        (b && oNonblock[i]) = false ∧ (flags[i] && oNonblock[i]) = false := by
      intro i hi
      have hbit := congrArg (fun x : BitVec 32 => x[i]) h
      have hs := oNonblock_apart hi
      cases b <;>
        simp only [Bool.false_eq_true, if_true, if_false, BitVec.getElem_or, BitVec.getElem_and,
          BitVec.getElem_not, BitVec.getElem_zero] at hbit <;>
        revert hbit hs <;> cases flags[i] <;> cases oNonblock[i] <;> cases otherFlags[i] <;> decide
    refine ⟨?_, ?_, ?_⟩
    · ext i hi
      simpa using (hbits i hi).1
    · have h11 := (hbits 11 (by decide)).2.1
      simpa [show oNonblock[11] = true from by decide] using h11
    · ext i hi
      simpa using (hbits i hi).2.2
  · rintro ⟨hother, rfl, hnon⟩
    ext i hi
    have hbit := congrArg (fun x : BitVec 32 => x[i]) hother
    have hbit' := congrArg (fun x : BitVec 32 => x[i]) hnon
    simp only [Bool.false_eq_true, if_false, BitVec.getElem_or, BitVec.getElem_and, BitVec.getElem_not,
      BitVec.getElem_zero] at hbit hbit' ⊢
    revert hbit hbit'
    cases flags[i] <;> cases oNonblock[i] <;> cases otherFlags[i] <;> decide

/-- **The flags are the ones asked for** exactly when the calls are harmless. -/
theorem switched_eq_iff (flags : BitVec 32) (calls : List Bool) :
    switched flags calls = asSwitched flags calls ↔ Harmless flags calls := by
  rw [switched_eq]
  unfold asSwitched Harmless
  cases hlast : calls.getLast? with
  | none =>
    obtain rfl := List.getLast?_eq_none_iff.1 hlast
    simp
  | some b =>
    have hmem : b ∈ calls := List.mem_of_getLast? hlast
    by_cases ht : true ∈ calls
    · rw [if_pos ht]
      cases b with
      | true =>
        have hiff := cleared_eq_iff flags (decide (false ∈ calls))
        simp only [decide_eq_true_eq, decide_eq_false_iff_not] at hiff
        simp only [hiff, ht, not_true, false_or, Option.some.injEq, Bool.true_eq_false]
      | false =>
        rw [if_pos hmem, cleared_or_iff]
        simp [ht]
    · -- no call asked for the blocking mode
      have hb : b = false := by
        cases b with
        | true => exact absurd hmem ht
        | false => rfl
      subst hb
      rw [if_neg ht, if_pos hmem]
      exact iff_of_true rfl (.inl ht)

/-! ### The calls -/

theorem cpSetblocking_open (hd : w.descs sock = some desc) (is_block : Bool) :
    cpSetblocking sock is_block w = .ok 0 { w with
      descs := Function.update w.descs sock (some { desc with flags := switch desc.flags is_block }) } := by
  unfold cpSetblocking
  rw [get_bind, hd]
  rfl

/-- **Any calls of `cp_setblocking`** on an open descriptor. -/
theorem cpSetblockings_run (hd : w.descs sock = some desc) (calls : List Bool) :
    ∃ w', cpSetblockings sock calls w = .ok ⟨⟩ w' ∧
      w'.descs sock = some { desc with flags := switched desc.flags calls } := by
  induction calls generalizing w desc with
  | nil => exact ⟨w, rfl, hd⟩
  | cons b calls ih =>
    obtain ⟨w', hrun, hw'⟩ := ih (w := { w with
      descs := Function.update w.descs sock (some { desc with flags := switch desc.flags b }) })
      (Function.update_self ..)
    refine ⟨w', ?_, hw'⟩
    unfold cpSetblockings
    rw [bind_of_ok (cpSetblocking_open hd b)]
    exact hrun

/-- **The constructor of `SocketHandler`** makes the descriptor non-blocking and then asks for
the blocking mode. -/
theorem socketHandler_switched (E : Env) (hd : w.descs sock = some desc) (hv : cpSocketValid sock = true)
    (cls : HandlerClass) (m : ℕ) :
    ∃ w', SocketHandler.new E cls sock (some m) w = .ok w.nobj w' ∧
      w'.descs sock = some { desc with flags := switched desc.flags [false, true] } := by
  set w₁ := w.alloc (BaseSocket.begun E cls sock (some m)) with hw₁
  have hblk := cpSetblocking_open (w := w₁) hd false
  set w₂ : World := { w₁ with
    descs := Function.update w₁.descs sock (some { desc with flags := switch desc.flags false }) } with hw₂
  -- nothing but the two calls touches the descriptor
  set w₃ := (w₂.registered w.nobj sock m).setObj w.nobj ({ · with connected := true }) with hw₃
  have hd₃ : w₃.descs sock = some { desc with flags := switch desc.flags false } :=
    Function.update_self ..
  have hobj₃ : (w₃.objs w.nobj).p_handlers = some m ∧ (w₃.objs w.nobj).sock = sock := by
    simp [hw₃, hw₂, hw₁, World.registered, World.setMap, World.erase, World.alloc, BaseSocket.begun]
  obtain ⟨w₄, hask, hasked⟩ := askPeer_cases E hobj₃.1 hobj₃.2
  have hnew : BaseSocket.new E cls sock (some m) w = .ok w.nobj w₄ := by
    unfold BaseSocket.new
    rw [get_bind, bind_of_ok run_modify, hv, if_pos rfl]
    change (cpSetblocking sock false >>= _) w₁ = _
    rw [bind_of_ok hblk, bind_of_ok setSocket_eq, bind_of_ok run_assign]
    exact bind_of_ok hask
  have hd₄ : w₄.descs sock = some { desc with flags := switch desc.flags false } := by
    rw [hasked.descs]
    exact hd₃
  set w₅ : World := { w₄ with
    descs := Function.update w₄.descs sock
      (some { desc with flags := switch (switch desc.flags false) true }) } with hw₅
  have hblk₄ : cpSetblocking sock true w₄ = .ok 0 w₅ := cpSetblocking_open hd₄ true
  refine ⟨w₅, ?_, Function.update_self ..⟩
  unfold SocketHandler.new
  rw [bind_of_ok hnew, bind_of_ok hblk₄]
  rfl

/-- The two calls of the constructors leave `O_NONBLOCK` set. -/
theorem switched_constructors (flags : BitVec 32) :
    switched flags [false, true] &&& oNonblock = oNonblock := by
  rw [switched_eq]
  ext i hi
  have hs := oNonblock_apart hi
  simp only [List.mem_cons, List.not_mem_nil, Bool.true_eq_false, Bool.false_eq_true, or_false, or_true,
    if_true, BitVec.getElem_or, BitVec.getElem_and, BitVec.getElem_not]
  revert hs
  cases flags[i] <;> cases oNonblock[i] <;> cases otherFlags[i] <;> decide

/-- **The mode of a descriptor**, and its other flags, are the ones asked for exactly when the
calls are harmless, and a descriptor is never in the blocking mode when the constructor of its
`SocketHandler` returns. -/
theorem setblocking_iff (E : Env) (hd : w.descs sock = some desc) (calls : List Bool) :
    (∃ w', cpSetblockings sock calls w = .ok ⟨⟩ w' ∧
      ((w'.descs sock).map Desc.flags = some (asSwitched desc.flags calls) ↔
        Harmless desc.flags calls)) ∧
    (cpSocketValid sock = true → ∀ cls m, ∃ w' desc',
      SocketHandler.new E cls sock (some m) w = .ok w.nobj w' ∧ w'.descs sock = some desc' ∧
        desc'.flags &&& oNonblock = oNonblock ∧ desc'.flags ≠ desc.flags &&& ~~~oNonblock) := by
  refine ⟨?_, fun hv cls m => ?_⟩
  · obtain ⟨w', hrun, hw'⟩ := cpSetblockings_run hd calls
    refine ⟨w', hrun, ?_⟩
    rw [hw', Option.map_some, Option.some.injEq]
    exact switched_eq_iff desc.flags calls
  · obtain ⟨w', hrun, hw'⟩ := socketHandler_switched E hd hv cls m
    refine ⟨w', _, hrun, hw', switched_constructors desc.flags, fun heq => ?_⟩
    have hharm := (switched_eq_iff desc.flags [false, true]).1 heq
    rcases hharm with h | ⟨-, h | ⟨h, -⟩⟩
    · exact h (by simp)
    · cases h
    · exact h (by simp)

/-- The process with one accepted connection, of which the descriptor has the flag `O_RDWR`. -/
def World.connection : World := World.init.openDesc .steady 5 .accepted

/-- One call for the blocking mode. -/
theorem setblocking_iff_connection :
    (∃ w', cpSetblockings 5 [true] World.connection = .ok ⟨⟩ w' ∧
      ((w'.descs 5).map Desc.flags = some (asSwitched 2 [true]) ↔ Harmless 2 [true])) ∧
    (cpSocketValid 5 = true → ∀ cls m, ∃ w' desc',
      SocketHandler.new .steady cls 5 (some m) World.connection = .ok World.connection.nobj w' ∧
        w'.descs 5 = some desc' ∧ desc'.flags &&& oNonblock = oNonblock ∧
          desc'.flags ≠ 2 &&& ~~~oNonblock) :=
  setblocking_iff .steady (show World.connection.descs 5 = some ⟨.accepted, 2⟩ from rfl) [true]

/-- A descriptor that is to be blocking again keeps `O_NONBLOCK`, in two calls as in the
constructor that makes them. -/
theorem setblocking_wrong :
    (∃ w', cpSetblockings 5 [false, true] World.connection = .ok ⟨⟩ w' ∧
      (w'.descs 5).map Desc.flags = some 0x802 ∧ asSwitched 2 [false, true] = 2) ∧
    ∃ w', SocketHandler.new .steady .virusHandler 5 (some 0) World.connection = .ok 0 w' ∧
      (w'.descs 5).map Desc.flags = some 0x802 := by
  have hd : World.connection.descs 5 = some ⟨.accepted, 2⟩ := rfl
  have hflags : switched 2 [false, true] = 0x802 := by decide
  constructor
  · obtain ⟨w', hrun, hw'⟩ := cpSetblockings_run hd [false, true]
    refine ⟨w', hrun, ?_, by decide⟩
    rw [hw', hflags]
    rfl
  · obtain ⟨w', hrun, hw'⟩ := socketHandler_switched .steady hd rfl .virusHandler 0
    refine ⟨w', hrun, ?_⟩
    rw [hw', hflags]
    rfl

end DocFerry
