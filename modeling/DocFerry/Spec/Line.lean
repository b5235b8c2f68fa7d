import DocFerry.Model.World

/-!
# A connection in the hands of its handler

`Line` is what the calls of `send` of one handler on one descriptor see and make of the process;
`Line.send` is one such call. It knows of no queue and no cache.

* `Line.sendAll_whole`, `Line.sendAll_out`: which bytes a row of sends gets out.
* `Line.sendAll_status`: what a row of sends leaves of the connection.
* `Quiet`: nothing is done on a connection that was closed.
-/

namespace DocFerry

/-- The bytes that the system takes of `buf`. -/
def SendResult.taken (buf : List UInt8) : SendResult → List UInt8
  | .all => buf
  | .short n => buf.take (min n (buf.length - 1))
  | .wouldBlock => []
  | .fatal => []
  | .pipe => []

/-- An error that the connection does not survive. -/
def SendResult.Fatal (r : SendResult) : Prop := r = .fatal ∨ r = .pipe

/-- The bytes are taken whole or refused for good. -/
def SendResult.Whole (r : SendResult) : Prop := r = .all ∨ r.Fatal

instance (r : SendResult) : Decidable r.Fatal := inferInstanceAs (Decidable (_ ∨ _))

/-- Where a connection stands. -/
inductive LineStatus
  | open
  /-- its handler has closed it -/
  | closed
  /-- the process was ended by a send on it -/
  | reset
  deriving DecidableEq, Repr

/-- A connection. -/
structure Line where
  status : LineStatus
  /-- the number of calls of `send` that the system has answered -/
  next : ℕ
  out : List UInt8

/-- The descriptor `fd` of a process, for the handler `this`. -/
def World.line (w : World) (this : ℕ) (fd : ℤ) : Line :=
  ⟨if w.dead this = false ∧ w.descs fd ≠ none then .open else .closed, w.nsend, w.out fd⟩

variable (E : Env)

/-- What an answer leaves of an open connection. -/
def SendResult.status : SendResult → LineStatus
  | .fatal => .closed
  | .pipe => .reset
  | _ => .open

/-- One call of `send`: nothing is sent on a connection that is not open, and what was not taken is
not sent again. -/
def Line.send (l : Line) (buf : List UInt8) : Line :=
  if l.status = .open then
    { status := (E.send l.next).status
      next := l.next + 1
      out := l.out ++ (E.send l.next).taken buf }
  else l

/-- A row of sends. -/
def Line.sendAll (l : Line) (bs : List (List UInt8)) : Line := bs.foldl (Line.send E) l

variable {E} {l : Line} {buf : List UInt8} {bs bs' : List (List UInt8)} {r : SendResult}

theorem SendResult.status_open : r.status = .open ↔ ¬ r.Fatal := by
  cases r with
  | fatal => simp [SendResult.status, SendResult.Fatal]
  | pipe => simp [SendResult.status, SendResult.Fatal]
  | all => simp [SendResult.status, SendResult.Fatal]
  | short n => simp [SendResult.status, SendResult.Fatal]
  | wouldBlock => simp [SendResult.status, SendResult.Fatal]

theorem Line.send_open (hl : l.status = .open) : l.send E buf =
    { status := (E.send l.next).status
      next := l.next + 1
      out := l.out ++ (E.send l.next).taken buf } := by
  unfold Line.send
  rw [if_pos hl]

theorem Line.send_gone (hl : l.status ≠ .open) : l.send E buf = l := by
  unfold Line.send
  rw [if_neg hl]

theorem Line.sendAll_cons : l.sendAll E (buf :: bs) = (l.send E buf).sendAll E bs := rfl

theorem Line.sendAll_append : l.sendAll E (bs ++ bs') = (l.sendAll E bs).sendAll E bs' :=
  List.foldl_append

/-- A connection that is not open takes nothing. -/
theorem Line.sendAll_gone (bs : List (List UInt8)) (hl : l.status ≠ .open) : l.sendAll E bs = l := by
  induction bs with
  | nil => rfl
  | cons b bs ih => rw [Line.sendAll_cons, Line.send_gone hl, ih]

theorem Line.next_le (E : Env) (l : Line) (bs : List (List UInt8)) : l.next ≤ (l.sendAll E bs).next := by
  induction bs generalizing l with
  | nil => exact le_rfl
  | cons b bs ih =>
    refine le_trans ?_ (ih (l.send E b))
    unfold Line.send
    split
    · exact Nat.le_succ _
    · exact le_rfl

/-- At most one call for each block is answered. -/
theorem Line.next_sendAll_le (E : Env) (l : Line) (bs : List (List UInt8)) :
    (l.sendAll E bs).next ≤ l.next + bs.length := by
  induction bs generalizing l with
  | nil => exact le_rfl
  | cons b bs ih =>
    have hle : (l.send E b).next ≤ l.next + 1 := by
      unfold Line.send
      split
      · exact le_rfl
      · exact Nat.le_succ _
    have := ih (l.send E b)
    rw [Line.sendAll_cons, List.length_cons]
    omega

/-- Without a fatal answer the connection stays open. -/
theorem Line.sendAll_open (hl : l.status = .open)
    (hE : ∀ i, l.next ≤ i → i < (l.sendAll E bs).next → ¬ (E.send i).Fatal) :
    (l.sendAll E bs).status = .open := by
  induction bs generalizing l with
  | nil => exact hl
  | cons b bs ih =>
    have hle := Line.next_le E (l.send E b) bs
    rw [Line.sendAll_cons] at hE ⊢
    rw [Line.send_open hl] at hE hle ⊢
    refine ih ?_ fun i hi hlt => hE i (Nat.le_of_succ_le hi) hlt
    exact SendResult.status_open.2 (hE l.next le_rfl (Nat.lt_of_succ_le hle))

/-- **What a row of sends leaves of an open connection**: with no fatal answer it is open, else the first
fatal answer says what has become of it. -/
theorem Line.sendAll_status (E : Env) (bs : List (List UInt8)) (hl : l.status = .open) :
    ((∀ i < bs.length, ¬ (E.send (l.next + i)).Fatal) ∧ (l.sendAll E bs).status = .open ∧
        (l.sendAll E bs).next = l.next + bs.length) ∨
      ∃ i < bs.length, (∀ j < i, ¬ (E.send (l.next + j)).Fatal) ∧ (E.send (l.next + i)).Fatal ∧
        (l.sendAll E bs).status = (E.send (l.next + i)).status ∧
        (l.sendAll E bs).next = l.next + i + 1 := by
  induction bs generalizing l with
  | nil => exact .inl ⟨fun i hi => absurd hi (Nat.not_lt_zero i), hl, rfl⟩
  | cons b bs ih =>
    have hsend : l.send E b = _ := Line.send_open hl
    have hnext : (l.send E b).next = l.next + 1 := by rw [hsend]
    rw [Line.sendAll_cons, List.length_cons]
    by_cases hr : (E.send l.next).Fatal
    · refine .inr ⟨0, Nat.succ_pos _, fun j hj => absurd hj (Nat.not_lt_zero j), hr, ?_⟩
      have hst : (l.send E b).status ≠ .open := by
        rw [hsend]
        exact fun h => SendResult.status_open.1 h hr
      rw [Line.sendAll_gone bs hst, hsend]
      exact ⟨rfl, rfl⟩
    · have hopen : (l.send E b).status = .open := by
        rw [hsend]
        exact SendResult.status_open.2 hr
      rcases ih hopen with ⟨hall, hst, hn⟩ | ⟨i, hi, hbefore, hfatal, hst, hn⟩
      · rw [hnext] at hall hn
        refine .inl ⟨fun i hi => ?_, hst, by omega⟩
        rcases i with _ | i
        · exact hr
        · have := hall i (by omega)
          rwa [Nat.add_assoc, Nat.add_comm 1] at this
      · rw [hnext] at hbefore hfatal hst hn
        rw [Nat.add_assoc, Nat.add_comm 1] at hfatal hst
        refine .inr ⟨i + 1, by omega, fun j hj => ?_, hfatal, hst, by omega⟩
        rcases j with _ | j
        · exact hr
        · have := hbefore j (by omega)
          rwa [Nat.add_assoc, Nat.add_comm 1] at this

/-! ### What gets out -/

theorem SendResult.taken_prefix (r : SendResult) (buf : List UInt8) : r.taken buf <+: buf := by
  cases r with
  | all => exact List.prefix_rfl
  | short n => exact List.take_prefix _ _
  | wouldBlock => exact List.nil_prefix
  | fatal => exact List.nil_prefix
  | pipe => exact List.nil_prefix

theorem SendResult.Fatal.taken (h : r.Fatal) (buf : List UInt8) : r.taken buf = [] := by
  rcases h with rfl | rfl
  · rfl
  · rfl

/-- **A row of sends gets its blocks out** if it gets as many bytes out as there are. -/
theorem Line.sendAll_whole (E : Env) (l : Line) (bs : List (List UInt8)) :
    ∃ sent, (l.sendAll E bs).out = l.out ++ sent ∧ sent.length ≤ bs.flatten.length ∧
      (sent.length = bs.flatten.length → sent = bs.flatten) := by
  induction bs generalizing l with
  | nil => exact ⟨[], by simp [Line.sendAll], le_rfl, fun _ => rfl⟩
  | cons b bs ih =>
    obtain ⟨sent, hout, hle, hall⟩ := ih (l.send E b)
    obtain ⟨a, ha, hpre⟩ : ∃ a, (l.send E b).out = l.out ++ a ∧ a <+: b := by
      unfold Line.send
      split
      · exact ⟨_, rfl, SendResult.taken_prefix _ b⟩
      · exact ⟨[], by simp, List.nil_prefix⟩
    have hlen := hpre.length_le
    refine ⟨a ++ sent, ?_, ?_, fun hfull => ?_⟩
    · rw [Line.sendAll_cons, hout, ha, List.append_assoc]
    · rw [List.flatten_cons, List.length_append, List.length_append]
      omega
    · rw [List.flatten_cons, List.length_append, List.length_append] at hfull
      rw [List.flatten_cons, hpre.eq_of_length (by omega), hall (by omega)]

/-- **A row of sends, each of which the system takes whole or refuses for good**, gets a
prefix of the blocks out, and all of them while the connection is open. -/
theorem Line.sendAll_out (E : Env) (l : Line) (bs : List (List UInt8))
    (hE : ∀ i, l.next ≤ i → i < (l.sendAll E bs).next → (E.send i).Whole) :
    ∃ sent, (l.sendAll E bs).out = l.out ++ sent ∧ sent <+: bs.flatten ∧
      ((l.sendAll E bs).status = .open → sent = bs.flatten) := by
  induction bs generalizing l with
  | nil => exact ⟨[], by simp [Line.sendAll], List.prefix_rfl, fun _ => rfl⟩
  | cons b bs ih =>
    by_cases hopen : l.status = .open
    · have hsend : l.send E b = _ := Line.send_open hopen
      have hnext : (l.send E b).next = l.next + 1 := by rw [hsend]
      have hlt : l.next < (l.sendAll E (b :: bs)).next := by
        have := Line.next_le E (l.send E b) bs
        rw [hnext] at this
        exact this
      obtain ⟨sent, hout, hpre, hall⟩ := ih (l.send E b)
        fun i hi hi' => hE i (by rw [hnext] at hi; omega) hi'
      rcases hE l.next le_rfl hlt with hr | hr
      · -- the block is out, and the rest follows it
        refine ⟨b ++ sent, ?_, ?_, fun h => by rw [hall h]; rfl⟩
        · rw [hsend, hr] at hout
          rw [Line.sendAll_cons, hsend, hr, hout]
          simp [SendResult.taken]
        · rw [List.flatten_cons]
          exact (List.prefix_append_right_inj b).2 hpre
      · -- the connection is gone
        have hgone : (l.send E b).status ≠ .open := by
          rw [hsend]
          exact fun h => SendResult.status_open.1 h hr
        refine ⟨[], ?_, List.nil_prefix, fun h => ?_⟩
        · rw [Line.sendAll_cons, Line.sendAll_gone bs hgone, hsend, hr.taken b]
        · rw [Line.sendAll_cons, Line.sendAll_gone bs hgone] at h
          exact absurd h hgone
    · rw [Line.sendAll_gone _ hopen]
      exact ⟨[], by simp, List.nil_prefix, fun h => absurd h hopen⟩

/-! ### Quiet logs -/

/-- Does the entry concern the handler `this` or its descriptor `fd`? -/
def Act.touches (this : ℕ) (fd : ℤ) : Act → Bool
  | .event .. => false
  | .callback i _ => i = this
  | .send sock => sock = fd
  | .recv sock => sock = fd
  | .close i sock => i = this ∨ sock = fd

/-- Is it a close by the handler `this`? -/
def Act.closes (this : ℕ) : Act → Bool
  | .close i _ => i = this
  | _ => false

/-- Once `this` has run `close`, nothing is done on `fd` any more, and no callback of `this`
is called. -/
def Quiet (this : ℕ) (fd : ℤ) (log : List Act) : Prop :=
  log.Pairwise fun a b => a.closes this = true → b.touches this fd = false

instance (this : ℕ) (fd : ℤ) (log : List Act) : Decidable (Quiet this fd log) :=
  inferInstanceAs (Decidable (log.Pairwise _))

variable {this : ℕ} {fd : ℤ}

theorem Quiet.append {log log' : List Act} (h : ∀ a ∈ log, a.closes this = false) :
    Quiet this fd (log ++ log') ↔ Quiet this fd log' := by
  unfold Quiet
  rw [List.pairwise_append]
  constructor
  · exact fun h' => h'.2.1
  · intro h'
    refine ⟨?_, h', fun a ha b _ hcl => ?_⟩
    · refine List.pairwise_of_forall_mem_list fun a ha b _ hcl => ?_
      rw [h a ha] at hcl
      cases hcl
    · rw [h a ha] at hcl
      cases hcl

/-- A log without a close is quiet, and so is one that ends with it. -/
theorem Quiet.of_closes {log : List Act} (h : ∀ a ∈ log, a.closes this = false) (a : Act) :
    Quiet this fd log ∧ Quiet this fd (log ++ [a]) := by
  refine ⟨?_, (Quiet.append h).2 (List.pairwise_singleton _ _)⟩
  have hnil : Quiet this fd (log ++ []) := (Quiet.append h).2 List.Pairwise.nil
  rwa [List.append_nil] at hnil

end DocFerry
