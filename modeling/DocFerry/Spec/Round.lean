import DocFerry.Model.Select

/-!
# What a round of the event loop is for

`select` is asked for what the handlers want; then every bit it leaves set is
delivered once, in the order of `FdSets.bits`, to the handler that is registered under
the descriptor when the turn comes, if there is one and it still wants the event.
-/

namespace DocFerry

/-- The bits set for one socket. -/
def FdSets.bitsOf (sets : FdSets) (sock : ℤ) : List (ℤ × Bit) :=
  ([.read, .write, .expt].filter fun bit => decide (sock ∈ sets.get bit)).map (sock, ·)

/-- The bits set, by descriptor, and read before write before exception. -/
def FdSets.bits (sets : FdSets) : List (ℤ × Bit) :=
  ((sets.r ∪ sets.w ∪ sets.e).sort).flatMap sets.bitsOf

/-- The place of a bit among those of its socket. -/
def Bit.rank : Bit → ℕ
  | .read => 0
  | .write => 1
  | .expt => 2

/-- `a` has its turn before `b`. -/
def Before (a b : ℤ × Bit) : Prop := a.1 < b.1 ∨ a.1 = b.1 ∧ a.2.rank < b.2.rank

/-- The bits of `sets` are among those of `req`. -/
structure FdSets.Subset (sets req : FdSets) : Prop where
  r : sets.r ⊆ req.r
  w : sets.w ⊆ req.w
  e : sets.e ⊆ req.e

/-- The sockets in `l` whose handlers satisfy `p`. -/
def socksOf {H : Type} (l : List (ℤ × H)) (p : H → Bool) : List ℤ :=
  (l.filter fun entry => p entry.2).map (·.1)

namespace Table

variable {ε σ H : Type} (T : Table ε σ H)

/-- The sockets in the map whose handlers satisfy `p`. -/
def socks (s : σ) (p : H → Bool) : Finset ℤ := (socksOf (T.map s).toList p).toFinset

/-- What the handlers want. -/
def interest (s : σ) : FdSets where
  r := T.socks s (T.readable s)
  w := T.socks s fun h => T.writable s h && !T.isAccepting s h
  e := T.socks s fun h => T.readable s h || T.writable s h

/-- The delivery of a bit. -/
def deliver (b : ℤ × Bit) : EStateM ε σ PUnit := do
  let s ← get
  match (T.map s)[b.1]? with
  | none => pure ⟨⟩
  | some h => if T.wants s h b.2 then T.handleEvent b.1 h b.2

/-- The round, `select` being given the largest descriptor and one. -/
def round (select : ℤ → FdSets → EStateM ε σ (ℤ × FdSets)) : EStateM ε σ PUnit := do
  let s ← get
  match (T.interest s).e.max with
  | none => pure ⟨⟩
  | some fd =>
    let (retv, sets) ← select (fd + 1) (T.interest s)
    if retv = -1 then pure ⟨⟩
    else sets.bits.forM T.deliver

end Table

end DocFerry
