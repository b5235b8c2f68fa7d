import DocFerry.Lib.Prog
import DocFerry.Model.InetPton

/-!
# The hosts that both systems read alike

* `Alike`: the forms of a host that `inet_pton` and the special cases around `inet_addr` agree on.
* `inetPton_alike_iff`: the two branches of `cp_inet_pton` agree on these and no others, and so do
  `cp_bind` and `cp_connect`.
* `ntop_round_trip`: the text of a peer's address, in the sixteen bytes that the callers of `cp_inet_ntop`
  have, is the only host that `cp_inet_pton` reads as this address.
-/

namespace DocFerry

open Prog

/-- The two branches report success with the same address, or failure. -/
def Agree (host : Option String) : Prop :=
  ∀ s_addr, (cpInetPtonWindows host s_addr).1 = 1 ∧ (cpInetPtonLinux host s_addr).1 = 1 ∧
      (cpInetPtonWindows host s_addr).2 = (cpInetPtonLinux host s_addr).2 ∨
    ((cpInetPtonWindows host s_addr).1 = 0 ∨ (cpInetPtonWindows host s_addr).1 = -1) ∧
      ((cpInetPtonLinux host s_addr).1 = 0 ∨ (cpInetPtonLinux host s_addr).1 = -1)

/-- A host is read alike: four decimal octets that are not all 255; or no four decimal octets, and what
`inet_addr` reads, if anything, is all zeros or all ones. -/
def Alike (host : String) : Prop :=
  (Inet.pton host.toList).isSome ∧ host ≠ "255.255.255.255" ∨
    Inet.pton host.toList = none ∧
      (Inet.aton host.toList = none ∨ Inet.aton host.toList = some inaddrAny ∨
        Inet.aton host.toList = some inaddrNone)

/-- What comes of a call: the address, or none. -/
def outcome (r : ℤ × UInt32) : Option UInt32 := if r.1 = 0 ∨ r.1 = -1 then none else some r.2

variable {E : Env} {w : World} {host s : String} {s_addr : UInt32} {p_host : Option String} {port : UInt16}

theorem outcome_eq_none {r : ℤ × UInt32} : outcome r = none ↔ r.1 = 0 ∨ r.1 = -1 := by
  unfold outcome
  split
  · rename_i h
    exact iff_of_true rfl h
  · rename_i h
    exact iff_of_false (Option.some_ne_none _) h

/-! ### One host -/

theorem pton_any : Inet.pton "0.0.0.0".toList = some inaddrAny := by
  have hchars : "0.0.0.0".toList = ['0', '.', '0', '.', '0', '.', '0'] := String.toList_ofList
  rw [hchars]
  decide

theorem pton_none : Inet.pton "255.255.255.255".toList = some inaddrNone := by
  have hchars : "255.255.255.255".toList =
      ['2', '5', '5', '.', '2', '5', '5', '.', '2', '5', '5', '.', '2', '5', '5'] := String.toList_ofList
  rw [hchars]
  decide

/-- An address that `inet_pton` reads has no other spelling for it. -/
theorem pton_spelled {x : UInt32} (h : Inet.pton s.toList = some x) :
    Inet.pton host.toList = some x ↔ host = s := by
  constructor
  · intro hs
    exact String.toList_inj.1 (Inet.pton_inj hs h)
  · rintro rfl
    exact h

/-- **The branch of Linux** succeeds where `inet_pton` does. -/
theorem linux_outcome (host : String) (s_addr : UInt32) :
    outcome (cpInetPtonLinux (some host) s_addr) = Inet.pton host.toList := by
  unfold cpInetPtonLinux
  by_cases hany : host = "0.0.0.0"
  · subst hany
    rw [pton_any]
    rfl
  · dsimp only
    rw [if_neg hany]
    unfold inetPton
    cases Inet.pton host.toList <;> rfl

/-- **The branch of Windows** succeeds where `inet_addr` reads something but all zeros and all ones. -/
theorem windows_outcome (hany : host ≠ "0.0.0.0") (s_addr : UInt32) :
    outcome (cpInetPtonWindows (some host) s_addr) =
      (Inet.aton host.toList).filter fun a => a ≠ inaddrAny ∧ a ≠ inaddrNone := by
  unfold cpInetPtonWindows
  dsimp only
  rw [if_neg hany]
  unfold inetAddr
  cases Inet.aton host.toList with
  | none => rfl
  | some a =>
    rw [Option.getD_some, Option.filter_some]
    by_cases h0 : a = inaddrAny
    · rw [if_pos h0]
      simp [outcome, h0]
    · rw [if_neg h0]
      by_cases h1 : a = inaddrNone
      · rw [if_pos h1]
        simp [outcome, h1]
      · rw [if_neg h1]
        simp [outcome, h0, h1]

/-- Where the outcomes are the same. -/
theorem outcome_iff (host : String) (s_addr : UInt32) :
    outcome (cpInetPtonWindows (some host) s_addr) = outcome (cpInetPtonLinux (some host) s_addr) ↔
      Alike host := by
  rw [linux_outcome]
  by_cases hany : host = "0.0.0.0"
  · subst hany
    rw [pton_any]
    refine iff_of_true rfl (.inl ⟨?_, by decide⟩)
    rw [pton_any]
    rfl
  · rw [windows_outcome hany]
    unfold Alike
    cases hp : Inet.pton host.toList with
    | some a =>
      -- both read it, but all ones stand for an error on Windows
      have ha : a ≠ inaddrAny := by
        rintro rfl
        exact hany ((pton_spelled pton_any).1 hp)
      have hnone : a = inaddrNone ↔ host = "255.255.255.255" := by
        rw [← pton_spelled pton_none, hp, Option.some.injEq]
      rw [Inet.pton_aton hp, Option.filter_some]
      simp [ha, hnone]
    | none =>
      cases hn : Inet.aton host.toList with
      | none => simp
      | some a =>
        rw [Option.filter_some]
        by_cases h0 : a = inaddrAny <;> by_cases h1 : a = inaddrNone <;> simp [h0, h1]

/-! ### The calls -/

theorem windows_result (p_host : Option String) (s_addr : UInt32) :
    (cpInetPtonWindows p_host s_addr).1 = 1 ∨ (cpInetPtonWindows p_host s_addr).1 = 0 ∨
      (cpInetPtonWindows p_host s_addr).1 = -1 := by
  unfold cpInetPtonWindows
  cases p_host with
  | none => exact .inl rfl
  | some host =>
    dsimp only
    split
    · exact .inl rfl
    · split
      · exact .inr (.inl rfl)
      · split
        · exact .inr (.inr rfl)
        · exact .inl rfl

theorem linux_result (p_host : Option String) (s_addr : UInt32) :
    (cpInetPtonLinux p_host s_addr).1 = 1 ∨ (cpInetPtonLinux p_host s_addr).1 = 0 := by
  unfold cpInetPtonLinux
  cases p_host with
  | none => exact .inl rfl
  | some host =>
    dsimp only
    split
    · exact .inl rfl
    · unfold inetPton
      cases Inet.pton host.toList
      · exact .inr rfl
      · exact .inl rfl

theorem agree_outcome (p_host : Option String) :
    Agree p_host ↔ ∀ s_addr,
      outcome (cpInetPtonWindows p_host s_addr) = outcome (cpInetPtonLinux p_host s_addr) := by
  refine forall_congr' fun s_addr => ?_
  unfold outcome
  rcases windows_result p_host s_addr with hw | hw | hw <;>
    rcases linux_result p_host s_addr with hl | hl <;> rw [hw, hl] <;> simp

/-- A host that has to be read, or none. -/
def ReadAlike (p_host : Option String) : Prop := ∀ host, p_host = some host → Alike host

@[simp] theorem readAlike_some : ReadAlike (some host) ↔ Alike host := by
  unfold ReadAlike
  simp

theorem readAlike_none : ReadAlike none := by
  intro host h
  cases h

theorem agree_iff (p_host : Option String) : Agree p_host ↔ ReadAlike p_host := by
  rw [agree_outcome]
  cases p_host with
  | none => exact iff_of_true (fun _ => rfl) readAlike_none
  | some host =>
    rw [readAlike_some]
    constructor
    · intro h
      exact (outcome_iff host 0).1 (h 0)
    · intro h s_addr
      exact (outcome_iff host s_addr).2 h

/-- The host is refused. -/
def Refuses (E : Env) (p_host : Option String) : Prop := cpInetPton E p_host = 0 ∨ cpInetPton E p_host = -1

theorem refuses_windows (E : Env) (p_host : Option String) :
    Refuses E.onWindows p_host ↔ outcome (cpInetPtonWindows p_host 0) = none := by
  have hret : cpInetPton E.onWindows p_host = (cpInetPtonWindows p_host 0).1 := by
    unfold cpInetPton
    cases p_host with
    | none => rfl
    | some host =>
      by_cases hany : host = "0.0.0.0"
      · subst hany
        rfl
      · dsimp only
        rw [if_neg hany]
        rfl
  unfold Refuses
  rw [hret, outcome_eq_none]

theorem refuses_linux (E : Env) (p_host : Option String) :
    Refuses E.onLinux p_host ↔ outcome (cpInetPtonLinux p_host 0) = none := by
  have hret : cpInetPton E.onLinux p_host = (cpInetPtonLinux p_host 0).1 := by
    unfold cpInetPton cpInetPtonLinux
    cases p_host with
    | none => rfl
    | some host =>
      by_cases hany : host = "0.0.0.0"
      · subst hany
        rfl
      · dsimp only
        rw [if_neg hany, if_neg hany]
        rfl
  unfold Refuses
  rw [hret, outcome_eq_none]

/-- There is no host that both branches take for an address, but not for the same. -/
theorem outcome_unique {a b : UInt32} (hw : outcome (cpInetPtonWindows (some host) s_addr) = some a)
    (hl : outcome (cpInetPtonLinux (some host) s_addr) = some b) : a = b := by
  rw [linux_outcome] at hl
  by_cases hany : host = "0.0.0.0"
  · subst hany
    rw [pton_any] at hl
    exact Option.some.inj (hw.symm.trans hl)
  · rw [windows_outcome hany, Inet.pton_aton hl] at hw
    obtain ⟨hmem, -⟩ := Option.filter_eq_some_iff.1 hw
    exact (Option.some.inj hmem).symm

/-- **The two systems refuse the same hosts** just if they read them alike. -/
theorem refuses_iff (E : Env) (p_host : Option String) :
    (Refuses E.onWindows p_host ↔ Refuses E.onLinux p_host) ↔ ReadAlike p_host := by
  rw [refuses_windows, refuses_linux]
  cases p_host with
  | none => exact iff_of_true Iff.rfl readAlike_none
  | some host =>
    rw [readAlike_some, ← outcome_iff host 0]
    constructor
    · intro h
      cases hw : outcome (cpInetPtonWindows (some host) 0) with
      | none => exact (h.1 hw).symm
      | some a =>
        cases hl : outcome (cpInetPtonLinux (some host) 0) with
        | none => rw [h.2 hl] at hw; cases hw
        | some b => rw [outcome_unique hw hl]
    · intro h
      rw [h]

theorem cpBind_refused (h : Refuses E p_host) : cpBind E p_host port w = .ok (-2) w := by
  unfold cpBind
  exact congrFun (if_pos h) w

theorem cpBind_asked (h : ¬ Refuses E p_host) :
    cpBind E p_host port w = .ok (E.bind w.nbind) { w with nbind := w.nbind + 1 } := by
  unfold cpBind
  exact congrFun (if_neg h) w

/-- What `cp_connect` returns when it has asked the system. -/
def dialResult (E : Env) (w : World) : ℤ × Errno :=
  match E.connect w.nconnect with
  | .ok => (0, E.errno w.nconnect)
  | .fail errno => (-1, errno)

theorem dialResult_ne (E : Env) (w : World) : (dialResult E w).1 ≠ -3 := by
  unfold dialResult
  cases E.connect w.nconnect with
  | ok => exact (by decide : (0 : ℤ) ≠ -3)
  | fail errno => exact (by decide : (-1 : ℤ) ≠ -3)

theorem cpConnect_missing (h : p_host = none ∨ port = 0) :
    cpConnect E p_host port w = .ok (-2, E.errno w.nconnect) { w with nconnect := w.nconnect + 1 } := by
  unfold cpConnect
  rw [get_bind, bind_of_ok run_set, if_pos h]
  rfl

theorem cpConnect_refused (hp : ¬ (p_host = none ∨ port = 0)) (h : Refuses E p_host) :
    cpConnect E p_host port w = .ok (-3, E.errno w.nconnect) { w with nconnect := w.nconnect + 1 } := by
  unfold cpConnect
  rw [get_bind, bind_of_ok run_set, if_neg hp]
  exact congrFun (if_pos h) _

theorem cpConnect_asked (hp : ¬ (p_host = none ∨ port = 0)) (h : ¬ Refuses E p_host) :
    cpConnect E p_host port w = .ok (dialResult E w) { w with nconnect := w.nconnect + 1 } := by
  unfold cpConnect dialResult
  rw [get_bind, bind_of_ok run_set, if_neg hp]
  refine (congrFun (if_neg h) _).trans ?_
  cases E.connect w.nconnect <;> rfl

/-- **`cp_bind` on the two systems** does the same just if both refuse the host or neither does. -/
theorem cpBind_same (E : Env) (w : World) (p_host : Option String) (port : UInt16) :
    cpBind E.onWindows p_host port w = cpBind E.onLinux p_host port w ↔
      (Refuses E.onWindows p_host ↔ Refuses E.onLinux p_host) := by
  -- a call that asks the system is counted
  have hne : ∀ ret ret' : ℤ, (.ok ret w : EStateM.Result Fault World ℤ) ≠
      .ok ret' { w with nbind := w.nbind + 1 } := by
    intro ret ret' h
    rw [EStateM.Result.ok.injEq] at h
    have := congrArg World.nbind h.2
    exact absurd this (Nat.succ_ne_self _).symm
  by_cases hw : Refuses E.onWindows p_host <;> by_cases hl : Refuses E.onLinux p_host
  · rw [cpBind_refused hw, cpBind_refused hl]
    exact iff_of_true rfl (iff_of_true hw hl)
  · rw [cpBind_refused hw, cpBind_asked hl]
    exact iff_of_false (hne _ _) fun h => hl (h.1 hw)
  · rw [cpBind_asked hw, cpBind_refused hl]
    exact iff_of_false (fun h => hne _ _ h.symm) fun h => hw (h.2 hl)
  · rw [cpBind_asked hw, cpBind_asked hl]
    exact iff_of_true rfl (iff_of_false hw hl)

/-- **`cp_connect` on the two systems** does the same just if one of its arguments is missing, or both
refuse the host, or neither does. -/
theorem cpConnect_same (E : Env) (w : World) (p_host : Option String) (port : UInt16) :
    cpConnect E.onWindows p_host port w = cpConnect E.onLinux p_host port w ↔
      (p_host = none ∨ port = 0) ∨ (Refuses E.onWindows p_host ↔ Refuses E.onLinux p_host) := by
  by_cases hp : p_host = none ∨ port = 0
  · rw [cpConnect_missing hp, cpConnect_missing hp]
    exact iff_of_true rfl (.inl hp)
  rw [or_iff_right hp]
  have hne : ∀ errno w',
      (.ok (-3, errno) w' : EStateM.Result Fault World (ℤ × Errno)) ≠ .ok (dialResult E w) w' := by
    intro errno w' h
    rw [EStateM.Result.ok.injEq] at h
    exact dialResult_ne E w (congrArg Prod.fst h.1).symm
  by_cases hw : Refuses E.onWindows p_host <;> by_cases hl : Refuses E.onLinux p_host
  · rw [cpConnect_refused hp hw, cpConnect_refused hp hl]
    exact iff_of_true rfl (iff_of_true hw hl)
  · rw [cpConnect_refused hp hw, cpConnect_asked hp hl]
    exact iff_of_false (hne _ _) fun h => hl (h.1 hw)
  · rw [cpConnect_asked hp hw, cpConnect_refused hp hl]
    exact iff_of_false (fun h => hne _ _ h.symm) fun h => hw (h.2 hl)
  · rw [cpConnect_asked hp hw, cpConnect_asked hp hl]
    exact iff_of_true rfl (iff_of_false hw hl)

/-- **The two branches of `cp_inet_pton` agree** on the hosts that are spelled alike, and on no others;
and on these `cp_bind` and `cp_connect` do the same on both systems. -/
theorem inetPton_alike_iff (E : Env) (w : World) (p_host : Option String) (port : UInt16) :
    (Agree p_host ↔ ReadAlike p_host) ∧
      (cpBind E.onWindows p_host port w = cpBind E.onLinux p_host port w ↔ ReadAlike p_host) ∧
      (cpConnect E.onWindows p_host port w = cpConnect E.onLinux p_host port w ↔
        (p_host = none ∨ port = 0) ∨ ReadAlike p_host) := by
  refine ⟨agree_iff p_host, ?_, ?_⟩
  · rw [cpBind_same, refuses_iff]
  · rw [cpConnect_same, refuses_iff]

/-- **`inet_addr` reads more**, and takes the address of all ones for an error: a host of two numbers, and
one of four octets. -/
theorem inetPton_unlike : ¬ Agree (some "127.1") ∧ ¬ Agree (some "255.255.255.255") := by
  constructor
  · rw [agree_iff, readAlike_some]
    have hchars : "127.1".toList = ['1', '2', '7', '.', '1'] := String.toList_ofList
    unfold Alike
    rw [hchars]
    rintro (⟨hs, -⟩ | ⟨-, ha⟩)
    · exact absurd hs (by decide)
    · exact absurd ha (by decide)
  · rw [agree_iff, readAlike_some]
    rintro (⟨-, hne⟩ | ⟨hn, -⟩)
    · exact hne rfl
    · rw [pton_none] at hn
      cases hn

/-! ### Printing an address and reading it back -/

/-- Sixteen bytes are enough for the text of an address. -/
theorem ntop_fits (x : UInt32) :
    cpInetNtopLinux (some x) true 16 = some (.ofList (Inet.ntop x)) ∧
      cpInetNtopWindows (some x) true 16 = .ok (some (.ofList (Inet.ntop x))) := by
  have hlen := Inet.length_ntop_le x
  constructor
  · unfold cpInetNtopLinux inetNtop
    dsimp only
    rw [if_neg Bool.noConfusion, if_neg (by omega)]
  · unfold cpInetNtopWindows strncpyS
    dsimp only
    rw [if_neg Bool.noConfusion, if_pos (by omega), List.take_of_length_le (by omega)]
    rfl

/-- A host that Linux reads as an address is its text. -/
theorem linux_reads_iff (host : String) (x s_addr : UInt32) :
    cpInetPtonLinux (some host) s_addr = (1, x) ↔ host = .ofList (Inet.ntop x) := by
  have hsome : cpInetPtonLinux (some host) s_addr = (1, x) ↔ Inet.pton host.toList = some x := by
    unfold cpInetPtonLinux
    dsimp only
    by_cases hany : host = "0.0.0.0"
    · rw [if_pos hany, hany, pton_any]
      simp
    · rw [if_neg hany]
      unfold inetPton
      cases Inet.pton host.toList with
      | none => simp
      | some a => simp
  rw [hsome, Inet.pton_eq_some_iff]
  constructor
  · intro h
    rw [← h, String.ofList_toList]
  · rintro rfl
    rw [String.toList_ofList]

/-- Windows reads the text of an address as this address, except that of all ones. -/
theorem windows_reads (x s_addr : UInt32) :
    cpInetPtonWindows (some (.ofList (Inet.ntop x))) s_addr = if x = inaddrNone then (-1, x) else (1, x) := by
  have haton : Inet.aton (Inet.ntop x) = some x := Inet.pton_aton (Inet.pton_ntop x)
  have hany : String.ofList (Inet.ntop x) = "0.0.0.0" ↔ x = inaddrAny := by
    rw [← pton_spelled pton_any, String.toList_ofList, Inet.pton_ntop, Option.some.injEq]
  unfold cpInetPtonWindows
  dsimp only
  by_cases h0 : x = inaddrAny
  · rw [if_pos (hany.2 h0), h0, if_neg (by decide)]
  · rw [if_neg fun h => h0 (hany.1 h)]
    unfold inetAddr
    rw [String.toList_ofList, haton, Option.getD_some, if_neg h0]

/-- **The text of an address** fits into the sixteen bytes that the constructor and `accept` have for it.
On Linux it is the only host that is read as this address; on Windows it is read as this address, too,
except that the address of all ones is taken for an error. -/
theorem ntop_round_trip (x s_addr : UInt32) : ∃ text,
    cpInetNtopLinux (some x) true 16 = some text ∧ cpInetNtopWindows (some x) true 16 = .ok (some text) ∧
      (∀ host, cpInetPtonLinux (some host) s_addr = (1, x) ↔ host = text) ∧
      cpInetPtonWindows (some text) s_addr = if x = inaddrNone then (-1, x) else (1, x) := by
  obtain ⟨hl, hw⟩ := ntop_fits x
  exact ⟨_, hl, hw, fun host => linux_reads_iff host x s_addr, windows_reads x s_addr⟩

end DocFerry
