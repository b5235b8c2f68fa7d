import DocFerry.Lib.Inet

/-!
# Printing IPv4 addresses

* `ntop`: the text of an address, as `inet_ntop` and `inet_ntoa` print it.
* `pton_ntop`: it is read back as the address.
* `pton_eq_some_iff`: no other text is.
* `length_ntop_le`: it has at most 15 characters.
-/

namespace Inet

/-- The four bytes of an address. -/
def octets (x : UInt32) : List ℕ :=
  [x.toNat / 2 ^ 24, x.toNat / 2 ^ 16 % 256, x.toNat / 2 ^ 8 % 256, x.toNat % 256]

/-- The text of an address. -/
def ntop (x : UInt32) : List Char := ['.'].intercalate ((octets x).map (Nat.toDigits 10))

/-! ### Decimal numbers -/

theorem digit_digitChar : ∀ d < 10, digit (Nat.digitChar d) = d := by decide

theorem value_append (cs : List Char) (c : Char) : value 10 (cs ++ [c]) = digit c + 10 * value 10 cs := by
  unfold value
  rw [List.map_append, List.reverse_append]
  exact Nat.ofDigits_cons

/-- **A number is printed** without zeros in front, and read back. -/
theorem toDigits_plain (n : ℕ) : Plain (Nat.toDigits 10 n) ∧ value 10 (Nat.toDigits 10 n) = n := by
  induction n using Nat.strong_induction_on with
  | _ n ih =>
    by_cases hn : n < 10
    · rw [Nat.toDigits_of_lt_base hn]
      have hd := digit_digitChar n hn
      refine ⟨⟨⟨by simp, fun c hc => ?_⟩, fun h0 => ?_⟩, ?_⟩
      · rw [List.mem_singleton.1 hc, hd]
        exact hn
      · rw [Option.some.inj h0]
      · simp [value, hd]
    · -- the last digit, behind those of the tenth part
      rw [Nat.toDigits_of_base_le (by decide) (not_lt.1 hn)]
      obtain ⟨⟨⟨hne, hdig⟩, hzero⟩, hval⟩ := ih (n / 10) (Nat.div_lt_self (by omega) (by decide))
      have hlast := digit_digitChar (n % 10) (Nat.mod_lt _ (by decide))
      refine ⟨⟨⟨by simp, fun c hc => ?_⟩, fun h0 => ?_⟩, ?_⟩
      · rcases List.mem_append.1 hc with hc | hc
        · exact hdig c hc
        · rw [List.mem_singleton.1 hc, hlast]
          exact Nat.mod_lt _ (by decide)
      · rw [List.head?_append_of_ne_nil _ hne] at h0
        rw [hzero h0] at hval
        have hten : n / 10 = 0 := hval.symm.trans (by decide)
        omega
      · rw [value_append, hval, hlast]
        omega

theorem octet_toDigits {n : ℕ} (h : n < 256) : octet (Nat.toDigits 10 n) = some n := by
  obtain ⟨hplain, hval⟩ := toDigits_plain n
  exact octet_eq_some.2 ⟨hplain, hval, h⟩

/-! ### Addresses -/

theorem octets_lt (x : UInt32) : ∀ n ∈ octets x, n < 256 := by
  have hx : x.toNat < 2 ^ 32 := x.toNat_lt
  unfold octets
  simp only [List.mem_cons, List.not_mem_nil, or_false, forall_eq_or_imp, forall_eq]
  omega

theorem quad_octets (x : UInt32) :
    quad (x.toNat / 2 ^ 24) (x.toNat / 2 ^ 16 % 256) (x.toNat / 2 ^ 8 % 256) (x.toNat % 256) = x := by
  have hx : ((x.toNat / 2 ^ 24 * 256 + x.toNat / 2 ^ 16 % 256) * 256 + x.toNat / 2 ^ 8 % 256) * 256 +
      x.toNat % 256 = x.toNat := by omega
  unfold quad
  rw [hx, UInt32.ofNat_toNat]

/-- Between the dots there are the octets. -/
theorem splitOn_ntop (x : UInt32) : (ntop x).splitOn '.' = (octets x).map (Nat.toDigits 10) := by
  apply List.splitOn_intercalate
  · intro l hl hdot
    obtain ⟨n, -, rfl⟩ := List.mem_map.1 hl
    have := Nat.isDigit_of_mem_toDigits (by decide) (by decide) hdot
    exact absurd this (by decide)
  · simp [octets]

/-- **The text of an address** is read back as the address. -/
theorem pton_ntop (x : UInt32) : pton (ntop x) = some x := by
  have hlt := octets_lt x
  have hmap : ((octets x).map (Nat.toDigits 10)).map octet = (octets x).map some := by
    rw [List.map_map]
    exact List.map_congr_left fun n hn => octet_toDigits (hlt n hn)
  unfold pton
  rw [splitOn_ntop, hmap]
  exact congrArg some (quad_octets x)

/-- **No other text is read** as the address. -/
theorem pton_eq_some_iff {s : List Char} {x : UInt32} : pton s = some x ↔ s = ntop x := by
  constructor
  · intro h
    exact pton_inj h (pton_ntop x)
  · rintro rfl
    exact pton_ntop x

/-- An address fits into 15 characters. -/
theorem length_ntop_le (x : UInt32) : (ntop x).length ≤ 15 := by
  have hdig : ∀ n ∈ octets x, (Nat.toDigits 10 n).length ≤ 3 := by
    intro n hn
    exact Nat.toDigits_length 10 n 3 (by decide) ((octets_lt x n hn).trans (by decide))
  unfold octets at hdig
  simp only [List.mem_cons, List.not_mem_nil, or_false, forall_eq_or_imp, forall_eq] at hdig
  obtain ⟨ha, hb, hc, hd⟩ := hdig
  simp only [ntop, octets, List.map_cons, List.map_nil, List.intercalate_cons_cons, List.intercalate_singleton,
    List.length_append, List.length_singleton]
  omega

end Inet
