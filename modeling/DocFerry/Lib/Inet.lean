import Mathlib.Tactic

/-!
# IPv4 addresses as text

* `pton`: four decimal octets with dots between them, the form that `inet_pton` reads.
* `aton`: one to four numbers in the notation of C, the form that `inet_addr` reads.
* `pton_aton`: `aton` reads what `pton` reads, as the same address.
* `pton_inj`: an address has one text that `pton` reads.
-/

namespace Inet

/-! ### Numbers -/

/-- The value of a digit, at most 15; 16 stands for no digit. -/
def digit (c : Char) : ℕ :=
  if 48 ≤ c.toNat ∧ c.toNat ≤ 57 then c.toNat - 48
  else if 97 ≤ c.toNat ∧ c.toNat ≤ 102 then c.toNat - 87
  else if 65 ≤ c.toNat ∧ c.toNat ≤ 70 then c.toNat - 55
  else 16

/-- One or more digits. -/
def IsNumeral (base : ℕ) (cs : List Char) : Prop := cs ≠ [] ∧ ∀ c ∈ cs, digit c < base

instance (base : ℕ) (cs : List Char) : Decidable (IsNumeral base cs) :=
  letI : Decidable (∀ c ∈ cs, digit c < base) := List.decidableBAll (fun c => digit c < base) cs
  inferInstanceAs (Decidable (cs ≠ [] ∧ ∀ c ∈ cs, digit c < base))

/-- The number that digits stand for. -/
def value (base : ℕ) (cs : List Char) : ℕ := Nat.ofDigits base (cs.map digit).reverse

/-- A number without zeros in front. -/
def Plain (cs : List Char) : Prop := IsNumeral 10 cs ∧ (cs.head? = some '0' → cs = ['0'])

instance (cs : List Char) : Decidable (Plain cs) := inferInstanceAs (Decidable (_ ∧ _))

/-- A decimal octet. -/
def octet (cs : List Char) : Option ℕ :=
  if Plain cs ∧ value 10 cs < 256 then some (value 10 cs) else none

/-- A number in the notation of C: hexadecimal behind `0x`, octal behind `0`, or decimal. -/
def number : List Char → Option ℕ
  | '0' :: x :: cs =>
    if x = 'x' ∨ x = 'X' then if IsNumeral 16 cs then some (value 16 cs) else none
    else if IsNumeral 8 (x :: cs) then some (value 8 (x :: cs)) else none
  | cs => if IsNumeral 10 cs then some (value 10 cs) else none

/-- A decimal digit is one of ten characters. -/
theorem digit_char {c : Char} (h : digit c < 10) : c.toNat = 48 + digit c := by
  unfold digit at h ⊢
  split at h
  · rename_i hc
    rw [if_pos hc]
    omega
  · split at h
    · omega
    · split at h <;> omega

theorem digit_spelled {c : Char} (h : digit c < 10) : Char.ofNat (48 + digit c) = c := by
  rw [← digit_char h, Char.ofNat_toNat]

/-- Decimal digits are spelled in one way. -/
theorem map_digit_spelled {cs : List Char} (h : ∀ c ∈ cs, digit c < 10) :
    (cs.map digit).map (fun d => Char.ofNat (48 + d)) = cs := by
  rw [List.map_map]
  calc cs.map _ = cs.map id := List.map_congr_left fun c hc => digit_spelled (h c hc)
    _ = cs := List.map_id cs

/-- The digits of a number without zeros in front are those of its value. -/
theorem Plain.digits {cs : List Char} (h : Plain cs) (hne : cs ≠ ['0']) :
    Nat.digits 10 (value 10 cs) = (cs.map digit).reverse := by
  obtain ⟨⟨hnil, hdig⟩, hzero⟩ := h
  refine Nat.digits_ofDigits 10 (by omega) _ (fun l hl => ?_) fun hl => ?_
  · obtain ⟨c, hc, rfl⟩ := List.mem_map.1 (List.mem_reverse.1 hl)
    exact hdig c hc
  · -- the last digit in this order is the first character
    obtain ⟨c, cs, rfl⟩ := List.exists_cons_of_ne_nil hnil
    intro h0
    have hc0 : digit c = 0 := by simpa using h0
    have hc : c = '0' := by
      rw [← digit_spelled (hdig c List.mem_cons_self), hc0]
    rw [hc] at hzero hne
    exact hne (hzero rfl)

/-- **A number has one spelling** without zeros in front. -/
theorem Plain.inj {p q : List Char} (hp : Plain p) (hq : Plain q) (h : value 10 p = value 10 q) : p = q := by
  have hne : ∀ {r : List Char}, Plain r → r ≠ ['0'] → value 10 r ≠ value 10 ['0'] := by
    intro r hr hr0 hv
    have hd := hr.digits hr0
    rw [hv, show Nat.digits 10 (value 10 ['0']) = [] by decide] at hd
    have hnil : r = [] := by simpa using hd.symm
    exact hr.1.1 hnil
  by_cases hp0 : p = ['0']
  · by_contra hpq
    have hq0 : q ≠ ['0'] := fun hq0 => hpq (hp0.trans hq0.symm)
    exact hne hq hq0 (by rw [← h, hp0])
  · have hq0 : q ≠ ['0'] := fun hq0 => hne hp hp0 (by rw [h, hq0])
    have hd := hp.digits hp0
    rw [h, hq.digits hq0] at hd
    have hmap : p.map digit = q.map digit := (List.reverse_injective hd).symm
    rw [← map_digit_spelled hp.1.2, hmap, map_digit_spelled hq.1.2]

theorem octet_eq_some {cs : List Char} {v : ℕ} :
    octet cs = some v ↔ Plain cs ∧ value 10 cs = v ∧ v < 256 := by
  unfold octet
  by_cases h : Plain cs ∧ value 10 cs < 256
  · rw [if_pos h, Option.some.injEq]
    exact ⟨fun hv => ⟨h.1, hv, hv ▸ h.2⟩, fun hv => hv.2.1⟩
  · rw [if_neg h]
    refine iff_of_false (fun hv => by cases hv) ?_
    rintro ⟨hp, rfl, hlt⟩
    exact h ⟨hp, hlt⟩

/-- **A decimal octet is a number of C**, with the same value. -/
theorem octet_number {cs : List Char} {v : ℕ} (h : octet cs = some v) : number cs = some v := by
  obtain ⟨⟨hnum, hzero⟩, hv, -⟩ := octet_eq_some.1 h
  unfold number
  split
  · -- there is no `0` before other digits
    cases hzero rfl
  · rw [if_pos hnum, hv]

/-! ### Addresses -/

/-- The address of four octets, as the number that its bytes are in network order. -/
def quad (a b c d : ℕ) : UInt32 := UInt32.ofNat (((a * 256 + b) * 256 + c) * 256 + d)

/-- Four decimal octets. -/
def pton (s : List Char) : Option UInt32 :=
  match (s.splitOn '.').map octet with
  | [some a, some b, some c, some d] => some (quad a b c d)
  | _ => none

/-- One to four numbers, the last of which has the bytes that are left. -/
def aton (s : List Char) : Option UInt32 :=
  match (s.splitOn '.').map number with
  | [some a] => if a < 2 ^ 32 then some (UInt32.ofNat a) else none
  | [some a, some b] =>
    if a < 2 ^ 8 ∧ b < 2 ^ 24 then some (UInt32.ofNat (a * 2 ^ 24 + b)) else none
  | [some a, some b, some c] =>
    if a < 2 ^ 8 ∧ b < 2 ^ 8 ∧ c < 2 ^ 16 then some (UInt32.ofNat ((a * 256 + b) * 2 ^ 16 + c)) else none
  | [some a, some b, some c, some d] =>
    if a < 2 ^ 8 ∧ b < 2 ^ 8 ∧ c < 2 ^ 8 ∧ d < 2 ^ 8 then some (quad a b c d) else none
  | _ => none

theorem quad_inj {a b c d a' b' c' d' : ℕ} (ha : a < 256) (hb : b < 256) (hc : c < 256) (hd : d < 256)
    (ha' : a' < 256) (hb' : b' < 256) (hc' : c' < 256) (hd' : d' < 256)
    (h : quad a b c d = quad a' b' c' d') : a = a' ∧ b = b' ∧ c = c' ∧ d = d' := by
  have hlt : ∀ {a b c d : ℕ}, a < 256 → b < 256 → c < 256 → d < 256 →
      (quad a b c d).toNat = ((a * 256 + b) * 256 + c) * 256 + d := fun ha hb hc hd => by
    refine UInt32.toNat_ofNat_of_lt' ?_
    change _ < 2 ^ 32
    omega
  have hnat := congrArg UInt32.toNat h
  rw [hlt ha hb hc hd, hlt ha' hb' hc' hd'] at hnat
  omega

theorem pton_eq_some {s : List Char} {x : UInt32} (h : pton s = some x) :
    ∃ p q r t a b c d, s.splitOn '.' = [p, q, r, t] ∧ octet p = some a ∧ octet q = some b ∧
      octet r = some c ∧ octet t = some d ∧ x = quad a b c d := by
  unfold pton at h
  split at h
  · rename_i a b c d heq
    cases h
    obtain ⟨p, l, hs, hp, heq⟩ := List.map_eq_cons_iff.1 heq
    obtain ⟨q, l, rfl, hq, heq⟩ := List.map_eq_cons_iff.1 heq
    obtain ⟨r, l, rfl, hr, heq⟩ := List.map_eq_cons_iff.1 heq
    obtain ⟨t, l, rfl, ht, heq⟩ := List.map_eq_cons_iff.1 heq
    rw [List.map_eq_nil_iff.1 heq] at hs
    exact ⟨p, q, r, t, a, b, c, d, hs, hp, hq, hr, ht, rfl⟩
  · cases h

/-- **What `pton` reads `aton` reads**, as the same address. -/
theorem pton_aton {s : List Char} {x : UInt32} (h : pton s = some x) : aton s = some x := by
  obtain ⟨p, q, r, t, a, b, c, d, hs, ha, hb, hc, hd, rfl⟩ := pton_eq_some h
  have hlt : a < 2 ^ 8 ∧ b < 2 ^ 8 ∧ c < 2 ^ 8 ∧ d < 2 ^ 8 :=
    ⟨(octet_eq_some.1 ha).2.2, (octet_eq_some.1 hb).2.2, (octet_eq_some.1 hc).2.2, (octet_eq_some.1 hd).2.2⟩
  unfold aton
  rw [hs]
  simp only [List.map_cons, List.map_nil, octet_number ha, octet_number hb, octet_number hc, octet_number hd]
  rw [if_pos hlt]

/-- **An address has one text** that `pton` reads. -/
theorem pton_inj {s s' : List Char} {x : UInt32} (h : pton s = some x) (h' : pton s' = some x) : s = s' := by
  obtain ⟨p, q, r, t, a, b, c, d, hs, hp, hq, hr, ht, rfl⟩ := pton_eq_some h
  obtain ⟨p', q', r', t', a', b', c', d', hs', hp', hq', hr', ht', heq⟩ := pton_eq_some h'
  rw [octet_eq_some] at hp hq hr ht hp' hq' hr' ht'
  obtain ⟨rfl, rfl, rfl, rfl⟩ := quad_inj hp.2.2 hq.2.2 hr.2.2 ht.2.2 hp'.2.2 hq'.2.2 hr'.2.2 ht'.2.2 heq
  have hparts : s.splitOn '.' = s'.splitOn '.' := by
    rw [hs, hs', hp.1.inj hp'.1 (hp.2.1.trans hp'.2.1.symm), hq.1.inj hq'.1 (hq.2.1.trans hq'.2.1.symm),
      hr.1.inj hr'.1 (hr.2.1.trans hr'.2.1.symm), ht.1.inj ht'.1 (ht.2.1.trans ht'.2.1.symm)]
  calc s = ['.'].intercalate (s.splitOn '.') := (List.intercalate_splitOn '.').symm
    _ = ['.'].intercalate (s'.splitOn '.') := by rw [hparts]
    _ = s' := List.intercalate_splitOn '.'

end Inet
