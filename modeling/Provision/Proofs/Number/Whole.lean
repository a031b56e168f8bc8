import Mathlib.Algebra.Ring.Nat
import Provision.Number.Layout

/-! Words that do not fit a signed one, as texts.

An integer of `2^63` or more is kept as a double. These doubles are 2048 apart, so a multiple
of a thousand is among the reals that round to one of them, and the search for the shortest
decimal goes no further than the thousands: what is written is never a word's own digits, unless
these end in three zeros. -/
namespace Provision.Double

/-! ### Doubles of large words -/

/-- The doubles of the words with a first bit. -/
structure Coarse (m : Nat) (e : Int) : Prop where
  low : leastSignificand ≤ m
  high : m < 2 * leastSignificand
  exponent : e = 11 ∨ e = 12 ∧ m = leastSignificand

theorem nearest_bounds (n : Nat) : nearest n 2048 * 2048 ≤ n + 1024 ∧
    n ≤ nearest n 2048 * 2048 + 1024 := by
  simp only [nearest, Bool.or_eq_true, decide_eq_true_eq, Bool.and_eq_true, beq_iff_eq]
  split <;> omega

theorem unitExponent_of_word {n : Nat} (hlow : 2 ^ 63 ≤ n) (hhigh : n < 2 ^ 64) :
    unitExponent n 1 = 11 := by
  have hlog : n.log2 = 63 := (Nat.log2_eq_iff (by omega)).mpr ⟨hlow, hhigh⟩
  have hunits : inUnits n 1 10 = (n, 1024) := rfl
  have hsize : 2 * leastSignificand ≤ n / 1024 := by
    unfold leastSignificand
    omega
  simp only [unitExponent, hlog, show Nat.log2 1 = 0 from rfl,
    show ((63 : Nat) : Int) - ((0 : Nat) : Int) - 53 = 10 from rfl, hunits, if_pos hsize]
  rfl

/-- The double of a large word is at most 1024 away from it. -/
theorem exists_ofInt {n : Nat} (hlow : 2 ^ 63 ≤ n) (hhigh : n < 2 ^ 64) :
    ∃ m e, ofInt n = .finite false m e ∧ Coarse m e ∧ m * 2 ^ e.toNat ≤ n + 1024 ∧
      n ≤ m * 2 ^ e.toNat + 1024 := by
  have hbounds := nearest_bounds n
  have hof : ofInt n = if nearest n 2048 = 2 * leastSignificand then
      .finite false leastSignificand 12 else .finite false (nearest n 2048) 11 := by
    have hunits : inUnits n 1 11 = (n, 2048) := rfl
    unfold ofInt ofQuotient
    rw [Int.natAbs_natCast, if_neg (by omega), unitExponent_of_word hlow hhigh]
    simp only [hunits]
    split <;> rfl
  rw [hof]
  by_cases hcarry : nearest n 2048 = 2 * leastSignificand
  · rw [hcarry] at hbounds
    refine ⟨leastSignificand, 12, if_pos hcarry,
      ⟨Nat.le_refl _, by decide, .inr ⟨rfl, rfl⟩⟩, ?_⟩
    rw [show 2 ^ Int.toNat 12 = 4096 from rfl]
    unfold leastSignificand at *
    omega
  · rw [if_neg hcarry]
    unfold leastSignificand at hcarry
    refine ⟨nearest n 2048, 11, rfl, ⟨?_, ?_, .inl rfl⟩, hbounds⟩
    · unfold leastSignificand
      omega
    · unfold leastSignificand
      omega

/-! ### Digits -/

theorem decimalLength_le {n k : Nat} (hk : 0 < k) (h : n < 10 ^ k) : decimalLength n ≤ k := by
  unfold decimalLength
  split
  · exact Nat.zero_le k
  · exact (Nat.length_toDigits_le_iff (by decide) hk).mpr h

theorem lt_decimalLength {n k : Nat} (hk : 0 < k) (h : 10 ^ k ≤ n) : k < decimalLength n := by
  have hpos : n ≠ 0 := by
    have := Nat.pow_pos (n := k) (show 0 < 10 by decide)
    omega
  rw [decimalLength, if_neg hpos]
  refine Nat.lt_of_not_le fun hle => ?_
  have := (Nat.length_toDigits_le_iff (by decide) hk).mp hle
  omega

/-- Zeros behind a number multiply it by a power of ten. -/
theorem toDigits_append_zeros {n : Nat} (hn : 0 < n) (p : Nat) :
    Nat.toDigits 10 n ++ List.replicate p '0' = Nat.toDigits 10 (n * 10 ^ p) := by
  induction p with
  | zero => rw [Nat.pow_zero, Nat.mul_one, List.replicate_zero, List.append_nil]
  | succ p ih =>
    have hpos : 0 < n * 10 ^ p := Nat.mul_pos hn (Nat.pow_pos (by decide))
    rw [List.replicate_succ', ← List.append_assoc, ih,
      show ['0'] = Nat.toDigits 10 0 from rfl,
      Nat.toDigits_append_toDigits (by decide) hpos (by decide)]
    rw [Nat.pow_succ, Nat.add_zero, Nat.mul_comm 10, Nat.mul_assoc]

/-- A decimal without fraction is written as the number that it is. -/
theorem positionalText_plain {d : Nat} (hd : 0 < d) (p : Nat) :
    plainLayout.positionalText (Nat.toDigits 10 d) ((Nat.toDigits 10 d).length + (p : Int)) =
      toString (d * 10 ^ p) := by
  have hlength : 0 < (Nat.toDigits 10 d).length := Nat.length_toDigits_pos
  have hzeros :
      ((Nat.toDigits 10 d).length + (p : Int)).toNat - (Nat.toDigits 10 d).length = p := by
    omega
  rw [Layout.positionalText, if_neg (by omega), if_pos (by omega), hzeros, zeros,
    Nat.toString_eq_ofList_toDigits, ← toDigits_append_zeros hd, String.ofList_append]
  exact String.append_empty

/-! ### The search on a grid -/

namespace Interval

variable {i : Interval} {tie : Tie}

/-- A search stops at the latest where there is a decimal, unless it runs out of grids. -/
theorem exists_search {q : Int} (hq : i.onGrid tie q ≠ none) (fuel : Nat) {p : Int} (hp : q ≤ p)
    (hfuel : p - q < fuel) :
    ∃ n p', i.search tie fuel p = ⟨n, p'⟩ ∧ q ≤ p' ∧ p' ≤ p ∧ i.onGrid tie p' = some n := by
  induction fuel generalizing p with
  | zero => omega
  | succ fuel ih =>
    rw [search]
    cases hgrid : i.onGrid tie p with
    | some n => exact ⟨n, p, rfl, hp, Int.le_refl p, hgrid⟩
    | none =>
      have hne : p ≠ q := fun h => hq (h ▸ hgrid)
      obtain ⟨n, p', hsearch, hlow, hhigh, hn⟩ := ih (p := p - 1) (by omega) (by omega)
      exact ⟨n, p', hsearch, hlow, by omega, hn⟩

theorem holds_of_onGrid {p : Int} {n : Nat} (h : i.onGrid tie p = some n) : i.holds p n := by
  unfold onGrid at h
  simp only at h
  split at h
  case h_1 hbelow habove =>
    cases h
    split <;> assumption
  case h_2 hbelow _ =>
    cases h
    exact hbelow
  case h_3 _ habove =>
    cases h
    exact habove
  case h_4 => cases h

end Interval

/-- Zeros at the end are counted, not lost. -/
theorem exists_trimmed (fuel : Nat) {d p : Nat} (hd : 0 < d) :
    ∃ d' p' : Nat, Decimal.trimmed fuel ⟨d, p⟩ = ⟨d', p'⟩ ∧ 0 < d' ∧ p ≤ p' ∧
      d' * 10 ^ p' = d * 10 ^ p := by
  induction fuel generalizing d p with
  | zero => exact ⟨d, p, rfl, hd, Nat.le_refl p, rfl⟩
  | succ fuel ih =>
    rw [Decimal.trimmed]
    split
    case isTrue h =>
      have h : d % 10 = 0 := of_decide_eq_true (Bool.and_eq_true_iff.mp h).1
      obtain ⟨d', p', htrimmed, hpos, hle, heq⟩ := ih (d := d / 10) (p := p + 1) (by omega)
      refine ⟨d', p', by simpa using htrimmed, hpos, Nat.le_of_succ_le hle, ?_⟩
      have hten : d / 10 * 10 = d := by omega
      rw [heq, Nat.pow_succ, Nat.mul_comm (10 ^ p) 10, ← Nat.mul_assoc, hten]
    case isFalse => exact ⟨d, p, rfl, hd, Nat.le_refl p, rfl⟩

namespace Interval

variable {i : Interval} (hunit : i.unitDen = 1)
include hunit

theorem scaled_whole (n p k : Nat) : i.scaled n p k = (n * 10 ^ p, k * i.unitNum) := by
  rw [scaled, if_pos (Int.natCast_nonneg p), hunit, Nat.mul_one]
  rfl

/-- Where a number is whole, what rounds to it is between the ends. -/
theorem bounds_of_holds {n p : Nat} (h : i.holds p n) :
    i.low * i.unitNum ≤ n * 10 ^ p ∧ n * 10 ^ p ≤ i.high * i.unitNum := by
  rw [holds, scaled_whole hunit, scaled_whole hunit] at h
  split at h
  all_goals
    simp only [Bool.and_eq_true, decide_eq_true_eq] at h
    omega

/-- A grid that is finer than the upper half has a decimal there. -/
theorem holds_above {p : Nat} (hlow : i.low < i.value) (hhigh : i.high = i.value + 2)
    (hgrid : 10 ^ p < 2 * i.unitNum) : i.holds p (i.below p + 1) := by
  have hpos : 0 < 10 ^ p := Nat.pow_pos (by decide)
  have hbelow : i.below p = i.value * i.unitNum / 10 ^ p := by
    rw [below, scaled_whole hunit, Nat.one_mul]
  have hlower : i.low * i.unitNum < (i.below p + 1) * 10 ^ p := by
    have hvalue : i.low * i.unitNum < i.value * i.unitNum :=
      Nat.mul_lt_mul_of_pos_right hlow (by omega)
    have hceil := Nat.lt_mul_div_succ (i.value * i.unitNum) hpos
    rw [hbelow, Nat.mul_comm (_ + 1)]
    exact Nat.lt_trans hvalue hceil
  have hupper : (i.below p + 1) * 10 ^ p < i.high * i.unitNum := by
    have hfloor : i.value * i.unitNum / 10 ^ p * 10 ^ p ≤ i.value * i.unitNum :=
      Nat.div_mul_le_self _ _
    rw [hbelow, hhigh, Nat.add_mul, Nat.add_mul, Nat.one_mul]
    omega
  rw [holds, scaled_whole hunit, scaled_whole hunit]
  split
  all_goals
    simp only [Bool.and_eq_true, decide_eq_true_eq]
    omega

end Interval

/-! ### The text -/

section Coarse
variable {m : Nat} {e : Int} (h : Coarse m e)
include h

theorem Coarse.unit : (interval m e).unitDen = 1 ∧ (interval m e).unitNum * 4 = 2 ^ e.toNat ∧
    512 ≤ (interval m e).unitNum ∧ (interval m e).unitNum ≤ 1024 := by
  rcases h.exponent with rfl | ⟨rfl, _⟩
  · exact ⟨rfl, rfl, Nat.le_refl 512, show 512 ≤ 1024 by decide⟩
  · exact ⟨rfl, rfl, show 512 ≤ 1024 by decide, Nat.le_refl 1024⟩

theorem Coarse.ends : (interval m e).low < (interval m e).value ∧
    (interval m e).value ≤ (interval m e).low + 2 ∧
    (interval m e).high = (interval m e).value + 2 := by
  have hlow := h.low
  unfold leastSignificand at hlow
  simp only [interval]
  refine ⟨?_, ?_, trivial⟩ <;> split <;> omega

theorem Coarse.value_eq : (interval m e).value * (interval m e).unitNum = m * 2 ^ e.toNat := by
  show 4 * m * _ = _
  rw [Nat.mul_comm 4, Nat.mul_assoc, Nat.mul_comm 4, h.unit.2.1]

/-- There is a decimal on the grid of thousands. -/
theorem Coarse.onGrid_ne_none (tie : Tie) : (interval m e).onGrid tie 3 ≠ none := by
  obtain ⟨hden, _, hunit, _⟩ := h.unit
  have habove : (interval m e).holds 3 ((interval m e).below 3 + 1) = true :=
    Interval.holds_above hden (p := 3) h.ends.1 h.ends.2.2 (by omega)
  unfold Interval.onGrid
  simp only [habove]
  cases (interval m e).holds 3 ((interval m e).below 3) <;> simp

theorem Coarse.size : 10 ^ 18 ≤ m * 2 ^ e.toNat ∧ m * 2 ^ e.toNat < 10 ^ 20 := by
  obtain ⟨hlow, hhigh, he⟩ := h
  unfold leastSignificand at hlow hhigh
  rcases he with rfl | ⟨rfl, _⟩
  · rw [show 2 ^ Int.toNat 11 = 2048 from rfl]
    omega
  · rw [show 2 ^ Int.toNat 12 = 4096 from rfl]
    omega

theorem Coarse.decimalExponent_bounds :
    18 ≤ decimalExponent ((interval m e).value * (interval m e).unitNum) (interval m e).unitDen ∧
      decimalExponent ((interval m e).value * (interval m e).unitNum) (interval m e).unitDen <
        20 := by
  have hlower := lt_decimalLength (by decide) h.size.1
  have hupper := decimalLength_le (by decide) h.size.2
  have hpos := h.size.1
  rw [h.value_eq, h.unit.1, decimalExponent, if_pos (by omega), Nat.div_one]
  omega

/-- The shortest decimal of such a double is a multiple of a thousand. -/
theorem Coarse.exists_shortest (tie : Tie) : ∃ d p : Nat, shortest tie m e = ⟨d, p⟩ ∧ 0 < d ∧
    1000 ∣ d * 10 ^ p ∧ d * 10 ^ p ≤ m * 2 ^ e.toNat + 2048 ∧
      m * 2 ^ e.toNat ≤ d * 10 ^ p + 2048 := by
  obtain ⟨hstart, hstart'⟩ := h.decimalExponent_bounds
  obtain ⟨n, p', hsearch, hp, _, hn⟩ := Interval.exists_search (h.onGrid_ne_none tie)
    18 (p := decimalExponent ((interval m e).value * (interval m e).unitNum)
      (interval m e).unitDen) (by omega) (by omega)
  obtain ⟨p, rfl⟩ := Int.eq_ofNat_of_zero_le (show 0 ≤ p' by omega)
  obtain ⟨hden, _, _, hunit⟩ := h.unit
  obtain ⟨_, hlow, hhigh⟩ := h.ends
  have hbounds := Interval.bounds_of_holds hden (Interval.holds_of_onGrid hn)
  have hlower : m * 2 ^ e.toNat ≤ n * 10 ^ p + 2048 := by
    have := Nat.mul_le_mul_right (interval m e).unitNum hlow
    rw [h.value_eq, Nat.add_mul] at this
    omega
  have hupper : n * 10 ^ p ≤ m * 2 ^ e.toNat + 2048 := by
    rw [hhigh, Nat.add_mul, h.value_eq] at hbounds
    omega
  have hn : 0 < n := by
    rcases Nat.eq_zero_or_pos n with rfl | hpos
    · have := h.size.1
      omega
    · exact hpos
  obtain ⟨d, p', htrimmed, hd, hle, heq⟩ := exists_trimmed 20 (p := p) hn
  refine ⟨d, p', ?_, hd, ?_, heq ▸ hupper, heq ▸ hlower⟩
  · rw [← htrimmed]
    exact congrArg (Decimal.trimmed 20) hsearch
  · refine Nat.dvd_mul_left_of_dvd ?_ d
    exact Nat.pow_dvd_pow 10 (show 3 ≤ p' by omega)

theorem Coarse.exists_plain : ∃ r : Nat, (finite false m e).plain = toString r ∧ 1000 ∣ r ∧
    r ≤ m * 2 ^ e.toNat + 2048 ∧ m * 2 ^ e.toNat ≤ r + 2048 := by
  obtain ⟨d, p, hshortest, hd, hthousand, hupper, hlower⟩ := h.exists_shortest .up
  have hm : m ≠ 0 := by
    have hlow := h.low
    unfold leastSignificand at hlow
    omega
  refine ⟨d * 10 ^ p, ?_, hthousand, hupper, hlower⟩
  rw [plain, Layout.write, if_neg hm]
  simp only [show plainLayout.tie = .up from rfl, hshortest]
  exact (String.empty_append).trans (positionalText_plain hd p)

end Coarse

/-- A word with a first bit is written as a multiple of a thousand close to it. -/
theorem exists_plain_ofInt {n : Nat} (hlow : 2 ^ 63 ≤ n) (hhigh : n < 2 ^ 64) :
    ∃ r : Nat, (ofInt n).plain = toString r ∧ 1000 ∣ r ∧ r < n + 4096 ∧ n < r + 4096 := by
  obtain ⟨m, e, hof, hcoarse, hbelow, habove⟩ := exists_ofInt hlow hhigh
  obtain ⟨r, htext, hthousand, hupper, hlower⟩ := hcoarse.exists_plain
  exact ⟨r, by rw [hof, htext], hthousand, by omega, by omega⟩

end Provision.Double
