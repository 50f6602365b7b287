import ChartScript.Number.Shortest
import Mathlib.Data.Nat.Prime.Basic

/-!
# Rounding exact values

The nearest value to a ratio depends on the ratio alone, and a value of a format is the nearest one
to itself. The exact decimal expansion of a value, and whatever the search for a shorter decimal
finds, therefore round back to it.
-/

namespace ChartScript

/-- Rounding half to even does not depend on how a ratio is written. -/
theorem roundHalfEven_mul_mul (num den : Nat) {k : Nat} (hk : 0 < k) :
    roundHalfEven (num * k) (den * k) = roundHalfEven num den := by
  have hrest : 2 * (num * k % (den * k)) = 2 * (num % den) * k := by
    rw [Nat.mul_mod_mul_right, Nat.mul_assoc]
  have hlt : den * k < 2 * (num % den) * k ↔ den < 2 * (num % den) := Nat.mul_lt_mul_right hk
  have heq : 2 * (num % den) * k = den * k ↔ 2 * (num % den) = den :=
    Nat.mul_left_inj (Nat.pos_iff_ne_zero.mp hk)
  unfold roundHalfEven
  simp only [Nat.mul_div_mul_right num den hk, hrest, hlt, Bool.beq_eq_decide_eq, heq]

namespace BinaryFormat

variable (f : BinaryFormat)

/-- Expanding a ratio does not change the nearest value. -/
theorem nearest_mul_mul (num den : Nat) {k : Nat} (hk : 0 < k) :
    f.nearest (num * k) (den * k) = f.nearest num den := by
  have hnum : num * k * Nat.pow 2 f.finest = num * Nat.pow 2 f.finest * k := Nat.mul_right_comm ..
  unfold nearest
  simp only [hnum, Nat.mul_div_mul_right _ _ hk]
  rw [Nat.mul_right_comm den k, roundHalfEven_mul_mul _ _ hk]

/-- Equal ratios have one nearest value. -/
theorem nearest_congr {num den num' den' : Nat} (hden : 0 < den) (hden' : 0 < den')
    (h : num * den' = num' * den) : f.nearest num den = f.nearest num' den' := by
  calc f.nearest num den = f.nearest (num * den') (den * den') :=
        (f.nearest_mul_mul num den hden').symm
    _ = f.nearest (num' * den) (den' * den) := by rw [h, Nat.mul_comm den den']
    _ = f.nearest num' den' := f.nearest_mul_mul num' den' hden

/-- The rank of the nearest value to a ratio is bounded by the bits of the ratio in finest units. -/
theorem nearest_le {num den bits : Nat} (hprecision : 0 < f.precision)
    (hbits : f.precision ≤ bits) (h : num * 2 ^ f.finest / den < 2 ^ bits) :
    f.nearest num den ≤ (bits - f.precision + 2) * 2 ^ (f.precision - 1) := by
  unfold nearest
  simp only [Nat.pow_eq]
  generalize hscaled : num * 2 ^ f.finest / den = scaled at h
  have hshift : scaled.log2 - (f.precision - 1) ≤ bits - f.precision := by
    by_cases hzero : scaled = 0
    · simp [hzero]
    · have := (Nat.log2_lt hzero).mpr h
      omega
  have htop : scaled < 2 ^ (f.precision - 1 + 1 + (scaled.log2 - (f.precision - 1))) :=
    Nat.lt_of_lt_of_le Nat.lt_log2_self (Nat.pow_le_pow_right (by decide) (by omega))
  generalize scaled.log2 - (f.precision - 1) = shift at hshift htop
  have hquotient : num * 2 ^ f.finest / (den * 2 ^ shift) < 2 * 2 ^ (f.precision - 1) := by
    rw [← Nat.div_div_eq_div_mul, hscaled, Nat.div_lt_iff_lt_mul (Nat.pow_pos (by decide)),
      Nat.mul_comm 2, ← Nat.pow_succ, ← Nat.pow_add]
    exact htop
  have hround := (le_roundHalfEven (num * 2 ^ f.finest) (den * 2 ^ shift)).2
  calc shift * 2 ^ (f.precision - 1) + roundHalfEven (num * 2 ^ f.finest) (den * 2 ^ shift)
      ≤ (bits - f.precision) * 2 ^ (f.precision - 1) + 2 * 2 ^ (f.precision - 1) :=
        Nat.add_le_add (Nat.mul_le_mul_right _ hshift) (by omega)
    _ = (bits - f.precision + 2) * 2 ^ (f.precision - 1) := (Nat.add_mul ..).symm

/-- The nearest value to zero is zero. -/
theorem nearest_zero {den : Nat} (hden : 0 < den) : f.nearest 0 den = 0 := by
  have hround : roundHalfEven 0 den = 0 := by
    simpa using roundHalfEven_mul 0 den hden
  simp [nearest, hround]

/-- Values below the precision are their own number of units, others a significand shifted. -/
theorem units_eq (rank : Nat) : f.units rank = if rank < 2 ^ (f.precision - 1) then rank
    else (2 ^ (f.precision - 1) + rank % 2 ^ (f.precision - 1)) *
      2 ^ (rank / 2 ^ (f.precision - 1) - 1) := rfl

/-- The position of the leading bit of a value whose significand has all its bits. -/
theorem log2_units {rank : Nat} (h : 2 ^ (f.precision - 1) ≤ rank) :
    (f.units rank).log2 = f.precision - 1 + (rank / 2 ^ (f.precision - 1) - 1) := by
  have hhalf : 0 < 2 ^ (f.precision - 1) := Nat.pow_pos (by decide)
  have hrest : rank % 2 ^ (f.precision - 1) < 2 ^ (f.precision - 1) := Nat.mod_lt _ hhalf
  rw [units_eq, if_neg (Nat.not_lt.mpr h)]
  generalize rank % 2 ^ (f.precision - 1) = rest at hrest
  generalize rank / 2 ^ (f.precision - 1) - 1 = shift
  have hshift : 0 < 2 ^ shift := Nat.pow_pos (by decide)
  refine (Nat.log2_eq_iff (Nat.mul_ne_zero (by omega) (by omega))).mpr ⟨?_, ?_⟩
  · rw [Nat.pow_add]
    exact Nat.mul_le_mul_right _ (Nat.le_add_right _ _)
  · rw [Nat.add_right_comm, Nat.pow_add]
    refine Nat.mul_lt_mul_of_pos_right ?_ hshift
    rw [Nat.pow_succ]
    omega

/-- The nearest value to a value is that value. -/
theorem nearest_units (rank : Nat) : f.nearest (f.units rank) (2 ^ f.finest) = rank := by
  have hwhole : 0 < 2 ^ f.finest := Nat.pow_pos (by decide)
  have hhalf : 0 < 2 ^ (f.precision - 1) := Nat.pow_pos (by decide)
  unfold nearest
  simp only [Nat.pow_eq, Nat.mul_div_cancel _ hwhole]
  by_cases hsmall : rank < 2 ^ (f.precision - 1)
  · have hshift : rank.log2 - (f.precision - 1) = 0 := by
      by_cases hzero : rank = 0
      · rw [hzero, Nat.log2_zero, Nat.zero_sub]
      · have := (Nat.log2_lt hzero).mpr hsmall
        omega
    rw [units_eq, if_pos hsmall, hshift, Nat.zero_mul, Nat.zero_add, Nat.pow_zero, Nat.mul_one,
      roundHalfEven_mul _ _ hwhole]
  · have hle := Nat.not_lt.mp hsmall
    have hquotient : 1 ≤ rank / 2 ^ (f.precision - 1) := (Nat.one_le_div_iff hhalf).mpr hle
    rw [f.log2_units hle, Nat.add_sub_cancel_left, units_eq, if_neg hsmall]
    generalize hshift : rank / 2 ^ (f.precision - 1) - 1 = shift
    have hden : 0 < 2 ^ f.finest * 2 ^ shift := Nat.mul_pos hwhole (Nat.pow_pos (by decide))
    rw [Nat.mul_assoc, Nat.mul_comm (2 ^ shift), roundHalfEven_mul _ _ hden, ← Nat.add_assoc,
      ← Nat.succ_mul, ← hshift, Nat.succ_eq_add_one, Nat.sub_add_cancel hquotient, Nat.mul_comm,
      Nat.div_add_mod]

/-- The exact expansion of a value is the value. -/
theorem expansion_mul (rank : Nat) :
    (f.expansion rank).1 * 2 ^ f.finest = f.units rank * 10 ^ (f.expansion rank).2 := by
  have hwhole : 0 < 2 ^ f.finest := Nat.pow_pos (by decide)
  unfold expansion
  simp only [Nat.pow_eq]
  have hunits : Nat.gcd (f.units rank) (2 ^ f.finest) ∣ f.units rank := Nat.gcd_dvd_left ..
  -- What is common to the units and a power of two is a power of two itself.
  obtain ⟨k, hk, hcommon⟩ := (Nat.dvd_prime_pow Nat.prime_two).mp
    (Nat.gcd_dvd_right (f.units rank) (2 ^ f.finest))
  rw [hcommon] at hunits ⊢
  have hplaces : 2 ^ f.finest / 2 ^ k = 2 ^ (f.finest - k) :=
    Nat.pow_div hk (by decide)
  have hsplit : 2 ^ f.finest = 2 ^ (f.finest - k) * 2 ^ k := by
    rw [← Nat.pow_add, Nat.sub_add_cancel hk]
  have hten : 10 ^ (f.finest - k) = 5 ^ (f.finest - k) * 2 ^ (f.finest - k) := by
    rw [← Nat.mul_pow]
  rw [hplaces, Nat.log2_two_pow, hsplit, hten]
  calc f.units rank / 2 ^ k * 5 ^ (f.finest - k) * (2 ^ (f.finest - k) * 2 ^ k)
      = f.units rank / 2 ^ k * 2 ^ k * (5 ^ (f.finest - k) * 2 ^ (f.finest - k)) := by ac_rfl
    _ = f.units rank * (5 ^ (f.finest - k) * 2 ^ (f.finest - k)) := by
        rw [Nat.div_mul_cancel hunits]

/-- The exact expansion of a value rounds back to it. -/
theorem nearest_expansion (rank : Nat) :
    f.nearest (f.expansion rank).1 (10 ^ (f.expansion rank).2) = rank := by
  rw [f.nearest_congr (Nat.pow_pos (by decide)) (Nat.pow_pos (by decide)) (f.expansion_mul rank)]
  exact f.nearest_units rank

/-- A decimal of a search is a multiple of a power of ten that divides the expansion's denominator,
and rounds back. -/
theorem exists_of_search (tie : Tie) (rank exact places drop : Nat)
    (hexact : f.nearest exact (10 ^ places) = rank) :
    ∃ kept : Nat, (f.search tie rank exact places drop).exponent = kept - (places : Int) ∧
      f.nearest ((f.search tie rank exact places drop).digits * 10 ^ kept) (10 ^ places) =
        rank := by
  induction drop with
  | zero => exact ⟨0, by simp [search], by simpa [search] using hexact⟩
  | succ drop ih =>
    rw [search]
    split
    · rename_i candidate hfound
      have hback := readsBack_of_neighbour? hfound
      exact ⟨drop + 1, rfl, by simpa [readsBack] using hback⟩
    · exact ih

/-- The shortest decimal of a value rounds back to it. -/
theorem exists_of_shortest (tie : Tie) (rank : Nat) :
    ∃ kept places : Nat, (f.shortest tie rank).exponent = kept - (places : Int) ∧
      f.nearest ((f.shortest tie rank).digits * 10 ^ kept) (10 ^ places) = rank := by
  obtain ⟨kept, hkept⟩ := f.exists_of_search tie rank _ _
    ((Nat.toDigits 10 (f.expansion rank).1).length - 1) (f.nearest_expansion rank)
  exact ⟨kept, _, hkept⟩

end BinaryFormat

end ChartScript
