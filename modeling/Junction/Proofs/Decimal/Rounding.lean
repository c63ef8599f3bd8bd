import Mathlib.Algebra.Order.Ring.Int
import Mathlib.Tactic.Positivity
import Mathlib.Tactic.Ring
import Junction.Decimal.Binary64

/-!
# Whole numbers in double precision

Double precision holds the integers that have at most 53 significant bits (`Binary64.Holds`), and
every other integer is rounded to one of these. `Binary64.Rounds` says to which, and does not say how
it is found: no other one is nearer, and of two that are equally near it is the one with the even
significand, which a higher power of two divides.

What is said so fixes the rounded number (`Rounds.unique`). A number that is held is not changed
(`Rounds.eq_of_holds`), and rounding never exchanges two numbers (`Rounds.le`).

`nearest_one`: **what `nearest` computes for a whole number is the rounded number**, in units. The
argument is that the multiples of a power of two on either side of the number are neighbours, so that
nothing which is held lies between them (`Holds.le_or_le`).
-/

namespace Junction.Binary64

/-- **The integers of double precision**, however large: those with at most 53 significant bits. -/
def Holds (a : Int) : Prop := ∃ (m : Int) (e : Nat), m.natAbs < 2 ^ 53 ∧ a = m * 2 ^ e

/-- **`d` is the integer of double precision to which `a` is rounded.** -/
structure Rounds (a d : Int) : Prop where
  holds : Holds d
  nearest : ∀ d', Holds d' → (a - d).natAbs ≤ (a - d').natAbs
  /-- Of two that are equally near it has the even significand. -/
  even : ∀ d', Holds d' → d' ≠ d → (a - d').natAbs = (a - d).natAbs →
    ∃ e : Nat, (2 : Int) ^ e ∣ d ∧ ¬ (2 : Int) ^ e ∣ d'

/-! ### Laws of rounding -/

section Laws

variable {a b d d' : Int}

theorem Holds.neg (h : Holds a) : Holds (-a) := by
  obtain ⟨m, e, hm, rfl⟩ := h
  exact ⟨-m, e, by rwa [Int.natAbs_neg], by rw [Int.neg_mul]⟩

/-- Up to `2 ^ 53` every integer is held. -/
theorem holds_of_natAbs_le (h : a.natAbs ≤ 2 ^ 53) : Holds a := by
  rcases Nat.lt_or_eq_of_le h with hlt | heq
  · exact ⟨a, 0, hlt, by rw [pow_zero, mul_one]⟩
  · -- the largest has a single significant bit
    rcases Int.natAbs_eq a with ha | ha
    · exact ⟨1, 53, by decide, by rw [ha, heq]; rfl⟩
    · exact ⟨-1, 53, by decide, by rw [ha, heq]; rfl⟩

/-- None of these is too large. -/
theorem natAbs_lt_of_le (h : a.natAbs ≤ 2 ^ 53) : a.natAbs < 2 ^ 1024 := by
  refine h.trans_lt ?_
  rw [Nat.pow_lt_pow_iff_right (by decide)]
  decide

/-- Rounding does not look at the sign. -/
theorem Rounds.neg (h : Rounds a d) : Rounds (-a) (-d) where
  holds := h.holds.neg
  nearest d' hd' := by
    have hnear := h.nearest (-d') hd'.neg
    omega
  even d' hd' hne heq := by
    obtain ⟨e, hdvd, hnot⟩ := h.even (-d') hd'.neg (by omega) (by omega)
    exact ⟨e, (Int.dvd_neg).mpr hdvd, fun hd => hnot ((Int.dvd_neg).mpr hd)⟩

/-- **A number that is held stays as it is.** -/
theorem Rounds.eq_of_holds (h : Rounds a d) (ha : Holds a) : d = a := by
  have hnear := h.nearest a ha
  omega

/-- **A number is rounded to one number.** -/
theorem Rounds.unique (h : Rounds a d) (h' : Rounds a d') : d = d' := by
  by_contra hne
  have heq : (a - d').natAbs = (a - d).natAbs :=
    Nat.le_antisymm (h'.nearest d h.holds) (h.nearest d' h'.holds)
  -- each of the two would be divided by a power of two that does not divide the other
  obtain ⟨e, hdvd, hnot⟩ := h.even d' h'.holds (Ne.symm hne) heq
  obtain ⟨e', hdvd', hnot'⟩ := h'.even d h.holds hne heq.symm
  rcases Nat.le_total e e' with hle | hle
  · exact hnot ((pow_dvd_pow 2 hle).trans hdvd')
  · exact hnot' ((pow_dvd_pow 2 hle).trans hdvd)

/-- **Rounding never exchanges two numbers.** -/
theorem Rounds.le (h : Rounds a d) (h' : Rounds b d') (hab : a ≤ b) : d ≤ d' := by
  rcases Int.lt_or_eq_of_le hab with hlt | rfl
  · by_contra hnot
    -- then `a` is not below the middle of the two, and `b` not above it
    have hnear := h.nearest d' h'.holds
    have hnear' := h'.nearest d h.holds
    omega
  · exact (h.unique h').le

end Laws

/-! ### Neighbours -/

section Grid

variable {q e p : Nat} {n : Int}

/-- **Nothing that is held lies between two neighbours**: multiples of a power of two, one after the
other, with 53 significant bits if it is not the power zero. -/
theorem Holds.le_or_le (hq : e = 0 ∨ 2 ^ 52 ≤ q) {d : Int} (hd : Holds d) :
    d ≤ q * 2 ^ e ∨ (q + 1) * 2 ^ e ≤ d := by
  obtain ⟨m, e', hm, rfl⟩ := hd
  have hpos : (0 : Int) ≤ 2 ^ e := by positivity
  by_cases he : e ≤ e'
  · -- it is a multiple of the power itself
    obtain ⟨c, rfl⟩ := Nat.exists_eq_add_of_le he
    have hmul : m * 2 ^ (e + c) = m * 2 ^ c * 2 ^ e := by ring
    rw [hmul]
    rcases le_or_gt (m * 2 ^ c) (q : Int) with hle | hlt
    · exact .inl (mul_le_mul_of_nonneg_right hle hpos)
    · exact .inr (mul_le_mul_of_nonneg_right hlt hpos)
  · -- it has a bit less than what all multiples from `q` on have
    have hq' : 2 ^ 52 ≤ q := hq.resolve_left (by omega)
    have hexp : e' + 1 ≤ e := by omega
    left
    calc m * 2 ^ e'
        ≤ 2 ^ 53 * 2 ^ e' := mul_le_mul_of_nonneg_right (by omega) (by positivity)
      _ = 2 ^ 52 * 2 ^ (e' + 1) := by ring
      _ ≤ 2 ^ 52 * 2 ^ e := mul_le_mul_of_nonneg_left (pow_le_pow_right₀ (by decide) hexp) (by decide)
      _ ≤ q * 2 ^ e := mul_le_mul_of_nonneg_right (by exact_mod_cast hq') hpos

/-- A multiple of a power of two is one of the next power just if its factor is even. -/
theorem two_pow_succ_dvd_iff : (2 : Int) ^ (e + 1) ∣ p * 2 ^ e ↔ 2 ∣ p := by
  rw [pow_succ', Int.mul_dvd_mul_iff_right (by positivity)]
  exact Int.natCast_dvd_natCast

/-- **The nearer of two neighbours**, and the even one of two that are equally near, is what a number
between them is rounded to. -/
theorem rounds_of_neighbours (hq : e = 0 ∨ 2 ^ 52 ≤ q) (hq' : q < 2 ^ 53) (hlow : q * 2 ^ e ≤ n)
    (hhigh : n ≤ (q + 1) * 2 ^ e) (hp : p = q ∨ p = q + 1)
    (hnear : 2 * (n - p * 2 ^ e).natAbs ≤ 2 ^ e)
    (htie : 2 * (n - p * 2 ^ e).natAbs = 2 ^ e → 2 ∣ p) : Rounds n (p * 2 ^ e) := by
  -- the neighbours are a step apart, and the number is rounded to one of them
  have hstep : ((q : Int) + 1) * 2 ^ e = q * 2 ^ e + (2 ^ e : Nat) := by push_cast; ring
  have hsucc : ((q + 1 : Nat) : Int) * 2 ^ e = (q + 1) * 2 ^ e := by push_cast; rfl
  have hvalue : (p : Int) * 2 ^ e = q * 2 ^ e ∨ (p : Int) * 2 ^ e = (q + 1) * 2 ^ e := by
    rcases hp with rfl | rfl
    · exact .inl rfl
    · exact .inr hsucc
  refine ⟨?_, fun d' hd' => ?_, fun d' hd' hne heq => ⟨e + 1, ?_⟩⟩
  · rcases Nat.lt_or_eq_of_le (show p ≤ 2 ^ 53 by omega) with hlt | heq
    · exact ⟨p, e, by omega, rfl⟩
    · -- the significand has gone up to the next power of two
      exact ⟨1, 53 + e, by decide, by rw [heq, pow_add]; push_cast; ring⟩
  · have hgap := hd'.le_or_le hq
    omega
  · have hgap := hd'.le_or_le hq
    -- equally near is the other neighbour only, when the number is in the middle of the two
    have hmiddle : 2 * (n - p * 2 ^ e).natAbs = 2 ^ e := by omega
    have heven : 2 ∣ p := htie hmiddle
    refine ⟨two_pow_succ_dvd_iff.mpr heven, ?_⟩
    rcases hp with rfl | rfl
    · obtain rfl : d' = ((p + 1 : Nat) : Int) * 2 ^ e := by omega
      rw [two_pow_succ_dvd_iff]
      omega
    · obtain rfl : d' = (q : Int) * 2 ^ e := by omega
      rw [two_pow_succ_dvd_iff]
      omega

end Grid

/-! ### What is computed -/

/-- **A quotient is rounded to an integer** on one side of it, not more than half of one away, and to an
even one if it is half of one away. -/
theorem roundHalfEven_spec (n : Nat) {den : Nat} (hden : 0 < den) :
    (roundHalfEven n den = n / den ∨ roundHalfEven n den = n / den + 1)
      ∧ 2 * ((n : Int) - roundHalfEven n den * den).natAbs ≤ den
      ∧ (2 * ((n : Int) - roundHalfEven n den * den).natAbs = den → 2 ∣ roundHalfEven n den) := by
  have hsplit : ((n / den : Nat) : Int) * den + (n % den : Nat) = n := by
    exact_mod_cast Nat.div_add_mod' n den
  have hnext : ((n / den + 1 : Nat) : Int) * den = (n / den : Nat) * den + den := by push_cast; ring
  have hmod : n % den < den := Nat.mod_lt n hden
  unfold roundHalfEven
  simp only
  split
  · -- the lower integer is nearer
    refine ⟨.inl rfl, ?_, fun heq => ?_⟩ <;> omega
  · split
    · refine ⟨.inr rfl, ?_, fun heq => ?_⟩ <;> omega
    · -- both are equally near, and one of them is even
      rcases Nat.mod_two_eq_zero_or_one (n / den) with heven | hodd
      · rw [heven, Nat.add_zero]
        refine ⟨.inl rfl, ?_, fun _ => ?_⟩ <;> omega
      · rw [hodd]
        refine ⟨.inr rfl, ?_, fun _ => ?_⟩ <;> omega

/-- A common factor makes no difference. -/
theorem roundHalfEven_mul_right (n den : Nat) {c : Nat} (hc : 0 < c) :
    roundHalfEven (n * c) (den * c) = roundHalfEven n den := by
  have hlt : ∀ x y : Nat, x * c < y * c ↔ x < y := fun x y => Nat.mul_lt_mul_right hc
  unfold roundHalfEven
  simp only [Nat.mul_div_mul_right n den hc, Nat.mul_mod_mul_right, ← Nat.mul_assoc, hlt]

/-- A quotient that is whole is not rounded. -/
theorem roundHalfEven_mul_self (n : Nat) {den : Nat} (hden : 0 < den) :
    roundHalfEven (n * den) den = n := by
  unfold roundHalfEven
  simp only [Nat.mul_mod_left, Nat.mul_zero, if_pos hden, Nat.mul_div_cancel n hden]

/-- How many bits of `n` are below the 53 that are kept. -/
def excess (n : Nat) : Nat := n.log2 - 52

/-- **A whole number, rounded**: its highest 53 bits, a half going to the even side. -/
def roundWhole (n : Nat) : Nat := roundHalfEven n (2 ^ excess n) * 2 ^ excess n

/-- The bits that are kept are 53, unless the number has fewer and no bit is dropped. -/
theorem div_two_pow_excess (n : Nat) :
    n / 2 ^ excess n < 2 ^ 53 ∧ (excess n = 0 ∨ 2 ^ 52 ≤ n / 2 ^ excess n) := by
  have hpos : 0 < 2 ^ excess n := by positivity
  constructor
  · -- all that is above the bits dropped is 53 bits at most
    rw [Nat.div_lt_iff_lt_mul hpos, ← pow_add]
    calc n < 2 ^ (n.log2 + 1) := Nat.lt_log2_self
      _ ≤ 2 ^ (53 + excess n) := Nat.pow_le_pow_right (by decide) (by unfold excess; omega)
  · by_cases hlog : n.log2 ≤ 52
    · exact .inl (Nat.sub_eq_zero_of_le hlog)
    · -- if bits are dropped, the highest of the 53 is not zero
      have hn : n ≠ 0 := by
        rintro rfl
        exact hlog (by decide)
      right
      rw [Nat.le_div_iff_mul_le hpos, ← pow_add]
      calc 2 ^ (52 + excess n) = 2 ^ n.log2 := by congr 1; unfold excess; omega
        _ ≤ n := Nat.log2_self_le hn

/-- **That is what it is rounded to.** -/
theorem rounds_roundWhole (n : Nat) : Rounds n (roundWhole n) := by
  have hpos : 0 < 2 ^ excess n := by positivity
  obtain ⟨hbits, hfull⟩ := div_two_pow_excess n
  obtain ⟨hside, hnear, htie⟩ := roundHalfEven_spec n hpos
  -- the number stands between two neighbours
  have hlow : n / 2 ^ excess n * 2 ^ excess n ≤ n := Nat.div_mul_le_self n _
  have hhigh : n < (n / 2 ^ excess n + 1) * 2 ^ excess n :=
    (Nat.div_lt_iff_lt_mul hpos).mp (Nat.lt_succ_self _)
  push_cast at hnear htie
  rw [roundWhole, Nat.cast_mul, Nat.cast_pow]
  exact rounds_of_neighbours hfull hbits (by exact_mod_cast hlow) (by exact_mod_cast hhigh.le) hside
    hnear htie

/-- A number times a power of two has as many bits more. -/
theorem log2_mul_two_pow {n : Nat} (hn : n ≠ 0) (e : Nat) : (n * 2 ^ e).log2 = n.log2 + e := by
  rw [Nat.log2_eq_iff (Nat.mul_ne_zero hn (by positivity))]
  constructor
  · rw [pow_add]
    exact Nat.mul_le_mul_right _ (Nat.log2_self_le hn)
  · rw [Nat.add_right_comm, pow_add]
    exact Nat.mul_lt_mul_of_pos_right Nat.lt_log2_self (by positivity)

/-- **Rounding in units.** The double nearest to a whole number is the rounded number. -/
theorem nearest_one (n : Nat) : nearest n 1 = roundWhole n * 2 ^ unitExponent := by
  have hpos : ∀ e, 0 < 2 ^ e := fun e => Nat.two_pow_pos e
  have hunit : 52 ≤ unitExponent := by decide
  unfold nearest
  -- of the unit all that matters is that it has more bits than a significand
  generalize unitExponent = unit at hunit ⊢
  simp only [Nat.pow_eq, Nat.div_one, Nat.one_mul]
  by_cases hn : n = 0
  · subst hn
    simp [roundWhole, roundHalfEven]
  rw [log2_mul_two_pow hn]
  by_cases hbits : 52 ≤ n.log2
  · -- the bits below the unit are dropped on top of the others
    have hdropped : n.log2 + unit - 52 = excess n + unit := by
      unfold excess
      omega
    rw [hdropped, pow_add, roundHalfEven_mul_right n _ (hpos _), ← Nat.mul_assoc, roundWhole]
  · -- nothing is dropped but zeros below the unit
    have hsplit : n * 2 ^ unit = n * 2 ^ (52 - n.log2) * 2 ^ (n.log2 + unit - 52) := by
      rw [Nat.mul_assoc, ← pow_add]
      congr 2
      omega
    have hwhole : roundWhole n = n := by
      have hexcess : excess n = 0 := Nat.sub_eq_zero_of_le (by omega)
      have hself := roundHalfEven_mul_self n Nat.one_pos
      rw [Nat.mul_one] at hself
      rw [roundWhole, hexcess, pow_zero, Nat.mul_one, hself]
    rw [hwhole, hsplit, roundHalfEven_mul_self _ (hpos _)]

end Junction.Binary64

namespace Junction.Decimal

open Binary64

/-- The magnitude of a whole number is the rounded number, unless this is too large. -/
theorem magnitude?_whole (negative : Bool) (n : Nat) : magnitude? ⟨negative, n, 0⟩
    = if roundWhole n < 2 ^ 1024 then some (roundWhole n * 2 ^ unitExponent) else none := by
  have hexponent : (min (0 : Int) 400).toNat = 0 := rfl
  -- zero is told apart, though it would be rounded to zero as well
  have hunits : (if n = 0 then 0 else nearest n 1) = roundWhole n * 2 ^ unitExponent := by
    split
    · rename_i hn
      rw [hn, roundWhole, excess, roundHalfEven]
      simp
    · exact nearest_one n
  -- the limit is counted in units too
  have hlimit : ∀ r unit : Nat, r * 2 ^ unit < 2 ^ (1024 + unit) ↔ r < 2 ^ 1024 := by
    intro r unit
    rw [pow_add]
    exact Nat.mul_lt_mul_right (Nat.two_pow_pos unit)
  unfold magnitude?
  simp only [le_refl, if_true, hexponent, Nat.pow_eq, pow_zero, Nat.mul_one]
  rw [hunits, limitExponent]
  simp only [hlimit]

/-- **A whole number in double precision**: rounded, unless the rounded number is too large. -/
theorem exists_rounds_toUnits? (negative : Bool) (n : Nat) :
    ∃ d, Rounds (if negative then -(n : Int) else n) d
      ∧ toUnits? ⟨negative, n, 0⟩
        = if d.natAbs < 2 ^ 1024 then some (d * 2 ^ unitExponent) else none := by
  have hrounds := rounds_roundWhole n
  have hcast : ∀ r unit : Nat, ((r * 2 ^ unit : Nat) : Int) = r * 2 ^ unit := by
    intro r unit
    rw [Nat.cast_mul, Nat.cast_pow, Nat.cast_ofNat]
  unfold toUnits?
  rw [magnitude?_whole]
  -- neither how it is rounded matters any more nor how large the unit is
  generalize roundWhole n = r at hrounds ⊢
  generalize unitExponent = unit
  -- the sign is put on afterwards, and rounding does not look at it
  by_cases hfinite : r < 2 ^ 1024
  · rw [if_pos hfinite]
    cases negative with
    | false =>
      refine ⟨r, hrounds, ?_⟩
      rw [Int.natAbs_natCast, if_pos hfinite, ← hcast]
      rfl
    | true =>
      refine ⟨-r, hrounds.neg, ?_⟩
      rw [Int.natAbs_neg, Int.natAbs_natCast, if_pos hfinite, Int.neg_mul, ← hcast]
      exact congrArg some (if_pos rfl)
  · rw [if_neg hfinite]
    cases negative with
    | false =>
      refine ⟨r, hrounds, ?_⟩
      rw [Int.natAbs_natCast, if_neg hfinite]
      rfl
    | true =>
      refine ⟨-r, hrounds.neg, ?_⟩
      rw [Int.natAbs_neg, Int.natAbs_natCast, if_neg hfinite]
      rfl

end Junction.Decimal
