import Mathlib.Data.Nat.Digits.Defs
import Junction.Facts.Check
import Junction.Proofs.Decimal.Rounding
import Junction.Proofs.Text.Trim

/-!
# Decimal integers among the values

A text may write an integer (`Decimal.Writes`): digits, with a minus sign in front or without one, and
however many. Its number is read off exactly (`Writes.read?_eq`), and is then rounded to double precision,
where there is an integer for it unless it is too large (`Writes.exists_rounds`). So two such texts are
compared as the rounded integers if neither is too large, and as texts if one is
(`Writes.exists_compareValues`).
-/

namespace Junction

open Text Binary64

namespace Decimal

/-- The number that digits write, the last one counting once and each other ten times the next. -/
def ofDigitChars (digits : List Char) : Nat :=
  Nat.ofDigits 10 (digits.reverse.map fun c => c.toNat - '0'.toNat)

/-- **A text writes an integer**: one or more digits, with a minus sign in front of them or without. -/
inductive Writes : List Char → Int → Prop where
  | digits (ds : List Char) (ne_nil : ds ≠ []) (all : ds.all isDigit = true) :
    Writes ds (ofDigitChars ds)
  | minus (ds : List Char) (ne_nil : ds ≠ []) (all : ds.all isDigit = true) :
    Writes ('-' :: ds) (-ofDigitChars ds)

/-! ### Reading -/

section Digits

variable {c : Char} {ds : List Char}

theorem toNat_of_isDigit (h : isDigit c = true) : 48 ≤ c.toNat ∧ c.toNat ≤ 57 := by
  obtain ⟨hlow, hhigh⟩ := Bool.and_eq_true_iff.mp h
  exact ⟨of_decide_eq_true hlow, of_decide_eq_true hhigh⟩

theorem isBlank_of_isDigit (h : isDigit c = true) : isBlank c = false := by
  obtain ⟨hlow, hhigh⟩ := toNat_of_isDigit h
  simp only [isBlank, blankRanges, inRanges, Bool.and_eq_false_iff, Bool.or_eq_false_iff,
    decide_eq_false_iff_not]
  omega

/-- **Digits are read from the front**, and write the same number. -/
theorem value_eq (ds : List Char) : value ds = ofDigitChars ds := by
  rw [value, ofDigitChars, Nat.ofDigits_eq_foldr, List.foldr_map, List.foldr_reverse]
  congr
  funext n c
  rw [Nat.add_comm]
  rfl

/-- A digit is no sign. -/
theorem sign_cons_of_isDigit (h : isDigit c = true) : sign (c :: ds) = (false, c :: ds) := by
  have hdigit := toNat_of_isDigit h
  unfold sign
  -- neither of the two signs is a digit
  split
  · rename_i heq
    obtain ⟨rfl, -⟩ := List.cons.inj heq
    exact absurd hdigit (by decide)
  · rename_i heq
    obtain ⟨rfl, -⟩ := List.cons.inj heq
    exact absurd hdigit (by decide)
  · rfl

theorem sign_of_digits (hall : ds.all isDigit = true) : sign ds = (false, ds) := by
  cases ds with
  | nil => rfl
  | cons c ds => exact sign_cons_of_isDigit (List.all_eq_true.mp hall c List.mem_cons_self)

/-- **What is read behind the sign of an integer**: all digits, no fraction and no exponent. -/
theorem read?_of_sign {cs : List Char} {negative : Bool} (hsign : sign cs = (negative, ds))
    (hne : ds ≠ []) (hall : ds.all isDigit = true) :
    read? cs = some ⟨negative, ofDigitChars ds, 0⟩ := by
  have htake : ds.takeWhile isDigit = ds := List.takeWhile_eq_self_iff.mpr (List.all_eq_true.mp hall)
  have hdrop : ds.dropWhile isDigit = [] := List.dropWhile_eq_nil_iff.mpr (List.all_eq_true.mp hall)
  unfold read?
  simp only [hsign, htake, hdrop, fraction, List.append_nil, value_eq]
  rw [if_neg fun hnil => hne hnil.1]
  rfl

end Digits

variable {cs : List Char} {a : Int}

/-- **An integer is read**, its sign and its magnitude. -/
theorem Writes.read?_eq (h : Writes cs a) : ∃ negative n,
    read? cs = some ⟨negative, n, 0⟩ ∧ a = if negative then -(n : Int) else n := by
  cases h with
  | digits ds hne hall => exact ⟨false, _, read?_of_sign (sign_of_digits hall) hne hall, rfl⟩
  | minus ds hne hall => exact ⟨true, _, read?_of_sign rfl hne hall, rfl⟩

/-- There is no white space in it. -/
theorem Writes.trim_eq (h : Writes cs a) : trim cs = cs := by
  have hblank : ∀ c ∈ cs, isBlank c = false := by
    cases h with
    | digits _ _ hall => exact fun c hc => isBlank_of_isDigit (List.all_eq_true.mp hall c hc)
    | minus _ _ hall =>
      intro c hc
      rcases List.mem_cons.mp hc with rfl | hc
      · decide
      · exact isBlank_of_isDigit (List.all_eq_true.mp hall c hc)
  exact trim_eq_self hblank

/-- **An integer among the values**: rounded to double precision, if the rounded one is not too large. -/
theorem Writes.exists_rounds (h : Writes cs a) : ∃ d, Rounds a d
    ∧ number? cs = if d.natAbs < 2 ^ 1024 then some (d * 2 ^ unitExponent) else none := by
  obtain ⟨negative, n, hread, rfl⟩ := h.read?_eq
  obtain ⟨d, hrounds, hunits⟩ := exists_rounds_toUnits? negative n
  exact ⟨d, hrounds, by rw [number?, h.trim_eq, hread, Option.bind_some, hunits]⟩

/-- **Two integers among the values** are compared as rounded if neither is too large, and as texts
otherwise. -/
theorem Writes.exists_compareValues {s t : String} {b : Int} (ha : Writes s.toList a)
    (hb : Writes t.toList b) : ∃ d e, Rounds a d ∧ Rounds b e ∧ compareValues s t
      = if d.natAbs < 2 ^ 1024 ∧ e.natAbs < 2 ^ 1024 then compare d e
        else compareText s.toList t.toList := by
  obtain ⟨d, hd, hs⟩ := ha.exists_rounds
  obtain ⟨e, he, ht⟩ := hb.exists_rounds
  refine ⟨d, e, hd, he, ?_⟩
  unfold compareValues
  rw [hs, ht]
  generalize unitExponent = unit
  by_cases hdlt : d.natAbs < 2 ^ 1024
  · by_cases helt : e.natAbs < 2 ^ 1024
    · -- the unit is positive, so it makes no difference to the order
      have hpos : (0 : Int) < 2 ^ unit := by positivity
      rw [if_pos hdlt, if_pos helt, if_pos ⟨hdlt, helt⟩]
      calc compare (d * 2 ^ unit) (e * 2 ^ unit)
          = cmp (d * 2 ^ unit) (e * 2 ^ unit) := (cmp_eq_compare ..).symm
        _ = cmp d e := (strictMono_mul_right_of_pos hpos).cmp_map_eq d e
        _ = compare d e := cmp_eq_compare d e
    · rw [if_pos hdlt, if_neg helt, if_neg fun hboth => helt hboth.2]
  · have hnot : ¬ (d.natAbs < 2 ^ 1024 ∧ e.natAbs < 2 ^ 1024) := fun hboth => hdlt hboth.1
    rw [if_neg hdlt, if_neg hnot]

end Decimal

end Junction
