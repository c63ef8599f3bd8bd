import Junction.Json.Printer
import Junction.Json.Reader
import Junction.Proofs.Decimal.Integers

/-!
# Numerals and strings are read back

A number and a string that are written in JSON read back as they were: a numeral on its own
(`Decimal.read?_numeral`), where each digit of a number is a character of its text, and a string at the
front of a text, with whatever follows it (`Json.readText_append`). A string is read character by character,
and each is read back whether it is escaped or stands for itself (`Json.units?_escapeChar`).
-/

namespace Junction

/-! ### Numerals -/

namespace Decimal

theorem isDigit_of_mem_toDigits {n : Nat} : ∀ c ∈ Nat.toDigits 10 n, isDigit c = true :=
  fun _ hc => Nat.isDigit_of_mem_toDigits (by decide) (by decide) hc

theorem value_toDigits (n : Nat) : value (Nat.toDigits 10 n) = n := Nat.ofDigitChars_ten_toDigits

/-- The text of an integer: its digits, behind a minus sign if it is negative. -/
theorem toList_toString_int (e : Int) : (toString e).toList
    = if e < 0 then '-' :: Nat.toDigits 10 e.natAbs else Nat.toDigits 10 e.natAbs := by
  cases e with
  | ofNat n =>
    have hneg : ¬ Int.ofNat n < 0 := Int.not_lt.mpr (Int.natCast_nonneg n)
    rw [if_neg hneg]
    exact Nat.toList_repr
  | negSucc n =>
    rw [if_pos (Int.negSucc_lt_zero n)]
    exact String.toList_append.trans (congrArg _ Nat.toList_repr)

theorem exponent?_toString (e : Int) : exponent? ('e' :: (toString e).toList) = some e := by
  have hall : (Nat.toDigits 10 e.natAbs).all isDigit = true :=
    List.all_eq_true.mpr isDigit_of_mem_toDigits
  have hdigits : Nat.toDigits 10 e.natAbs ≠ [] ∧ (Nat.toDigits 10 e.natAbs).all isDigit = true :=
    ⟨Nat.toDigits_ne_nil, hall⟩
  rw [exponent?, if_pos (.inl rfl), toList_toString_int]
  -- only a negative exponent is printed with a sign
  by_cases he : e < 0
  · have hsign : sign ('-' :: Nat.toDigits 10 e.natAbs) = (true, Nat.toDigits 10 e.natAbs) := rfl
    rw [if_pos he, hsign]
    simp only [if_pos hdigits, value_toDigits, if_true, Option.some_inj]
    omega
  · rw [if_neg he, sign_of_digits hall]
    simp only [if_pos hdigits, value_toDigits, Bool.false_eq_true, if_false, Option.some_inj]
    omega

/-- **A numeral is read back.** -/
theorem read?_numeral (d : Decimal) : read? (Json.numeral d) = some d := by
  obtain ⟨negative, n, e⟩ := d
  -- what stands behind the digits begins with no digit and no point
  obtain ⟨tail, htail⟩ : ∃ tail, (if e = 0 then [] else 'e' :: (toString e).toList) = tail := ⟨_, rfl⟩
  have hexponent : tail.takeWhile isDigit = [] ∧ tail.dropWhile isDigit = tail ∧ fraction tail = ([], tail)
      ∧ exponent? tail = some e := by
    rw [← htail]
    split
    · next he => exact ⟨rfl, rfl, rfl, congrArg some he.symm⟩
    · exact ⟨rfl, rfl, rfl, exponent?_toString e⟩
  obtain ⟨htake, hdrop, hfraction, hread⟩ := hexponent
  have hsign : sign (Json.numeral ⟨negative, n, e⟩) = (negative, Nat.toDigits 10 n ++ tail) := by
    have hcoefficient : (toString n).toList = Nat.toDigits 10 n := Nat.toList_repr
    rw [Json.numeral, hcoefficient, htail]
    -- without a minus sign the first digit is not taken for a sign
    cases negative with
    | true => rfl
    | false =>
      obtain ⟨c, cs, hcs⟩ := List.exists_cons_of_ne_nil (Nat.toDigits_ne_nil (n := n) (b := 10))
      have hc : isDigit c = true := isDigit_of_mem_toDigits (n := n) c (hcs ▸ List.mem_cons_self)
      rw [hcs]
      exact sign_cons_of_isDigit hc
  unfold read?
  simp only [hsign, List.takeWhile_append_of_pos isDigit_of_mem_toDigits,
    List.dropWhile_append_of_pos isDigit_of_mem_toDigits, htake, hdrop, hfraction, List.append_nil, hread]
  rw [if_neg fun hnil => Nat.toDigits_ne_nil hnil.1, value_toDigits]
  simp only [List.length_nil, Int.natCast_zero, Int.sub_zero, Option.map_some]

end Decimal

namespace Json

/-- Every character of a numeral is one of a number. -/
theorem isNumeric_of_mem_numeral (d : Decimal) : ∀ c ∈ numeral d, isNumeric c = true := by
  have hdigits : ∀ n, ∀ c ∈ Nat.toDigits 10 n, isNumeric c = true := fun n c hc =>
    Bool.or_eq_true_iff.mpr (.inl (Decimal.isDigit_of_mem_toDigits c hc))
  have hcoefficient : (toString d.coefficient).toList = Nat.toDigits 10 d.coefficient := Nat.toList_repr
  rw [numeral, hcoefficient, Decimal.toList_toString_int, List.forall_mem_append, List.forall_mem_append]
  -- the sign, the digits, the exponent
  refine ⟨⟨?_, hdigits _⟩, ?_⟩
  · split
    · exact List.forall_mem_singleton.mpr rfl
    · exact List.forall_mem_nil _
  · split
    · exact List.forall_mem_nil _
    · refine List.forall_mem_cons.mpr ⟨rfl, ?_⟩
      split
      · exact List.forall_mem_cons.mpr ⟨rfl, hdigits _⟩
      · exact hdigits _

/-- A numeral has a first character, which is one of a number. -/
theorem exists_numeral_eq_cons (d : Decimal) :
    ∃ c cs, numeral d = c :: cs ∧ isNumeric c = true := by
  have hne : numeral d ≠ [] := by
    have hcoefficient : (toString d.coefficient).toList = Nat.toDigits 10 d.coefficient := Nat.toList_repr
    rw [numeral, hcoefficient]
    simp [Nat.toDigits_ne_nil]
  obtain ⟨c, cs, hcs⟩ := List.exists_cons_of_ne_nil hne
  exact ⟨c, cs, hcs, isNumeric_of_mem_numeral d c (hcs ▸ List.mem_cons_self)⟩

/-! ### Strings -/

section Units

variable {c : Char} {cs : List Char}

theorem units?_cons_of_plain (hquote : c ≠ '"') (hslash : c ≠ '\\') :
    units? (c :: cs) = (units? cs).map fun (units, rest) => (c.toNat :: units, rest) := by
  rw [units?.eq_5 c cs hquote (fun _ _ _ _ _ h => absurd h hslash) fun _ _ h => absurd h hslash,
    if_neg hslash]
  cases units? cs <;> rfl

theorem units?_cons_of_escaped {e : Char} (h : escaped? e = some c) :
    units? ('\\' :: e :: cs) = (units? cs).map fun (units, rest) => (c.toNat :: units, rest) := by
  have hu : e ≠ 'u' := by
    rintro rfl
    cases h
  rw [units?.eq_4 e cs fun _ _ _ _ _ he => absurd he hu, h]
  cases units? cs <;> rfl

theorem units?_cons_of_hex {w x y z : Char} {n : Nat} (h : hexUnit? w x y z = some n) :
    units? ('\\' :: 'u' :: w :: x :: y :: z :: cs)
      = (units? cs).map fun (units, rest) => (n :: units, rest) := by
  rw [units?, h]
  cases units? cs <;> rfl

theorem hexUnit?_hexDigit {n : Nat} (h : n < 0x20) :
    hexUnit? '0' '0' (hexDigit (n / 16)) (hexDigit (n % 16)) = some n := by
  have hall : ∀ n < 0x20, hexUnit? '0' '0' (hexDigit (n / 16)) (hexDigit (n % 16)) = some n := by decide
  exact hall n h

/-- **A character is read back**, whether it is escaped or stands for itself. -/
theorem units?_escapeChar (c : Char) (cs : List Char) :
    units? (escapeChar c ++ cs) = (units? cs).map fun (units, rest) => (c.toNat :: units, rest) := by
  have hescaped : ∀ {e d : Char}, escaped? e = some d → c.toNat = d.toNat →
      units? (['\\', e] ++ cs) = (units? cs).map fun (units, rest) => (c.toNat :: units, rest) := by
    intro e d he hd
    rw [hd]
    exact units?_cons_of_escaped he
  -- escapes of one letter, then escapes by number, then a character as it is
  unfold escapeChar
  split
  · next h => exact hescaped rfl (congrArg Char.toNat h)
  split
  · next h => exact hescaped rfl (congrArg Char.toNat h)
  split
  · next h => exact hescaped (d := '\x08') rfl h
  split
  · next h => exact hescaped (d := '\t') rfl h
  split
  · next h => exact hescaped (d := '\n') rfl h
  split
  · next h => exact hescaped (d := '\x0c') rfl h
  split
  · next h => exact hescaped (d := '\r') rfl h
  split
  · next h => exact units?_cons_of_hex (hexUnit?_hexDigit h)
  · next hquote hslash _ _ _ _ _ _ => exact units?_cons_of_plain hquote hslash

end Units

theorem units?_append (s rest : List Char) :
    units? (s.flatMap escapeChar ++ '"' :: rest) = some (s.map Char.toNat, rest) := by
  induction s with
  | nil => rfl
  | cons c s ih =>
    rw [List.flatMap_cons, List.append_assoc, units?_escapeChar, ih]
    rfl

/-- No character is half of a surrogate pair, so that each code unit is a character. -/
theorem ofUnits?_map_toNat (s : List Char) : ofUnits? (s.map Char.toNat) = some s := by
  have hvalid : ∀ c : Char, c.toNat.isValidChar := Char.valid
  induction s with
  | nil => rfl
  | cons c s ih =>
    cases s with
    | nil => exact dif_pos (hvalid c)
    | cons d s => exact (dif_pos (hvalid c)).trans (congrArg (Option.map (c :: ·)) ih)

/-- **A string is read back.** -/
theorem readText_append (s : String) (rest : List Char) :
    readText (s.toList.flatMap escapeChar ++ '"' :: rest) = some (s, rest) := by
  rw [readText, units?_append]
  simp only [ofUnits?_map_toNat, Option.bind_eq_bind, Option.bind_some, String.ofList_toList]
  rfl

end Json

end Junction
