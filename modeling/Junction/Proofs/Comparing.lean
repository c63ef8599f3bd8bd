import Junction.Proofs.Decimal.Integers
import Junction.Proofs.Facts.Answers

/-!
# How values are compared

What the answers of different operators have to do with each other, and with the numbers that are
compared. Both rest on one fact: the comparisons look at the order of two texts, and at nothing else
(`Facts.orders_of_known`).

* `check_coherent`: exactly one of `<`, `=` and `>` holds, an operator and its opposite have opposite
  answers, and value and text may change sides;
* `check_integers`: integers are compared in double precision. That is exact for integers of at most 53
  significant bits, and never takes a greater one for a less; but it takes some for equal that are not
  (`not_check_integers_exact`).
-/

namespace Junction

open Text Binary64 Decimal

/-- **The comparisons fit together.** Opposite operators have opposite answers, or none, both of them. On
a known field every operator has an answer, and exactly one of `<`, `=` and `>` holds; `IS NULL` and
`IS NOT NULL` have one on every field. A value is less than a text just if the text is greater than it as
a value, and equal just if that is equal. -/
theorem check_coherent (facts : Facts) (field text : String) :
    (∀ o o', (o, o') ∈ Comparison.opposites →
        facts.check ⟨field, o'.text, text⟩ = (facts.check ⟨field, o.text, text⟩).map not)
      ∧ (facts.get? field ≠ none →
        (∀ o : Comparison, facts.check ⟨field, o.text, text⟩ ≠ none)
          ∧ ∃! o, o ∈ ["<", "=", ">"] ∧ facts.check ⟨field, o, text⟩ = some true)
      ∧ (isNull text = true →
        facts.check ⟨field, "IS", text⟩ ≠ none ∧ facts.check ⟨field, "IS NOT", text⟩ ≠ none)
      ∧ ∀ (facts' : Facts) (field' a b : String), facts.get? field = some a →
        facts'.get? field' = some b →
        (facts.check ⟨field, "<", b⟩ = some true ↔ facts'.check ⟨field', ">", a⟩ = some true)
          ∧ (facts.check ⟨field, "=", b⟩ = some true ↔ facts'.check ⟨field', "=", a⟩ = some true) := by
  refine ⟨fun o o' h => Facts.check_of_opposites h facts field text, fun hknown => ⟨fun o hnone => ?_, ?_⟩,
    fun hnull => ⟨fun hnone => ?_, fun hnone => ?_⟩, fun facts' field' a b ha hb => ?_⟩
  · exact hknown (Facts.check_text_eq_none_iff.mp hnone).1
  · obtain ⟨value, hvalue⟩ := Option.ne_none_iff_exists'.mp hknown
    exact (Facts.orders_of_known hvalue text).existsUnique
  · exact (Facts.check_text_eq_none_iff (o := .is).mp hnone).2 ⟨.inl rfl, hnull⟩
  · exact (Facts.check_text_eq_none_iff (o := .isNot).mp hnone).2 ⟨.inr rfl, hnull⟩
  · have horders := Facts.orders_of_known ha b
    have horders' := Facts.orders_of_known hb a
    -- the two look at one order from its two sides
    rw [← compareValues_swap] at horders'
    rw [horders.lt, horders'.gt, horders.eq, horders'.eq]
    cases compareValues a b <;> decide

/-- One known field, and a text that is less as a number and greater as a text. -/
theorem check_coherent_number :
    (Facts.ofList [("n", "10")]).check ⟨"n", ">=", "9"⟩
        = ((Facts.ofList [("n", "10")]).check ⟨"n", "<", "9"⟩).map not
      ∧ (∃! o, o ∈ ["<", "=", ">"] ∧ (Facts.ofList [("n", "10")]).check ⟨"n", o, "9"⟩ = some true)
      ∧ (Facts.ofList [("n", "10")]).check ⟨"m", "IS NOT", "null"⟩ ≠ none
      ∧ ((Facts.ofList [("n", "10")]).check ⟨"n", "<", "9"⟩ = some true
        ↔ (Facts.ofList [("m", "9")]).check ⟨"m", ">", "10"⟩ = some true) := by
  obtain ⟨hopposite, hknown, -, hswap⟩ := check_coherent (Facts.ofList [("n", "10")]) "n" "9"
  obtain ⟨-, -, hnull, -⟩ := check_coherent (Facts.ofList [("n", "10")]) "m" "null"
  exact ⟨hopposite .lt .ge (by decide), (hknown (by decide)).2, (hnull (by decide)).2,
    (hswap (Facts.ofList [("m", "9")]) "m" "10" "9" rfl rfl).1⟩

/-- **Integers are compared in double precision.** Let the value of the field and the text be decimal
integers, of any length, and `d` and `e` what these are rounded to. If neither is too large, the
comparisons look at the order of `d` and `e`, and otherwise at that of the two texts. So where `a` and `b`
are in double precision themselves, their own order it is; and rounding does not exchange them. -/
theorem check_integers {facts : Facts} {field value text : String} {a b : Int}
    (h : facts.get? field = some value) (ha : Writes value.toList a) (hb : Writes text.toList b) :
    ∃ d e, Rounds a d ∧ Rounds b e
      ∧ facts.Orders field text (if d.natAbs < 2 ^ 1024 ∧ e.natAbs < 2 ^ 1024 then compare d e
          else compareText value.toList text.toList)
      ∧ (Holds a → Holds b → a.natAbs < 2 ^ 1024 → b.natAbs < 2 ^ 1024 →
        facts.Orders field text (compare a b))
      ∧ (a ≤ b → d ≤ e) ∧ (b ≤ a → e ≤ d) := by
  obtain ⟨d, e, hd, he, hcompare⟩ := ha.exists_compareValues hb
  have horders := Facts.orders_of_known h text
  rw [hcompare] at horders
  refine ⟨d, e, hd, he, horders, fun hholds hholds' hlt hlt' => ?_, hd.le he, he.le hd⟩
  -- then neither is changed by rounding
  obtain rfl : d = a := hd.eq_of_holds hholds
  obtain rfl : e = b := he.eq_of_holds hholds'
  rwa [if_pos ⟨hlt, hlt'⟩] at horders

/-- Behind a minus sign the greater digit is the less number. And beyond 53 bits the odd number next to a
power of two is rounded to the power, so that the two are taken for equal. -/
theorem check_integers_negative :
    (Facts.ofList [("n", "-2")]).get? "n" = some "-2" ∧ Writes "-2".toList (-2) ∧ Writes "-1".toList (-1)
      ∧ (Facts.ofList [("n", "-2")]).check ⟨"n", "<", "-1"⟩ = some true
      ∧ (Facts.ofList [("n", "-9007199254740993")]).get? "n" = some "-9007199254740993"
      ∧ Writes "-9007199254740993".toList (-9007199254740993)
      ∧ Writes "-9007199254740992".toList (-9007199254740992)
      ∧ Rounds (-9007199254740993) (-9007199254740992)
      ∧ (Facts.ofList [("n", "-9007199254740993")]).check ⟨"n", "=", "-9007199254740992"⟩
        = some true := by
  have hknown : (Facts.ofList [("n", "-2")]).get? "n" = some "-2" := rfl
  have htwo : Writes "-2".toList (-2) := .minus ['2'] (by decide) (by decide)
  have hone : Writes "-1".toList (-1) := .minus ['1'] (by decide) (by decide)
  -- small numbers are compared as they are
  have hsmall : (-2 : Int).natAbs ≤ 2 ^ 53 := by decide
  have hsmall' : (-1 : Int).natAbs ≤ 2 ^ 53 := by decide
  obtain ⟨_, _, -, -, -, hexact, -⟩ := check_integers hknown htwo hone
  have horders := hexact (holds_of_natAbs_le hsmall) (holds_of_natAbs_le hsmall')
    (natAbs_lt_of_le hsmall) (natAbs_lt_of_le hsmall')
  have hknown' : (Facts.ofList [("n", "-9007199254740993")]).get? "n"
      = some "-9007199254740993" := rfl
  have hodd : Writes "-9007199254740993".toList (-9007199254740993) :=
    .minus "9007199254740993".toList (by decide) (by decide)
  have hpower : Writes "-9007199254740992".toList (-9007199254740992) :=
    .minus "9007199254740992".toList (by decide) (by decide)
  have hlarge : (-9007199254740992 : Int).natAbs ≤ 2 ^ 53 := by decide
  -- the odd number is in the middle of two that are held, and the power has the even significand
  have hrounds : Rounds (-9007199254740993) (-9007199254740992) := by
    have hwhole : roundWhole 9007199254740993 = 9007199254740992 := by decide
    have hneg := (rounds_roundWhole 9007199254740993).neg
    rwa [hwhole] at hneg
  obtain ⟨d, e, hd, he, horders', -⟩ := check_integers hknown' hodd hpower
  obtain rfl : d = -9007199254740992 := hd.unique hrounds
  obtain rfl : e = -9007199254740992 := he.eq_of_holds (holds_of_natAbs_le hlarge)
  rw [if_pos ⟨natAbs_lt_of_le hlarge, natAbs_lt_of_le hlarge⟩] at horders'
  exact ⟨hknown, htwo, hone, horders.lt, hknown', hodd, hpower, hrounds, horders'.eq⟩

/-- **Beyond double precision** the order is not exact. The least integer that it does not have is taken for
the one below it; and `2 * 10 ^ 308`, which is too large, is less than `10 ^ 309`, but greater as a text. -/
theorem not_check_integers_exact :
    (¬ ∀ (facts : Facts) (field value text : String) (a b : Int), facts.get? field = some value →
        Writes value.toList a → Writes text.toList b → facts.Orders field text (compare a b))
      ∧ ¬ ∀ (facts : Facts) (field value text : String) (a b : Int), facts.get? field = some value →
        Writes value.toList a → Writes text.toList b → a < b →
        facts.check ⟨field, ">", text⟩ ≠ some true := by
  constructor
  · intro h
    have horders := h (Facts.ofList [("n", "9007199254740993")]) "n" "9007199254740993"
      "9007199254740992" 9007199254740993 9007199254740992 rfl
      (.digits "9007199254740993".toList (by decide) (by decide))
      (.digits "9007199254740992".toList (by decide) (by decide))
    -- the two are rounded to the same number
    have hequal : (Facts.ofList [("n", "9007199254740993")]).check ⟨"n", "=", "9007199254740992"⟩
        = some true := by decide +kernel
    rw [horders.eq] at hequal
    exact absurd hequal (by decide)
  · intro h
    have hwrites : ∀ cs, cs ≠ [] → cs.all isDigit = true →
        Writes (String.ofList cs).toList (ofDigitChars cs) := by
      intro cs hne hall
      rw [String.toList_ofList]
      exact .digits cs hne hall
    -- neither has a number in double precision, so the two are compared as texts
    have hgreater : compareValues (String.ofList ('2' :: List.replicate 308 '0'))
        (String.ofList ('1' :: List.replicate 309 '0')) = .gt := by
      rw [compareValues, String.toList_ofList, String.toList_ofList]
      decide +kernel
    have hknown : ∀ value, (Facts.ofList [("n", value)]).get? "n" = some value := fun _ => rfl
    have hless := h _ "n" _ (String.ofList ('1' :: List.replicate 309 '0')) _ _ (hknown _)
      (hwrites ('2' :: List.replicate 308 '0') nofun (by decide +kernel))
      (hwrites ('1' :: List.replicate 309 '0') nofun (by decide +kernel)) (by decide +kernel)
    rw [(Facts.orders_of_known (hknown _) _).gt, hgreater] at hless
    exact hless rfl

end Junction
