import Mathlib.Logic.ExistsUnique
import Junction.Facts.Check

/-!
# What facts answer

All that the answer to a condition depends on. A condition that **tests for `NULL`**
(`Condition.TestsNull`) asks whether its field is known, and always has an answer
(`Facts.check_of_testsNull`). Any other asks about the value of its field, and has an answer just if
there is a value and the operator is a comparison (`Facts.check_of_not_testsNull`). So a condition
without an answer is one of these two (`Facts.check_eq_none_iff`), and one more fact takes none away and
changes none but those of the tests for `NULL` (`Facts.check_insert_of_knows`).

The comparisons by order agree with each other, since they all look at the one order of the value and
the text (`Facts.Orders`).
-/

namespace Junction

open Text

/-- **The condition tests whether its field is known**: it is `IS NULL` or `IS NOT NULL`. -/
def Condition.TestsNull (c : Condition) : Prop :=
  (c.operator = Comparison.is.text ∨ c.operator = Comparison.isNot.text) ∧ isNull c.right = true

instance (c : Condition) : Decidable c.TestsNull := inferInstanceAs (Decidable (_ ∧ _))

theorem Comparison.text_of_ofText? {s : String} {o : Comparison} (h : ofText? s = some o) :
    o.text = s := by
  have hfound := List.find?_some h
  exact beq_iff_eq.mp hfound

theorem Comparison.text_inj {o o' : Comparison} : o.text = o'.text ↔ o = o' := by
  refine ⟨fun h => ?_, congrArg text⟩
  have hread := ofText?_text o
  rw [h, ofText?_text] at hread
  exact (Option.some.inj hread).symm

theorem Condition.testsNull_text_iff {field right : String} {o : Comparison} :
    TestsNull ⟨field, o.text, right⟩ ↔ (o = .is ∨ o = .isNot) ∧ isNull right = true := by
  simp only [TestsNull, Comparison.text_inj]

namespace Facts

variable {facts : Facts} {c : Condition}

/-- **An answer depends on the values of the fields only**, not on how the facts are listed. -/
theorem check_congr {facts' : Facts} (h : ∀ field, facts.get? field = facts'.get? field) :
    facts.check = facts'.check := by
  funext c
  rw [check, check, h]

/-- **A test for `NULL`** is answered by whether the field is known. -/
theorem check_of_testsNull (h : c.TestsNull) (facts : Facts) :
    facts.check c = some (if c.operator = Comparison.is.text then (facts.get? c.left).isNone
      else (facts.get? c.left).isSome) := by
  obtain ⟨his | hisNot, hnull⟩ := h
  · rw [check, his, Comparison.ofText?_text]
    simp only [hnull, if_true]
  · rw [check, hisNot, Comparison.ofText?_text]
    simp only [hnull, if_true]
    rfl

/-- **Any other condition** is answered by the value of its field. -/
theorem check_of_not_testsNull (h : ¬ c.TestsNull) (facts : Facts) :
    facts.check c = (Comparison.ofText? c.operator).bind fun o =>
      (facts.get? c.left).map fun value => o.holds value c.right := by
  rw [check]
  cases ho : Comparison.ofText? c.operator with
  | none => rfl
  | some o =>
    have htext := Comparison.text_of_ofText? ho
    -- `IS` and `IS NOT` look at the text first, which is not `NULL` here
    cases o with
    | is =>
      have hnull : ¬ isNull c.right = true := fun hnull => h ⟨.inl htext.symm, hnull⟩
      simp only [if_neg hnull, Option.bind_some]
    | isNot =>
      have hnull : ¬ isNull c.right = true := fun hnull => h ⟨.inr htext.symm, hnull⟩
      simp only [if_neg hnull, Option.bind_some]
    | _ => rfl

/-- **A condition has no answer** if its operator is no comparison, or its field is not known and not
tested for `NULL`. -/
theorem check_eq_none_iff : facts.check c = none
    ↔ Comparison.ofText? c.operator = none ∨ facts.get? c.left = none ∧ ¬ c.TestsNull := by
  by_cases h : c.TestsNull
  · -- a test for `NULL` always has an answer, and its operator is a comparison
    have hoperator : Comparison.ofText? c.operator ≠ none := by
      rcases h.1 with his | hisNot
      · rw [his, Comparison.ofText?_text]
        exact Option.some_ne_none _
      · rw [hisNot, Comparison.ofText?_text]
        exact Option.some_ne_none _
    rw [check_of_testsNull h]
    exact ⟨nofun, fun hor => hor.elim (absurd · hoperator) fun hand => absurd h hand.2⟩
  · -- otherwise there is an answer just if both the operator and the field are known
    rw [check_of_not_testsNull h]
    cases Comparison.ofText? c.operator with
    | none => exact ⟨fun _ => .inl rfl, fun _ => rfl⟩
    | some o =>
      rw [Option.bind_some, Option.map_eq_none_iff]
      exact ⟨fun hget => .inr ⟨hget, h⟩, fun hor => hor.elim nofun And.left⟩

/-- **A further fact** leaves the answers on other fields as they are. -/
theorem check_insert_of_ne {field : String} (h : c.left ≠ field) (value : String) :
    (facts.insert field value).check c = facts.check c := by
  have hget : (facts.insert field value).get? c.left = facts.get? c.left := by
    rw [get?_insert, if_neg h]
  by_cases hnull : c.TestsNull
  · rw [check_of_testsNull hnull, check_of_testsNull hnull, hget]
  · rw [check_of_not_testsNull hnull, check_of_not_testsNull hnull, hget]

/-- **A fact on a new field** leaves the answers that there are, and turns those to the tests of this field
for `NULL` around. -/
theorem check_insert_of_knows {field : String} (hfield : facts.get? field = none)
    (hknows : facts.knows c = true) (value : String) : (facts.insert field value).check c
      = if c.left = field ∧ c.TestsNull then (facts.check c).map not else facts.check c := by
  by_cases hleft : c.left = field
  · -- without a value only a test for `NULL` has an answer
    have hnull : c.TestsNull := by
      refine Decidable.not_not.mp fun hnot => ?_
      have hnone : facts.check c = none := check_eq_none_iff.mpr (.inr ⟨hleft ▸ hfield, hnot⟩)
      rw [knows, hnone] at hknows
      cases hknows
    rw [if_pos ⟨hleft, hnull⟩, check_of_testsNull hnull, check_of_testsNull hnull, get?_insert,
      if_pos hleft, hleft, hfield]
    split <;> rfl
  · rw [if_neg fun hboth => hleft hboth.1, check_insert_of_ne hleft]

/-- **Where the operator is a comparison**, the field alone decides whether there is an answer. -/
theorem check_text_eq_none_iff {field right : String} {o : Comparison} :
    facts.check ⟨field, o.text, right⟩ = none
      ↔ facts.get? field = none ∧ ¬ ((o = .is ∨ o = .isNot) ∧ isNull right = true) := by
  rw [check_eq_none_iff, Comparison.ofText?_text, Condition.testsNull_text_iff]
  exact or_iff_right nofun

/-- **The order that the comparisons look at.** Seven operators compare the value of the field with the text,
and `r` is how the two compare. -/
structure Orders (facts : Facts) (field text : String) (r : Ordering) : Prop where
  eq : facts.check ⟨field, "=", text⟩ = some (r == .eq)
  ne : facts.check ⟨field, "!=", text⟩ = some (r != .eq)
  differs : facts.check ⟨field, "<>", text⟩ = some (r != .eq)
  lt : facts.check ⟨field, "<", text⟩ = some (r == .lt)
  le : facts.check ⟨field, "<=", text⟩ = some (r != .gt)
  gt : facts.check ⟨field, ">", text⟩ = some (r == .gt)
  ge : facts.check ⟨field, ">=", text⟩ = some (r != .lt)

/-- **A known field is compared by the order of its value and the text.** -/
theorem orders_of_known {field value : String} (h : facts.get? field = some value) (text : String) :
    facts.Orders field text (compareValues value text) where
  eq := check_of_known (o := .eq) h nofun nofun text
  ne := check_of_known (o := .ne) h nofun nofun text
  differs := check_of_known (o := .differs) h nofun nofun text
  lt := check_of_known (o := .lt) h nofun nofun text
  le := check_of_known (o := .le) h nofun nofun text
  gt := check_of_known (o := .gt) h nofun nofun text
  ge := check_of_known (o := .ge) h nofun nofun text

/-- **One of `<`, `=` and `>` holds**, and no other of them. -/
theorem Orders.existsUnique {field text : String} {r : Ordering} (h : facts.Orders field text r) :
    ∃! o, o ∈ ["<", "=", ">"] ∧ facts.check ⟨field, o, text⟩ = some true := by
  -- each of the three holds for one order
  have hlt : facts.check ⟨field, "<", text⟩ = some true ↔ r = .lt := by
    rw [h.lt, Option.some_inj, beq_iff_eq]
  have heq : facts.check ⟨field, "=", text⟩ = some true ↔ r = .eq := by
    rw [h.eq, Option.some_inj, beq_iff_eq]
  have hgt : facts.check ⟨field, ">", text⟩ = some true ↔ r = .gt := by
    rw [h.gt, Option.some_inj, beq_iff_eq]
  have hholds : ∀ o, o ∈ ["<", "=", ">"] ∧ facts.check ⟨field, o, text⟩ = some true
      ↔ (o = "<" ∧ r = .lt) ∨ (o = "=" ∧ r = .eq) ∨ (o = ">" ∧ r = .gt) := by
    intro o
    rw [← hlt, ← heq, ← hgt]
    simp only [List.mem_cons, List.not_mem_nil, or_false, or_and_right]
    refine or_congr ?_ (or_congr ?_ ?_) <;> exact and_congr_right fun ho => by rw [ho]
  simp only [hholds]
  cases r with
  | lt => exact ⟨"<", by simp, by simp⟩
  | eq => exact ⟨"=", by simp, by simp⟩
  | gt => exact ⟨">", by simp, by simp⟩

end Facts

/-! ### Order and opposites -/

/-- The order of two texts, the other way around. -/
theorem Text.compareText_swap (s t : List Char) : (compareText s t).swap = compareText t s := by
  induction s generalizing t with
  | nil => cases t <;> rfl
  | cons a s ih =>
    cases t with
    | nil => rfl
    | cons b t => rw [compareText, compareText, Ordering.swap_then, Nat.compare_swap, ih]

/-- **The order of two values, the other way around.** It is the order of texts unless both are
numerals, so which of the two orders it is does not depend on the side. -/
theorem compareValues_swap (s t : String) : (compareValues s t).swap = compareValues t s := by
  unfold compareValues
  cases number? s.toList with
  | none => cases number? t.toList <;> exact compareText_swap ..
  | some a =>
    cases number? t.toList with
    | none => exact compareText_swap ..
    | some b => exact Int.compare_swap a b

/-- Two operators of which one asks for the opposite of the other. -/
def Comparison.opposites : List (Comparison × Comparison) :=
  [(eq, ne), (eq, differs), (lt, ge), (gt, le), (like, notLike), (includes, excludes), (is, isNot)]

/-- **Opposite operators** ask a value for opposite things. -/
theorem Comparison.holds_of_opposites {o o' : Comparison} (h : (o, o') ∈ opposites)
    (value text : String) : o'.holds value text = !o.holds value text := by
  simp only [opposites, List.mem_cons, Prod.mk.injEq, List.not_mem_nil, or_false] at h
  rcases h with ⟨rfl, rfl⟩ | ⟨rfl, rfl⟩ | ⟨rfl, rfl⟩ | ⟨rfl, rfl⟩ | ⟨rfl, rfl⟩ | ⟨rfl, rfl⟩ | ⟨rfl, rfl⟩
    <;> simp only [holds, bne]

/-- The tests for `NULL` are opposites of each other, and of nothing else. -/
theorem Comparison.opposites_is_iff {o o' : Comparison} (h : (o, o') ∈ opposites) :
    (o = is ∨ o = isNot ↔ o = is ∧ o' = isNot) ∧ (o' = is ∨ o' = isNot ↔ o = is ∧ o' = isNot) := by
  have hall : ∀ pair ∈ opposites, (pair.1 = is ∨ pair.1 = isNot ↔ pair.1 = is ∧ pair.2 = isNot)
      ∧ (pair.2 = is ∨ pair.2 = isNot ↔ pair.1 = is ∧ pair.2 = isNot) := by decide
  exact hall _ h

/-- **So do their answers**, and an operator has no answer just if its opposite has none. -/
theorem Facts.check_of_opposites {o o' : Comparison} (h : (o, o') ∈ Comparison.opposites)
    (facts : Facts) (field text : String) :
    facts.check ⟨field, o'.text, text⟩ = (facts.check ⟨field, o.text, text⟩).map not := by
  obtain ⟨hleft, hright⟩ := Comparison.opposites_is_iff h
  by_cases hnull : Condition.TestsNull ⟨field, o.text, text⟩
  · -- the field is known or is not
    have htests := Condition.testsNull_text_iff.mp hnull
    obtain ⟨rfl, rfl⟩ := hleft.mp htests.1
    have hnull' : Condition.TestsNull ⟨field, Comparison.isNot.text, text⟩ :=
      Condition.testsNull_text_iff.mpr ⟨.inr rfl, htests.2⟩
    have hne : Comparison.isNot.text ≠ Comparison.is.text := by decide
    rw [check_of_testsNull hnull, check_of_testsNull hnull', if_pos rfl, if_neg hne, Option.map_some,
      Option.not_isNone]
  · have hnull' : ¬ Condition.TestsNull ⟨field, o'.text, text⟩ := by
      rw [Condition.testsNull_text_iff, hright]
      rwa [Condition.testsNull_text_iff, hleft] at hnull
    rw [check_of_not_testsNull hnull, check_of_not_testsNull hnull', Comparison.ofText?_text,
      Comparison.ofText?_text, Option.bind_some, Option.bind_some, Option.map_map]
    simp only [Comparison.holds_of_opposites h]
    rfl

end Junction
