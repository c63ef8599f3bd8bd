import Junction.Proofs.Reachable
import Junction.Proofs.Reading.Rendered

/-!
# Round trips

A tree that was read is written as an expression again, and the expression is read with the standard
keywords.

* `parseTree_render_derived`: **a tree of operands is read back**, also after leaves have been dropped
  and after one of its groups has been taken as the tree.
* `parseTree_render_leaves_iff`: **a tree of operands that was read with other keywords is read back**
  just if each operand is read alone as itself. It may hold an `AND` that was no keyword there.
* `parseTree_render_parsed_iff`: **a tree of conditions is read back** just if none of them swallows its
  `NOT`. The keywords with which the tree was read are of no account.
* `parseTree_render_comparisons_iff`: **so is every well-formed tree of comparisons**, with any texts
  for fields and values.
-/

namespace Junction

open Text

/-- **Operands round trip.** Every tree that derives from expressions of operands is the tree of its
own text. -/
theorem parseTree_render_derived {t : Tree String}
    (h : t.DerivesFrom fun t => ∃ input, parseTree .operands .standard input = .ok t) :
    parseTree .operands .standard (Form.operands.render t) = .ok t := by
  have hboth := h.wellFormed_and
    (P := fun a => Operand.Standing Keywords.standard.lexicon a.toList) fun t ht => by
      obtain ⟨input, hinput⟩ := ht
      exact ⟨wellFormed_of_parseTree hinput, standing_of_mem_leaves hinput⟩
  exact parseTree_render_operands hboth.1 hboth.2

/-- Keeps each leaf but the first it is asked about. -/
def dropFirst (_ : String) : StateM Nat Bool := do
  modify (· + 1)
  return 1 < (← get)

/-- What is left once the first leaf has been dropped: the group is opened, and one of its operands is
quoted text that holds a keyword and a parenthesis. -/
theorem parseTree_render_dropped :
    Tree.DerivesFrom (fun t => ∃ input, parseTree .operands .standard input = .ok t)
        [.leaf "'b AND (c'", .operator .or, .leaf "orb"]
      ∧ Form.operands.render [.leaf "'b AND (c'", .operator .or, .leaf "orb"]
        = "'b AND (c' OR orb"
      ∧ parseTree .operands .standard
          (Form.operands.render [.leaf "'b AND (c'", .operator .or, .leaf "orb"])
        = .ok [.leaf "'b AND (c'", .operator .or, .leaf "orb"] := by
  have hsource : Tree.DerivesFrom (fun t => ∃ input, parseTree .operands .standard input = .ok t)
      [.leaf "a", .operator .and, .group [.leaf "'b AND (c'", .operator .or, .leaf "orb"]] :=
    .origin ⟨_, parseTree_render_operands (by decide) (by decide)⟩
  have hderived := hsource.filtered dropFirst 0
  exact ⟨hderived, rfl, parseTree_render_derived hderived⟩

/-- **Operands of other keywords round trip** just if each of them does: what a leaf is misread as is
never made up for by what stands around it. -/
theorem parseTree_render_leaves_iff {k : Keywords} {input : String} {t : Tree String}
    (h : parseTree .operands k input = .ok t) :
    parseTree .operands .standard (Form.operands.render t) = .ok t
      ↔ ∀ a ∈ t.leaves, parseTree .operands .standard a = .ok [.leaf a] := by
  have hhead : ∀ a ∈ t.leaves, ∃ c cs, a.toList = c :: cs ∧ isBlank c = false ∧ c ≠ '(' :=
    fun a ha => (standing_of_mem_leaves h a ha).exists_head
  rw [parseTree_render_operands_iff (wellFormed_of_parseTree h) hhead]
  exact forall₂_congr fun a ha => (parseTree_eq_leaf_iff (hhead a ha)).symm

/-- Keywords written in symbols, so that no word is a keyword. -/
def Keywords.symbols : Keywords := ⟨"&&", "||", by decide⟩

/-- Where `&&` is the keyword, `a AND b` is one operand; read alone with `AND` as the keyword it is two,
and the tree that holds it is lost. -/
theorem parseTree_render_leaves_symbols :
    parseTree .operands .symbols "a AND b && c" = .ok [.leaf "a AND b", .operator .and, .leaf "c"]
      ∧ Form.operands.render [.leaf "a AND b", .operator .and, .leaf "c"] = "a AND b AND c"
      ∧ parseTree .operands .standard "c" = .ok [.leaf "c"]
      ∧ ¬ parseTree .operands .standard "a AND b" = .ok [.leaf "a AND b"]
      ∧ ¬ parseTree .operands .standard (Form.operands.render
          [.leaf "a AND b", .operator .and, .leaf "c"])
        = .ok [.leaf "a AND b", .operator .and, .leaf "c"] := by
  have hfirst : (Reader.start "a AND b && c".toList).Moves .operands .symbols
      (.leaf "a AND b") ⟨.done, 0, some ' ', "&& c".toList⟩ := Reader.step_eq_event_iff.mp rfl
  have hoperator : (Reader.mk .done 0 (some ' ') "&& c".toList).Moves .operands .symbols
      (.operator .and) ⟨.due, 0, some '&', " c".toList⟩ := Reader.step_eq_event_iff.mp rfl
  have hlast : (Reader.mk .due 0 (some '&') " c".toList).Moves .operands .symbols
      (.leaf "c") ⟨.done, 0, some 'c', []⟩ := Reader.step_eq_event_iff.mp rfl
  have hparsed : parseTree .operands .symbols "a AND b && c"
      = .ok [.leaf "a AND b", .operator .and, .leaf "c"] := by
    rw [parseTree_eq_ok_iff, readExpression_eq_iff, Reader.run_of_moves hfirst,
      Reader.run_of_moves hoperator, Reader.run_of_moves hlast, Reader.run_eq]
    rfl
  -- with the standard keywords there is one inside the first operand
  have hlost : ¬ parseTree .operands .standard "a AND b" = .ok [.leaf "a AND b"] := by
    rw [parseTree_eq_leaf_iff ⟨'a', _, rfl, by decide, by decide⟩]
    decide
  refine ⟨hparsed, rfl, (parseTree_eq_leaf_iff ⟨'c', _, rfl, by decide, by decide⟩).mpr (by decide),
    hlost, fun hback => ?_⟩
  exact hlost ((parseTree_render_leaves_iff hparsed).mp hback "a AND b" List.mem_cons_self)

/-- **Conditions round trip**, unless one of them is written with an operand that is read as part of
its operator. -/
theorem parseTree_render_parsed_iff {k : Keywords} {input : String} {t : Tree Condition}
    (h : parseTree .conditions k input = .ok t) :
    parseTree .conditions .standard (Form.conditions.render t) = .ok t
      ↔ ∀ c ∈ t.leaves, c.swallowsNot = false :=
  parseTree_render_conditions_iff (wellFormed_of_parseTree h) (exists_comparison_of_mem_leaves h)

/-- The value `NOT` loses the quotes that it was read in, and is then read as part of `IS NOT`. -/
theorem parseTree_render_quoted_not :
    parseTree .conditions .standard "x IS 'NOT'" = .ok [.leaf ⟨"x", "IS", "NOT"⟩]
      ∧ Form.conditions.render [.leaf ⟨"x", "IS", "NOT"⟩] = "x IS NOT"
      ∧ ¬ parseTree .conditions .standard (Form.conditions.render [.leaf ⟨"x", "IS", "NOT"⟩])
        = .ok [.leaf ⟨"x", "IS", "NOT"⟩] := by
  have hmove : (Reader.start "x IS 'NOT'".toList).Moves .conditions .standard
      (.leaf ⟨"x", "IS", "NOT"⟩) ⟨.done, 0, some '\'', []⟩ := Reader.step_eq_event_iff.mp rfl
  have hparsed : parseTree .conditions .standard "x IS 'NOT'"
      = .ok [.leaf ⟨"x", "IS", "NOT"⟩] := by
    rw [parseTree_eq_ok_iff, readExpression_eq_iff, Reader.run_of_moves hmove, Reader.run_eq]
    rfl
  refine ⟨hparsed, rfl, fun hback => ?_⟩
  -- without quotes the value would be read as a part of the operator
  have hnone := (parseTree_render_parsed_iff hparsed).mp hback
  exact absurd hnone (by decide)

/-- **Comparisons round trip**, whatever their fields and values are, unless one of them asks with `IS`
for a value that is written without quotes and begins with the word `NOT`. -/
theorem parseTree_render_comparisons_iff {t : Tree Condition} (h : t.WellFormed)
    (hl : ∀ c ∈ t.leaves, ∃ o : Comparison, c.operator = o.text) :
    parseTree .conditions .standard (Form.conditions.render t) = .ok t
      ↔ ∀ c ∈ t.leaves, ¬ (c.operator = "IS" ∧ Condition.isBareValue c.right = true
        ∧ ∃ word rest, c.right.toList = word ++ rest ∧ sameCaseless word "NOT".toList = true
          ∧ rest.head?.any isWord = false) := by
  rw [parseTree_render_conditions_iff h hl]
  refine forall₂_congr fun c _ => ?_
  rw [← Condition.swallowsNot_iff, Bool.not_eq_true]

/-- The value `not-yet` in a group is lost: it begins with a word `NOT` that is followed by a hyphen. -/
theorem parseTree_render_comparisons_hyphen :
    let t : Tree Condition :=
      [.group [.leaf ⟨"x", "IS", "not-yet"⟩, .operator .or, .leaf ⟨"a b", "=", ""⟩], .operator .and,
        .leaf ⟨"y", "IS", "nothing"⟩]
    t.WellFormed ∧ (∀ c ∈ t.leaves, ∃ o : Comparison, c.operator = o.text)
      ∧ Form.conditions.render t = "(x IS not-yet OR 'a b' = '') AND y IS nothing"
      ∧ ¬ parseTree .conditions .standard (Form.conditions.render t) = .ok t := by
  intro t
  have hgroup : (Element.group [.leaf ⟨"x", "IS", "not-yet"⟩, .operator .or,
      .leaf (Condition.mk "a b" "=" "")]).WellFormed := by
    refine .group (.join rfl (.term rfl)) fun e he => ?_
    simp only [List.mem_cons, List.not_mem_nil, or_false] at he
    rcases he with rfl | rfl | rfl
    · exact .leaf _
    · exact .operator _
    · exact .leaf _
  have ht : t.WellFormed := by
    refine ⟨fun _ => .join rfl (.term rfl), fun e he => ?_⟩
    simp only [t, List.mem_cons, List.not_mem_nil, or_false] at he
    rcases he with rfl | rfl | rfl
    · exact hgroup
    · exact .operator _
    · exact .leaf _
  have hleaves : ∀ c ∈ t.leaves, ∃ o : Comparison, c.operator = o.text := by
    intro c hc
    change c ∈ [Condition.mk "x" "IS" "not-yet", ⟨"a b", "=", ""⟩, ⟨"y", "IS", "nothing"⟩] at hc
    simp only [List.mem_cons, List.not_mem_nil, or_false] at hc
    rcases hc with rfl | rfl | rfl
    · exact ⟨.is, rfl⟩
    · exact ⟨.eq, rfl⟩
    · exact ⟨.is, rfl⟩
  -- the value begins with the word `not`, which the hyphen ends
  refine ⟨ht, hleaves, rfl, fun hback => ?_⟩
  exact (parseTree_render_comparisons_iff ht hleaves).mp hback ⟨"x", "IS", "not-yet"⟩
    List.mem_cons_self ⟨rfl, by decide, "not".toList, "-yet".toList, rfl, by decide, by decide⟩

end Junction
