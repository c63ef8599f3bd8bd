import Junction.Proofs.Commands
import Junction.Proofs.Facts.Answers
import Junction.Proofs.Reachable
import Junction.Proofs.Reading.Layout
import Junction.Proofs.Reading.Rendered
import Junction.Proofs.Reading.Spelled
import Junction.Proofs.Tree.Known

/-!
# What is known of an expression

The facts decide some conditions of an expression and not others. Three things are asked about the ones
that they decide: whether there is a value, what is left of the tree, and what becomes of both as more is
known.

* `evalKnown_eq_none_iff_unknown`: there is no value just if no condition is decided, and then the command
  prints `unknown`. A condition that was read has an operator that the facts know, so it is not decided
  just if its field is not known and it is no test for `NULL`;
* `insert_keeps_known`: with one more fact no condition is lost, and no value.

Both go by the leaves, one by one: how the tree is nested is dealt with in `Tree.WellFormed.leaves_filter`
and `Tree.WellFormed.evalKnown_eq_none_iff`.
-/

namespace Junction

open Text

/-- A tree of conditions that was read is laid out by its text, each condition in a spelling of its own. -/
theorem layout_of_parseTree_conditions {k : Keywords} {input : String} {t : Tree Condition}
    (h : parseTree .conditions k input = .ok t) :
    Layout (Event.WrittenAs k Condition.Spelled) t.events input.toList := by
  have hread := parseTree_eq_ok_iff.mp h
  have hevents : ((Reader.start input.toList).run .conditions k).1 = t.events :=
    congrArg Outcome.events hread
  have hcomplete : ((Reader.start input.toList).run .conditions k).2 = .complete :=
    Ending.error?_eq_none_iff.mp (congrArg Outcome.error? hread)
  rw [← hevents]
  -- a condition takes no white space along, so it is spelled by all that it takes
  refine Reader.layout_run (f := .conditions) (fun {prev c cs l} _ hl => ?_) _ hcomplete
  exact ⟨l.taken, [], (List.append_nil _).symm, List.forall_mem_nil _,
    Condition.spelled_of_readCondition hl⟩

/-- **A condition that was read is not decided** just if its field is not known and it is no test for
`NULL`. -/
theorem check_eq_none_iff_of_mem_leaves {k : Keywords} {input : String} {t : Tree Condition}
    (h : parseTree .conditions k input = .ok t) {c : Condition} (hc : c ∈ t.leaves) (facts : Facts) :
    facts.check c = none ↔ facts.get? c.left = none ∧ ¬ c.TestsNull := by
  obtain ⟨o, ho⟩ := exists_comparison_of_mem_leaves h c hc
  have hread : Comparison.ofText? c.operator ≠ none := by
    rw [ho, Comparison.ofText?_text]
    exact Option.some_ne_none o
  rw [Facts.check_eq_none_iff, or_iff_right hread]

/-- So an expression has no value just if this is so for each of its conditions. -/
theorem evalKnown_eq_none_iff_of_parseTree {k : Keywords} {input : String} {t : Tree Condition}
    (h : parseTree .conditions k input = .ok t) (facts : Facts) :
    Tree.evalKnown facts.check t = none ↔ ∀ c ∈ t.leaves, facts.get? c.left = none ∧ ¬ c.TestsNull := by
  rw [(wellFormed_of_parseTree h).evalKnown_eq_none_iff]
  exact forall₂_congr fun c hc => check_eq_none_iff_of_mem_leaves h hc facts

/-- A tree is read from its text if its operators are comparisons and no condition swallows its `NOT`. -/
theorem parseTree_render_recognized {t : Tree Condition} (h : t.WellFormed)
    (hoperator : ∀ c ∈ t.leaves, Comparison.ofText? c.operator ≠ none)
    (hswallows : ∀ c ∈ t.leaves, c.swallowsNot = false) :
    parseTree .conditions .standard (Form.conditions.render t) = .ok t := by
  refine (parseTree_render_conditions_iff h fun c hc => ?_).mpr hswallows
  obtain ⟨o, ho⟩ := Option.ne_none_iff_exists'.mp (hoperator c hc)
  exact ⟨o, (Comparison.text_of_ofText? ho).symm⟩

/-- **When nothing is known of an expression.** The text of an expression of conditions lays out its tree,
so that each leaf is one condition that is spelled there, and its operator is one that the facts know. Then
there is no value just if for each leaf the field is not known and it is no test for `NULL`; that is
also when dropping the conditions that are not decided leaves nothing, and when the command prints
`unknown`. -/
theorem evalKnown_eq_none_iff_unknown :
    (∀ {k : Keywords} {input : String} {t : Tree Condition}, parseTree .conditions k input = .ok t →
        Layout (Event.WrittenAs k Condition.Spelled) t.events input.toList
          ∧ ∀ facts : Facts,
            (∀ c ∈ t.leaves, facts.get? c.left ≠ none → facts.check c ≠ none)
            ∧ (Tree.evalKnown facts.check t = none
              ↔ ∀ c ∈ t.leaves, facts.get? c.left = none ∧ ¬ c.TestsNull)
            ∧ (Tree.filter facts.knows t = []
              ↔ ∀ c ∈ t.leaves, facts.get? c.left = none ∧ ¬ c.TestsNull))
      ∧ ∀ (i : Invocation) (program : String) (document : Option Json)
          (environment : List (String × String)),
        { i with command := .fsolve }.run program document environment = .ok "unknown"
          ↔ ∃ d settings, document = some d
            ∧ Settings.ofDocument (Settings.layered program d environment) = .ok settings
            ∧ ∃ t, parseTree .conditions settings.keywords i.expression = .ok t
              ∧ ∀ c ∈ t.leaves, (i.allFacts settings).get? c.left = none ∧ ¬ c.TestsNull := by
  constructor
  · intro k input t h
    refine ⟨layout_of_parseTree_conditions h, fun facts => ⟨fun c hc hknown hnone => ?_,
      evalKnown_eq_none_iff_of_parseTree h facts, ?_⟩⟩
    · exact hknown ((check_eq_none_iff_of_mem_leaves h hc facts).mp hnone).1
    · -- nothing is left just if no leaf has an answer
      rw [(wellFormed_of_parseTree h).filter_eq_nil_iff]
      refine forall₂_congr fun c hc => ?_
      rw [← check_eq_none_iff_of_mem_leaves h hc facts, Facts.knows, Option.isSome_eq_false_iff,
        Option.isNone_iff_eq_none]
  · intro i program document environment
    rw [Invocation.run_eq_ok_iff]
    refine exists₂_congr fun d settings => and_congr_right fun _ => and_congr_right fun _ => ?_
    refine (Invocation.answer_fsolve_iff i).trans (exists_congr fun t => and_congr_right fun ht => ?_)
    -- what is printed is `unknown` just if the tree has no known value
    rw [knownText_eq_unknown_iff]
    exact evalKnown_eq_none_iff_of_parseTree ht (i.allFacts settings)

/-- A known field that no condition of the expression asks about. -/
theorem evalKnown_eq_none_iff_unknown_nested :
    parseTree .conditions .standard "a = 1 AND (b LIKE x OR c IS 'y z')" = .ok [.leaf ⟨"a", "=", "1"⟩,
        .operator .and, .group [.leaf ⟨"b", "LIKE", "x"⟩, .operator .or, .leaf ⟨"c", "IS", "y z"⟩]]
      ∧ Tree.filter (Facts.ofList [("d", "1")]).knows [.leaf ⟨"a", "=", "1"⟩,
        .operator .and, .group [.leaf ⟨"b", "LIKE", "x"⟩, .operator .or, .leaf ⟨"c", "IS", "y z"⟩]] = []
      ∧ Invocation.run ⟨.fsolve, "a = 1 AND (b LIKE x OR c IS 'y z')", true, [("d", "1")], none, none⟩
        "junction" (some (.object [])) [] = .ok "unknown" := by
  -- the tree prints the value that holds a blank in quotes
  have htext : Form.conditions.render [.leaf ⟨"a", "=", "1"⟩, .operator .and,
      .group [.leaf ⟨"b", "LIKE", "x"⟩, .operator .or, .leaf ⟨"c", "IS", "y z"⟩]]
      = "a = 1 AND (b LIKE x OR c IS 'y z')" := by decide +kernel
  have hparse : parseTree .conditions .standard (Form.conditions.render [.leaf ⟨"a", "=", "1"⟩,
      .operator .and, .group [.leaf ⟨"b", "LIKE", "x"⟩, .operator .or, .leaf ⟨"c", "IS", "y z"⟩]])
      = .ok [.leaf ⟨"a", "=", "1"⟩, .operator .and,
        .group [.leaf ⟨"b", "LIKE", "x"⟩, .operator .or, .leaf ⟨"c", "IS", "y z"⟩]] :=
    parseTree_render_recognized (by decide) (by decide) (by decide)
  rw [htext] at hparse
  have hsettings : Settings.ofDocument (Settings.layered "junction" (.object []) [])
      = .ok ⟨.standard, .empty, .json⟩ := rfl
  obtain ⟨htree, hcommand⟩ := evalKnown_eq_none_iff_unknown
  refine ⟨hparse, ((htree hparse).2 (Facts.ofList [("d", "1")])).2.2.mpr (by decide), ?_⟩
  exact (hcommand ⟨.fsolve, "a = 1 AND (b LIKE x OR c IS 'y z')", true, [("d", "1")], none, none⟩
    "junction" (some (.object [])) []).mpr
      ⟨_, _, rfl, hsettings, _, hparse, by decide⟩

/-- **One more fact takes nothing away.** Let a field that is not known become known. Each condition that
was decided stays decided, with the same answer, but that the tests of this field for `NULL` are turned
around. Of a tree that can be come to no leaf is dropped that was left before, and if it had a value it
still has one. -/
theorem insert_keeps_known {t : Tree Condition} (h : t.Reachable) {facts : Facts} {field : String}
    (hfield : facts.get? field = none) (value : String) :
    (∀ c : Condition, facts.knows c = true → (facts.insert field value).knows c = true
        ∧ (facts.insert field value).check c
          = if c.left = field ∧ c.TestsNull then (facts.check c).map not else facts.check c)
      ∧ (Tree.filter facts.knows t).leaves.Sublist (Tree.filter (facts.insert field value).knows t).leaves
      ∧ (Tree.evalKnown facts.check t ≠ none →
        Tree.evalKnown (facts.insert field value).check t ≠ none) := by
  have hw := h.wellFormed
  have hcheck : ∀ c, facts.knows c = true → (facts.insert field value).check c
      = if c.left = field ∧ c.TestsNull then (facts.check c).map not else facts.check c :=
    fun c hc => Facts.check_insert_of_knows hfield hc value
  have hknows : ∀ c, facts.knows c = true → (facts.insert field value).knows c = true := by
    intro c hc
    rw [Facts.knows, hcheck c hc]
    split
    · rwa [Option.isSome_map]
    · exact hc
  refine ⟨fun c hc => ⟨hknows c hc, hcheck c hc⟩, ?_, fun hvalue hnone => hvalue ?_⟩
  · rw [hw.leaves_filter, hw.leaves_filter]
    exact List.monotone_filter_right t.leaves hknows
  · -- a leaf that has no answer now had none before
    rw [hw.evalKnown_eq_none_iff] at hnone ⊢
    intro c hc
    by_contra hsome
    have hstill := hknows c (Option.isSome_iff_ne_none.mpr hsome)
    rw [Facts.knows, hnone c hc] at hstill
    cases hstill

/-- The test for `NULL` is turned around, and a comparison is answered now as well. -/
theorem insert_keeps_known_null :
    Tree.Reachable [.leaf (⟨"a", "IS", "NULL"⟩ : Condition), .operator .and, .leaf ⟨"a", "=", "1"⟩]
      ∧ Facts.empty.check ⟨"a", "IS", "NULL"⟩ = some true
      ∧ (Facts.empty.insert "a" "1").check ⟨"a", "IS", "NULL"⟩ = some false
      ∧ Tree.evalKnown (Facts.empty.insert "a" "1").check
        [.leaf ⟨"a", "IS", "NULL"⟩, .operator .and, .leaf ⟨"a", "=", "1"⟩] ≠ none := by
  have hreachable : Tree.Reachable
      [.leaf (⟨"a", "IS", "NULL"⟩ : Condition), .operator .and, .leaf ⟨"a", "=", "1"⟩] :=
    Tree.reachable_of_parseTree (f := .conditions)
      (parseTree_render_recognized (by decide) (by decide) (by decide))
  have hfield : Facts.empty.get? "a" = none := rfl
  obtain ⟨hcheck, -, hvalue⟩ := insert_keeps_known hreachable hfield "1"
  -- the test for `NULL` has the opposite answer as soon as the field is known
  have hnull := (hcheck ⟨"a", "IS", "NULL"⟩ rfl).2
  exact ⟨hreachable, rfl, hnull, hvalue (by decide)⟩

end Junction
