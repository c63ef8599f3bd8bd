import Junction.CommandLine.Commands

/-!
# What the commands print

A command prints something of its own just if its settings can be loaded (`Invocation.run_eq_ok_iff`) and
its expression has a tree (`Invocation.parse_bind_eq_ok_iff`); everything else is an error. So what is said
of a tree can be said of the commands that print something of it: `tree` prints the tree itself
(`answer_tree_iff`), `solve` its value (`answer_solve_iff`), where a condition that is not decided is taken
for false, `fsolve` the value without such conditions (`answer_fsolve_iff`), or `unknown` where nothing is
left, and `filter` what is left (`answer_filter_iff`).
-/

namespace Junction

theorem truthText_eq_true {b : Bool} (h : truthText b = "true") : b = true := by
  cases b with
  | false => exact absurd h (by decide)
  | true => rfl

/-- The value of a tree in words, if it has one. -/
def knownText (value? : Option Bool) : String := value?.elim "unknown" truthText

theorem knownText_eq_unknown_iff {value? : Option Bool} : knownText value? = "unknown" ↔ value? = none := by
  match value? with
  | none => exact ⟨fun _ => rfl, fun _ => rfl⟩
  | some false | some true => exact ⟨fun h => absurd h (by decide), nofun⟩

namespace Invocation

variable {i : Invocation} {settings : Settings} {printed : String}

theorem run_eq_ok_iff {program : String} {document : Option Json}
    {environment : List (String × String)} :
    i.run program document environment = .ok printed
      ↔ ∃ d settings, document = some d
        ∧ Settings.ofDocument (Settings.layered program d environment) = .ok settings
        ∧ i.answer settings = .ok printed := by
  unfold run
  constructor
  · intro h
    split at h
    · cases h
    · split at h
      · cases h
      · exact ⟨_, _, rfl, ‹_›, h⟩
  · rintro ⟨d, settings, rfl, hsettings, hanswer⟩
    simp only [hsettings, hanswer]

/-- What is done with a tree is done if the expression has one. -/
theorem parse_bind_eq_ok_iff {f : Form} {use : Tree f.Leaf → Except Failure String} :
    (i.parse settings f >>= use) = .ok printed
      ↔ ∃ t, parseTree f settings.keywords i.expression = .ok t ∧ use t = .ok printed := by
  unfold parse
  cases parseTree f settings.keywords i.expression with
  | ok t => exact ⟨fun h => ⟨t, rfl, h⟩, fun ⟨_, ht, h⟩ => Except.ok.inj ht ▸ h⟩
  | error e => exact ⟨nofun, fun ⟨_, ht, _⟩ => nomatch ht⟩

theorem answer_tree_iff (i : Invocation) :
    { i with command := .tree }.answer settings = .ok printed
      ↔ ∃ t, parseTree i.form settings.keywords i.expression = .ok t
        ∧ (i.format.getD settings.output).print i.form t = printed := by
  refine parse_bind_eq_ok_iff.trans (exists_congr fun t => and_congr_right fun _ => ?_)
  exact ⟨Except.ok.inj, congrArg _⟩

theorem answer_solve_iff (i : Invocation) :
    { i with command := .solve }.answer settings = .ok printed
      ↔ ∃ t, parseTree .conditions settings.keywords i.expression = .ok t
        ∧ truthText (Tree.eval (i.allFacts settings).holds t) = printed := by
  refine parse_bind_eq_ok_iff.trans (exists_congr fun t => and_congr_right fun _ => ?_)
  exact ⟨Except.ok.inj, congrArg _⟩

theorem answer_fsolve_iff (i : Invocation) :
    { i with command := .fsolve }.answer settings = .ok printed
      ↔ ∃ t, parseTree .conditions settings.keywords i.expression = .ok t
        ∧ knownText (Tree.evalKnown (i.allFacts settings).check t) = printed := by
  refine parse_bind_eq_ok_iff.trans (exists_congr fun t => and_congr_right fun _ => ?_)
  -- the facts do not depend on the command
  have hfacts : Invocation.allFacts { i with command := .fsolve } settings = i.allFacts settings := rfl
  rw [hfacts]
  cases Tree.evalKnown (i.allFacts settings).check t with
  | none => exact ⟨Except.ok.inj, congrArg _⟩
  | some value => exact ⟨Except.ok.inj, congrArg _⟩

theorem answer_filter_iff (i : Invocation) :
    { i with command := .filter }.answer settings = .ok printed
      ↔ ∃ t, parseTree .conditions settings.keywords i.expression = .ok t
        ∧ (i.format.getD .text).print .conditions (Tree.filter (i.allFacts settings).knows t) = printed := by
  refine parse_bind_eq_ok_iff.trans (exists_congr fun t => and_congr_right fun _ => ?_)
  exact ⟨Except.ok.inj, congrArg _⟩

theorem answer_fsolve_of_some {t : Tree Condition} {value : Bool}
    (ht : parseTree .conditions settings.keywords i.expression = .ok t)
    (hvalue : Tree.evalKnown (i.allFacts settings).check t = some value) :
    { i with command := .fsolve }.answer settings = .ok (truthText value) :=
  (answer_fsolve_iff i).mpr ⟨t, ht, congrArg knownText hvalue⟩

end Invocation

end Junction
