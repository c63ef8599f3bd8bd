import Junction.Proofs.Facts.Given
import Junction.Proofs.Knowing

/-!
# Which fact counts

Facts come from the settings and from the arguments of the command line, and a field may be named by many of
them. What a command sees of it is one value (`Sees`): that of the last argument that names it, or else that
of the settings.

* `answer_withFacts`: the commands answer under facts with just these values. So an answer does not change
  when an argument is left out that a later one overrides, or when arguments for different fields change
  places.

The two consequences are one fact on the arguments, `answer_withFacts_congr`: whatever a command asks, and in
which order, for each field it depends on the last argument that names it and on no other.
-/

namespace Junction

/-- The invocation with the facts of arguments. -/
def Invocation.withFacts (i : Invocation) (arguments : List String) : Invocation :=
  { i with facts := arguments.filterMap factOf? }

/-- **For each field the last argument that names it decides**, whichever command answers. -/
theorem answer_withFacts_congr {arguments arguments' : List String}
    (h : ∀ field, lastNaming arguments field = lastNaming arguments' field) (i : Invocation)
    (settings : Settings) :
    (i.withFacts arguments).answer settings = (i.withFacts arguments').answer settings := by
  have hget : ∀ field, ((i.withFacts arguments).allFacts settings).get? field
      = ((i.withFacts arguments').allFacts settings).get? field := by
    intro field
    refine Option.ext fun value => ?_
    refine Facts.get?_insertAll_eq_some_iff.trans (Iff.trans ?_ Facts.get?_insertAll_eq_some_iff.symm)
    rw [Sees, Sees, h]
  -- the three evaluations ask about conditions, and about nothing else
  have hcheck := Facts.check_congr hget
  have hholds : ((i.withFacts arguments).allFacts settings).holds
      = ((i.withFacts arguments').allFacts settings).holds := by
    funext c
    rw [Facts.holds, Facts.holds, hcheck]
  have hknows : ((i.withFacts arguments).allFacts settings).knows
      = ((i.withFacts arguments').allFacts settings).knows := by
    funext c
    rw [Facts.knows, Facts.knows, hcheck]
  unfold Invocation.answer
  rw [hcheck, hholds, hknows]
  rfl

/-- **The last argument counts.** Let arguments be given that all are accepted. However they are written on
the command line, they come to the command as the facts that they give. And whatever the settings and the
expression are, the three commands that take facts answer under facts that have for each field the value of
the last argument that names it, or else the value of the settings. So no answer changes when an argument
is left out that is overridden by a later one for the same field, or when the arguments are reordered and
those for each field stay in their order. -/
theorem answer_withFacts {arguments : List String} (haccepted : ∀ a ∈ arguments, factOf? a ≠ none) :
    (∀ (command : Command) (name : String) (words : List String), Command.ofName? name = some command →
        command.takesFacts = true → WriteFacts words arguments → ∀ expression,
        Invocation.ofArguments (name :: (words ++ ["--", expression]))
          = .ok (Invocation.withFacts ⟨command, expression, true, [], none, none⟩ arguments))
      ∧ ∀ (i : Invocation) (settings : Settings),
        (∃ facts : Facts,
          (∀ field value, facts.get? field = some value ↔ Sees arguments settings.facts field value)
            ∧ ∀ printed,
              ({ i.withFacts arguments with command := .solve }.answer settings = .ok printed
                ↔ ∃ t, parseTree .conditions settings.keywords i.expression = .ok t
                  ∧ truthText (Tree.eval facts.holds t) = printed)
              ∧ ({ i.withFacts arguments with command := .fsolve }.answer settings = .ok printed
                ↔ ∃ t, parseTree .conditions settings.keywords i.expression = .ok t
                  ∧ knownText (Tree.evalKnown facts.check t) = printed)
              ∧ ({ i.withFacts arguments with command := .filter }.answer settings = .ok printed
                ↔ ∃ t, parseTree .conditions settings.keywords i.expression = .ok t
                  ∧ (i.format.getD .text).print .conditions (Tree.filter facts.knows t) = printed))
        ∧ (∀ before a later field, arguments = before ++ a :: later → Names a field →
            (∃ a' ∈ later, Names a' field) →
            (i.withFacts (before ++ later)).answer settings = (i.withFacts arguments).answer settings)
        ∧ ∀ arguments', (∀ field, arguments'.filter (Names · field) = arguments.filter (Names · field)) →
            (i.withFacts arguments').answer settings = (i.withFacts arguments).answer settings := by
  refine ⟨fun command name words hname hc hwrite expression => ?_, fun i settings => ⟨?_, ?_, ?_⟩⟩
  · exact ofArguments_of_writeFacts hname hc hwrite haccepted expression
  · -- the facts are those of the settings, the arguments inserted after them
    refine ⟨(i.withFacts arguments).allFacts settings, fun field value => ?_, fun printed => ⟨?_, ?_, ?_⟩⟩
    · exact Facts.get?_insertAll_eq_some_iff
    · exact Invocation.answer_solve_iff (i.withFacts arguments)
    · exact Invocation.answer_fsolve_iff (i.withFacts arguments)
    · exact Invocation.answer_filter_iff (i.withFacts arguments)
  · -- an argument that is overridden is not the last one to name its field
    rintro before a later field rfl hnames hoverridden
    refine answer_withFacts_congr (fun field' => ?_) i settings
    have hlater : Names a field' → ∃ a' ∈ later, Names a' field' := fun hnames' => by
      rw [hnames.unique hnames']
      exact hoverridden
    rw [lastNaming_append, lastNaming_append, lastNaming_cons_of_overridden hlater]
  · -- the last one to name a field is the last of all that name it
    intro arguments' hfilter
    exact answer_withFacts_congr (fun field => congrArg List.getLast? (hfilter field)) i settings

/-- Two arguments name the same field once the name is trimmed, and the value of the later one has another
`=`. -/
theorem answer_withFacts_trimmed :
    let settings : Settings := ⟨.standard, .ofList [("status", "old"), ("team", "core")], .json⟩
    let i : Invocation := ⟨.solve, "status = a=b AND team = core", true, [], none, none⟩
    Invocation.ofArguments ["solve", "--fact", "status =x", "-fowner=me", "--fact= status=a=b", "--",
        "status = a=b AND team = core"]
        = .ok (i.withFacts ["status =x", "owner=me", " status=a=b"])
      ∧ (i.withFacts ["status =x", "owner=me", " status=a=b"]).answer settings = .ok "true"
      ∧ (i.withFacts ["owner=me", " status=a=b"]).answer settings = .ok "true" := by
  intro settings i
  have haccepted : ∀ a ∈ ["status =x", "owner=me", " status=a=b"], factOf? a ≠ none := by decide +kernel
  have hwrite : WriteFacts ["--fact", "status =x", "-fowner=me", "--fact= status=a=b"]
      ["status =x", "owner=me", " status=a=b"] :=
    .cons (.namedApart (by decide)) (.cons (@WritesFact.letter "owner=me")
      (.cons (@WritesFact.named " status=a=b") .nil))
  have htext : Form.conditions.render
      [.leaf ⟨"status", "=", "a=b"⟩, .operator .and, .leaf ⟨"team", "=", "core"⟩]
      = "status = a=b AND team = core" := by decide +kernel
  have hparse : parseTree .conditions .standard (Form.conditions.render
      [.leaf ⟨"status", "=", "a=b"⟩, .operator .and, .leaf ⟨"team", "=", "core"⟩]) = .ok _ :=
    parseTree_render_recognized (by decide) (by decide) (by decide)
  rw [htext] at hparse
  obtain ⟨hread, hanswer⟩ := answer_withFacts haccepted
  obtain ⟨⟨facts, hsees, hprints⟩, hleft, -⟩ := hanswer i settings
  -- the last of the two that name `status` counts, without the white space at its front
  have hstatus : facts.get? "status" = some "a=b" := by
    have hlast : lastNaming ["status =x", "owner=me", " status=a=b"] "status" = some " status=a=b" := by
      decide +kernel
    rw [hsees, Sees, hlast]
    exact factOf?_eq_some_iff.mp (by decide +kernel)
  -- nothing but the settings names `team`
  have hteam : facts.get? "team" = some "core" := by
    have hlast : lastNaming ["status =x", "owner=me", " status=a=b"] "team" = none := by decide +kernel
    rw [hsees, Sees, hlast]
    rfl
  have htrue : (i.withFacts ["status =x", "owner=me", " status=a=b"]).answer settings = .ok "true" := by
    have hleftTrue : facts.holds ⟨"status", "=", "a=b"⟩ = true := by
      rw [Facts.holds, (Facts.orders_of_known hstatus "a=b").eq]
      decide +kernel
    have hrightTrue : facts.holds ⟨"team", "=", "core"⟩ = true := by
      rw [Facts.holds, (Facts.orders_of_known hteam "core").eq]
      decide +kernel
    refine (hprints "true").1.mpr ⟨_, hparse, ?_⟩
    simp [Tree.eval, Tree.evalM, Tree.evalFrom, Element.evalM, Operator.apply, Operator.decides,
      hleftTrue, hrightTrue, truthText]
  refine ⟨hread .solve "solve" _ rfl rfl hwrite _, htrue, ?_⟩
  rw [← htrue]
  refine hleft [] "status =x" ["owner=me", " status=a=b"] "status" rfl ?_ ?_
  · decide +kernel
  · exact ⟨" status=a=b", by decide, by decide +kernel⟩

end Junction
