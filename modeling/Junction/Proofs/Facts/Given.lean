import Mathlib.Data.List.Induction
import Mathlib.Data.List.TakeWhile
import Junction.CommandLine.Commands

/-!
# How facts are given

A fact is given by one argument (`Gives`), which `factOf?` reads (`factOf?_eq_some_iff`). On a command line
it may be written in several ways (`WriteFacts`). Whichever they are, the facts come to the invocation in
their order (`ofArguments_of_writeFacts`), and of several values for a field the last is left
(`Facts.get?_insertAll_eq_some_iff`).

The value of an option that is a word of its own is looked at only when the next word is read. So what has
been read is told by what it **settles** to (`Given.Settles`), and each further fact is added to that.
-/

namespace Junction

open Text

/-! ### One argument -/

/-- **What an argument gives.** The field is what stands before the first `=`, white space around it aside,
and is not empty; the value is all that stands after. -/
def Gives (argument field value : String) : Prop :=
  ∃ name : List Char, argument.toList = name ++ '=' :: value.toList ∧ '=' ∉ name
    ∧ trim name = field.toList ∧ field ≠ ""

/-- The argument gives a value for the field. -/
def Names (argument field : String) : Prop := ∃ value, Gives argument field value

theorem factOf?_of_append {argument : String} {name value : List Char} (hname : '=' ∉ name)
    (h : argument.toList = name ++ '=' :: value) : factOf? argument
      = if trim name = [] then none else some (String.ofList (trim name), String.ofList value) := by
  have hne : ∀ c ∈ name, decide (c ≠ '=') = true :=
    fun c hc => decide_eq_true fun heq => hname (heq ▸ hc)
  have hstop : decide ('=' ≠ '=') = false := by decide
  rw [factOf?, h, List.takeWhile_append_of_pos hne, List.dropWhile_append_of_pos hne,
    List.dropWhile_cons, List.takeWhile_cons, hstop]
  simp only [Bool.false_eq_true, if_false, List.append_nil]
  cases trim name with
  | nil => rfl
  | cons c cs => rfl

/-- **The fact of an argument** is the one that it gives. -/
theorem factOf?_eq_some_iff {argument field value : String} :
    factOf? argument = some (field, value) ↔ Gives argument field value := by
  constructor
  · intro h
    -- without an equals sign there is no fact
    have hmem : '=' ∈ argument.toList := by
      refine Decidable.not_not.mp fun hmem => ?_
      have hall : ∀ c ∈ argument.toList, decide (c ≠ '=') = true :=
        fun c hc => decide_eq_true fun heq => hmem (heq ▸ hc)
      rw [factOf?, List.dropWhile_eq_nil_iff.mpr hall] at h
      cases h
    -- it is split at the first of these signs
    obtain ⟨name, rest, hsplit, hname⟩ := List.eq_append_cons_of_mem hmem
    rw [factOf?_of_append hname hsplit] at h
    split at h
    · cases h
    · next hne =>
      cases h
      refine ⟨name, ?_, hname, String.toList_ofList.symm, fun hnil => hne ?_⟩
      · rw [hsplit, String.toList_ofList]
      · exact String.toList_ofList.symm.trans (String.toList_eq_nil_iff.mpr hnil)
  · rintro ⟨name, hsplit, hname, htrim, hfield⟩
    have hne : trim name ≠ [] := by
      rw [htrim]
      exact fun hnil => hfield (String.toList_eq_nil_iff.mp hnil)
    rw [factOf?_of_append hname hsplit, if_neg hne, htrim, String.ofList_toList, String.ofList_toList]

theorem names_iff {argument field : String} :
    Names argument field ↔ (factOf? argument).map Prod.fst = some field := by
  rw [Option.map_eq_some_iff]
  constructor
  · rintro ⟨value, h⟩
    exact ⟨_, factOf?_eq_some_iff.mpr h, rfl⟩
  · rintro ⟨⟨_, value⟩, h, rfl⟩
    exact ⟨value, factOf?_eq_some_iff.mp h⟩

/-- An argument names one field at most. -/
theorem Names.unique {argument field field' : String} (h : Names argument field)
    (h' : Names argument field') : field' = field :=
  Option.some.inj ((names_iff.mp h').symm.trans (names_iff.mp h))

instance (argument field : String) : Decidable (Names argument field) :=
  decidable_of_iff _ names_iff.symm

/-! ### The command line -/

/-- **The words that write one argument.** The option has a name or a letter, and the argument is a word of
its own or part of that of the option. An argument of its own has no dash at the front. -/
inductive WritesFact (a : String) : List String → Prop where
  | named : WritesFact a ["--fact=" ++ a]
  | namedApart (ha : a.toList.head? ≠ some '-') : WritesFact a ["--fact", a]
  | letter : WritesFact a ["-f" ++ a]
  | letterEquals : WritesFact a ["-f=" ++ a]
  | letterApart (ha : a.toList.head? ≠ some '-') : WritesFact a ["-f", a]

/-- **Words that write facts**, one argument after another. -/
inductive WriteFacts : List String → List String → Prop where
  | nil : WriteFacts [] []
  | cons {a : String} {word words arguments : List String} (h : WritesFact a word)
      (later : WriteFacts words arguments) : WriteFacts (word ++ words) (a :: arguments)

/-- **What has been read settles to `g'`**: the value that has not been looked at is accepted. -/
structure Given.Settles (g g' : Given) : Prop where
  settle_eq : g.settle = .ok g'
  pending_eq : g'.pending = none
  expression_eq : g'.expression = g.expression

/-- Further facts. -/
def Given.addFacts (g : Given) (facts : List (String × String)) : Given :=
  { g with facts := g.facts ++ facts }

section Reading

variable {command : Command} {g g' : Given} {a : String} {fact : String × String} {words : List String}

theorem Switch.ofName?_fact (hc : command.takesFacts = true) :
    Switch.ofName? (some command) "fact" = some .fact := by
  cases command with
  | tree | check => cases hc
  | solve | fsolve | filter => rfl

theorem Switch.ofLetter?_fact (hc : command.takesFacts = true) :
    Switch.ofLetter? (some command) 'f' = some .fact := by
  cases command with
  | tree | check => cases hc
  | solve | fsolve | filter => rfl

theorem Given.store_fact (hfact : factOf? a = some fact) : g.store .fact a = .ok (g.addFacts [fact]) := by
  simp only [store, hfact]
  rfl

theorem Given.addFacts_cons (g : Given) (fact : String × String) (facts : List (String × String)) :
    (g.addFacts [fact]).addFacts facts = g.addFacts (fact :: facts) := by
  simp only [addFacts, List.append_assoc, List.singleton_append]

theorem Given.settles_addFacts (h : g.Settles g') : (g'.addFacts [fact]).Settles (g'.addFacts [fact]) where
  settle_eq := by
    have hpending : (g'.addFacts [fact]).pending = none := h.pending_eq
    simp only [settle, hpending]
  pending_eq := h.pending_eq
  expression_eq := rfl

/-- A fact that has not been looked at. -/
theorem Given.settles_pending (h : g.Settles g') (hfact : factOf? a = some fact) :
    { g' with pending := some (.fact, some a) }.Settles (g'.addFacts [fact]) where
  settle_eq := by
    obtain ⟨_, hpending, _⟩ := h
    cases g'
    cases hpending
    exact store_fact hfact
  pending_eq := h.pending_eq
  expression_eq := rfl

theorem Given.option_fact_some (h : g.Settles g') (hfact : factOf? a = some fact) :
    g.option .fact (some a) = .ok (g'.addFacts [fact]) := by
  have htakes : Switch.takesValue .fact = true := rfl
  rw [option, if_pos htakes, h.settle_eq]
  exact store_fact hfact

theorem Given.option_fact_none (h : g.Settles g') :
    g.option .fact none = .ok { g' with pending := some (.fact, none) } := by
  have htakes : Switch.takesValue .fact = true := rfl
  rw [option, if_pos htakes, h.settle_eq]
  rfl

/-! The words of an option, one by one. -/

theorem readArguments_cons_of_dashes {w : String} {c : Char} {cs : List Char}
    (hw : w.toList = '-' :: '-' :: c :: cs) : readArguments (some command) false g (w :: words)
      = g.named (some command) (c :: cs) >>= fun g => readArguments (some command) false g words := by
  rw [readArguments]
  simp only [hw]
  rfl

theorem readArguments_cons_of_dash {w : String} {c : Char} {cs : List Char} (hc : c ≠ '-')
    (hw : w.toList = '-' :: c :: cs) : readArguments (some command) false g (w :: words)
      = g.letters (some command) (c :: cs) >>= fun g => readArguments (some command) false g words := by
  rw [readArguments]
  simp only [hw]
  simp [hc]

theorem readArguments_cons_of_awaits {w : String} {o : Switch} (hw : w.toList.head? ≠ some '-')
    (hg : g.pending = some (o, none)) : readArguments (some command) false g (w :: words)
      = readArguments (some command) false { g with pending := some (o, some w) } words := by
  -- a word with a dash in front would be an option of its own
  have hdash : ∀ cs, w.toList ≠ '-' :: cs := fun cs h => hw (congrArg List.head? h)
  rw [readArguments]
  simp only [Option.isNone_some, Bool.false_and, Bool.false_eq_true, if_false]
  split
  · exact absurd ‹_› (hdash _)
  · exact absurd ‹_› (hdash _)
  · exact absurd ‹_› (hdash _)
  · simp only [hg]

/-- A fact in one word with its option. -/
theorem Given.named_fact (hc : command.takesFacts = true) (h : g.Settles g')
    (hfact : factOf? a = some fact) :
    g.named (some command) ("fact=".toList ++ a.toList) = .ok (g'.addFacts [fact]) := by
  have hname : ("fact=".toList ++ a.toList).takeWhile (· ≠ '=') = "fact".toList := rfl
  have hvalue : ("fact=".toList ++ a.toList).dropWhile (· ≠ '=') = '=' :: a.toList := rfl
  rw [named, hname, hvalue, String.ofList_toList, Switch.ofName?_fact hc]
  exact (congrArg (fun value => g.option .fact (some value)) String.ofList_toList).trans
    (option_fact_some h hfact)

theorem Given.letters_fact (hc : command.takesFacts = true) (h : g.Settles g')
    (hfact : factOf? a = some fact) :
    g.letters (some command) ('f' :: a.toList) = .ok (g'.addFacts [fact])
      ∧ g.letters (some command) ('f' :: '=' :: a.toList) = .ok (g'.addFacts [fact]) := by
  have htakes : Switch.takesValue .fact = true := rfl
  have hoption := option_fact_some h hfact
  obtain ⟨name, hsplit, hname, htrim, hfield⟩ := factOf?_eq_some_iff.mp hfact
  rw [letters, letters, Switch.ofLetter?_fact hc]
  simp only [htakes, if_true, String.ofList_toList]
  refine ⟨?_, hoption⟩
  -- the field is not empty, so the argument does not begin with `=`
  have hfirst : ∃ c cs, a.toList = c :: cs ∧ c ≠ '=' := by
    cases name with
    | nil => exact absurd (String.toList_eq_nil_iff.mp htrim.symm) hfield
    | cons c name => exact ⟨c, _, hsplit, fun heq => hname (heq ▸ List.mem_cons_self)⟩
  obtain ⟨c, cs, hcs, hne⟩ := hfirst
  split
  · next hnil => cases hcs.symm.trans hnil
  · next hequals => exact absurd (List.cons.inj (hcs.symm.trans hequals)).1 hne
  · rw [String.ofList_toList]
    exact hoption

/-- An option that awaits its fact. -/
theorem Given.named_letters_fact_apart (hc : command.takesFacts = true) (h : g.Settles g') :
    g.named (some command) "fact".toList = .ok { g' with pending := some (.fact, none) }
      ∧ g.letters (some command) ['f'] = .ok { g' with pending := some (.fact, none) } := by
  have hname : "fact".toList.takeWhile (· ≠ '=') = "fact".toList := rfl
  have hvalue : "fact".toList.dropWhile (· ≠ '=') = [] := rfl
  have htakes : Switch.takesValue .fact = true := rfl
  rw [named, hname, hvalue, String.ofList_toList, Switch.ofName?_fact hc, letters,
    Switch.ofLetter?_fact hc]
  simp only [htakes, if_true]
  exact ⟨option_fact_none h, option_fact_none h⟩

/-- **One more fact is read**, in whichever way it is written. -/
theorem readArguments_of_writesFact (hc : command.takesFacts = true) {word : List String}
    (hwrite : WritesFact a word) (hfact : factOf? a = some fact) (h : g.Settles g') (later : List String) :
    ∃ k : Given, k.Settles (g'.addFacts [fact])
      ∧ readArguments (some command) false g (word ++ later)
        = readArguments (some command) false k later := by
  -- the fact is there at once, or it is pending and there as soon as it settles
  have hsettled : (g'.addFacts [fact]).Settles (g'.addFacts [fact]) := Given.settles_addFacts h
  have hdash : 'f' ≠ '-' := by decide
  have hpending : { g' with pending := some (.fact, some a) }.Settles (g'.addFacts [fact]) :=
    Given.settles_pending h hfact
  cases hwrite with
  | named =>
    have hw : ("--fact=" ++ a).toList = '-' :: '-' :: 'f' :: ("act=".toList ++ a.toList) :=
      String.toList_append
    refine ⟨_, hsettled, ?_⟩
    rw [List.singleton_append, readArguments_cons_of_dashes hw]
    exact congrArg (· >>= _) (Given.named_fact hc h hfact)
  | namedApart ha =>
    have hw : "--fact".toList = '-' :: '-' :: 'f' :: "act".toList := rfl
    refine ⟨_, hpending, ?_⟩
    rw [List.cons_append, List.singleton_append, readArguments_cons_of_dashes hw]
    -- the option awaits its value, and the next word is taken for it without a look
    refine (congrArg (· >>= _) (Given.named_letters_fact_apart hc h).1).trans ?_
    exact readArguments_cons_of_awaits ha rfl
  | letter =>
    have hw : ("-f" ++ a).toList = '-' :: 'f' :: a.toList := String.toList_append
    refine ⟨_, hsettled, ?_⟩
    rw [List.singleton_append, readArguments_cons_of_dash hdash hw, (Given.letters_fact hc h hfact).1]
    rfl
  | letterEquals =>
    have hw : ("-f=" ++ a).toList = '-' :: 'f' :: '=' :: a.toList := String.toList_append
    refine ⟨_, hsettled, ?_⟩
    rw [List.singleton_append, readArguments_cons_of_dash hdash hw, (Given.letters_fact hc h hfact).2]
    rfl
  | letterApart ha =>
    have hw : "-f".toList = '-' :: 'f' :: [] := rfl
    refine ⟨_, hpending, ?_⟩
    rw [List.cons_append, List.singleton_append, readArguments_cons_of_dash hdash hw,
      (Given.named_letters_fact_apart hc h).2]
    exact readArguments_cons_of_awaits ha rfl

/-- **Each fact is added to what has been read.** -/
theorem readArguments_of_writeFacts (hc : command.takesFacts = true) {arguments : List String}
    (hwrite : WriteFacts words arguments) (haccepted : ∀ a ∈ arguments, factOf? a ≠ none)
    (h : g.Settles g') (later : List String) :
    ∃ k : Given, k.Settles (g'.addFacts (arguments.filterMap factOf?))
      ∧ readArguments (some command) false g (words ++ later)
        = readArguments (some command) false k later := by
  induction hwrite generalizing g g' with
  | nil =>
    rw [List.filterMap_nil, Given.addFacts, List.append_nil]
    exact ⟨g, h, rfl⟩
  | @cons a word words arguments hword hwrite ih =>
    rw [List.forall_mem_cons] at haccepted
    obtain ⟨fact, hfact⟩ := Option.ne_none_iff_exists'.mp haccepted.1
    -- what is left after the first argument settles with its fact added
    obtain ⟨k, hk, hread⟩ := readArguments_of_writesFact hc hword hfact h (words ++ later)
    obtain ⟨k', hk', hread'⟩ := ih haccepted.2 hk
    refine ⟨k', ?_, ?_⟩
    · rw [List.filterMap_cons_some hfact, ← Given.addFacts_cons]
      exact hk'
    · rw [List.append_assoc, hread, hread']

/-- A word that names a command ends what stands in front of it. -/
theorem readArguments_cons_of_command {name : String} (h : Command.ofName? name = some command) :
    readArguments none false {} (name :: words) = .ok ({}, some (command, words)) := by
  have hawaits : Given.awaitsValue {} = false := rfl
  -- no command is called `help`
  have hhelp : (name == "help") = false := by
    rw [beq_eq_false_iff_ne]
    rintro rfl
    cases h
  rw [readArguments]
  simp only [hawaits, hhelp, h, Option.isNone_none, Bool.not_false, Bool.and_false, Bool.false_eq_true,
    if_false, Bool.and_self, if_true]

/-- An expression behind two dashes, which is the last word. -/
theorem readArguments_escaped (h : g.Settles g') (hg : g.expression = none) (expression : String) :
    readArguments (some command) false g ["--", expression]
      = .ok ({ g' with expression := some expression }, none) := by
  -- after the dashes every word is plain
  have hdashes : readArguments (some command) false g ["--", expression]
      = readArguments (some command) true g [expression] := by
    rw [readArguments]
    rfl
  -- nothing is pending when the words end
  have hend : Given.settle { g' with expression := some expression }
      = .ok { g' with expression := some expression } := by
    simp only [Given.settle, h.pending_eq]
  rw [hdashes, readArguments]
  simp only [if_true, Given.plain, hg, h.settle_eq]
  change readArguments (some command) true { g' with expression := some expression } [] = _
  rw [readArguments, hend]
  rfl

/-- **The facts of a command line** are those that its arguments give, in their order. -/
theorem ofArguments_of_writeFacts {name : String} (hname : Command.ofName? name = some command)
    (hc : command.takesFacts = true) {arguments : List String} (hwrite : WriteFacts words arguments)
    (haccepted : ∀ a ∈ arguments, factOf? a ≠ none) (expression : String) :
    Invocation.ofArguments (name :: (words ++ ["--", expression]))
      = .ok ⟨command, expression, true, arguments.filterMap factOf?, none, none⟩ := by
  have hempty : Given.Settles {} {} := ⟨rfl, rfl, rfl⟩
  -- reading begins with nothing given, and `--` and the expression are its last words
  obtain ⟨k, hk, hread⟩ := readArguments_of_writeFacts hc hwrite haccepted hempty ["--", expression]
  rw [readArguments_escaped hk hk.expression_eq.symm] at hread
  rw [Invocation.ofArguments, readArguments_cons_of_command hname]
  -- nothing stands in front of the command, so what has been read behind it is all there is
  change (readArguments (some command) false {} (words ++ ["--", expression]) >>= _) = _
  rw [hread]
  change Except.ok (Invocation.mk ..) = _
  rw [hc]
  rfl

end Reading

/-! ### Several arguments -/

/-- The last argument that names the field. -/
def lastNaming (arguments : List String) (field : String) : Option String :=
  (arguments.filter (Names · field)).getLast?

/-- **What is seen for a field**: the value of the last argument that names it, or else the known one. -/
def Sees (arguments : List String) (known : Facts) (field value : String) : Prop :=
  match lastNaming arguments field with
  | some a => Gives a field value
  | none => known.get? field = some value

section Seeing

variable {arguments later : List String} {known : Facts} {a field value : String}

theorem lastNaming_append : lastNaming (arguments ++ later) field
    = (lastNaming later field).or (lastNaming arguments field) := by
  rw [lastNaming, List.filter_append, List.getLast?_append]
  rfl

theorem lastNaming_singleton_of_names (h : Names a field) : lastNaming [a] field = some a := by
  have hfilter : [a].filter (Names · field) = [a] := List.filter_cons_of_pos (decide_eq_true h)
  rw [lastNaming, hfilter, List.getLast?_singleton]

theorem lastNaming_singleton_of_not_names (h : ¬ Names a field) : lastNaming [a] field = none := by
  have hfilter : [a].filter (Names · field) = [] :=
    List.filter_cons_of_neg fun hnames => h (of_decide_eq_true hnames)
  rw [lastNaming, hfilter, List.getLast?_nil]

/-- **An argument that a later one overrides** is not the last one for any field. -/
theorem lastNaming_cons_of_overridden (h : Names a field → ∃ a' ∈ later, Names a' field) :
    lastNaming (a :: later) field = lastNaming later field := by
  rw [← List.singleton_append, lastNaming_append]
  by_cases hnames : Names a field
  · obtain ⟨a', hmem, ha'⟩ := h hnames
    -- the later one is found, and the first one does not matter
    have hlast : lastNaming later field ≠ none := by
      rw [lastNaming, ne_eq, List.getLast?_eq_none_iff]
      exact List.ne_nil_of_mem (List.mem_filter.mpr ⟨hmem, decide_eq_true ha'⟩)
    obtain ⟨last, hlast⟩ := Option.ne_none_iff_exists'.mp hlast
    rw [hlast, Option.some_or]
  · rw [lastNaming_singleton_of_not_names hnames, Option.or_none]

/-- **Facts are inserted so that the last argument counts.** -/
theorem Facts.get?_insertAll_eq_some_iff :
    (known.insertAll (arguments.filterMap factOf?)).get? field = some value
      ↔ Sees arguments known field value := by
  induction arguments using List.reverseRec with
  | nil => exact Iff.rfl
  | append_singleton arguments a ih =>
    rw [List.filterMap_append]
    -- the last argument is inserted last, so what it says of the field counts
    cases hfact : factOf? a with
    | none =>
      have hnames : ¬ Names a field := fun h => nomatch hfact ▸ names_iff.mp h
      rw [Sees, lastNaming_append, lastNaming_singleton_of_not_names hnames, Option.none_or,
        List.filterMap_cons_none hfact, List.filterMap_nil, List.append_nil]
      exact ih
    | some fact =>
      obtain ⟨name, last⟩ := fact
      have hnames : Names a field ↔ name = field := by
        rw [names_iff, hfact, Option.map_some, Option.some_inj]
      rw [List.filterMap_cons_some hfact, List.filterMap_nil, Facts.insertAll, List.foldl_append,
        List.foldl_cons, List.foldl_nil, Facts.get?_insert]
      rw [Sees, lastNaming_append]
      by_cases hname : name = field
      · -- it names the field, and so is the last to do so
        rw [lastNaming_singleton_of_names (hnames.mpr hname), Option.some_or, if_pos hname.symm,
          Option.some_inj]
        have hgives : Gives a field value ↔ last = value := by
          rw [← factOf?_eq_some_iff, hfact, Option.some_inj, Prod.mk.injEq, and_iff_right hname]
        exact hgives.symm
      · -- it names another field, and leaves this one as it was
        rw [lastNaming_singleton_of_not_names (mt hnames.mp hname), Option.none_or,
          if_neg (Ne.symm hname)]
        exact ih

end Seeing

end Junction
