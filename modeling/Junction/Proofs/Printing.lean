import Junction.Proofs.Commands
import Junction.Proofs.Json.ReadBack
import Junction.Proofs.Reading.Built
import Junction.Proofs.RoundTrip

/-!
# Trees printed as JSON

Nothing of a tree is lost when it is printed as JSON (`answer_tree_json`): the text reads back as the JSON of
the tree, and no other tree that was read has the same.

Operators and operands are both written as texts, and an operand of other keywords may read `AND`. So an
element is not known by its JSON alone. What tells a term from an operator is its place, since the elements
of a tree that was read alternate (`Tree.Alternates.eq_of_elementsJson_eq`); and a term is known by its JSON,
a leaf from a group since no leaf is written as a list (`Element.eq_of_toJson_eq`).
-/

namespace Junction

variable {α : Type} {leafJson : α → Json}

theorem Operator.text_inj {o o' : Operator} : o.text = o'.text ↔ o = o' := by
  refine ⟨fun h => ?_, congrArg text⟩
  cases o <;> cases o' <;> first | rfl | exact absurd h (by decide)

/-- **Trees that alternate are told apart** as soon as their terms are. -/
theorem Tree.Alternates.eq_of_elementsJson_eq {t u : Tree α} (ht : t.Alternates) (hu : u.Alternates)
    (hterms : ∀ e ∈ t, ∀ e' ∈ u, e.isOperator = false → e'.isOperator = false →
      e.toJson leafJson = e'.toJson leafJson → e = e')
    (h : t.elementsJson leafJson = u.elementsJson leafJson) : t = u := by
  induction ht generalizing u with
  | @term e he =>
    cases hu with
    | @term e' he' =>
      have hterm := (List.cons.inj h).1
      rw [hterms e List.mem_cons_self e' List.mem_cons_self he he' hterm]
    | join he' hu => cases (List.cons.inj h).2
  | @join e o t he _ ih =>
    cases hu with
    | term he' => cases (List.cons.inj h).2
    | @join e' o' u he' hu =>
      obtain ⟨hterm, hlater⟩ := List.cons.inj h
      -- both second elements are operators, by their place, whatever their texts are
      obtain ⟨hoperator, hlater⟩ := List.cons.inj hlater
      have ho : o = o' := Operator.text_inj.mp (Json.text.inj hoperator)
      have hrest : t = u := ih hu
        (fun x hx x' hx' => hterms x (by simp [hx]) x' (by simp [hx'])) hlater
      rw [hterms e List.mem_cons_self e' List.mem_cons_self he he' hterm, ho, hrest]

section Leaves

variable (hinj : ∀ a b, leafJson a = leafJson b → a = b)
  (hlist : ∀ a items, leafJson a ≠ .list items)

include hinj hlist

/-- **Terms are told apart** if leaves are, and if no leaf is written as a list. -/
theorem Element.eq_of_toJson_eq {e e' : Element α} (he : e.WellFormed) (he' : e'.WellFormed)
    (hterm : e.isOperator = false) (hterm' : e'.isOperator = false)
    (h : e.toJson leafJson = e'.toJson leafJson) : e = e' := by
  -- a leaf is never printed as a list, and a group always is
  induction e using Element.induct generalizing e' with
  | leaf a =>
    cases e' with
    | leaf b => exact congrArg Element.leaf (hinj a b h)
    | operator o => cases hterm'
    | group g => exact absurd h (hlist a _)
  | operator o => cases hterm
  | group g ih =>
    cases e' with
    | leaf b => exact absurd h.symm (hlist b _)
    | operator o => cases hterm'
    | group g' =>
      have hinner := he.of_group.inner
      have hinner' := he'.of_group.inner
      refine congrArg Element.group
        (he.alternates.eq_of_elementsJson_eq he'.alternates ?_ (Json.list.inj h))
      exact fun x hx x' hx' hop hop' => ih x hx (hinner x hx) (hinner' x' hx') hop hop'

theorem Tree.WellFormed.eq_of_elementsJson_eq {t u : Tree α} (ht : t.WellFormed) (hu : u.WellFormed)
    (h : t.elementsJson leafJson = u.elementsJson leafJson) : t = u := by
  cases t with
  | nil =>
    cases u with
    | nil => rfl
    | cons e u => cases h
  | cons e t =>
    cases u with
    | nil => cases h
    | cons e' u =>
      -- in both trees terms and operators take turns, so they stand at the same places
      refine (ht.alternates nofun).eq_of_elementsJson_eq (hu.alternates nofun) ?_ h
      exact fun x hx x' hx' hop hop' =>
        Element.eq_of_toJson_eq hinj hlist (ht.inner x hx) (hu.inner x' hx') hop hop'

end Leaves

/-- A leaf is known by its JSON, which is no list. -/
theorem Form.leafJson_inj (f : Form) :
    (∀ a b, f.leafJson a = f.leafJson b → a = b) ∧ ∀ a items, f.leafJson a ≠ .list items := by
  cases f with
  | operands => exact ⟨fun _ _ h => Json.text.inj h, nofun⟩
  | conditions =>
    refine ⟨fun c c' h => ?_, nofun⟩
    -- the object has all three parts as fields
    obtain ⟨left, operator, right⟩ := c
    obtain ⟨left', operator', right'⟩ := c'
    cases h
    rfl

/-- **A tree that is well formed is known by its JSON.** -/
theorem Tree.WellFormed.eq_of_treeJson_eq {f : Form} {t u : Tree f.Leaf} (ht : t.WellFormed)
    (hu : u.WellFormed) (h : f.treeJson t = f.treeJson u) : t = u :=
  ht.eq_of_elementsJson_eq f.leafJson_inj.1 f.leafJson_inj.2 hu (Json.list.inj h)

/-- What the command prints of a tree, if it prints JSON. -/
theorem answer_tree_json_iff {f : Form} {i : Invocation} {settings : Settings} {printed : String}
    (htree : i.command = .tree) (hf : i.form = f) (hjson : i.format.getD settings.output = .json) :
    i.answer settings = .ok printed
      ↔ ∃ t, parseTree f settings.keywords i.expression = .ok t ∧ (f.treeJson t).pretty = printed := by
  subst hf
  have hanswer : { i with command := .tree } = i := by rw [← htree]
  rw [← hanswer, Invocation.answer_tree_iff, hjson]
  rfl

/-- **JSON loses nothing.** Let two expressions be given in the same form, under any settings. If their trees
are printed as JSON and the texts are the same, then so are the trees. The text reads back as the JSON of the
tree. -/
theorem answer_tree_json {f : Form} {i i' : Invocation} {settings settings' : Settings}
    {printed : String}
    (htree : i.command = .tree) (hf : i.form = f) (hjson : i.format.getD settings.output = .json)
    (htree' : i'.command = .tree) (hf' : i'.form = f) (hjson' : i'.format.getD settings'.output = .json)
    (h : i.answer settings = .ok printed) (h' : i'.answer settings' = .ok printed) :
    ∃ t : Tree f.Leaf, parseTree f settings.keywords i.expression = .ok t
      ∧ parseTree f settings'.keywords i'.expression = .ok t
      ∧ Json.read? printed = some (f.treeJson t) := by
  obtain ⟨t, ht, hprinted⟩ := (answer_tree_json_iff htree hf hjson).mp h
  obtain ⟨t', ht', hprinted'⟩ := (answer_tree_json_iff htree' hf' hjson').mp h'
  have hsame : f.treeJson t = f.treeJson t' := Json.pretty_inj.mp (hprinted.trans hprinted'.symm)
  obtain rfl : t = t' :=
    (wellFormed_of_parseTree ht).eq_of_treeJson_eq (wellFormed_of_parseTree ht') hsame
  exact ⟨t, ht, ht', hprinted ▸ Json.read?_pretty _⟩

/-- Keywords in small letters, which are none of the texts of the operators. -/
def Keywords.quantifiers : Keywords := ⟨"all", "any", by decide⟩

/-- An operand reads like the operator behind it. Its place tells them apart, under either keywords. -/
theorem answer_tree_json_renamed :
    Invocation.answer ⟨.tree, "AND && b", false, [], none, none⟩ ⟨.symbols, .empty, .json⟩
        = .ok "[\n  \"AND\",\n  \"AND\",\n  \"b\"\n]"
      ∧ Invocation.answer ⟨.tree, "AND all b", false, [], none, some .json⟩ ⟨.quantifiers, .empty, .text⟩
        = .ok "[\n  \"AND\",\n  \"AND\",\n  \"b\"\n]"
      ∧ ∃ t : Tree String, parseTree .operands .symbols "AND && b" = .ok t
        ∧ parseTree .operands .quantifiers "AND all b" = .ok t
        ∧ Json.read? "[\n  \"AND\",\n  \"AND\",\n  \"b\"\n]" = some (Form.operands.treeJson t) := by
  have hprinted : (Form.operands.treeJson [.leaf "AND", .operator .and, .leaf "b"]).pretty
      = "[\n  \"AND\",\n  \"AND\",\n  \"b\"\n]" := by decide
  -- under neither pair of keywords is the first word one
  have hleaf : (Reader.start "AND && b".toList).Moves .operands .symbols (.leaf "AND")
      ⟨.done, 0, some ' ', "&& b".toList⟩ := Reader.step_eq_event_iff.mp rfl
  have hand : (Reader.mk .done 0 (some ' ') "&& b".toList).Moves .operands .symbols (.operator .and)
      ⟨.due, 0, some '&', " b".toList⟩ := Reader.step_eq_event_iff.mp rfl
  have hlast : (Reader.mk .due 0 (some '&') " b".toList).Moves .operands .symbols (.leaf "b")
      ⟨.done, 0, some 'b', []⟩ := Reader.step_eq_event_iff.mp rfl
  have hparse : parseTree .operands .symbols "AND && b"
      = .ok [.leaf "AND", .operator .and, .leaf "b"] := by
    rw [parseTree_eq_ok_iff, readExpression_eq_iff, Reader.run_of_moves hleaf, Reader.run_of_moves hand,
      Reader.run_of_moves hlast, Reader.run_eq]
    rfl
  have hleaf' : (Reader.start "AND all b".toList).Moves .operands .quantifiers (.leaf "AND")
      ⟨.done, 0, some ' ', "all b".toList⟩ := Reader.step_eq_event_iff.mp rfl
  have hand' : (Reader.mk .done 0 (some ' ') "all b".toList).Moves .operands .quantifiers (.operator .and)
      ⟨.due, 0, some 'l', " b".toList⟩ := Reader.step_eq_event_iff.mp rfl
  have hlast' : (Reader.mk .due 0 (some 'l') " b".toList).Moves .operands .quantifiers (.leaf "b")
      ⟨.done, 0, some 'b', []⟩ := Reader.step_eq_event_iff.mp rfl
  have hparse' : parseTree .operands .quantifiers "AND all b"
      = .ok [.leaf "AND", .operator .and, .leaf "b"] := by
    rw [parseTree_eq_ok_iff, readExpression_eq_iff, Reader.run_of_moves hleaf', Reader.run_of_moves hand',
      Reader.run_of_moves hlast', Reader.run_eq]
    rfl
  have hanswer : Invocation.answer ⟨.tree, "AND && b", false, [], none, none⟩ ⟨.symbols, .empty, .json⟩
      = .ok "[\n  \"AND\",\n  \"AND\",\n  \"b\"\n]" :=
    (answer_tree_json_iff (f := .operands) rfl rfl rfl).mpr ⟨_, hparse, hprinted⟩
  have hanswer' : Invocation.answer ⟨.tree, "AND all b", false, [], none, some .json⟩
      ⟨.quantifiers, .empty, .text⟩ = .ok "[\n  \"AND\",\n  \"AND\",\n  \"b\"\n]" :=
    (answer_tree_json_iff (f := .operands) rfl rfl rfl).mpr ⟨_, hparse', hprinted⟩
  refine ⟨hanswer, hanswer', ?_⟩
  exact answer_tree_json (f := .operands) rfl rfl rfl rfl rfl rfl hanswer hanswer'

end Junction
