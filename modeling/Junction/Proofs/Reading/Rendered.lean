import Junction.Proofs.Reading.Leaves
import Junction.Tree.Render

/-!
# Trees read back from their text

In the text of a tree each term stands in front of the end, of a closing parenthesis, or of an
operator between two blanks (`TermEnd`), and behind no word character. There the reader does not see
what stands further on, so what it reads a term as depends on the term only, and is put together
from what it reads the parts as: `Spells` says that a text is read as given events there, just if
some proposition holds, and it goes through groups and operators (`Spells.group`, `Spells.join`).

Hence `parseTree_render_iff`: **a tree is read back from its text** just if each of its leaves is.
An operand is if its text stands alone (`readsBack_operand`), and a condition is unless it swallows
its `NOT` (`readsBack_condition`).
-/

namespace Junction

open Text

variable {f : Form} {u : List Char}

/-- What stands behind a term in the text of a tree. -/
inductive TermEnd : List Char → Prop
  | nil : TermEnd []
  | close (cs : List Char) : TermEnd (')' :: cs)
  | operator (o : Operator) (cs : List Char) : TermEnd (' ' :: (o.text.toList ++ ' ' :: cs))

theorem TermEnd.seam (h : TermEnd u) : Seam u := by
  cases h with
  | nil => exact .nil
  | close cs => exact .cons (by decide) cs
  | operator o cs => exact .cons (by decide) _

/-! ### Steps in the text of a tree -/

namespace Reader

theorem run_openGroup (depth : Nat) (prev : Option Char) (cs : List Char) :
    run f .standard ⟨.due, depth, prev, '(' :: cs⟩
      = (.openGroup :: (run f .standard ⟨.due, depth + 1, some '(', cs⟩).1,
        (run f .standard ⟨.due, depth + 1, some '(', cs⟩).2) :=
  run_open (b := []) (List.forall_mem_nil _) (by exact nofun) depth prev

theorem run_closeGroup (depth : Nat) (prev : Option Char) (cs : List Char) :
    run f .standard ⟨.done, depth + 1, prev, ')' :: cs⟩
      = (.closeGroup :: (run f .standard ⟨.done, depth, some ')', cs⟩).1,
        (run f .standard ⟨.done, depth, some ')', cs⟩).2) :=
  run_close (b := []) (List.forall_mem_nil _) depth prev

theorem run_operator (o : Operator) (depth : Nat) (prev : Option Char) (cs : List Char) :
    run f .standard ⟨.done, depth, prev, ' ' :: (o.text.toList ++ ' ' :: cs)⟩
      = (.operator o :: (run f .standard ⟨.due, depth, some ' ', cs⟩).1,
        (run f .standard ⟨.due, depth, some ' ', cs⟩).2) := by
  have hword : sameCaseless o.text.toList (Keywords.standard.keyword o).toList = true := by
    cases o <;> decide
  -- the blank behind the keyword is left, and the next term skips it
  have hread : run f .standard ⟨.done, depth, prev, [' '] ++ (o.text.toList ++ ' ' :: cs)⟩
      = (.operator o :: (run f .standard ⟨.due, depth, o.text.toList.getLast?, ' ' :: cs⟩).1,
        (run f .standard ⟨.due, depth, o.text.toList.getLast?, ' ' :: cs⟩).2) :=
    run_keyword hword isBlank_of_mem_space rfl (.cons (by decide) cs) depth
  rw [List.singleton_append] at hread
  rw [hread, show ' ' :: cs = [' '] ++ cs from rfl, run_blank isBlank_of_mem_space]
  rfl

/-- Behind a term of such a text it does not matter how the term ends. -/
theorem run_termEnd (hu : TermEnd u) (depth : Nat) (prev : Option Char) :
    run f .standard ⟨.done, depth, prev, u⟩ = run f .standard ⟨.done, depth, none, u⟩ := by
  cases hu with
  | nil => exact run_congr rfl
  | operator o cs => rw [run_operator, run_operator]
  | close cs =>
    -- a parenthesis is no operator, whatever stands before it
    have hstep : ∀ p, (Reader.mk .done depth p (')' :: cs)).step f .standard
        = stepAfterTerm f.Leaf Keywords.standard.lexicon depth p (')' :: cs) :=
      fun p => step_afterTerm rfl rfl
    refine run_congr ?_
    rw [hstep, hstep]
    unfold stepAfterTerm
    rw [Lexicon.operator?_seam (.cons (by decide) cs), Lexicon.operator?_seam (.cons (by decide) cs)]

end Reader

/-! ### Texts and what they are read as -/

/-- **In the text of a tree `cs` is read as `events`**, just if `P` holds; then what follows is read as it
would be alone. -/
def Spells (f : Form) (cs : List Char) (events : List (Event f.Leaf)) (P : Prop) : Prop :=
  ∀ u, TermEnd u → ∀ depth prev later ending, prev.any isWord = false →
    (Reader.run f .standard ⟨.due, depth, prev, cs ++ u⟩ = (events ++ later, ending)
      ↔ P ∧ Reader.run f .standard ⟨.done, depth, none, u⟩ = (later, ending))

namespace Spells

variable {cs cs' : List Char} {events events' : List (Event f.Leaf)} {P Q : Prop}

/-- A run that begins with an event goes on as the rest of the run does. -/
theorem cons_eq_iff {e : Event f.Leaf} {r : List (Event f.Leaf) × Ending} {ending : Ending} :
    (e :: r.1, r.2) = (e :: events, ending) ↔ r = (events, ending) := by
  obtain ⟨later, ending'⟩ := r
  simp

/-- **A text in parentheses** is read as a group of what it is read as. -/
theorem group (h : Spells f cs events P) :
    Spells f ('(' :: cs ++ [')']) (.openGroup :: events ++ [.closeGroup]) P := by
  intro u hu depth prev later ending _
  -- inside the group the text stands in front of the closing parenthesis
  have hcs : '(' :: cs ++ [')'] ++ u = '(' :: (cs ++ ')' :: u) := by simp
  have hevents : .openGroup :: events ++ [.closeGroup] ++ later
      = .openGroup :: (events ++ .closeGroup :: later) := by simp
  rw [hcs, hevents, Reader.run_openGroup, cons_eq_iff, h _ (.close u) _ _ _ _ rfl,
    Reader.run_closeGroup, cons_eq_iff, Reader.run_termEnd hu]

/-- **Texts joined by an operator** are read as what they are read as, joined by it. -/
theorem join (h : Spells f cs events P) (o : Operator) (h' : Spells f cs' events' Q) :
    Spells f (cs ++ ' ' :: (o.text.toList ++ ' ' :: cs')) (events ++ .operator o :: events')
      (P ∧ Q) := by
  intro u hu depth prev later ending hprev
  -- the first text stands in front of the operator, the second in front of what follows both
  have hcs : cs ++ ' ' :: (o.text.toList ++ ' ' :: cs') ++ u
      = cs ++ ' ' :: (o.text.toList ++ ' ' :: (cs' ++ u)) := by simp
  have hevents : events ++ .operator o :: events' ++ later
      = events ++ .operator o :: (events' ++ later) := by simp
  rw [hcs, hevents, h _ (.operator o _) _ _ _ _ hprev, Reader.run_operator, cons_eq_iff,
    h' u hu _ _ _ _ rfl, and_assoc]

theorem congr (h : Spells f cs events P) (hPQ : P ↔ Q) : Spells f cs events Q := by
  intro u hu depth prev later ending hprev
  rw [h u hu _ _ _ _ hprev, hPQ]

end Spells

/-! ### Trees -/

section Trees

variable {P : f.Leaf → Prop}

/-- If each term of a tree that alternates is read as its events, so is the tree. -/
theorem Tree.Alternates.spells {t : Tree f.Leaf} (h : t.Alternates)
    (ht : ∀ e ∈ t, e.isOperator = false →
      Spells f (e.render f.leafText) e.events (∀ a ∈ e.leaves, P a)) :
    Spells f (Tree.render f.leafText t) t.events (∀ a ∈ t.leaves, P a) := by
  induction h with
  | @term e he =>
    rw [Tree.render_singleton, Tree.events_cons, Tree.events_nil, List.append_nil,
      Tree.leaves_cons, Tree.leaves_nil, List.append_nil]
    exact ht e List.mem_cons_self he
  | @join e o t he halt ih =>
    have hrender : Tree.render f.leafText (e :: .operator o :: t)
        = e.render f.leafText ++ ' ' :: (o.text.toList ++ ' ' :: Tree.render f.leafText t) := by
      obtain ⟨e', t', rfl⟩ := List.exists_cons_of_ne_nil halt.ne_nil
      rfl
    -- the hypothesis is about what follows the operator, and any text may follow a term there
    have hfirst := ht e List.mem_cons_self he
    have hlater := ih fun e' he' =>
      ht e' (List.mem_cons_of_mem _ (List.mem_cons_of_mem _ he'))
    rw [hrender]
    refine (hfirst.join o hlater).congr ?_
    simp only [Tree.leaves_cons, Element.leaves, List.nil_append, List.forall_mem_append]

/-- **A term is read as its events** if its leaves are. -/
theorem Element.WellFormed.spells {e : Element f.Leaf} (h : e.WellFormed)
    (he : e.isOperator = false)
    (hl : ∀ a ∈ e.leaves, Spells f (f.leafText a).toList [.leaf a] (P a)) :
    Spells f (e.render f.leafText) e.events (∀ a ∈ e.leaves, P a) := by
  induction h with
  | leaf a =>
    refine (hl a (List.mem_singleton.mpr rfl)).congr ?_
    simp only [Element.leaves, List.mem_singleton, forall_eq]
  | operator o => cases he
  | @group g halt _ ih =>
    have hg := halt.spells (P := P) fun e' he' ho =>
      ih e' he' ho fun a ha => hl a (Tree.mem_leaves.mpr ⟨e', he', ha⟩)
    exact hg.group

/-- **A tree is read back from its text** just if its leaves are. -/
theorem parseTree_render_iff {t : Tree f.Leaf} (h : t.WellFormed)
    (hl : ∀ a ∈ t.leaves, Spells f (f.leafText a).toList [.leaf a] (P a)) :
    parseTree f .standard (f.render t) = .ok t ↔ ∀ a ∈ t.leaves, P a := by
  rw [parseTree_eq_ok_iff]
  by_cases hne : t = []
  · -- the empty tree is written as the empty text, which has no events
    subst hne
    have hnil : readExpression f .standard (f.render []) = ⟨[], none⟩ := by
      rw [readExpression, Reader.run_eq]
      rfl
    exact ⟨fun _ => List.forall_mem_nil _, fun _ => hnil⟩
  · -- all the text is read as all the events, which leaves the end of the text to be read
    have hspells := (h.alternates hne).spells (P := P) fun e he ho =>
      (h.inner e he).spells ho fun a ha => hl a (Tree.mem_leaves.mpr ⟨e, he, ha⟩)
    have hrun := hspells [] .nil 0 none [] .complete rfl
    rw [List.append_nil, List.append_nil] at hrun
    have hend : Reader.run f .standard ⟨.done, 0, none, []⟩ = ([], .complete) := by
      rw [Reader.run_eq]
      rfl
    calc readExpression f .standard (f.render t) = ⟨t.events, none⟩
        ↔ Reader.run f .standard ⟨.fresh, 0, none, Tree.render f.leafText t⟩
            = (t.events, .complete) := by
          rw [readExpression_eq_iff, Form.render, String.toList_ofList, Reader.start]
      _ ↔ Reader.run f .standard ⟨.due, 0, none, Tree.render f.leafText t⟩
            = (t.events, .complete) := Reader.run_fresh_iff (Tree.events_ne_nil hne) 0 none _
      _ ↔ (∀ a ∈ t.leaves, P a)
            ∧ Reader.run f .standard ⟨.done, 0, none, []⟩ = ([], .complete) := hrun
      _ ↔ ∀ a ∈ t.leaves, P a := and_iff_left hend

end Trees

/-! ### Leaves -/

/-- **A leaf is read back from its text** just if `P`: `reads` says what is read then, white space
after the text aside, and `only` that nothing else is read as the leaf, no word character being in
front of it. -/
structure Form.ReadsBack (f : Form) (a : f.Leaf) (P : Prop) : Prop where
  head : ∃ c cs, (f.leafText a).toList = c :: cs ∧ isBlank c = false ∧ c ≠ '('
  reads : P → ∀ u prev, TermEnd u → ∃ b v, b ++ v = u ∧ (∀ c ∈ b, isBlank c = true)
    ∧ f.readLeaf Keywords.standard.lexicon prev ((f.leafText a).toList ++ u)
      = .read ⟨a, (f.leafText a).toList ++ b, v⟩
  only : ∀ u prev l, TermEnd u → prev.any isWord = false →
    f.readLeaf Keywords.standard.lexicon prev ((f.leafText a).toList ++ u) = .read l →
      l.value = a → P

namespace Form.ReadsBack

variable {a : f.Leaf} {P : Prop}

/-- The run from the text of a leaf that is read back. -/
theorem run_eq (h : f.ReadsBack a P) (hP : P) (hu : TermEnd u) (depth : Nat)
    (prev : Option Char) :
    Reader.run f .standard ⟨.due, depth, prev, (f.leafText a).toList ++ u⟩
      = (.leaf a :: (Reader.run f .standard ⟨.done, depth, none, u⟩).1,
        (Reader.run f .standard ⟨.done, depth, none, u⟩).2) := by
  obtain ⟨c, cs, htext, hc, hparen⟩ := h.head
  obtain ⟨b, v, rfl, hb, hreads⟩ := h.reads hP u prev hu
  have hmove := (Reader.moves_due_iff (f := f) (k := .standard) hc hparen depth prev
    (cs ++ (b ++ v))).mpr ⟨_, by rw [← List.cons_append, ← htext]; exact hreads, rfl, rfl⟩
  -- the white space in front of what follows is taken with the leaf, or skipped
  have hrest : Reader.run f .standard
      ⟨.done, depth, ((f.leafText a).toList ++ b).getLast?, v⟩
        = Reader.run f .standard ⟨.done, depth, none, b ++ v⟩ := by
    rw [Reader.run_blank hb, List.getLast?_append, Option.or_none]
    cases hlast : b.getLast? with
    | some d => rfl
    | none =>
      rw [List.getLast?_eq_none_iff.mp hlast, List.nil_append] at hu
      exact Reader.run_termEnd hu _ _
  rw [htext, List.cons_append, Reader.run_of_moves hmove, hrest]

/-- **Such a leaf is read as its event.** -/
theorem spells (h : f.ReadsBack a P) : Spells f (f.leafText a).toList [.leaf a] P := by
  intro u hu depth prev later ending hprev
  constructor
  · intro hrun
    -- the first event was read as a leaf, so it is the leaf that the text is read as
    obtain ⟨c, cs, htext, hc, hparen⟩ := h.head
    have hevents := congrArg Prod.fst hrun
    rw [htext, List.cons_append] at hevents
    obtain ⟨next, hmove⟩ := Reader.exists_moves_of_run hevents
    obtain ⟨l, hreads, hl, -⟩ := (Reader.moves_due_iff hc hparen depth prev (cs ++ u)).mp hmove
    rw [← List.cons_append, ← htext] at hreads
    have hP : P := h.only u prev l hu hprev hreads (Event.leaf.inj hl).symm
    rw [h.run_eq hP hu] at hrun
    exact ⟨hP, Spells.cons_eq_iff.mp hrun⟩
  · rintro ⟨hP, hrun⟩
    rw [h.run_eq hP hu, hrun]
    rfl

end Form.ReadsBack

/-- A text that stands alone begins with no white space and no parenthesis. -/
theorem Operand.Standing.exists_head {lexicon : Lexicon} {t : List Char}
    (h : Operand.Standing lexicon t) : ∃ c cs, t = c :: cs ∧ isBlank c = false ∧ c ≠ '(' := by
  obtain ⟨c, cs, htext, hc⟩ := h.head
  refine ⟨c, cs, htext, hc, fun hparen => ?_⟩
  -- an operand stops before a parenthesis
  have hreads := h.reads
  rw [htext, hparen] at hreads
  cases congrArg Prod.fst hreads

/-- **An operand is read back** just if its text stands alone. -/
theorem readsBack_operand {a : String}
    (ha : ∃ c cs, a.toList = c :: cs ∧ isBlank c = false ∧ c ≠ '(') :
    Form.operands.ReadsBack a (Operand.Standing Keywords.standard.lexicon a.toList) where
  head := ha
  only u prev l hu hprev hl hvalue := by
    -- what was read stands alone, as no word character is in front of it
    obtain ⟨c, cs, htext, hc, -⟩ := ha
    change Form.operands.readLeaf _ prev (a.toList ++ u) = .read l at hl
    rw [htext, List.cons_append] at hl
    have hstanding := Operand.standing_of_operand? (Form.operand?_of_readLeaf hl) hc fun hword => by
      rw [hprev] at hword
      cases hword
    rwa [hvalue] at hstanding
  reads h u prev hu := by
    obtain ⟨c, cs, htext, -⟩ := h.head
    obtain ⟨d, hlast, hd⟩ := h.last
    have hrun := h.run_append hu.seam prev
    -- the operand goes on over white space, and ends where it is trimmed to its text again
    have hreads : ∀ b v, (∀ c ∈ b, isBlank c = true) →
        Operand.run Keywords.standard.lexicon (.plain a.toList.getLast?) u = (b, v) →
          Form.operands.readLeaf Keywords.standard.lexicon prev (a.toList ++ u)
            = .read ⟨a, a.toList ++ b, v⟩ := by
      intro b v hb hbv
      have htrim := trimEnd_append hlast hd hb
      rw [hbv, htext] at hrun
      rw [htext] at htrim
      rw [htext, Form.readLeaf, operand?, hrun]
      change Reading.read ⟨String.ofList (trimEnd (c :: cs ++ b)), c :: cs ++ b, v⟩ = _
      rw [htrim, ← htext, String.ofList_toList]
    cases hu with
    | nil => exact ⟨[], [], rfl, List.forall_mem_nil _, hreads [] [] (List.forall_mem_nil _) rfl⟩
    | close cs => exact ⟨[], _, rfl, List.forall_mem_nil _, hreads [] _ (List.forall_mem_nil _) rfl⟩
    | operator o cs =>
      refine ⟨[' '], _, rfl, isBlank_of_mem_space, hreads [' '] _ isBlank_of_mem_space ?_⟩
      cases o <;> rfl

/-- **A condition is read back** unless it swallows its `NOT`. -/
theorem readsBack_condition {c : Condition} {o : Comparison} (ho : c.operator = o.text) :
    Form.conditions.ReadsBack c (c.swallowsNot = false) where
  head := by
    obtain ⟨ch, cs, hfield, hch⟩ := exists_fieldText_eq c.left
    have htext := Condition.text_append c []
    rw [List.append_nil, hfield] at htext
    exact ⟨ch, _, htext, hch⟩
  reads hc u prev hu := by
    refine ⟨[], u, rfl, List.forall_mem_nil _, ?_⟩
    rw [List.append_nil]
    exact Condition.readCondition_text ho hc hu.seam
  only u prev l hu _ hl hvalue := by
    cases hc : c.swallowsNot with
    | false => rfl
    | true =>
      -- it would be read with `IS NOT`, and its own operator is `IS`
      have hnot := Condition.operator_of_swallowsNot hc hu.seam hl
      rw [hvalue] at hnot
      rw [Condition.swallowsNot, hnot] at hc
      cases hc

/-! ### Round trips -/

/-- **A tree of operands is read back from its text** just if each of them stands alone. -/
theorem parseTree_render_operands_iff {t : Tree String} (h : t.WellFormed)
    (hl : ∀ a ∈ t.leaves, ∃ c cs, a.toList = c :: cs ∧ isBlank c = false ∧ c ≠ '(') :
    parseTree .operands .standard (Form.operands.render t) = .ok t
      ↔ ∀ a ∈ t.leaves, Operand.Standing Keywords.standard.lexicon a.toList :=
  parseTree_render_iff (f := .operands) h fun a ha => (readsBack_operand (hl a ha)).spells

theorem parseTree_render_operands {t : Tree String} (h : t.WellFormed)
    (hl : ∀ a ∈ t.leaves, Operand.Standing Keywords.standard.lexicon a.toList) :
    parseTree .operands .standard (Form.operands.render t) = .ok t :=
  (parseTree_render_operands_iff h fun a ha => (hl a ha).exists_head).mpr hl

/-- A text is the one operand of itself just if it stands alone. -/
theorem parseTree_eq_leaf_iff {a : String}
    (ha : ∃ c cs, a.toList = c :: cs ∧ isBlank c = false ∧ c ≠ '(') :
    parseTree .operands .standard a = .ok [.leaf a]
      ↔ Operand.Standing Keywords.standard.lexicon a.toList := by
  have hleaf : Tree.WellFormed [Element.leaf a] :=
    ⟨fun _ => .term rfl, List.forall_mem_singleton.mpr (.leaf a)⟩
  have hiff := parseTree_render_operands_iff hleaf (List.forall_mem_singleton.mpr ha)
  rw [show Form.operands.render [Element.leaf a] = a from String.ofList_toList] at hiff
  exact hiff.trans List.forall_mem_singleton

/-- **A tree of conditions is read back from its text** just if none of them swallows its `NOT`. -/
theorem parseTree_render_conditions_iff {t : Tree Condition} (h : t.WellFormed)
    (hl : ∀ c ∈ t.leaves, ∃ o : Comparison, c.operator = o.text) :
    parseTree .conditions .standard (Form.conditions.render t) = .ok t
      ↔ ∀ c ∈ t.leaves, c.swallowsNot = false := by
  refine parseTree_render_iff (f := .conditions) h fun c hc => ?_
  obtain ⟨o, ho⟩ := hl c hc
  exact (readsBack_condition ho).spells

end Junction
