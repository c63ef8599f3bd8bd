import Junction.Proofs.Reading.Built
import Junction.Proofs.Reading.ConditionEnds

/-!
# The leaves that are read

Where a term may come, the reader does not stand between two word characters (`Reader.Apart`): after a
parenthesis or at the beginning there is no word character in front, and a keyword is a whole word.
So the text of each operand that is read stands alone (`standing_of_mem_leaves`). The operator of
each condition that is read is that of a comparison (`exists_comparison_of_mem_leaves`).
-/

namespace Junction

open Text

variable {f : Form} {k : Keywords}

/-- What is read as a leaf where leaves are operands is an operand. -/
theorem Form.operand?_of_readLeaf {lexicon : Lexicon} {prev : Option Char} {cs : List Char}
    {l : Lexeme String} (h : Form.readLeaf .operands lexicon prev cs = .read l) :
    operand? lexicon prev cs = some l := by
  rw [readLeaf] at h
  split at h
  · rename_i operand ho
    rw [ho, Reading.read.inj h]
  · cases h

/-- A leaf does not end between two word characters. -/
theorem Form.cut_of_readLeaf {prev : Option Char} {cs : List Char} {l : Lexeme f.Leaf}
    (h : f.readLeaf k.lexicon prev cs = .read l) : Cut l.taken l.rest := by
  cases f with
  | conditions => exact cut_of_readCondition h
  | operands =>
    have ho := operand?_of_readLeaf h
    exact Operand.apart_of_run (readsFrom_of_operand? ho).taken_ne_nil (Operand.run_of_operand? ho).1

namespace Reader

/-- **Where a term may come, the reader does not stand between two word characters.** -/
def Apart (r : Reader) : Prop :=
  r.stage ≠ .done → r.prev.any isWord = true → r.rest.head?.any isWord = false

theorem apart_start (cs : List Char) : (start cs).Apart := fun _ h => nomatch h

/-- **No event ends between two word characters.** -/
theorem Moves.apart {r next : Reader} {e : Event f.Leaf} (hm : r.Moves f k e next)
    (hp : next.prev.any isWord = true) : next.rest.head?.any isWord = false := by
  cases hm with
  | openGroup _ _ =>
    rw [Option.any_some, show isWord '(' = false from by decide] at hp
    cases hp
  | closeGroup _ _ _ _ =>
    rw [Option.any_some, show isWord ')' = false from by decide] at hp
    cases hp
  | operator _ ho => exact (Lexicon.whole_of_operator? ho).2 hp
  | leaf _ _ _ hl => exact Form.cut_of_readLeaf hl hp

/-- A move keeps the reader so. -/
theorem Apart.moves {r next : Reader} {e : Event f.Leaf} (hm : r.Moves f k e next) :
    next.Apart := fun _ => hm.apart

/-- Skipping white space keeps the reader so. -/
theorem Apart.behind {r : Reader} (h : r.Apart) (hs : r.stage ≠ .done)
    (hw : r.behind.any isWord = true) : r.ahead.head?.any isWord = false := by
  have hsplit := r.takeWhile_append_ahead
  rw [Reader.behind, prevAfterBlank] at hw
  cases hb : (r.rest.takeWhile isBlank).getLast? with
  | none =>
    rw [List.getLast?_eq_none_iff.mp hb, List.nil_append] at hsplit
    rw [hb, Option.none_or] at hw
    rw [hsplit]
    exact h hs hw
  | some c =>
    -- what stands in front is white space then
    have hmem : isBlank c = true := isBlank_of_mem_takeWhile c (List.mem_of_getLast? hb)
    rw [hb, Option.some_or, Option.any_some, isWord_eq_false_of_isBlank hmem] at hw
    cases hw

/-- The point after the operand `l` that is read at `r`. -/
def afterOperand (r : Reader) (l : Lexeme String) : Reader := ⟨.done, r.depth, l.taken.getLast?, l.rest⟩

/-- **An operand is read** where a term may come. -/
theorem moves_operand {r : Reader} {l : Lexeme String} (hs : r.stage ≠ .done)
    (hl : operand? k.lexicon r.behind r.ahead = some l) :
    Moves .operands k r (.leaf l.value) (r.afterOperand l) := by
  have hreads := readsFrom_of_operand? hl
  cases ha : r.ahead with
  | nil =>
    rw [ha] at hreads
    exact absurd hreads.length_rest_lt (Nat.not_lt_zero _)
  | cons c cs =>
    refine .leaf (f := .operands) hs ha ?_ ?_
    · -- an operand does not begin with a parenthesis
      rintro rfl
      rw [ha] at hl
      cases hl
    · rw [Form.readLeaf, ← ha, hl]

/-- Where an operand has been read, it was read off the text ahead. -/
theorem Moves.exists_operand {r next : Reader} {a : String} (hm : Moves .operands k r (.leaf a) next) :
    ∃ l, operand? k.lexicon r.behind r.ahead = some l ∧ l.value = a ∧ next = r.afterOperand l := by
  cases hm with
  | @leaf l c cs _ ha _ hl => exact ⟨l, by rw [ha]; exact Form.operand?_of_readLeaf hl, rfl, rfl⟩

/-- **Each leaf of a run was read** from a text with no white space in front and not between two word
characters. -/
theorem exists_reads_of_mem_run {r : Reader} (h : r.Apart) {a : f.Leaf}
    (ha : .leaf a ∈ (r.run f k).1) :
    ∃ prev c cs l, isBlank c = false ∧ (prev.any isWord = true → isWord c = false)
      ∧ f.readLeaf k.lexicon prev (c :: cs) = .read l ∧ l.value = a := by
  have hrun := run_induct (f := f) (k := k)
    (motive := fun r events _ => r.Apart → .leaf a ∈ events →
      ∃ prev c cs l, isBlank c = false ∧ (prev.any isWord = true → isWord c = false)
        ∧ f.readLeaf k.lexicon prev (c :: cs) = .read l ∧ l.value = a)
    (fun r ending _ _ ha => nomatch ha) (fun r e next events ending hm ih h ha => ?_) r
  · exact hrun h ha
  · -- the leaf is the first event, or one of those after the move
    rcases List.mem_cons.mp ha with he | ha
    · cases hm with
      | openGroup _ _ => cases he
      | operator _ _ => cases he
      | closeGroup _ _ _ _ => cases he
      | @leaf l c cs hs hahead _ hreads =>
        refine ⟨r.behind, c, cs, l, ?_, fun hw => ?_, hreads, (Event.leaf.inj he).symm⟩
        · exact isBlank_of_skipBlank_eq hahead
        · have hnext := h.behind hs hw
          rw [hahead] at hnext
          exact hnext
    · exact ih (Apart.moves hm) ha

end Reader

/-! ### The leaves of a tree that is read -/

theorem Tree.mem_events {α : Type} {t : Tree α} {x : Event α} :
    x ∈ t.events ↔ ∃ e ∈ t, x ∈ e.events := by
  induction t with
  | nil => simp
  | cons e t ih => simp [ih]

/-- The leaves of an element are among its events. -/
theorem Element.leaf_mem_events {α : Type} {e : Element α} {a : α} (h : a ∈ e.leaves) :
    .leaf a ∈ e.events := by
  induction e using Element.induct with
  | leaf b =>
    obtain rfl := List.mem_singleton.mp h
    exact List.mem_singleton.mpr rfl
  | operator o => cases h
  | group g ih =>
    obtain ⟨e, he, ha⟩ := Tree.mem_leaves.mp h
    have hg : .leaf a ∈ Tree.events g := Tree.mem_events.mpr ⟨e, he, ih e he ha⟩
    exact List.mem_cons_of_mem _ (List.mem_append_left _ hg)

variable {input : String}

/-- **Each leaf of a tree that is read was read** from such a text. -/
theorem exists_reads_of_mem_leaves {t : Tree f.Leaf} (h : parseTree f k input = .ok t)
    {a : f.Leaf} (ha : a ∈ t.leaves) :
    ∃ prev c cs l, isBlank c = false ∧ (prev.any isWord = true → isWord c = false)
      ∧ f.readLeaf k.lexicon prev (c :: cs) = .read l ∧ l.value = a := by
  have hevents : ((Reader.start input.toList).run f k).1 = t.events :=
    congrArg Outcome.events (parseTree_eq_ok_iff.mp h)
  obtain ⟨e, he, hea⟩ := Tree.mem_leaves.mp ha
  refine Reader.exists_reads_of_mem_run (Reader.apart_start input.toList) ?_
  rw [hevents]
  exact Tree.mem_events.mpr ⟨e, he, Element.leaf_mem_events hea⟩

/-- **The text of an operand of a tree that is read stands alone.** -/
theorem standing_of_mem_leaves {t : Tree String} (h : parseTree .operands k input = .ok t) :
    ∀ a ∈ t.leaves, Operand.Standing k.lexicon a.toList := by
  intro a ha
  obtain ⟨prev, c, cs, l, hc, hprev, hreads, rfl⟩ := exists_reads_of_mem_leaves (f := .operands) h ha
  exact Operand.standing_of_operand? (Form.operand?_of_readLeaf hreads) hc hprev

/-- **The operator of a condition of a tree that is read** is that of a comparison. -/
theorem exists_comparison_of_mem_leaves {t : Tree Condition}
    (h : parseTree .conditions k input = .ok t) :
    ∀ c ∈ t.leaves, ∃ o : Comparison, c.operator = o.text := by
  intro c hc
  obtain ⟨prev, ch, cs, l, -, -, hreads, rfl⟩ :=
    exists_reads_of_mem_leaves (f := .conditions) h hc
  obtain ⟨left, operator, right, -, -, -, hl⟩ := exists_of_readCondition hreads
  exact ⟨operator.value, by rw [hl]⟩

end Junction
