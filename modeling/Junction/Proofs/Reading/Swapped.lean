import Junction.Proofs.Reading.Built
import Junction.Proofs.Tree.Dual

/-!
# Reading with the keywords exchanged

`Keywords.swap` gives the keyword of `AND` to `OR` and that of `OR` to `AND`. The order in which keywords
are tried is not exchanged with them: the longer comes first, but of two with one size that of `AND` comes
first on either side. This makes no difference, since two keywords of one size are not both found at a
place (`Keywords.keyword?_eq_none_or`): they would differ in case only. So the other operator is found in
the same place (`Lexicon.operator?_swap`).

Nothing else depends on which operator a keyword is for, neither where an operand ends nor where reading
does. Hence a run reads the events with the operators exchanged and ends as before (`Reader.run_swap`), a
text is refused with the same error (`readExpression_swap`), and the tree is the dual one, whatever the
leaf hook does (`parseTreeM_swap`).
-/

namespace Junction

open Text

variable {Leaf α : Type} {m : Type → Type}

/-- An event with its operator exchanged. -/
def Event.dual : Event Leaf → Event Leaf
  | .operator o => .operator o.dual
  | e => e

/-- A lexeme of the other operator. -/
def Lexeme.dual (l : Lexeme Operator) : Lexeme Operator := { l with value := l.value.dual }

/-- A step with its operator exchanged. -/
def Step.dual : Step Leaf → Step Leaf
  | event e next => event e.dual next
  | ends ending => ends ending

/-! ### Keywords -/

namespace Keywords

/-- A pair of words without fault is one in the other order as well. -/
theorem fault?_comm_eq_none {a o : String} (h : fault? a o = none) : fault? o a = none := by
  simp only [fault?, Option.or_eq_none_iff] at h ⊢
  obtain ⟨ha, ho, hsame⟩ := h
  refine ⟨ho, ha, ?_⟩
  -- that the two keywords differ does not depend on their order
  rw [sameCaseless_comm]
  cases hd : sameCaseless a.toList o.toList with
  | true =>
    rw [if_pos hd] at hsame
    cases hsame
  | false => rfl

/-- **The keywords exchanged.** -/
def swap (k : Keywords) : Keywords :=
  ⟨k.disjunction, k.conjunction, fault?_comm_eq_none k.faultless⟩

/-- The pair in the other order passes the check. -/
theorem ofPair_swap (k : Keywords) : ofPair k.disjunction k.conjunction = .ok k.swap := by
  have hnone : fault? k.disjunction k.conjunction = none := fault?_comm_eq_none k.faultless
  unfold ofPair
  split
  · rfl
  · rename_i fault hfault
    rw [hnone] at hfault
    cases hfault

/-- Keywords of one size are not both found at the same place. -/
theorem keyword?_eq_none_or (k : Keywords) (prev : Option Char) (cs : List Char)
    (hsize : k.conjunction.utf8ByteSize = k.disjunction.utf8ByteSize) :
    keyword? k.conjunction.toList prev cs = none ∨ keyword? k.disjunction.toList prev cs = none := by
  cases hc : keyword? k.conjunction.toList prev cs with
  | none => exact .inl rfl
  | some found =>
    cases hd : keyword? k.disjunction.toList prev cs with
    | none => exact .inr rfl
    | some found' =>
      -- both would be the text that stands there, but the keywords of a pair differ
      have hsame := sameCaseless_of_word? (keyword?_eq_some_iff.mp hc).1
        (keyword?_eq_some_iff.mp hd).1 (by rw [String.ofList_toList, String.ofList_toList, hsize])
      rw [k.sameCaseless_eq_false] at hsame
      cases hsame

end Keywords

namespace Lexicon

variable {prev : Option Char} {cs : List Char}

/-- Each keyword with the other operator. -/
def dual (lexicon : Lexicon) : Lexicon := lexicon.map fun (word, o) => (word, o.dual)

/-- The first keyword is looked for, and then the others. -/
theorem operator?_cons (word : List Char) (o : Operator) (lexicon : Lexicon) :
    operator? ((word, o) :: lexicon) prev cs
      = ((keyword? word prev cs).map fun (taken, rest) => ⟨o, taken, rest⟩).or
        (lexicon.operator? prev cs) := by
  simp only [operator?, List.findSome?_cons]
  cases keyword? word prev cs <;> rfl

theorem operator?_dual (lexicon : Lexicon) :
    lexicon.dual.operator? prev cs = (lexicon.operator? prev cs).map Lexeme.dual := by
  induction lexicon with
  | nil => rfl
  | cons entry lexicon ih =>
    obtain ⟨word, o⟩ := entry
    have hdual : dual ((word, o) :: lexicon) = (word, o.dual) :: dual lexicon := rfl
    rw [hdual, operator?_cons, operator?_cons, ih]
    cases keyword? word prev cs <;> rfl

/-- Of two keywords that are not both found, either may be tried first. -/
theorem operator?_pair_comm {v w : List Char} {o p : Operator}
    (h : keyword? v prev cs = none ∨ keyword? w prev cs = none) :
    operator? [(v, o), (w, p)] prev cs = operator? [(w, p), (v, o)] prev cs := by
  rw [operator?_cons, operator?_cons, operator?_cons, operator?_cons]
  rcases h with h | h
  · rw [h]
    cases keyword? w prev cs <;> rfl
  · rw [h]
    cases keyword? v prev cs <;> rfl

/-- **With the keywords exchanged the other operator is found**, in the same place. -/
theorem operator?_swap (k : Keywords) (prev : Option Char) (cs : List Char) :
    k.swap.lexicon.operator? prev cs = (k.lexicon.operator? prev cs).map Lexeme.dual := by
  rw [← operator?_dual]
  unfold Keywords.lexicon
  rcases Nat.lt_trichotomy k.conjunction.utf8ByteSize k.disjunction.utf8ByteSize with
    hlt | heq | hgt
  · -- the longer keyword is tried first on either side
    rw [if_pos hlt, if_neg (by exact Nat.not_lt_of_lt hlt)]
    rfl
  · -- on either side the keyword of `AND` is tried first, which is the other one
    rw [if_neg (Nat.not_lt_of_le (Nat.le_of_eq heq.symm)),
      if_neg (by exact Nat.not_lt_of_le (Nat.le_of_eq heq))]
    exact (operator?_pair_comm (k.keyword?_eq_none_or prev cs heq)).symm
  · rw [if_neg (Nat.not_lt_of_lt hgt), if_pos (by exact hgt)]
    rfl

end Lexicon

/-! ### Runs -/

/-- An operand ends where an operator stands, whichever it is. -/
theorem Operand.run_swap (k : Keywords) (mode : Operand.Mode) (cs : List Char) :
    Operand.run k.swap.lexicon mode cs = Operand.run k.lexicon mode cs := by
  induction cs generalizing mode with
  | nil => cases mode <;> rfl
  | cons c cs ih =>
    cases mode with
    | plain prev => simp only [Operand.run, ih, Lexicon.operator?_swap, Option.isSome_map]
    | quoted d => simp only [Operand.run, ih]
    | escaped d => simp only [Operand.run, ih]

theorem Form.readLeaf_swap (f : Form) (k : Keywords) (prev : Option Char) (cs : List Char) :
    f.readLeaf k.swap.lexicon prev cs = f.readLeaf k.lexicon prev cs := by
  cases f with
  | operands => simp only [Form.readLeaf, operand?, Operand.run_swap]
  | conditions => rfl

namespace Reader

variable (f : Form) (k : Keywords)

/-- No operator is looked for where a term may come, except by an operand that may end there. -/
theorem stepTerm_swap (depth : Nat) (prev : Option Char) (cs : List Char) :
    stepTerm f k.swap.lexicon depth prev cs = (stepTerm f k.lexicon depth prev cs).dual := by
  unfold stepTerm
  split
  · rfl
  · rw [Form.readLeaf_swap]
    split <;> rfl

theorem stepAfterTerm_swap (Leaf : Type) (depth : Nat) (prev : Option Char) (cs : List Char) :
    stepAfterTerm Leaf k.swap.lexicon depth prev cs
      = (stepAfterTerm Leaf k.lexicon depth prev cs).dual := by
  unfold stepAfterTerm
  rw [Lexicon.operator?_swap]
  cases k.lexicon.operator? prev cs with
  | some o => rfl
  | none =>
    simp only [Option.map_none]
    split <;> rfl

/-- **One step with the keywords exchanged** is the same step with the other operator. -/
theorem step_swap (r : Reader) : r.step f k.swap = (r.step f k).dual := by
  unfold step
  split
  · rfl
  · split
    · exact stepAfterTerm_swap k f.Leaf _ _ _
    · exact stepTerm_swap f k _ _ _

/-- **A run with the keywords exchanged** reads the other operators and ends in the same way. -/
theorem run_swap (r : Reader) :
    r.run f k.swap = ((r.run f k).1.map Event.dual, (r.run f k).2) := by
  refine run_induct (f := f) (k := k)
    (motive := fun r events ending => r.run f k.swap = (events.map Event.dual, ending))
    (fun r ending hstep => ?_) (fun r e next events ending hm ih => ?_) r
  · rw [run_eq, step_swap, hstep]
    rfl
  · -- the next reader is the same, so the run goes on from the same point
    rw [run_eq, step_swap, step_eq_event_iff.mpr hm]
    change (e.dual :: (next.run f k.swap).1, (next.run f k.swap).2) = _
    rw [ih]
    rfl

end Reader

/-- **An expression with the keywords exchanged** has the events of the expression with the operators
exchanged, and the same error if it is refused. -/
theorem readExpression_swap (f : Form) (k : Keywords) (input : String) :
    readExpression f k.swap input
      = ⟨(readExpression f k input).events.map Event.dual, (readExpression f k input).error?⟩ := by
  unfold readExpression
  rw [Reader.run_swap]

/-! ### The tree that is built -/

namespace Builder

/-- A tree under construction with the operators in it exchanged. -/
def dual (b : Builder α) : Builder α :=
  ⟨List.map Element.dual b.current, b.outer.map (List.map Element.dual)⟩

theorem closeGroup_dual (b : Builder α) : b.dual.closeGroup = b.closeGroup.dual := by
  obtain ⟨current, outer⟩ := b
  cases outer with
  | nil => rfl
  | cons around outer =>
    -- the open group is kept in reverse, and is turned round on its way into the group around it
    have hgroup : (Element.group current.reverse).dual
        = .group (List.map Element.dual current).reverse :=
      congrArg Element.group (Tree.dual_reverse current)
    rw [closeGroup, closeGroup, dual, dual, List.map_cons, List.map_cons, hgroup]

theorem root_dual (b : Builder α) : b.dual.root = b.root.dual := by
  rw [root, root, Tree.dual_reverse, dual, List.getLast?_map, Option.getD_map]

section Adding

variable [Monad m] [LawfulMonad m] {hook : Leaf → m α}

/-- One more event with the operators exchanged, its leaf put through the hook as before. -/
theorem add_dual (b : Builder α) (e : Event Leaf) :
    b.dual.add hook e.dual = dual <$> b.add hook e := by
  cases e with
  | openGroup => exact (map_pure dual b.openGroup).symm
  | closeGroup =>
    change pure b.dual.closeGroup = dual <$> pure b.closeGroup
    rw [map_pure, closeGroup_dual]
  | operator o => exact (map_pure dual (b.push (.operator o))).symm
  | leaf value =>
    change (do return b.dual.push (.leaf (← hook value)) : m (Builder α)) = _
    rw [add, map_bind]
    simp only [map_pure]
    rfl

theorem foldlM_add_dual (hook : Leaf → m α) (events : List (Event Leaf)) (b : Builder α) :
    (events.map Event.dual).foldlM (add hook) b.dual = dual <$> events.foldlM (add hook) b := by
  induction events generalizing b with
  | nil => exact (map_pure dual b).symm
  | cons e events ih =>
    rw [List.map_cons, List.foldlM_cons, List.foldlM_cons, add_dual, bind_map_left, map_bind]
    exact bind_congr fun b' => ih b'

end Adding

end Builder

/-- **The tree with the keywords exchanged is the dual one**; the leaf hook is run on the same leaves, and
the error of a text that is refused is the same. -/
theorem parseTreeM_swap [Monad m] [LawfulMonad m] (f : Form) (k : Keywords) (hook : f.Leaf → m α)
    (input : String) :
    parseTreeM f k.swap hook input = Except.map Tree.dual <$> parseTreeM f k hook input := by
  have hbuilt := Builder.foldlM_add_dual hook (readExpression f k input).events .empty
  rw [parseTreeM, parseTreeM, readExpression_swap, map_bind]
  -- the two are built side by side from nothing, and the one ends as the dual of the other
  change (List.foldlM (Builder.add hook) Builder.empty.dual _ >>= _) = _
  rw [hbuilt, bind_map_left]
  refine bind_congr fun built => ?_
  cases (readExpression f k input).error? with
  | none =>
    change pure (Except.ok built.dual.root) = Except.map Tree.dual <$> pure (Except.ok built.root)
    rw [map_pure, Builder.root_dual]
    rfl
  | some error => exact (map_pure (Except.map Tree.dual) (Except.error error)).symm

end Junction
