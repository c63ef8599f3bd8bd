import Junction.Proofs.Tree.Evaluation

/-!
# The formula of a tree

A group is read from left to right without precedence: `t₁ o₂ t₂ o₃ t₃` means `(t₁ o₂ t₂) o₃ t₃`. A
`Formula` has these parentheses written, so each operator has two operands, and its value is that of a
conjunction or a disjunction:

* `Formula.evalM` asks about the second operand only where the first one leaves the result open;
* `Formula.value` is the truth value where each leaf has one, both operands looked at.

`Tree.formula?` writes the parentheses. Evaluating a tree, which keeps the value so far, the operator
read last and a flag for the term to pass over, is evaluating its formula
(`Element.WellFormed.exists_formula`): the same leaves are asked about in the same order, whatever the
asking does.
-/

namespace Junction

variable {α : Type} {m : Type → Type}

/-- **A formula**: leaves joined two at a time. -/
inductive Formula (α : Type) where
  | leaf (a : α)
  | join (first : Formula α) (o : Operator) (second : Formula α)

namespace Formula

/-- **The value of a formula.** The second operand of a conjunction is evaluated if the first one is
true, and that of a disjunction if the first one is false. -/
def evalM [Monad m] (ask : α → m Bool) : Formula α → m Bool
  | leaf a => ask a
  | join x .and y => do if ← x.evalM ask then y.evalM ask else return false
  | join x .or y => do if ← x.evalM ask then return true else y.evalM ask

/-- The value of a formula whose leaves have the values `p`, each of them looked at. -/
def value (p : α → Bool) : Formula α → Bool
  | leaf a => p a
  | join x o y => o.apply (x.value p) (y.value p)

end Formula

mutual

/-- The formula of a term. -/
def Element.formula? : Element α → Option (Formula α)
  | .leaf a => some (.leaf a)
  | .operator _ => none
  | .group g => Tree.formula? g
termination_by structural e => e

/-- The formula of what stands after the terms that make up `first`: each next term is joined to all
that comes before it. -/
def Tree.formulaFrom (first : Formula α) : Tree α → Option (Formula α)
  | [] => some first
  | .operator o :: e :: later => do Tree.formulaFrom (.join first o (← e.formula?)) later
  | _ => none
termination_by structural t => t

/-- **The formula of a tree**, if terms and operators alternate in it. -/
def Tree.formula? : Tree α → Option (Formula α)
  | [] => none
  | e :: later => do Tree.formulaFrom (← e.formula?) later
termination_by structural t => t

end

/-! ### Joining -/

namespace Formula

section Joining

variable [Monad m] {ask : α → m Bool}

/-- In either kind of formula the first operand is evaluated, and the second if the first does not
decide. -/
theorem evalM_join (x : Formula α) (o : Operator) (y : Formula α) :
    (join x o y).evalM ask
      = x.evalM ask >>= fun v => if o.decides v then pure v else y.evalM ask := by
  cases o with
  | and => exact bind_congr fun v => by cases v <;> rfl
  | or => exact bind_congr fun v => by cases v <;> rfl

/-- Where asking has no effect, evaluating yields the value. -/
theorem evalM_pure [LawfulMonad m] (p : α → Bool) (x : Formula α) :
    x.evalM (fun a => (pure (p a) : m Bool)) = pure (x.value p) := by
  induction x with
  | leaf a => rfl
  | join x o y ihx ihy =>
    rw [evalM_join, ihx, pure_bind, ihy, value]
    by_cases hd : o.decides (x.value p) = true
    · rw [if_pos hd, Operator.apply_of_decides hd]
    · rw [if_neg hd, Operator.apply_of_not_decides hd]

end Joining

end Formula

/-! ### Evaluating by the formula -/

/-- `x` is evaluated just as the term is, whatever asking about a leaf does. -/
def Formula.Evaluates (x : Formula α) (e : Element α) : Prop :=
  ∀ (m : Type → Type) [Monad m] [LawfulMonad m] (ask : α → m Bool), e.evalM ask = x.evalM ask

/-- **The walk over a tree after an operator** evaluates the formula that the terms of the tree are joined
to, one after another. -/
theorem Tree.Alternates.exists_formulaFrom {t : Tree α} (h : t.Alternates)
    (hterm : ∀ e ∈ t, e.isOperator = false → ∃ y, e.formula? = some y ∧ y.Evaluates e)
    (x : Formula α) (o : Operator) :
    ∃ z, Tree.formulaFrom x (.operator o :: t) = some z
      ∧ ∀ (m : Type → Type) [Monad m] [LawfulMonad m] (ask : α → m Bool),
        x.evalM ask >>= (fun v => Tree.evalFrom ask (o.decides v) v o t) = z.evalM ask := by
  induction h generalizing x o with
  | @term e he =>
    obtain ⟨y, hy, heval⟩ := hterm e List.mem_cons_self he
    refine ⟨.join x o y, ?_, ?_⟩
    · rw [Tree.formulaFrom, hy]
      rfl
    · intro m _ _ ask
      rw [Formula.evalM_join]
      refine bind_congr fun v => ?_
      rw [Tree.evalFrom_joined he, heval]
      simp only [Tree.evalFrom, bind_pure]
  | @join e o' t he _ ih =>
    obtain ⟨y, hy, heval⟩ := hterm e List.mem_cons_self he
    have hlater : ∀ e' ∈ t, e'.isOperator = false → ∃ y, e'.formula? = some y ∧ y.Evaluates e' :=
      fun e' he' => hterm e' (List.mem_cons_of_mem _ (List.mem_cons_of_mem _ he'))
    -- the terms after this one are joined to all that comes before them
    obtain ⟨z, hz, hwalk⟩ := ih hlater (.join x o y) o'
    refine ⟨z, ?_, ?_⟩
    · rw [Tree.formulaFrom, hy]
      exact hz
    · intro m _ _ ask
      rw [← hwalk, Formula.evalM_join, bind_assoc]
      refine bind_congr fun v => ?_
      rw [Tree.evalFrom_joined he, heval]
      -- passed over or not, the term is followed by the next operator
      simp only [Tree.evalFrom_operator]
      cases o.decides v with
      | true => rw [if_pos rfl, if_pos rfl, pure_bind]
      | false => rw [if_neg Bool.false_ne_true, if_neg Bool.false_ne_true]

/-- **The walk over a tree** evaluates its formula. -/
theorem Tree.Alternates.exists_formula {t : Tree α} (h : t.Alternates)
    (hterm : ∀ e ∈ t, e.isOperator = false → ∃ y, e.formula? = some y ∧ y.Evaluates e) :
    ∃ x, t.formula? = some x ∧ x.Evaluates (.group t) := by
  -- the first term is joined to false by `OR`, which leaves its value
  have hfirst : ∀ v, Operator.or.apply false v = v := Bool.false_or
  cases h with
  | @term e he =>
    obtain ⟨y, hy, heval⟩ := hterm e List.mem_cons_self he
    refine ⟨y, by rw [Tree.formula?, hy]; rfl, ?_⟩
    intro m _ _ ask
    rw [← heval, Element.evalM, Tree.evalFrom_term he]
    simp only [hfirst, Tree.evalFrom, bind_pure]
  | @join e o t he ht =>
    obtain ⟨y, hy, heval⟩ := hterm e List.mem_cons_self he
    have hlater : ∀ e' ∈ t, e'.isOperator = false → ∃ y, e'.formula? = some y ∧ y.Evaluates e' :=
      fun e' he' => hterm e' (List.mem_cons_of_mem _ (List.mem_cons_of_mem _ he'))
    obtain ⟨z, hz, hwalk⟩ := ht.exists_formulaFrom hlater y o
    refine ⟨z, by rw [Tree.formula?, hy]; exact hz, ?_⟩
    intro m _ _ ask
    rw [← hwalk, ← heval, Element.evalM, Tree.evalFrom_term he]
    simp only [hfirst, Tree.evalFrom_operator]

/-- **A well-formed term has a formula**, which is evaluated just as the term is. -/
theorem Element.WellFormed.exists_formula {e : Element α} (h : e.WellFormed)
    (he : e.isOperator = false) : ∃ x, e.formula? = some x ∧ x.Evaluates e := by
  induction h with
  | leaf a => exact ⟨.leaf a, rfl, fun m _ _ ask => rfl⟩
  | operator o => cases he
  | group alternates _ ih => exact alternates.exists_formula ih

end Junction
