import Junction.Proofs.Tree.WellFormed
import Junction.Tree.Eval

/-!
# Evaluating, link by link

`Tree.evalM` and `Tree.evalKnownM` walk along a tree with the value so far, the operator read last and
a flag for the term to pass over. On a tree that alternates both are one and the same walk over
links, `Link.evalM`: **a link is passed over where the value so far decides under its operator, and
else the value of its term, if it has one, takes the place of the value so far**. The two differ in
what the value of a term is, and in nothing else:

* `Tree.Alternates.some_evalM` and `Element.valueM_group`, for leaves that are true or false;
* `Tree.Alternates.evalKnownM_eq` and `Element.evalKnownM_group`, for leaves that may have no answer.

So two evaluations are compared term by term (`Link.evalM_rel`): whatever relates the values of
terms, and is kept by doing one thing after another, relates the values of the trees. Equality is such
a relation, so the two are one where each leaf has an answer (`Tree.WellFormed.evalKnownM_some`).
-/

namespace Junction

variable {α : Type} {m n : Type → Type}

/-- **The value of some links.** -/
def Link.evalM [Monad m] (value : Element α → m (Option Bool)) (soFar : Option Bool) :
    List (Link α) → m (Option Bool)
  | [] => pure soFar
  | l :: ls =>
    if soFar.any l.operator.decides then Link.evalM value soFar ls
    else do Link.evalM value ((← value l.term).or soFar) ls

/-- The value of a term whose leaves are true or false, as a value that there may be. -/
def Element.valueM [Monad m] (ask : α → m Bool) (e : Element α) : m (Option Bool) := do
  return some (← e.evalM ask)

/-! ### Links -/

section Links

variable [Monad m] {value : Element α → m (Option Bool)}

@[simp] theorem Link.evalM_nil (soFar : Option Bool) :
    Link.evalM value soFar ([] : List (Link α)) = pure soFar := rfl

theorem Link.evalM_of_decides {soFar : Option Bool} {l : Link α}
    (h : soFar.any l.operator.decides = true) (ls : List (Link α)) :
    Link.evalM value soFar (l :: ls) = Link.evalM value soFar ls := by
  rw [Link.evalM, if_pos h]

theorem Link.evalM_of_not_decides {soFar : Option Bool} {l : Link α}
    (h : soFar.any l.operator.decides = false) (ls : List (Link α)) :
    Link.evalM value soFar (l :: ls)
      = value l.term >>= fun v => Link.evalM value (v.or soFar) ls := by
  rw [Link.evalM, if_neg (by rw [h]; exact Bool.false_ne_true)]

/-- While there is no value, the operator of a link is of no account. -/
theorem Link.evalM_none_cons (l : Link α) (ls : List (Link α)) :
    Link.evalM value none (l :: ls) = value l.term >>= fun v => Link.evalM value v ls := by
  rw [Link.evalM_of_not_decides rfl]
  simp only [Option.or_none]

/-- **Comparing two evaluations.** A relation that holds of the values of each term, and is kept by
doing one thing after another, holds of the values of the links. -/
theorem Link.evalM_rel [Monad n] {R : m (Option Bool) → n (Option Bool) → Prop}
    (hpure : ∀ v, R (pure v) (pure v))
    (hbind : ∀ x y f g, R x y → (∀ v, R (f v) (g v)) → R (x >>= f) (y >>= g))
    {value' : Element α → n (Option Bool)} {ls : List (Link α)}
    (h : ∀ l ∈ ls, R (value l.term) (value' l.term)) (soFar : Option Bool) :
    R (Link.evalM value soFar ls) (Link.evalM value' soFar ls) := by
  induction ls generalizing soFar with
  | nil => exact hpure soFar
  | cons l ls ih =>
    obtain ⟨hl, hls⟩ := List.forall_mem_cons.mp h
    -- both sides skip the link, or both ask it
    cases hd : soFar.any l.operator.decides with
    | true =>
      rw [Link.evalM_of_decides hd, Link.evalM_of_decides hd]
      exact ih hls soFar
    | false =>
      rw [Link.evalM_of_not_decides hd, Link.evalM_of_not_decides hd]
      exact hbind _ _ _ _ hl fun v => ih hls (v.or soFar)

end Links

/-! ### Leaves that are true or false -/

section Known

variable [Monad m] [LawfulMonad m] {ask : α → m Bool}

omit [LawfulMonad m] in
theorem Tree.evalFrom_operator (soFar : Bool) (op o : Operator) (t : Tree α) :
    Tree.evalFrom ask false soFar op (.operator o :: t)
      = Tree.evalFrom ask (o.decides soFar) soFar o t := by
  simp [Tree.evalFrom]

omit [LawfulMonad m] in
theorem Tree.evalFrom_skip (soFar : Bool) (op : Operator) (e : Element α) (t : Tree α) :
    Tree.evalFrom ask true soFar op (e :: t) = Tree.evalFrom ask false soFar op t := by
  simp [Tree.evalFrom]

omit [LawfulMonad m] in
theorem Tree.evalFrom_term {e : Element α} (he : e.isOperator = false) (soFar : Bool)
    (op : Operator) (t : Tree α) :
    Tree.evalFrom ask false soFar op (e :: t)
      = e.evalM ask >>= fun v => Tree.evalFrom ask false (op.apply soFar v) op t := by
  cases e with
  | leaf a => simp [Tree.evalFrom]
  | operator o => cases he
  | group g => simp [Tree.evalFrom]

omit [LawfulMonad m] in
/-- A term after an operator: passed over where the value so far decides, and else the new value. -/
theorem Tree.evalFrom_joined {e : Element α} (he : e.isOperator = false) (soFar : Bool)
    (o : Operator) (t : Tree α) :
    Tree.evalFrom ask (o.decides soFar) soFar o (e :: t)
      = if o.decides soFar then Tree.evalFrom ask false soFar o t
        else e.evalM ask >>= fun v => Tree.evalFrom ask false v o t := by
  cases hd : o.decides soFar with
  | true => rw [Tree.evalFrom_skip, if_pos rfl]
  | false =>
    have hn : ¬ o.decides soFar = true := by rw [hd]; exact Bool.false_ne_true
    rw [Tree.evalFrom_term he, if_neg Bool.false_ne_true]
    simp only [Operator.apply_of_not_decides hn]

/-- A step of the walk over a tree is a step of the walk over links, if what follows is. -/
theorem Tree.some_evalFrom_joined {e : Element α} (he : e.isOperator = false) {o : Operator}
    {t : Tree α} {ls : List (Link α)}
    (ht : ∀ v, (do return some (← Tree.evalFrom ask false v o t))
      = Link.evalM (Element.valueM ask) (some v) ls) (soFar : Bool) :
    (do return some (← Tree.evalFrom ask (o.decides soFar) soFar o (e :: t)))
      = Link.evalM (Element.valueM ask) (some soFar) (⟨o, e⟩ :: ls) := by
  rw [Tree.evalFrom_joined he]
  cases hd : o.decides soFar with
  | true =>
    -- both pass over the term
    rw [if_pos rfl, ht, Link.evalM_of_decides]
    exact hd
  | false =>
    rw [if_neg Bool.false_ne_true, Link.evalM_of_not_decides (by exact hd), Element.valueM]
    simp only [bind_assoc, pure_bind, ht, Option.some_or]

/-- The walk over a tree after an operator is the walk over its links. -/
theorem Tree.Alternates.some_evalFrom {t : Tree α} (h : t.Alternates) (o : Operator)
    (soFar : Bool) :
    (do return some (← Tree.evalFrom ask (o.decides soFar) soFar o t))
      = Link.evalM (Element.valueM ask) (some soFar) (Tree.linksFrom o t) := by
  induction h generalizing o soFar with
  | @term e he =>
    rw [Tree.linksFrom_term he]
    refine Tree.some_evalFrom_joined he (fun v => ?_) soFar
    simp [Tree.evalFrom]
  | @join e o' t he _ ih =>
    rw [Tree.linksFrom_term he, Tree.linksFrom_operator]
    refine Tree.some_evalFrom_joined he (fun v => ?_) soFar
    rw [Tree.evalFrom_operator]
    exact ih o' v

/-- **The value of a tree that alternates is that of its links**, whatever operator is put before the
first. -/
theorem Tree.Alternates.some_evalM {t : Tree α} (h : t.Alternates) (o : Operator) :
    (do return some (← Tree.evalM ask t))
      = Link.evalM (Element.valueM ask) none (Tree.linksFrom o t) := by
  have hw : (do return some (← Tree.evalM ask t))
      = Link.evalM (Element.valueM ask) (some false) (Tree.linksFrom .or t) :=
    h.some_evalFrom .or false
  -- there is a first link, and its term is asked for a value both at false and at no value
  obtain ⟨e, ls, hls⟩ : ∃ e ls, ∀ o', Tree.linksFrom o' t = ⟨o', e⟩ :: ls := by
    cases h with
    | term he => exact ⟨_, _, fun o' => Tree.linksFrom_term he o' _⟩
    | join he _ => exact ⟨_, _, fun o' => Tree.linksFrom_term he o' _⟩
  rw [hw, hls, hls, Link.evalM_none_cons, Link.evalM_of_not_decides rfl, Element.valueM]
  simp only [bind_assoc, pure_bind, Option.some_or]

/-- The value of a group is that of its links. -/
theorem Element.valueM_group {g : Tree α} (h : g.Alternates) (o : Operator) :
    (Element.group g).valueM ask
      = Link.evalM (Element.valueM ask) none (Tree.linksFrom o g) :=
  h.some_evalM o

end Known

/-! ### Leaves that may have no answer -/

section Unknown

variable [Monad m] {ask : α → m (Option Bool)}

theorem Tree.evalKnownFrom_operator (soFar : Bool) (op o : Operator) (t : Tree α) :
    Tree.evalKnownFrom ask false (some soFar) op (.operator o :: t)
      = Tree.evalKnownFrom ask (o.decides soFar) (some soFar) o t := by
  simp [Tree.evalKnownFrom]

theorem Tree.evalKnownFrom_skip (soFar : Option Bool) (op : Operator) (e : Element α)
    (t : Tree α) :
    Tree.evalKnownFrom ask true soFar op (e :: t) = Tree.evalKnownFrom ask false soFar op t := by
  simp [Tree.evalKnownFrom]

theorem Tree.evalKnownFrom_term {e : Element α} (he : e.isOperator = false)
    (soFar : Option Bool) (op : Operator) (t : Tree α) :
    Tree.evalKnownFrom ask false soFar op (e :: t)
      = e.evalKnownM ask >>= fun
        | some v => Tree.evalKnownFrom ask false (some (op.apply (soFar.getD false) v)) op t
        | none => Tree.evalKnownFrom ask soFar.isNone soFar op t := by
  cases e with
  | leaf a => exact bind_congr fun v => by cases v <;> rfl
  | operator o => cases he
  | group g => exact bind_congr fun v => by cases v <;> rfl

/-- A step of the walk over a tree is a step of the walk over links, if what follows is. -/
theorem Tree.evalKnownFrom_joined {e : Element α} (he : e.isOperator = false) {o : Operator}
    {t : Tree α} {ls : List (Link α)}
    (ht : ∀ v, Tree.evalKnownFrom ask false (some v) o t
      = Link.evalM (Element.evalKnownM ask) (some v) ls) (soFar : Bool) :
    Tree.evalKnownFrom ask (o.decides soFar) (some soFar) o (e :: t)
      = Link.evalM (Element.evalKnownM ask) (some soFar) (⟨o, e⟩ :: ls) := by
  cases hd : o.decides soFar with
  | true =>
    rw [Tree.evalKnownFrom_skip, ht, Link.evalM_of_decides]
    exact hd
  | false =>
    have hn : ¬ o.decides soFar = true := by rw [hd]; exact Bool.false_ne_true
    rw [Tree.evalKnownFrom_term he, Link.evalM_of_not_decides (by exact hd)]
    refine bind_congr fun v => ?_
    cases v with
    | none => exact ht soFar
    | some v =>
      -- where the value so far does not decide, the operator yields the value of the term
      change Tree.evalKnownFrom ask false (some (o.apply soFar v)) o t = _
      rw [Operator.apply_of_not_decides hn]
      exact ht v

/-- The walk over a tree after a value and an operator is the walk over its links. -/
theorem Tree.Alternates.evalKnownFrom_some {t : Tree α} (h : t.Alternates) (o : Operator)
    (soFar : Bool) :
    Tree.evalKnownFrom ask (o.decides soFar) (some soFar) o t
      = Link.evalM (Element.evalKnownM ask) (some soFar) (Tree.linksFrom o t) := by
  induction h generalizing o soFar with
  | @term e he =>
    rw [Tree.linksFrom_term he]
    refine Tree.evalKnownFrom_joined he (fun v => ?_) soFar
    rfl
  | @join e o' t he _ ih =>
    rw [Tree.linksFrom_term he, Tree.linksFrom_operator]
    refine Tree.evalKnownFrom_joined he (fun v => ?_) soFar
    rw [Tree.evalKnownFrom_operator]
    exact ih o' v

/-- A first term: its value is the value so far, or the operator after it is passed over. -/
theorem Tree.evalKnownFrom_first {e : Element α} (he : e.isOperator = false) (t : Tree α) :
    Tree.evalKnownFrom ask false none .or (e :: t)
      = e.evalKnownM ask >>= fun
        | some v => Tree.evalKnownFrom ask false (some v) .or t
        | none => Tree.evalKnownFrom ask true none .or t := by
  rw [Tree.evalKnownFrom_term he]
  refine bind_congr fun v => ?_
  cases v <;> rfl

/-- **The value of a tree that alternates is that of its links**, whatever operator is put before the
first. -/
theorem Tree.Alternates.evalKnownM_eq {t : Tree α} (h : t.Alternates) (o : Operator) :
    Tree.evalKnownM ask t
      = Link.evalM (Element.evalKnownM ask) none (Tree.linksFrom o t) := by
  rw [Tree.evalKnownM]
  induction h generalizing o with
  | @term e he =>
    rw [Tree.linksFrom_term he, Link.evalM_none_cons, Tree.evalKnownFrom_first he]
    refine bind_congr fun v => ?_
    cases v <;> rfl
  | @join e o' t he ht ih =>
    rw [Tree.linksFrom_term he, Link.evalM_none_cons, Tree.evalKnownFrom_first he,
      Tree.linksFrom_operator]
    refine bind_congr fun v => ?_
    cases v with
    | none =>
      -- there is still no value, so the operator after the first term goes
      change Tree.evalKnownFrom ask true none .or (.operator o' :: t) = _
      rw [Tree.evalKnownFrom_skip, ih o']
    | some v =>
      change Tree.evalKnownFrom ask false (some v) .or (.operator o' :: t) = _
      rw [Tree.evalKnownFrom_operator, ht.evalKnownFrom_some]

/-- The value of a group is that of its links. -/
theorem Element.evalKnownM_group {g : Tree α} (h : g.Alternates) (o : Operator) :
    (Element.group g).evalKnownM ask
      = Link.evalM (Element.evalKnownM ask) none (Tree.linksFrom o g) :=
  h.evalKnownM_eq o

end Unknown

/-! ### Leaves that all have an answer -/

section Answers

variable [Monad m] [LawfulMonad m]

/-- **Where each leaf has an answer, so has a term**: the two ways to evaluate it are one. Only the walk
for leaves without an answer has a second reason to pass over an element, and none of them is met. -/
theorem Element.WellFormed.evalKnownM_some {e : Element α} (h : e.WellFormed)
    (he : e.isOperator = false) (ask : α → m Bool) :
    e.evalKnownM (fun a => some <$> ask a) = e.valueM ask := by
  induction h with
  | leaf a => exact map_eq_pure_bind some (ask a)
  | operator o => cases he
  | group alternates _ ih =>
    rw [Element.evalKnownM_group alternates .or, Element.valueM_group alternates .or]
    -- links are of terms, and only an operator has no value
    refine Link.evalM_rel (R := Eq) (fun _ => rfl) ?_ (fun l hl => ?_) none
    · rintro x _ f g rfl hf
      exact bind_congr hf
    · obtain ⟨hmem, hterm⟩ := Tree.mem_of_mem_linksFrom hl
      exact ih _ hmem hterm

/-- **Where each leaf has an answer, so has a tree**, unless it is empty. -/
theorem Tree.WellFormed.evalKnownM_some {t : Tree α} (h : t.WellFormed) (ht : t ≠ [])
    (ask : α → m Bool) :
    Tree.evalKnownM (fun a => some <$> ask a) t = some <$> Tree.evalM ask t := by
  calc Tree.evalKnownM (fun a => some <$> ask a) t
      = (Element.group t).valueM ask := (h.group ht).evalKnownM_some rfl ask
    _ = some <$> Tree.evalM ask t := (map_eq_pure_bind some (Tree.evalM ask t)).symm

end Answers

/-- Where each leaf has an answer, the value is that by these answers. -/
theorem Tree.WellFormed.evalKnown_some {t : Tree α} (h : t.WellFormed) (ht : t ≠ [])
    (p : α → Bool) : Tree.evalKnown (fun a => some (p a)) t = some (Tree.eval p t) :=
  h.evalKnownM_some ht fun a => (pure (p a) : Id Bool)

end Junction
