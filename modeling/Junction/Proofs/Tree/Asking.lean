import Junction.Proofs.Tree.Evaluation

/-!
# Which leaves are asked about

An evaluation that short-circuits asks about some leaves only. `recorded p` answers by `p` and notes
down each leaf that it is asked about, so that the run of an evaluation under it ends with the list
of these leaves, in order: `Tree.asked` and `Tree.askedKnown`. Taking notes changes no value
(`Tree.WellFormed.evalM_recorded`, `Tree.WellFormed.evalKnownM_recorded`).
-/

namespace Junction

variable {α β : Type}

/-- Answers by `p`, and adds the leaf to those asked about. -/
def recorded (p : α → β) (a : α) : StateM (List α) β := do
  modify fun calls => calls ++ [a]
  return p a

/-- **The leaves that an evaluation asks about**, in order. -/
def Tree.asked (p : α → Bool) (t : Tree α) : List α := ((Tree.evalM (recorded p) t).run []).2

/-- **The leaves that an evaluation with unknown leaves asks about**, in order. -/
def Tree.askedKnown (p : α → Option Bool) (t : Tree α) : List α :=
  ((Tree.evalKnownM (recorded p) t).run []).2

@[simp] theorem run_recorded (p : α → β) (a : α) (calls : List α) :
    (recorded p a).run calls = (p a, calls ++ [a]) := rfl

/-- The action ends with this value, whatever has been noted down before. -/
def Yields (x : StateM (List α) β) (v : β) : Prop := ∀ calls, (x.run calls).1 = v

theorem Yields.pure (v : β) : Yields (pure v : StateM (List α) β) v := fun _ => rfl

theorem Yields.bind {γ : Type} {x : StateM (List α) β} {v : β}
    {f : β → StateM (List α) γ} {w : γ} (hx : Yields x v) (hf : Yields (f v) w) :
    Yields (x >>= f) w := by
  intro calls
  change ((f (x.run calls).1).run (x.run calls).2).1 = w
  rw [hx calls]
  exact hf _

section Values

variable {value : Element α → StateM (List α) (Option Bool)} {value' : Element α → Id (Option Bool)}

/-- If the values of terms are the same with and without notes, those of links are. -/
theorem Link.yields_evalM {ls : List (Link α)}
    (h : ∀ l ∈ ls, Yields (value l.term) (value' l.term).run) (soFar : Option Bool) :
    Yields (Link.evalM value soFar ls) (Link.evalM value' soFar ls).run :=
  Link.evalM_rel
    (R := fun (x : StateM (List α) (Option Bool)) (y : Id (Option Bool)) => Yields x y.run)
    (fun v => .pure v) (fun _ _ _ _ hx hf => hx.bind (hf _)) h soFar

end Values

/-- Taking notes does not change the value of a term. -/
theorem Element.WellFormed.valueM_recorded {e : Element α} (h : e.WellFormed) (p : α → Bool) :
    Yields (e.valueM (recorded p)) (e.valueM fun a => (pure (p a) : Id Bool)).run := by
  induction h with
  | leaf a => exact fun _ => rfl
  | operator o => exact fun _ => rfl
  | group alternates _ ih =>
    rw [Element.valueM_group alternates .or, Element.valueM_group alternates .or]
    exact Link.yields_evalM (fun l hl => ih _ (Tree.mem_of_mem_linksFrom hl).1) none

theorem Element.WellFormed.evalKnownM_recorded {e : Element α} (h : e.WellFormed)
    (p : α → Option Bool) :
    Yields (e.evalKnownM (recorded p))
      (e.evalKnownM fun a => (pure (p a) : Id (Option Bool))).run := by
  induction h with
  | leaf a => exact fun _ => rfl
  | operator o => exact fun _ => rfl
  | group alternates _ ih =>
    rw [Element.evalKnownM_group alternates .or, Element.evalKnownM_group alternates .or]
    exact Link.yields_evalM (fun l hl => ih _ (Tree.mem_of_mem_linksFrom hl).1) none

/-- **Taking notes does not change the value of a tree.** -/
theorem Tree.WellFormed.evalM_recorded {t : Tree α} (h : t.WellFormed) (p : α → Bool) :
    Yields (Tree.evalM (recorded p) t) (Tree.eval p t) := by
  by_cases hne : t = []
  · subst hne
    exact .pure false
  · intro calls
    exact Option.some.inj ((h.group hne).valueM_recorded p calls)

theorem Tree.WellFormed.evalKnownM_recorded {t : Tree α} (h : t.WellFormed)
    (p : α → Option Bool) :
    Yields (Tree.evalKnownM (recorded p) t) (Tree.evalKnown p t) := by
  by_cases hne : t = []
  · subst hne
    exact .pure none
  · exact (h.group hne).evalKnownM_recorded p

end Junction
