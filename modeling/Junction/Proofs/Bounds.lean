import Junction.Proofs.Commands
import Junction.Proofs.TreeLaws

/-!
# Bounds on the value of a tree

There are three answers of a leaf, and their **degrees** put them in a row: false, no answer, true.
Joining a value so far with the next one keeps this order (`Operator.degree_join_le`), although an
operator next to a value that is missing is left out. So the value of a tree goes up with the answers
of its leaves (`Tree.WellFormed.degree_evalKnown_le`), and where each leaf has an answer it is the value
by `Tree.eval` (`Tree.WellFormed.evalKnown_some`).

A missing answer is between false and true. So to evaluate with leaves that have none is between taking
these leaves for false and taking them for true: `evalKnown_between`. The two commands that print a value
under the facts are a case of it.
-/

namespace Junction

variable {α : Type}

/-- **The degree of an answer**: no answer is between false and true. -/
def degree : Option Bool → Nat
  | some false => 0
  | none => 1
  | some true => 2

theorem eq_some_true_of_degree_le {x : Option Bool} (h : degree (some true) ≤ degree x) :
    x = some true := by
  match x with
  | some true => rfl
  | some false | none => exact absurd h (by decide)

theorem degree_getD_false_le (x : Option Bool) : degree (some (x.getD false)) ≤ degree x := by
  match x with
  | some _ => exact Nat.le_refl _
  | none => exact Nat.zero_le _

theorem degree_le_getD_true (x : Option Bool) : degree x ≤ degree (some (x.getD true)) := by
  match x with
  | some _ => exact Nat.le_refl _
  | none => exact Nat.le_succ 1

theorem degree_some_le {b c : Bool} (h : b = true → c = true) :
    degree (some b) ≤ degree (some c) := by
  cases b with
  | false => exact Nat.zero_le _
  | true => rw [h rfl]

/-! ### One link after another -/

/-- **The value so far and the next one**, either of which may be missing. -/
def Operator.join (o : Operator) (soFar next : Option Bool) : Option Bool :=
  if soFar.any o.decides then soFar else next.or soFar

/-- A higher value so far, or a higher next one, makes no lower value. -/
theorem Operator.degree_join_le (o : Operator) {x x' v v' : Option Bool}
    (hx : degree x ≤ degree x') (hv : degree v ≤ degree v') :
    degree (o.join x v) ≤ degree (o.join x' v') :=
  -- the next value goes up first, and then the value so far: a table for either operator
  calc degree (o.join x v)
      ≤ degree (o.join x v') := by
        revert v v'
        cases o <;> rcases x with _ | _ | _ <;> rintro (_ | _ | _) (_ | _ | _) <;> decide
    _ ≤ degree (o.join x' v') := by
        clear hv
        revert x x'
        cases o <;> rcases v' with _ | _ | _ <;> rintro (_ | _ | _) (_ | _ | _) <;> decide

/-- Evaluating links joins the value of each to the value so far. -/
theorem Link.evalM_cons_join {value : Element α → Id (Option Bool)} (soFar : Option Bool)
    (l : Link α) (ls : List (Link α)) :
    Link.evalM value soFar (l :: ls)
      = Link.evalM value (l.operator.join soFar (value l.term).run) ls := by
  unfold Operator.join
  cases hd : soFar.any l.operator.decides with
  | true => rw [Link.evalM_of_decides hd, if_pos rfl]
  | false =>
    rw [Link.evalM_of_not_decides hd, if_neg Bool.false_ne_true]
    rfl

/-- The value of links goes up with the values of their terms. -/
theorem Link.degree_evalM_le {value value' : Element α → Id (Option Bool)} {ls : List (Link α)}
    (h : ∀ l ∈ ls, degree (value l.term).run ≤ degree (value' l.term).run) {x x' : Option Bool}
    (hx : degree x ≤ degree x') :
    degree (Link.evalM value x ls).run ≤ degree (Link.evalM value' x' ls).run := by
  induction ls generalizing x x' with
  | nil => exact hx
  | cons l ls ih =>
    obtain ⟨hl, hls⟩ := List.forall_mem_cons.mp h
    rw [Link.evalM_cons_join, Link.evalM_cons_join]
    exact ih hls (l.operator.degree_join_le hx hl)

/-! ### Trees -/

/-- The value of a term goes up with the answers of its leaves. -/
theorem Element.WellFormed.degree_evalKnownM_le {e : Element α} (h : e.WellFormed)
    {r r' : α → Option Bool} (hr : ∀ a ∈ e.leaves, degree (r a) ≤ degree (r' a)) :
    degree (e.evalKnownM fun a => (pure (r a) : Id (Option Bool))).run
      ≤ degree (e.evalKnownM fun a => (pure (r' a) : Id (Option Bool))).run := by
  induction h with
  | leaf a => exact hr a List.mem_cons_self
  | operator o => exact Nat.le_refl _
  | group alternates _ ih =>
    rw [Element.evalKnownM_group alternates .or, Element.evalKnownM_group alternates .or]
    -- no term has been joined yet, so both begin at the same value
    refine Link.degree_evalM_le (fun l hl => ?_) (Nat.le_refl _)
    have hmem := (Tree.mem_of_mem_linksFrom hl).1
    exact ih _ hmem fun a ha => hr a (Tree.mem_leaves.mpr ⟨_, hmem, ha⟩)

/-- **The value of a tree goes up with the answers of its leaves.** -/
theorem Tree.WellFormed.degree_evalKnown_le {t : Tree α} (h : t.WellFormed) {r r' : α → Option Bool}
    (hr : ∀ a ∈ t.leaves, degree (r a) ≤ degree (r' a)) :
    degree (Tree.evalKnown r t) ≤ degree (Tree.evalKnown r' t) := by
  by_cases ht : t = []
  · subst ht
    exact Nat.le_refl _
  · exact (h.group ht).degree_evalKnownM_le hr

theorem Tree.ne_nil_of_eval {t : Tree α} {p : α → Bool} (h : Tree.eval p t = true) : t ≠ [] := by
  rintro rfl
  cases h

theorem Tree.ne_nil_of_evalKnown {t : Tree α} {r : α → Option Bool} {v : Bool}
    (h : Tree.evalKnown r t = some v) : t ≠ [] := by
  rintro rfl
  cases h

section Bounds

variable {t : Tree α}

/-- What is true where leaves without an answer are taken for false is true without them. -/
theorem Tree.WellFormed.evalKnown_of_eval (h : t.WellFormed) {p : α → Bool} {r : α → Option Bool}
    (hr : ∀ a ∈ t.leaves, degree (some (p a)) ≤ degree (r a)) (htrue : Tree.eval p t = true) :
    Tree.evalKnown r t = some true := by
  refine eq_some_true_of_degree_le ?_
  calc degree (some true)
      = degree (some (Tree.eval p t)) := by rw [htrue]
    _ = degree (Tree.evalKnown (fun a => some (p a)) t) := by
        rw [h.evalKnown_some (Tree.ne_nil_of_eval htrue)]
    _ ≤ degree (Tree.evalKnown r t) := h.degree_evalKnown_le hr

/-- What is true without the leaves that have no answer is true where they are taken for true. -/
theorem Tree.WellFormed.eval_of_evalKnown (h : t.WellFormed) {r : α → Option Bool} {p : α → Bool}
    (hr : ∀ a ∈ t.leaves, degree (r a) ≤ degree (some (p a)))
    (htrue : Tree.evalKnown r t = some true) : Tree.eval p t = true := by
  refine Option.some.inj (eq_some_true_of_degree_le ?_)
  calc degree (some true)
      = degree (Tree.evalKnown r t) := by rw [htrue]
    _ ≤ degree (Tree.evalKnown (fun a => some (p a)) t) := h.degree_evalKnown_le hr
    _ = degree (some (Tree.eval p t)) := by
        rw [h.evalKnown_some (Tree.ne_nil_of_evalKnown htrue)]

end Bounds

/-! ### The result -/

/-- **Evaluating without the leaves that have no answer is between taking them for false and taking them
for true.** A tree that can be come to stays true where more of its leaves are. It is true without the
leaves that have no answer if it is true where they are taken for false, and only if it is true where
they are taken for true. So where the command that takes undecided conditions for false prints `true`,
the one that leaves them out prints `true` as well. -/
theorem evalKnown_between :
    (∀ {α : Type} {t : Tree α}, t.Reachable →
        (∀ p q : α → Bool, (∀ a ∈ t.leaves, p a = true → q a = true) →
          Tree.eval p t = true → Tree.eval q t = true)
        ∧ ∀ r : α → Option Bool,
          (Tree.eval (fun a => (r a).getD false) t = true → Tree.evalKnown r t = some true)
          ∧ (Tree.evalKnown r t = some true → Tree.eval (fun a => (r a).getD true) t = true))
      ∧ ∀ (i : Invocation) (program : String) (document : Option Json)
          (environment : List (String × String)),
        { i with command := .solve }.run program document environment = .ok "true" →
          { i with command := .fsolve }.run program document environment = .ok "true" := by
  constructor
  · intro α t h
    have hw := h.wellFormed
    refine ⟨fun p q hpq hp => ?_, fun r => ⟨fun hr => ?_, fun hr => ?_⟩⟩
    · -- by way of the evaluation in which each leaf has its answer by `q`
      have hq : Tree.evalKnown (fun a => some (q a)) t = some true :=
        hw.evalKnown_of_eval (fun a ha => degree_some_le (hpq a ha)) hp
      exact hw.eval_of_evalKnown (fun _ _ => Nat.le_refl _) hq
    · exact hw.evalKnown_of_eval (fun a _ => degree_getD_false_le (r a)) hr
    · exact hw.eval_of_evalKnown (fun a _ => degree_le_getD_true (r a)) hr
  · intro i program document environment h
    obtain ⟨d, settings, hdocument, hsettings, hanswer⟩ := Invocation.run_eq_ok_iff.mp h
    obtain ⟨t, ht, hprinted⟩ := (Invocation.answer_solve_iff i).mp hanswer
    -- a condition holds if it is decided and true, so an undecided one was taken for false
    have hvalue : Tree.evalKnown (i.allFacts settings).check t = some true :=
      (Tree.reachable_of_parseTree ht).wellFormed.evalKnown_of_eval
        (fun c _ => degree_getD_false_le ((i.allFacts settings).check c)) (truthText_eq_true hprinted)
    exact Invocation.run_eq_ok_iff.mpr
      ⟨d, settings, hdocument, hsettings, Invocation.answer_fsolve_of_some ht hvalue⟩

/-- Leaves without an answer in a tree, and a condition that is not decided in an expression. -/
theorem evalKnown_between_nested :
    Tree.eval (fun a => a != "c")
        [.leaf "a", .operator .and, .group [.leaf "b", .operator .or, .leaf "c"]] = true
      ∧ Tree.evalKnown (fun a => if a = "c" then none else some true)
        [.leaf "a", .operator .and, .group [.leaf "b", .operator .or, .leaf "c"]] = some true
      ∧ Tree.eval (fun a => (if a = "a" then none else some (a == "b")).getD true)
        [.leaf "a", .operator .and, .group [.leaf "b", .operator .or, .leaf "c"]] = true
      ∧ Invocation.run ⟨.fsolve, "x IS NULL OR y = 1", true, [], none, none⟩ "junction"
        (some (.object [])) [] = .ok "true" := by
  obtain ⟨htrees, hcommands⟩ := evalKnown_between
  obtain ⟨hmore, hknown⟩ := htrees reachable_nested
  have hfirst : (Reader.start "x IS NULL OR y = 1".toList).Moves .conditions .standard
      (.leaf ⟨"x", "IS", "NULL"⟩) ⟨.done, 0, some 'L', " OR y = 1".toList⟩ :=
    Reader.step_eq_event_iff.mp rfl
  have hoperator : (Reader.mk .done 0 (some 'L') " OR y = 1".toList).Moves .conditions .standard
      (.operator .or) ⟨.due, 0, some 'R', " y = 1".toList⟩ := Reader.step_eq_event_iff.mp rfl
  have hlast : (Reader.mk .due 0 (some 'R') " y = 1".toList).Moves .conditions .standard
      (.leaf ⟨"y", "=", "1"⟩) ⟨.done, 0, some '1', []⟩ := Reader.step_eq_event_iff.mp rfl
  have hparse : parseTree .conditions .standard "x IS NULL OR y = 1"
      = .ok [.leaf ⟨"x", "IS", "NULL"⟩, .operator .or, .leaf ⟨"y", "=", "1"⟩] := by
    refine parseTree_eq_ok_iff.mpr ?_
    rw [readExpression, Reader.run_of_moves hfirst, Reader.run_of_moves hoperator,
      Reader.run_of_moves hlast, Reader.run_eq]
    rfl
  have hsettings : Settings.ofDocument (Settings.layered "junction" (.object []) [])
      = .ok ⟨.standard, .empty, .json⟩ := rfl
  -- without any fact `solve` says true, so `fsolve` says nothing else
  have hanswer : Invocation.answer ⟨.solve, "x IS NULL OR y = 1", true, [], none, none⟩
      ⟨.standard, .empty, .json⟩ = .ok "true" :=
    (Invocation.answer_solve_iff ⟨.solve, "x IS NULL OR y = 1", true, [], none, none⟩).mpr
      ⟨_, hparse, rfl⟩
  -- the second predicate accepts each leaf that the first one accepts
  refine ⟨hmore (fun a => a == "a" || a == "b") (fun a => a != "c") (by decide) rfl, ?_, ?_, ?_⟩
  · exact (hknown fun a => if a = "c" then none else some true).1 (by decide)
  · exact (hknown fun a => if a = "a" then none else some (a == "b")).2 (by decide)
  · exact hcommands ⟨.solve, "x IS NULL OR y = 1", true, [], none, none⟩ _ _ _
      (Invocation.run_eq_ok_iff.mpr ⟨_, _, rfl, hsettings, hanswer⟩)

end Junction
