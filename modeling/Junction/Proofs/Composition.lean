import Junction.Proofs.Reading.Following
import Junction.Proofs.Reading.Rendered
import Junction.Proofs.Tree.Evaluation

/-!
# Expressions put together

Reading is compositional: an expression is read within a longer one as it is by itself
(`Reader.run_of_parseTree`). So the tree of two expressions with an operator between them has the
elements of both with the operator between them (`parseTree_join`), the tree of an expression in
parentheses is the group of its elements (`parseTree_group`), and evaluating two expressions in
parentheses with an operator between them is applying the operator to what they are by themselves
(`parseTree_compose`).

What may not be left out is a term: white space by itself is an expression (`parseTree_eq_nil_iff`),
and has no term to stand next to an operator.
-/

namespace Junction

open Text

variable {f : Form} {k : Keywords} {s t : String} {S T : Tree f.Leaf}

/-! ### Within a longer text -/

namespace Reader

/-- **An expression is read within a longer text as it is by itself**, in front of a text that ends a
term. White space at its end may be left. -/
theorem run_of_parseTree (h : parseTree f k s = .ok S) (hS : S ≠ []) {u : List Char} (hu : Seam u)
    (hends : ∀ b prev, (∀ c ∈ b, isBlank c = true) → Operand.Ends k.lexicon prev (b ++ u))
    (depth : Nat) {prev : Option Char} (hprev : prev.any isWord = false) :
    ∃ b last, (∀ c ∈ b, isBlank c = true)
      ∧ run f k ⟨.due, depth, prev, s.toList ++ u⟩
        = (S.events ++ (run f k ⟨.done, depth, last, b ++ u⟩).1,
          (run f k ⟨.done, depth, last, b ++ u⟩).2) := by
  have hrun : (start s.toList).run f k = (S.events, .complete) :=
    readExpression_eq_iff.mp (parseTree_eq_ok_iff.mp h)
  have hevents : S.events ≠ [] := Tree.events_ne_nil hS
  obtain ⟨q, hreach, hstep⟩ := exists_reaches f k (start s.toList)
  rw [hrun] at hreach hstep
  -- the run by itself ends after a term, with nothing but white space left
  obtain ⟨hahead, hstage⟩ := of_step_complete hstep
  obtain ⟨hdone, hdepth⟩ := hstage.resolve_left (hreach.stage_ne_fresh hevents)
  have hblank : ∀ c ∈ q.rest, isBlank c = true := skipBlank_eq_nil_iff.mp hahead
  refine ⟨q.rest, q.prev, hblank, ?_⟩
  have hplaced := hreach.run_placed (List.append_nil _).symm (List.append_nil _).symm hu (.nil _)
    (fun _ => hends q.rest q.prev hblank) depth
  have hq : q.placed depth (q.rest ++ u) = ⟨.done, depth, q.prev, q.rest ++ u⟩ := by
    rw [placed, hdone, hdepth, Nat.zero_add]
  have hstart : (start s.toList).placed depth ((start s.toList).rest ++ u)
      = ⟨.fresh, depth, none, s.toList ++ u⟩ := by
    rw [placed, start, Nat.zero_add]
  rw [hq, hstart] at hplaced
  have hnone : prev.any isWord = (none : Option Char).any isWord := hprev
  rw [run_prev hnone]
  refine (run_fresh_iff ?_ depth none _).mp hplaced
  exact fun hnil => hevents (List.append_eq_nil_iff.mp hnil).1

/-- In front of an operator that blanks keep off the text before and after it. -/
theorem run_of_parseTree_operator (h : parseTree f k s = .ok S) (hS : S ≠ []) (o : Operator)
    (cs : List Char) (depth : Nat) {prev : Option Char} (hprev : prev.any isWord = false) :
    run f k ⟨.due, depth, prev, s.toList ++ ([' '] ++ ((k.keyword o).toList ++ ([' '] ++ cs)))⟩
      = (S.events ++ .operator o :: (run f k ⟨.due, depth, some ' ', cs⟩).1,
        (run f k ⟨.due, depth, some ' ', cs⟩).2) := by
  have hword : sameCaseless (k.keyword o).toList (k.keyword o).toList = true :=
    sameCaseless_iff.mpr rfl
  have hseam : Seam ([' '] ++ cs) := .cons (by decide) cs
  have hseam' : Seam ([' '] ++ ((k.keyword o).toList ++ ([' '] ++ cs))) := .cons (by decide) _
  -- the blank before the keyword comes after whatever white space the term has left
  have hblank : ∀ b : List Char, (∀ c ∈ b, isBlank c = true) → ∀ c ∈ b ++ [' '], isBlank c = true :=
    fun b hb => List.forall_mem_append.mpr ⟨hb, isBlank_of_mem_space⟩
  have hlast : ∀ (b : List Char) (prev : Option Char),
      ((b ++ [' ']).getLast?.or prev).any isWord = false := by
    intro b prev
    rw [List.getLast?_append]
    rfl
  have hends : ∀ b prev, (∀ c ∈ b, isBlank c = true) →
      Operand.Ends k.lexicon prev (b ++ ([' '] ++ ((k.keyword o).toList ++ ([' '] ++ cs)))) := by
    intro b prev hb
    rw [← List.append_assoc b]
    exact Operand.ends_of_operator (operator?_written hword (hblank b hb) (hlast b prev) hseam)
  obtain ⟨b, last, hb, hrun⟩ := run_of_parseTree h hS hseam' hends depth hprev
  rw [← List.append_assoc b, run_keyword hword (hblank b hb) (hlast b last) hseam,
    run_blank isBlank_of_mem_space] at hrun
  exact hrun

/-- In front of a closing parenthesis. -/
theorem run_of_parseTree_closeParen (h : parseTree f k s = .ok S) (hS : S ≠ []) (cs : List Char)
    (depth : Nat) {prev : Option Char} (hprev : prev.any isWord = false) :
    run f k ⟨.due, depth + 1, prev, s.toList ++ ')' :: cs⟩
      = (S.events ++ .closeGroup :: (run f k ⟨.done, depth, some ')', cs⟩).1,
        (run f k ⟨.done, depth, some ')', cs⟩).2) := by
  have hends : ∀ b prev, (∀ c ∈ b, isBlank c = true) → Operand.Ends k.lexicon prev (b ++ ')' :: cs) :=
    fun b prev hb => Operand.ends_of_closeParen (skipBlank_append_of_blank hb _)
  have hseam : Seam (')' :: cs) := .cons (by decide) cs
  obtain ⟨b, last, hb, hrun⟩ := run_of_parseTree h hS hseam hends (depth + 1) hprev
  rw [run_close hb] at hrun
  exact hrun

/-- At the end of the text. -/
theorem run_of_parseTree_end (h : parseTree f k s = .ok S) (hS : S ≠ []) {prev : Option Char}
    (hprev : prev.any isWord = false) : run f k ⟨.due, 0, prev, s.toList⟩ = (S.events, .complete) := by
  have hends : ∀ b prev, (∀ c ∈ b, isBlank c = true) → Operand.Ends k.lexicon prev (b ++ []) := by
    intro b prev hb
    rw [List.append_nil]
    exact Operand.ends_of_blank (skipBlank_eq_nil_iff.mpr hb)
  obtain ⟨b, last, hb, hrun⟩ := run_of_parseTree h hS .nil hends 0 hprev
  rw [List.append_nil, List.append_nil, run_end hb, List.append_nil] at hrun
  exact hrun

end Reader

/-! ### Joining and grouping -/

/-- **An expression without a term** is white space. -/
theorem parseTree_eq_nil_iff : parseTree f k s = .ok [] ↔ ∀ c ∈ s.toList, isBlank c = true := by
  rw [parseTree_eq_ok_iff, readExpression_eq_iff, Reader.run_eq]
  constructor
  · intro h
    cases hstep : (Reader.start s.toList).step f k with
    | ends ending =>
      -- a reader that stops at once is complete only at the end of the text
      rw [hstep] at h
      obtain rfl : ending = .complete := congrArg Prod.snd h
      exact skipBlank_eq_nil_iff.mp (Reader.of_step_complete hstep).1
    | event e next =>
      -- and one that moves leaves an event
      rw [hstep] at h
      cases congrArg Prod.fst h
  · intro h
    have hahead : (Reader.start s.toList).ahead = [] := skipBlank_eq_nil_iff.mpr h
    rw [Reader.step_end hahead]
    rfl

/-- An expression is accepted if it is one where a term has to come. -/
theorem parseTree_of_run (hS : S ≠ [])
    (h : Reader.run f k ⟨.due, 0, none, s.toList⟩ = (S.events, .complete)) :
    parseTree f k s = .ok S := by
  rw [parseTree_eq_ok_iff, readExpression_eq_iff]
  exact (Reader.run_fresh_iff (Tree.events_ne_nil hS) 0 none s.toList).mpr h

/-- **Two expressions with an operator between them** have the elements of both, joined by it. -/
theorem parseTree_join (hs : parseTree f k s = .ok S) (ht : parseTree f k t = .ok T) (hS : S ≠ [])
    (hT : T ≠ []) (o : Operator) :
    parseTree f k (s ++ " " ++ k.keyword o ++ " " ++ t) = .ok (S ++ .operator o :: T) := by
  refine parseTree_of_run (by simp) ?_
  have htext : (s ++ " " ++ k.keyword o ++ " " ++ t).toList
      = s.toList ++ ([' '] ++ ((k.keyword o).toList ++ ([' '] ++ t.toList))) := by simp
  -- the first text is read up to the keyword, and the second one behind it
  have hfirst := Reader.run_of_parseTree_operator hs hS o t.toList 0
    (show (none : Option Char).any isWord = false from rfl)
  have hsecond := Reader.run_of_parseTree_end ht hT (show (some ' ').any isWord = false by decide)
  rw [htext, hfirst, hsecond, Tree.events_append, Tree.events_cons]
  rfl

/-- **An expression in parentheses** is the group of its elements. -/
theorem parseTree_group (hs : parseTree f k s = .ok S) (hS : S ≠ []) :
    parseTree f k ("(" ++ s ++ ")") = .ok [.group S] := by
  refine parseTree_of_run (List.cons_ne_nil _ _) ?_
  have htext : ("(" ++ s ++ ")").toList = [] ++ '(' :: (s.toList ++ [')']) := by simp
  have hinside := Reader.run_of_parseTree_closeParen hs hS [] 0
    (show (some '(').any isWord = false by decide)
  rw [htext, Reader.run_open (List.forall_mem_nil _) (by exact nofun), hinside,
    Reader.run_end (List.forall_mem_nil _)]
  simp [Element.events]

/-- The value of two groups joined by an operator. -/
theorem Tree.eval_join {α : Type} (p : α → Bool) (S T : Tree α) (o : Operator) :
    Tree.eval p [.group S, .operator o, .group T] = o.apply (Tree.eval p S) (Tree.eval p T) := by
  -- the first group is joined to false by `OR`
  have hfirst : Operator.or.apply false (Tree.eval p S) = Tree.eval p S := rfl
  have hwalk : Tree.eval p [.group S, .operator o, .group T]
      = Id.run (Tree.evalFrom (fun a => pure (p a)) (o.decides (Tree.eval p S)) (Tree.eval p S) o
          [.group T]) := by
    rw [Tree.eval, Tree.evalM, Tree.evalFrom_term rfl, ← Tree.evalFrom_operator _ .or, ← hfirst]
    rfl
  rw [hwalk, Tree.evalFrom_joined rfl]
  by_cases hd : o.decides (Tree.eval p S) = true
  · rw [if_pos hd, Operator.apply_of_decides hd]
    rfl
  · rw [if_neg hd, Operator.apply_of_not_decides hd]
    rfl

/-- **Reading is compositional.** Of two expressions that have a term, what is read with an operator
between them is what they are read as with the operator between, what is read in parentheses is a group
of what is read without, and so the value of two expressions in parentheses with an operator between
them is the operator applied to the values that they have by themselves. -/
theorem parseTree_compose (hs : parseTree f k s = .ok S) (ht : parseTree f k t = .ok T) (hS : S ≠ [])
    (hT : T ≠ []) (o : Operator) :
    parseTree f k (s ++ " " ++ k.keyword o ++ " " ++ t) = .ok (S ++ .operator o :: T)
      ∧ parseTree f k ("(" ++ s ++ ")") = .ok [.group S]
      ∧ ∃ joined, parseTree f k ("(" ++ s ++ ")" ++ " " ++ k.keyword o ++ " " ++ ("(" ++ t ++ ")"))
          = .ok joined
        ∧ ∀ p, Tree.eval p joined = o.apply (Tree.eval p S) (Tree.eval p T) := by
  refine ⟨parseTree_join hs ht hS hT o, parseTree_group hs hS,
    [.group S, .operator o, .group T], ?_, ?_⟩
  · have hgroupS := parseTree_group hs hS
    have hgroupT := parseTree_group ht hT
    exact parseTree_join hgroupS hgroupT (List.cons_ne_nil _ _) (List.cons_ne_nil _ _) o
  · intro p
    exact Tree.eval_join p S T o

/-- An expression of two terms, and one of a group. -/
theorem parseTree_compose_nested :
    parseTree .operands .standard "a OR b" = .ok [.leaf "a", .operator .or, .leaf "b"]
      ∧ parseTree .operands .standard "(c OR 'd)')"
        = .ok [.group [.leaf "c", .operator .or, .leaf "'d)'"]]
      ∧ parseTree .operands .standard "a OR b AND (c OR 'd)')"
        = .ok [.leaf "a", .operator .or, .leaf "b", .operator .and,
            .group [.leaf "c", .operator .or, .leaf "'d)'"]] := by
  have hs : parseTree .operands .standard (Form.operands.render [.leaf "a", .operator .or, .leaf "b"])
      = .ok [.leaf "a", .operator .or, .leaf "b"] := parseTree_render_operands (by decide) (by decide)
  have ht : parseTree .operands .standard
      (Form.operands.render [.group [.leaf "c", .operator .or, .leaf "'d)'"]])
        = .ok [.group [.leaf "c", .operator .or, .leaf "'d)'"]] :=
    parseTree_render_operands (by decide) (by decide)
  rw [show Form.operands.render [.leaf "a", .operator .or, .leaf "b"] = "a OR b" from rfl] at hs
  rw [show Form.operands.render [.group [.leaf "c", .operator .or, .leaf "'d)'"]] = "(c OR 'd)')"
    from rfl] at ht
  have hjoined := (parseTree_compose hs ht (List.cons_ne_nil _ _) (List.cons_ne_nil _ _) .and).1
  exact ⟨hs, ht, hjoined⟩

end Junction
