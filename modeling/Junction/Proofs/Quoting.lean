import Junction.Proofs.Reading.Comparisons
import Junction.Proofs.Reading.Layout

/-!
# Values in quotes

A program that puts values into an expression writes them in quotes. `parseTree_quoted`: **then no value
can change the structure of the expression**. Whatever strings stand in the place of its terms, a text
that lays out an expression with each of them in quotes is accepted, its tree is the one meant, and the
strings come back out of it.

The structure is a tree whose leaves are what is to be put in: a string where leaves are operands, and
where they are conditions a `Query`, two strings with a comparison operator between them. The keywords
are any that can be told apart, and both they and the comparison operators may be written in any ASCII
case; white space may be left out everywhere but within an operator of two words.
-/

namespace Junction

open Text Quoted

variable {k : Keywords}

/-! ### Operands -/

/-- An operand goes on through a protected text, to the quote that ends it. -/
theorem Operand.through_escape (lexicon : Lexicon) (u cs : List Char) :
    Through lexicon u (.quoted '\'') (escape cs ++ ['\''])
      ∧ (Mode.quoted '\'').after (escape cs ++ ['\'']) = .plain (some '\'') := by
  induction cs with
  | nil => exact ⟨⟨rfl, trivial⟩, rfl⟩
  | cons c cs ih =>
    by_cases h : c = '\'' ∨ c = '\\'
    · -- the backslash takes the character along, and the run goes on
      rw [escape, if_pos h]
      exact ⟨⟨rfl, rfl, ih.1⟩, ih.2⟩
    · have hnext : (Mode.quoted '\'').next c = .quoted '\'' := by
        rw [Mode.next, Mode.within, if_neg fun hc => h (.inr hc), if_neg fun hc => h (.inl hc)]
      rw [escape, if_neg h]
      refine ⟨⟨rfl, ?_⟩, ?_⟩
      · rw [hnext]
        exact ih.1
      · rw [List.cons_append, Mode.after_cons, hnext]
        exact ih.2

/-- A text in quotes, character by character. -/
theorem Quoted.toList_quote (s : String) : (quote s).toList = '\'' :: (escape s.toList ++ ['\'']) := by
  rw [quote, String.toList_ofList]
  rfl

theorem Quoted.getLast?_quote (s : String) : (quote s).toList.getLast? = some '\'' := by
  rw [toList_quote, ← List.cons_append, List.getLast?_append]
  rfl

/-- An operand goes on through a text in quotes. -/
theorem Operand.through_quote (lexicon : Lexicon) (prev : Option Char) (s : String) (u : List Char) :
    Through lexicon u (.plain prev) (quote s).toList
      ∧ (Mode.plain prev).after (quote s).toList = .plain (some '\'') := by
  obtain ⟨hthrough, hafter⟩ := through_escape lexicon u s.toList
  rw [toList_quote]
  refine ⟨⟨?_, hthrough⟩, hafter⟩
  -- an operand goes on at a quote that is closed
  have hclosed : closing? '\'' (escape s.toList ++ ['\''] ++ u)
      = some (escape s.toList ++ ['\''], u) := by
    rw [List.append_assoc]
    exact closing?_escape s.toList u
  change (true && (closing? '\'' (escape s.toList ++ ['\''] ++ u)).isSome) = true
  rw [hclosed]
  rfl

/-- **A string in quotes is read as an operand.** -/
theorem readsQuoted_operand (s : String) :
    Form.operands.ReadsQuoted k (quote s) (quote s).toList where
  head := by
    rw [toList_quote]
    rfl
  last := getLast?_quote s
  reads prev u hends := by
    obtain ⟨hthrough, hafter⟩ := Operand.through_quote k.lexicon prev s u
    -- an operand takes the white space after it along, and leaves it out of its text
    refine ⟨u.takeWhile isBlank, skipBlank u, (takeWhile_append_skipBlank u).symm,
      isBlank_of_mem_takeWhile, ?_⟩
    have hrun := hthrough.run_append
    rw [hafter, hends] at hrun
    have htrim : trimEnd ((quote s).toList ++ u.takeWhile isBlank) = (quote s).toList :=
      trimEnd_append (getLast?_quote s) (by decide) isBlank_of_mem_takeWhile
    have hread : operand? k.lexicon prev ((quote s).toList ++ u)
        = some ⟨String.ofList (trimEnd ((quote s).toList ++ u.takeWhile isBlank)),
          (quote s).toList ++ u.takeWhile isBlank, skipBlank u⟩ := by
      rw [operand?, hrun, toList_quote]
      rfl
    rw [Form.readLeaf, hread, htrim, String.ofList_toList]

/-! ### Conditions -/

/-- **What a condition is to ask**: two strings with a comparison operator between them. -/
structure Query where
  left : String
  comparison : Comparison
  right : String
  deriving DecidableEq

namespace Query

/-- The condition that asks it. -/
def condition (q : Query) : Condition := ⟨q.left, q.comparison.text, q.right⟩

/-- **The query in quotes**: both strings are quoted, the operator is spelled in any ASCII case, and
white space may stand around it. -/
inductive Written (q : Query) : List Char → Prop
  | mk {b o b' : List Char} (blank : ∀ c ∈ b, isBlank c = true)
      (spelled : Text.Written q.comparison.spelling o) (blank' : ∀ c ∈ b', isBlank c = true) :
      Written q ((quote q.left).toList ++ (b ++ (o ++ (b' ++ (quote q.right).toList))))

end Query

/-- White space in front of a text in quotes. -/
theorem skipBlank_quote {b : List Char} (hb : ∀ c ∈ b, isBlank c = true) (s : String)
    (u : List Char) : skipBlank (b ++ ((quote s).toList ++ u)) = (quote s).toList ++ u := by
  rw [skipBlank_append_of_blank hb, toList_quote]
  exact skipBlank_cons (by decide) _

/-- **A query in quotes is read as its condition**, whatever follows it. -/
theorem Query.Written.readCondition {q : Query} {w : List Char} (h : q.Written w) (u : List Char) :
    Junction.readCondition (w ++ u) = .read ⟨q.condition, w, u⟩ := by
  cases h with
  | @mk b o b' blank spelled blank' =>
    -- the operator begins with no white space, and after it comes a quote
    have hskip : skipBlank (o ++ (b' ++ ((quote q.right).toList ++ u)))
        = o ++ (b' ++ ((quote q.right).toList ++ u)) :=
      spelled.skipBlank_append q.comparison.solid_of_mem_spelling _
    have hskip' := skipBlank_quote blank' q.right u
    have hquote : skipBlank (b' ++ ((quote q.right).toList ++ u))
        = '\'' :: (escape q.right.toList ++ ['\''] ++ u) := by
      rw [hskip', toList_quote]
      rfl
    have hcomparison : comparison? (skipBlank (b ++ (o ++ (b' ++ ((quote q.right).toList ++ u)))))
        = some ⟨q.comparison, o, b' ++ ((quote q.right).toList ++ u)⟩ := by
      rw [skipBlank_append_of_blank blank, hskip]
      exact comparison?_written spelled hquote
    have hright : valueOperand? (skipBlank (b' ++ ((quote q.right).toList ++ u)))
        = some ⟨q.right, (quote q.right).toList, u⟩ := by
      rw [hskip']
      exact conditionOperand?_quote q.right
    -- so the three parts are read one after the other
    have hread := readCondition_of_parts (conditionOperand?_quote q.left) hcomparison hright
    simp only [takeWhile_isBlank_append blank hskip,
      takeWhile_isBlank_append blank' ((skipBlank_append_of_blank blank' _).symm.trans hskip')]
      at hread
    simp only [List.append_assoc] at hread ⊢
    exact hread

/-- A query in quotes is read as a leaf. -/
theorem readsQuoted_condition {q : Query} {w : List Char} (h : q.Written w) :
    Form.conditions.ReadsQuoted k q.condition w where
  head := by
    cases h with
    | mk =>
      rw [toList_quote]
      rfl
  last := by
    cases h with
    | mk =>
      simp only [List.getLast?_append, getLast?_quote, Option.some_or]
  reads _ u _ := by
    -- a condition takes nothing along
    refine ⟨[], u, rfl, List.forall_mem_nil _, ?_⟩
    rw [List.append_nil]
    exact h.readCondition u

/-! ### Expressions -/

section Expressions

variable {f : Form} {α : Type} {leaf : α → List Char → Prop} {g : α → f.Leaf}

/-- A text that lays out a tree has this tree, if its leaves are in quotes. -/
theorem parseTree_of_layout (hleaf : ∀ a w, leaf a w → f.ReadsQuoted k (g a) w) {t : Tree α}
    (ht : t.WellFormed) {text : String}
    (h : Layout (Event.WrittenAs k leaf) t.events text.toList) :
    parseTree f k text = .ok (Tree.map g t) := by
  rw [parseTree_eq_ok_iff, readExpression_eq_iff, Tree.events_map]
  by_cases hne : t = []
  · -- nothing but white space lays out the empty tree
    subst hne
    cases h with
    | nil blank =>
      have hahead : (Reader.start text.toList).ahead = [] := skipBlank_eq_nil_iff.mpr blank
      rw [Reader.run_eq, Reader.step_end hahead]
      rfl
  · have hevents : t.events.map (Event.map g) ≠ [] :=
      fun hnil => Tree.events_ne_nil hne (List.map_eq_nil_iff.mp hnil)
    -- a tree that has an element begins with a term
    refine (Reader.run_fresh_iff hevents 0 none _).mpr ?_
    exact ((ht.follows hne).run_layout hleaf h nofun).1

end Expressions

/-- **No value in quotes changes the structure of an expression.** -/
theorem parseTree_quoted (k : Keywords) :
    (∀ (t : Tree String) (text : String), t.WellFormed →
      Layout (Event.WrittenAs k fun s w => w = (quote s).toList) t.events text.toList →
        parseTree .operands k text = .ok (Tree.map quote t)
          ∧ Tree.map dequote (Tree.map quote t) = t)
      ∧ ∀ (t : Tree Query) (text : String), t.WellFormed →
        Layout (Event.WrittenAs k Query.Written) t.events text.toList →
          parseTree .conditions k text = .ok (Tree.map Query.condition t) := by
  refine ⟨fun t text ht h => ⟨?_, ?_⟩, fun t text ht h => ?_⟩
  · refine parseTree_of_layout (fun s w hw => ?_) ht h
    rw [hw]
    exact readsQuoted_operand s
  · rw [Tree.map_map]
    simp only [dequote_quote]
    exact Tree.map_id t
  · exact parseTree_of_layout (fun q w hw => readsQuoted_condition hw) ht h

/-- Keywords of which one begins the other. -/
def Keywords.ampersands : Keywords := ⟨"&", "&&", by decide⟩

/-- The values hold a keyword, a parenthesis and a quote. -/
theorem parseTree_quoted_ampersands :
    parseTree .operands .ampersands "'x & (y'&&( 'it\\'s')"
        = .ok [.leaf "'x & (y'", .operator .or, .group [.leaf "'it\\'s'"]]
      ∧ parseTree .conditions .ampersands "'a b'Not  Like'&'" = .ok [.leaf ⟨"a b", "NOT LIKE", "&"⟩] := by
  have hnil : ∀ c ∈ ([] : List Char), isBlank c = true := List.forall_mem_nil _
  have hor : sameCaseless "&&".toList (Keywords.ampersands.keyword .or).toList = true := by decide
  -- there is no white space but in front of the operand in the group
  have hoperands : Layout (Event.WrittenAs .ampersands fun s w => w = (quote s).toList)
      (Tree.events [.leaf "x & (y", .operator .or, .group [.leaf "it's"]])
      ([] ++ ((quote "x & (y").toList ++ ([] ++ ("&&".toList ++ ([] ++ (['('] ++ ([' ']
        ++ ((quote "it's").toList ++ ([] ++ ([')'] ++ [])))))))))) :=
    .cons hnil rfl <| .cons hnil hor <| .cons hnil rfl <| .cons isBlank_of_mem_space rfl <|
      .cons hnil rfl <| .nil hnil
  -- the operator is written in two words, two blanks between them
  have hblank : ∀ c ∈ [' ', ' '], isBlank c = true := by
    intro c hc
    obtain rfl : c = ' ' := List.eq_of_mem_replicate (n := 2) hc
    rfl
  have hlike : Text.Written Comparison.notLike.spelling
      ("Not".toList ++ ([' ', ' '] ++ "Like".toList)) :=
    .more (by decide) (List.cons_ne_nil _ _) hblank (.last (by decide))
  have hquery : Layout (Event.WrittenAs .ampersands Query.Written)
      (Tree.events [.leaf ⟨"a b", .notLike, "&"⟩])
      ([] ++ (((quote "a b").toList ++ ([] ++ (("Not".toList ++ ([' ', ' '] ++ "Like".toList))
        ++ ([] ++ (quote "&").toList)))) ++ [])) :=
    .cons hnil (.mk hnil hlike hnil) (.nil hnil)
  obtain ⟨hall, hall'⟩ := parseTree_quoted .ampersands
  exact ⟨(hall _ "'x & (y'&&( 'it\\'s')" (by decide) hoperands).1,
    hall' _ "'a b'Not  Like'&'" (by decide) hquery⟩

end Junction
