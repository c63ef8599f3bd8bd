import Junction.Proofs.Groups
import Junction.Proofs.Refusal
import Junction.Proofs.Reading.Spelled

/-!
# Where operands end

A keyword between two operands is looked for twice. The first operand stops at it: at each of its
characters it asks whether an operator is found there, and keeps in mind the character before. Then the
reader looks for it again, after white space that it skips, and takes the character before from the text.
**The two agree** (`Reader.operator?_afterOperand`): an operand takes the white space that follows
along, so there is none left to skip, and what it keeps in mind is the last character that it took.

So an operand stops at a keyword only if that keyword is read next (`readExpression_operand_ends`). If an
expression is refused right after an operand, then for another reason: a parenthesis that opens, or one
that closes no group, or a quote that is never closed (`Operand.Stop`).
-/

namespace Junction

open Text

variable {k : Keywords}

theorem Text.ne_backslash_of_isQuote {c : Char} (h : isQuote c = true) : c ≠ '\\' := by
  rintro rfl
  cases h

namespace Operand

/-! ### What an operand stops at -/

/-- **What an operand stops at**, `prev` being its last character: the end of the text, a parenthesis, a
quote that is never closed or an operator. -/
inductive Stop (lexicon : Lexicon) (prev : Option Char) : List Char → Prop
  | textEnd : Stop lexicon prev []
  | openParen (cs : List Char) : Stop lexicon prev ('(' :: cs)
  | closeParen (cs : List Char) : Stop lexicon prev (')' :: cs)
  | openQuote {d : Char} {cs : List Char} (quote : isQuote d = true) (unclosed : Quoted.Unclosed d cs) :
      Stop lexicon prev (d :: cs)
  | operator {cs : List Char} {o : Lexeme Operator} (found : lexicon.operator? prev cs = some o) :
      Stop lexicon prev cs

/-- Outside quotes an operand does not go on with a character only for one of these reasons. -/
theorem stop_of_goesOn {lexicon : Lexicon} {prev : Option Char} {c : Char} {cs : List Char}
    (h : goesOn lexicon (.plain prev) c cs = false) : Stop lexicon prev (c :: cs) := by
  rw [goesOn, Bool.and_eq_false_iff, Bool.not_eq_false'] at h
  rcases h with hparen | hmore
  · -- a parenthesis
    rw [isParen, Bool.or_eq_true, beq_iff_eq, beq_iff_eq] at hparen
    rcases hparen with rfl | rfl
    · exact .openParen cs
    · exact .closeParen cs
  · split at hmore
    · -- with a quote it goes on just if the quote is closed
      rename_i hquote
      refine .openQuote hquote ?_
      rw [← Quoted.closing?_eq_none_iff (ne_backslash_of_isQuote hquote)]
      exact Option.not_isSome_iff_eq_none.mp (Bool.eq_false_iff.mp hmore)
    · -- with any other character just if no operator is found there
      rw [Option.isNone_eq_false_iff] at hmore
      obtain ⟨o, ho⟩ := Option.isSome_iff_exists.mp hmore
      exact .operator ho

/-- **An operand that is read stops at one of them.** -/
theorem stop_of_operand? {lexicon : Lexicon} {prev : Option Char} {cs : List Char} {l : Lexeme String}
    (h : operand? lexicon prev cs = some l) : Stop lexicon l.taken.getLast? l.rest := by
  obtain ⟨-, -, hstop⟩ := of_run (readsFrom_of_operand? h).taken_ne_nil (run_of_operand? h).1
  cases hrest : l.rest with
  | nil => exact .textEnd
  | cons c v => exact stop_of_goesOn (hstop c v hrest)

end Operand

namespace Reader

variable {r next : Reader} {l : Lexeme String} {a : String}

/-! ### The two searches for a keyword -/

/-- After an operand there is no white space to skip. -/
theorem ahead_afterOperand (hl : operand? k.lexicon r.behind r.ahead = some l) :
    (r.afterOperand l).ahead = l.rest ∧ (r.afterOperand l).behind = l.taken.getLast? :=
  ahead_of_head (r := r.afterOperand l) <|
    Operand.isBlank_head?_of_run (readsFrom_of_operand? hl).taken_ne_nil (Operand.run_of_operand? hl).1

/-- **The two searches for a keyword agree.** The operand comes outside quotes with its last character in
mind, and where it stops it finds the same operator as the reader does after it, if any. -/
theorem operator?_afterOperand (hl : operand? k.lexicon r.behind r.ahead = some l) :
    (Operand.Mode.plain r.behind).after l.taken = .plain l.taken.getLast?
      ∧ k.lexicon.operator? (r.afterOperand l).behind (r.afterOperand l).ahead
        = k.lexicon.operator? l.taken.getLast? l.rest := by
  obtain ⟨-, hlast, -⟩ :=
    Operand.of_run (readsFrom_of_operand? hl).taken_ne_nil (Operand.run_of_operand? hl).1
  obtain ⟨hahead, hbehind⟩ := ahead_afterOperand hl
  exact ⟨hlast, by rw [hahead, hbehind]⟩

/-! ### What comes after an operand -/

/-- **Why an expression is refused after an operand**: a parenthesis opens there, or closes where no group
is open, or a quote is never closed. -/
theorem refused_afterOperand {expected : KindSet} {u : List Char}
    (hm : Moves .operands k r (.leaf a) next) (h : next.step .operands k = .ends (.wants expected u))
    (hu : u ≠ []) : ∃ c cs, u = c :: cs
      ∧ (c = '(' ∨ c = ')' ∧ next.depth = 0 ∨ isQuote c = true ∧ Quoted.Unclosed c cs) := by
  obtain ⟨l, hl, -, rfl⟩ := hm.exists_operand
  obtain ⟨hahead, hbehind⟩ := ahead_afterOperand hl
  -- the reader wants something else at the place where the operand stopped
  have hrest : l.rest = u := by
    cases stops_of_step h with
    | noTerm hs _ => cases hs
    | noOperator _ ha => rw [← hahead, ha]
    | noLeaf hs _ _ _ => exact absurd rfl hs
  have hstop := Operand.stop_of_operand? hl
  rw [hrest] at hstop hahead
  cases hstop with
  | textEnd => exact absurd rfl hu
  | openParen cs => exact ⟨'(', cs, rfl, .inl rfl⟩
  | closeParen cs =>
    refine ⟨')', cs, rfl, .inr (.inl ⟨rfl, ?_⟩)⟩
    -- in a group the parenthesis would close it
    cases hdepth : (r.afterOperand l).depth with
    | zero => rfl
    | succ depth =>
      have hno : k.lexicon.operator? (r.afterOperand l).behind (')' :: cs) = none :=
        Lexicon.operator?_seam (.cons (by decide) cs)
      have hclose : Moves .operands k (r.afterOperand l) .closeGroup ⟨.done, depth, some ')', cs⟩ :=
        .closeGroup rfl hdepth (by rw [hahead]; exact hno) hahead
      exact absurd hclose (not_moves_of_ends h)
  | @openQuote d cs quote unclosed => exact ⟨d, cs, rfl, .inr (.inr ⟨quote, unclosed⟩)⟩
  | @operator _ o found =>
    -- an operator would be read
    have hoperator : Moves .operands k (r.afterOperand l) (.operator o.value)
        ⟨.due, r.depth, o.taken.getLast?, o.rest⟩ := .operator rfl (by rw [hahead, hbehind]; exact found)
    exact absurd hoperator (not_moves_of_ends h)

end Reader

/-- **Where operands end, the reader agrees.**

If an expression is refused and its last event is an operand, then at the character that is refused a
parenthesis opens, or one closes while no group is open, or a quote is never closed.

Where an operand that is read stops, after the text `s`, it has the last character of `s` in mind. With
this character the operand and the reader after it find the same operator, if any. This very operator is
the next event then, and reading goes on after it. -/
theorem readExpression_operand_ends (k : Keywords) (input : String) :
    (∀ a consumed rest expected,
        (readExpression .operands k input).events.getLast? = some (.leaf a) →
        (readExpression .operands k input).error? = some (.unexpected consumed rest expected) →
          ∃ c cs, rest.toList = c :: cs
            ∧ (c = '('
              ∨ c = ')' ∧ (readExpression .operands k input).events.countP Event.closes
                  = (readExpression .operands k input).events.countP Event.opens
              ∨ isQuote c = true ∧ Quoted.Unclosed c cs))
      ∧ ∀ (events : List (Event String)) (r : Reader) (l : Lexeme String),
        (Reader.start input.toList).Reaches .operands k events r → r.stage ≠ .done →
        operand? k.lexicon r.behind r.ahead = some l →
          (Reader.start input.toList).Reaches .operands k (events ++ [.leaf l.value]) (r.afterOperand l)
            ∧ ∃ s, input.toList = s ++ l.rest
              ∧ (Operand.Mode.plain r.behind).after l.taken = .plain s.getLast?
              ∧ k.lexicon.operator? (r.afterOperand l).behind (r.afterOperand l).ahead
                = k.lexicon.operator? s.getLast? l.rest
              ∧ ∀ o, k.lexicon.operator? s.getLast? l.rest = some o →
                (Reader.start input.toList).Reaches .operands k
                    (events ++ [.leaf l.value, .operator o.value])
                    ⟨.due, r.depth, o.taken.getLast?, o.rest⟩
                  ∧ ∃ later, (readExpression .operands k input).events
                    = events ++ .leaf l.value :: .operator o.value :: later := by
  constructor
  · intro a consumed rest expected hlast herror
    obtain ⟨u, hu, hends, rfl, -⟩ := Ending.of_error?_eq_unexpected herror
    obtain ⟨q, hreach, hstep⟩ := Reader.exists_reaches .operands k (Reader.start input.toList)
    obtain ⟨m, hm⟩ := hreach.exists_last hlast
    rw [hends] at hstep
    obtain ⟨c, cs, rfl, hwhy⟩ := Reader.refused_afterOperand hm hstep hu
    refine ⟨c, cs, String.toList_ofList, hwhy.imp_right (.imp_left fun ⟨hc, hdepth⟩ => ⟨hc, ?_⟩)⟩
    -- no group is open just if as many have been closed as opened
    have hcount := hreach.depth_eq
    rw [hdepth] at hcount
    exact (Nat.zero_add _).symm.trans (hcount.trans (Nat.zero_add _))
  · intro events r l hreach hs hl
    have hleaf := Reader.moves_operand hs hl
    obtain ⟨hlast, hsame⟩ := Reader.operator?_afterOperand hl
    have hread := hreach.append (.move hleaf (.here _))
    -- the last character of the operand is that of all the text before
    obtain ⟨s, hinput, hprev⟩ := hread.exists_rest_eq
    have hs' : l.taken.getLast? = s.getLast? := hprev.trans Option.or_none
    rw [hs'] at hlast hsame
    refine ⟨hread, s, hinput, hlast, hsame, fun o ho => ?_⟩
    have hoperator : (r.afterOperand l).Moves .operands k (.operator o.value)
        ⟨.due, r.depth, o.taken.getLast?, o.rest⟩ := .operator rfl (hsame.trans ho)
    have hall := hreach.append (.move hleaf (.move hoperator (.here _)))
    have hrun := congrArg Prod.fst hall.run_eq
    rw [List.append_assoc] at hrun
    exact ⟨hall, _, hrun⟩

/-- An operand stops at a keyword, and not at the letters of it that it begins with; and a quote is never
closed. -/
theorem readExpression_operand_ends_keyword :
    (readExpression .operands .standard "ORb or c 'd").events
        = [.leaf "ORb", .operator .or, .leaf "c"]
      ∧ (readExpression .operands .standard "ORb or c 'd").error?
        = some (.unexpected "ORb or c " "'d" (afterTerm 0))
      ∧ Quoted.Unclosed '\'' ['d']
      ∧ operand? Keywords.standard.lexicon none "ORb or c 'd".toList
        = some ⟨"ORb", "ORb ".toList, "or c 'd".toList⟩
      ∧ Keywords.standard.lexicon.operator? (some ' ') "or c 'd".toList
        = some ⟨.or, "or".toList, " c 'd".toList⟩
      ∧ (Reader.start "ORb or c 'd".toList).Reaches .operands .standard
          [.leaf "ORb", .operator .or] ⟨.due, 0, some 'r', " c 'd".toList⟩ := by
  have hleaf : (Reader.start "ORb or c 'd".toList).Moves .operands .standard (.leaf "ORb")
      ⟨.done, 0, some ' ', "or c 'd".toList⟩ := Reader.step_eq_event_iff.mp rfl
  have hoperator : (Reader.mk .done 0 (some ' ') "or c 'd".toList).Moves .operands .standard
      (.operator .or) ⟨.due, 0, some 'r', " c 'd".toList⟩ := Reader.step_eq_event_iff.mp rfl
  have hleaf' : (Reader.mk .due 0 (some 'r') " c 'd".toList).Moves .operands .standard (.leaf "c")
      ⟨.done, 0, some ' ', "'d".toList⟩ := Reader.step_eq_event_iff.mp rfl
  have hread : readExpression .operands .standard "ORb or c 'd"
      = ⟨[.leaf "ORb", .operator .or, .leaf "c"],
        some (.unexpected "ORb or c " "'d" (afterTerm 0))⟩ := by
    rw [readExpression, Reader.run_of_moves hleaf, Reader.run_of_moves hoperator,
      Reader.run_of_moves hleaf', Reader.run_eq]
    rfl
  have hfound : operand? Keywords.standard.lexicon none "ORb or c 'd".toList
      = some ⟨"ORb", "ORb ".toList, "or c 'd".toList⟩ := rfl
  have hkeyword : Keywords.standard.lexicon.operator? (some ' ') "or c 'd".toList
      = some ⟨.or, "or".toList, " c 'd".toList⟩ := rfl
  obtain ⟨hrefused, hnext⟩ := readExpression_operand_ends .standard "ORb or c 'd"
  -- the character that is refused is no parenthesis
  have hunclosed : Quoted.Unclosed '\'' ['d'] := by
    obtain ⟨c, cs, hcs, hwhy⟩ := hrefused "c" "ORb or c " "'d" (afterTerm 0) (by rw [hread]; rfl)
      (by rw [hread])
    obtain ⟨rfl, rfl⟩ := List.cons.inj hcs
    rcases hwhy with hopen | ⟨hclose, -⟩ | ⟨-, hunclosed⟩
    · exact absurd hopen (by decide)
    · exact absurd hclose (by decide)
    · exact hunclosed
  -- the first operand has the blank in mind, and with it the reader finds the keyword
  obtain ⟨-, s, -, hlast, -, hagree⟩ :=
    hnext [] (Reader.start "ORb or c 'd".toList) _ (.here _) (by decide) hfound
  rw [← Operand.Mode.plain.inj hlast] at hagree
  obtain ⟨hreach, -⟩ := hagree _ hkeyword
  exact ⟨congrArg Outcome.events hread, congrArg Outcome.error? hread, hunclosed, hfound, hkeyword,
    hreach⟩

end Junction
