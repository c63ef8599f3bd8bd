import Junction.Proofs.Reading.Layout
import Junction.Proofs.Reading.Rendered

/-!
# Reading operands is a scan

The reader knows at each point what may come there, and reads nothing else. Where leaves are operands
it need not: `Scan.pieces` cuts a text from left to right at parentheses and keywords, knowing only
whether it is in quotes, and **the events of an expression that is accepted are those of its pieces**
(`readExpression_scan`), white space at the ends of a stretch between two cuts aside.

The scan looks for keywords by itself (`Scan.occurs`) and takes a stretch as it comes, where the reader
goes on along an operand and stops; `Scan.pieces_through` says that the two agree for each
character that an operand goes on with. So what remains to be shown of a run is that an operand stops
at a cut. It does, since something else can be read after it: the induction along the run carries that
after a term, white space aside, the next piece is no stretch.
-/

namespace Junction

open Text

namespace Scan

/-! ### The scan -/

/-- **A piece of a text**, as the scan cuts it. -/
inductive Piece where
  | openParen
  | closeParen
  /-- A keyword, as it is written. -/
  | keyword (o : Operator) (written : List Char)
  /-- What stands between two cuts. -/
  | stretch (text : List Char)

/-- Where the scan stands. -/
inductive Place where
  /-- Outside quotes, after the character `prev`. -/
  | outside (prev : Option Char)
  /-- In a quoted run that `delimiter` ends. -/
  | inside (delimiter : Char)
  /-- In such a run, after a backslash. -/
  | guarded (delimiter : Char)

/-- The text of a piece. -/
def Piece.text : Piece → List Char
  | openParen => ['(']
  | closeParen => [')']
  | keyword _ written => written
  | stretch text => text

/-- The event that a piece is. A stretch is an operand, if it is more than white space. -/
def Piece.event? : Piece → Option (Event String)
  | openParen => some .openGroup
  | closeParen => some .closeGroup
  | keyword o _ => some (.operator o)
  | stretch text =>
    let trimmed := trimEnd (skipBlank text)
    if trimmed = [] then none else some (.leaf (String.ofList trimmed))

/-- One more character in front, which is no cut. -/
def addTo (c : Char) : List Piece → List Piece
  | .stretch text :: later => .stretch (c :: text) :: later
  | later => .stretch [c] :: later

/-- Two characters side by side are both word characters. -/
def touch (c d : Option Char) : Bool := c.any isWord && d.any isWord

/-- **A word occurs at the front of `cs`**, after the character `prev`: in any ASCII case, and at neither
end touching a word character with one of its own. -/
def occurs (word : List Char) (prev : Option Char) (cs : List Char) : Bool :=
  sameCaseless (cs.take word.length) word
    && !touch prev (cs.take word.length).head?
    && !touch (cs.take word.length).getLast? (cs.drop word.length).head?

/-- **The pieces of a text**, from a place on. -/
def pieces (lexicon : Lexicon) : Place → List Char → List Piece
  | _, [] => []
  | .outside prev, c :: cs =>
    if c = '(' then .openParen :: pieces lexicon (.outside (some c)) cs
    else if c = ')' then .closeParen :: pieces lexicon (.outside (some c)) cs
    else if isQuote c then addTo c (pieces lexicon (.inside c) cs)
    else
      match lexicon.find? fun entry => occurs entry.1 prev (c :: cs) with
      | some (word, o) =>
        .keyword o (c :: cs.take (word.length - 1)) ::
          pieces lexicon (.outside (c :: cs.take (word.length - 1)).getLast?)
            (cs.drop (word.length - 1))
      | none => addTo c (pieces lexicon (.outside (some c)) cs)
  | .inside d, c :: cs =>
    if c = '\\' then addTo c (pieces lexicon (.guarded d) cs)
    else if c = d then addTo c (pieces lexicon (.outside (some c)) cs)
    else addTo c (pieces lexicon (.inside d) cs)
  | .guarded d, c :: cs => addTo c (pieces lexicon (.inside d) cs)
termination_by _ cs => cs.length
decreasing_by all_goals simp only [List.length_cons, List.length_drop]; omega

section Pieces

variable {k : Keywords} {lexicon : Lexicon} {prev : Option Char}

/-! ### Nothing is lost -/

theorem flatMap_text_addTo (c : Char) (ps : List Piece) :
    (addTo c ps).flatMap Piece.text = c :: ps.flatMap Piece.text := by
  cases ps with
  | nil => rfl
  | cons p ps => cases p <;> rfl

/-- **The pieces of a text make it up.** -/
theorem flatMap_text_pieces (lexicon : Lexicon) (place : Place) (cs : List Char) :
    (pieces lexicon place cs).flatMap Piece.text = cs := by
  fun_induction pieces lexicon place cs with
  | case1 => rfl
  | case2 prev cs ih => rw [List.flatMap_cons, ih, Piece.text, List.singleton_append]
  | case3 prev cs _ ih => rw [List.flatMap_cons, ih, Piece.text, List.singleton_append]
  | case5 prev c cs _ _ _ word o _ ih =>
    -- what is taken for the keyword is what the scan goes on after
    rw [List.flatMap_cons, ih, Piece.text, List.cons_append, List.take_append_drop]
  | _ =>
    -- no cut: the character is put in front of what the later ones make up
    rename_i ih
    rw [flatMap_text_addTo, ih]

/-! ### Keywords -/

/-- A keyword is found just if it occurs. -/
theorem keyword?_eq (word : List Char) (prev : Option Char) (cs : List Char) :
    keyword? word prev cs
      = if occurs word prev cs then some (cs.take word.length, cs.drop word.length) else none := by
  unfold keyword? word? occurs
  cases hsame : sameCaseless (cs.take word.length) word with
  | false => rfl
  | true =>
    -- what is written has word characters at its ends where the word has
    have hhead := head?_any_of_sameCaseless caseless_isWord hsame
    have hlast := getLast?_any_of_sameCaseless caseless_isWord hsame
    rw [if_pos rfl, List.splitAt_eq, touch, touch, hhead, hlast, Bool.and_comm (prev.any isWord)]
    dsimp only
    cases word.head?.any isWord && prev.any isWord with
    | true => rfl
    | false =>
      cases word.getLast?.any isWord && (cs.drop word.length).head?.any isWord <;> rfl

/-- **The operator that is found** is the first that occurs. -/
theorem operator?_eq (lexicon : Lexicon) (prev : Option Char) (cs : List Char) :
    lexicon.operator? prev cs = (lexicon.find? fun entry => occurs entry.1 prev cs).map fun entry =>
      ⟨entry.2, cs.take entry.1.length, cs.drop entry.1.length⟩ := by
  unfold Lexicon.operator?
  induction lexicon with
  | nil => rfl
  | cons entry lexicon ih =>
    obtain ⟨word, o⟩ := entry
    have hfound := keyword?_eq word prev cs
    rw [List.findSome?_cons, List.find?_cons]
    -- a keyword that occurs is found, and takes as many characters as it has
    cases hoccurs : occurs word prev cs with
    | true =>
      rw [hoccurs, if_pos rfl] at hfound
      simp only [hfound, Option.map_some]
    | false =>
      rw [hoccurs, if_neg Bool.false_ne_true] at hfound
      simp only [hfound, Option.map_none]
      exact ih

/-- **The scan makes a cut where an operator is found.** -/
theorem pieces_operator {o : Lexeme Operator} {cs : List Char}
    (h : k.lexicon.operator? prev cs = some o) :
    pieces k.lexicon (.outside prev) cs
      = .keyword o.value o.taken :: pieces k.lexicon (.outside o.taken.getLast?) o.rest := by
  -- no keyword begins with a parenthesis or a quote
  obtain ⟨c, cs, rfl, hc⟩ := Lexicon.exists_cons_of_operator? h
  obtain ⟨-, hparen, hquote⟩ := isReserved_eq_false_iff.mp hc
  rw [isParen, Bool.or_eq_false_iff, beq_eq_false_iff_ne, beq_eq_false_iff_ne] at hparen
  rw [operator?_eq] at h
  obtain ⟨⟨word, op⟩, hfind, rfl⟩ := Option.map_eq_some_iff.mp h
  -- and none is empty, so the scan goes on after less text
  have hword : word ≠ [] := Keywords.ne_nil_of_mem_lexicon (List.mem_of_find?_eq_some hfind)
  obtain ⟨n, hn⟩ := Nat.exists_eq_succ_of_ne_zero fun h0 => hword (List.length_eq_zero_iff.mp h0)
  rw [pieces, if_neg hparen.1, if_neg hparen.2, hquote, if_neg Bool.false_ne_true, hfind]
  simp only [hn, List.take_succ_cons, List.drop_succ_cons, Nat.succ_eq_add_one, Nat.add_sub_cancel]

theorem pieces_openParen (cs : List Char) : pieces lexicon (.outside prev) ('(' :: cs)
    = .openParen :: pieces lexicon (.outside (some '(')) cs := by
  rw [pieces, if_pos rfl]

theorem pieces_closeParen (cs : List Char) : pieces lexicon (.outside prev) (')' :: cs)
    = .closeParen :: pieces lexicon (.outside (some ')')) cs := by
  rw [pieces, if_neg (by decide), if_pos rfl]

/-! ### Stretches -/

/-- The place of the scan where an operand is read in a mode. -/
def Place.ofMode : Operand.Mode → Place
  | .plain prev => .outside prev
  | .quoted d => .inside d
  | .escaped d => .guarded d

/-- Where an operand goes on with a character the scan makes no cut. -/
theorem pieces_cons {m : Operand.Mode} {c : Char} {cs : List Char}
    (h : Operand.goesOn k.lexicon m c cs = true) :
    pieces k.lexicon (.ofMode m) (c :: cs) = addTo c (pieces k.lexicon (.ofMode (m.next c)) cs) := by
  cases m with
  | plain prev =>
    rw [Operand.goesOn, Bool.and_eq_true, Bool.not_eq_true', isParen, Bool.or_eq_false_iff] at h
    -- neither a parenthesis nor an operator ends the piece
    obtain ⟨⟨hopen, hclose⟩, hmore⟩ := h
    rw [Place.ofMode, pieces, if_neg (beq_eq_false_iff_ne.mp hopen),
      if_neg (beq_eq_false_iff_ne.mp hclose), Operand.Mode.next]
    by_cases hquote : isQuote c = true
    · rw [if_pos hquote, if_pos hquote, Place.ofMode]
    · rw [if_neg hquote, operator?_eq, Option.isNone_map] at hmore
      rw [if_neg hquote, if_neg hquote, Option.isNone_iff_eq_none.mp hmore, Place.ofMode]
  | quoted d =>
    rw [Place.ofMode, pieces, Operand.Mode.next, Operand.Mode.within]
    -- in quotes every character belongs to the piece
    by_cases hback : c = '\\'
    · rw [if_pos hback, if_pos hback, Place.ofMode]
    · by_cases hend : c = d
      · rw [if_neg hback, if_neg hback, if_pos hend, if_pos hend, Place.ofMode]
      · rw [if_neg hback, if_neg hback, if_neg hend, if_neg hend, Place.ofMode]
  | escaped d =>
    rw [Place.ofMode, pieces, Operand.Mode.next, Place.ofMode]

/-- **The scan takes along what an operand goes on with.** -/
theorem pieces_through {m : Operand.Mode} {t u : List Char}
    (h : Operand.Through k.lexicon u m t) :
    pieces k.lexicon (.ofMode m) (t ++ u)
      = t.foldr addTo (pieces k.lexicon (.ofMode (m.after t)) u) := by
  induction t generalizing m with
  | nil => rfl
  | cons c t ih =>
    obtain ⟨hgoes, hlater⟩ := h
    rw [List.cons_append, pieces_cons hgoes, ih hlater]
    rfl

/-- The first piece is no stretch. -/
def IsCut (ps : List Piece) : Prop := ∀ text later, ps ≠ .stretch text :: later

/-- What stands before a cut is one stretch. -/
theorem foldr_addTo_of_isCut {t : List Char} {ps : List Piece} (ht : t ≠ []) (hps : IsCut ps) :
    t.foldr addTo ps = .stretch t :: ps := by
  induction t with
  | nil => exact absurd rfl ht
  | cons c t ih =>
    -- the last character begins the stretch, and each other one goes in front of it
    by_cases hnil : t = []
    · subst hnil
      rw [List.foldr_cons, List.foldr_nil, addTo]
      exact hps
    · rw [List.foldr_cons, ih hnil, addTo]

/-- A blank in front is trimmed off a stretch, and is no event by itself. -/
theorem filterMap_addTo {c : Char} (hc : isBlank c = true) (ps : List Piece) :
    (addTo c ps).filterMap Piece.event? = ps.filterMap Piece.event? := by
  -- white space in front of a stretch makes no difference to its event
  have hstretch : ∀ text, (Piece.stretch (c :: text)).event? = (Piece.stretch text).event? := by
    intro text
    have hskip : skipBlank (c :: text) = skipBlank text := List.dropWhile_cons_of_pos hc
    rw [Piece.event?, Piece.event?, hskip]
  unfold addTo
  split
  · rw [List.filterMap_cons, List.filterMap_cons, hstretch]
  · rw [List.filterMap_cons, hstretch]
    rfl

/-- White space in front makes no difference to the events. -/
theorem filterMap_foldr_addTo {b : List Char} (hb : ∀ c ∈ b, isBlank c = true) (ps : List Piece) :
    (b.foldr addTo ps).filterMap Piece.event? = ps.filterMap Piece.event? := by
  induction b with
  | nil => rfl
  | cons c b ih =>
    obtain ⟨hc, hb⟩ := List.forall_mem_cons.mp hb
    rw [List.foldr_cons, filterMap_addTo hc, ih hb]

end Pieces

/-! ### The run -/

section Run

variable {k : Keywords} {r next : Reader}

/-- White space in front of the next event is no event. -/
theorem filterMap_pieces (k : Keywords) (r : Reader) :
    (pieces k.lexicon (.outside r.prev) r.rest).filterMap Piece.event?
      = (pieces k.lexicon (.outside r.behind) r.ahead).filterMap Piece.event? := by
  obtain ⟨hthrough, hafter⟩ : Operand.Through k.lexicon r.ahead (.plain r.prev)
      (r.rest.takeWhile isBlank) ∧ _ := Operand.through_blank isBlank_of_mem_takeWhile
  have hpieces := pieces_through hthrough
  rw [hafter, r.takeWhile_append_ahead] at hpieces
  rw [show Place.outside r.prev = .ofMode (.plain r.prev) from rfl, hpieces,
    filterMap_foldr_addTo isBlank_of_mem_takeWhile]
  rfl

/-- **The scan agrees with a run** from `r` that reads `events`. -/
structure Agrees (k : Keywords) (r : Reader) (events : List (Event String)) : Prop where
  events_eq : events = (pieces k.lexicon (.outside r.prev) r.rest).filterMap Piece.event?
  /-- After a term, and where no white space is to be skipped, there is a cut. -/
  cut : r.stage = .done → (∀ c ∈ r.rest.head?, isBlank c = false) →
    IsCut (pieces k.lexicon (.outside r.prev) r.rest)

/-- The scan agrees where a cut is next. -/
theorem Agrees.of_cut {p : Piece} {e : Event String} {events : List (Event String)} {cs : List Char}
    {prev : Option Char} (hpieces : pieces k.lexicon (.outside r.behind) r.ahead
      = p :: pieces k.lexicon (.outside prev) cs) (hp : p.event? = some e)
    (hcut : ∀ text, p ≠ .stretch text)
    (h : events = (pieces k.lexicon (.outside prev) cs).filterMap Piece.event?) :
    Agrees k r (e :: events) where
  events_eq := by rw [filterMap_pieces, hpieces, List.filterMap_cons, hp, h]
  cut _ hhead := by
    obtain ⟨hahead, hbehind⟩ := Reader.ahead_of_head hhead
    rw [← hahead, ← hbehind, hpieces]
    intro text later heq
    exact hcut text (List.cons.inj heq).1

/-- An operand that is read is a stretch, if a cut comes after it. -/
theorem pieces_operand {l : Lexeme String} {prev : Option Char} {cs : List Char}
    (hl : operand? k.lexicon prev cs = some l)
    (hcut : IsCut (pieces k.lexicon (.outside l.taken.getLast?) l.rest)) :
    pieces k.lexicon (.outside prev) cs
      = .stretch l.taken :: pieces k.lexicon (.outside l.taken.getLast?) l.rest := by
  have hreads := readsFrom_of_operand? hl
  obtain ⟨hthrough, hend, -⟩ := Operand.of_run hreads.taken_ne_nil (Operand.run_of_operand? hl).1
  have hall := pieces_through hthrough
  rw [hend, hreads.taken_append_rest] at hall
  exact hall.trans (foldr_addTo_of_isCut hreads.taken_ne_nil hcut)

/-- Such a stretch is the event of the operand. -/
theorem event?_operand {l : Lexeme String} {prev : Option Char} {c : Char} {cs : List Char}
    (hl : operand? k.lexicon prev (c :: cs) = some l) (hc : isBlank c = false) :
    (Piece.stretch l.taken).event? = some (.leaf l.value) := by
  have hreads := readsFrom_of_operand? hl
  -- its first character is no white space, and is left when it is trimmed
  obtain ⟨a, htrim⟩ := exists_trimEnd_eq hc hreads.taken_ne_nil hreads.taken_append_rest
  have hskip : skipBlank l.taken = l.taken := by
    obtain ⟨d, t, ht⟩ := List.exists_cons_of_ne_nil hreads.taken_ne_nil
    have hsplit := hreads.taken_append_rest
    rw [ht] at hsplit ⊢
    rw [(List.cons.inj hsplit).1]
    exact skipBlank_cons hc t
  rw [Piece.event?, hskip, (Operand.run_of_operand? hl).2]
  exact if_neg (by rw [htrim]; exact List.cons_ne_nil c a)

/-- The scan agrees where an operand is next. -/
theorem Agrees.leaf {l : Lexeme String} {c : Char} {cs : List Char} {depth : Nat}
    {events : List (Event String)} (hs : r.stage ≠ .done) (ha : r.ahead = c :: cs)
    (hl : operand? k.lexicon r.behind (c :: cs) = some l)
    (h : Agrees k ⟨.done, depth, l.taken.getLast?, l.rest⟩ events) :
    Agrees k r (.leaf l.value :: events) := by
  have hne := (readsFrom_of_operand? hl).taken_ne_nil
  -- the operand stops before a character that is not white space, so there is a cut
  have hcut : IsCut (pieces k.lexicon (.outside l.taken.getLast?) l.rest) :=
    h.cut rfl (Operand.isBlank_head?_of_run hne (Operand.run_of_operand? hl).1)
  refine ⟨?_, fun hdone => absurd hdone hs⟩
  rw [filterMap_pieces, ha, pieces_operand hl hcut, List.filterMap_cons,
    event?_operand hl (isBlank_of_skipBlank_eq ha), h.events_eq]

/-- **The scan agrees with every run that is complete.** -/
theorem agrees_run (r : Reader) (h : (r.run .operands k).2 = .complete) :
    Agrees k r (r.run .operands k).1 := by
  refine Reader.run_induct (f := .operands) (k := k)
    (motive := fun r events ending => ending = .complete → Agrees k r events) ?_ ?_ r h
  · -- at the end of the text there is nothing left but white space
    intro r ending hstep hcomplete
    rw [hcomplete] at hstep
    obtain ⟨hahead, -⟩ := Reader.of_step_complete hstep
    refine ⟨?_, fun _ hhead => ?_⟩
    · rw [filterMap_pieces, hahead, pieces]
      rfl
    · rw [← (Reader.ahead_of_head hhead).1, hahead, pieces]
      exact nofun
  · intro r e next events ending hm ih hcomplete
    have hnext := ih hcomplete
    -- what is read next is a cut, but for an operand; the scan makes the same one
    cases hm with
    | openGroup _ ha =>
      exact .of_cut (p := .openParen) (by rw [ha, pieces_openParen]) rfl nofun hnext.events_eq
    | closeGroup _ _ _ ha =>
      exact .of_cut (p := .closeParen) (by rw [ha, pieces_closeParen]) rfl nofun hnext.events_eq
    | operator _ ho => exact .of_cut (pieces_operator ho) rfl nofun hnext.events_eq
    | leaf hs ha _ hl => exact .leaf hs ha (Form.operand?_of_readLeaf hl) hnext

/-- **A complete run loses nothing but white space**: the text lays out the events, each operand as it
stands there. -/
theorem layout_run (r : Reader) (h : (r.run .operands k).2 = .complete) :
    Layout (Event.WrittenAs k fun operand w => w = operand.toList) (r.run .operands k).1 r.rest := by
  refine Reader.layout_run (f := .operands) (fun {prev c cs l} _ hl => ?_) r h
  have hvalue := (Operand.run_of_operand? (Form.operand?_of_readLeaf hl)).2
  -- white space is trimmed off the operand, and nothing else
  obtain ⟨b, htrim, hblank⟩ := exists_trimEnd_append l.taken
  exact ⟨trimEnd l.taken, b, htrim.symm, hblank, by rw [hvalue, String.toList_ofList]⟩

end Run

end Scan

/-- **Reading operands is a scan.** The events of an expression that is accepted are those of the pieces
of its text. The pieces make up the text, and the text lays out the events, so that nothing but white
space around them is left out, comes twice or changes its place. -/
theorem readExpression_scan {k : Keywords} {input : String}
    (h : (readExpression .operands k input).error? = none) :
    (readExpression .operands k input).events
        = (Scan.pieces k.lexicon (.outside none) input.toList).filterMap Scan.Piece.event?
      ∧ (Scan.pieces k.lexicon (.outside none) input.toList).flatMap Scan.Piece.text = input.toList
      ∧ Layout (Event.WrittenAs k fun operand w => w = operand.toList)
        (readExpression .operands k input).events input.toList := by
  have hcomplete : ((Reader.start input.toList).run .operands k).2 = .complete :=
    Ending.error?_eq_none_iff.mp h
  refine ⟨?_, Scan.flatMap_text_pieces k.lexicon _ _, ?_⟩
  · exact (Scan.agrees_run (Reader.start input.toList) hcomplete).events_eq
  · exact Scan.layout_run (Reader.start input.toList) hcomplete

/-- Words that hold a keyword, and a keyword in quotes. -/
theorem readExpression_scan_recorded :
    (readExpression .operands .standard "recORd AND (ORb OR 'x or y')").error? = none
      ∧ (Scan.pieces Keywords.standard.lexicon (.outside none)
          "recORd AND (ORb OR 'x or y')".toList).filterMap Scan.Piece.event?
        = [.leaf "recORd", .operator .and, .openGroup, .leaf "ORb", .operator .or, .leaf "'x or y'",
            .closeGroup] := by
  have hparsed : parseTree .operands .standard (Form.operands.render
      [.leaf "recORd", .operator .and, .group [.leaf "ORb", .operator .or, .leaf "'x or y'"]])
        = .ok [.leaf "recORd", .operator .and, .group [.leaf "ORb", .operator .or, .leaf "'x or y'"]] :=
    parseTree_render_operands (by decide) (by decide)
  rw [show Form.operands.render
      [.leaf "recORd", .operator .and, .group [.leaf "ORb", .operator .or, .leaf "'x or y'"]]
        = "recORd AND (ORb OR 'x or y')" from rfl] at hparsed
  have hread := parseTree_eq_ok_iff.mp hparsed
  have herr := congrArg Outcome.error? hread
  exact ⟨herr, (readExpression_scan herr).1.symm.trans (congrArg Outcome.events hread)⟩

end Junction
