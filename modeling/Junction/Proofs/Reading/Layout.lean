import Junction.Proofs.Reading.Following
import Junction.Proofs.Tree.Mapping

/-!
# Texts that lay out an expression

A text **lays out** some events if it is what they are written as, one after another, with any white
space around each of them (`Layout`). An operator is written as its keyword in any ASCII case, and a
leaf as the one who writes it chooses (`Event.WrittenAs`). A text that is read lays out what it is read as
(`Reader.layout_run`).

If each leaf is written in quotes, so that it is read as a leaf whatever follows
(`Form.ReadsQuoted`), such a text is read as the events that it lays out: `Follows.run_layout`. The
induction is on the events that may follow at a point (`Follows`). Along the text two things are
carried: no word character stands in front of a keyword, since a quote or a parenthesis ends the term
before it; and an operand ends where the text of a leaf does, since a keyword, a closing parenthesis
or the end of the text is next.
-/

namespace Junction

open Text

variable {f : Form} {k : Keywords} {α : Type}

/-- **How an event is written**, if a leaf is written as `leaf` says. -/
def Event.WrittenAs (k : Keywords) (leaf : α → List Char → Prop) : Event α → List Char → Prop
  | .openGroup, w => w = ['(']
  | .closeGroup, w => w = [')']
  | .operator o, w => sameCaseless w (k.keyword o).toList = true
  | .leaf a, w => leaf a w

/-- **A text that lays out events**: each of them as `writes` says, white space around it or not. -/
inductive Layout (writes : Event α → List Char → Prop) : List (Event α) → List Char → Prop
  | nil {b : List Char} (blank : ∀ c ∈ b, isBlank c = true) : Layout writes [] b
  | cons {e : Event α} {events : List (Event α)} {b w cs : List Char}
      (blank : ∀ c ∈ b, isBlank c = true) (written : writes e w) (later : Layout writes events cs) :
      Layout writes (e :: events) (b ++ (w ++ cs))

/-- White space may be added in front. -/
theorem Layout.blank_append {writes : Event α → List Char → Prop} {events : List (Event α)}
    {b cs : List Char} (hb : ∀ c ∈ b, isBlank c = true) (h : Layout writes events cs) :
    Layout writes events (b ++ cs) := by
  cases h with
  | nil blank => exact .nil (List.forall_mem_append.mpr ⟨hb, blank⟩)
  | cons blank written later =>
    rw [← List.append_assoc]
    exact .cons (List.forall_mem_append.mpr ⟨hb, blank⟩) written later

/-! ### What a run lays out -/

/-- **A complete run loses nothing but white space**: the text lays out the events, if each leaf is written
as `writes` says, white space after it aside. -/
theorem Reader.layout_run {writes : f.Leaf → List Char → Prop}
    (hleaf : ∀ {prev c cs l}, isBlank c = false → f.readLeaf k.lexicon prev (c :: cs) = .read l →
      ∃ w b, l.taken = w ++ b ∧ (∀ d ∈ b, isBlank d = true) ∧ writes l.value w)
    (r : Reader) (h : (r.run f k).2 = .complete) :
    Layout (Event.WrittenAs k writes) (r.run f k).1 r.rest := by
  -- along the run: white space, what the event is written as, and the rest
  refine Reader.run_induct (f := f) (k := k) (motive := fun r events ending => ending = .complete →
    Layout (Event.WrittenAs k writes) events r.rest) ?_ ?_ r h
  · intro r ending hstep hcomplete
    rw [hcomplete] at hstep
    exact .nil (skipBlank_eq_nil_iff.mp (Reader.of_step_complete hstep).1)
  · intro r e next events ending hm ih hcomplete
    have hlater := ih hcomplete
    have hb : ∀ c ∈ r.rest.takeWhile isBlank, isBlank c = true := isBlank_of_mem_takeWhile
    rw [← r.takeWhile_append_ahead]
    cases hm with
    | openGroup _ ha =>
      rw [ha]
      exact .cons (w := ['(']) hb rfl hlater
    | closeGroup _ _ _ ha =>
      rw [ha]
      exact .cons (w := [')']) hb rfl hlater
    | operator _ ho =>
      rw [← (Keywords.readsFrom_of_operator? ho).taken_append_rest]
      exact .cons hb (Lexicon.sameCaseless_of_operator? ho) hlater
    | @leaf l c cs _ ha _ hl =>
      obtain ⟨w, b, htaken, hblank, hwrites⟩ := hleaf (isBlank_of_skipBlank_eq ha) hl
      -- what comes with the leaf is white space in front of what follows
      rw [ha, ← (Form.readsFrom_of_readLeaf hl).taken_append_rest, htaken, List.append_assoc]
      exact .cons hb hwrites (hlater.blank_append hblank)

/-! ### The events of an expression -/

/-- **The events that may follow** at a stage and a depth, up to the end of an expression. -/
inductive Follows : Stage → Nat → List (Event α) → Prop
  | complete : Follows .done 0 []
  | openGroup {depth : Nat} {events : List (Event α)} (later : Follows .due (depth + 1) events) :
      Follows .due depth (.openGroup :: events)
  | leaf {depth : Nat} {events : List (Event α)} (a : α) (later : Follows .done depth events) :
      Follows .due depth (.leaf a :: events)
  | operator {depth : Nat} {events : List (Event α)} (o : Operator)
      (later : Follows .due depth events) : Follows .done depth (.operator o :: events)
  | closeGroup {depth : Nat} {events : List (Event α)} (later : Follows .done depth events) :
      Follows .done (depth + 1) (.closeGroup :: events)

/-- The events of a tree that alternates come before those that may follow a term. -/
theorem Tree.Alternates.follows {t : Tree α} (h : t.Alternates)
    (ht : ∀ e ∈ t, e.isOperator = false → ∀ depth later, Follows .done depth later →
      Follows .due depth (e.events ++ later))
    {depth : Nat} {later : List (Event α)} (hlater : Follows .done depth later) :
    Follows .due depth (t.events ++ later) := by
  induction h with
  | @term e he =>
    rw [Tree.events_cons, Tree.events_nil, List.append_nil]
    exact ht e List.mem_cons_self he depth later hlater
  | @join e o t he _ ih =>
    have htail := ih fun e' he' => ht e' (List.mem_cons_of_mem _ (List.mem_cons_of_mem _ he'))
    rw [Tree.events_cons, Tree.events_cons, List.append_assoc]
    exact ht e List.mem_cons_self he depth _ (.operator o htail)

/-- So do those of a term. -/
theorem Element.WellFormed.follows {e : Element α} (h : e.WellFormed) (he : e.isOperator = false)
    (depth : Nat) (later : List (Event α)) (hlater : Follows .done depth later) :
    Follows .due depth (e.events ++ later) := by
  induction h generalizing depth later with
  | leaf a => exact .leaf a hlater
  | operator o => cases he
  | @group g halt _ ih =>
    -- inside the group one more is open, until the parenthesis closes it
    have hg : Follows .due (depth + 1) (Tree.events g ++ .closeGroup :: later) :=
      halt.follows (fun e' he' ho depth' later' => ih e' he' ho depth' later') (.closeGroup hlater)
    have hevents : (Element.group g).events ++ later
        = .openGroup :: (Tree.events g ++ .closeGroup :: later) := by
      simp [Element.events]
    rw [hevents]
    exact .openGroup hg

/-- **The events of a tree are those of an expression.** -/
theorem Tree.WellFormed.follows {t : Tree α} (h : t.WellFormed) (hne : t ≠ []) :
    Follows .due 0 t.events := by
  have hall : Follows .due 0 (t.events ++ []) :=
    (h.alternates hne).follows (fun e he ho depth later => (h.inner e he).follows ho depth later)
      .complete
  rwa [List.append_nil] at hall

/-! ### Leaves in quotes -/

/-- **The text `w` is read as the leaf `a`** wherever an operand would end after it. It begins and ends
with a quote. -/
structure Form.ReadsQuoted (f : Form) (k : Keywords) (a : f.Leaf) (w : List Char) : Prop where
  head : w.head? = some '\''
  last : w.getLast? = some '\''
  reads : ∀ prev u, Operand.Ends k.lexicon (some '\'') u → ∃ b v, u = b ++ v
    ∧ (∀ c ∈ b, isBlank c = true) ∧ f.readLeaf k.lexicon prev (w ++ u) = .read ⟨a, w ++ b, v⟩

/-- White space and what is no word character keep a word off what comes next. -/
theorem isWord_getLast?_or {b : List Char} (hb : ∀ c ∈ b, isBlank c = true) {prev : Option Char}
    (hprev : prev.any isWord = false) : (b.getLast?.or prev).any isWord = false := by
  cases hlast : b.getLast? with
  | none => exact hprev
  | some c => exact isWord_eq_false_of_isBlank (hb c (List.mem_of_getLast? hlast))

/-- A leaf that is read wherever an operand would end is read in the text. -/
theorem Reader.run_quoted {a : f.Leaf} {w b u : List Char} (h : f.ReadsQuoted k a w)
    (hb : ∀ c ∈ b, isBlank c = true) (hends : Operand.Ends k.lexicon (some '\'') u) {stage : Stage}
    (hstage : stage ≠ .done) (depth : Nat) (prev : Option Char) :
    run f k ⟨stage, depth, prev, b ++ (w ++ u)⟩
      = (.leaf a :: (run f k ⟨.done, depth, some '\'', u⟩).1,
        (run f k ⟨.done, depth, some '\'', u⟩).2) := by
  obtain ⟨w, rfl⟩ := List.head?_eq_some_iff.mp h.head
  have hskip : skipBlank ('\'' :: w ++ u) = '\'' :: w ++ u := skipBlank_cons (by decide) (w ++ u)
  have hahead : (Reader.mk stage depth prev (b ++ ('\'' :: w ++ u))).ahead = '\'' :: (w ++ u) :=
    (skipBlank_append_of_blank hb _).trans hskip
  obtain ⟨b', v, rfl, hb', hreads⟩ :=
    h.reads (Reader.mk stage depth prev (b ++ ('\'' :: w ++ u))).behind u hends
  have hmove : Moves f k ⟨stage, depth, prev, b ++ ('\'' :: w ++ (b' ++ v))⟩ (.leaf a)
      ⟨.done, depth, ('\'' :: w ++ b').getLast?, v⟩ :=
    .leaf (l := ⟨a, '\'' :: w ++ b', v⟩) (by exact hstage) hahead (by decide) hreads
  -- the white space that the leaf took along is skipped after it otherwise
  rw [run_of_moves hmove, run_blank hb', List.getLast?_append, h.last]

/-! ### Reading a layout -/

section Run

variable {leaf : α → List Char → Prop} {g : α → f.Leaf}

/-- What comes next where a term has to come is no word character. -/
theorem Layout.seam {events : List (Event α)} {cs : List Char} {depth : Nat}
    (h : Layout (Event.WrittenAs k leaf) events cs)
    (hleaf : ∀ a w, leaf a w → f.ReadsQuoted k (g a) w) (hfollows : Follows .due depth events) :
    Seam cs := by
  cases h with
  | nil _ => cases hfollows
  | @cons e events b w cs blank written _ =>
    intro c hc
    -- a term begins with a parenthesis or with a quote
    have hw : ∃ d x, w = d :: x ∧ Keywords.isReserved d = true := by
      cases hfollows with
      | openGroup _ => exact ⟨'(', [], written, by decide⟩
      | leaf a _ =>
        obtain ⟨x, hx⟩ := List.head?_eq_some_iff.mp (hleaf a w written).head
        exact ⟨'\'', x, hx, by decide⟩
    obtain ⟨d, x, rfl, hd⟩ := hw
    rw [List.head?_append] at hc
    cases hb : b.head? with
    | none =>
      rw [hb] at hc
      obtain rfl := Option.some.inj hc
      exact hd
    | some d' =>
      rw [hb] at hc
      obtain rfl := Option.some.inj hc
      exact isReserved_of_isBlank (blank _ (List.mem_of_head? hb))

/-- **A text that lays out events is read as these events**, if its leaves are in quotes. -/
theorem Follows.run_layout (hleaf : ∀ a w, leaf a w → f.ReadsQuoted k (g a) w) {stage : Stage}
    {depth : Nat} {events : List (Event α)} (h : Follows stage depth events) {cs : List Char}
    (hcs : Layout (Event.WrittenAs k leaf) events cs) {prev : Option Char}
    (hprev : stage = .done → prev.any isWord = false) :
    Reader.run f k ⟨stage, depth, prev, cs⟩ = (events.map (Event.map g), .complete)
      ∧ (stage = .done → Operand.Ends k.lexicon prev cs) := by
  induction h generalizing cs prev with
  | complete =>
    cases hcs with
    | nil blank =>
      refine ⟨?_, fun _ => Operand.ends_of_blank (skipBlank_eq_nil_iff.mpr blank)⟩
      exact Reader.run_end blank prev
  | openGroup _ ih =>
    cases hcs with
    | cons blank written later =>
      obtain rfl := written
      have hprev' : (some '(').any isWord = false := by decide
      obtain ⟨hrun, -⟩ := ih later fun _ => hprev'
      refine ⟨?_, nofun⟩
      rw [List.singleton_append, Reader.run_open blank (by exact nofun), hrun]
      rfl
  | leaf a _ ih =>
    cases hcs with
    | cons blank written later =>
      have hprev' : (some '\'').any isWord = false := by decide
      obtain ⟨hrun, hends⟩ := ih later fun _ => hprev'
      -- that an operand would end after the leaf is what it takes to read it
      refine ⟨?_, nofun⟩
      rw [Reader.run_quoted (hleaf a _ written) blank (hends rfl) (by exact nofun), hrun]
      rfl
  | operator o hlater ih =>
    cases hcs with
    | cons blank written later =>
      -- on neither side of the keyword stands a word character
      have hbefore := isWord_getLast?_or blank (hprev rfl)
      have hseam := later.seam hleaf hlater
      have hfound := Reader.operator?_written written blank hbefore hseam
      refine ⟨?_, fun _ => Operand.ends_of_operator hfound⟩
      rw [Reader.run_keyword written blank hbefore hseam, (ih later (fun hd => nomatch hd)).1]
      rfl
  | closeGroup _ ih =>
    cases hcs with
    | cons blank written later =>
      obtain rfl := written
      have hprev' : (some ')').any isWord = false := by decide
      obtain ⟨hrun, -⟩ := ih later fun _ => hprev'
      refine ⟨?_, fun _ => Operand.ends_of_closeParen (skipBlank_append_of_blank blank _)⟩
      rw [List.singleton_append, Reader.run_close blank, hrun]
      rfl

end Run

end Junction
