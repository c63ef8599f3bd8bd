/-!
# Kinds of tokens

What may come next in an expression is a set of **kinds** of tokens. A set is its membership test
(`KindSet.has`); `KindSet.toList` lists it in the fixed order of `Kind.all`, and `KindSet.text`
puts it into words for an error message.
-/

namespace Junction

/-- A kind of token. `left`, `comparison` and `right` are the three parts of a condition. -/
inductive Kind where
  | operand
  | openParen
  | closeParen
  | operator
  | left
  | comparison
  | right
  deriving DecidableEq

namespace Kind

/-- Every kind, in the order in which sets list them. -/
def all : List Kind := [operand, openParen, closeParen, operator, left, comparison, right]

/-- The kind in words. -/
def label : Kind → String
  | operand => "operand"
  | openParen => "open paren"
  | closeParen => "close paren"
  | operator => "binary operator"
  | left => "left operand"
  | comparison => "comparison operator"
  | right => "right operand"

theorem mem_all (k : Kind) : k ∈ all := by cases k <;> decide

end Kind

/-- A set of kinds. -/
@[ext]
structure KindSet where
  has : Kind → Bool

namespace KindSet

/-- No kind at all. -/
def empty : KindSet := ⟨fun _ => false⟩

/-- The set of one kind. -/
def singleton (k : Kind) : KindSet := ⟨fun j => j == k⟩

/-- The kinds of both sets. -/
def union (s t : KindSet) : KindSet := ⟨fun k => s.has k || t.has k⟩

/-- The set with one more kind. -/
def insert (s : KindSet) (k : Kind) : KindSet := s.union (singleton k)

/-- The set of the kinds listed. -/
def ofList (ks : List Kind) : KindSet := ⟨fun k => ks.contains k⟩

/-- The kinds of the set, in the order of `Kind.all`. -/
def toList (s : KindSet) : List Kind := Kind.all.filter s.has

/-- The set holds no kind. -/
def isEmpty (s : KindSet) : Bool := s.toList.isEmpty

/-- The labels put together: commas between them, and `or` before the last. -/
def joined : List String → String
  | [] => "nothing"
  | [label] => label
  | [label, last] => label ++ " or " ++ last
  | label :: more => label ++ ", " ++ joined more

/-- **The set in words**: `operand, open paren or close paren`, and `nothing` for the empty
set. -/
def text (s : KindSet) : String := joined (s.toList.map Kind.label)

@[simp] theorem has_empty (k : Kind) : empty.has k = false := rfl

@[simp] theorem has_singleton (j k : Kind) : (singleton j).has k = (k == j) := rfl

@[simp] theorem has_union (s t : KindSet) (k : Kind) :
    (s.union t).has k = (s.has k || t.has k) := rfl

@[simp] theorem has_insert (s : KindSet) (j k : Kind) :
    (s.insert j).has k = (s.has k || k == j) := rfl

@[simp] theorem mem_toList {s : KindSet} {k : Kind} : k ∈ s.toList ↔ s.has k = true := by
  simp [toList, Kind.mem_all]

/-- A set is what it lists. -/
theorem toList_inj {s t : KindSet} : s.toList = t.toList ↔ s = t := by
  refine ⟨fun h => KindSet.ext (funext fun k => ?_), fun h => h ▸ rfl⟩
  have hk : k ∈ s.toList ↔ k ∈ t.toList := by rw [h]
  rw [mem_toList, mem_toList] at hk
  exact Bool.eq_iff_iff.mpr hk

instance : DecidableEq KindSet := fun _ _ => decidable_of_iff _ toList_inj

end KindSet

end Junction
