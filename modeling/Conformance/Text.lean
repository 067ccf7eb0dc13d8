namespace Conformance

structure LineColumn where
  line : Nat
  column : Nat
deriving DecidableEq

-- A stretch of source text by its offsets, with the lines and columns of its two ends
-- where they are known.
structure Span where
  start : Nat
  stop : Nat
  ends : Option (LineColumn × LineColumn) := none
deriving DecidableEq

namespace Span

instance : Inhabited Span := ⟨⟨0, 0, none⟩⟩

-- A span that ends before it starts is empty.
def length (span : Span) : Nat := span.stop - span.start

def isEmpty (span : Span) : Bool := span.length = 0

end Span

-- A head followed by its arguments, each after a blank.
def spaced (head : String) (args : List String) : String :=
  if args.isEmpty then head else head ++ " " ++ " ".intercalate args

-- Sets of labels are lists in increasing order without repeats, so that two sets
-- with the same members are the same list. Labels are ordered by code points, which
-- for texts is the same order as by their bytes.
def insertLabel (label : String) : List String → List String
  | [] => [label]
  | first :: rest =>
      if label = first then first :: rest
      else if label < first then label :: first :: rest
      else first :: insertLabel label rest

def labelSet (labels : List String) : List String := labels.foldr insertLabel []

@[simp] theorem mem_insertLabel (label other : String) (labels : List String) :
    other ∈ insertLabel label labels ↔ other = label ∨ other ∈ labels := by
  induction labels with
  | nil => simp [insertLabel]
  | cons first rest ih =>
      by_cases he : label = first
      · subst he
        simp [insertLabel]
      · by_cases hl : label < first
        · simp [insertLabel, he, hl]
        · simp only [insertLabel, he, hl, if_false, List.mem_cons, ih]
          exact or_left_comm

@[simp] theorem mem_labelSet (label : String) (labels : List String) :
    label ∈ labelSet labels ↔ label ∈ labels := by
  induction labels with
  | nil => simp [labelSet]
  | cons first rest ih =>
      have hstep : labelSet (first :: rest) = insertLabel first (labelSet rest) := rfl
      simp [hstep, ih]

end Conformance
