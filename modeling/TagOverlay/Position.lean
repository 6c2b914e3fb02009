/-! Positions and spans of a document. Lines and columns are counted from one, columns in bytes of
UTF-8. A span runs from its start up to, but not including, its stop; nothing forces it to be in
reading order. -/
namespace TagOverlay

structure Position where
  line : Nat
  column : Nat
deriving DecidableEq, Inhabited

namespace Position

instance : LT Position where
  lt left right := left.line < right.line ∨ (left.line = right.line ∧ left.column < right.column)

instance : LE Position where
  le left right := left.line < right.line ∨ (left.line = right.line ∧ left.column ≤ right.column)

theorem lt_def {left right : Position} :
    left < right ↔ left.line < right.line ∨ (left.line = right.line ∧ left.column < right.column) :=
  Iff.rfl

theorem le_def {left right : Position} :
    left ≤ right ↔ left.line < right.line ∨ (left.line = right.line ∧ left.column ≤ right.column) :=
  Iff.rfl

theorem le_refl (position : Position) : position ≤ position :=
  Or.inr ⟨rfl,Nat.le_refl _⟩

theorem le_trans {left middle right : Position} (first : left ≤ middle) (second : middle ≤ right) :
    left ≤ right := by
  rw [le_def] at first second ⊢
  omega

theorem le_of_not_le {left right : Position} (other : ¬ left ≤ right) : right ≤ left := by
  rw [le_def] at other ⊢
  omega

theorem lt_or_eq_of_le {left right : Position} (le : left ≤ right) : left < right ∨ left = right := by
  rw [lt_def]
  rw [le_def] at le
  cases left
  cases right
  simp only [Position.mk.injEq] at le ⊢
  omega

theorem le_antisymm {left right : Position} (first : left ≤ right) (second : right ≤ left) :
    left = right := by
  rw [le_def] at first second
  cases left
  cases right
  simp only [Position.mk.injEq] at first second ⊢
  omega

instance (left right : Position) : Decidable (left < right) :=
  decidable_of_iff _ lt_def.symm

instance (left right : Position) : Decidable (left ≤ right) :=
  decidable_of_iff _ le_def.symm

/-- The number of bytes of the line before the column; column zero names no place. -/
def offset? (position : Position) : Option Nat :=
  if position.column = 0 then none else some (position.column - 1)

end Position

structure Span where
  start : Position
  stop : Position
deriving DecidableEq, Inhabited

namespace Span

def isMultiLine (span : Span) : Bool :=
  span.start.line < span.stop.line

def contains (span : Span) (position : Position) : Bool :=
  span.start ≤ position ∧ position < span.stop

theorem contains_iff {span : Span} {position : Position} :
    span.contains position ↔ span.start ≤ position ∧ position < span.stop := by
  rw [contains,decide_eq_true_eq]

def withStop (span : Span) (stop : Position) : Span :=
  { span with stop }

/-- Whether the span has a part of its own on this line. -/
def meetsLine (span : Span) (line : Nat) : Bool :=
  span.start.line ≤ line ∧ line ≤ span.stop.line

/-- Order by start, then by stop. -/
def precedes (left right : Span) : Bool :=
  left.start < right.start ∨ (left.start = right.start ∧ left.stop ≤ right.stop)

end Span

end TagOverlay
