import FlowNest.ConstructionError

/-!
# FlowNest — canvas positions

A node stands at a point of the canvas. Both coordinates are finite and not
below zero; negative zero counts as zero. The type keeps that, so a position
once built needs no further check.
-/

namespace FlowNest

/-- Finite, and not below zero. -/
def onAxis (v : Float) : Bool :=
  v.isFinite && !decide (v < 0)

/-- A point of the canvas. -/
structure Position where
  x : Float
  y : Float
  onCanvas : onAxis x && onAxis y

namespace Position

/-- The point with these coordinates, if the canvas has it. -/
def of (x y : Float) : Except ConstructionError Position :=
  if h : onAxis x && onAxis y then .ok ⟨x, y, h⟩ else .error (.invalidPosition x y)

/-- The corner of the canvas. -/
def origin : Position :=
  ⟨0, 0, by decide⟩

instance : Inhabited Position := ⟨origin⟩

/-- Positions are equal when their coordinates are equal as numbers. -/
instance : BEq Position := ⟨fun p q => p.x == q.x && p.y == q.y⟩

/-- A position is made of the coordinates that it has. -/
theorem of_eq_ok_iff {x y : Float} {p : Position} :
    of x y = .ok p ↔ p.x = x ∧ p.y = y := by
  unfold of
  split
  · constructor
    · intro h; cases h; exact ⟨rfl, rfl⟩
    · rintro ⟨rfl, rfl⟩; rfl
  · next hnot =>
    constructor
    · intro h; cases h
    · rintro ⟨rfl, rfl⟩; exact absurd p.onCanvas hnot

/-- The coordinates of a position pass the check that it has passed. -/
theorem of_coordinates (p : Position) : of p.x p.y = .ok p :=
  of_eq_ok_iff.2 ⟨rfl, rfl⟩

end Position

end FlowNest
