import Mathlib.Data.List.Basic

/-!
# A stream cut into groups and pieces
-/

namespace Nozdormu.Data

open List

variable {α : Type}

/-- A closed group: its items, and those of each of its pieces. -/
structure ClosedGroup (α : Type) where
  items : List α
  pieces : List (List α)

/-- The closed groups, the open group, its closed pieces, and the open piece. -/
structure Grouping (α : Type) where
  closed : List (ClosedGroup α)
  items : List α
  pieces : List (List α)
  piece : List α

namespace Grouping

def empty : Grouping α := ⟨[], [], [], []⟩

variable (g : Grouping α)

def push (a : α) : Grouping α :=
  { g with items := g.items ++ [a], piece := g.piece ++ [a] }

def cutPiece : Grouping α :=
  { g with pieces := g.pieces ++ [g.piece], piece := [] }

/-- Close the group, leaving the open piece open. -/
def cutGroup : Grouping α :=
  { g with closed := g.closed ++ [⟨g.items, g.pieces⟩], items := [], pieces := [] }

def all : List α := g.closed.flatMap ClosedGroup.items ++ g.items

/-- Every closed group is made up of its pieces, and the open one of its pieces and the open
piece. -/
structure Aligned (g : Grouping α) : Prop where
  closed : ∀ c ∈ g.closed, c.pieces.flatten = c.items
  current : g.pieces.flatten ++ g.piece = g.items

theorem all_eq_flatten : g.all = (g.closed.map ClosedGroup.items).flatten ++ g.items := by
  rw [all, flatMap_def]

@[simp] theorem all_push (a : α) : (g.push a).all = g.all ++ [a] := by
  simp [all, push]

@[simp] theorem all_cutPiece : g.cutPiece.all = g.all := rfl

@[simp] theorem all_cutGroup : g.cutGroup.all = g.all := by
  simp [all, cutGroup]

theorem aligned_empty : (empty : Grouping α).Aligned := ⟨by simp [empty], rfl⟩

variable {g : Grouping α}

theorem Aligned.push (h : g.Aligned) (a : α) : (g.push a).Aligned := by
  refine ⟨h.closed, ?_⟩
  show g.pieces.flatten ++ (g.piece ++ [a]) = g.items ++ [a]
  rw [← append_assoc, h.current]

theorem Aligned.cutPiece (h : g.Aligned) : g.cutPiece.Aligned := by
  refine ⟨h.closed, ?_⟩
  show (g.pieces ++ [g.piece]).flatten ++ [] = g.items
  rw [flatten_append, flatten_singleton, append_nil, h.current]

/-- A group may be closed once the open piece is empty. -/
theorem Aligned.cutGroup (h : g.Aligned) (hpiece : g.piece = []) :
    g.cutGroup.Aligned := by
  have hcurrent := h.current
  rw [hpiece, append_nil] at hcurrent
  refine ⟨?_, hpiece⟩
  intro c hc
  rcases mem_append.1 hc with hc | hc
  · exact h.closed c hc
  · obtain rfl := mem_singleton.1 hc
    exact hcurrent

end Grouping

end Nozdormu.Data
