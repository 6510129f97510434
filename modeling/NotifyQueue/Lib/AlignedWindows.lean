import Mathlib.Algebra.Order.Floor.Ring
import Mathlib.Algebra.Order.Field.Basic
import Mathlib.Tactic.Linarith
import Mathlib.Tactic.Ring

/-! # Aligned windows

The time line cut into windows of one length, the window `k` being
`[k * window, (k + 1) * window)`.  `index` is the window that an instant lies in and
`start` is where a window begins. -/

namespace AlignedWindows

universe u

variable {α : Type u} [Field α] [LinearOrder α] [FloorRing α]

/-- The window that an instant lies in. -/
def index (window t : α) : ℤ := ⌊t / window⌋

/-- Where a window begins. -/
def start (window : α) (k : ℤ) : α := k * window

variable [IsStrictOrderedRing α] {window t t' : α} {k : ℤ}

omit [LinearOrder α] [FloorRing α] [IsStrictOrderedRing α] in
theorem start_succ : start window (k + 1) = start window k + window := by
  simp only [start, Int.cast_add, Int.cast_one]
  ring

/-- An instant lies in the window whose bounds it meets. -/
theorem index_eq_iff (positive : 0 < window) :
    index window t = k ↔ start window k ≤ t ∧ t < start window (k + 1) := by
  unfold index start
  rw [Int.floor_eq_iff, le_div_iff₀ positive, div_lt_iff₀ positive, Int.cast_add, Int.cast_one]

theorem start_index_le (positive : 0 < window) : start window (index window t) ≤ t :=
  ((index_eq_iff positive).mp rfl).1

theorem lt_start_succ_index (positive : 0 < window) : t < start window (index window t + 1) :=
  ((index_eq_iff positive).mp rfl).2

/-- The beginning of a window lies in it. -/
theorem index_start (positive : 0 < window) : index window (start window k) = k := by
  rw [index_eq_iff positive, start_succ]
  constructor <;> linarith

theorem start_injective (positive : 0 < window) {k' : ℤ} (same : start window k = start window k') :
    k = k' := by
  rw [← index_start (k := k) positive, same, index_start positive]

theorem index_mono (positive : 0 < window) (le : t ≤ t') : index window t ≤ index window t' :=
  Int.floor_mono (div_le_div_of_nonneg_right le positive.le)

/-- A later instant that is less than a window away lies in the same window or in the next. -/
theorem index_of_within (positive : 0 < window) (after : t ≤ t') (within : t' < t + window) :
    index window t' = index window t ∨ index window t' = index window t + 1 := by
  have least := index_mono positive after
  have shifted : index window (t + window) = index window t + 1 := by
    unfold index
    rw [add_div, div_self positive.ne', Int.floor_add_one]
  have most := index_mono positive within.le
  omega

end AlignedWindows
