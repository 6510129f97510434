import NotifyQueue.Lib.Tables
import Mathlib.Algebra.BigOperators.Ring.Finset

/-! # Rows that refer to rows of another table

When every row of a child table names a row of its parent table (a foreign key), the children can
be counted parent by parent: what is known about the children of each parent adds up to a fact
about the whole table (`Table.countP_children`). -/

namespace Tables

variable {ρ α κ υ : Type*}

/-- A sum of indicators counts. -/
theorem sum_indicator (rows : List ρ) (p : ρ → Prop) [DecidablePred p] :
    (rows.map fun row => if p row then 1 else 0).sum = rows.countP p := by
  induction rows with
  | nil => rfl
  | cons row rows inductionHypothesis =>
    rw [List.map_cons, List.sum_cons, inductionHypothesis, List.countP_cons, Nat.add_comm]
    simp only [decide_eq_true_eq]

variable [DecidableEq κ]

/-- One of the keys is the child's, as they do not repeat. -/
theorem sum_own_key {keys : List κ} (nodup : keys.Nodup) {k : κ} (member : k ∈ keys) :
    (keys.map fun other => if k = other then 1 else 0).sum = 1 := by
  rw [sum_indicator, ← List.count_eq_one_of_mem nodup member, List.count]
  congr 1
  funext other
  simp [beq_eq_decide, eq_comm]

theorem countP_by_key {keys : List κ} (nodup : keys.Nodup) {children : List α} {key : α → κ}
    (refers : ∀ child ∈ children, key child ∈ keys) (p : α → Bool) :
    children.countP p =
      (keys.map fun k => children.countP fun child => p child && key child = k).sum := by
  induction children with
  | nil => simp
  | cons child children inductionHypothesis =>
    have rest := inductionHypothesis fun other member => refers other (List.mem_cons_of_mem _ member)
    have own := sum_own_key nodup (refers child List.mem_cons_self)
    -- the child is counted under its own key, if it is counted at all
    have counted : (keys.map fun k => if (p child && key child = k) = true then 1 else 0).sum =
        if p child then 1 else 0 := by
      cases matched : p child with
      | false => simp
      | true => simpa using own
    simp only [List.countP_cons, List.sum_map_add, counted, rest]

namespace Table

variable {pk : ρ → κ} {uk : ρ → Option υ}

/-- Every child names a row of the table. -/
def References (parents : Table pk uk) (key : α → κ) (children : List α) : Prop :=
  ∀ child ∈ children, ∃ row, parents.lookup (key child) = some row

theorem countP_children {parents : Table pk uk} {key : α → κ} {children : List α}
    (refers : parents.References key children) (p : α → Bool) :
    children.countP p =
      (parents.rows.map fun row => children.countP fun child => p child && key child = pk row).sum := by
  have named : ∀ child ∈ children, key child ∈ parents.rows.map pk := by
    intro child member
    obtain ⟨row, found⟩ := refers child member
    exact List.mem_map.mpr ⟨row, lookup_eq_some.mp found⟩
  rw [countP_by_key parents.pk_nodup named p, List.map_map]
  rfl

theorem length_children {parents : Table pk uk} {key : α → κ} {children : List α}
    (refers : parents.References key children) :
    children.length =
      (parents.rows.map fun row => children.countP fun child => key child = pk row).sum := by
  have counted := countP_children refers fun _ => true
  simpa using counted

/-- At most one row has a key. -/
theorem countP_key (t : Table pk uk) (k : κ) :
    t.rows.countP (fun row => pk row = k) = if (t.lookup k).isSome then 1 else 0 := by
  cases found : t.lookup k with
  | none =>
    have nobody := lookup_eq_none.mp found
    simpa [List.countP_eq_zero] using nobody
  | some row =>
    obtain ⟨member, rfl⟩ := lookup_eq_some.mp found
    have only : t.select (fun other => pk other = pk row) = [row] :=
      select_eq_singleton member (by simp) fun other inRows same =>
        List.inj_on_of_nodup_map t.pk_nodup inRows member (by simpa using same)
    rw [List.countP_eq_length_filter, show t.rows.filter _ = [row] from only]
    rfl

end Table

end Tables
