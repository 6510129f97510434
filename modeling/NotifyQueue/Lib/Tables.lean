import Mathlib.Data.List.Nodup
import Mathlib.Data.List.Sublists
import Mathlib.Data.List.Sort
import Mathlib.Data.Finset.Basic
import Mathlib.Data.Fintype.EquivFin
import Mathlib.Tactic.Common

/-! # Relational tables with their uniqueness constraints

A table is the list of its rows together with the proofs that its primary key and
its (nullable) unique column hold, so no sequence of statements can build a table
that violates them: an insert that would is refused with the constraint's name.

The statements are the ones a transaction is written with — `insert`, `update`
(with its `returning` rows), `delete`, `select` — and every one has a lemma that says
what `lookup`, the row under a primary key, is afterwards.

`RowOrder` is the freedom a query has in the order of its rows; `topRows` and `pageRows` are
`SELECT ... WHERE ... ORDER BY ... LIMIT`, without and with an `OFFSET`, that use it for ties.
-/

namespace Tables

universe u v w

variable {ρ : Type u} {κ : Type v} {υ : Type w}

/-- A table with primary key `pk` and unique column `uk`, in which `none` is NULL
    and never conflicts. -/
@[ext] structure Table (pk : ρ → κ) (uk : ρ → Option υ) where
  rows : List ρ
  pk_nodup : (rows.map pk).Nodup
  uk_nodup : (rows.filterMap uk).Nodup

/-- The constraint that refused an insert. -/
inductive Violation where
  | primaryKey
  | uniqueKey
deriving DecidableEq, Repr

namespace Table

variable {pk : ρ → κ} {uk : ρ → Option υ}

instance [DecidableEq ρ] : DecidableEq (Table pk uk) := fun t t' =>
  decidable_of_iff (t.rows = t'.rows) Table.ext_iff.symm

def empty : Table pk uk := ⟨[], List.nodup_nil, List.nodup_nil⟩

/-- `UPDATE ... SET f WHERE p`, for an `f` that leaves both keys alone. -/
def update (t : Table pk uk) (p : ρ → Bool) (f : ρ → ρ)
    (keepsPk : ∀ row, pk (f row) = pk row) (keepsUk : ∀ row, uk (f row) = uk row) :
    Table pk uk where
  rows := t.rows.map fun row => if p row then f row else row
  pk_nodup := by
    have same : (pk ∘ fun row => if p row then f row else row) = pk := by
      funext row
      simp only [Function.comp]
      split <;> simp [keepsPk]
    rw [List.map_map, same]
    exact t.pk_nodup
  uk_nodup := by
    have same : (uk ∘ fun row => if p row then f row else row) = uk := by
      funext row
      simp only [Function.comp]
      split <;> simp [keepsUk]
    rw [List.filterMap_map, same]
    exact t.uk_nodup

/-- The rows `UPDATE ... SET f WHERE p RETURNING *` hands back. -/
def returning (t : Table pk uk) (p : ρ → Bool) (f : ρ → ρ) : List ρ :=
  (t.rows.filter p).map f

/-- `DELETE ... WHERE p`. -/
def delete (t : Table pk uk) (p : ρ → Bool) : Table pk uk where
  rows := t.rows.filter fun row => !p row
  pk_nodup := t.pk_nodup.sublist (List.filter_sublist.map pk)
  uk_nodup := t.uk_nodup.sublist (List.filter_sublist.filterMap uk)

/-- `SELECT * ... WHERE p`. -/
def select (t : Table pk uk) (p : ρ → Bool) : List ρ := t.rows.filter p

variable [DecidableEq κ]

/-- The row under a primary key. -/
def lookup (t : Table pk uk) (k : κ) : Option ρ := t.rows.find? fun row => pk row = k

/-- `INSERT`, refused when it would break a constraint.  The unique column is looked at
    first: it is the one an `ON CONFLICT` clause names. -/
def insert [DecidableEq υ] (t : Table pk uk) (row : ρ) : Except Violation (Table pk uk) :=
  if freshUk : ∃ k ∈ t.rows.filterMap uk, uk row = some k then .error .uniqueKey
  else if freshPk : pk row ∈ t.rows.map pk then .error .primaryKey
  else .ok
    { rows := t.rows ++ [row]
      pk_nodup := by
        rw [List.map_append, List.map_singleton, List.nodup_append]
        refine ⟨t.pk_nodup, List.nodup_singleton _, ?_⟩
        intro k member k' last same
        rw [List.mem_singleton] at last
        exact freshPk (last ▸ same ▸ member)
      uk_nodup := by
        cases key : uk row with
        | none => simpa [List.filterMap_append, key] using t.uk_nodup
        | some value =>
          rw [List.filterMap_append, List.filterMap_cons_some key, List.filterMap_nil,
            List.nodup_append]
          refine ⟨t.uk_nodup, List.nodup_singleton _, ?_⟩
          intro k member k' last same
          rw [List.mem_singleton] at last
          exact freshUk ⟨value, last ▸ same ▸ member, key⟩ }

/-! ## What a statement does to the row under a key -/

/-- A list without repetition in which nothing else occurs. -/
theorem eq_singleton {rows : List ρ} {row : ρ} (nodup : rows.Nodup) (member : row ∈ rows)
    (only : ∀ other ∈ rows, other = row) : rows = [row] := by
  cases rows with
  | nil => cases member
  | cons first rest =>
    cases rest with
    | nil => rw [only first (by simp)]
    | cons second rest =>
      have twice : first = second := (only first (by simp)).trans (only second (by simp)).symm
      simp [twice] at nodup

/-- Where keys do not repeat, the row found under a key is the row that has it. -/
theorem find?_key {rows : List ρ} {key : ρ → κ} (nodup : (rows.map key).Nodup) {row : ρ}
    (member : row ∈ rows) : rows.find? (fun other => key other = key row) = some row := by
  cases found : rows.find? (fun other => key other = key row) with
  | none =>
    rw [List.find?_eq_none] at found
    exact absurd (decide_eq_true rfl) (found row member)
  | some other =>
    have otherMember := List.mem_of_find?_eq_some found
    have same : key other = key row := by simpa using List.find?_some found
    rw [List.inj_on_of_nodup_map nodup otherMember member same]

theorem lookup_eq_some {t : Table pk uk} {k : κ} {row : ρ} :
    t.lookup k = some row ↔ row ∈ t.rows ∧ pk row = k := by
  constructor
  · intro found
    exact ⟨List.mem_of_find?_eq_some found, by simpa using List.find?_some found⟩
  · rintro ⟨member, rfl⟩
    exact find?_key t.pk_nodup member

theorem lookup_eq_none {t : Table pk uk} {k : κ} :
    t.lookup k = none ↔ ∀ row ∈ t.rows, pk row ≠ k := by
  simp [lookup, List.find?_eq_none]

/-- A table is finite, so some key is free. -/
theorem exists_fresh [Infinite κ] (t : Table pk uk) : ∃ k, t.lookup k = none := by
  obtain ⟨k, absent⟩ := Infinite.exists_notMem_finset (t.rows.map pk).toFinset
  refine ⟨k, lookup_eq_none.mpr ?_⟩
  intro row member same
  exact absent (List.mem_toFinset.mpr (List.mem_map.mpr ⟨row, member, same⟩))

theorem lookup_of_mem {t : Table pk uk} {row : ρ} (member : row ∈ t.rows) :
    t.lookup (pk row) = some row := lookup_eq_some.mpr ⟨member, rfl⟩

theorem mem_of_lookup {t : Table pk uk} {k : κ} {row : ρ} (found : t.lookup k = some row) :
    row ∈ t.rows := (lookup_eq_some.mp found).1

theorem pk_of_lookup {t : Table pk uk} {k : κ} {row : ρ} (found : t.lookup k = some row) :
    pk row = k := (lookup_eq_some.mp found).2

omit [DecidableEq κ] in
/-- Two rows that agree on the unique column are the same row. -/
theorem eq_of_uk {t : Table pk uk} {row other : ρ} {value : υ} (member : row ∈ t.rows)
    (otherMember : other ∈ t.rows) (key : uk row = some value) (otherKey : uk other = some value) :
    row = other := by
  obtain ⟨rows, pkNodup, ukNodup⟩ := t
  induction rows with
  | nil => cases member
  | cons head tail inductionHypothesis =>
    have noTwin : ∀ r ∈ tail, uk r = some value → uk head ≠ some value := by
      intro r inTail same headKey
      rw [List.filterMap_cons_some headKey, List.nodup_cons] at ukNodup
      exact ukNodup.1 (List.mem_filterMap.mpr ⟨r, inTail, same⟩)
    rcases List.mem_cons.mp member with rfl | inTail <;>
      rcases List.mem_cons.mp otherMember with rfl | otherInTail
    · rfl
    · exact absurd key (noTwin _ otherInTail otherKey)
    · exact absurd otherKey (noTwin _ inTail key)
    · refine inductionHypothesis (List.nodup_cons.mp pkNodup).2 ?_ inTail otherInTail
      exact ukNodup.sublist ((List.sublist_cons_self head tail).filterMap uk)

omit [DecidableEq κ] in
theorem rows_nodup (t : Table pk uk) : t.rows.Nodup := t.pk_nodup.of_map pk

omit [DecidableEq κ] in
/-- The rows of a condition that one row meets. -/
theorem select_eq_singleton {t : Table pk uk} {p : ρ → Bool} {row : ρ} (member : row ∈ t.rows)
    (matched : p row = true) (only : ∀ other ∈ t.rows, p other = true → other = row) :
    t.select p = [row] := by
  refine eq_singleton (t.rows_nodup.filter p) (List.mem_filter.mpr ⟨member, matched⟩) ?_
  intro other inSelect
  obtain ⟨otherMember, otherMatched⟩ := List.mem_filter.mp inSelect
  exact only other otherMember otherMatched

theorem lookup_update (t : Table pk uk) (p : ρ → Bool) (f : ρ → ρ)
    (keepsPk : ∀ row, pk (f row) = pk row) (keepsUk : ∀ row, uk (f row) = uk row) (k : κ) :
    (t.update p f keepsPk keepsUk).lookup k =
      (t.lookup k).map fun row => if p row then f row else row := by
  simp only [lookup, update, List.find?_map]
  congr 2
  funext row
  simp only [Function.comp]
  split <;> simp [keepsPk]

theorem lookup_delete (t : Table pk uk) (p : ρ → Bool) (k : κ) :
    (t.delete p).lookup k = (t.lookup k).filter fun row => !p row := by
  cases found : t.lookup k with
  | none =>
    rw [Option.filter_none, lookup_eq_none]
    intro row member
    exact lookup_eq_none.mp found row (List.mem_filter.mp member).1
  | some row =>
    obtain ⟨member, rfl⟩ := lookup_eq_some.mp found
    cases removed : p row with
    | false =>
      rw [Option.filter_some_pos (by simpa using removed), lookup_eq_some]
      exact ⟨List.mem_filter.mpr ⟨member, by simpa using removed⟩, rfl⟩
    | true =>
      rw [Option.filter_some_neg (by simpa using removed), lookup_eq_none]
      intro other otherMember same
      have ⟨otherMember, kept⟩ := List.mem_filter.mp otherMember
      rw [List.inj_on_of_nodup_map t.pk_nodup otherMember member same, removed] at kept
      contradiction

theorem lookup_delete_key (t : Table pk uk) (i k : κ) :
    (t.delete fun row => pk row = i).lookup k = if i = k then none else t.lookup k := by
  rw [lookup_delete]
  cases found : t.lookup k with
  | none => simp
  | some row =>
    have key := pk_of_lookup found
    split
    · next named => exact Option.filter_some_neg (by simp [key, named])
    · next other => exact Option.filter_some_pos (by simp [key, Ne.symm other])

/-! ## Inserting -/

section insert

variable [DecidableEq υ] {t t' : Table pk uk} {row : ρ}

theorem rows_insert (inserted : t.insert row = .ok t') : t'.rows = t.rows ++ [row] := by
  unfold insert at inserted
  split at inserted
  · contradiction
  · split at inserted
    · contradiction
    · cases inserted
      rfl

theorem fresh_of_insert (inserted : t.insert row = .ok t') : t.lookup (pk row) = none := by
  unfold insert at inserted
  split at inserted
  · contradiction
  · split at inserted
    · contradiction
    · next fresh =>
      rw [lookup_eq_none]
      intro other member same
      exact fresh (same ▸ List.mem_map_of_mem member)

theorem lookup_insert (inserted : t.insert row = .ok t') (k : κ) :
    t'.lookup k = if pk row = k then some row else t.lookup k := by
  have rows := rows_insert inserted
  split
  · next same =>
    exact lookup_eq_some.mpr ⟨by rw [rows]; simp, same⟩
  · next different =>
    simp [lookup, rows, List.find?_append, different]

theorem select_insert (inserted : t.insert row = .ok t') (p : ρ → Bool) :
    t'.select p = t.select p ++ if p row then [row] else [] := by
  simp only [select, rows_insert inserted, List.filter_append, List.filter_cons, List.filter_nil]

/-- A refused insert names a row that is already there. -/
theorem conflict_of_insert {violation : Violation} (refused : t.insert row = .error violation) :
    (violation = .primaryKey ∧ ∃ other, t.lookup (pk row) = some other) ∨
      (violation = .uniqueKey ∧ ∃ other ∈ t.rows, ∃ value, uk row = some value ∧
        uk other = some value) := by
  unfold insert at refused
  split at refused
  · next conflict =>
    obtain ⟨value, member, key⟩ := conflict
    obtain ⟨other, member, same⟩ := List.mem_filterMap.mp member
    simp only [Except.error.injEq] at refused
    exact .inr ⟨refused.symm, other, member, value, key, same⟩
  · split at refused
    · next member =>
      obtain ⟨other, member, same⟩ := List.mem_map.mp member
      simp only [Except.error.injEq] at refused
      exact .inl ⟨refused.symm, other, lookup_eq_some.mpr ⟨member, same⟩⟩
    · contradiction

end insert

/-! ## Statements that hand rows back -/

omit [DecidableEq κ] in
theorem mem_returning {t : Table pk uk} {p : ρ → Bool} {f : ρ → ρ} {row : ρ} :
    row ∈ t.returning p f ↔ ∃ old ∈ t.rows, p old = true ∧ f old = row := by
  simp [returning, and_assoc]

omit [DecidableEq κ] in
/-- An update that matches no row returns none and changes nothing. -/
theorem update_of_returning_nil {t : Table pk uk} {p : ρ → Bool} {f : ρ → ρ}
    (keepsPk : ∀ row, pk (f row) = pk row) (keepsUk : ∀ row, uk (f row) = uk row)
    (unmatched : (t.returning p f).head? = none) : t.update p f keepsPk keepsUk = t := by
  have noMatch : ∀ row ∈ t.rows, p row = false := by
    simpa [returning, List.filter_eq_nil_iff] using unmatched
  ext1
  simp only [update]
  rw [List.map_congr_left (g := id) (fun row member => by simp [noMatch row member])]
  simp

omit [DecidableEq κ] in
theorem mem_of_returning_head {t : Table pk uk} {p : ρ → Bool} {f : ρ → ρ} {row : ρ}
    (matched : (t.returning p f).head? = some row) : ∃ old ∈ t.rows, p old = true ∧ f old = row :=
  mem_returning.mp (List.mem_of_head? matched)

end Table

/-- The keys of a join are keys of the table it goes through. -/
theorem filterMap_keys {β : Type w} {join : ρ → Option β} {key : ρ → κ} {key' : β → κ}
    (same : ∀ row joined, join row = some joined → key' joined = key row) (rows : List ρ) :
    ((rows.filterMap join).map key').Sublist (rows.map key) := by
  induction rows with
  | nil => exact .slnil
  | cons row rows inductionHypothesis =>
    cases joins : join row with
    | none =>
      rw [List.filterMap_cons_none joins]
      exact inductionHypothesis.cons _
    | some joined =>
      rw [List.filterMap_cons_some joins, List.map_cons, List.map_cons, same row joined joins]
      exact inductionHypothesis.cons_cons _

/-! ## The order of a query's rows -/

/-- The order in which the executor happens to produce rows: any permutation. -/
structure RowOrder (ρ : Type u) where
  arrange : List ρ → List ρ
  perm : ∀ rows, (arrange rows).Perm rows

/-- The order in which the rows are stored. -/
def RowOrder.stored : RowOrder ρ := ⟨id, fun _ => .refl _⟩

theorem RowOrder.mem_arrange {order : RowOrder ρ} {rows : List ρ} {row : ρ} :
    row ∈ order.arrange rows ↔ row ∈ rows := (order.perm rows).mem_iff

/-- `... ORDER BY le LIMIT limit`; rows that tie come in the order of `order`. -/
def topRows (order : RowOrder ρ) (le : ρ → ρ → Prop) [DecidableRel le] (limit : Nat)
    (rows : List ρ) : List ρ :=
  ((order.arrange rows).insertionSort le).take limit

/-- `... ORDER BY le LIMIT limit OFFSET offset`. -/
def pageRows (order : RowOrder ρ) (le : ρ → ρ → Prop) [DecidableRel le] (limit offset : Nat)
    (rows : List ρ) : List ρ :=
  (((order.arrange rows).insertionSort le).drop offset).take limit

theorem mem_of_mem_topRows {order : RowOrder ρ} {le : ρ → ρ → Prop} [DecidableRel le]
    {limit : Nat} {rows : List ρ} {row : ρ} (member : row ∈ topRows order le limit rows) :
    row ∈ rows := by
  have sorted := List.mem_of_mem_take member
  rwa [List.mem_insertionSort, order.mem_arrange] at sorted

theorem limit_of_mem_topRows {order : RowOrder ρ} {le : ρ → ρ → Prop} [DecidableRel le]
    {limit : Nat} {rows : List ρ} {row : ρ} (member : row ∈ topRows order le limit rows) :
    1 ≤ limit := by
  cases limit with
  | zero => simp [topRows] at member
  | succ n => omega

@[simp] theorem RowOrder.arrange_singleton (order : RowOrder ρ) (row : ρ) :
    order.arrange [row] = [row] := List.perm_singleton.mp (order.perm [row])

@[simp] theorem topRows_singleton (order : RowOrder ρ) (le : ρ → ρ → Prop) [DecidableRel le]
    {limit : Nat} (room : 1 ≤ limit) (row : ρ) : topRows order le limit [row] = [row] := by
  cases limit with
  | zero => omega
  | succ n => simp [topRows]

end Tables
