import NotifyQueue.Lib.Tables

/-! # Pages of a sorted query

`LIMIT ... OFFSET ...` pages are queries of their own, and each may order the rows that tie as
it likes.  Together they cover the rows whatever the ties do (`pages_perm`) if the ties fit:
`TiesFit` says that no group of tied rows lies across a page boundary.  Otherwise some choice of
orders lists a row twice (`exists_repeated`). -/

namespace Paging

open Tables

universe u

variable {α : Type u}

/-- The first pages, one after another. -/
def pages (scans : Nat → RowOrder α) (le : α → α → Prop) [DecidableRel le] (limit : Nat)
    (rows : List α) : Nat → List α
  | 0 => []
  | m + 1 => pages scans le limit rows m ++ pageRows (scans m) le limit (m * limit) rows

theorem mem_of_mem_pages {scans : Nat → RowOrder α} {le : α → α → Prop} [DecidableRel le]
    {limit : Nat} {rows : List α} {m : Nat} {row : α} (listed : row ∈ pages scans le limit rows m) :
    row ∈ rows := by
  induction m with
  | zero => cases listed
  | succ m inductionHypothesis =>
    cases List.mem_append.mp listed with
    | inl earlier => exact inductionHypothesis earlier
    | inr onPage =>
      have sorted := List.mem_of_mem_drop (List.mem_of_mem_take onPage)
      rwa [List.mem_insertionSort, RowOrder.mem_arrange] at sorted

theorem pages_sublist (scans : Nat → RowOrder α) (le : α → α → Prop) [DecidableRel le]
    (limit : Nat) (rows : List α) {m n : Nat} (fewer : m ≤ n) :
    (pages scans le limit rows m).Sublist (pages scans le limit rows n) := by
  induction n, fewer using Nat.le_induction with
  | base => exact .refl _
  | succ n _ inductionHypothesis => exact inductionHypothesis.trans (List.sublist_append_left _ _)

section

variable (le : α → α → Prop) [DecidableRel le]

/-- How many rows come strictly before this one. -/
def ahead (rows : List α) (row : α) : Nat := rows.countP fun other => ¬ le row other

/-- How many rows come before this one or tie with it. -/
def upTo (rows : List α) (row : α) : Nat := rows.countP fun other => le other row

/-- No rows that tie lie on both sides of a page boundary. -/
def TiesFit (limit : Nat) (rows : List α) : Prop :=
  ∀ k, ∀ row ∈ rows, k * limit ≤ ahead le rows row ∨ upTo le rows row ≤ k * limit

end

variable {le : α → α → Prop} [DecidableRel le]

/-- Ties fit on a single page. -/
theorem TiesFit.of_page {limit : Nat} {rows : List α} (room : rows.length ≤ limit) :
    TiesFit le limit rows := by
  intro k row _
  cases k with
  | zero => exact .inl (by simp)
  | succ k =>
    have atMost : upTo le rows row ≤ rows.length := List.countP_le_length
    have onePage : limit ≤ (k + 1) * limit := Nat.le_mul_of_pos_left limit (by omega)
    exact .inr (by omega)

/-! ## Ties that fit -/

section

variable {rows front back : List α} {row : α}

/-- A row before a boundary has no tie after it. -/
theorem upTo_le_of_front [Std.Total le] {boundary : Nat} (same : (front ++ back).Perm rows)
    (inOrder : (front ++ back).Pairwise le) (short : front.length ≤ boundary)
    (fits : boundary ≤ ahead le rows row ∨ upTo le rows row ≤ boundary) (taken : row ∈ front) :
    upTo le rows row ≤ boundary := by
  cases fits with
  | inr within => exact within
  | inl behind =>
    -- fewer rows than the boundary are strictly before one of them
    have refl : le row row := (Std.Total.total (r := le) row row).elim id id
    have none : back.countP (fun other => ¬ le row other) = 0 := by
      rw [List.countP_eq_zero]
      intro other dropped
      simp [(List.pairwise_append.mp inOrder).2.2 row taken other dropped]
    have some : front.countP (fun other => ¬ le row other) < front.length := by
      rw [List.countP_lt_length_iff]
      exact ⟨row, taken, by simp [refl]⟩
    rw [ahead, ← same.countP_eq, List.countP_append, none] at behind
    omega

/-- All the rows before a boundary come before one that is after it. -/
theorem lt_upTo_of_back [Std.Total le] (same : (front ++ back).Perm rows)
    (inOrder : (front ++ back).Pairwise le) (dropped : row ∈ back) :
    front.length < upTo le rows row := by
  have refl : le row row := (Std.Total.total (r := le) row row).elim id id
  have all : front.countP (fun other => le other row) = front.length := by
    rw [List.countP_eq_length]
    intro other taken
    simp [(List.pairwise_append.mp inOrder).2.2 other taken row dropped]
  have itself : 0 < back.countP fun other => le other row := by
    rw [List.countP_pos_iff]
    exact ⟨row, dropped, by simp [refl]⟩
  rw [upTo, ← same.countP_eq, List.countP_append, all]
  omega

end

/-- Where no ties lie across a boundary, the rows before it are known. -/
theorem take_of_fits [Std.Total le] {rows sorted : List α} {boundary : Nat}
    (same : sorted.Perm rows) (inOrder : sorted.Pairwise le)
    (fits : ∀ row ∈ rows, boundary ≤ ahead le rows row ∨ upTo le rows row ≤ boundary) :
    sorted.take boundary = sorted.filter fun row => upTo le rows row ≤ boundary := by
  have split := List.take_append_drop boundary sorted
  rw [← split] at same inOrder
  have first : (sorted.take boundary).filter (fun row => upTo le rows row ≤ boundary) =
      sorted.take boundary := by
    rw [List.filter_eq_self]
    intro row taken
    have inRows := same.mem_iff.mp (List.mem_append_left _ taken)
    simpa using upTo_le_of_front same inOrder (List.length_take_le _ _) (fits row inRows) taken
  have rest : (sorted.drop boundary).filter (fun row => upTo le rows row ≤ boundary) = [] := by
    rw [List.filter_eq_nil_iff]
    intro row dropped
    have full : (sorted.take boundary).length = boundary := by
      have nonempty := List.length_pos_of_mem dropped
      rw [List.length_drop] at nonempty
      rw [List.length_take]
      omega
    simpa [full] using lt_upTo_of_back same inOrder dropped
  conv_rhs => rw [← split, List.filter_append, first, rest, List.append_nil]

/-- The first pages have the rows up to their last boundary, each of them once. -/
theorem pages_filter [Std.Total le] [IsTrans α le] {limit : Nat} {rows : List α}
    (fits : TiesFit le limit rows) (scans : Nat → RowOrder α) (m : Nat) :
    (pages scans le limit rows m).Perm (rows.filter fun row => upTo le rows row ≤ m * limit) := by
  have sortedPerm : ∀ order : RowOrder α, ((order.arrange rows).insertionSort le).Perm rows :=
    fun order => (List.perm_insertionSort le _).trans (order.perm rows)
  -- the rows before a boundary are the same in every order
  have cut : ∀ (order : RowOrder α) k, ((order.arrange rows).insertionSort le).take (k * limit) =
      ((order.arrange rows).insertionSort le).filter fun row => upTo le rows row ≤ k * limit :=
    fun order k =>
      take_of_fits (sortedPerm order) (List.pairwise_insertionSort le _) (fits k)
  induction m with
  | zero =>
    have none := cut .stored 0
    rw [Nat.zero_mul, List.take_zero] at none
    have same := (sortedPerm .stored).filter fun row => upTo le rows row ≤ 0
    rw [← none] at same
    simpa [pages] using same
  | succ m inductionHypothesis =>
    have before := (sortedPerm (scans m)).filter fun row => upTo le rows row ≤ m * limit
    have after := (sortedPerm (scans m)).filter fun row => upTo le rows row ≤ (m + 1) * limit
    rw [← cut] at before after
    rw [Nat.succ_mul, List.take_add] at after
    rw [Nat.succ_mul]
    exact ((inductionHypothesis.trans before.symm).append_right _).trans after

theorem pages_perm [Std.Total le] [IsTrans α le] {limit : Nat} {rows : List α}
    (fits : TiesFit le limit rows) (scans : Nat → RowOrder α) {m : Nat}
    (enough : rows.length ≤ m * limit) : (pages scans le limit rows m).Perm rows := by
  have all : rows.filter (fun row => upTo le rows row ≤ m * limit) = rows := by
    rw [List.filter_eq_self]
    intro row _
    have atMost : upTo le rows row ≤ rows.length := List.countP_le_length
    simpa using atMost.trans enough
  have listed := pages_filter fits scans m
  rwa [all] at listed

/-! ## Ties that do not fit -/

/-- The executor may come upon the rows in any arrangement. -/
theorem exists_rowOrder {rows arranged : List α} (same : arranged.Perm rows) :
    ∃ order : RowOrder α, order.arrange rows = arranged := by
  classical
  refine ⟨⟨fun other => if other = rows then arranged else other, ?_⟩, by simp⟩
  intro other
  split
  · next given =>
    rw [given]
    exact same
  · exact .refl _

/-- The queries all order the rows as they are stored, but for one of them. -/
def storedBut (k : Nat) (order : RowOrder α) (i : Nat) : RowOrder α := if i = k then order else .stored

/-- Pages that break ties alike are one list, cut up. -/
theorem pages_alike {scans : Nat → RowOrder α} {limit : Nat} {rows sorted : List α} {m : Nat}
    (alike : ∀ i < m, ((scans i).arrange rows).insertionSort le = sorted) :
    pages scans le limit rows m = sorted.take (m * limit) := by
  induction m with
  | zero => simp [pages]
  | succ m inductionHypothesis =>
    rw [pages, inductionHypothesis fun i less => alike i (by omega), pageRows, alike m (by omega),
      Nat.succ_mul, List.take_add]

/-- The two rows at a boundary. -/
theorem exists_boundary {rows : List α} {boundary : Nat} (positive : 0 < boundary)
    (within : boundary < rows.length) :
    ∃ before last first after, rows = before ++ last :: first :: after ∧
      before.length + 1 = boundary := by
  obtain ⟨b, rfl⟩ := Nat.exists_eq_add_of_lt positive
  refine ⟨rows.take b, rows[b], rows[b + 1], rows.drop (b + 2), ?_, ?_⟩
  · rw [← List.drop_eq_getElem_cons, ← List.drop_eq_getElem_cons, List.take_append_drop]
  · rw [List.length_take]
    omega

/-- The rows at a boundary that a group of tied rows lies across tie, too. -/
theorem tied_at_boundary [IsTrans α le] {before after : List α} {last first row : α}
    (inOrder : (before ++ last :: first :: after).Pairwise le)
    (behind : ahead le (before ++ last :: first :: after) row < before.length + 1)
    (beyond : before.length + 1 < upTo le (before ++ last :: first :: after) row) :
    le first last := by
  obtain ⟨_, restOrdered, across⟩ := List.pairwise_append.mp inOrder
  obtain ⟨_, restOrdered⟩ := List.pairwise_cons.mp restOrdered
  obtain ⟨firstFirst, _⟩ := List.pairwise_cons.mp restOrdered
  have rowLast : le row last := by
    by_contra strictly
    have all : before.countP (fun other => decide (¬ le row other)) = before.length := by
      rw [List.countP_eq_length]
      intro other member
      simpa using fun tied => strictly (IsTrans.trans _ _ _ tied (across other member last (by simp)))
    rw [ahead, List.countP_append, all, List.countP_cons_of_pos (by simpa using strictly)] at behind
    omega
  have firstRow : le first row := by
    by_contra strictly
    have none : (first :: after).countP (fun other => decide (le other row)) = 0 := by
      rw [List.countP_eq_zero]
      intro other member
      cases member with
      | head => simpa using strictly
      | tail _ member =>
        simpa using fun tied => strictly (IsTrans.trans _ _ _ (firstFirst other member) tied)
    have atMost : before.countP (fun other => decide (le other row)) ≤ before.length :=
      List.countP_le_length
    rw [upTo, List.countP_append, List.countP_cons, none] at beyond
    split at beyond <;> omega
  exact IsTrans.trans _ _ _ firstRow rowLast

omit [DecidableRel le] in
/-- Neighbours that tie may change places. -/
theorem pairwise_swap {before after : List α} {last first : α}
    (inOrder : (before ++ last :: first :: after).Pairwise le) (tied : le first last) :
    (before ++ first :: last :: after).Pairwise le := by
  obtain ⟨beforeOrdered, restOrdered, across⟩ := List.pairwise_append.mp inOrder
  obtain ⟨lastFirst, restOrdered⟩ := List.pairwise_cons.mp restOrdered
  obtain ⟨firstFirst, afterOrdered⟩ := List.pairwise_cons.mp restOrdered
  refine List.pairwise_append.mpr ⟨beforeOrdered, ?_, ?_⟩
  · refine List.pairwise_cons.mpr ⟨?_, List.pairwise_cons.mpr ⟨?_, afterOrdered⟩⟩
    · intro other member
      cases member with
      | head => exact tied
      | tail _ member => exact firstFirst other member
    · exact fun other member => lastFirst other (by simp [member])
  · intro other member next inRest
    exact across other member next ((List.Perm.swap last first after).mem_iff.mp inRest)

/-- When ties lie across a boundary, a row can come on the page before it and on the page after it. -/
theorem exists_repeated [Std.Total le] [IsTrans α le] {limit : Nat} {rows : List α}
    (positive : 1 ≤ limit) (torn : ¬ TiesFit le limit rows) :
    ∃ scans : Nat → RowOrder α, ∀ m, rows.length ≤ m * limit →
      ¬ (pages scans le limit rows m).Nodup := by
  simp only [TiesFit, not_forall, not_or, not_le] at torn
  obtain ⟨k, row, _, behind, beyond⟩ := torn
  have within : k * limit < rows.length := beyond.trans_le List.countP_le_length
  have same := List.perm_insertionSort le rows
  have inOrder := List.pairwise_insertionSort le rows
  have length := same.length_eq
  rw [ahead, ← same.countP_eq] at behind
  rw [upTo, ← same.countP_eq] at beyond
  generalize stored : rows.insertionSort le = sorted at same inOrder length behind beyond
  obtain ⟨before, last, first, after, rfl, cut⟩ :=
    exists_boundary (show 0 < k * limit by omega) (show k * limit < sorted.length by omega)
  rw [← cut] at behind beyond
  -- one query puts the rows at the boundary in one order, the next query in the other
  have swapped := pairwise_swap inOrder (tied_at_boundary inOrder behind beyond)
  obtain ⟨order, arranges⟩ := exists_rowOrder
    (((List.Perm.swap last first after).append_left before).trans same)
  have alike : ∀ i < k, ((storedBut k order i).arrange rows).insertionSort le =
      before ++ last :: first :: after := by
    intro i less
    rw [storedBut, if_neg (by omega)]
    exact stored
  have listed : pages (storedBut k order) le limit rows k = before ++ [last] := by
    rw [pages_alike alike, ← cut, List.take_length_add_append]
    rfl
  have dropped : (before ++ first :: last :: after).drop (k * limit) = last :: after := by
    rw [← cut, List.drop_length_add_append]
    rfl
  have page : pageRows (storedBut k order k) le limit (k * limit) rows =
      last :: after.take (limit - 1) := by
    rw [storedBut, if_pos rfl, pageRows, arranges, swapped.insertionSort_eq, dropped,
      List.take_cons positive]
  refine ⟨storedBut k order, ?_⟩
  intro m enough nodup
  have beforeEnd : k < m := Nat.lt_of_mul_lt_mul_right (within.trans_le enough)
  have twice := nodup.sublist (pages_sublist _ le limit rows (Nat.succ_le_of_lt beforeEnd))
  rw [pages, listed, page] at twice
  exact (List.nodup_append.mp twice).2.2 last (by simp) last List.mem_cons_self rfl

end Paging
