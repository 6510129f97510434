import NotifyQueue.Lib.Paging
import NotifyQueue.Repositories.Queries
import NotifyQueue.Verified.Coherence

/-! # Paging through the dead letters

The list is ordered by `dead_lettered_at` alone, and the reaper buries all the jobs of one
transaction at one `now()`.  So the pages cover the queue exactly when no such group lies across
a page boundary. -/

namespace NotifyQueue

open Runs Tables Paging

instance newestFirst_total : Std.Total newestFirst where
  total a b := le_total b.deadLetteredAt a.deadLetteredAt

instance newestFirst_trans : IsTrans DeadLetterOut newestFirst where
  trans _ _ _ newer newer' := le_trans (α := Time) newer' newer

/-! ## The rows of the list -/

theorem deadLetterRows_nodup (db : Db) :
    ((deadLetterRows db).map DeadLetterOut.jobId).Nodup := by
  refine db.deadLetters.pk_nodup.sublist (filterMap_keys ?_ _)
  intro letter listed joined
  obtain ⟨job, _, rfl⟩ := Option.map_eq_some_iff.mp joined
  rfl

/-- Where the tables agree, the list has the jobs that are dead-lettered. -/
theorem mem_deadLetterRows {db : Db} (coherent : ∀ j, Coherent (db.slice j)) {j : JobId} :
    j ∈ (deadLetterRows db).map DeadLetterOut.jobId ↔
      ∃ row, getJob db j = some row ∧ row.status = .deadLettered := by
  constructor
  · intro listed
    obtain ⟨_, member, rfl⟩ := List.mem_map.mp listed
    obtain ⟨letter, inTable, joined⟩ := List.mem_filterMap.mp member
    obtain ⟨row, found, rfl⟩ := Option.map_eq_some_iff.mp joined
    have buried : (db.slice letter.jobId).deadLetter = some letter := Table.lookup_of_mem inTable
    have filed := ((coherent letter.jobId).present row found).toFiled
    exact ⟨row, found, filed.deadLetter.mp (by rw [buried]; rfl)⟩
  · rintro ⟨row, found, dead⟩
    have filed := ((coherent j).present row found).toFiled
    obtain ⟨letter, buried⟩ := Option.isSome_iff_exists.mp (filed.deadLetter.mpr dead)
    have named : letter.jobId = j := Table.pk_of_lookup buried
    have joined : letter.out row ∈ deadLetterRows db := by
      refine List.mem_filterMap.mpr ⟨letter, Table.mem_of_lookup buried, ?_⟩
      rw [named]
      exact congrArg (Option.map letter.out) found
    exact List.mem_map.mpr ⟨_, joined, named⟩

/-! ## The pages -/

/-- What a client gets who lists page after page; `scans` are the orders of the queries. -/
def listedPages (limit : Nat) (scans : Nat → RowOrder DeadLetterOut) (db : Db) :
    Nat → List DeadLetterOut
  | 0 => []
  | m + 1 => listedPages limit scans db m ++ listDeadLetters limit (m * limit) (scans m) db

theorem listedPages_eq (limit : Nat) (scans : Nat → RowOrder DeadLetterOut) (db : Db) (m : Nat) :
    listedPages limit scans db m = pages scans newestFirst limit (deadLetterRows db) m := by
  induction m with
  | zero => rfl
  | succ m inductionHypothesis => rw [listedPages, inductionHypothesis, pages, listDeadLetters]

/-- Every dead-lettered job is in the list exactly once. -/
def ListsEachOnce (db : Db) (listed : List DeadLetterOut) : Prop :=
  ∀ j row, getJob db j = some row → row.status = .deadLettered →
    (listed.map DeadLetterOut.jobId).count j = 1

/-- Only dead-lettered jobs are listed, so a list with each of them once repeats nothing. -/
theorem ListsEachOnce.nodup {db : Db} {listed : List DeadLetterOut}
    (once : ListsEachOnce db listed) (coherent : ∀ j, Coherent (db.slice j))
    (inQueue : ∀ letter ∈ listed, letter ∈ deadLetterRows db) : listed.Nodup := by
  apply List.Nodup.of_map DeadLetterOut.jobId
  rw [List.nodup_iff_count_le_one]
  intro j
  by_cases isListed : j ∈ listed.map DeadLetterOut.jobId
  · obtain ⟨letter, member, rfl⟩ := List.mem_map.mp isListed
    obtain ⟨row, found, dead⟩ := (mem_deadLetterRows coherent).mp
      (List.mem_map_of_mem (inQueue letter member))
    exact (once letter.jobId row found dead).le
  · rw [List.count_eq_zero_of_not_mem isListed]
    exact Nat.zero_le 1

/-- Enough pages list every dead-lettered job once, whatever order the queries give to ties, exactly
    when no letters of one `dead_lettered_at` lie on both sides of a page boundary. -/
theorem paging_covers_iff {history : JobHistory} {db : Db} (run : Run jobSystem history db)
    {limit : Nat} (positive : 1 ≤ limit) :
    (∀ (scans : Nat → RowOrder DeadLetterOut) (m : Nat),
        (deadLetterRows db).length ≤ m * limit → ListsEachOnce db (listedPages limit scans db m)) ↔
      TiesFit newestFirst limit (deadLetterRows db) := by
  have coherent := coherent_slice run
  constructor
  · intro covers
    by_contra torn
    obtain ⟨scans, repeats⟩ := exists_repeated positive torn
    have enough : (deadLetterRows db).length ≤ (deadLetterRows db).length * limit :=
      Nat.le_mul_of_pos_right _ positive
    have once := covers scans _ enough
    rw [listedPages_eq] at once
    exact repeats _ enough (once.nodup coherent fun _ onPages => mem_of_mem_pages onPages)
  · intro fits scans m enough j row found dead
    have listed := (pages_perm fits scans enough).map DeadLetterOut.jobId
    rw [listedPages_eq, listed.count_eq]
    have member := (mem_deadLetterRows coherent).mpr ⟨row, found, dead⟩
    exact List.count_eq_one_of_mem (deadLetterRows_nodup db) member

/-- Two jobs with one attempt each, whose leases expire together. -/
def reapedTogether : JobHistory × Db := jobRun
  [(.createJob 1 (sampleJob 1), 0), (.createJob 2 (sampleJob 1), 0),
    (.claimDueJobs "worker-1" 5 10 (fun _ => 70) .alone, 1),
    (.reapExpiredLeases 5 "" (fun j => 900 + j) .alone, 20)]

/-- The rows come in one order to the first query, and in the other order to the next ones. -/
def turningScans : Nat → RowOrder DeadLetterOut
  | 0 => .stored
  | _ => ⟨List.reverse, List.reverse_perm⟩

theorem paging_covers_one_page :
    ListsEachOnce reapedTogether.2 (listedPages 2 turningScans reapedTogether.2 1) := by
  have twoRows : (deadLetterRows reapedTogether.2).length = 2 := by decide +kernel
  exact (paging_covers_iff (run_jobRun _) (by decide)).mpr (.of_page twoRows.le) _ 1 twoRows.le

/-- On pages of one row, the first job comes twice and the second is not listed. -/
theorem paging_misses_reaped_job :
    Run jobSystem reapedTogether.1 reapedTogether.2 ∧
      (deadLetterRows reapedTogether.2).length ≤ 2 * 1 ∧
      (listedPages 1 turningScans reapedTogether.2 2).map DeadLetterOut.jobId = [1, 1] ∧
      ¬ ListsEachOnce reapedTogether.2 (listedPages 1 turningScans reapedTogether.2 2) := by
  have listed : (listedPages 1 turningScans reapedTogether.2 2).map DeadLetterOut.jobId = [1, 1] := by
    decide +kernel
  refine ⟨run_jobRun _, by decide +kernel, listed, ?_⟩
  intro once
  have dead : ∃ row, getJob reapedTogether.2 2 = some row ∧ row.status = .deadLettered := by
    cases found : getJob reapedTogether.2 2 with
    | none => exact absurd found (by decide +kernel)
    | some row =>
      have status : (getJob reapedTogether.2 2).map Job.status = some .deadLettered := by
        decide +kernel
      rw [found] at status
      exact ⟨row, rfl, Option.some.inj status⟩
  obtain ⟨row, found, dead⟩ := dead
  have count := once 2 row found dead
  rw [listed] at count
  contradiction

end NotifyQueue
