import NotifyQueue.Lib.Tables

/-! # Draining a queue in order

`Takes le limit items batch rest`: out of `items` a batch of at most `limit` is taken, in the
order `le`, and nothing that is left comes before anything that was taken.  Takes compose
(`Takes.append`), so batches of any sizes drain the queue as one batch of their total size
would.  What a batch leaves waits behind a full batch (`Takes.full_of_left`). -/

namespace Draining

open Tables

universe u

variable {α : Type u} {le : α → α → Prop}

structure Takes (le : α → α → Prop) (limit : Nat) (items batch rest : List α) : Prop where
  perm : (batch ++ rest).Perm items
  sorted : batch.Pairwise le
  first : ∀ a ∈ batch, ∀ b ∈ rest, le a b
  length : batch.length = min limit items.length

/-- `ORDER BY ... LIMIT` takes, whatever it does with ties. -/
theorem takes_topRows [DecidableRel le] [Std.Total le] [IsTrans α le] (order : RowOrder α)
    (limit : Nat) (items : List α) :
    ∃ rest, Takes le limit items (topRows order le limit items) rest := by
  have sorted := List.pairwise_insertionSort le (order.arrange items)
  have same := (List.perm_insertionSort le (order.arrange items)).trans (order.perm items)
  have split := List.take_append_drop limit ((order.arrange items).insertionSort le)
  rw [← split, List.pairwise_append] at sorted
  refine ⟨((order.arrange items).insertionSort le).drop limit, ?_, sorted.1, sorted.2.2, ?_⟩
  · rw [topRows, split]
    exact same
  · rw [topRows, List.length_take, same.length_eq]

theorem Takes.none {items rest : List α} (same : rest.Perm items) : Takes le 0 items [] rest :=
  ⟨same, .nil, by simp, by simp⟩

theorem Takes.perm_rest {limit : Nat} {items batch rest rest' : List α}
    (takes : Takes le limit items batch rest) (same : rest'.Perm rest) :
    Takes le limit items batch rest' where
  perm := (same.append_left batch).trans takes.perm
  sorted := takes.sorted
  first a inBatch b inRest := takes.first a inBatch b (same.mem_iff.mp inRest)
  length := takes.length

/-- The batch may be handed out in any order that sorts it. -/
theorem Takes.perm_batch {limit : Nat} {items batch batch' rest : List α}
    (takes : Takes le limit items batch rest) (same : batch'.Perm batch)
    (sorted : batch'.Pairwise le) : Takes le limit items batch' rest where
  perm := (same.append_right rest).trans takes.perm
  sorted := sorted
  first a inBatch := takes.first a (same.mem_iff.mp inBatch)
  length := same.length_eq.trans takes.length

/-- A take by a key of the items is a take of the keys. -/
theorem Takes.map {β : Type u} {le' : β → β → Prop} {f : α → β} {limit : Nat}
    {items batch rest : List α} (ordered : ∀ a b, le a b → le' (f a) (f b))
    (takes : Takes le limit items batch rest) :
    Takes le' limit (items.map f) (batch.map f) (rest.map f) where
  perm := by
    rw [← List.map_append]
    exact takes.perm.map f
  sorted := List.pairwise_map.mpr (takes.sorted.imp fun {a b} le => ordered a b le)
  first := by
    intro x taken y left
    obtain ⟨a, inBatch, rfl⟩ := List.mem_map.mp taken
    obtain ⟨b, inRest, rfl⟩ := List.mem_map.mp left
    exact ordered a b (takes.first a inBatch b inRest)
  length := by
    rw [List.length_map, List.length_map]
    exact takes.length

/-- Two takes, one after the other, are one take of both sizes. -/
theorem Takes.append {limit limit' : Nat} {items batch batch' rest rest' : List α}
    (takes : Takes le limit items batch rest) (next : Takes le limit' rest batch' rest') :
    Takes le (limit + limit') items (batch ++ batch') rest' where
  perm := by
    rw [List.append_assoc]
    exact (next.perm.append_left batch).trans takes.perm
  sorted := by
    refine List.pairwise_append.mpr ⟨takes.sorted, next.sorted, ?_⟩
    intro a taken b after
    exact takes.first a taken b (next.perm.mem_iff.mp (List.mem_append_left _ after))
  first a taken b left := by
    have wasLeft := next.perm.mem_iff.mp (List.mem_append_right batch' left)
    cases List.mem_append.mp taken with
    | inl earlier => exact takes.first a earlier b wasLeft
    | inr later => exact next.first a later b left
  length := by
    have whole := takes.perm.length_eq
    have first := takes.length
    have second := next.length
    rw [List.length_append] at whole ⊢
    omega

/-- A take with room for everything leaves nothing. -/
theorem Takes.all {limit : Nat} {items batch rest : List α} (takes : Takes le limit items batch rest)
    (room : items.length ≤ limit) : batch.Perm items := by
  have whole := takes.perm.length_eq
  have length := takes.length
  rw [List.length_append] at whole
  have nothing : rest = [] := List.length_eq_zero_iff.mp (by omega)
  have perm := takes.perm
  rwa [nothing, List.append_nil] at perm

/-- A batch that leaves an item is full, and nothing in it comes later. -/
theorem Takes.full_of_left {limit : Nat} {items batch rest : List α}
    (takes : Takes le limit items batch rest) {a : α} (left : a ∈ rest) :
    batch.length = limit ∧ ∀ b ∈ batch, le b a := by
  have whole := takes.perm.length_eq
  have length := takes.length
  have nonempty := List.length_pos_of_mem left
  rw [List.length_append] at whole
  exact ⟨by omega, fun b taken => takes.first b taken a left⟩

/-- So an item is taken when the batch has room for everything that comes no later. -/
theorem Takes.mem_of_room [DecidableRel le] [Std.Total le] {limit : Nat}
    {items batch rest : List α} (takes : Takes le limit items batch rest) {a : α}
    (member : a ∈ items) (room : (items.filter fun b => le b a).length ≤ limit) : a ∈ batch := by
  cases List.mem_append.mp (takes.perm.mem_iff.mpr member) with
  | inl taken => exact taken
  | inr left =>
    -- otherwise the batch is full of items that come no later, and the item itself is one more
    obtain ⟨full, before⟩ := takes.full_of_left left
    have same := (takes.perm.filter fun b => le b a).length_eq
    have noLater : (batch.filter fun b => le b a) = batch :=
      List.filter_eq_self.mpr (by simpa using before)
    have itself : 0 < (rest.filter fun b => le b a).length := by
      apply List.length_pos_of_mem (a := a)
      simpa [left] using (Std.Total.total (r := le) a a)
    rw [List.filter_append, List.length_append, noLater] at same
    omega

end Draining
