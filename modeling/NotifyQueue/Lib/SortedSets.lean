import Mathlib.Data.Finset.Card
import Mathlib.Data.List.Nodup
import Mathlib.Tactic.Common

/-! # Sorted sets

A set whose members carry an integer score, with the commands that a Redis sorted set has.
What a command does is stated on `score`, the score of one member. -/

namespace SortedSets

universe u

structure SortedSet (α : Type u) where
  members : List (α × Int)
  nodup : (members.map Prod.fst).Nodup

namespace SortedSet

variable {α : Type u}

def empty : SortedSet α := ⟨[], List.nodup_nil⟩

/-- `ZCARD`. -/
def card (s : SortedSet α) : Nat := s.members.length

/-- `ZREMRANGEBYSCORE -inf bound`. -/
def removeUpTo (s : SortedSet α) (bound : Int) : SortedSet α where
  members := s.members.filter fun member => bound < member.2
  nodup := s.nodup.sublist (List.filter_sublist.map Prod.fst)

/-- The lowest score, which `ZRANGE 0 0 WITHSCORES` returns with its member. -/
def lowest (s : SortedSet α) : Option Int := (s.members.map Prod.snd).min?

variable [DecidableEq α]

/-- `ZSCORE`. -/
def score (s : SortedSet α) (a : α) : Option Int :=
  (s.members.find? fun member => member.1 = a).map Prod.snd

/-- `ZREM`. -/
def remove (s : SortedSet α) (a : α) : SortedSet α where
  members := s.members.filter fun member => member.1 ≠ a
  nodup := s.nodup.sublist (List.filter_sublist.map Prod.fst)

/-- `ZADD`. -/
def add (s : SortedSet α) (a : α) (score : Int) : SortedSet α where
  members := (s.remove a).members ++ [(a, score)]
  nodup := by
    rw [List.map_append, List.map_singleton, List.nodup_append]
    refine ⟨(s.remove a).nodup, List.nodup_singleton _, ?_⟩
    intro b inRest b' last same
    obtain ⟨member, kept, rfl⟩ := List.mem_map.mp inRest
    have different : member.1 ≠ a := by simpa using (List.mem_filter.mp kept).2
    exact different (same.trans (List.mem_singleton.mp last))

/-- The members without their scores. -/
def ids (s : SortedSet α) : Finset α := (s.members.map Prod.fst).toFinset

@[simp] theorem card_ids (s : SortedSet α) : s.ids.card = s.card := by
  rw [ids, List.toFinset_card_of_nodup s.nodup, List.length_map, card]

theorem score_eq_some {s : SortedSet α} {a : α} {x : Int} :
    s.score a = some x ↔ (a, x) ∈ s.members := by
  constructor
  · intro found
    obtain ⟨member, first, rfl⟩ := Option.map_eq_some_iff.mp found
    have named : member.1 = a := by simpa using List.find?_some first
    exact named ▸ List.mem_of_find?_eq_some first
  · intro member
    cases first : s.members.find? fun member => member.1 = a with
    | none =>
      rw [List.find?_eq_none] at first
      exact absurd (decide_eq_true rfl) (first (a, x) member)
    | some other =>
      have named : other.1 = a := by simpa using List.find?_some first
      have same := List.inj_on_of_nodup_map s.nodup (List.mem_of_find?_eq_some first) member named
      simp [score, first, same]

theorem mem_ids {s : SortedSet α} {a : α} : a ∈ s.ids ↔ ∃ x, s.score a = some x := by
  simp [ids, score_eq_some]

theorem score_removeUpTo {s : SortedSet α} {bound : Int} {a : α} {x : Int} :
    (s.removeUpTo bound).score a = some x ↔ s.score a = some x ∧ bound < x := by
  simp [score_eq_some, removeUpTo]

theorem score_remove {s : SortedSet α} {a b : α} {x : Int} :
    (s.remove a).score b = some x ↔ s.score b = some x ∧ b ≠ a := by
  simp [score_eq_some, remove]

theorem score_add {s : SortedSet α} {a b : α} {x y : Int} :
    (s.add a x).score b = some y ↔ (s.score b = some y ∧ b ≠ a) ∨ (b = a ∧ y = x) := by
  rw [score_eq_some, add, List.mem_append, ← score_eq_some, score_remove]
  simp

/-! ## Sizes -/

theorem ids_subset {s t : SortedSet α} (scores : ∀ a x, s.score a = some x → t.score a = some x) :
    s.ids ⊆ t.ids := by
  intro a member
  obtain ⟨x, held⟩ := mem_ids.mp member
  exact mem_ids.mpr ⟨x, scores a x held⟩

theorem card_le {s t : SortedSet α} (scores : ∀ a x, s.score a = some x → t.score a = some x) :
    s.card ≤ t.card := by
  rw [← card_ids, ← card_ids]
  exact Finset.card_le_card (ids_subset scores)

theorem card_lt {s t : SortedSet α} (scores : ∀ a x, s.score a = some x → t.score a = some x)
    {a : α} {x : Int} (held : t.score a = some x) (gone : s.score a = none) : s.card < t.card := by
  rw [← card_ids, ← card_ids]
  refine Finset.card_lt_card (Finset.ssubset_iff_subset_ne.mpr ⟨ids_subset scores, ?_⟩)
  intro same
  have member : a ∈ t.ids := mem_ids.mpr ⟨x, held⟩
  rw [← same] at member
  obtain ⟨y, still⟩ := mem_ids.mp member
  rw [gone] at still
  cases still

theorem card_add {s : SortedSet α} {a : α} {x : Int} (fresh : s.score a = none) :
    (s.add a x).card = s.card + 1 := by
  have absent : a ∉ s.ids := by
    intro member
    obtain ⟨y, held⟩ := mem_ids.mp member
    rw [fresh] at held
    cases held
  have ids : (s.add a x).ids = insert a s.ids := by
    ext b
    simp only [Finset.mem_insert, mem_ids, score_add]
    constructor
    · rintro ⟨y, old | new⟩
      · exact .inr ⟨y, old.1⟩
      · exact .inl new.1
    · rintro (rfl | ⟨y, held⟩)
      · exact ⟨x, .inr ⟨rfl, rfl⟩⟩
      · refine ⟨y, .inl ⟨held, ?_⟩⟩
        rintro rfl
        rw [fresh] at held
        cases held
  rw [← card_ids, ids, Finset.card_insert_of_notMem absent, card_ids]

/-- The lowest score of a set that has a member. -/
theorem exists_lowest {s : SortedSet α} (occupied : 0 < s.card) :
    ∃ x, s.lowest = some x ∧ (∃ a, s.score a = some x) ∧ ∀ a y, s.score a = some y → x ≤ y := by
  cases found : s.lowest with
  | none =>
    have empty : s.members = [] := by simpa [lowest] using found
    simp [card, empty] at occupied
  | some x =>
    obtain ⟨member, least⟩ := List.min?_eq_some_iff.mp found
    obtain ⟨⟨a, y⟩, inSet, rfl⟩ := List.mem_map.mp member
    refine ⟨y, rfl, ⟨a, score_eq_some.mpr inSet⟩, ?_⟩
    intro b z held
    exact least z (List.mem_map.mpr ⟨(b, z), score_eq_some.mp held, rfl⟩)

end SortedSet

end SortedSets
