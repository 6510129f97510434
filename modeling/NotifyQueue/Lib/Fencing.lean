import Mathlib.Data.List.Nodup
import Mathlib.Tactic.Common

/-! # Fencing tokens

A key is held under a token, and the token ends when the hold does.  The ledger keeps
what was issued (newest first) and what has ended.  A step issues a batch of tokens to
free keys, or ends the holds of some keys; both may touch many keys at once.

`Sound` is the invariant, kept by every step as long as no token is issued twice:
a hold is always under the latest token of its key, that token has not ended, and no
token ends twice.
-/

namespace Fencing

universe u v

variable {κ : Type u} {τ : Type v}

structure Ledger (κ : Type u) (τ : Type v) where
  holder : κ → Option τ
  issued : List (κ × τ)
  ended : List τ

def Ledger.empty : Ledger κ τ := ⟨fun _ => none, [], []⟩

/-- The token that was issued last for a key. -/
def latest [DecidableEq κ] (issued : List (κ × τ)) (k : κ) : Option τ :=
  (issued.find? fun claim => claim.1 = k).map Prod.snd

/-- `batch` goes to keys that were free. -/
structure Issues (l : Ledger κ τ) (batch : List (κ × τ)) (holder : κ → Option τ) : Prop where
  free : ∀ k t, (k, t) ∈ batch → l.holder k = none
  taken : ∀ k t, (k, t) ∈ batch → holder k = some t
  frame : ∀ k, (∀ t, (k, t) ∉ batch) → holder k = l.holder k

/-- The holds of `keys` are over. -/
structure Ends (l : Ledger κ τ) (keys : List κ) (holder : κ → Option τ) : Prop where
  nodup : keys.Nodup
  freed : ∀ k ∈ keys, holder k = none
  frame : ∀ k, k ∉ keys → holder k = l.holder k

inductive Step (l : Ledger κ τ) : Ledger κ τ → Prop where
  | issue {batch : List (κ × τ)} {holder : κ → Option τ} (issues : Issues l batch holder) :
      Step l ⟨holder, batch ++ l.issued, l.ended⟩
  | finish {keys : List κ} {holder : κ → Option τ} (ends : Ends l keys holder) :
      Step l ⟨holder, l.issued, keys.filterMap l.holder ++ l.ended⟩

structure Sound [DecidableEq κ] (l : Ledger κ τ) : Prop where
  holder_latest : ∀ k t, l.holder k = some t → latest l.issued k = some t
  holder_live : ∀ k t, l.holder k = some t → t ∉ l.ended
  ended_nodup : l.ended.Nodup
  ended_issued : ∀ t ∈ l.ended, t ∈ l.issued.map Prod.snd

section

variable [DecidableEq κ] {l l' : Ledger κ τ}

theorem mem_of_latest {issued : List (κ × τ)} {k : κ} {t : τ} (found : latest issued k = some t) :
    (k, t) ∈ issued := by
  obtain ⟨⟨k', t'⟩, claim, rfl⟩ := Option.map_eq_some_iff.mp found
  have same : k' = k := by simpa using List.find?_some claim
  subst same
  exact List.mem_of_find?_eq_some claim

theorem sound_empty : Sound (Ledger.empty : Ledger κ τ) := by
  constructor
  · intro k t held
    cases held
  · intro k t held
    cases held
  · exact List.nodup_nil
  · intro t member
    cases member

/-- Two keys are never held under one token. -/
theorem Sound.holder_injective (sound : Sound l) (distinct : (l.issued.map Prod.snd).Nodup)
    {k k' : κ} {t : τ} (held : l.holder k = some t) (held' : l.holder k' = some t) : k = k' := by
  have member := mem_of_latest (sound.holder_latest k t held)
  have member' := mem_of_latest (sound.holder_latest k' t held')
  have same := List.inj_on_of_nodup_map distinct member member' rfl
  exact congrArg Prod.fst same

theorem latest_append_of_mem {batch issued : List (κ × τ)} {k : κ} {t : τ}
    (unique : ∀ t', (k, t') ∈ batch → t' = t) (member : (k, t) ∈ batch) :
    latest (batch ++ issued) k = some t := by
  rw [latest, List.find?_append]
  cases found : batch.find? fun claim => claim.1 = k with
  | none =>
    rw [List.find?_eq_none] at found
    exact absurd (decide_eq_true rfl) (found (k, t) member)
  | some claim =>
    have same : claim.1 = k := by simpa using List.find?_some found
    have inBatch : (k, claim.2) ∈ batch := same ▸ List.mem_of_find?_eq_some found
    simp [unique claim.2 inBatch]

theorem latest_append_of_not_mem {batch issued : List (κ × τ)} {k : κ}
    (absent : ∀ t, (k, t) ∉ batch) : latest (batch ++ issued) k = latest issued k := by
  have none : (batch.find? fun claim => claim.1 = k) = none := by
    rw [List.find?_eq_none]
    intro claim member same
    have same : claim.1 = k := by simpa using same
    exact absent claim.2 (same ▸ member)
  rw [latest, List.find?_append, none, Option.none_or, latest]

theorem Sound.issue (sound : Sound l) {batch : List (κ × τ)} {holder : κ → Option τ}
    (issues : Issues l batch holder) (distinct : ((batch ++ l.issued).map Prod.snd).Nodup) :
    Sound ⟨holder, batch ++ l.issued, l.ended⟩ := by
  rw [List.map_append, List.nodup_append] at distinct
  constructor
  · intro k t held
    by_cases inBatch : ∃ t', (k, t') ∈ batch
    · obtain ⟨t', member⟩ := inBatch
      have same : t' = t := Option.some.inj ((issues.taken k t' member).symm.trans held)
      subst same
      apply latest_append_of_mem _ member
      intro t'' member'
      exact Option.some.inj ((issues.taken k t'' member').symm.trans held)
    · rw [not_exists] at inBatch
      show latest (batch ++ l.issued) k = some t
      rw [latest_append_of_not_mem inBatch]
      exact sound.holder_latest k t ((issues.frame k inBatch).symm.trans held)
  · intro k t held
    by_cases inBatch : ∃ t', (k, t') ∈ batch
    · -- a token that has ended was issued before, so it is not in the batch
      obtain ⟨t', member⟩ := inBatch
      have same : t' = t := Option.some.inj ((issues.taken k t' member).symm.trans held)
      subst same
      intro inEnded
      exact distinct.2.2 t' (List.mem_map_of_mem member) t' (sound.ended_issued t' inEnded) rfl
    · rw [not_exists] at inBatch
      exact sound.holder_live k t ((issues.frame k inBatch).symm.trans held)
  · exact sound.ended_nodup
  · intro t member
    rw [List.map_append, List.mem_append]
    exact .inr (sound.ended_issued t member)

theorem Sound.finish (sound : Sound l) {keys : List κ} {holder : κ → Option τ}
    (ends : Ends l keys holder) (distinct : (l.issued.map Prod.snd).Nodup) :
    Sound ⟨holder, l.issued, keys.filterMap l.holder ++ l.ended⟩ := by
  have stillHeld : ∀ k t, holder k = some t → k ∉ keys ∧ l.holder k = some t := by
    intro k t held
    by_cases inKeys : k ∈ keys
    · rw [ends.freed k inKeys] at held
      cases held
    · exact ⟨inKeys, (ends.frame k inKeys).symm.trans held⟩
  constructor
  · intro k t held
    exact sound.holder_latest k t (stillHeld k t held).2
  · intro k t held member
    obtain ⟨notFinished, wasHeld⟩ := stillHeld k t held
    rcases List.mem_append.mp member with inKeys | inEnded
    · obtain ⟨k', inKeys, held'⟩ := List.mem_filterMap.mp inKeys
      exact notFinished (sound.holder_injective distinct held' wasHeld ▸ inKeys)
    · exact sound.holder_live k t wasHeld inEnded
  · rw [List.nodup_append]
    refine ⟨ends.nodup.filterMap ?_, sound.ended_nodup, ?_⟩
    · intro k k' t held held'
      exact sound.holder_injective distinct held held'
    · intro t inKeys t' inEnded same
      obtain ⟨k, _, held⟩ := List.mem_filterMap.mp inKeys
      exact sound.holder_live k t held (same ▸ inEnded)
  · intro t member
    rcases List.mem_append.mp member with inKeys | inEnded
    · obtain ⟨k, _, held⟩ := List.mem_filterMap.mp inKeys
      exact List.mem_map_of_mem (mem_of_latest (sound.holder_latest k t held))
    · exact sound.ended_issued t inEnded

/-- Every step keeps the ledger sound, as long as no token is issued twice. -/
theorem Sound.step (sound : Sound l) (step : Step l l')
    (distinct : (l'.issued.map Prod.snd).Nodup) : Sound l' := by
  cases step with
  | issue issues => exact sound.issue issues distinct
  | finish ends => exact sound.finish ends distinct

end

end Fencing
