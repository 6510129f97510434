import NotifyQueue.Lib.Runs

/-! # Rows with a version

The states of a system hold at most one row under a key, and every row carries a version.
When a step leaves the row of a key as it is, creates it at its first version, or replaces it
by a row with the next version, the key and the version of a row say which row it is: in all
the states of a run there is one row with them.
-/

namespace Versions

open Runs

universe u v w x

variable {σ : Type u} {ε : Type v} {κ : Type w} {ρ : Type x}

/-- What one step does to the row under a key. -/
inductive Bump (version : ρ → Int) (first : Int) : Option ρ → Option ρ → Prop where
  | same (row : Option ρ) : Bump version first row row
  | created {row : ρ} (begins : version row = first) : Bump version first none (some row)
  | raised {row row' : ρ} (next : version row' = version row + 1) :
      Bump version first (some row) (some row')

/-- The row was under its key in one of the states. -/
def Seen (rows : σ → κ → Option ρ) (history : History σ ε) (s : σ) (key : κ) (row : ρ) : Prop :=
  rows s key = some row ∨ ∃ taken ∈ history, rows taken.before key = some row

section

variable {S : System σ ε} {version : ρ → Int} {first : Int} {rows : σ → κ → Option ρ}
  {history : History σ ε} {s s' : σ} {e : ε} {key : κ} {row : ρ}

theorem Seen.later (seen : Seen rows history s key row) :
    Seen rows (⟨s, e, s'⟩ :: history) s' key row := by
  right
  cases seen with
  | inl now => exact ⟨_, List.mem_cons_self, now⟩
  | inr before =>
    obtain ⟨taken, member, present⟩ := before
    exact ⟨taken, List.mem_cons_of_mem _ member, present⟩

/-- A row that has been seen was there before the last step, or is what it wrote. -/
theorem seen_cons (seen : Seen rows (⟨s, e, s'⟩ :: history) s' key row) :
    Seen rows history s key row ∨ rows s' key = some row := by
  cases seen with
  | inl now => exact .inr now
  | inr before =>
    obtain ⟨taken, member, present⟩ := before
    cases member with
    | head => exact .inl (.inl present)
    | tail _ member => exact .inl (.inr ⟨taken, member, present⟩)

/-- What a step left under a key has been seen, by the next step or at the end. -/
theorem Seen.of_after (run : Run S history s) {taken : Taken σ ε} (member : taken ∈ history)
    (present : rows taken.after key = some row) : Seen rows history s key row := by
  induction run with
  | start _ => simp at member
  | next _ _ inductionHypothesis =>
    cases member with
    | head => exact .inl present
    | tail _ member => exact (inductionHypothesis member).later

/-- The present row of a key has the highest version, and nothing else has that version. -/
theorem Seen.le_present (run : Run S history s)
    (bumps : ∀ s e s', S.step s e s' → ∀ key, Bump version first (rows s key) (rows s' key))
    (seen : Seen rows history s key row) :
    ∃ present, rows s key = some present ∧
      (row = present ∨ version row < version present) := by
  induction run with
  | start _ =>
    cases seen with
    | inl now => exact ⟨row, now, .inl rfl⟩
    | inr before => simp at before
  | @next history s s' e run step inductionHypothesis =>
    cases seen_cons seen with
    | inr now => exact ⟨row, now, .inl rfl⟩
    | inl before =>
      obtain ⟨present, found, newest⟩ := inductionHypothesis before
      have bump := bumps s e s' step key
      rw [found] at bump
      generalize rows s' key = after at bump
      cases bump with
      | same => exact ⟨present, rfl, newest⟩
      | @raised _ present' next =>
        refine ⟨present', rfl, .inr ?_⟩
        cases newest with
        | inl same =>
          subst same
          omega
        | inr older => omega

/-- Key and version determine the row. -/
theorem Seen.determined (run : Run S history s)
    (bumps : ∀ s e s', S.step s e s' → ∀ key, Bump version first (rows s key) (rows s' key))
    {other : ρ} (seen : Seen rows history s key row) (otherSeen : Seen rows history s key other)
    (same : version row = version other) : row = other := by
  induction run with
  | start _ =>
    cases seen with
    | inr before => simp at before
    | inl now =>
      cases otherSeen with
      | inr before => simp at before
      | inl otherNow => exact Option.some.inj (now.symm.trans otherNow)
  | @next history s s' e run step inductionHypothesis =>
    -- of two rows, one is new at most; it is newer than all that were there
    have older : ∀ {old new : ρ}, Seen rows history s key old → rows s' key = some new →
        version old = version new → old = new := by
      intro old new before now same
      obtain ⟨present, found, newest⟩ := (before.later : Seen rows _ s' key old).le_present
        (.next run step) bumps
      obtain rfl : new = present := Option.some.inj (now.symm.trans found)
      cases newest with
      | inl equal => exact equal
      | inr less => omega
    cases seen_cons seen with
    | inl before =>
      cases seen_cons otherSeen with
      | inl otherBefore => exact inductionHypothesis before otherBefore
      | inr otherNow => exact older before otherNow same
    | inr now =>
      cases seen_cons otherSeen with
      | inl otherBefore => exact (older otherBefore now same.symm).symm
      | inr otherNow => exact Option.some.inj (now.symm.trans otherNow)

end

end Versions
