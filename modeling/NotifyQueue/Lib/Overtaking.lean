import NotifyQueue.Lib.Draining
import NotifyQueue.Lib.Runs

/-! # Waiting in a queue that is served in batches

An item waits in a system whose steps are otherwise arbitrary.  A batch that passes it over is
full of items that come no later (`Takes.full_of_left`), and they leave the queue.  So what the batches
had room for, over a whole run, is bounded by what was in the queue when the waiting began and
what joined it since (`InLine.run`). -/

namespace Overtaking

open Draining Runs

universe u v w

/-! ## One batch -/

section

variable {α : Type u} {batch : List α}

/-- A batch out of a queue, and what the queue keeps, or is joined by. -/
theorem length_add_le {queue queue' joined : List α} (nodup : queue'.Nodup) (nodupBatch : batch.Nodup)
    (kept : ∀ a ∈ queue', a ∈ queue ∧ a ∉ batch ∨ a ∈ joined ∧ a ∉ queue)
    (taken : ∀ a ∈ batch, a ∈ queue) : queue'.length + batch.length ≤ queue.length + joined.length := by
  have apart : (queue' ++ batch).Nodup := by
    refine List.nodup_append.mpr ⟨nodup, nodupBatch, ?_⟩
    intro a inQueue b inBatch same
    subst same
    cases kept a inQueue with
    | inl old => exact old.2 inBatch
    | inr new => exact new.2 (taken a inBatch)
  have parts : queue' ++ batch ⊆ queue ++ joined := by
    intro a member
    cases List.mem_append.mp member with
    | inl inQueue =>
      cases kept a inQueue with
      | inl old => exact List.mem_append_left _ old.1
      | inr new => exact List.mem_append_right _ new.1
    | inr inBatch => exact List.mem_append_left _ (taken a inBatch)
  simpa using apart.length_le_of_subset parts

end

/-! ## A whole run -/

section

variable {σ : Type u} {ε : Type v} {S : System σ ε}

/-- What the steps of a history amount to. -/
def total (amount : Taken σ ε → Nat) : History σ ε → Nat
  | [] => 0
  | taken :: history => total amount history + amount taken

@[simp] theorem total_nil (amount : Taken σ ε → Nat) : total amount [] = 0 := rfl

@[simp] theorem total_cons (amount : Taken σ ε → Nat) (taken : Taken σ ε) (history : History σ ε) :
    total amount (taken :: history) = total amount history + amount taken := rfl

theorem total_ite (p : Taken σ ε → Bool) (n : Nat) (history : History σ ε) :
    total (fun taken => if p taken then n else 0) history = n * history.countP p := by
  induction history with
  | nil => simp
  | cons taken history inductionHypothesis =>
    rw [total_cons, inductionHypothesis]
    by_cases counts : p taken = true
    · rw [List.countP_cons_of_pos counts, if_pos counts, Nat.mul_succ]
    · rw [List.countP_cons_of_neg counts, if_neg counts, Nat.add_zero]

@[simp] theorem total_zero (history : History σ ε) : total (fun _ => 0) history = 0 := by
  induction history with
  | nil => rfl
  | cons taken history inductionHypothesis => rw [total_cons, inductionHypothesis]

/-- The rule of an item that waits: a step that meets `C` ends its waiting, or takes at least
    `room` items from those `ahead` of it, which `joins` have joined meanwhile. -/
structure InLine (S : System σ ε) (C : Taken σ ε → Prop) (waits : σ → Prop)
    (ends : Taken σ ε → Prop) (ahead : σ → Nat) (room joins : Taken σ ε → Nat) : Prop where
  step : ∀ s e s', waits s → S.step s e s' → C ⟨s, e, s'⟩ →
    ends ⟨s, e, s'⟩ ∨ waits s' ∧ ahead s' + room ⟨s, e, s'⟩ ≤ ahead s + joins ⟨s, e, s'⟩

/-- An item whose waiting has not ended was passed over by no more than what was ahead of it and
    what joined. -/
theorem InLine.run {C : Taken σ ε → Prop} {waits : σ → Prop} {ends : Taken σ ε → Prop}
    {ahead : σ → Nat} {room joins : Taken σ ε → Nat} (waiting : InLine S C waits ends ahead room joins)
    {start final : σ} {since : History σ ε} (run : Run (S.startingAt start) since final)
    (along : Along (fun _ taken => C taken) since) (begins : waits start) :
    (∃ taken ∈ since, ends taken) ∨
      waits final ∧ ahead final + total room since ≤ ahead start + total joins since := by
  refine Run.invariant (I := fun since final => (∃ taken ∈ since, ends taken) ∨
    waits final ∧ ahead final + total room since ≤ ahead start + total joins since) ?_ ?_ run along
  · rintro _ rfl
    exact .inr ⟨begins, le_rfl⟩
  · intro since s e s' _ _ before condition stepped
    cases before with
    | inl ended =>
      obtain ⟨taken, member, ends⟩ := ended
      exact .inl ⟨taken, List.mem_cons_of_mem _ member, ends⟩
    | inr still =>
      obtain ⟨waits, bound⟩ := still
      cases waiting.step s e s' waits stepped condition with
      | inl ends => exact .inl ⟨_, List.mem_cons_self, ends⟩
      | inr next =>
        obtain ⟨waits, step⟩ := next
        refine .inr ⟨waits, ?_⟩
        rw [total_cons, total_cons]
        omega

/-- So when the batches had more room than that, the waiting has ended. -/
theorem InLine.ended {C : Taken σ ε → Prop} {waits : σ → Prop} {ends : Taken σ ε → Prop}
    {ahead : σ → Nat} {room joins : Taken σ ε → Nat} (waiting : InLine S C waits ends ahead room joins)
    {start final : σ} {since : History σ ε} (run : Run (S.startingAt start) since final)
    (along : Along (fun _ taken => C taken) since) (begins : waits start)
    (inQueue : ∀ s, waits s → 0 < ahead s)
    (enough : ahead start + total joins since ≤ total room since) : ∃ taken ∈ since, ends taken := by
  cases waiting.run run along begins with
  | inl ended => exact ended
  | inr still =>
    have nonempty := inQueue final still.1
    omega

end

end Overtaking
