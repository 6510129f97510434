import NotifyQueue.Lib.Runs
import NotifyQueue.Services.RateLimiter

/-! # How many jobs a window admits

The calls on one recipient's key are a transition system whose clock never goes back.
`standing` reads off a history which admissions have not been followed by a release.

The script counts slots by when they were taken.  A job that is admitted again on the slot
it holds keeps the old score, so its slot can lapse while it still counts in a window.
`window_bound_fresh` says that nothing else can break the bound, and that every such call
can. -/

namespace NotifyQueue

open Runs SortedSets

inductive RateOp where
  | acquire (job : JobId)
  | release (job : JobId)
deriving DecidableEq, Repr

/-- A finished call: `none` is the reply of a release, which the caller ignores. -/
structure RateCall where
  op : RateOp
  now : Int
  reply : Option AcquireReply
deriving DecidableEq, Repr

def RateOp.run (window : Int) (limit : Nat) (now : Int) (key : RateKey) :
    RateOp → Option AcquireReply × RateKey
  | .acquire job =>
    let (reply, key) := acquireScript window limit now job key
    (some reply, key)
  | .release job => (none, releaseScript now job key)

structure RateState where
  key : RateKey
  clock : Int

def rateSystem (limit : Nat) (window : Int) : System RateState RateCall where
  init s := s.key = .empty
  step s call s' :=
    s.clock ≤ call.now ∧
      call.op.run window limit call.now s.key = (call.reply, s'.key) ∧ s'.clock = call.now

abbrev RateHistory := History RateState RateCall

/-- The admissions that no later call released. -/
def standing : RateHistory → List (JobId × Int)
  | [] => []
  | taken :: earlier =>
    match taken.label.op, taken.label.reply with
    | .acquire job, some .admitted => (job, taken.label.now) :: standing earlier
    | .acquire _, _ => standing earlier
    | .release job, _ => (standing earlier).filter fun admission => admission.1 ≠ job

/-- The jobs admitted in `[start, start + window)` and not released afterwards. -/
def admittedIn (history : RateHistory) (start window : Int) : Finset JobId :=
  (((standing history).filter fun admission =>
    start ≤ admission.2 ∧ admission.2 < start + window).map Prod.fst).toFinset

/-- An `acquire` does not admit its job on a slot that was taken at an earlier time. -/
def TakesFresh (window : Int) (taken : Taken RateState RateCall) : Prop :=
  match taken.label.op with
  | .acquire job =>
    ∀ t ∈ (taken.before.key.held taken.label.now window).score job, t = taken.label.now
  | .release _ => True

instance (window : Int) : DecidablePred (TakesFresh window) := fun taken => by
  unfold TakesFresh
  split <;> infer_instance

theorem mem_admittedIn {history : RateHistory} {start window : Int} {j : JobId} :
    j ∈ admittedIn history start window ↔
      ∃ t, (j, t) ∈ standing history ∧ start ≤ t ∧ t < start + window := by
  simp [admittedIn]

/-! ## The scripts -/

section

variable {key : RateKey} {now window : Int} {limit : Nat} {job j : JobId} {t : Int}

theorem score_keep {slots : SortedSet JobId} {expiresAt : Option Int} :
    (RateKey.keep slots expiresAt).slots.score j = some t ↔ slots.score j = some t := by
  unfold RateKey.keep
  split
  · next empty =>
    have none : slots.members = [] := List.length_eq_zero_iff.mp empty
    simp [RateKey.empty, SortedSet.score_eq_some, SortedSet.empty, none]
  · rfl

/-- An expired key shows nothing, so a slot that shows is in the key. -/
theorem score_at (shown : (key.at now).slots.score j = some t) : key.slots.score j = some t := by
  unfold RateKey.at at shown
  split at shown
  · split at shown
    · cases shown
    · exact shown
  · exact shown

theorem score_held (held : (key.held now window).score j = some t) :
    key.slots.score j = some t ∧ now - window < t := by
  have shown := SortedSet.score_removeUpTo.mp held
  exact ⟨score_at shown.1, shown.2⟩

/-- What an `acquire` does: re-admit on the slot that the job holds, take a fresh slot, or
    turn the job away. -/
theorem acquireScript_cases {reply : AcquireReply} {key' : RateKey}
    (returned : acquireScript window limit now job key = (reply, key')) :
    (∃ taken, (key.held now window).score job = some taken ∧ reply = .admitted ∧
        ∀ j t, key'.slots.score j = some t ↔ (key.held now window).score j = some t) ∨
      ((key.held now window).score job = none ∧ (key.held now window).card < limit ∧
        reply = .admitted ∧
        ∀ j t, key'.slots.score j = some t ↔
          (key.held now window).score j = some t ∨ (j = job ∧ t = now)) ∨
      ((key.held now window).score job = none ∧ limit ≤ (key.held now window).card ∧
        reply ≠ .admitted ∧
        ∀ j t, key'.slots.score j = some t ↔ (key.held now window).score j = some t) := by
  simp only [acquireScript] at returned
  split at returned
  · next taken held =>
    obtain ⟨rfl, rfl⟩ := Prod.mk.inj returned
    exact .inl ⟨taken, held, rfl, fun j t => score_keep⟩
  · next held =>
    split at returned
    · next room =>
      obtain ⟨rfl, rfl⟩ := Prod.mk.inj returned
      refine .inr (.inl ⟨held, room, rfl, ?_⟩)
      intro j t
      rw [SortedSet.score_add]
      constructor
      · intro added
        cases added with
        | inl old => exact .inl old.1
        | inr new => exact .inr new
      · intro added
        cases added with
        | inl old =>
          -- the job held no slot before, so the old slot is another job's
          refine .inl ⟨old, ?_⟩
          rintro rfl
          rw [held] at old
          cases old
        | inr new => exact .inr new
    · next full =>
      refine .inr (.inr ⟨held, not_lt.mp full, ?_⟩)
      split at returned <;> obtain ⟨rfl, rfl⟩ := Prod.mk.inj returned
      · exact ⟨by simp, fun j t => score_keep⟩
      · exact ⟨by simp, fun j t => score_keep⟩

theorem score_releaseScript (held : (releaseScript now job key).slots.score j = some t) :
    key.slots.score j = some t ∧ j ≠ job := by
  have kept := SortedSet.score_remove.mp (score_keep.mp held)
  exact ⟨score_at kept.1, kept.2⟩

end

/-! ## Keys that expire after their slots -/

/-- No slot lies in the future, and the key outlives the window of each. -/
def RateKey.Sound (window now : Int) (key : RateKey) : Prop :=
  ∀ j t, key.slots.score j = some t → t ≤ now ∧ ∃ e, key.expiresAt = some e ∧ t + window ≤ e

section

variable {window now : Int} {limit : Nat} {key key' : RateKey} {job j : JobId} {t : Int}

theorem RateKey.Sound.mono (sound : key.Sound window now) {now' : Int} (later : now ≤ now') :
    key.Sound window now' := by
  intro j t held
  have ⟨past, expires⟩ := sound j t held
  exact ⟨past.trans later, expires⟩

/-- A key that shows a slot is the one that is stored. -/
theorem at_eq_of_score (shown : (key.at now).slots.score j = some t) : key.at now = key := by
  unfold RateKey.at at shown ⊢
  split at shown
  · split at shown
    · cases shown
    · next unexpired => exact if_neg unexpired
  · rfl

/-- As long as its window lasts, a slot that is stored shows. -/
theorem score_at_of_live (sound : key.Sound window now) (held : key.slots.score j = some t)
    (live : now < t + window) : (key.at now).slots.score j = some t := by
  obtain ⟨_, e, expires, outlives⟩ := sound j t held
  have unexpired : ¬ e < now := by omega
  simp only [RateKey.at, expires, if_neg unexpired, held]

theorem RateKey.Sound.keep (sound : key.Sound window now) {slots : SortedSet JobId}
    (subset : ∀ j t, slots.score j = some t → (key.at now).slots.score j = some t) :
    (RateKey.keep slots (key.at now).expiresAt).Sound window now := by
  intro j t held
  have shown := subset j t (score_keep.mp held)
  have occupied : slots.card ≠ 0 := by
    intro empty
    rw [RateKey.keep, if_pos empty] at held
    cases held
  rw [RateKey.keep, if_neg occupied, at_eq_of_score shown]
  exact sound j t (score_at shown)

theorem RateKey.Sound.acquire (sound : key.Sound window now) {reply : AcquireReply}
    (returned : acquireScript window limit now job key = (reply, key')) :
    key'.Sound window now := by
  have held : ∀ j t, (key.held now window).score j = some t → (key.at now).slots.score j = some t :=
    fun j t held => (SortedSet.score_removeUpTo.mp held).1
  have kept : (RateKey.keep (key.held now window) (key.at now).expiresAt).Sound window now :=
    sound.keep held
  simp only [acquireScript] at returned
  split at returned
  · cases returned
    exact kept
  · split at returned
    · cases returned
      intro j t added
      cases SortedSet.score_add.mp added with
      | inl old =>
        have past := (sound j t (score_at (held j t old.1))).1
        exact ⟨past, now + window, rfl, by omega⟩
      | inr new => exact ⟨by omega, now + window, rfl, by omega⟩
    · split at returned <;> cases returned <;> exact kept

theorem RateKey.Sound.release (sound : key.Sound window now) :
    (releaseScript now job key).Sound window now :=
  sound.keep fun _ _ held => (SortedSet.score_remove.mp held).1

/-- An `acquire` leaves the slots alone whose window still lasts. -/
theorem score_acquire_of_live {reply : AcquireReply}
    (returned : acquireScript window limit now job key = (reply, key'))
    (shown : (key.at now).slots.score j = some t) (live : now < t + window) :
    key'.slots.score j = some t := by
  have held : (key.held now window).score j = some t :=
    SortedSet.score_removeUpTo.mpr ⟨shown, by omega⟩
  obtain ⟨_, _, _, slots⟩ | ⟨_, _, _, slots⟩ | ⟨_, _, _, slots⟩ := acquireScript_cases returned
  · exact (slots j t).mpr held
  · exact (slots j t).mpr (.inl held)
  · exact (slots j t).mpr held

/-- A job that is admitted has a slot. -/
theorem score_of_admitted (returned : acquireScript window limit now job key = (.admitted, key')) :
    ∃ t, key'.slots.score job = some t := by
  obtain ⟨t, held, _, slots⟩ | ⟨_, _, _, slots⟩ | ⟨_, _, turned, _⟩ := acquireScript_cases returned
  · exact ⟨t, (slots job t).mpr held⟩
  · exact ⟨now, (slots job now).mpr (.inr ⟨rfl, rfl⟩)⟩
  · exact absurd rfl turned

theorem score_releaseScript_of_ne (other : j ≠ job) (shown : (key.at now).slots.score j = some t) :
    (releaseScript now job key).slots.score j = some t :=
  score_keep.mpr (SortedSet.score_remove.mpr ⟨shown, other⟩)

end

/-! ## Slots and admissions -/

/-- Every slot was taken by an admission that still stands, and none lies in the future. -/
structure SlotsStand (history : RateHistory) (s : RateState) : Prop where
  slots : ∀ j t, s.key.slots.score j = some t → (j, t) ∈ standing history
  past : ∀ j t, (j, t) ∈ standing history → t ≤ s.clock

section

variable {limit : Nat} {window : Int} {history : RateHistory} {s s' : RateState} {call : RateCall}

theorem mem_standing_acquire {job j : JobId} {t : Int} (acquires : call.op = .acquire job) :
    (j, t) ∈ standing (⟨s, call, s'⟩ :: history) ↔
      (call.reply = some .admitted ∧ j = job ∧ t = call.now) ∨ (j, t) ∈ standing history := by
  simp only [standing, acquires]
  cases call.reply with
  | none => simp
  | some reply => cases reply <;> simp

theorem mem_standing_release {job j : JobId} {t : Int} (releases : call.op = .release job) :
    (j, t) ∈ standing (⟨s, call, s'⟩ :: history) ↔ (j, t) ∈ standing history ∧ j ≠ job := by
  simp only [standing, releases]
  simp

/-- A call that admits a job, on a slot it holds or on a fresh one. -/
theorem acquire_step {job : JobId} (step : (rateSystem limit window).step s call s')
    (acquires : call.op = .acquire job) :
    ∃ reply, call.reply = some reply ∧
      acquireScript window limit call.now job s.key = (reply, s'.key) := by
  obtain ⟨_, ran, _⟩ := step
  rw [acquires] at ran
  obtain ⟨reply, key⟩ := Prod.mk.inj ran
  exact ⟨_, reply.symm, Prod.ext rfl key⟩

theorem SlotsStand.step (stand : SlotsStand history s)
    (step : (rateSystem limit window).step s call s') : SlotsStand (⟨s, call, s'⟩ :: history) s' := by
  have later := step.1
  have clock := step.2.2
  cases op : call.op with
  | release job =>
    have ran := step.2.1
    rw [op] at ran
    obtain ⟨_, key⟩ := Prod.mk.inj ran
    constructor
    · intro j t held
      rw [← key] at held
      have kept := score_releaseScript held
      -- a release takes back the slot and the admissions of its job together
      exact (mem_standing_release op).mpr ⟨stand.slots j t kept.1, kept.2⟩
    · intro j t member
      have before := stand.past j t ((mem_standing_release op).mp member).1
      omega
  | acquire job =>
    obtain ⟨reply, replied, returned⟩ := acquire_step step op
    -- lapsed slots go, so what is held was in the key before
    have old : ∀ j t, (s.key.held call.now window).score j = some t → (j, t) ∈ standing history :=
      fun j t held => stand.slots j t (score_held held).1
    constructor
    · intro j t held
      rw [mem_standing_acquire op, replied]
      rcases acquireScript_cases returned with
        ⟨_, _, _, slots⟩ | ⟨_, _, admitted, slots⟩ | ⟨_, _, _, slots⟩
      · exact .inr (old j t ((slots j t).mp held))
      · cases (slots j t).mp held with
        | inl kept => exact .inr (old j t kept)
        | inr fresh => exact .inl ⟨congrArg some admitted, fresh⟩
      · exact .inr (old j t ((slots j t).mp held))
    · intro j t member
      cases (mem_standing_acquire op).mp member with
      | inl new =>
        have now := new.2.2
        omega
      | inr member =>
        have before := stand.past j t member
        omega

theorem slotsStand (run : Run (rateSystem limit window) history s) : SlotsStand history s := by
  induction run with
  | start initial =>
    constructor
    · intro j t held
      rw [show _ = RateKey.empty from initial] at held
      cases held
    · intro j t member
      cases member
  | next _ step inductionHypothesis => exact inductionHypothesis.step step

end

/-! ## The bound -/

section

variable {limit : Nat} {window : Int} {history : RateHistory} {s s' : RateState} {call : RateCall}

theorem release_step {job : JobId} (step : (rateSystem limit window).step s call s')
    (releases : call.op = .release job) : s'.key = releaseScript call.now job s.key := by
  obtain ⟨_, ran, _⟩ := step
  rw [releases] at ran
  exact (Prod.mk.inj ran).2.symm

theorem outlives_step (sound : s.key.Sound window s.clock)
    (step : (rateSystem limit window).step s call s') : s'.key.Sound window s'.clock := by
  have now := sound.mono step.1
  rw [step.2.2]
  cases op : call.op with
  | acquire job =>
    obtain ⟨reply, _, returned⟩ := acquire_step step op
    exact now.acquire returned
  | release job =>
    rw [release_step step op]
    exact now.release

theorem outlives_of_run (run : Run (rateSystem limit window) history s) :
    s.key.Sound window s.clock := by
  refine Run.state_invariant ?_ (fun s call s' sound => outlives_step sound) run
  intro s initial j t held
  rw [show s.key = .empty from initial] at held
  cases held

/-- Every admission that stands, and lies less than a window back, has its slot. -/
def StandingHeld (window : Int) (history : RateHistory) (s : RateState) : Prop :=
  ∀ j t, (j, t) ∈ standing history → s.clock < t + window → s.key.slots.score j = some t

/-- Only a job that is admitted on an older slot stands without a slot of its own. -/
theorem StandingHeld.step (held : StandingHeld window history s)
    (sound : s.key.Sound window s.clock) (step : (rateSystem limit window).step s call s')
    (fresh : TakesFresh window ⟨s, call, s'⟩) : StandingHeld window (⟨s, call, s'⟩ :: history) s' := by
  have later := step.1
  intro j t member live
  rw [step.2.2] at live
  have shows : (j, t) ∈ standing history → (s.key.at call.now).slots.score j = some t := fun old =>
    score_at_of_live (sound.mono later) (held j t old (by omega)) live
  cases op : call.op with
  | release job =>
    obtain ⟨old, other⟩ := (mem_standing_release op).mp member
    rw [release_step step op]
    exact score_releaseScript_of_ne other (shows old)
  | acquire job =>
    obtain ⟨reply, replied, returned⟩ := acquire_step step op
    cases (mem_standing_acquire op).mp member with
    | inr old => exact score_acquire_of_live returned (shows old) live
    | inl new =>
      obtain ⟨admitted, rfl, rfl⟩ := new
      obtain rfl : reply = .admitted := Option.some.inj (replied.symm.trans admitted)
      rcases acquireScript_cases returned with
        ⟨taken, slot, _, slots⟩ | ⟨_, _, _, slots⟩ | ⟨_, _, denied, _⟩
      · simp only [TakesFresh, op] at fresh
        obtain rfl : taken = call.now := fresh taken slot
        exact (slots j call.now).mpr slot
      · exact (slots j call.now).mpr (.inr ⟨rfl, rfl⟩)
      · exact absurd rfl denied

/-- After a step, a window holds what it held before, and the job if one was admitted in it. -/
theorem admittedIn_cons_subset (start : Int) :
    admittedIn (⟨s, call, s'⟩ :: history) start window ⊆ admittedIn history start window ∨
      ∃ job, call.op = .acquire job ∧ call.reply = some .admitted ∧
        start ≤ call.now ∧ call.now < start + window ∧
        admittedIn (⟨s, call, s'⟩ :: history) start window ⊆
          insert job (admittedIn history start window) := by
  cases op : call.op with
  | release job =>
    left
    intro j member
    obtain ⟨t, standing, within⟩ := mem_admittedIn.mp member
    exact mem_admittedIn.mpr ⟨t, ((mem_standing_release op).mp standing).1, within⟩
  | acquire job =>
    by_cases admits : call.reply = some .admitted ∧ start ≤ call.now ∧ call.now < start + window
    · refine .inr ⟨job, rfl, admits.1, admits.2.1, admits.2.2, ?_⟩
      intro j member
      obtain ⟨t, standing, within⟩ := mem_admittedIn.mp member
      rw [Finset.mem_insert]
      cases (mem_standing_acquire op).mp standing with
      | inl new => exact .inl new.2.1
      | inr old => exact .inr (mem_admittedIn.mpr ⟨t, old, within⟩)
    · left
      intro j member
      obtain ⟨t, standing, within⟩ := mem_admittedIn.mp member
      cases (mem_standing_acquire op).mp standing with
      | inl new =>
        obtain ⟨admitted, _, rfl⟩ := new
        exact absurd ⟨admitted, within⟩ admits
      | inr old => exact mem_admittedIn.mpr ⟨t, old, within⟩

/-- The jobs that a window holds up to a time in it are among those the script counts then. -/
theorem admittedIn_subset_held (held : StandingHeld window history s)
    (sound : s.key.Sound window s.clock) {start now : Int} (later : s.clock ≤ now)
    (recent : now < start + window) :
    admittedIn history start window ⊆ (s.key.held now window).ids := by
  intro j member
  obtain ⟨t, stands, after, _⟩ := mem_admittedIn.mp member
  have stored := held j t stands (by omega)
  have shown := score_at_of_live (sound.mono later) stored (by omega)
  exact SortedSet.mem_ids.mpr ⟨t, SortedSet.score_removeUpTo.mpr ⟨shown, by omega⟩⟩

/-- A step keeps every window within the limit when it admits on no older slot. -/
theorem bound_step (stand : SlotsStand history s) (held : StandingHeld window history s)
    (sound : s.key.Sound window s.clock) (step : (rateSystem limit window).step s call s')
    (takesFresh : TakesFresh window ⟨s, call, s'⟩)
    (bound : ∀ start, (admittedIn history start window).card ≤ limit) (start : Int) :
    (admittedIn (⟨s, call, s'⟩ :: history) start window).card ≤ limit := by
  rcases admittedIn_cons_subset start with same | ⟨job, op, admitted, after, before, subset⟩
  · exact (Finset.card_le_card same).trans (bound start)
  · obtain ⟨reply, replied, returned⟩ := acquire_step step op
    obtain rfl : reply = .admitted := Option.some.inj (replied.symm.trans admitted)
    rcases acquireScript_cases returned with
      ⟨taken, slot, _, _⟩ | ⟨_, room, _, _⟩ | ⟨_, _, denied, _⟩
    · -- on a slot that it took at this very time: the window held the job already
      simp only [TakesFresh, op] at takesFresh
      obtain rfl : taken = call.now := takesFresh taken slot
      have stands := stand.slots job call.now (score_held slot).1
      have old : job ∈ admittedIn history start window :=
        mem_admittedIn.mpr ⟨call.now, stands, after, before⟩
      rw [Finset.insert_eq_of_mem old] at subset
      exact (Finset.card_le_card subset).trans (bound start)
    · -- on a fresh slot: the slots that the script counts, and one more
      have counted := admittedIn_subset_held held sound step.1 before
      have card := Finset.card_le_card (subset.trans (Finset.insert_subset_insert job counted))
      have one := Finset.card_insert_le job (s.key.held call.now window).ids
      rw [SortedSet.card_ids] at one
      omega
    · exact absurd rfl denied

/-- While every admission takes a fresh slot, no window ever holds more jobs than the limit. -/
theorem bound_of_fresh (run : Run (rateSystem limit window) history s)
    (fresh : ∀ taken ∈ history, TakesFresh window taken) :
    StandingHeld window history s ∧
      ∀ earlier, earlier <:+ history → ∀ start, (admittedIn earlier start window).card ≤ limit := by
  induction run with
  | start initial =>
    refine ⟨fun j t member => absurd member List.not_mem_nil, ?_⟩
    intro earlier suffix start
    rw [List.suffix_nil.mp suffix]
    exact Nat.zero_le _
  | @next history s s' call run step inductionHypothesis =>
    rw [List.forall_mem_cons] at fresh
    obtain ⟨held, before⟩ := inductionHypothesis fresh.2
    have sound := outlives_of_run run
    refine ⟨held.step sound step fresh.1, ?_⟩
    intro earlier suffix start
    cases List.suffix_cons_iff.mp suffix with
    | inl whole =>
      subst whole
      exact bound_step (slotsStand run) held sound step fresh.1
        (before history (List.suffix_refl _)) start
    | inr suffix => exact before earlier suffix start

end

/-! ## Calls that fill the limit -/

section

variable {limit : Nat} {window now : Int}

/-- A job that takes a fresh slot is held besides those held before. -/
theorem held_of_fresh {key key' : RateKey} {job : JobId} {reply : AcquireReply}
    (fresh : (key.held now window).score job = none)
    (room : (key.held now window).card < limit)
    (returned : acquireScript window limit now job key = (reply, key')) :
    reply = .admitted ∧ (key'.held now window).card ≤ (key.held now window).card + 1 ∧
      ∀ j t, (key'.held now window).score j = some t →
        (key.held now window).score j = some t ∨ j = job ∧ t = now := by
  simp only [acquireScript, fresh, if_pos room] at returned
  obtain ⟨rfl, rfl⟩ := Prod.mk.inj returned
  have slots : ∀ j t, (RateKey.held ⟨(key.held now window).add job now, some (now + window)⟩
      now window).score j = some t → ((key.held now window).add job now).score j = some t :=
    fun j t held => (score_held held).1
  refine ⟨rfl, ?_, ?_⟩
  · rw [← SortedSet.card_add fresh]
    exact SortedSet.card_le slots
  · intro j t held
    cases SortedSet.score_add.mp (slots j t held) with
    | inl old => exact .inl old.1
    | inr new => exact .inr new

/-- As many other jobs as there is room for are all admitted, each on a fresh slot. -/
theorem fill (jobs : List JobId) :
    ∀ s : RateState, s.clock ≤ now → jobs.Nodup →
      (∀ j ∈ jobs, (s.key.held now window).score j = none) →
      (∀ k < jobs.length, (s.key.held now window).card + k < limit) →
      ∃ later s', Run ((rateSystem limit window).startingAt s) later s' ∧
        (∀ taken ∈ later, TakesFresh window taken) ∧
        ∀ history j t, (j, t) ∈ standing (later ++ history) ↔
          (j ∈ jobs ∧ t = now) ∨ (j, t) ∈ standing history := by
  induction jobs with
  | nil => exact fun s _ _ _ _ => ⟨[], s, .start rfl, by simp, by simp⟩
  | cons job jobs inductionHypothesis =>
    intro s later distinct fresh room
    rw [List.nodup_cons] at distinct
    rw [List.forall_mem_cons] at fresh
    cases returned : acquireScript window limit now job s.key with
    | mk reply key =>
    obtain ⟨rfl, card, slots⟩ :=
      held_of_fresh fresh.1 (room 0 (by simp)) returned
    have step : (rateSystem limit window).step s ⟨.acquire job, now, some .admitted⟩ ⟨key, now⟩ :=
      ⟨later, by simp only [RateOp.run, returned], rfl⟩
    obtain ⟨calls, s', run, takesFresh, stands⟩ :=
      inductionHypothesis ⟨key, now⟩ (le_refl now) distinct.2
        (by
          intro j member
          by_contra held
          obtain ⟨t, held⟩ := Option.ne_none_iff_exists'.mp held
          cases slots j t held with
          | inl old => rw [fresh.2 j member] at old; cases old
          | inr new => exact distinct.1 (new.1 ▸ member))
        (by
          intro k few
          have more := room (k + 1) (by simp; omega)
          show (key.held now window).card + k < limit
          omega)
    refine ⟨calls ++ [⟨s, ⟨.acquire job, now, some .admitted⟩, ⟨key, now⟩⟩], s', ?_, ?_, ?_⟩
    · exact Run.append (.next (.start rfl) step) run
    · intro taken member
      cases List.mem_append.mp member with
      | inl member => exact takesFresh taken member
      | inr only =>
        rw [List.mem_singleton] at only
        subst only
        intro t held
        rw [fresh.1] at held
        cases held
    · intro history j t
      rw [List.append_assoc, stands, List.singleton_append, mem_standing_acquire rfl]
      simp only [List.mem_cons]
      tauto

end

/-! ## Exactness -/

section

variable {limit : Nat} {window : Int} {history : RateHistory} {s s' : RateState} {call : RateCall}

/-- A call that does not take a fresh slot admits its job on the slot that it holds and leaves
    every score. -/
theorem readmission_of_older (step : (rateSystem limit window).step s call s')
    (older : ¬ TakesFresh window ⟨s, call, s'⟩) :
    ∃ job taken, call.op = .acquire job ∧ call.reply = some .admitted ∧
      (s.key.held call.now window).score job = some taken ∧ taken ≠ call.now ∧
      ∀ j t, s'.key.slots.score j = some t ↔
        (s.key.held call.now window).score j = some t := by
  unfold TakesFresh at older
  cases op : call.op with
  | release job => simp [op] at older
  | acquire job =>
    simp only [op, not_forall] at older
    obtain ⟨taken, slot, earlier⟩ := older
    obtain ⟨reply, replied, returned⟩ := acquire_step step op
    rcases acquireScript_cases returned with ⟨_, _, admitted, kept⟩ | ⟨fresh, _⟩ | ⟨fresh, _⟩
    · exact ⟨job, taken, rfl, admitted ▸ replied, slot, earlier, kept⟩
    · rw [slot] at fresh; cases fresh
    · rw [slot] at fresh; cases fresh

/-- Jobs for a number of places, besides those that are there. -/
theorem exists_more_jobs (there : Finset JobId) (places : Nat) :
    ∃ all, there ⊆ all ∧ all.card = there.card + places ∧
      (all \ there).toList.length = places := by
  obtain ⟨all, includes, size⟩ := Infinite.exists_superset_card_eq there (there.card + places)
    (Nat.le_add_right _ _)
  refine ⟨all, includes, size, ?_⟩
  rw [Finset.length_toList, Finset.card_sdiff_of_subset includes, size]
  omega

/-- When the slot lapses on which a job was admitted again, other jobs can fill the limit, and
    the job counts in one window with all of them. -/
theorem breaks_of_readmitted (positive : 1 ≤ window)
    (run : Run (rateSystem limit window) history s)
    (step : (rateSystem limit window).step s call s')
    (older : ¬ TakesFresh window ⟨s, call, s'⟩) :
    ∃ later s'', Run ((rateSystem limit window).startingAt s') later s'' ∧
      (∀ taken ∈ later, TakesFresh window taken) ∧
      ∃ start, limit < (admittedIn (later ++ ⟨s, call, s'⟩ :: history) start window).card := by
  obtain ⟨job, taken, op, replied, slot, earlier, kept⟩ := readmission_of_older step older
  have clock : s'.clock = call.now := step.2.2
  have slots := score_held slot
  have stands := (slotsStand run).slots job taken slots.1
  have past : taken ≤ s.clock := (slotsStand run).past job taken stands
  have ordered := step.1
  -- the slots that outlast it, and fresh jobs for the room that they leave
  generalize lapses : taken + window = now
  generalize rest : s'.key.held now window = held
  have outlast : ∀ j t, held.score j = some t → s'.key.slots.score j = some t ∧ taken < t := by
    intro j t shown
    rw [← rest] at shown
    have stored := score_held shown
    exact ⟨stored.1, by omega⟩
  have lapsed : job ∉ held.ids := by
    intro member
    obtain ⟨t, shown⟩ := SortedSet.mem_ids.mp member
    have stored := outlast job t shown
    rw [(kept job taken).mpr slot] at stored
    have same := Option.some.inj stored.1
    omega
  have one : (insert job held.ids).card = held.card + 1 := by
    rw [Finset.card_insert_of_notMem lapsed, SortedSet.card_ids]
  obtain ⟨all, includes, size, jobs⟩ := exists_more_jobs (insert job held.ids) (limit - held.card)
  have recent : call.now < taken + window := by omega
  obtain ⟨later, s'', goesOn, takesFresh, filled⟩ :=
    @fill limit window now (all \ insert job held.ids).toList s'
      (by omega) (Finset.nodup_toList _)
      (by
        intro j member
        rw [Finset.mem_toList, Finset.mem_sdiff] at member
        by_contra shown
        obtain ⟨t, shown⟩ := Option.ne_none_iff_exists'.mp shown
        rw [rest] at shown
        exact member.2 (Finset.mem_insert_of_mem (SortedSet.mem_ids.mpr ⟨t, shown⟩)))
      (by
        intro k few
        rw [rest]
        omega)
  refine ⟨later, s'', goesOn, takesFresh, taken + 1, ?_⟩
  -- the window from the next instant on holds all of them
  have admitted : all ⊆ admittedIn (later ++ ⟨s, call, s'⟩ :: history) (taken + 1) window := by
    intro j member
    rw [mem_admittedIn]
    by_cases old : j ∈ insert job held.ids
    · cases Finset.mem_insert.mp old with
      | inl same =>
        subst same
        have stands : (j, call.now) ∈ standing (⟨s, call, s'⟩ :: history) :=
          (mem_standing_acquire op).mpr (.inl ⟨replied, rfl, rfl⟩)
        exact ⟨call.now, (filled _ j call.now).mpr (.inr stands), by omega, by omega⟩
      | inr shown =>
        obtain ⟨t, shown⟩ := SortedSet.mem_ids.mp shown
        have stored := outlast j t shown
        have stands := (slotsStand (.next run step)).slots j t stored.1
        have past : t ≤ s'.clock := (slotsStand (.next run step)).past j t stands
        exact ⟨t, (filled _ j t).mpr (.inr stands), by omega, by omega⟩
    · have new : j ∈ (all \ insert job held.ids).toList := by simp [member, old]
      exact ⟨now, (filled _ j now).mpr (.inl ⟨new, rfl⟩), by omega, by omega⟩
  have count := Finset.card_le_card admitted
  omega

end

/-- As long as no job is admitted again on an older slot, no window holds more jobs than the
    limit; and from any call on that does so, further calls on fresh slots put more than the
    limit into a window. -/
theorem window_bound_fresh {limit : Nat} {window : Int} (positive : 1 ≤ window)
    {history : RateHistory} {s : RateState} (run : Run (rateSystem limit window) history s) :
    ((∀ taken ∈ history, TakesFresh window taken) →
      ∀ earlier, earlier <:+ history → ∀ start, (admittedIn earlier start window).card ≤ limit) ∧
    ∀ taken earlier, history = taken :: earlier → ¬ TakesFresh window taken →
      ∃ later s', Run ((rateSystem limit window).startingAt s) later s' ∧
        (∀ taken ∈ later, TakesFresh window taken) ∧
        ∃ start, limit < (admittedIn (later ++ history) start window).card := by
  refine ⟨fun fresh => (bound_of_fresh run fresh).2, ?_⟩
  intro taken earlier newest older
  subst newest
  cases run with
  | next run step => exact breaks_of_readmitted positive run step older

/-! ## A window that holds two -/

def rateStep (limit : Nat) (window : Int) (s : RateState) (call : RateOp × Int) :
    Taken RateState RateCall :=
  let (reply, key) := call.1.run window limit call.2 s.key
  ⟨s, ⟨call.1, call.2, reply⟩, ⟨key, call.2⟩⟩

/-- Make the calls one after another. -/
def rateCalls (limit : Nat) (window : Int) :
    RateHistory × RateState → List (RateOp × Int) → RateHistory × RateState
  | reached, [] => reached
  | (history, s), call :: calls =>
    let taken := rateStep limit window s call
    rateCalls limit window (taken :: history, taken.after) calls

theorem run_rateCalls {limit : Nat} {window : Int} {history : RateHistory} {s : RateState}
    (run : Run (rateSystem limit window) history s) (calls : List (RateOp × Int))
    (ordered : (s.clock :: calls.map Prod.snd).Pairwise (· ≤ ·)) :
    Run (rateSystem limit window) (rateCalls limit window (history, s) calls).1
      (rateCalls limit window (history, s) calls).2 := by
  induction calls generalizing history s with
  | nil => exact run
  | cons call calls inductionHypothesis =>
    rw [List.map_cons, List.pairwise_cons] at ordered
    have step : (rateSystem limit window).step s (rateStep limit window s call).label
        (rateStep limit window s call).after :=
      ⟨ordered.1 call.2 (by simp), rfl, rfl⟩
    exact inductionHypothesis (.next run step) ordered.2

theorem run_rateCalls_empty {limit : Nat} {window : Int} (calls : List (RateOp × Int))
    (ordered : (0 :: calls.map Prod.snd).Pairwise (· ≤ ·)) :
    Run (rateSystem limit window) (rateCalls limit window ([], ⟨.empty, 0⟩) calls).1
      (rateCalls limit window ([], ⟨.empty, 0⟩) calls).2 := by
  have start : Run (rateSystem limit window) [] ⟨.empty, 0⟩ := .start rfl
  exact run_rateCalls start calls ordered

/-- With one slot a second: job 1 is admitted at 0 and again at 999. -/
def readmittedOnce : RateHistory × RateState :=
  rateCalls 1 1000 ([], ⟨.empty, 0⟩) [(.acquire 1, 0), (.acquire 1, 999)]

/-- The slot of job 1 lapses at 1000, when job 2 takes it. -/
def readmitted : RateHistory × RateState :=
  rateCalls 1 1000 ([], ⟨.empty, 0⟩) [(.acquire 1, 0), (.acquire 1, 999), (.acquire 2, 1000)]

/-- The window of a second that starts at 999 holds both jobs. -/
theorem window_bound_readmitted :
    Run (rateSystem 1 1000) readmitted.1 readmitted.2 ∧ (admittedIn readmitted.1 999 1000).card = 2 :=
  ⟨run_rateCalls_empty _ (by decide), by decide +kernel⟩

/-- Two jobs take turns on one slot, which is given back once and lapses once. -/
def takeTurns : RateHistory × RateState :=
  rateCalls 1 1000 ([], ⟨.empty, 0⟩) [(.acquire 1, 0), (.acquire 1, 0), (.release 1, 5),
    (.acquire 2, 5), (.acquire 1, 1004), (.acquire 1, 1005)]

theorem window_bound_fresh_takeTurns :
    (∀ start, (admittedIn takeTurns.1 start 1000).card ≤ 1) ∧
      ∃ later s', Run ((rateSystem 1 1000).startingAt readmittedOnce.2) later s' ∧
        ∃ start, 1 < (admittedIn (later ++ readmittedOnce.1) start 1000).card := by
  have turns : Run (rateSystem 1 1000) takeTurns.1 takeTurns.2 := run_rateCalls_empty _ (by decide)
  have again : Run (rateSystem 1 1000) readmittedOnce.1 readmittedOnce.2 :=
    run_rateCalls_empty _ (by decide)
  constructor
  · exact (window_bound_fresh (by decide) turns).1 (by decide +kernel) _ (List.suffix_refl _)
  · obtain ⟨later, s', goesOn, _, breaks⟩ :=
      (window_bound_fresh (by decide) again).2 _ _ rfl (by decide +kernel)
    exact ⟨later, s', goesOn, breaks⟩

end NotifyQueue
