import NotifyQueue.Verified.SharedSlots

/-! # The slots of a recipient, and how long to wait for one

A key never holds more slots than the limit, the expiry of the key removes no slot before its
window is over, and the wait that a refused job is told is the first moment at which the same
call is admitted.  So the slots taken in a period of one window, without those released in it,
are all in the set when the period ends (`TakenHeld`). -/

namespace NotifyQueue

open Runs SortedSets

/-- The slots newly taken in `[start, start + window)` and not released in it. -/
def takenIn (start window : Int) : RateHistory → List (JobId × Int)
  | [] => []
  | taken :: earlier =>
    let now := taken.label.now
    match taken.label.op, taken.label.reply with
    | .acquire job, some .admitted =>
      if (taken.before.key.held now window).score job = none ∧ start ≤ now ∧ now < start + window then
        (job, now) :: takenIn start window earlier
      else takenIn start window earlier
    | .acquire _, _ => takenIn start window earlier
    | .release job, _ =>
      if now < start + window then (takenIn start window earlier).filter fun slot => slot.1 ≠ job
      else takenIn start window earlier

/-- What the set holds right after an `acquire` at `now`. -/
structure SlotSet (limit : Nat) (window now : Int) (slots : SortedSet JobId) : Prop where
  atMost : slots.card ≤ limit
  oncePerJob : (slots.members.map Prod.fst).Nodup
  recent : ∀ j t, slots.score j = some t → now - window < t ∧ t ≤ now

/-- A refused job is told exactly how long it has to wait, if nothing else happens. -/
structure ExactWait (limit : Nat) (window now : Int) (job : JobId) (key : RateKey) (ms : Int) :
    Prop where
  positive : 1 ≤ ms
  atMost : ms ≤ window
  admitted : (acquireScript window limit (now + ms) job key).1 = .admitted
  refused : ∀ again, now ≤ again → again < now + ms →
    ∃ left, (acquireScript window limit again job key).1 = .wait left

/-! ## One call -/

section

variable {key key' : RateKey} {now window : Int} {limit : Nat} {job : JobId} {reply : AcquireReply}

theorem card_keep {slots : SortedSet JobId} {expiresAt : Option Int} :
    (RateKey.keep slots expiresAt).slots.card = slots.card := by
  apply le_antisymm
  · exact SortedSet.card_le fun _ _ held => score_keep.mp held
  · exact SortedSet.card_le fun _ _ held => score_keep.mpr held

theorem card_held_le : (key.held now window).card ≤ key.slots.card :=
  SortedSet.card_le fun _ _ held => (score_held held).1

/-- No call takes a key over the limit. -/
theorem card_acquire (within : key.slots.card ≤ limit)
    (returned : acquireScript window limit now job key = (reply, key')) : key'.slots.card ≤ limit := by
  have held : (key.held now window).card ≤ limit := card_held_le.trans within
  simp only [acquireScript] at returned
  split at returned
  · cases returned
    rw [card_keep]
    exact held
  · next fresh =>
    split at returned
    · next room =>
      cases returned
      rw [SortedSet.card_add fresh]
      exact room
    · split at returned <;> cases returned <;> rw [card_keep] <;> exact held

theorem card_release (within : key.slots.card ≤ limit) :
    (releaseScript now job key).slots.card ≤ limit := by
  refine (SortedSet.card_le ?_).trans within
  intro j t held
  exact (score_releaseScript held).1

/-- The slots that are left after an `acquire` are recent. -/
theorem recent_acquire (sound : key.Sound window now) (positive : 1 ≤ window)
    (returned : acquireScript window limit now job key = (reply, key')) {j : JobId} {t : Int}
    (held : key'.slots.score j = some t) : now - window < t ∧ t ≤ now := by
  have old : (key.held now window).score j = some t → now - window < t ∧ t ≤ now := fun kept =>
    ⟨(score_held kept).2, (sound j t (score_held kept).1).1⟩
  rcases acquireScript_cases returned with ⟨_, _, _, slots⟩ | ⟨_, _, _, slots⟩ | ⟨_, _, _, slots⟩
  · exact old ((slots j t).mp held)
  · cases (slots j t).mp held with
    | inl kept => exact old kept
    | inr fresh => omega
  · exact old ((slots j t).mp held)

/-- A refusal names the oldest slot. -/
theorem acquireScript_refused (positive : 1 ≤ limit)
    (returned : acquireScript window limit now job key = (reply, key')) (refused : reply ≠ .admitted) :
    ∃ oldest, reply = .wait (oldest + window - now) ∧
      (∃ a, (key.held now window).score a = some oldest) ∧
      (∀ a t, (key.held now window).score a = some t → oldest ≤ t) ∧
      (key.held now window).score job = none ∧ limit ≤ (key.held now window).card ∧
      ∀ a t, key'.slots.score a = some t ↔ (key.held now window).score a = some t := by
  rcases acquireScript_cases returned with
    ⟨_, _, admitted, _⟩ | ⟨_, _, admitted, _⟩ | ⟨fresh, full, _, slots⟩
  · exact absurd admitted refused
  · exact absurd admitted refused
  · obtain ⟨oldest, found, holder, least⟩ :=
      SortedSet.exists_lowest (s := key.held now window) (by omega)
    refine ⟨oldest, ?_, holder, least, fresh, full, slots⟩
    have ran : (acquireScript window limit now job key).1 = .wait (oldest + window - now) := by
      simp [acquireScript, fresh, not_lt.mpr full, found]
    rw [← ran, returned]

/-- A full set without the job refuses it. -/
theorem acquireScript_full (positive : 1 ≤ limit) (fresh : (key.held now window).score job = none)
    (full : limit ≤ (key.held now window).card) :
    ∃ left, (acquireScript window limit now job key).1 = .wait left := by
  obtain ⟨oldest, found, _⟩ := SortedSet.exists_lowest (s := key.held now window) (by omega)
  exact ⟨oldest + window - now, by simp [acquireScript, fresh, not_lt.mpr full, found]⟩

/-- A set with room admits every job. -/
theorem acquireScript_room (room : (key.held now window).card < limit) :
    (acquireScript window limit now job key).1 = .admitted := by
  cases held : (key.held now window).score job with
  | some _ => simp [acquireScript, held]
  | none => simp [acquireScript, held, room]

/-- The reported wait is exact: it ends when the oldest slot lapses. -/
theorem exactWait_of_refused (positive : 1 ≤ limit) (sound : key.Sound window now)
    (within : key.slots.card ≤ limit)
    (returned : acquireScript window limit now job key = (reply, key')) (refused : reply ≠ .admitted) :
    ∃ ms, reply = .wait ms ∧ ExactWait limit window now job key' ms := by
  obtain ⟨oldest, waits, ⟨a, holder⟩, least, fresh, full, slots⟩ :=
    acquireScript_refused positive returned refused
  have sound' : key'.Sound window now := sound.acquire returned
  have lasts := (score_held holder).2
  have past := (sound a oldest (score_held holder).1).1
  refine ⟨oldest + window - now, waits, by omega, by omega, ?_, ?_⟩
  · -- the oldest slot lapses, so one slot less is held
    have moment : now + (oldest + window - now) = oldest + window := by omega
    rw [moment]
    apply acquireScript_room
    have kept : ∀ b t, (key'.held (oldest + window) window).score b = some t →
        (key.held now window).score b = some t := fun b t held => (slots b t).mp (score_held held).1
    have gone : (key'.held (oldest + window) window).score a = none := by
      by_contra still
      obtain ⟨t, still⟩ := Option.ne_none_iff_exists'.mp still
      have same := (kept a t still).symm.trans holder
      simp only [Option.some.injEq] at same
      have lasts' := (score_held still).2
      omega
    have fewer := SortedSet.card_lt kept holder gone
    have atMost : (key.held now window).card ≤ limit := card_held_le.trans within
    omega
  · -- until then nothing lapses, and the key has not expired
    intro again later before
    have shows : ∀ b t, (key'.held again window).score b = some t ↔
        (key.held now window).score b = some t := by
      intro b t
      constructor
      · intro held
        exact (slots b t).mp (score_held held).1
      · intro held
        have young := least b t held
        have shown := score_at_of_live (sound'.mono later) ((slots b t).mpr held) (by omega)
        exact SortedSet.score_removeUpTo.mpr ⟨shown, by omega⟩
    apply acquireScript_full positive
    · by_contra held
      obtain ⟨t, held⟩ := Option.ne_none_iff_exists'.mp held
      rw [(shows job t).mp held] at fresh
      cases fresh
    · exact full.trans (SortedSet.card_le fun b t held => (shows b t).mpr held)

end

/-! ## Every run -/

section

variable {limit : Nat} {window : Int} {history : RateHistory} {s s' : RateState} {call : RateCall}

/-- What a key is in every reachable state. -/
structure KeySound (limit : Nat) (window : Int) (s : RateState) : Prop where
  within : s.key.slots.card ≤ limit
  sound : s.key.Sound window s.clock

theorem KeySound.step (keySound : KeySound limit window s)
    (step : (rateSystem limit window).step s call s') : KeySound limit window s' := by
  refine ⟨?_, outlives_step keySound.sound step⟩
  cases op : call.op with
  | acquire job =>
    obtain ⟨reply, _, returned⟩ := acquire_step step op
    exact card_acquire keySound.within returned
  | release job =>
    rw [release_step step op]
    exact card_release keySound.within

theorem keySound_of_run (run : Run (rateSystem limit window) history s) : KeySound limit window s := by
  refine Run.state_invariant ?_ (fun s call s' keySound => keySound.step) run
  intro s initial
  have empty : s.key = .empty := initial
  constructor
  · rw [empty]
    exact Nat.zero_le _
  · intro j t held
    rw [empty] at held
    cases held

/-! ## The slots of a period -/

/-- As long as the period lasts, the slots taken in it are in the set. -/
structure TakenHeld (limit : Nat) (start window : Int) (history : RateHistory) (s : RateState) :
    Prop where
  nodup : ((takenIn start window history).map Prod.fst).Nodup
  atMost : (takenIn start window history).length ≤ limit
  held : s.clock < start + window → ∀ j t, (j, t) ∈ takenIn start window history →
    start ≤ t ∧ s.key.slots.score j = some t

theorem length_le_card {slots : SortedSet JobId} {taken : List (JobId × Int)}
    (nodup : (taken.map Prod.fst).Nodup) (held : ∀ j t, (j, t) ∈ taken → slots.score j = some t) :
    taken.length ≤ slots.card := by
  have subset : (taken.map Prod.fst).toFinset ⊆ slots.ids := by
    intro j member
    obtain ⟨⟨j, t⟩, inTaken, rfl⟩ := List.mem_map.mp (List.mem_toFinset.mp member)
    exact SortedSet.mem_ids.mpr ⟨t, held j t inTaken⟩
  have card := Finset.card_le_card subset
  rwa [List.toFinset_card_of_nodup nodup, List.length_map, SortedSet.card_ids] at card

/-- A call after the period changes nothing about it. -/
theorem TakenHeld.after {start : Int} (earlier : TakenHeld limit start window history s)
    (ended : ¬ call.now < start + window) (clock : s'.clock = call.now) :
    TakenHeld limit start window (⟨s, call, s'⟩ :: history) s' := by
  have same : takenIn start window (⟨s, call, s'⟩ :: history) = takenIn start window history := by
    simp only [takenIn, ended, and_false, if_false]
    split <;> rfl
  constructor
  · rw [same]
    exact earlier.nodup
  · rw [same]
    exact earlier.atMost
  · intro lasts
    rw [clock] at lasts
    exact absurd lasts ended

/-- Slots that are all held stay within the limit. -/
theorem TakenHeld.of_held {start : Int} (taken : List (JobId × Int))
    (keySound : KeySound limit window s')
    (same : takenIn start window (⟨s, call, s'⟩ :: history) = taken) (nodup : (taken.map Prod.fst).Nodup)
    (held : ∀ j t, (j, t) ∈ taken → start ≤ t ∧ s'.key.slots.score j = some t) :
    TakenHeld limit start window (⟨s, call, s'⟩ :: history) s' := by
  subst same
  have card := length_le_card nodup fun j t member => (held j t member).2
  exact ⟨nodup, card.trans keySound.within, fun _ => held⟩

/-- The step lemma: within the period a fresh slot is added, a release removes one, and no
    other call touches a slot of the period. -/
theorem TakenHeld.step {start : Int} (keySound : KeySound limit window s)
    (earlier : TakenHeld limit start window history s)
    (step : (rateSystem limit window).step s call s') :
    TakenHeld limit start window (⟨s, call, s'⟩ :: history) s' := by
  -- once the period is over its slots may lapse; until then none of them can
  by_cases lasts : call.now < start + window
  · have keySound' := keySound.step step
    have sound := keySound.sound.mono step.1
    have slots := earlier.held (by have later := step.1; omega)
    have shown : ∀ j t, (j, t) ∈ takenIn start window history →
        (s.key.at call.now).slots.score j = some t := fun j t member =>
      score_at_of_live sound (slots j t member).2 (by have after := (slots j t member).1; omega)
    cases op : call.op with
    | release job =>
      refine .of_held ((takenIn start window history).filter fun slot => slot.1 ≠ job) keySound'
        (by simp [takenIn, op, lasts]) ?_ ?_
      · exact earlier.nodup.sublist (List.filter_sublist.map Prod.fst)
      · intro j t member
        simp only [List.mem_filter, decide_eq_true_eq] at member
        refine ⟨(slots j t member.1).1, ?_⟩
        rw [release_step step op]
        exact score_releaseScript_of_ne member.2 (shown j t member.1)
    | acquire job =>
      obtain ⟨reply, replied, returned⟩ := acquire_step step op
      have stays : ∀ j t, (j, t) ∈ takenIn start window history →
          start ≤ t ∧ s'.key.slots.score j = some t := by
        intro j t member
        have after := (slots j t member).1
        exact ⟨after, score_acquire_of_live returned (shown j t member) (by omega)⟩
      -- a job that holds a slot keeps it, with the time at which it took it
      by_cases fresh : reply = .admitted ∧ (s.key.held call.now window).score job = none ∧
          start ≤ call.now
      · obtain ⟨rfl, free, began⟩ := fresh
        have new : (job, call.now) ∉ takenIn start window history ∧
            job ∉ (takenIn start window history).map Prod.fst := by
          have absent : job ∉ (takenIn start window history).map Prod.fst := by
            intro member
            obtain ⟨⟨j, t⟩, inTaken, rfl⟩ := List.mem_map.mp member
            have after := (slots j t inTaken).1
            have held : (s.key.held call.now window).score j = some t :=
              SortedSet.score_removeUpTo.mpr ⟨shown j t inTaken, by omega⟩
            rw [free] at held
            cases held
          exact ⟨fun member => absent (List.mem_map.mpr ⟨_, member, rfl⟩), absent⟩
        have score : s'.key.slots.score job = some call.now := by
          rcases acquireScript_cases returned with ⟨_, held, _, _⟩ | ⟨_, _, _, slots⟩ | ⟨_, _, turned, _⟩
          · rw [free] at held
            cases held
          · exact (slots job call.now).mpr (.inr ⟨rfl, rfl⟩)
          · exact absurd rfl turned
        refine .of_held ((job, call.now) :: takenIn start window history) keySound' ?_ ?_ ?_
        · simp [takenIn, op, replied, free, began, lasts]
        · exact List.nodup_cons.mpr ⟨new.2, earlier.nodup⟩
        · intro j t member
          cases member with
          | head => exact ⟨began, score⟩
          | tail _ member => exact stays j t member
      · refine .of_held (takenIn start window history) keySound' ?_ earlier.nodup stays
        simp only [takenIn, op, replied]
        cases reply with
        | admitted =>
          simp only [true_and] at fresh
          exact if_neg fun taken => fresh ⟨taken.1, taken.2.1⟩
        | _ => rfl
  · exact earlier.after lasts step.2.2

theorem takenHeld_of_run (run : Run (rateSystem limit window) history s) (start : Int) :
    TakenHeld limit start window history s := by
  induction run with
  | start initial => exact ⟨List.nodup_nil, Nat.zero_le _, fun _ j t member => by cases member⟩
  | next earlier step inductionHypothesis =>
    exact inductionHypothesis.step (keySound_of_run earlier) step

end

/-- Every `acquire` leaves at most `limit` recent slots, one for each job, and tells a refused
    job exactly how long to wait; the expiry of the key takes no slot whose window lasts; and no
    period of a window holds more than `limit` slots newly taken and not released in it. -/
theorem slot_set_exact {limit : Nat} {window : Int} (someSlot : 1 ≤ limit) (positive : 1 ≤ window)
    {history : RateHistory} {s : RateState} (run : Run (rateSystem limit window) history s) :
    Along (fun _ taken => ∀ job, taken.label.op = .acquire job →
      SlotSet limit window taken.label.now taken.after.key.slots ∧
      ∃ reply, taken.label.reply = some reply ∧ (reply ≠ .admitted → ∃ ms, reply = .wait ms ∧
        ExactWait limit window taken.label.now job taken.after.key ms)) history ∧
    (∀ j t, s.key.slots.score j = some t → ∀ now, now < t + window →
      (s.key.at now).slots.score j = some t) ∧
    ∀ start, (takenIn start window history).length ≤ limit := by
  refine ⟨?_, ?_, fun start => (takenHeld_of_run run start).atMost⟩
  · induction run with
    | start _ => trivial
    | @next history s s' call earlier step inductionHypothesis =>
      refine ⟨?_, inductionHypothesis⟩
      intro job acquires
      have keySound := keySound_of_run earlier
      have sound := keySound.sound.mono step.1
      obtain ⟨reply, replied, returned⟩ := acquire_step step acquires
      refine ⟨⟨card_acquire keySound.within returned, s'.key.slots.nodup, ?_⟩, reply, replied, ?_⟩
      · intro j t held
        exact recent_acquire sound positive returned held
      · exact exactWait_of_refused someSlot sound keySound.within returned
  · intro j t held now lasts
    obtain ⟨_, e, expires, outlives⟩ := (keySound_of_run run).sound j t held
    have unexpired : ¬ e < now := by omega
    simp only [RateKey.at, expires, if_neg unexpired, held]

/-- The second job is refused at 999 and told to come back in a millisecond. -/
def refusedOnce : RateHistory × RateState :=
  rateCalls 1 1000 ([], ⟨.empty, 0⟩) [(.acquire 1, 0), (.acquire 2, 999)]

theorem run_refusedOnce : Run (rateSystem 1 1000) refusedOnce.1 refusedOnce.2 :=
  run_rateCalls_empty _ (by decide)

theorem slot_set_exact_refused :
    (∃ taken earlier, refusedOnce.1 = taken :: earlier ∧ taken.label.reply = some (.wait 1)) ∧
      ExactWait 1 1000 999 2 refusedOnce.2.key 1 := by
  refine ⟨⟨_, _, rfl, by decide +kernel⟩, ?_⟩
  obtain ⟨_, reply, replied, waits⟩ := (slot_set_exact (by decide) (by decide) run_refusedOnce).1.1 2 rfl
  have waited : refusedOnce.1.head?.bind (fun taken => taken.label.reply) = some (.wait 1) := by
    decide +kernel
  obtain rfl : reply = .wait 1 := Option.some.inj (replied.symm.trans waited)
  obtain ⟨ms, same, exact⟩ := waits (by decide)
  cases same
  exact exact

end NotifyQueue
