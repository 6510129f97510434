import NotifyQueue.Cache.JobTexts

/-! # The texts of the cache hold its entries

`JobEntry.text` writes an entry of `Cache/JobCache.lean` as the text that Redis holds, and
every operation on texts does to the text what the operation on entries does to the entry.
The separator in front of the JSON is the first one, since a number has none. -/

namespace NotifyQueue

/-- The text of an entry; a tombstone has an empty body. -/
def JobEntry.text (json : JobJson) (entry : JobEntry) : String :=
  JobTexts.entryText entry.version ((entry.body.map json.dump).getD "")

/-- Redis holds the texts of these entries, with their expiry. -/
def HoldsEntries (json : JobJson) (texts : JobTexts) (redis : Redis) : Prop :=
  ∀ jobId, (texts jobId).map (fun entry => (entry.raw, entry.storedAt + (entry.ttl : Time))) =
    (redis.jobs jobId).map fun entry => (entry.text json, entry.expiresAt)

/-! ## One text -/

theorem partition_entryText (version : Int) (body : String) :
    Texts.partition '|' (JobTexts.entryText version body) = (toString version, body) :=
  Texts.partition_join (Texts.notMem_toString (by decide) (by decide) version)

theorem separator_mem_entryText (version : Int) (body : String) :
    '|' ∈ (JobTexts.entryText version body).toList := by
  simp [JobTexts.entryText]

theorem cachedVersion_entryText (version : Int) (body : String) :
    JobTexts.cachedVersion (JobTexts.entryText version body) = some version := by
  rw [JobTexts.cachedVersion, if_pos (separator_mem_entryText version body), partition_entryText]
  exact Texts.integer?_toString version

theorem entryText_ne_empty (version : Int) (body : String) :
    JobTexts.entryText version body ≠ "" := by
  intro empty
  have member := separator_mem_entryText version body
  rw [empty] at member
  simp at member

section

variable {json : JobJson} {now : Time} {texts : JobTexts} {jobId : JobId} {version : Int}

theorem get_of_unread (json : JobJson) (unread : texts.read now jobId = none) :
    JobTexts.get json now jobId .answered texts = .ok none := by
  simp [JobTexts.get, cacheCall, unread]

theorem get_of_failed (json : JobJson) (applied : Bool) :
    JobTexts.get json now jobId (.failed applied) texts = .ok none := by
  cases applied <;> rfl

theorem get_of_tombstone (json : JobJson)
    (stored : texts.read now jobId = some (JobTexts.entryText version "")) :
    JobTexts.get json now jobId .answered texts = .ok none := by
  simp only [JobTexts.get, cacheCall, stored, if_neg (entryText_ne_empty _ _), partition_entryText,
    if_true]

/-- A body is read back whatever characters its JSON has. -/
theorem get_of_body {job : JobOut}
    (stored : texts.read now jobId = some (JobTexts.entryText version (json.dump job))) :
    JobTexts.get json now jobId .answered texts = .ok (some job) := by
  simp only [JobTexts.get, cacheCall, stored, if_neg (entryText_ne_empty _ _), partition_entryText,
    if_neg (json.dump_ne_empty job), json.validate_dump]

end

/-! ## Every operation -/

section

variable {json : JobJson} {settings : Settings} {now : Time} {texts : JobTexts} {redis : Redis}
  {jobId : JobId} {reply : RedisReply}

theorem HoldsEntries.read (holds : HoldsEntries json texts redis) (now : Time) (jobId : JobId) :
    texts.read now jobId = (redis.getJobEntry now jobId).map (JobEntry.text json) := by
  have same := holds jobId
  unfold JobTexts.read Redis.getJobEntry
  cases stored : texts jobId with
  | none =>
    cases entry : redis.jobs jobId with
    | none => rfl
    | some _ => simp [stored, entry] at same
  | some text =>
    cases found : redis.jobs jobId with
    | none => simp [stored, found] at same
    | some entry =>
      simp only [stored, found, Option.map_some, Option.some.injEq, Prod.mk.injEq] at same
      by_cases live : unexpired now entry.expiresAt
      · simp [Option.filter, same.2, live, same.1]
      · simp [Option.filter, same.2, live]

/-- A text is read back as the entry that was written. -/
theorem HoldsEntries.get (holds : HoldsEntries json texts redis) :
    JobTexts.get json now jobId reply texts = .ok (JobCache.get now jobId reply redis) := by
  cases reply with
  | failed applied =>
    rw [get_of_failed]
    cases applied <;> rfl
  | answered =>
    have same := holds.read now jobId
    have shown : JobCache.get now jobId .answered redis =
        (redis.getJobEntry now jobId).bind JobEntry.body := rfl
    rw [shown]
    cases found : redis.getJobEntry now jobId with
    | none =>
      rw [found] at same
      exact get_of_unread json same
    | some entry =>
      rw [found, Option.map_some, JobEntry.text] at same
      rw [Option.bind_some]
      cases body : entry.body with
      | none =>
        rw [body] at same
        exact get_of_tombstone json same
      | some job =>
        rw [body] at same
        exact get_of_body same

theorem HoldsEntries.write (holds : HoldsEntries json texts redis) {text : Option TextEntry}
    {entry : Option JobEntry}
    (same : text.map (fun entry => (entry.raw, entry.storedAt + (entry.ttl : Time))) =
      entry.map fun entry => (entry.text json, entry.expiresAt)) :
    HoldsEntries json (texts.write jobId text) (redis.setJob jobId entry) := by
  intro other
  by_cases named : other = jobId
  · simpa [JobTexts.write, Redis.setJob, named] using same
  · simpa [JobTexts.write, Redis.setJob, named] using holds other

/-- The script decides on a text as it does on the entry. -/
theorem HoldsEntries.setIfNewer (holds : HoldsEntries json texts redis) (version : Int)
    (body : Option JobOut) (ttl : Nat) :
    (texts.setIfNewer now jobId version ((body.map json.dump).getD "") ttl).1 =
        (setIfNewer now jobId version body ttl redis).1 ∧
      HoldsEntries json (texts.setIfNewer now jobId version ((body.map json.dump).getD "") ttl).2
        (setIfNewer now jobId version body ttl redis).2 := by
  have newer : ((texts.read now jobId).bind JobTexts.cachedVersion).any
      (fun cachedVersion => version < cachedVersion) =
      (redis.getJobEntry now jobId).any fun current => version < current.version := by
    rw [holds.read]
    cases redis.getJobEntry now jobId with
    | none => rfl
    | some entry => simp [JobEntry.text, cachedVersion_entryText]
  unfold JobTexts.setIfNewer NotifyQueue.setIfNewer
  rw [newer]
  split
  · exact ⟨rfl, holds⟩
  · split
    · exact ⟨rfl, holds⟩
    · exact ⟨rfl, holds.write rfl⟩

theorem HoldsEntries.call (holds : HoldsEntries json texts redis) {write : JobTexts → Bool × JobTexts}
    {writeEntry : Redis → Bool × Redis}
    (agrees : (write texts).1 = (writeEntry redis).1 ∧
      HoldsEntries json (write texts).2 (writeEntry redis).2) :
    (cacheCall texts reply write false).1 = (redis.call reply writeEntry false).1 ∧
      HoldsEntries json (cacheCall texts reply write false).2
        (redis.call reply writeEntry false).2 := by
  cases reply with
  | answered => exact agrees
  | failed applied =>
    cases applied with
    | true => exact ⟨rfl, agrees.2⟩
    | false => exact ⟨rfl, holds⟩

theorem HoldsEntries.put (holds : HoldsEntries json texts redis) (job : JobOut) :
    (texts.put json settings now job reply).1 = (JobCache.put settings now job reply redis).1 ∧
      HoldsEntries json (texts.put json settings now job reply).2
        (JobCache.put settings now job reply redis).2 :=
  holds.call (holds.setIfNewer job.version (some job) _)

theorem HoldsEntries.invalidate (holds : HoldsEntries json texts redis) (newVersion : Int) :
    (texts.invalidate settings now jobId newVersion reply).1 =
        (JobCache.invalidate settings now jobId newVersion reply redis).1 ∧
      HoldsEntries json (texts.invalidate settings now jobId newVersion reply).2
        (JobCache.invalidate settings now jobId newVersion reply redis).2 :=
  holds.call (holds.setIfNewer newVersion none _)

end

end NotifyQueue
