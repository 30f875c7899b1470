import LsmEngine.Engine.Run

/-!
# What each rollover does, and what it leaves behind

Field lemmas for the pieces of a rollover, then one inversion lemma per rollover saying
everything it can do (`rolloverInPut_eq`, `rolloverInDelete_eq`); the invariants of later
modules are derived from these and never unfold the rollovers.  From them, one theorem per
rollover says what it leaves as the active memtable.  `rolloverInPut_active_fresh`: after
the rollover inside `put` the active memtable is a fresh one, unsealed and with an empty
skip map of its own.  `rolloverInDelete_active_sealed`: after the rollover inside `delete`,
whenever the queue stays below `max_buffer_write_number`, the active memtable is the sealed
one, and a memtable of `read_only_memtables` holds the same skip map.
-/

namespace LsmEngine

namespace StorageEngine

variable {F : Type} [BloomFilter F]

section Fields

variable (s : StorageEngine F) (entry headEntry : Entry) (tableId : TableId)

@[simp] theorem insertActive_heap :
    (insertActive s entry).heap = (s.activeMemtable.insert s.heap entry).1 := rfl

@[simp] theorem insertActive_activeMemtable :
    (insertActive s entry).activeMemtable = (s.activeMemtable.insert s.heap entry).2 := rfl

@[simp] theorem insertActive_readOnlyMemtables :
    (insertActive s entry).readOnlyMemtables = s.readOnlyMemtables := rfl

@[simp] theorem insertActive_valLog : (insertActive s entry).valLog = s.valLog := rfl

@[simp] theorem insertActive_config : (insertActive s entry).config = s.config := rfl

@[simp] theorem insertActive_flushSends : (insertActive s entry).flushSends = s.flushSends := rfl

@[simp] theorem sealActive_heap :
    (sealActive s headEntry tableId).heap = (s.activeMemtable.insert s.heap headEntry).1 := rfl

@[simp] theorem sealActive_activeMemtable :
    (sealActive s headEntry tableId).activeMemtable =
      { (s.activeMemtable.insert s.heap headEntry).2 with readOnly := true } := rfl

@[simp] theorem sealActive_readOnlyMemtables :
    (sealActive s headEntry tableId).readOnlyMemtables =
      indexMapInsert s.readOnlyMemtables tableId
        { (s.activeMemtable.insert s.heap headEntry).2 with readOnly := true } := rfl

@[simp] theorem sealActive_valLog : (sealActive s headEntry tableId).valLog = s.valLog := rfl

@[simp] theorem sealActive_config : (sealActive s headEntry tableId).config = s.config := rfl

@[simp] theorem sealActive_flushSends :
    (sealActive s headEntry tableId).flushSends = s.flushSends := rfl

end Fields

omit [BloomFilter F] in
/-- `queueFlush` leaves the state alone, or, when the queue has reached
`max_buffer_write_number`, appends its oldest memtable to `flushSends`. -/
theorem queueFlush_eq {s s' : StorageEngine F} (h : queueFlush s = .ok s') :
    s' = s ∨ ∃ p, s.readOnlyMemtables.head? = some p ∧
      s.config.maxBufferWriteNumber ≤ s.readOnlyMemtables.length ∧
      s' = { s with flushSends := s.flushSends ++ [p] } := by
  unfold queueFlush at h
  split at h
  · rename_i hle
    split at h
    · rename_i p hp
      cases h; exact .inr ⟨p, hp, hle, rfl⟩
    · cases h
  · cases h; exact .inl rfl

omit [BloomFilter F] in
theorem queueFlush_noErr (s : StorageEngine F) : (queueFlush s).NoErr := by
  unfold queueFlush
  split
  · split
    · exact Outcome.noErr_ok _
    · exact Outcome.noErr_panic _
  · exact Outcome.noErr_ok _

theorem renewActive_noErr (s : StorageEngine F) (sizeUnit : SizeUnit) (capacity : Nat) (rate : F64) :
    (renewActive s sizeUnit capacity rate).NoErr :=
  (InMemoryTable.withSpecifiedCapacityAndRate_noErr s.heap sizeUnit capacity rate).bind
    fun _ => Outcome.noErr_ok _

omit [BloomFilter F] in
theorem queueFlush_panicSite (s : StorageEngine F) :
    (queueFlush s).panicSite ≠ some .headOffsetUnwrap := by
  unfold queueFlush
  split
  · split <;> simp [Outcome.panicSite]
  · simp [Outcome.panicSite]

theorem renewActive_panicSite (s : StorageEngine F) (sizeUnit : SizeUnit) (capacity : Nat)
    (rate : F64) : (renewActive s sizeUnit capacity rate).panicSite ≠ some .headOffsetUnwrap :=
  Outcome.panicSite_bind_ne (InMemoryTable.withSpecifiedCapacityAndRate_panicSite _ _ _ _)
    fun _ h => Option.noConfusion h

/-- What `renewActive` installs: a fresh memtable on a new skip map. -/
theorem renewActive_eq {s s' : StorageEngine F} {sizeUnit : SizeUnit} {capacity : Nat} {rate : F64}
    (h : renewActive s sizeUnit capacity rate = .ok s') :
    ∃ m, s' = { s with heap := s.heap.alloc.1, activeMemtable := m } ∧
      m.Fresh s.heap.next (sizeUnit.toBytes capacity) rate := by
  unfold renewActive at h
  obtain ⟨⟨heap, m⟩, hw, hs⟩ := Outcome.bind_eq_ok.1 h
  obtain ⟨rfl, hm⟩ := InMemoryTable.withSpecifiedCapacityAndRate_eq s.heap hw
  cases hs
  exact ⟨m, rfl, hm⟩

/-- **What the rollover inside `put` does.**  It finds the largest value offset `h` of the
active memtable, moves the value-log head to `h`, seals the active memtable with a live
`HEAD` entry at `h` (`sealActive`), possibly queues the oldest sealed memtable, and installs
a fresh memtable with the sealed one's capacity and rate. -/
theorem rolloverInPut_eq {s s' : StorageEngine F} {headNow : Nat} {tableId : TableId}
    (h : rolloverInPut s headNow tableId = .ok s') :
    ∃ headOffset m sends,
      maxValueOffset (s.heap.cells s.activeMemtable.index) = some headOffset ∧
      (sends = s.flushSends ∨ ∃ p, sends = s.flushSends ++ [p] ∧
        (sealActive { s with valLog := s.valLog.setHead headOffset }
          ⟨headEntryKey, headOffset, headNow, false⟩ tableId).readOnlyMemtables.head? = some p) ∧
      s' = { sealActive { s with valLog := s.valLog.setHead headOffset }
              ⟨headEntryKey, headOffset, headNow, false⟩ tableId with
              flushSends := sends
              heap := (s.activeMemtable.insert s.heap ⟨headEntryKey, headOffset, headNow, false⟩).1.alloc.1
              activeMemtable := m } ∧
      m.Fresh s.heap.next (s.activeMemtable.sizeUnit.toBytes s.activeMemtable.capacity)
        s.activeMemtable.falsePositiveRate := by
  unfold rolloverInPut at h
  split at h
  · cases h
  · rename_i headOffset hmax
    obtain ⟨q, hq, hr⟩ := Outcome.bind_eq_ok.1 h
    obtain ⟨m, rfl, hm⟩ := renewActive_eq hr
    rcases queueFlush_eq hq with rfl | ⟨p, hp, -, rfl⟩
    · exact ⟨headOffset, m, _, hmax, .inl rfl, rfl, by simpa using hm⟩
    · exact ⟨headOffset, m, _, hmax, .inr ⟨p, rfl, hp⟩, rfl, by simpa using hm⟩

/-- **What the rollover inside `delete` does.**  It finds the largest value offset `h` of
the active memtable and seals it with a tombstoned `HEAD` entry at `h`; the value-log head
is not moved.  Below `max_buffer_write_number` that is all; at it, the oldest sealed
memtable is queued and a fresh memtable installed. -/
theorem rolloverInDelete_eq {s s' : StorageEngine F} {headNow : Nat} {tableId : TableId}
    (h : rolloverInDelete s headNow tableId = .ok s') :
    ∃ headOffset, maxValueOffset (s.heap.cells s.activeMemtable.index) = some headOffset ∧
      (((sealActive s ⟨headEntryKey, headOffset, headNow, true⟩ tableId).readOnlyMemtables.length <
          s.config.maxBufferWriteNumber ∧
        s' = sealActive s ⟨headEntryKey, headOffset, headNow, true⟩ tableId) ∨
      ∃ p m, s.config.maxBufferWriteNumber ≤
          (sealActive s ⟨headEntryKey, headOffset, headNow, true⟩ tableId).readOnlyMemtables.length ∧
        (sealActive s ⟨headEntryKey, headOffset, headNow, true⟩ tableId).readOnlyMemtables.head?
          = some p ∧
        s' = { sealActive s ⟨headEntryKey, headOffset, headNow, true⟩ tableId with
                flushSends := s.flushSends ++ [p]
                heap := (s.activeMemtable.insert s.heap ⟨headEntryKey, headOffset, headNow, true⟩).1.alloc.1
                activeMemtable := m } ∧
        m.Fresh s.heap.next (s.activeMemtable.sizeUnit.toBytes s.activeMemtable.capacity)
          s.activeMemtable.falsePositiveRate) := by
  unfold rolloverInDelete at h
  split at h
  · cases h
  · rename_i headOffset hmax
    refine ⟨headOffset, hmax, ?_⟩
    dsimp only at h
    split at h
    · rename_i hle
      split at h
      · rename_i p hp
        obtain ⟨m, rfl, hm⟩ := renewActive_eq h
        exact .inr ⟨p, m, hle, hp, rfl, by simpa using hm⟩
      · cases h
    · cases h
      exact .inl ⟨Nat.lt_of_not_le ‹_›, rfl⟩

/-- **The rollover inside `put` installs a fresh memtable.**  Whatever the state, when the
rollover returns, the active memtable is unsealed and its skip map is a new, empty one. -/
theorem rolloverInPut_active_fresh {s s' : StorageEngine F} {headNow : Nat} {tableId : TableId}
    (h : rolloverInPut s headNow tableId = .ok s') :
    s'.activeMemtable.readOnly = false ∧ s'.heap.cells s'.activeMemtable.index = ∅ := by
  obtain ⟨_, m, _, -, -, rfl, hm⟩ := rolloverInPut_eq h
  exact ⟨hm.readOnly, by simp [hm.index]⟩

/-- **The rollover inside `delete` can keep the sealed memtable active.**  Whatever the
state, when the queue holds fewer than `max_buffer_write_number` memtables after the seal,
the active memtable is read-only and shares its skip map with a memtable of
`read_only_memtables`. -/
theorem rolloverInDelete_active_sealed {s s' : StorageEngine F} {headNow : Nat} {tableId : TableId}
    (h : rolloverInDelete s headNow tableId = .ok s')
    (hq : s'.readOnlyMemtables.length < s'.config.maxBufferWriteNumber) :
    s'.activeMemtable.readOnly = true ∧
      ∃ e ∈ s'.readOnlyMemtables, e.2.index = s'.activeMemtable.index := by
  obtain ⟨_, -, ⟨-, rfl⟩ | ⟨p, m, hle, -, rfl, -⟩⟩ := rolloverInDelete_eq h
  · exact ⟨rfl, _, mem_indexMapInsert_self _ _ _, rfl⟩
  · exact absurd hle (Nat.not_le_of_lt hq)

/-! ### A run that reaches the rollover inside `delete`

The engine is opened on an empty directory with 31-byte memtables, a 1% false-positive
rate and a queue of three sealed memtables before a flush.  Its first memtable holds the
two sentinels (34 bytes) and is full from the start, so `put("a", "1")` rolls it over and
leaves `"a"` alone in a memtable that is full again.  `delete("a")` then rolls that one over
with one sealed memtable in the queue. -/

/-- `0.01` as an `f64`. -/
def onePercent : F64 := ⟨0x3F847AE147AE147B⟩

/-- A 1% false-positive rate and a queue of three sealed memtables before a flush. -/
def smallConfig : Config := ⟨onePercent, 3⟩

/-- The engine opened on an empty directory with 31-byte memtables. -/
def smallEngine : Outcome (StorageEngine ExactFilter) := openEmpty .bytes 31 smallConfig 1

/-- `put("a", "1")` then `delete("a")` on `smallEngine`: the active memtable is still the
sealed one, and it indexes the tombstone at offset 61 together with a memtable of
`read_only_memtables`. -/
theorem delete_keeps_sealed_memtable_active :
    ∃ s, (smallEngine >>= (·.run [.put [97] [49] 2 2 [48], .delete [97] 3 3 [49]])) = .ok s ∧
      s.activeMemtable.readOnly = true ∧
      (s.heap.cells s.activeMemtable.index).lookup [97] = some (61, 3, true) ∧
      ∃ e ∈ s.readOnlyMemtables, (s.heap.cells e.2.index).lookup [97] = some (61, 3, true) :=
  ⟨_, rfl, rfl, rfl, _, List.mem_cons_of_mem _ (List.mem_singleton_self _), rfl⟩

/-- The same run: the memtable `delete` sealed carries a `HEAD` entry at offset 42, yet
indexes the tombstone written after the seal at offset 61, and the replay from 42 that
skips the record at 42 yields that tombstone again. -/
theorem sealed_memtable_holds_write_past_head :
    ∃ s, (smallEngine >>= (·.run [.put [97] [49] 2 2 [48], .delete [97] 3 3 [49]])) = .ok s ∧
      ∃ e ∈ s.readOnlyMemtables,
        (s.heap.cells e.2.index).lookup headEntryKey = some (42, 3, true) ∧
        (s.heap.cells e.2.index).lookup [97] = some (61, 3, true) ∧
        (recoverFrom s.valLog.records 42).drop 1 = [⟨[97], tombStoneMarker, 3, true⟩] :=
  ⟨_, rfl, _, List.mem_cons_of_mem _ (List.mem_singleton_self _), rfl, rfl, rfl⟩

/-- The two rollovers on the state `put("a", "1")` leaves, whose active memtable is full:
`put`'s moves the value-log head to 42, marks its `HEAD` entry live and installs a fresh
memtable; `delete`'s leaves the head at 21, marks its `HEAD` entry as a tombstone, and
keeps the sealed memtable active. -/
theorem rollovers_differ_on_full_memtable :
    ∃ s p d, (smallEngine >>= (·.run [.put [97] [49] 2 2 [48]])) = .ok s ∧
      s.activeMemtable.isFull headEntryKey.length = true ∧
      rolloverInPut s 3 [49] = .ok p ∧ rolloverInDelete s 3 [49] = .ok d ∧
      p.valLog.head = 42 ∧ d.valLog.head = 21 ∧
      (p.readOnlyMemtables.map fun e => (p.heap.cells e.2.index).lookup headEntryKey) =
        [some (21, 2, false), some (42, 3, false)] ∧
      (d.readOnlyMemtables.map fun e => (d.heap.cells e.2.index).lookup headEntryKey) =
        [some (21, 2, false), some (42, 3, true)] ∧
      p.activeMemtable.readOnly = false ∧ d.activeMemtable.readOnly = true :=
  ⟨_, _, _, rfl, rfl, rfl, rfl, rfl, rfl, rfl, rfl, rfl, rfl⟩

end StorageEngine

end LsmEngine
