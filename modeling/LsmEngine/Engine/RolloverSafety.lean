import LsmEngine.Engine.Capacity
import LsmEngine.Engine.FlushAll

/-!
# The rollovers never unwrap the head offset of an empty memtable

The rollovers of `put` and `delete` unwrap `index.iter().max_by_key(..)`
(`src/storage_engine/storage.rs`, lines 177 to 197 and 378 to 393), which panics on an
empty skip map.  `Engine.WriteSpec` shows that the write path reaches that unwrap only
through a full active memtable (`put_panicSite`, `delete_panicSite`).  This module joins
that to the runs of the engine: along every run a full active memtable holds an entry.

What keeps an empty memtable from being full is its byte counter: `size` is zero whenever
the skip map is empty (`InMemoryTable.Counted`).  Every write ends with an insert, which
leaves the skip map non-empty (`counted_appendAndInsert`); `clear` and
`with_specified_capacity_and_rate` set `size` to zero; a failing `flush_all_memtables`
touches neither (`RolloverSafe.flushAllMemtables`).  Opening, fresh or through the replay of
the value log, leaves the active memtable counted (`withCapacityAndRate_rolloverSafe`).
A memtable of more than `HEAD_ENTRY_KEY.len() + 13` bytes is not full at size zero, and
every memtable keeps the opening capacity (`Sized`), so neither unwrap panics from any
state a run reaches (`rollover_unwraps_never_panic`).
-/

namespace LsmEngine

namespace InMemoryTable

variable {F : Type} [BloomFilter F]

/-- The byte counter is zero whenever the skip map is empty. -/
def Counted (m : InMemoryTable F) (heap : Heap) : Prop :=
  heap.cells m.index = ∅ → m.size = 0

omit [BloomFilter F] in
theorem counted_of_size {m : InMemoryTable F} (h : m.size = 0) (heap : Heap) : m.Counted heap :=
  fun _ => h

theorem counted_insert (heap : Heap) (m : InMemoryTable F) (entry : Entry) :
    (m.insert heap entry).2.Counted (m.insert heap entry).1 :=
  fun h => absurd h (insert_cells_ne_empty heap m entry)

theorem counted_clear (heap : Heap) (m : InMemoryTable F) : (m.clear heap).2.Counted (m.clear heap).1 :=
  counted_of_size rfl _

omit [BloomFilter F] in
/-- **A full counted memtable holds an entry**, once its capacity exceeds what `is_full`
adds for the `HEAD` key. -/
theorem Counted.ne_empty_of_isFull {heap : Heap} {m : InMemoryTable F} (h : m.Counted heap)
    (hcap : headEntryKey.length + 13 < m.capacity) (hf : m.isFull headEntryKey.length = true) :
    heap.cells m.index ≠ ∅ := fun he => by
  simp only [isFull, h he, sizeOfU32, sizeOfU64, sizeOfU8, decide_eq_true_eq] at hf
  omega

end InMemoryTable

namespace StorageEngine

variable {F : Type} [BloomFilter F]

/-! ### Runs of writes and `flush_all_memtables` -/

/-- An operation of a run: a user call, or `flush_all_memtables` with what it draws. -/
inductive Operation where
  | call (c : Call)
  | flushAll (draws : FlushDraws)

/-- One operation on the engine.  `flush_all_memtables` takes `&mut self`, so the run goes
on with the engine the call leaves, whether it returned `Ok` or `Err`. -/
def perform (s : StorageEngine F) : Operation → Outcome (StorageEngine F)
  | .call c => s.apply c
  | .flushAll draws => .ok (s.flushAllMemtables draws).1

/-- The operations one after another, as in `run`. -/
def exec (s : StorageEngine F) (ops : List Operation) : Outcome (StorageEngine F) :=
  Outcome.steps perform s ops

/-- What keeps the rollovers' unwraps away: every memtable has `capacity` bytes and the rate
`rate`, and the active memtable is counted. -/
structure RolloverSafe (s : StorageEngine F) (capacity : Nat) (rate : F64) : Prop where
  sized : s.Sized capacity rate
  counted : s.activeMemtable.Counted s.heap

/-! ### One operation -/

section Steps

variable {s s' : StorageEngine F} {capacity : Nat} {rate : F64}

/-- Every write ends with an insert into the active memtable. -/
theorem counted_appendAndInsert {rollover : StorageEngine F → Outcome (StorageEngine F)}
    {key value : Key} {createdAt : Nat} {isTombstone : Bool}
    (h : appendAndInsert rollover s key value createdAt isTombstone = .ok s') :
    s'.activeMemtable.Counted s'.heap := by
  obtain ⟨s₁, -, rfl⟩ := appendAndInsert_eq h
  exact InMemoryTable.counted_insert _ _ _

theorem counted_apply {c : Call} (hc : s.apply c = .ok s') : s'.activeMemtable.Counted s'.heap := by
  cases c with
  | put | update => exact counted_appendAndInsert hc
  | delete =>
    obtain ⟨_, -, hd⟩ := Outcome.bind_eq_ok.1 hc
    exact counted_appendAndInsert hd

omit [BloomFilter F] in
theorem KeepsMemtables.rolloverSafe {s₁ : StorageEngine F} (hk : KeepsMemtables s s₁)
    (h : s.RolloverSafe capacity rate) : s₁.RolloverSafe capacity rate where
  sized := ⟨hk.config ▸ h.sized.config, hk.active ▸ h.sized.active, hk.readOnly ▸ h.sized.readOnly,
    hk.flushSends ▸ h.sized.flushSends⟩
  counted := hk.active ▸ hk.heap ▸ h.counted

/-- `finishFlushAll` clears the active memtable and empties `read_only_memtables`. -/
theorem RolloverSafe.finishFlushAll (h : s.RolloverSafe capacity rate) (hotness : String → Nat) :
    (s.finishFlushAll hotness).RolloverSafe capacity rate where
  sized := ⟨h.sized.config, h.sized.active.clear s.heap, (fun _ h => nomatch h), h.sized.flushSends⟩
  counted := InMemoryTable.counted_clear _ _

/-- A `flush_all_memtables` that succeeds clears the active memtable, and one that fails
leaves it and the heap alone. -/
theorem RolloverSafe.flushAllMemtables (h : s.RolloverSafe capacity rate) (draws : FlushDraws) :
    (s.flushAllMemtables draws).1.RolloverSafe capacity rate := by
  obtain ⟨s₁, hk, ⟨-, hf⟩ | ⟨-, hf⟩⟩ := flushAllMemtables_eq s draws
  · rw [hf]
    exact (hk.rolloverSafe h).finishFlushAll _
  · rw [hf]
    exact hk.rolloverSafe h

/-- **Every operation keeps the engine rollover-safe.** -/
theorem RolloverSafe.perform (h : s.RolloverSafe capacity rate) {op : Operation}
    (hop : s.perform op = .ok s') : s'.RolloverSafe capacity rate := by
  cases op with
  | call c => exact ⟨h.sized.apply hop, counted_apply hop⟩
  | flushAll draws =>
    cases hop
    exact h.flushAllMemtables draws

omit [BloomFilter F] in
/-- **In a rollover-safe engine a full active memtable holds an entry**, once the capacity
exceeds what `is_full` adds for the `HEAD` key. -/
theorem RolloverSafe.ne_empty_of_isFull (h : s.RolloverSafe capacity rate)
    (hcap : headEntryKey.length + 13 < capacity) :
    s.activeMemtable.isFull headEntryKey.length = true → s.heap.cells s.activeMemtable.index ≠ ∅ :=
  h.counted.ne_empty_of_isFull (h.sized.active.capacity ▸ hcap)

end Steps

/-! ### Opening -/

section Open

variable {disk : Disk} {sizeUnit : SizeUnit} {capacity : Nat} {config : Config}
  {createdAt : Nat} {draw : Nat → TableId} {s : StorageEngine F}

/-- Every step of the replay inserts into the active memtable, or moves past the `HEAD`
record alone. -/
theorem counted_replayStep {st st' : ReplayState F} {rate : F64} {headOffset : Nat}
    (h : st.active.Counted st.heap) {e : ValueLogEntry}
    (hs : replayStep sizeUnit capacity rate headOffset draw st e = .ok st') :
    st'.active.Counted st'.heap := by
  rcases replayStep_eq hs with ⟨-, rfl⟩ | ⟨-, st₁, -, rfl⟩
  · exact h
  · exact InMemoryTable.counted_insert _ _ _

theorem counted_openFresh (h : openFresh disk sizeUnit capacity config createdAt = .ok s) :
    s.activeMemtable.Counted s.heap := by
  obtain ⟨_, -, hs⟩ := Outcome.bind_eq_ok.1 h
  cases hs
  exact InMemoryTable.counted_insert _ _ _

theorem counted_openRecover (h : openRecover disk sizeUnit capacity config draw = .ok s) :
    s.activeMemtable.Counted s.heap := by
  obtain ⟨_, hrec, -⟩ := openRecover_eq h
  obtain ⟨m, st, hm, hr, hheap, hactive, -⟩ := recoverMemtable_eq hrec
  rw [hheap, hactive]
  exact replay_preserves (fun _ _ _ hs h => counted_replayStep hs h)
    (InMemoryTable.counted_of_size hm.size _) hr

/-- **Opening leaves the engine rollover-safe**, fresh or recovered. -/
theorem withCapacityAndRate_rolloverSafe
    (h : withCapacityAndRate disk sizeUnit capacity config createdAt draw = .ok s) :
    s.RolloverSafe (sizeUnit.toBytes capacity) config.falsePositiveRate := by
  refine ⟨withCapacityAndRate_sized h, ?_⟩
  unfold withCapacityAndRate at h
  split at h
  · exact counted_openFresh h
  · exact counted_openRecover h

end Open

/-! ### Every run -/

/-- **The rollovers' unwraps never panic.**  Open an engine on any directory with a capacity
of more than `HEAD_ENTRY_KEY.len() + 13` bytes, and run any `put`, `update`, `delete` and
`flush_all_memtables` operations.  In the state reached, a full active memtable holds an
entry, and no `put`, `update` or `delete` panics at the rollover's `unwrap` of the largest
value offset. -/
theorem rollover_unwraps_never_panic {disk : Disk} {sizeUnit : SizeUnit} {capacity : Nat}
    {config : Config} {createdAt : Nat} {draw : Nat → TableId} {ops : List Operation}
    {s : StorageEngine F} (hcap : headEntryKey.length + 13 < sizeUnit.toBytes capacity)
    (h : (withCapacityAndRate disk sizeUnit capacity config createdAt draw >>= (·.exec ops)) =
      .ok s) :
    (s.activeMemtable.isFull headEntryKey.length = true → s.heap.cells s.activeMemtable.index ≠ ∅) ∧
    (∀ key value createdAt headNow tableId,
      (s.put key value createdAt headNow tableId).panicSite ≠ some .headOffsetUnwrap) ∧
    (∀ key value createdAt headNow tableId,
      (s.update key value createdAt headNow tableId).panicSite ≠ some .headOffsetUnwrap) ∧
    (∀ key createdAt headNow tableId,
      (s.delete key createdAt headNow tableId).panicSite ≠ some .headOffsetUnwrap) := by
  obtain ⟨s₀, h₀, hrun⟩ := Outcome.bind_eq_ok.1 h
  have hfull := (Outcome.steps_preserves (fun _ _ _ hs hop => RolloverSafe.perform hs hop)
    (withCapacityAndRate_rolloverSafe h₀) hrun).ne_empty_of_isFull hcap
  exact ⟨hfull, put_panicSite hfull, put_panicSite hfull, delete_panicSite hfull⟩

/-- Writes on a 31-byte memtable that roll it over, a `flush_all_memtables` that clears
it, and writes and a `delete` after it. -/
def smallOperations : List Operation :=
  [.call (.put [97] [49] 2 2 [48]), .call (.put [98] [50] 3 3 [49]),
    .flushAll ⟨fun _ => "bucket-1", fun n => "sstable_" ++ toString n, fun _ => 1⟩,
    .call (.put [97] [51] 4 4 [50]), .call (.delete [97] 5 5 [51]),
    .call (.update [98] [52] 6 6 [52])]

theorem small_run_never_panics_at_unwrap :
    ∃ s, (withCapacityAndRate (F := ExactFilter) ⟨[], some [], []⟩ .bytes 31 smallConfig 1
        (fun _ => []) >>= (·.exec smallOperations)) = .ok s ∧
      (s.activeMemtable.isFull headEntryKey.length = true →
        s.heap.cells s.activeMemtable.index ≠ ∅) ∧
      (∀ key value createdAt headNow tableId,
        (s.put key value createdAt headNow tableId).panicSite ≠ some .headOffsetUnwrap) ∧
      (∀ key value createdAt headNow tableId,
        (s.update key value createdAt headNow tableId).panicSite ≠ some .headOffsetUnwrap) ∧
      (∀ key createdAt headNow tableId,
        (s.delete key createdAt headNow tableId).panicSite ≠ some .headOffsetUnwrap) :=
  (fun hs => ⟨_, hs, rollover_unwraps_never_panic (by decide) hs⟩) rfl

end StorageEngine

end LsmEngine
