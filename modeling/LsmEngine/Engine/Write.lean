import LsmEngine.Engine.State

/-!
# The write path: `put`, `update`, `delete` and their rollovers

`src/storage_engine/storage.rs`, lines 164 to 243 (`put`), 362 to 435 (`delete`,
`update`).  A write appends its record to the value log, rolls the active memtable over
when `is_full(HEAD_ENTRY_KEY.len())` holds, and inserts its entry into the active memtable.

The two rollovers are not the same code, and they keep their own bodies here
(`rolloverInPut`, `rolloverInDelete`).  Both insert a `HEAD` entry carrying the largest
value offset of the active memtable, mark it read-only and insert a clone into
`read_only_memtables` (`sealActive`); when the queue has reached `max_buffer_write_number` both
hand its oldest memtable to a spawned send (`queueFlush`).  `put` also moves the value-log
head and always installs a fresh active memtable (`renewActive`).  `delete` gives its
`HEAD` entry the delete's own `is_tombstone = true`, leaves the value-log head alone, and
installs a fresh memtable only inside the `max_buffer_write_number` branch: otherwise the
sealed memtable stays active, and its clone in `read_only_memtables` shares its skip map.

Clock readings and the drawn table id are inputs of a call: `createdAt` for the record,
`headNow` for the `HEAD` entry of a rollover, `tableId` for the sealed memtable.
-/

namespace LsmEngine

namespace StorageEngine

variable {F : Type} [BloomFilter F]

/-- `index.iter().max_by_key(|e| e.value().0)`, read for its value offset. -/
def maxValueOffset (m : SkipMap) : Option Nat := (m.entries.map fun e => e.2.1).max?

/-- `self.active_memtable.insert(&entry)`. -/
def insertActive (s : StorageEngine F) (entry : Entry) : StorageEngine F :=
  { s with heap := (s.activeMemtable.insert s.heap entry).1
           activeMemtable := (s.activeMemtable.insert s.heap entry).2 }

/-- Insert `headEntry` into the active memtable, mark it read-only, and insert a clone into
`read_only_memtables` under `tableId`. -/
def sealActive (s : StorageEngine F) (headEntry : Entry) (tableId : TableId) : StorageEngine F :=
  let s := insertActive s headEntry
  let m := { s.activeMemtable with readOnly := true }
  { s with activeMemtable := m, readOnlyMemtables := indexMapInsert s.readOnlyMemtables tableId m }

/-- `if self.read_only_memtables.read().await.len() >= self.config.max_buffer_write_number`:
the oldest sealed memtable, with its id, goes to a spawned send on the flush channel. -/
def queueFlush (s : StorageEngine F) : Outcome (StorageEngine F) :=
  if s.config.maxBufferWriteNumber ≤ s.readOnlyMemtables.length then
    match s.readOnlyMemtables.head? with
    | some p => .ok { s with flushSends := s.flushSends ++ [p] }
    | none => .panic .flushCandidateUnwrap
  else .ok s

/-- A fresh active memtable with the given capacity, size unit and rate. -/
def renewActive (s : StorageEngine F) (sizeUnit : SizeUnit) (capacity : Nat) (rate : F64) :
    Outcome (StorageEngine F) :=
  InMemoryTable.withSpecifiedCapacityAndRate s.heap sizeUnit capacity rate >>= fun r =>
    .ok { s with heap := r.1, activeMemtable := r.2 }

/-- The rollover inside `put` (lines 177 to 232). -/
def rolloverInPut (s : StorageEngine F) (headNow : Nat) (tableId : TableId) :
    Outcome (StorageEngine F) :=
  let capacity := s.activeMemtable.capacity
  let sizeUnit := s.activeMemtable.sizeUnit
  let falsePositiveRate := s.activeMemtable.falsePositiveRate
  match maxValueOffset (s.heap.cells s.activeMemtable.index) with
  | none => .panic .headOffsetUnwrap
  | some headOffset =>
    let s := { s with valLog := s.valLog.setHead headOffset }
    let s := sealActive s ⟨headEntryKey, headOffset, headNow, false⟩ tableId
    queueFlush s >>= fun s => renewActive s sizeUnit capacity falsePositiveRate

/-- The rollover inside `delete` (lines 378 to 420). -/
def rolloverInDelete (s : StorageEngine F) (headNow : Nat) (tableId : TableId) :
    Outcome (StorageEngine F) :=
  let capacity := s.activeMemtable.capacity
  let sizeUnit := s.activeMemtable.sizeUnit
  let falsePositiveRate := s.activeMemtable.falsePositiveRate
  match maxValueOffset (s.heap.cells s.activeMemtable.index) with
  | none => .panic .headOffsetUnwrap
  | some headOffset =>
    let s := sealActive s ⟨headEntryKey, headOffset, headNow, true⟩ tableId
    if s.config.maxBufferWriteNumber ≤ s.readOnlyMemtables.length then
      match s.readOnlyMemtables.head? with
      | some p => renewActive { s with flushSends := s.flushSends ++ [p] } sizeUnit capacity
          falsePositiveRate
      | none => .panic .flushCandidateUnwrap
    else .ok s

/-- `if self.active_memtable.is_full(HEAD_ENTRY_KEY.len())`, then the rollover. -/
def rolloverIfFull (rollover : StorageEngine F → Outcome (StorageEngine F)) (s : StorageEngine F) :
    Outcome (StorageEngine F) :=
  if s.activeMemtable.isFull headEntryKey.length then rollover s else .ok s

/-- What `put` and `delete` share after `delete`'s lookup: append the record, roll over
with `rollover` when the active memtable is full, insert the entry. -/
def appendAndInsert (rollover : StorageEngine F → Outcome (StorageEngine F))
    (s : StorageEngine F) (key value : Key) (createdAt : Nat) (isTombstone : Bool) :
    Outcome (StorageEngine F) :=
  let vOffset := (s.valLog.append key value createdAt isTombstone).2
  let s := { s with valLog := (s.valLog.append key value createdAt isTombstone).1 }
  rolloverIfFull rollover s >>= fun s => .ok (insertActive s ⟨key, vOffset, createdAt, isTombstone⟩)

/-- `StorageEngine::put`. -/
def put (s : StorageEngine F) (key value : Key) (createdAt headNow : Nat) (tableId : TableId) :
    Outcome (StorageEngine F) :=
  appendAndInsert (rolloverInPut · headNow tableId) s key value createdAt false

/-- `StorageEngine::update`, which calls `put`. -/
def update (s : StorageEngine F) (key value : Key) (createdAt headNow : Nat) (tableId : TableId) :
    Outcome (StorageEngine F) :=
  put s key value createdAt headNow tableId

/-- `StorageEngine::delete`: `get` first, then a tombstone record. -/
def delete (s : StorageEngine F) (key : Key) (createdAt headNow : Nat) (tableId : TableId) :
    Outcome (StorageEngine F) :=
  get s key >>= fun _ =>
    appendAndInsert (rolloverInDelete · headNow tableId) s key tombStoneMarker createdAt true

end StorageEngine

end LsmEngine
