import LsmEngine.Memtable.InMemory
import LsmEngine.ValueLog

/-!
# The engine's state, and `get`

`src/storage_engine/storage.rs`, `StorageEngine` and `StorageEngine::get` (lines 246 to
360).  The state keeps what the write and read paths touch: the active memtable, the
sealed ones in `read_only_memtables` (an `IndexMap`, so a list in insertion order), the
value log, the heap of skip maps, the SSTable tier, the configuration, and the pairs the
rollovers handed to a spawned send on the flush channel.

`get` looks in the active memtable, then scans the sealed memtables oldest first keeping a
hit only when its `created_at` is strictly larger than the best so far (`scanStep`), then
the SSTables through the same step, and reads the value from the value log.  The SSTable
side calls `TableBiggestKeys`, `BloomFilter`, `SparseIndex` and `SSTable`, none of which is
among the sources; they are modelled from the spec as the lookups §4.3 and §4.4 describe.
-/

namespace LsmEngine

/-- The id `InMemoryTable::generate_table_id` draws for a sealed memtable: ten random
alphanumeric bytes.  The draw is an input of the call that makes it. -/
abbrev TableId := List UInt8

/-- Modelled from the spec: `cfg` is not among the sources; the two fields of `Config` the
modelled functions read. -/
structure Config where
  falsePositiveRate : F64
  maxBufferWriteNumber : Nat

/-- `IndexMap::insert`: a new id goes last; an id already present keeps its place and
takes the new value. -/
def indexMapInsert {κ α : Type} [DecidableEq κ] (m : List (κ × α)) (id : κ) (v : α) :
    List (κ × α) :=
  if id ∈ m.map Prod.fst then m.map fun e => if e.1 = id then (id, v) else e else m ++ [(id, v)]

theorem mem_indexMapInsert {κ α : Type} [DecidableEq κ] {m : List (κ × α)} {id : κ} {v : α}
    {x : κ × α} (h : x ∈ indexMapInsert m id v) : x ∈ m ∨ x = (id, v) := by
  unfold indexMapInsert at h
  split at h
  · obtain ⟨e, he, rfl⟩ := List.mem_map.1 h
    split
    · exact .inr rfl
    · exact .inl he
  · simpa using h

theorem mem_indexMapInsert_self {κ α : Type} [DecidableEq κ] (m : List (κ × α)) (id : κ) (v : α) :
    (id, v) ∈ indexMapInsert m id v := by
  unfold indexMapInsert
  split
  · obtain ⟨e, he, hid⟩ := List.mem_map.1 ‹_›
    exact List.mem_map.2 ⟨e, he, if_pos hid⟩
  · simp

/-- Inserting keeps the keys in place and adds a new key last. -/
theorem map_fst_indexMapInsert {κ α : Type} [DecidableEq κ] (m : List (κ × α)) (id : κ) (v : α) :
    (indexMapInsert m id v).map Prod.fst =
      if id ∈ m.map Prod.fst then m.map Prod.fst else m.map Prod.fst ++ [id] := by
  unfold indexMapInsert
  split
  · rw [List.map_map]
    exact List.map_congr_left fun e _ => by
      simp only [Function.comp]
      split <;> simp_all
  · simp

theorem indexMapInsert_of_not_mem {κ α : Type} [DecidableEq κ] {m : List (κ × α)} {id : κ}
    (h : id ∉ m.map Prod.fst) (v : α) : indexMapInsert m id v = m ++ [(id, v)] := by
  simp only [indexMapInsert, if_neg h]

/-- Modelled from the spec: an SSTable on disk, the path of its data file and its records
(§4.3). -/
structure SSTable where
  dataFilePath : String
  entries : SkipMap

/-- Modelled from the spec: a `Bucket` of the bucket map, the average size of its SSTables
and their paths (§4.5, `Bucket{ dir, avg_size, ssts }`).  The `bucket` module is not among
the sources.  The directory is left out: the path of the SSTable a flush writes is an input
of the flush. -/
structure Bucket where
  averageSize : Nat
  sstables : List String

/-- `StorageEngine<Vec<u8>>`, the fields the modelled functions read or write.  The
compactor, the flusher's own handles, the directory paths, `meta` and the tombstone
compaction channel are left out.  `bloomFilters` pairs each SSTable filter with the data
file path `set_sstable_path` gave it; `buckets` is the bucket map, by bucket id. -/
structure StorageEngine (F : Type) where
  activeMemtable : InMemoryTable F
  readOnlyMemtables : List (TableId × InMemoryTable F)
  valLog : ValueLog
  heap : Heap
  bloomFilters : List (F × String)
  biggestKeyIndex : List (String × Key)
  sstables : List SSTable
  config : Config
  flushSends : List (TableId × InMemoryTable F)
  buckets : List (String × Bucket) := []

namespace StorageEngine

variable {F : Type} [BloomFilter F]

/-- Every memtable the engine holds: the active one, the sealed ones of
`read_only_memtables`, and those handed to the flush channel. -/
def memtables (s : StorageEngine F) : List (InMemoryTable F) :=
  s.activeMemtable :: (s.readOnlyMemtables.map Prod.snd ++ s.flushSends.map Prod.snd)

/-! ### The SSTable side of `get`, modelled from the spec -/

/-- Modelled from the spec: `TableBiggestKeys::filter_sstables_by_biggest_key`, the tables
whose biggest key is not below `key` (§4.4). -/
def filterSstablesByBiggestKey (index : List (String × Key)) (key : Key) : List String :=
  (index.filter fun e => !keyLt e.2 key).map Prod.fst

/-- Modelled from the spec: `BloomFilter::bloom_filters_within_key_range`, the filters of
the given tables. -/
def bloomFiltersWithinKeyRange (bfs : List (F × String)) (paths : List String) :
    List (F × String) :=
  bfs.filter fun b => decide (b.2 ∈ paths)

/-- Modelled from the spec: `BloomFilter::sstables_within_key_range`, the tables whose
filter accepts `key`, `None` when none does. -/
def sstablesWithinKeyRange (bfs : List (F × String)) (key : Key) : Option (List String) :=
  match (bfs.filter fun b => BloomFilter.contains b.1 key).map Prod.snd with
  | [] => none
  | paths => some paths

/-- Modelled from the spec: `SparseIndex::get` followed by `SSTable::get`, the record of
`key` in the table with data file `path` (§4.3). -/
def sstGet (sstables : List SSTable) (path : String) (key : Key) : Option SkipMapValue :=
  (sstables.find? fun t => t.dataFilePath = path).bind fun t => t.entries.lookup key

/-! ### `get` -/

/-- One hit of the scans of step 2 and step 3: the accumulator
`(offset, most_recent_insert_time, is_deleted)` takes the hit only when its `created_at`
is strictly larger. -/
def scanStep (acc : Nat × Nat × Bool) : Option SkipMapValue → Nat × Nat × Bool
  | some (valueOffset, creationDate, isTombstone) =>
    if creationDate > acc.2.1 then (valueOffset, creationDate, isTombstone) else acc
  | none => acc

/-- Step 2: `read_only_memtables` in insertion order, each through its own Bloom filter. -/
def scanReadOnly (heap : Heap) (key : Key) (acc : Nat × Nat × Bool) :
    List (TableId × InMemoryTable F) → Nat × Nat × Bool
  | [] => acc
  | (_, m) :: rest => scanReadOnly heap key (scanStep acc (m.get heap key)) rest

/-- Step 3: the SSTables whose biggest key and Bloom filter admit `key`. -/
def searchSstables (s : StorageEngine F) (key : Key) (acc : Nat × Nat × Bool) :
    Outcome (Nat × Nat × Bool) :=
  let sstablesWithinRange := filterSstablesByBiggestKey s.biggestKeyIndex key
  if sstablesWithinRange.isEmpty then .err .keyNotFoundInAnySSTableError
  else
    let bfs := bloomFiltersWithinKeyRange s.bloomFilters sstablesWithinRange
    if bfs.isEmpty then .err .keyNotFoundByAnyBloomFilterError
    else
      match sstablesWithinKeyRange bfs key with
      | none => .err .keyNotFoundInAnySSTableError
      | some paths =>
        let acc := paths.foldl (fun acc p => scanStep acc (sstGet s.sstables p key)) acc
        if acc.2.1 > 0 && acc.2.2 then .err .keyFoundAsTombstoneInSSTableError else .ok acc

/-- Step 5: the value at `offset` in the value log, when a record was found. -/
def readValue (s : StorageEngine F) (offset mostRecentInsertTime : Nat) : Outcome (Key × Nat) :=
  if mostRecentInsertTime > 0 then
    match s.valLog.get offset with
    | some (v, isTombstone) =>
      if isTombstone then .err .keyFoundAsTombstoneInValueLogError else .ok (v, mostRecentInsertTime)
    | none => .err .keyNotFoundInValueLogError
  else .err .notFoundInDB

/-- `StorageEngine::get`. -/
def get (s : StorageEngine F) (key : Key) : Outcome (Key × Nat) :=
  match s.activeMemtable.get s.heap key with
  | some (valueOffset, creationDate, isTombstone) =>
    if isTombstone then .err .keyFoundAsTombstoneInMemtableError
    else readValue s valueOffset creationDate
  | none =>
    let acc := scanReadOnly s.heap key (0, 0, false) s.readOnlyMemtables
    if acc.2.1 > 0 && acc.2.2 then .err .keyFoundAsTombstoneInMemtableError
    else if acc.2.1 = 0 then
      match searchSstables s key acc with
      | .ok acc => readValue s acc.1 acc.2.1
      | .err e => .err e
      | .panic p => .panic p
    else readValue s acc.1 acc.2.1

/-! ### `get` never panics -/

omit [BloomFilter F] in
theorem readValue_panicSite (s : StorageEngine F) (offset mostRecentInsertTime : Nat) :
    (s.readValue offset mostRecentInsertTime).panicSite = none := by
  unfold readValue
  split
  · split
    · split <;> rfl
    · rfl
  · rfl

theorem searchSstables_panicSite (s : StorageEngine F) (key : Key) (acc : Nat × Nat × Bool) :
    (s.searchSstables key acc).panicSite = none := by
  unfold searchSstables
  dsimp only
  split
  · rfl
  · split
    · rfl
    · split
      · rfl
      · split <;> rfl

theorem get_panicSite (s : StorageEngine F) (key : Key) : (s.get key).panicSite = none := by
  unfold get
  dsimp only
  split
  · split
    · rfl
    · exact readValue_panicSite _ _ _
  · split
    · rfl
    · split
      · have := searchSstables_panicSite s key (scanReadOnly s.heap key (0, 0, false) s.readOnlyMemtables)
        split
        · exact readValue_panicSite _ _ _
        · rfl
        · rename_i hp
          rw [hp] at this
          cases this
      · exact readValue_panicSite _ _ _

end StorageEngine

end LsmEngine
