import LsmEngine.Engine.Write
import Mathlib.Data.List.Sort

/-!
# Opening an engine: `with_capacity_and_rate` and `recover_memtable`

`src/storage_engine/storage.rs`, lines 462 to 807.  On an empty value log the engine
starts fresh: a new memtable holding the `TAIL` and `HEAD` sentinels, both also appended
to the log.  Otherwise it walks the bucket directories to rebuild the SSTable tier and to
find the newest `HEAD`, replays the value log from that head into memtables
(`recoverMemtable`), and unwraps the first sealed memtable of the replay for the flusher.

The directory walk is the code's: for each bucket it reads the `sstable_{timestamp}`
subdirectory through `for mut entry in sstable_stream.into_iter()`, which iterates over
the `Result` of `read_dir`, so at most once, and takes the first entry of the listing with
`next_entry().await.unwrap().unwrap()`.  The SSTable side it would go on to
(`SSTable::from_file`, `Bucket::new_with_id_dir_average_and_sstables`, the UUID parser) is
not among the sources and is modelled from the spec.  The directory the engine opens is a
`Disk`: the value-log records, the listing of `buckets/`, and the SSTable data files.
-/

namespace LsmEngine

/-- One entry of a directory listing: its path and `path.is_file()`. -/
structure DirEntry where
  path : String
  isFile : Bool

/-- A directory under `buckets/`: its path, and what `read_dir` gives on its
`sstable_{timestamp}` subdirectory, `none` when it fails. -/
structure BucketDir where
  path : String
  sstableListing : Option (List DirEntry)

/-- What `with_capacity_and_rate` reads: the records of `v_log.bin` (none when it is
missing or empty), the listing of `buckets/` (`none` when `read_dir` fails on it), and the
SSTable data files. -/
structure Disk where
  valLog : List ValueLogEntry
  buckets : Option (List BucketDir)
  sstables : List SSTable

/-- The path `buckets_path` the errors name. -/
def bucketsDirectoryName : String := "buckets"

/-! ### Parsing a bucket id -/

/-- `str::rfind(pat)`: where the last occurrence of `pat` in `s` starts. -/
def rfind (s pat : List Char) : Option Nat :=
  ((List.range (s.length + 1)).filter fun i => (s.drop i).take pat.length = pat).getLast?

/-- The text `"bucket"` the parser looks for. -/
def bucketWord : List Char := ['b', 'u', 'c', 'k', 'e', 't']

/-- `StorageEngine::get_bucket_id_from_full_bucket_path`: the text between the last
`"bucket"` and the next `'/'`, or the empty string. -/
def getBucketIdFromFullBucketPath (fullPath : String) : String :=
  match rfind fullPath.toList bucketWord with
  | none => ""
  | some idx =>
    let uuidPart := fullPath.toList.drop (idx + bucketWord.length)
    match uuidPart.findIdx? (· = '/') with
    | some endIdx => String.mk (uuidPart.take endIdx)
    | none => ""

/-- A hexadecimal digit of either case, one that the `uuid` crate's `HEX_TABLE` maps to a
nibble. -/
def isHexDigit (c : Char) : Bool := c.isDigit || ('a' ≤ c && c ≤ 'f') || ('A' ≤ c && c ≤ 'F')

/-- The digit in lower case. -/
def hexLower (c : Char) : Char := if 'A' ≤ c && c ≤ 'F' then Char.ofNat (c.toNat + 32) else c

/-- The UUID that digits in the groups 8-4-4-4-12 stand for, given by the text of its
`Display`: the groups in lower case, joined by hyphens. -/
def uuidText (groups : List (List Char)) : String :=
  String.mk (['-'].intercalate (groups.map (·.map hexLower)))

/-- Modelled from the `uuid` crate: `parse_hyphenated`, 36 characters with hyphens at 8, 13,
18 and 23 and hexadecimal digits elsewhere, that is, groups of 8, 4, 4, 4 and 12 digits
between hyphens. -/
def parseHyphenated (cs : List Char) : Option String :=
  let groups := cs.splitOn '-'
  if groups.map List.length = [8, 4, 4, 4, 12] ∧ groups.all (·.all isHexDigit) then
    some (uuidText groups)
  else none

/-- Modelled from the `uuid` crate: `parse_simple`, 32 hexadecimal digits. -/
def parseSimple (cs : List Char) : Option String :=
  if cs.length = 32 ∧ cs.all isHexDigit then
    some (uuidText [cs.take 8, (cs.drop 8).take 4, (cs.drop 12).take 4, (cs.drop 16).take 4,
      cs.drop 20])
  else none

/-- The prefix of the URN form. -/
def urnPrefix : List Char := "urn:uuid:".toList

/-- Modelled from the `uuid` crate (version 1): `Uuid::parse_str`, whose `try_parse` takes,
by the input's length, the simple form of 32 digits, the hyphenated form, and the hyphenated
form between braces or after `urn:uuid:`.  The crate reads UTF-8 bytes; every form is ASCII
and a non-ASCII character fails every check, so counting characters accepts the same
strings. -/
def parseUuid (s : String) : Option String :=
  let cs := s.toList
  if cs.length = 32 then parseSimple cs
  else if cs.length = 36 then parseHyphenated cs
  else if cs.length = 38 ∧ cs.head? = some '\x7b' ∧ cs.getLast? = some '\x7d' then
    parseHyphenated (cs.drop 1).dropLast
  else if cs.length = 45 ∧ cs.take 9 = urnPrefix then parseHyphenated (cs.drop 9)
  else none

example : parseUuid "0B8C2A5E1F3D4C6B9A7E5D4C3B2A1F0E" = some "0b8c2a5e-1f3d-4c6b-9a7e-5d4c3b2a1f0e" := by
  decide

example : parseUuid "\x7b0b8c2a5e-1f3d-4c6b-9a7e-5d4c3b2a1f0e\x7d" =
    parseUuid "urn:uuid:0b8c2a5e-1f3d-4c6b-9a7e-5d4c3b2a1f0e" := by
  decide

namespace StorageEngine

variable {F : Type} [BloomFilter F]

/-! ### `recover_memtable` -/

/-- The loop state of `recover_memtable`: the heap, `active_memtable`,
`read_only_memtables`, `most_recent_offset`, and how many table ids were drawn. -/
structure ReplayState (F : Type) where
  heap : Heap
  active : InMemoryTable F
  readOnly : List (TableId × InMemoryTable F)
  offset : Nat
  draws : Nat

/-- One record of the replay, the body of `for e in entries` (lines 772 to 803): every
record but the one at `head_offset` goes into the active memtable, sealed first when full
for the record's key; `most_recent_offset` then moves past the record. -/
def replayStep (sizeUnit : SizeUnit) (capacity : Nat) (rate : F64) (headOffset : Nat)
    (draw : Nat → TableId) (st : ReplayState F) (e : ValueLogEntry) : Outcome (ReplayState F) :=
  let entry : Entry := ⟨e.key, st.offset, e.createdAt, e.isTombstone⟩
  let next := st.offset + sizeOfU32 + sizeOfU32 + sizeOfU64 + sizeOfU8 + e.key.length + e.value.length
  if st.offset ≠ headOffset then
    (if st.active.isFull e.key.length then
      let sealed := { st.active with readOnly := true }
      InMemoryTable.withSpecifiedCapacityAndRate st.heap sizeUnit capacity rate >>= fun r =>
        .ok { st with heap := r.1, active := r.2,
                      readOnly := indexMapInsert st.readOnly (draw st.draws) sealed,
                      draws := st.draws + 1 }
    else .ok st) >>= fun st =>
      .ok { st with heap := (st.active.insert st.heap entry).1,
                    active := (st.active.insert st.heap entry).2, offset := next }
  else .ok { st with offset := next }

/-- The whole loop over the recovered records. -/
def replay (sizeUnit : SizeUnit) (capacity : Nat) (rate : F64) (headOffset : Nat)
    (draw : Nat → TableId) : ReplayState F → List ValueLogEntry → Outcome (ReplayState F)
  | st, [] => .ok st
  | st, e :: es =>
    replayStep sizeUnit capacity rate headOffset draw st e >>= fun st =>
      replay sizeUnit capacity rate headOffset draw st es

/-- `StorageEngine::recover_memtable`: a fresh active memtable, then the replay of
`vlog.recover(head_offset)`.  `draw n` is the `n`-th id `generate_table_id` returns. -/
def recoverMemtable (heap : Heap) (sizeUnit : SizeUnit) (capacity : Nat) (rate : F64)
    (records : List ValueLogEntry) (headOffset : Nat) (draw : Nat → TableId) :
    Outcome (Heap × InMemoryTable F × List (TableId × InMemoryTable F)) :=
  InMemoryTable.withSpecifiedCapacityAndRate heap sizeUnit capacity rate >>= fun r =>
    replay sizeUnit capacity rate headOffset draw ⟨r.1, r.2, [], headOffset, 0⟩
        (recoverFrom records headOffset) >>= fun st =>
      .ok (st.heap, st.active, st.readOnly)

/-! ### The walk over `buckets/` -/

/-- The loop state of the bucket walk: the recovered buckets (id and SSTable paths), the
SSTable filters, and the newest `HEAD` and `TAIL` seen, as `(created_at, offset)`. -/
structure WalkState (F : Type) where
  buckets : List (String × List String)
  bloomFilters : List (F × String)
  head : Nat × Nat
  tail : Nat × Nat

/-- `if let Some((offset, date_created, _)) = entry { if date_created > .. }`. -/
def newerSentinel (best : Nat × Nat) : Option SkipMapValue → Nat × Nat
  | some (offset, dateCreated, _) => if dateCreated > best.1 then (dateCreated, offset) else best
  | none => best

/-- Modelled from the spec: `SSTable::build_bloomfilter_from_sstable`, a filter holding
every key of the table (§4.9, step 4). -/
def buildBloomFilter (rate : F64) (t : SSTable) : F :=
  t.entries.keys.foldl BloomFilter.set (BloomFilter.new rate t.entries.keys.length)

/-- The SSTable files the walk collects from one listing: `read_dir` failing gives none,
an empty listing panics at `next_entry().await.unwrap().unwrap()`, and otherwise the first
entry is kept when it is a file. -/
def collectSstFiles : Option (List DirEntry) → Outcome (List String)
  | none => .ok []
  | some [] => .panic .sstableDirEntryUnwrap
  | some (e :: _) => .ok (if e.isFile then [e.path] else [])

/-- The walk's body for one bucket directory (lines 571 to 679). -/
def walkBucket (disk : Disk) (rate : F64) (st : WalkState F) (dir : BucketDir) :
    Outcome (WalkState F) :=
  let sstablePath := dir.path ++ "/sstable_\x7btimestamp\x7d"
  collectSstFiles dir.sstableListing >>= fun sstFiles =>
  let sstFiles := sstFiles.insertionSort fun a b => lexLt Char.toNat b.toList a.toList = false
  let bucketId := getBucketIdFromFullBucketPath sstablePath
  if sstFiles.length < 2 then .err (.invalidSSTableDirectoryError sstablePath)
  else
    match sstFiles[1]?, sstFiles[0]? with
    | some dataFilePath, some indexFilePath =>
      match parseUuid bucketId with
      | none => .err (.invaidUUIDParseString bucketId)
      | some bucketUuid =>
        let paths := ((st.buckets.lookup bucketUuid).getD []) ++ [indexFilePath]
        let buckets := indexMapInsert st.buckets bucketUuid paths
        match disk.sstables.find? fun t => t.dataFilePath = dataFilePath with
        | none => .panic .sstableFromFileUnwrap
        | some sstable =>
          .ok { buckets := buckets
                bloomFilters := st.bloomFilters ++ [(buildBloomFilter rate sstable, dataFilePath)]
                head := newerSentinel st.head (sstable.entries.lookup headEntryKey)
                tail := newerSentinel st.tail (sstable.entries.lookup tailEntryKey) }
    | _, _ => .panic .sstFilesIndex

/-- The `while let Some(buckets_dir)` loop. -/
def walkBuckets (disk : Disk) (rate : F64) : WalkState F → List BucketDir → Outcome (WalkState F)
  | st, [] => .ok st
  | st, dir :: dirs => walkBucket disk rate st dir >>= fun st => walkBuckets disk rate st dirs

/-! ### `with_capacity_and_rate` -/

/-- The fresh start on an empty value log (lines 481 to 544). -/
def openFresh (disk : Disk) (sizeUnit : SizeUnit) (capacity : Nat) (config : Config)
    (createdAt : Nat) : Outcome (StorageEngine F) :=
  InMemoryTable.withSpecifiedCapacityAndRate Heap.empty sizeUnit capacity config.falsePositiveRate
    >>= fun r =>
  let vlog : ValueLog := ⟨disk.valLog, 0, 0⟩
  let tailOffset := (vlog.append tailEntryKey [] createdAt false).2
  let vlog := (vlog.append tailEntryKey [] createdAt false).1
  let headOffset := (vlog.append headEntryKey [] createdAt false).2
  let vlog := (vlog.append headEntryKey [] createdAt false).1
  let vlog := (vlog.setHead headOffset).setTail tailOffset
  let m1 := r.2.insert r.1 ⟨tailEntryKey, tailOffset, createdAt, false⟩
  let m2 := m1.2.insert m1.1 ⟨headEntryKey, headOffset, createdAt, false⟩
  .ok { activeMemtable := m2.2, readOnlyMemtables := [], valLog := vlog, heap := m2.1,
        bloomFilters := [], biggestKeyIndex := [], sstables := disk.sstables, config := config,
        flushSends := [], buckets := [] }

/-- The recovery on a non-empty value log (lines 546 to 745).  Each recovered bucket enters
the bucket map with the average `0` that `new_with_id_dir_average_and_sstables` is given. -/
def openRecover (disk : Disk) (sizeUnit : SizeUnit) (capacity : Nat) (config : Config)
    (draw : Nat → TableId) : Outcome (StorageEngine F) :=
  match disk.buckets with
  | none => .err (.bucketDirectoryOpenError bucketsDirectoryName)
  | some dirs =>
    walkBuckets disk config.falsePositiveRate ⟨[], [], (0, 0), (0, 0)⟩ dirs >>= fun w =>
    let vlog : ValueLog := (ValueLog.setHead ⟨disk.valLog, 0, 0⟩ w.head.2).setTail w.tail.2
    match recoverMemtable Heap.empty sizeUnit capacity config.falsePositiveRate disk.valLog
        w.head.2 draw with
    | .ok (heap, active, readOnly) =>
      match readOnly.head? with
      | none => .panic .recoveredReadOnlyUnwrap
      | some _ =>
        .ok { activeMemtable := active, readOnlyMemtables := readOnly, valLog := vlog,
              heap := heap, bloomFilters := w.bloomFilters, biggestKeyIndex := [],
              sstables := disk.sstables, config := config, flushSends := [],
              buckets := w.buckets.map fun b => (b.1, ⟨0, b.2⟩) }
    | .err e => .err (.memTableRecoveryError e)
    | .panic p => .panic p

/-- `StorageEngine::with_capacity_and_rate`: `createdAt` is the clock reading of a fresh
start, `draw` the ids of a recovery. -/
def withCapacityAndRate (disk : Disk) (sizeUnit : SizeUnit) (capacity : Nat) (config : Config)
    (createdAt : Nat) (draw : Nat → TableId) : Outcome (StorageEngine F) :=
  if disk.valLog.isEmpty then openFresh disk sizeUnit capacity config createdAt
  else openRecover disk sizeUnit capacity config draw

/-- Modelled from the spec: `BucketMap::clear_all` and `ValueLog::clear_all` are not among
the sources; §4.8 says `clear` truncates the buckets and the value log, so the directory
the engine reopens holds no record and no bucket. -/
def clearedDisk : Disk := ⟨[], some [], []⟩

/-- `StorageEngine::clear`: the active memtable is cleared, the buckets and the value log
are truncated, and the engine is rebuilt with the active memtable's capacity and size unit.
The rebuilt engine is what the call returns. -/
def clear (s : StorageEngine F) (createdAt : Nat) (draw : Nat → TableId) :
    Outcome (StorageEngine F) :=
  let capacity := s.activeMemtable.capacity
  let sizeUnit := s.activeMemtable.sizeUnit
  withCapacityAndRate clearedDisk sizeUnit capacity s.config createdAt draw

end StorageEngine

end LsmEngine
