import LsmEngine.Engine.Run

/-!
# Flushing every memtable: `flush_all_memtables`

`src/storage_engine/storage.rs`, lines 809 to 865.  `flush_memtable` writes a memtable to
an SSTable in the bucket `insert_to_appropriate_bucket` picks.  It pushes the memtable's
Bloom filter onto `bloom_filters` under the SSTable's path (`registerSstable`).  Only then
does it ask the memtable for its biggest key, which goes into `biggest_key_index`.
`flush_all_memtables` flushes the active memtable and then every sealed one, returning at
the first error.  It then sorts `bloom_filters` by the hotness of their paths, clears the
active memtable and empties `read_only_memtables` (`finishFlushAll`).

The engine is `&mut self`, so a flush that fails leaves the engine with every step before
the failing `?` done.  `find_biggest_key` fails exactly on an empty skip map
(`InMemoryTable.findBiggestKey_cases`), and by then the SSTable is in a bucket and the
filter in `bloom_filters`.  So a flush fails exactly for an empty memtable, and leaves both
registered with no entry in `biggest_key_index` (`flushMemtable_of_empty`).  A
`flush_all_memtables` succeeds exactly when every memtable it flushes holds a key
(`flushAllMemtables_eq`).  It then leaves the active memtable empty, so the next call fails
in that way (`flush_all_twice_fails`).  No flush touches a memtable, the heap or the config
(`KeepsMemtables`).
-/

namespace LsmEngine

/-! ### The bucket map, modelled from the spec -/

namespace Bucket

/-- Modelled from the spec: a bucket takes an SSTable of `size` bytes when `size` lies
between half and one and a half times the bucket's average (§4.5, step 2, `low = 0.5` and
`high = 1.5`). -/
def fits (b : Bucket) (size : Nat) : Bool :=
  decide (b.averageSize ≤ 2 * size ∧ 2 * size ≤ 3 * b.averageSize)

/-- Modelled from the spec: the bucket after it takes the SSTable of `size` bytes at `path`,
with its average recomputed (§4.5, steps 3 and 4). -/
def add (b : Bucket) (size : Nat) (path : String) : Bucket :=
  ⟨(b.averageSize * b.sstables.length + size) / (b.sstables.length + 1), b.sstables ++ [path]⟩

end Bucket

/-- Modelled from the spec: `BucketMap::insert_to_appropriate_bucket` (§4.5).  The candidate
SSTable has the memtable's `size`.  The first bucket it fits takes it, and otherwise a new
bucket with id `bucketId` does; the SSTable is written at `sstablePath`.  The spec names
`FailedToInsertToBucket` without saying when it is returned; the model never returns it. -/
def insertToAppropriateBucket (buckets : List (String × Bucket)) (size : Nat)
    (bucketId sstablePath : String) : List (String × Bucket) :=
  match buckets.find? (·.2.fits size) with
  | some (id, b) => indexMapInsert buckets id (b.add size sstablePath)
  | none => indexMapInsert buckets bucketId ((⟨0, []⟩ : Bucket).add size sstablePath)

/-- Some bucket of the map holds the SSTable at `path`. -/
def HoldsSstable (buckets : List (String × Bucket)) (path : String) : Prop :=
  ∃ p ∈ buckets, path ∈ p.2.sstables

theorem holdsSstable_insertToAppropriateBucket (buckets : List (String × Bucket)) (size : Nat)
    (bucketId sstablePath : String) :
    HoldsSstable (insertToAppropriateBucket buckets size bucketId sstablePath) sstablePath := by
  unfold insertToAppropriateBucket
  split <;> exact ⟨_, mem_indexMapInsert_self _ _ _, by simp [Bucket.add]⟩

/-- What one `flush_all_memtables` call draws for its `n`-th flush: the id a new bucket would
get and the path of the SSTable written.  `hotness` is the hotness each SSTable path
carries, which the sort of `bloom_filters` reads; the model's paths are strings, so it is an
input as well, and `flush_memtable`'s own `hotness` argument is folded into it. -/
structure FlushDraws where
  bucketId : Nat → String
  sstablePath : Nat → String
  hotness : String → Nat

namespace StorageEngine

variable {F : Type}

/-! ### `flush_memtable` -/

/-- The first two steps of `flush_memtable`: the SSTable goes into a bucket and onto disk,
and the memtable's filter, with the SSTable's path, onto `bloom_filters`. -/
@[simps]
def registerSstable (s : StorageEngine F) (memtable : InMemoryTable F)
    (bucketId sstablePath : String) : StorageEngine F :=
  { s with
    buckets := insertToAppropriateBucket s.buckets memtable.size bucketId sstablePath
    sstables := s.sstables ++ [⟨sstablePath, s.heap.cells memtable.index⟩]
    bloomFilters := s.bloomFilters ++ [(memtable.bloomFilter, sstablePath)] }

/-- The last step of `flush_memtable`: `biggest_key_index.set(path, biggest_key)`. -/
def recordBiggestKey (s : StorageEngine F) (sstablePath : String) (biggestKey : Key) :
    StorageEngine F :=
  { s with biggestKeyIndex := indexMapInsert s.biggestKeyIndex sstablePath biggestKey }

/-- `StorageEngine::flush_memtable` (lines 840 to 865): register the SSTable, then
`find_biggest_key()?`, then `biggest_key_index.set`.  `find_biggest_key` reads the skip map,
which registering leaves alone; every branch returns the engine with the SSTable
registered, together with the result. -/
def flushMemtable (s : StorageEngine F) (memtable : InMemoryTable F)
    (bucketId sstablePath : String) : StorageEngine F × Outcome Unit :=
  match InMemoryTable.findBiggestKey s.heap memtable with
  | .ok biggestKey =>
    ((s.registerSstable memtable bucketId sstablePath).recordBiggestKey sstablePath biggestKey,
      .ok ())
  | .err e => (s.registerSstable memtable bucketId sstablePath, .err e)
  | .panic p => (s.registerSstable memtable bucketId sstablePath, .panic p)

/-- `for memtable in read_only_memtables { self.flush_memtable(&memtable, hotness).await?; }`,
the `n`-th flush of the call taking the `n`-th draws. -/
def flushMemtables (draws : FlushDraws) :
    StorageEngine F → Nat → List (InMemoryTable F) → StorageEngine F × Outcome Unit
  | s, _, [] => (s, .ok ())
  | s, n, m :: ms =>
    match s.flushMemtable m (draws.bucketId n) (draws.sstablePath n) with
    | (s, .ok _) => flushMemtables draws s (n + 1) ms
    | r => r

/-- A flush leaves the memtables, the heap, the value log and the config as they were. -/
structure KeepsMemtables (s s' : StorageEngine F) : Prop where
  active : s'.activeMemtable = s.activeMemtable
  readOnly : s'.readOnlyMemtables = s.readOnlyMemtables
  heap : s'.heap = s.heap
  valLog : s'.valLog = s.valLog
  flushSends : s'.flushSends = s.flushSends
  config : s'.config = s.config

theorem KeepsMemtables.refl (s : StorageEngine F) : KeepsMemtables s s :=
  ⟨rfl, rfl, rfl, rfl, rfl, rfl⟩

theorem KeepsMemtables.trans {s₁ s₂ s₃ : StorageEngine F} (h₁ : KeepsMemtables s₁ s₂)
    (h₂ : KeepsMemtables s₂ s₃) : KeepsMemtables s₁ s₃ :=
  ⟨h₂.active.trans h₁.active, h₂.readOnly.trans h₁.readOnly, h₂.heap.trans h₁.heap,
    h₂.valLog.trans h₁.valLog, h₂.flushSends.trans h₁.flushSends, h₂.config.trans h₁.config⟩

theorem keepsMemtables_registerSstable (s : StorageEngine F) (m : InMemoryTable F)
    (bucketId sstablePath : String) : KeepsMemtables s (s.registerSstable m bucketId sstablePath) :=
  ⟨rfl, rfl, rfl, rfl, rfl, rfl⟩

theorem keepsMemtables_recordBiggestKey (s : StorageEngine F) (sstablePath : String) (k : Key) :
    KeepsMemtables s (s.recordBiggestKey sstablePath k) :=
  ⟨rfl, rfl, rfl, rfl, rfl, rfl⟩

section Flush

variable (s : StorageEngine F) (m : InMemoryTable F) (bucketId sstablePath : String)

/-- **What `flush_memtable` does.**  The SSTable and the filter are registered either way.
An empty memtable then fails with `BiggestKeyIndexError`; any other has its biggest key
recorded under the SSTable's path. -/
theorem flushMemtable_eq :
    (s.heap.cells m.index = ∅ ∧ s.flushMemtable m bucketId sstablePath =
        (s.registerSstable m bucketId sstablePath, .err .biggestKeyIndexError)) ∨
      (s.heap.cells m.index ≠ ∅ ∧ ∃ k, s.flushMemtable m bucketId sstablePath =
        ((s.registerSstable m bucketId sstablePath).recordBiggestKey sstablePath k, .ok ())) := by
  unfold flushMemtable
  rcases InMemoryTable.findBiggestKey_cases s.heap m with ⟨he, hf⟩ | ⟨hn, k, hk⟩
  · exact .inl ⟨he, by rw [hf]⟩
  · exact .inr ⟨hn, k, by rw [hk]⟩

/-- **A failing flush has already written.**  For every engine and every memtable whose skip
map is empty, `flush_memtable` returns `BiggestKeyIndexError`.  By then a bucket holds the
SSTable and `bloom_filters` ends with the memtable's filter, while `biggest_key_index` is as
it was. -/
theorem flushMemtable_of_empty (hm : s.heap.cells m.index = ∅) :
    (s.flushMemtable m bucketId sstablePath).2 = .err .biggestKeyIndexError ∧
      HoldsSstable (s.flushMemtable m bucketId sstablePath).1.buckets sstablePath ∧
      (s.flushMemtable m bucketId sstablePath).1.bloomFilters =
        s.bloomFilters ++ [(m.bloomFilter, sstablePath)] ∧
      (s.flushMemtable m bucketId sstablePath).1.biggestKeyIndex = s.biggestKeyIndex := by
  rcases flushMemtable_eq s m bucketId sstablePath with ⟨-, hf⟩ | ⟨hn, -⟩
  · rw [hf]
    exact ⟨rfl, holdsSstable_insertToAppropriateBucket _ _ _ _, rfl, rfl⟩
  · exact absurd hm hn

end Flush

/-! ### The loop over the sealed memtables -/

section Loop

variable {draws : FlushDraws} {s s' : StorageEngine F} {n : Nat} {m : InMemoryTable F}
  {ms : List (InMemoryTable F)}

theorem flushMemtables_cons_ok
    (h : s.flushMemtable m (draws.bucketId n) (draws.sstablePath n) = (s', .ok ())) :
    flushMemtables draws s n (m :: ms) = flushMemtables draws s' (n + 1) ms := by
  rw [flushMemtables, h]

theorem flushMemtables_cons_err {e : StorageEngineError}
    (h : s.flushMemtable m (draws.bucketId n) (draws.sstablePath n) = (s', .err e)) :
    flushMemtables draws s n (m :: ms) = (s', .err e) := by
  rw [flushMemtables, h]

end Loop

/-- The loop flushes every memtable it is given, or stops at the first empty one with
`BiggestKeyIndexError`; it leaves the memtables alone either way. -/
theorem flushMemtables_spec (draws : FlushDraws) :
    ∀ (s : StorageEngine F) (n : Nat) (ms : List (InMemoryTable F)),
      KeepsMemtables s (flushMemtables draws s n ms).1 ∧
        ((∀ m ∈ ms, s.heap.cells m.index ≠ ∅) ∧ (flushMemtables draws s n ms).2 = .ok () ∨
          (∃ m ∈ ms, s.heap.cells m.index = ∅) ∧
            (flushMemtables draws s n ms).2 = .err .biggestKeyIndexError)
  | s, _, [] => ⟨.refl s, .inl ⟨(fun _ h => nomatch h), rfl⟩⟩
  | s, n, m :: ms => by
    rcases flushMemtable_eq s m (draws.bucketId n) (draws.sstablePath n) with
      ⟨he, hf⟩ | ⟨hn, k, hf⟩
    · rw [flushMemtables_cons_err hf]
      exact ⟨keepsMemtables_registerSstable _ _ _ _,
        .inr ⟨⟨m, List.mem_cons_self _ _, he⟩, rfl⟩⟩
    · rw [flushMemtables_cons_ok hf]
      obtain ⟨hk, hrest⟩ := flushMemtables_spec draws _ (n + 1) ms
      refine ⟨((keepsMemtables_registerSstable _ _ _ _).trans
        (keepsMemtables_recordBiggestKey _ _ _)).trans hk, ?_⟩
      rcases hrest with ⟨hall, hok⟩ | ⟨⟨m', hm', he⟩, herr⟩
      · exact .inl ⟨List.forall_mem_cons.2 ⟨hn, hall⟩, hok⟩
      · exact .inr ⟨⟨m', List.mem_cons_of_mem _ hm', he⟩, herr⟩

/-! ### `flush_all_memtables` -/

variable [BloomFilter F]

/-- The end of `flush_all_memtables`: `bloom_filters` sorted by `sort_by`, hottest first and
stable, the active memtable cleared, `read_only_memtables` a new `IndexMap`. -/
def finishFlushAll (s : StorageEngine F) (hotness : String → Nat) : StorageEngine F :=
  let cleared := InMemoryTable.clear s.heap s.activeMemtable
  { s with bloomFilters := s.bloomFilters.mergeSort fun a b => decide (hotness b.2 ≤ hotness a.2)
           heap := cleared.1, activeMemtable := cleared.2, readOnlyMemtables := [] }

/-- `StorageEngine::flush_all_memtables` (lines 809 to 838): the active memtable, then a
snapshot of `read_only_memtables`, each flush with `?`, then `finishFlushAll`. -/
def flushAllMemtables (s : StorageEngine F) (draws : FlushDraws) :
    StorageEngine F × Outcome Unit :=
  match s.flushMemtable s.activeMemtable (draws.bucketId 0) (draws.sstablePath 0) with
  | (s, .ok _) =>
    match flushMemtables draws s 1 (s.readOnlyMemtables.map Prod.snd) with
    | (s, .ok _) => (s.finishFlushAll draws.hotness, .ok ())
    | r => r
  | r => r

section FlushAll

variable {s s₁ s₂ : StorageEngine F} {draws : FlushDraws} {e : StorageEngineError}

theorem flushAllMemtables_of_first_err
    (h : s.flushMemtable s.activeMemtable (draws.bucketId 0) (draws.sstablePath 0) = (s₁, .err e)) :
    s.flushAllMemtables draws = (s₁, .err e) := by
  rw [flushAllMemtables, h]

theorem flushAllMemtables_of_rest
    (h : s.flushMemtable s.activeMemtable (draws.bucketId 0) (draws.sstablePath 0) = (s₁, .ok ())) :
    s.flushAllMemtables draws =
      match flushMemtables draws s₁ 1 (s₁.readOnlyMemtables.map Prod.snd) with
      | (s, .ok _) => (s.finishFlushAll draws.hotness, .ok ())
      | r => r := by
  rw [flushAllMemtables, h]

end FlushAll

/-- Every memtable `flush_all_memtables` flushes holds a key. -/
def MemtablesNonempty (s : StorageEngine F) : Prop :=
  s.heap.cells s.activeMemtable.index ≠ ∅ ∧ ∀ p ∈ s.readOnlyMemtables, s.heap.cells p.2.index ≠ ∅

/-- **What `flush_all_memtables` does.**  When every memtable holds a key, all flushes
succeed and the call ends in `finishFlushAll`; otherwise it returns `BiggestKeyIndexError`
with the engine of the failing flush.  The flushes leave the memtables alone. -/
theorem flushAllMemtables_eq (s : StorageEngine F) (draws : FlushDraws) :
    ∃ s₁, KeepsMemtables s s₁ ∧
      (s.MemtablesNonempty ∧ s.flushAllMemtables draws = (s₁.finishFlushAll draws.hotness, .ok ()) ∨
        ¬ s.MemtablesNonempty ∧ s.flushAllMemtables draws = (s₁, .err .biggestKeyIndexError)) := by
  rcases flushMemtable_eq s s.activeMemtable (draws.bucketId 0) (draws.sstablePath 0) with
    ⟨he, hf⟩ | ⟨hn, k, hf⟩
  · exact ⟨_, keepsMemtables_registerSstable _ _ _ _,
      .inr ⟨fun h => h.1 he, flushAllMemtables_of_first_err hf⟩⟩
  · have h₀ := (keepsMemtables_registerSstable s s.activeMemtable (draws.bucketId 0)
      (draws.sstablePath 0)).trans (keepsMemtables_recordBiggestKey _ (draws.sstablePath 0) k)
    generalize (s.registerSstable s.activeMemtable (draws.bucketId 0)
      (draws.sstablePath 0)).recordBiggestKey (draws.sstablePath 0) k = s₀ at hf h₀
    rw [flushAllMemtables_of_rest hf]
    obtain ⟨hk, hrest⟩ := flushMemtables_spec draws s₀ 1 (s₀.readOnlyMemtables.map Prod.snd)
    refine ⟨_, h₀.trans hk, ?_⟩
    rcases hrest with ⟨hall, hok⟩ | ⟨⟨m, hm, he⟩, herr⟩
    · refine .inl ⟨⟨hn, fun p hp => ?_⟩, ?_⟩
      · rw [← h₀.heap]
        exact hall p.2 (List.mem_map_of_mem _ (h₀.readOnly ▸ hp))
      · rw [← Prod.mk.eta (p := flushMemtables draws s₀ 1 _), hok]
    · obtain ⟨p, hp, rfl⟩ := List.mem_map.1 hm
      refine .inr ⟨fun h => h.2 p (h₀.readOnly ▸ hp) (h₀.heap ▸ he), ?_⟩
      rw [← Prod.mk.eta (p := flushMemtables draws s₀ 1 _), herr]

/-- `finishFlushAll` leaves the active memtable's skip map empty. -/
theorem finishFlushAll_active_empty (s : StorageEngine F) (hotness : String → Nat) :
    (s.finishFlushAll hotness).heap.cells (s.finishFlushAll hotness).activeMemtable.index = ∅ := by
  simp [finishFlushAll]

/-- With an empty active memtable, `flush_all_memtables` is its first flush. -/
theorem flushAllMemtables_of_active_empty {s : StorageEngine F} (draws : FlushDraws)
    (h : s.heap.cells s.activeMemtable.index = ∅) :
    s.flushAllMemtables draws =
      s.flushMemtable s.activeMemtable (draws.bucketId 0) (draws.sstablePath 0) := by
  rcases flushMemtable_eq s s.activeMemtable (draws.bucketId 0) (draws.sstablePath 0) with
    ⟨-, hf⟩ | ⟨hn, -⟩
  · rw [flushAllMemtables_of_first_err hf, hf]
  · exact absurd h hn

/-- **A second `flush_all_memtables` fails after writing.**  After a `flush_all_memtables`
that succeeds, with no write in between, the next one returns `BiggestKeyIndexError`.  Its
first flush has by then put an SSTable into a bucket and the cleared memtable's filter onto
`bloom_filters`, and `biggest_key_index` is as it was. -/
theorem flush_all_twice_fails {s s₁ : StorageEngine F} {draws : FlushDraws}
    (h : s.flushAllMemtables draws = (s₁, .ok ())) (draws' : FlushDraws) :
    ∃ s₂, s₁.flushAllMemtables draws' = (s₂, .err .biggestKeyIndexError) ∧
      HoldsSstable s₂.buckets (draws'.sstablePath 0) ∧
      s₂.bloomFilters = s₁.bloomFilters ++ [(s₁.activeMemtable.bloomFilter, draws'.sstablePath 0)] ∧
      s₂.biggestKeyIndex = s₁.biggestKeyIndex := by
  obtain ⟨s', -, ⟨-, hok⟩ | ⟨-, herr⟩⟩ := flushAllMemtables_eq s draws
  · cases hok.symm.trans h
    have hempty := finishFlushAll_active_empty s' draws.hotness
    obtain ⟨h₁, h₂, h₃, h₄⟩ := flushMemtable_of_empty _ _ (draws'.bucketId 0) (draws'.sstablePath 0)
      hempty
    rw [flushAllMemtables_of_active_empty draws' hempty, ← h₁]
    exact ⟨_, rfl, h₂, h₃, h₄⟩
  · cases herr.symm.trans h

/-- The draws of two `flush_all_memtables` calls: bucket ids and SSTable paths of their own,
and every path at hotness `1`, the hotness `flush_all_memtables` flushes with. -/
def firstFlushDraws : FlushDraws :=
  ⟨fun _ => "bucket-1", fun n => "sstable_1_" ++ toString n, fun _ => 1⟩

def secondFlushDraws : FlushDraws :=
  ⟨fun _ => "bucket-2", fun n => "sstable_2_" ++ toString n, fun _ => 1⟩

/-- An engine opened on an empty directory, `flush_all_memtables`, and
`flush_all_memtables` again. -/
theorem second_flush_all_leaves_sstable_without_biggest_key :
    ∃ s s₁ s₂, openEmpty (F := ExactFilter) .bytes 1024 ⟨⟨0x3F847AE147AE147B⟩, 3⟩ 1 = .ok s ∧
      s.flushAllMemtables firstFlushDraws = (s₁, .ok ()) ∧
      s₁.flushAllMemtables secondFlushDraws = (s₂, .err .biggestKeyIndexError) ∧
      s₂.bloomFilters = s₁.bloomFilters ++ [(s₁.activeMemtable.bloomFilter, "sstable_2_0")] ∧
      HoldsSstable s₂.buckets "sstable_2_0" ∧ "sstable_2_0" ∉ s₂.biggestKeyIndex.map Prod.fst :=
  (fun hs => (fun hok => (flush_all_twice_fails hok secondFlushDraws).elim
    fun s₂ h => ⟨_, _, s₂, hs, hok, h.1, h.2.2.1, h.2.1, h.2.2.2 ▸ by decide⟩) rfl) rfl

end StorageEngine

end LsmEngine
