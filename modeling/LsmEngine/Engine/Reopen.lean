import LsmEngine.Engine.WriteSpec

/-!
# What reopening a directory can end in

The bucket walk never gets past its first bucket: the loop over `sstable_stream` runs at
most once and keeps at most one file, so `sst_files.len() < 2` always holds and every
bucket directory ends the walk with `InvalidSSTableDirectoryError`, or with a panic when its
`sstable_{timestamp}` listing is empty (`walkBucket_not_ok`).  The indexing of `sst_files`
and the unwrap of `SSTable::from_file` are never reached.  So a directory that holds a
bucket cannot be reopened (`withCapacityAndRate_not_ok_of_bucket`).

A directory without buckets is replayed from offset 0, and the replay is unwrapped for its
first sealed memtable.  A log too short to fill one memtable leaves none, and the open
panics: reopening the directory of a fresh engine panics or fails
(`reopen_fresh_engine_fails`), and so do short logs and empty SSTable listings
(`open_panics_on_short_log_or_empty_listing`).
-/

namespace LsmEngine

namespace StorageEngine

variable {F : Type} [BloomFilter F]

theorem collectSstFiles_length_le {l : Option (List DirEntry)} {fs : List String}
    (h : collectSstFiles l = .ok fs) : fs.length ≤ 1 := by
  match l, h with
  | none, h => cases h; simp
  | some (e :: _), h => cases h; split <;> simp

/-- **No bucket directory gets past the walk.**  Whatever the disk and the bucket, the
walk's body returns an error or panics; it panics only at an empty `sstable_{timestamp}`
listing. -/
theorem walkBucket_not_ok (disk : Disk) (rate : F64) (st : WalkState F) (dir : BucketDir) :
    (∀ st', walkBucket disk rate st dir ≠ .ok st') ∧
      ∀ p, walkBucket disk rate st dir = .panic p → p = .sstableDirEntryUnwrap := by
  unfold walkBucket
  cases hc : collectSstFiles dir.sstableListing with
  | ok fs =>
    have hlt : (fs.insertionSort fun a b => lexLt Char.toNat b.toList a.toList = false).length < 2 := by
      rw [List.length_insertionSort]; have := collectSstFiles_length_le hc; omega
    simp only [Outcome.ok_bind, if_pos hlt]
    exact ⟨fun _ h => Outcome.noConfusion h, fun _ h => Outcome.noConfusion h⟩
  | err e => simp
  | panic p =>
    simp only [Outcome.panic_bind, Outcome.panic.injEq]
    refine ⟨fun _ h => Outcome.noConfusion h, fun q hq => ?_⟩
    subst hq
    match hl : dir.sstableListing, hc with
    | some [], hc => cases hc; rfl
    | none, hc => cases hc
    | some (_ :: _), hc => cases hc

theorem walkBuckets_cons_not_ok (disk : Disk) (rate : F64) (st : WalkState F) (dir : BucketDir)
    (dirs : List BucketDir) (st' : WalkState F) : walkBuckets disk rate st (dir :: dirs) ≠ .ok st' := by
  intro h
  obtain ⟨w, hw, -⟩ := Outcome.bind_eq_ok.1 h
  exact (walkBucket_not_ok disk rate st dir).1 w hw

/-- **A directory with a bucket does not reopen.**  When the value log has a record and
`buckets/` lists a directory, `with_capacity_and_rate` does not return `Ok`. -/
theorem withCapacityAndRate_not_ok_of_bucket (disk : Disk) (sizeUnit : SizeUnit) (capacity : Nat)
    (config : Config) (createdAt : Nat) (draw : Nat → TableId) (hlog : disk.valLog.isEmpty = false)
    {dir : BucketDir} {dirs : List BucketDir} (hb : disk.buckets = some (dir :: dirs))
    (s : StorageEngine F) : withCapacityAndRate disk sizeUnit capacity config createdAt draw ≠ .ok s := by
  unfold withCapacityAndRate openRecover
  rw [hlog, hb]
  simp only [Bool.false_eq_true, if_false]
  cases hw : walkBuckets (F := F) disk config.falsePositiveRate ⟨[], [], (0, 0), (0, 0)⟩ (dir :: dirs) with
  | ok w => exact absurd hw (walkBuckets_cons_not_ok _ _ _ _ _ _)
  | err e => simp
  | panic p => simp

/-- A bucket directory of the engine, by the spec's naming: `buckets/bucket<UUID>`. -/
def sampleBucketPath : String := "buckets/bucket0b8c2a5e-1f3d-4c6b-9a7e-5d4c3b2a1f0e"

/-- The directory a fresh engine leaves, reopened: with `buckets/` present and empty the
open panics unwrapping the first sealed memtable of the replay, and without it the open
fails.  With any bucket directory beside its log, whatever the open's arguments, it does
not return `Ok` either. -/
theorem reopen_fresh_engine_fails :
    ∃ s₀, roomyEngine = .ok s₀ ∧
      withCapacityAndRate (F := ExactFilter) ⟨s₀.valLog.records, some [], []⟩ .bytes 1024
          smallConfig 2 (fun n => [n.toUInt8]) = .panic .recoveredReadOnlyUnwrap ∧
      withCapacityAndRate (F := ExactFilter) ⟨s₀.valLog.records, none, []⟩ .bytes 1024
          smallConfig 2 (fun n => [n.toUInt8]) = .err (.bucketDirectoryOpenError bucketsDirectoryName) ∧
      ∀ (dir : BucketDir) (dirs : List BucketDir) (sstables : List SSTable) (sizeUnit : SizeUnit)
        (capacity : Nat) (config : Config) (createdAt : Nat) (draw : Nat → TableId)
        (s : StorageEngine ExactFilter),
        withCapacityAndRate ⟨s₀.valLog.records, some (dir :: dirs), sstables⟩ sizeUnit capacity
          config createdAt draw ≠ .ok s :=
  (fun hs => ⟨_, hs, rfl, rfl, fun _ _ _ sizeUnit capacity config createdAt draw s =>
    withCapacityAndRate_not_ok_of_bucket _ sizeUnit capacity config createdAt draw (by rfl) rfl s⟩)
    rfl

/-- Two directories `with_capacity_and_rate` panics on: a log holding one `TAIL` and one
`HEAD` record with no bucket, and the same log with a bucket whose `sstable_{timestamp}`
directory is empty. -/
theorem open_panics_on_short_log_or_empty_listing :
    withCapacityAndRate (F := ExactFilter)
        ⟨[⟨tailEntryKey, [], 1, false⟩, ⟨headEntryKey, [], 1, false⟩], some [], []⟩
        .bytes 1024 smallConfig 2 (fun n => [n.toUInt8]) = .panic .recoveredReadOnlyUnwrap ∧
    withCapacityAndRate (F := ExactFilter)
        ⟨[⟨tailEntryKey, [], 1, false⟩, ⟨headEntryKey, [], 1, false⟩],
          some [⟨sampleBucketPath, some []⟩], []⟩
        .bytes 1024 smallConfig 2 (fun n => [n.toUInt8]) = .panic .sstableDirEntryUnwrap :=
  ⟨rfl, rfl⟩

end StorageEngine

end LsmEngine
