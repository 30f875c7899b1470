import LsmEngine.Engine.Serves

/-!
# What `get` returns after a run of writes

`StorageEngine::get` (`src/storage_engine/storage.rs`, lines 246 to 360) reads the active
memtable, then scans `read_only_memtables` oldest first keeping a hit only when its
`created_at` is strictly larger, then the SSTables, and reads the value from the log.

Under `Serves`, a key whose last entry a memtable holds is read from that entry
(`Serves.get_of_memtable`): the active memtable holds the last entry of each key it holds,
and the scan of the sealed memtables ends at the last entry, as no hit is newer
(`scanReadOnly_eq_newest`).  A key that no memtable holds is left to the SSTable search
(`get_of_no_memtable`).  Before any SSTable exists that search finds nothing, so `get` is
`expectedGet`, what the last record says (`Serves.get_eq_expectedGet`).

Two things keep `get` from always answering the last write.  The sentinels are ordinary
keys: `get("HEAD")` on a fresh engine returns `Ok`.  And two writes to one key in the same
millisecond that end in two sealed memtables are read back oldest first, since the scan
keeps only a strictly newer hit (`get_misses_latest_write`).  With writes to one key at
strictly increasing times, and table ids that do not repeat, the log is the `TAIL` and
`HEAD` records followed by the records of the calls that returned `Ok`, and every other key
reads back its last write (`get_returns_last_write`).
-/

namespace LsmEngine

namespace StorageEngine

variable {F : Type} [BloomFilter F]

/-! ### The scans of `get` -/

omit [BloomFilter F] in
theorem scanStep_some (acc : Nat × Nat × Bool) (w : SkipMapValue) :
    scanStep acc (some w) = if w.2.1 > acc.2.1 then w else acc := by
  obtain ⟨_, _, _⟩ := w; rfl

/-- A scan whose hits are never newer than `v`, and equal to it when as new, ends at `v`
once it has seen `v`. -/
theorem scanReadOnly_eq_newest {heap : Heap} {key : Key} {v : SkipMapValue} :
    ∀ {l : List (TableId × InMemoryTable F)} {acc : Nat × Nat × Bool},
      (∀ p ∈ l, ∀ w, p.2.get heap key = some w → w.2.1 ≤ v.2.1 ∧ (w.2.1 = v.2.1 → w = v)) →
      acc.2.1 ≤ v.2.1 → (acc.2.1 = v.2.1 → acc = v) →
      (acc = v ∨ ∃ p ∈ l, p.2.get heap key = some v) → scanReadOnly heap key acc l = v
  | [], _, _, _, _, hseen => by simpa using hseen
  | p :: l, acc, hhits, hle, heq, hseen => by
    simp only [scanReadOnly]
    have hrest := fun q hq => hhits q (List.mem_cons_of_mem _ hq)
    -- what the rest of the scan still has to see, once `p` is read
    have hseen' : ∀ acc', (acc = v → acc' = v) → (p.2.get heap key = some v → acc' = v) →
        acc' = v ∨ ∃ q ∈ l, q.2.get heap key = some v := by
      intro acc' hacc hp
      rcases hseen with h | ⟨q, hq, hqv⟩
      · exact .inl (hacc h)
      · rcases List.mem_cons.1 hq with rfl | hq
        · exact .inl (hp hqv)
        · exact .inr ⟨q, hq, hqv⟩
    cases hget : p.2.get heap key with
    | none => exact scanReadOnly_eq_newest hrest hle heq (hseen' acc id fun h => nomatch hget.symm.trans h)
    | some w =>
      obtain ⟨hwle, hweq⟩ := hhits p (List.mem_cons_self _ _) w hget
      rw [scanStep_some]
      split_ifs with hlt
      · refine scanReadOnly_eq_newest hrest hwle hweq (hseen' w ?_ fun h => Option.some.inj (hget.symm.trans h))
        rintro rfl; omega
      · refine scanReadOnly_eq_newest hrest hle heq (hseen' acc id ?_)
        intro hwv
        cases Option.some.inj (hget.symm.trans hwv)
        exact heq (by omega)

theorem scanReadOnly_of_no_hits {heap : Heap} {key : Key} :
    ∀ {l : List (TableId × InMemoryTable F)} {acc : Nat × Nat × Bool},
      (∀ p ∈ l, p.2.get heap key = none) → scanReadOnly heap key acc l = acc
  | [], _, _ => rfl
  | p :: l, acc, h => by
    simp only [scanReadOnly, h p (List.mem_cons_self _ _), scanStep]
    exact scanReadOnly_of_no_hits fun q hq => h q (List.mem_cons_of_mem _ hq)

/-- A sealed memtable's hit is an entry of its skip map. -/
theorem lookup_of_get {heap : Heap} {m : InMemoryTable F} {key : Key} {w : SkipMapValue}
    (h : m.get heap key = some w) : (heap.cells m.index).lookup key = some w := by
  unfold InMemoryTable.get at h
  split_ifs at h
  exact h

omit [BloomFilter F] in
/-- `read_value` at the offset of a record with a positive `created_at`. -/
theorem readValue_of_recordAt {s : StorageEngine F} {offset : Nat} {r : ValueLogEntry}
    (h : recordAt s.valLog.records offset = some r) (ht : 0 < r.createdAt) :
    s.readValue offset r.createdAt =
      if r.isTombstone then .err .keyFoundAsTombstoneInValueLogError else .ok (r.value, r.createdAt) := by
  simp [readValue, ValueLog.get, h, ht]

omit [BloomFilter F] in
/-- What `expectedGet` answers for a key whose last entry has a positive time: the tombstone
error for a delete, and otherwise what `read_value` reads at the entry's offset. -/
theorem expectedGet_of_lastEntry {s : StorageEngine F} {key : Key} {o t : Nat} {b : Bool}
    (hlast : lastEntry s.valLog.records key = some (o, t, b)) (ht : 0 < t) :
    expectedGet s.valLog.records key =
      if b then .err .keyFoundAsTombstoneInMemtableError else s.readValue o t := by
  obtain ⟨r, hfind, hrec, -, hv⟩ := lastEntry_eq_some hlast
  obtain ⟨rfl, rfl⟩ : t = r.createdAt ∧ b = r.isTombstone := by simpa using hv
  cases htomb : r.isTombstone <;> simp [expectedGet, hfind, htomb, readValue_of_recordAt hrec ht]

/-! ### `get` under the invariant -/

section Get

variable {s : StorageEngine F} {key : Key}

/-- A key that no record has is in no skip map `get` reads. -/
theorem Serves.not_mem_of_lastEntry_none {records : List ValueLogEntry} (h : s.Serves records)
    (hk : ¬IsSentinel key) (hnone : lastEntry records key = none) :
    ∀ i ∈ s.readIndices, key ∉ s.heap.cells i := fun i hi hm => by
  obtain ⟨v, hv⟩ := Option.isSome_iff_exists.1 (AList.lookup_isSome.2 hm)
  exact (h.fits i hi key v hk hv).lastEntry_ne_none hnone

/-- **Steps 1 and 2 find the last entry.**  When the active memtable holds the key, or a
sealed one whose filter admits it holds its last entry `(o, t, b)`, `get` answers from that
entry: the memtable tombstone error for a delete, and `read_value` at `o` otherwise. -/
theorem Serves.get_of_memtable (h : s.Serves s.valLog.records) (hk : ¬IsSentinel key)
    {o t : Nat} {b : Bool} (hlast : lastEntry s.valLog.records key = some (o, t, b))
    (hin : key ∈ s.heap.cells s.activeMemtable.index ∨ ∃ p ∈ s.readOnlyMemtables,
      BloomFilter.contains p.2.bloomFilter key = true ∧
        (s.heap.cells p.2.index).lookup key = some (o, t, b)) :
    s.get key = if b then .err .keyFoundAsTombstoneInMemtableError else s.readValue o t := by
  unfold get
  rw [InMemoryTable.get_eq_lookup h.bloom]
  by_cases ha : key ∈ s.heap.cells s.activeMemtable.index
  · rw [h.active key hk ha, hlast]
  · -- the scan of the sealed memtables ends at the last entry
    have ht : 0 < t := lastEntry_pos h.positive hk hlast
    obtain ⟨p, hp, hc, hl⟩ := hin.resolve_left ha
    have hscan : scanReadOnly s.heap key (0, 0, false) s.readOnlyMemtables = (o, t, b) :=
      scanReadOnly_eq_newest
        (fun q hq w hw => (h.fits _ (mem_readIndices_of_sealed hq) key w hk (lookup_of_get hw)).2 _ hlast)
        (Nat.zero_le _) (fun h0 => absurd h0 ht.ne)
        (.inr ⟨p, hp, by simp [InMemoryTable.get, hc, hl]⟩)
    rw [AList.lookup_eq_none.2 ha]
    dsimp only
    rw [hscan]
    cases b <;> simp [ht, ht.ne']

/-- **A key no memtable holds goes to step 3**: `get` is the SSTable search followed by the
read of step 5. -/
theorem get_of_no_memtable (hbloom : InMemoryTable.BloomCovers s.heap s.activeMemtable)
    (ha : key ∉ s.heap.cells s.activeMemtable.index)
    (hro : ∀ p ∈ s.readOnlyMemtables, key ∉ s.heap.cells p.2.index) :
    s.get key = match s.searchSstables key (0, 0, false) with
      | .ok acc => s.readValue acc.1 acc.2.1
      | .err e => .err e
      | .panic p => .panic p := by
  have hscan : scanReadOnly s.heap key (0, 0, false) s.readOnlyMemtables = (0, 0, false) :=
    scanReadOnly_of_no_hits fun p hp => by
      simp [InMemoryTable.get, AList.lookup_eq_none.2 (hro p hp)]
  unfold get
  rw [InMemoryTable.get_eq_lookup hbloom, AList.lookup_eq_none.2 ha]
  dsimp only
  rw [hscan]
  rfl

/-- With no SSTable indexed, step 3 answers `KeyNotFoundInAnySSTableError`. -/
theorem searchSstables_of_no_index (hbk : s.biggestKeyIndex = []) (acc : Nat × Nat × Bool) :
    s.searchSstables key acc = .err .keyNotFoundInAnySSTableError := by
  simp [searchSstables, filterSstablesByBiggestKey, hbk]

/-- **Before any SSTable, `get` answers from the log.** -/
theorem Serves.get_eq_expectedGet (h : s.Serves s.valLog.records) (hsst : s.sstables = [])
    (hk : ¬IsSentinel key) : s.get key = expectedGet s.valLog.records key := by
  have hbk : s.biggestKeyIndex = [] := List.eq_nil_iff_forall_not_mem.2 fun p hp => by
    obtain ⟨t, ht, -⟩ := h.indexed p hp
    simp [hsst] at ht
  cases hlast : lastEntry s.valLog.records key with
  | some w =>
    obtain ⟨o, t, b⟩ := w
    rw [expectedGet_of_lastEntry hlast (lastEntry_pos h.positive hk hlast)]
    by_cases ha : key ∈ s.heap.cells s.activeMemtable.index
    · exact h.get_of_memtable hk hlast (.inl ha)
    · -- with no SSTable indexed, a sealed memtable holds the last entry
      rcases h.sealed key _ hk hlast ha with hp | ⟨-, _, _, _, hi, -⟩
      · exact h.get_of_memtable hk hlast (.inr hp)
      · simp [hbk] at hi
  | none =>
    have hout := h.not_mem_of_lastEntry_none hk hlast
    rw [get_of_no_memtable h.bloom (hout _ (List.mem_cons_self _ _))
      (fun p hp => hout _ (mem_readIndices_of_sealed hp)), searchSstables_of_no_index hbk]
    simp [expectedGet, find?_eq_none_of_lastEntry hlast]

end Get

/-! ### A run of writes from a fresh start -/

section Run

variable {s : StorageEngine F}

/-- **`get` returns the last write.**  Open an engine on an empty directory and run any
calls whose times are positive and strictly increase over the writes to each key, with
table ids that do not repeat, and no flush completing.  The log is the `TAIL` and `HEAD`
records followed by the records of the calls that returned `Ok`, in order; and for every
key but the sentinels `get` answers from the last of them: its value and `created_at` for a
put or update, `KeyFoundAsTombstoneInMemtableError` for a delete, and
`KeyNotFoundInAnySSTableError` when there is none. -/
theorem get_returns_last_write {sizeUnit : SizeUnit} {capacity : Nat} {config : Config}
    {createdAt : Nat} {calls : List Call} (hpos : ∀ c ∈ calls, 0 < c.record.createdAt)
    (hinc : calls.Pairwise fun c c' =>
      c.record.key = c'.record.key → c.record.createdAt < c'.record.createdAt)
    (hids : (calls.map Call.tableId).Nodup)
    (hrun : (openEmpty sizeUnit capacity config createdAt >>= (·.run calls)) = .ok s) :
    (∃ s₀ : StorageEngine F, openEmpty sizeUnit capacity config createdAt = .ok s₀ ∧
      s.valLog.records =
        [⟨tailEntryKey, [], createdAt, false⟩, ⟨headEntryKey, [], createdAt, false⟩] ++
          (Outcome.okInputs apply s₀ calls).map Call.record) ∧
    ∀ key, ¬IsSentinel key → s.get key = expectedGet s.valLog.records key := by
  obtain ⟨s₀, he, h, hsst, hlog⟩ := serves_of_openEmpty_run hpos hinc hids hrun
  exact ⟨⟨s₀, he, hlog⟩, fun key hk => h.get_eq_expectedGet hsst hk⟩

/-- Writes at distinct times on `smallEngine`: three `put`s, each rolling its memtable
over, and a `delete` of `"a"`. -/
def distinctCalls : List Call :=
  [.put [97] [49] 2 2 [48], .put [97] [50] 3 3 [49], .put [98] [51] 4 4 [50], .delete [97] 5 5 [51]]

theorem distinct_writes_read_back :
    ∃ s, (smallEngine >>= (·.run distinctCalls)) = .ok s ∧
      (∃ s₀ : StorageEngine ExactFilter, smallEngine = .ok s₀ ∧
        s.valLog.records = [⟨tailEntryKey, [], 1, false⟩, ⟨headEntryKey, [], 1, false⟩] ++
          (Outcome.okInputs apply s₀ distinctCalls).map Call.record) ∧
      ∀ key, ¬IsSentinel key → s.get key = expectedGet s.valLog.records key :=
  (fun hs => ⟨_, hs, get_returns_last_write (by decide) (by decide) (by decide) hs⟩) rfl

/-- Two `put`s of `"a"` in one millisecond and a `put` of `"b"` on `smallEngine`; each
rolls the memtable over, so the two entries of `"a"` end in two sealed memtables. -/
def tieCalls : List Call := [.put [97] [49] 5 5 [48], .put [97] [50] 5 5 [49], .put [98] [51] 6 6 [50]]

/-- On a fresh engine `get("HEAD")` answers `Ok`, though no call wrote `HEAD`.  After
`tieCalls` the log's last record of `"a"` holds `"2"`, but `get("a")` answers `"1"`: the
scan of `read_only_memtables` keeps the older entry, as the newer one's `created_at` is not
strictly larger. -/
theorem get_misses_latest_write :
    (∃ s, roomyEngine = .ok s ∧ s.get headEntryKey = .ok ([], 1)) ∧
    ∃ s, (smallEngine >>= (·.run tieCalls)) = .ok s ∧ s.get [97] = .ok ([49], 5) ∧
      expectedGet s.valLog.records [97] = .ok ([50], 5) :=
  ⟨⟨_, rfl, rfl⟩, _, rfl, rfl, rfl⟩

end Run

end StorageEngine

end LsmEngine
