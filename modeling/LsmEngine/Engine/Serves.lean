import LsmEngine.Memtable.Run
import LsmEngine.Engine.History
import LsmEngine.Engine.Flush
import LsmEngine.Engine.RolloverSafety

/-!
# The memtables and the SSTables against the value log

The value log is the history of writes (`Engine.History`), and `Serves s records` says how
the memtables and the SSTables stand to it, for every key but the sentinels.  Every entry of
a skip map `get` reads (`src/storage_engine/storage.rs`, lines 246 to 360), and of an SSTable,
fits the history (`Fits`).  The active memtable holds the last entry of each key it holds.
Any other key's last entry is held by a sealed memtable whose filter admits it, or by no
memtable and by an SSTable that the search of step 3 reaches (`InSstables`): listed in
`biggest_key_index` under a biggest key not below the key, with a filter in `bloom_filters`
that admits it.

A fresh engine serves its log (`serves_openEmpty`).  Every piece of a write keeps the
invariant, so a call does (`Serves.apply`), and a run of calls does while appending exactly
the records of the calls that returned `Ok` (`Serves.run`).  `flush_all_memtables` (lines 809
to 865) registers each memtable's skip map under a fresh path, and its biggest key bounds
every key of it (`Serves.flushMemtable`); when every flush succeeds each memtable is reached
through the SSTables (`Flushed`), so clearing them loses nothing (`Serves.finishFlushAll`,
`Serves.flushAllMemtables_persists`), and when one fails nothing was cleared.  So a run of
writes and flushes keeps the invariant too (`Serves.exec`).
-/

namespace LsmEngine

namespace StorageEngine

variable {F : Type} [BloomFilter F]

/-! ### The invariant -/

/-- The skip maps `get` reads: the active memtable's, then those of `read_only_memtables`. -/
def readIndices (s : StorageEngine F) : List Nat :=
  s.activeMemtable.index :: s.readOnlyMemtables.map (·.2.index)

omit [BloomFilter F] in
theorem mem_readIndices_of_sealed {s : StorageEngine F} {p : TableId × InMemoryTable F}
    (hp : p ∈ s.readOnlyMemtables) : p.2.index ∈ s.readIndices :=
  List.mem_cons_of_mem _ (List.mem_map_of_mem _ hp)

/-- Step 3 of `get` finds `w` for `key`: an SSTable of `biggest_key_index` whose biggest key
is not below `key`, with a filter in `bloom_filters` that admits `key`, holds `w`. -/
def InSstables (s : StorageEngine F) (key : Key) (w : SkipMapValue) : Prop :=
  ∃ path biggest f, (path, biggest) ∈ s.biggestKeyIndex ∧ keyLt biggest key = false ∧
    (f, path) ∈ s.bloomFilters ∧ BloomFilter.contains f key = true ∧
    sstGet s.sstables path key = some w

/-- `sstGet` reads the first SSTable with the path; one it reaches is still reached with
more SSTables after it. -/
theorem sstGet_append {ts : List SSTable} {path : String} {key : Key} {w : SkipMapValue}
    (h : sstGet ts path key = some w) (us : List SSTable) : sstGet (ts ++ us) path key = some w := by
  unfold sstGet at h ⊢
  cases hf : ts.find? (fun t => t.dataFilePath = path) with
  | none => rw [hf] at h; cases h
  | some t => rw [List.find?_append, hf]; rwa [hf] at h

/-- An SSTable that step 3 reaches is still reached when the index, the filters and the
SSTables only grow. -/
theorem InSstables.mono {s s' : StorageEngine F} {key : Key} {w : SkipMapValue}
    (h : s.InSstables key w) (hb : ∀ p ∈ s.biggestKeyIndex, p ∈ s'.biggestKeyIndex)
    (hf : ∀ p ∈ s.bloomFilters, p ∈ s'.bloomFilters) (hs : ∃ us, s'.sstables = s.sstables ++ us) :
    s'.InSstables key w := by
  obtain ⟨path, biggest, f, hi, hlt, hfm, hc, hget⟩ := h
  obtain ⟨us, hus⟩ := hs
  exact ⟨path, biggest, f, hb _ hi, hlt, hf _ hfm, hc, hus ▸ sstGet_append hget us⟩

/-- The memtables and the SSTables against the history `records`, for every key but the
sentinels: every entry `get` may read fits the history, the active memtable holds the last
entry of each key it holds, any other key's last entry is in a sealed memtable whose filter
admits it or, held by no memtable, in an SSTable step 3 reaches; and every biggest-key
entry names an SSTable. -/
structure Serves (s : StorageEngine F) (records : List ValueLogEntry) : Prop where
  fits : ∀ i ∈ s.readIndices, ∀ key v, ¬IsSentinel key →
    (s.heap.cells i).lookup key = some v → Fits records key v
  active : ∀ key, ¬IsSentinel key → key ∈ s.heap.cells s.activeMemtable.index →
    (s.heap.cells s.activeMemtable.index).lookup key = lastEntry records key
  sealed : ∀ key w, ¬IsSentinel key → lastEntry records key = some w →
    key ∉ s.heap.cells s.activeMemtable.index →
      (∃ p ∈ s.readOnlyMemtables, BloomFilter.contains p.2.bloomFilter key = true ∧
        (s.heap.cells p.2.index).lookup key = some w) ∨
      ((∀ p ∈ s.readOnlyMemtables, key ∉ s.heap.cells p.2.index) ∧ s.InSstables key w)
  positive : ∀ r ∈ records, ¬IsSentinel r.key → 0 < r.createdAt
  bloom : InMemoryTable.BloomCovers s.heap s.activeMemtable
  allocated : ∀ i ∈ s.readIndices, i < s.heap.next
  sstFits : ∀ t ∈ s.sstables, ∀ key v, ¬IsSentinel key → t.entries.lookup key = some v →
    Fits records key v
  indexed : ∀ p ∈ s.biggestKeyIndex, ∃ t ∈ s.sstables, t.dataFilePath = p.1

/-! ### A fresh start -/

section Fresh

variable {s : StorageEngine F} {records : List ValueLogEntry}

/-- A state with no sealed memtable and no SSTable, whose active memtable holds no key but
the sentinels, serves any history of sentinel records. -/
theorem Serves.of_sentinels (hro : s.readOnlyMemtables = [])
    (hnone : ∀ key, ¬IsSentinel key → key ∉ s.heap.cells s.activeMemtable.index)
    (hrec : ∀ r ∈ records, IsSentinel r.key)
    (hbloom : InMemoryTable.BloomCovers s.heap s.activeMemtable)
    (halloc : s.activeMemtable.index < s.heap.next) (hsst : s.sstables = [])
    (hbk : s.biggestKeyIndex = []) : s.Serves records := by
  have hri : ∀ i ∈ s.readIndices, i = s.activeMemtable.index := by simp [readIndices, hro]
  refine ⟨fun i hi key v hk hv => by
      rw [hri i hi] at hv
      exact absurd (AList.lookup_isSome.1 (by rw [hv]; rfl)) (hnone key hk),
    fun key hk hm => absurd hm (hnone key hk), fun key w hk hw _ => ?_,
    fun r hr hk => absurd (hrec r hr) hk, hbloom, fun i hi => hri i hi ▸ halloc,
    by simp [hsst], by simp [hbk]⟩
  obtain ⟨r, -, hr, hkey, -⟩ := lastEntry_eq_some hw
  exact absurd (hkey ▸ hrec r (mem_of_recordAt hr)) hk

/-- **A fresh start serves its log.**  The engine `with_capacity_and_rate` opens on an empty
directory has no sealed memtable and no SSTable, and its log holds the `TAIL` and `HEAD`
records only. -/
theorem serves_openEmpty {sizeUnit : SizeUnit} {capacity : Nat} {config : Config}
    {createdAt : Nat} (he : openEmpty sizeUnit capacity config createdAt = .ok s) :
    s.Serves s.valLog.records ∧ s.readOnlyMemtables = [] ∧ s.sstables = [] ∧
      s.valLog.records = [⟨tailEntryKey, [], createdAt, false⟩, ⟨headEntryKey, [], createdAt, false⟩] := by
  have hf : openFresh ⟨[], some [], []⟩ sizeUnit capacity config createdAt = .ok s := he
  obtain ⟨⟨heap, m⟩, hw, hs⟩ := Outcome.bind_eq_ok.1 hf
  obtain ⟨rfl, hm⟩ := InMemoryTable.withSpecifiedCapacityAndRate_eq _ hw
  have hcover : InMemoryTable.BloomCovers Heap.empty.alloc.1 m := fun k hk => by
    simp [hm.index] at hk
  cases hs
  refine ⟨.of_sentinels rfl (fun key hk hin => hk ?_) (by simp [IsSentinel])
    (InMemoryTable.bloomCovers_insert (InMemoryTable.bloomCovers_insert hcover _) _)
    (by simp [hm.index]) rfl rfl, rfl, rfl, by simp⟩
  simpa [hm.index, IsSentinel, -AList.insert_empty] using hin

end Fresh

/-! ### Each piece of a write keeps the invariant -/

section Writes

variable {s s' : StorageEngine F} {records : List ValueLogEntry}

/-- An insert changes one key of one skip map. -/
theorem lookup_insert_cells (heap : Heap) (m : InMemoryTable F) (e : Entry) (i : Nat) (key : Key) :
    ((m.insert heap e).1.cells i).lookup key =
      if i = m.index ∧ key = e.key then some e.value else (heap.cells i).lookup key := by
  simp only [InMemoryTable.insert_fst, Heap.modify_cells]
  split_ifs with hi hik hik
  · rw [hik.2, AList.lookup_insert]
  · rw [AList.lookup_insert_ne fun hk => hik ⟨hi, hk⟩, hi]
  · exact absurd hik.1 hi
  · rfl

omit [BloomFilter F] in
/-- A key that neither the active memtable nor any sealed one holds is in no skip map `get`
reads. -/
theorem not_mem_readIndices {key : Key} (ha : key ∉ s.heap.cells s.activeMemtable.index)
    (hro : ∀ p ∈ s.readOnlyMemtables, key ∉ s.heap.cells p.2.index) :
    ∀ i ∈ s.readIndices, key ∉ s.heap.cells i := by
  intro i hi
  simp only [readIndices, List.mem_cons, List.mem_map] at hi
  rcases hi with rfl | ⟨p, hp, rfl⟩
  · exact ha
  · exact hro p hp

/-- The invariant reads the non-sentinel keys of the skip maps `get` reads, the active
memtable's filter, the sealed memtables and the SSTable side: a write that agrees on
these, reads no other skip map, keeps every sealed memtable and leaves the SSTable side
alone keeps it. -/
theorem Serves.transfer (h : s.Serves records)
    (hidx : s'.activeMemtable.index = s.activeMemtable.index)
    (hcells : ∀ i key, ¬IsSentinel key → (s'.heap.cells i).lookup key = (s.heap.cells i).lookup key)
    (hbloom : InMemoryTable.BloomCovers s'.heap s'.activeMemtable)
    (hri : ∀ i ∈ s'.readIndices, i ∈ s.readIndices)
    (hro : ∀ p ∈ s.readOnlyMemtables, p ∈ s'.readOnlyMemtables)
    (hnext : s.heap.next ≤ s'.heap.next) (hbk : s'.biggestKeyIndex = s.biggestKeyIndex)
    (hbf : s'.bloomFilters = s.bloomFilters) (hsst : s'.sstables = s.sstables) :
    s'.Serves records := by
  have hmem : ∀ i key, ¬IsSentinel key → (key ∈ s'.heap.cells i ↔ key ∈ s.heap.cells i) :=
    fun i key hk => by rw [← AList.lookup_isSome, hcells i key hk, AList.lookup_isSome]
  refine ⟨fun i hi key v hk hv => h.fits i (hri i hi) key v hk ((hcells i key hk).symm.trans hv),
    fun key hk hm => ?_, fun key w hk hw hn => ?_, h.positive, hbloom,
    fun i hi => Nat.lt_of_lt_of_le (h.allocated i (hri i hi)) hnext, hsst ▸ h.sstFits,
    hbk ▸ hsst ▸ h.indexed⟩
  · rw [hcells _ key hk, hidx]
    exact h.active key hk ((hmem _ key hk).1 (hidx ▸ hm))
  · rcases h.sealed key w hk hw fun hm => hn (hidx ▸ (hmem _ key hk).2 hm) with
      ⟨p, hp, hc, hl⟩ | ⟨hnone, hin⟩
    · exact .inl ⟨p, hro p hp, hc, (hcells _ key hk).trans hl⟩
    · -- a sealed memtable of the new state reads a skip map the old state read
      have hout := not_mem_readIndices (fun hm => hn (hidx ▸ (hmem _ key hk).2 hm)) hnone
      exact .inr ⟨fun p hp hm => hout _ (hri _ (List.mem_cons_of_mem _ (List.mem_map_of_mem _ hp)))
        ((hmem _ key hk).1 hm), by unfold InSstables; rw [hbk, hbf, hsst]; exact hin⟩

theorem Serves.withValLog (h : s.Serves records) (valLog : ValueLog) :
    ({ s with valLog := valLog } : StorageEngine F).Serves records :=
  h.transfer rfl (fun _ _ _ => rfl) h.bloom (fun _ hi => hi) (fun _ hp => hp) le_rfl rfl rfl rfl

/-- Inserting a sentinel entry, such as a rollover's `HEAD` entry, keeps the invariant. -/
theorem Serves.insertSentinel (h : s.Serves records) {e : Entry} (he : IsSentinel e.key) :
    (s.insertActive e).Serves records :=
  h.transfer (by simp)
    (fun i key hk => by
      rw [insertActive_heap, lookup_insert_cells,
        if_neg fun (hik : i = s.activeMemtable.index ∧ key = e.key) => hk (hik.2 ▸ he)])
    (InMemoryTable.bloomCovers_insert h.bloom e) (fun i hi => by simpa [readIndices] using hi)
    (fun _ hp => hp) (by simp) rfl rfl rfl

/-- Sealing the active memtable under a fresh id keeps the invariant: the clone shares the
active memtable's skip map and filter. -/
theorem Serves.markSealed (h : s.Serves records) {tableId : TableId}
    (hid : tableId ∉ s.sealedIds) :
    ({ s with activeMemtable := { s.activeMemtable with readOnly := true },
              readOnlyMemtables := indexMapInsert s.readOnlyMemtables tableId
                { s.activeMemtable with readOnly := true } } : StorageEngine F).Serves records :=
  h.transfer rfl (fun _ _ _ => rfl) h.bloom
    (fun i hi => by
      simp only [readIndices, List.mem_cons, List.mem_map] at hi ⊢
      rcases hi with rfl | ⟨p, hp, rfl⟩
      · exact .inl rfl
      · rcases mem_indexMapInsert hp with hp | rfl
        · exact .inr ⟨p, hp, rfl⟩
        · exact .inl rfl)
    (fun p hp => by rw [indexMapInsert_of_not_mem hid]; exact List.mem_append_left _ hp)
    le_rfl rfl rfl rfl

theorem Serves.sealActive (h : s.Serves records) {headEntry : Entry}
    (he : IsSentinel headEntry.key) {tableId : TableId} (hid : tableId ∉ s.sealedIds) :
    (s.sealActive headEntry tableId).Serves records :=
  (h.insertSentinel he).markSealed hid

/-- The sealed memtable's clone in `read_only_memtables`. -/
theorem sealActive_clone (s : StorageEngine F) (headEntry : Entry) (tableId : TableId) :
    ∃ p ∈ (s.sealActive headEntry tableId).readOnlyMemtables,
      p.2.index = (s.sealActive headEntry tableId).activeMemtable.index ∧
      p.2.bloomFilter = (s.sealActive headEntry tableId).activeMemtable.bloomFilter :=
  ⟨_, mem_indexMapInsert_self _ _ _, rfl, rfl⟩

/-- A fresh active memtable on a new skip map keeps the invariant, once the old one has a
clone among the sealed memtables: what the old skip map held is read through the clone. -/
theorem Serves.renew (h : s.Serves records)
    (hclone : ∃ p ∈ s.readOnlyMemtables, p.2.index = s.activeMemtable.index ∧
      p.2.bloomFilter = s.activeMemtable.bloomFilter)
    (sends : List (TableId × InMemoryTable F)) {m : InMemoryTable F} (hm : m.index = s.heap.next) :
    ({ s with flushSends := sends, heap := s.heap.alloc.1, activeMemtable := m } :
      StorageEngine F).Serves records := by
  have hro : ∀ p ∈ s.readOnlyMemtables, p.2.index ∈ s.readIndices := fun p hp =>
    List.mem_cons_of_mem _ (List.mem_map_of_mem _ hp)
  have hold : ∀ i ∈ s.readIndices, s.heap.alloc.1.cells i = s.heap.cells i := fun i hi => by
    rw [Heap.alloc_cells, if_neg (Nat.ne_of_lt (h.allocated i hi))]
  have hnew : s.heap.alloc.1.cells m.index = ∅ := by rw [Heap.alloc_cells, if_pos hm]
  refine ⟨fun i hi key v hk hv => ?_, fun key _ hmem => ?_, fun key w hk hw _ => ?_, h.positive,
    fun k hk => ?_, fun i hi => ?_, h.sstFits, h.indexed⟩
  · -- a hit after the renewal is a hit of a sealed skip map
    rcases List.mem_cons.1 hi with rfl | hi
    · rw [hnew] at hv; cases hv
    · obtain ⟨p, hp, rfl⟩ := List.mem_map.1 hi
      exact h.fits _ (hro p hp) key v hk (hold _ (hro p hp) ▸ hv)
  · exact absurd (hnew ▸ hmem : key ∈ (∅ : SkipMap)) (AList.not_mem_empty _)
  · by_cases hin : key ∈ s.heap.cells s.activeMemtable.index
    · obtain ⟨p, hp, hpi, hpb⟩ := hclone
      refine .inl ⟨p, hp, hpb ▸ h.bloom key hin, ?_⟩
      show (s.heap.alloc.1.cells p.2.index).lookup key = some w
      rw [hold _ (hro p hp), hpi, h.active key hk hin, hw]
    · rcases h.sealed key w hk hw hin with ⟨p, hp, hc, hl⟩ | ⟨hnone, hin'⟩
      · exact .inl ⟨p, hp, hc, (hold _ (hro p hp)).symm ▸ hl⟩
      · exact .inr ⟨fun p hp hm => hnone p hp (hold _ (hro p hp) ▸ hm), hin'⟩
  · exact absurd (hnew ▸ hk : k ∈ (∅ : SkipMap)) (AList.not_mem_empty _)
  · show i < s.heap.alloc.1.next
    rw [Heap.alloc_next]
    rcases List.mem_cons.1 hi with rfl | hi
    · show m.index < _
      omega
    · obtain ⟨p, hp, rfl⟩ := List.mem_map.1 hi
      exact Nat.lt_succ_of_lt (h.allocated _ (hro p hp))

/-- Inserting the entry of a record appended to the history keeps the invariant, when the
record is newer than every earlier record of its key. -/
theorem Serves.insertRecord (h : s.Serves records) (r : ValueLogEntry)
    (hfresh : ¬IsSentinel r.key → ∀ q ∈ records, q.key = r.key → q.createdAt < r.createdAt)
    (hpos : ¬IsSentinel r.key → 0 < r.createdAt) :
    (s.insertActive ⟨r.key, logLength records, r.createdAt, r.isTombstone⟩).Serves
      (records ++ [r]) := by
  have hlook : ∀ i key, ((s.insertActive ⟨r.key, logLength records, r.createdAt,
      r.isTombstone⟩).heap.cells i).lookup key =
      if i = s.activeMemtable.index ∧ key = r.key then some (logLength records, r.createdAt,
        r.isTombstone) else (s.heap.cells i).lookup key :=
    lookup_insert_cells s.heap s.activeMemtable _
  have hri : ∀ i ∈ (s.insertActive ⟨r.key, logLength records, r.createdAt,
      r.isTombstone⟩).readIndices, i ∈ s.readIndices := fun i hi => by
    simpa [readIndices] using hi
  refine ⟨fun i hi key v hk hv => ?_, fun key hk hm => ?_, fun key w hk hw hn => ?_,
    fun q hq hk => ?_, InMemoryTable.bloomCovers_insert h.bloom _,
    fun i hi => by simpa using h.allocated i (hri i hi),
    fun t ht key v hk hv => (h.sstFits t ht key v hk hv).append hk r hfresh, h.indexed⟩
  · rw [hlook] at hv
    split_ifs at hv with hik
    · cases hv
      rw [hik.2]
      exact fits_append_self records r
    · exact (h.fits i (hri i hi) key v hk hv).append hk r hfresh
  · have hm' : key = r.key ∨ key ∈ s.heap.cells s.activeMemtable.index := by simpa using hm
    rw [insertActive_activeMemtable, InMemoryTable.insert_index, hlook, lastEntry_append_singleton]
    by_cases hkr : key = r.key
    · simp [hkr]
    · rw [if_neg fun hik => hkr hik.2, if_neg (Ne.symm hkr),
        h.active key hk (hm'.resolve_left hkr)]
  · -- a key the insert did not write keeps its place
    have hkr : key ≠ r.key := fun hkr => hn (by simp [hkr])
    rw [lastEntry_append_singleton, if_neg (Ne.symm hkr)] at hw
    rcases h.sealed key w hk hw fun hm => hn (by simp [hm]) with ⟨p, hp, hc, hl⟩ | ⟨hnone, hin⟩
    · exact .inl ⟨p, hp, hc, by rw [hlook, if_neg fun hik => hkr hik.2]; exact hl⟩
    · refine .inr ⟨fun p hp hm => hnone p hp ?_, hin⟩
      rwa [← AList.lookup_isSome, hlook, if_neg fun hik => hkr hik.2, AList.lookup_isSome] at hm
  · rcases List.mem_append.1 hq with hq | hq
    · exact h.positive q hq hk
    · rw [List.mem_singleton.1 hq] at hk ⊢
      exact hpos hk

theorem Serves.rolloverInPut (h : s.Serves records) {headNow : Nat} {tableId : TableId}
    (hid : tableId ∉ s.sealedIds) (hr : rolloverInPut s headNow tableId = .ok s') :
    s'.Serves records ∧ s'.valLog.records = s.valLog.records := by
  obtain ⟨headOffset, m, sends, -, -, rfl, hm⟩ := rolloverInPut_eq hr
  let t := StorageEngine.sealActive { s with valLog := s.valLog.setHead headOffset }
    ⟨headEntryKey, headOffset, headNow, false⟩ tableId
  have ht : t.Serves records := (h.withValLog _).sealActive (.inl rfl) hid
  exact ⟨ht.renew (sealActive_clone _ _ _) sends (by simpa [t] using hm.index), rfl⟩

theorem Serves.rolloverInDelete (h : s.Serves records) {headNow : Nat} {tableId : TableId}
    (hid : tableId ∉ s.sealedIds) (hr : rolloverInDelete s headNow tableId = .ok s') :
    s'.Serves records ∧ s'.valLog.records = s.valLog.records := by
  obtain ⟨headOffset, -, ⟨-, rfl⟩ | ⟨p, m, -, -, rfl, hm⟩⟩ := rolloverInDelete_eq hr
  · exact ⟨h.sealActive (.inl rfl) hid, rfl⟩
  · exact ⟨(h.sealActive (.inl rfl) hid).renew (sealActive_clone _ _ _) _
      (by simpa using hm.index), rfl⟩

theorem Serves.appendAndInsert {rollover : StorageEngine F → Outcome (StorageEngine F)}
    {tableId : TableId}
    (hroll : ∀ {t t' : StorageEngine F}, t.Serves s.valLog.records → tableId ∉ t.sealedIds →
      rollover t = .ok t' → t'.Serves s.valLog.records ∧ t'.valLog.records = t.valLog.records)
    (h : s.Serves s.valLog.records) (hid : tableId ∉ s.sealedIds) {key value : Key}
    {createdAt : Nat} {isTombstone : Bool}
    (hfresh : ¬IsSentinel key → ∀ q ∈ s.valLog.records, q.key = key → q.createdAt < createdAt)
    (hpos : ¬IsSentinel key → 0 < createdAt)
    (hs : appendAndInsert rollover s key value createdAt isTombstone = .ok s') :
    s'.Serves s'.valLog.records ∧
      s'.valLog.records = s.valLog.records ++ [⟨key, value, createdAt, isTombstone⟩] := by
  obtain ⟨s₁, h₁, rfl⟩ := appendAndInsert_eq hs
  have h₂ : s₁.Serves s.valLog.records ∧
      s₁.valLog.records = s.valLog.records ++ [⟨key, value, createdAt, isTombstone⟩] := by
    rcases rolloverIfFull_eq h₁ with ⟨-, h₁⟩ | ⟨-, rfl⟩
    · obtain ⟨hr, hv⟩ := hroll (h.withValLog (s.valLog.append key value createdAt isTombstone).1)
        hid h₁
      exact ⟨hr, by simp [hv]⟩
    · exact ⟨h.withValLog _, by simp⟩
  rw [insertActive_valLog, h₂.2]
  exact ⟨h₂.1.insertRecord ⟨key, value, createdAt, isTombstone⟩ hfresh hpos, rfl⟩

/-- **One call keeps the invariant.**  A call that succeeds appends its record to the log,
and the engine serves the longer history, when the call's table id is fresh and its record
newer than every earlier record of its key. -/
theorem Serves.apply (h : s.Serves s.valLog.records) {c : Call}
    (hid : c.tableId ∉ s.sealedIds)
    (hfresh : ¬IsSentinel c.record.key →
      ∀ q ∈ s.valLog.records, q.key = c.record.key → q.createdAt < c.record.createdAt)
    (hpos : 0 < c.record.createdAt) (hc : s.apply c = .ok s') :
    s'.Serves s'.valLog.records ∧ s'.valLog.records = s.valLog.records ++ [c.record] := by
  cases c with
  | put | update =>
    exact h.appendAndInsert (fun ht hid hr => ht.rolloverInPut hid hr) hid hfresh
      (fun _ => hpos) hc
  | delete =>
    obtain ⟨_, -, hd⟩ := Outcome.bind_eq_ok.1 hc
    exact h.appendAndInsert (fun ht hid hr => ht.rolloverInDelete hid hr) hid hfresh
      (fun _ => hpos) hd

theorem sstables_appendAndInsert {rollover : StorageEngine F → Outcome (StorageEngine F)}
    (hroll : ∀ {t t' : StorageEngine F}, rollover t = .ok t' → t'.sstables = t.sstables)
    {key value : Key} {createdAt : Nat} {isTombstone : Bool}
    (hs : appendAndInsert rollover s key value createdAt isTombstone = .ok s') :
    s'.sstables = s.sstables := by
  obtain ⟨s₁, h₁, rfl⟩ := appendAndInsert_eq hs
  rcases rolloverIfFull_eq h₁ with ⟨-, h₁⟩ | ⟨-, rfl⟩
  · exact (hroll h₁ :)
  · rfl

/-- A write leaves the SSTables alone. -/
theorem sstables_apply {c : Call} (hc : s.apply c = .ok s') : s'.sstables = s.sstables := by
  cases c with
  | put | update =>
    refine sstables_appendAndInsert (fun hr => ?_) hc
    obtain ⟨_, _, _, -, -, rfl, -⟩ := rolloverInPut_eq hr
    rfl
  | delete =>
    obtain ⟨_, -, hd⟩ := Outcome.bind_eq_ok.1 hc
    refine sstables_appendAndInsert (fun hr => ?_) hd
    obtain ⟨_, -, ⟨-, rfl⟩ | ⟨_, _, -, -, rfl, -⟩⟩ := rolloverInDelete_eq hr <;> rfl

end Writes

/-! ### Runs of writes -/

section Runs

variable {s s' : StorageEngine F}

/-- What the calls of a run need of the engine they start from: positive times, each newer
than every earlier record of its key, in the log or among the calls before it, and table ids
that neither repeat nor name a sealed memtable. -/
structure FreshCalls (s : StorageEngine F) (calls : List Call) : Prop where
  pos : ∀ c ∈ calls, 0 < c.record.createdAt
  inc : calls.Pairwise fun c c' =>
    c.record.key = c'.record.key → c.record.createdAt < c'.record.createdAt
  old : ∀ c ∈ calls, ¬IsSentinel c.record.key →
    ∀ q ∈ s.valLog.records, q.key = c.record.key → q.createdAt < c.record.createdAt
  ids : (calls.map Call.tableId).Nodup
  free : ∀ c ∈ calls, c.tableId ∉ s.sealedIds

omit [BloomFilter F] in
/-- On an engine whose log holds sentinel records only and that has no sealed memtable, the
conditions are those on the calls alone. -/
theorem FreshCalls.of_sentinels (hsent : ∀ q ∈ s.valLog.records, IsSentinel q.key)
    (hro : s.readOnlyMemtables = []) {calls : List Call}
    (hpos : ∀ c ∈ calls, 0 < c.record.createdAt)
    (hinc : calls.Pairwise fun c c' =>
      c.record.key = c'.record.key → c.record.createdAt < c'.record.createdAt)
    (hids : (calls.map Call.tableId).Nodup) : FreshCalls s calls :=
  ⟨hpos, hinc, fun _ _ hk q hq hqk => absurd (hqk ▸ hsent q hq) hk, hids,
    fun _ _ => by simp [sealedIds, hro]⟩

omit [BloomFilter F] in
/-- The calls after a call that returned `Err` meet the conditions against the same engine. -/
theorem FreshCalls.tail {c : Call} {cs : List Call} (h : FreshCalls s (c :: cs)) :
    FreshCalls s cs where
  pos c' hc' := h.pos c' (List.mem_cons_of_mem c hc')
  inc := (List.pairwise_cons.1 h.inc).2
  old c' hc' := h.old c' (List.mem_cons_of_mem c hc')
  ids := (List.nodup_cons.1 h.ids).2
  free c' hc' := h.free c' (List.mem_cons_of_mem c hc')

/-- **One call of a run.**  A call that returns `Ok` appends its record and keeps the
invariant, and the later calls meet their conditions against the engine it returns. -/
theorem Serves.apply_fresh (h : s.Serves s.valLog.records) {c : Call} {cs : List Call}
    (hc : FreshCalls s (c :: cs)) (happ : s.apply c = .ok s') :
    (s'.Serves s'.valLog.records ∧ FreshCalls s' cs) ∧
      s'.valLog.records = s.valLog.records ++ [c.record] := by
  have hself := List.mem_cons_self c cs
  obtain ⟨hs', hlog⟩ := h.apply (hc.free c hself) (hc.old c hself) (hc.pos c hself) happ
  have hinc := List.pairwise_cons.1 hc.inc
  have hids := List.nodup_cons.1 hc.ids
  refine ⟨⟨hs', hc.tail.pos, hinc.2, fun c' hc' hk q hq hqk => ?_, hids.2, fun c' hc' hid => ?_⟩,
    hlog⟩
  · -- the call's record is older than every later call to its key
    rcases List.mem_append.1 (hlog ▸ hq) with hq | hq
    · exact hc.old c' (List.mem_cons_of_mem c hc') hk q hq hqk
    · rw [List.mem_singleton.1 hq] at hqk ⊢
      exact hinc.1 c' hc' hqk
  · -- the sealed ids are those of earlier calls
    rcases (sealsUnder_apply happ).adds _ hid with hid | hid
    · exact hc.free c' (List.mem_cons_of_mem c hc') hid
    · exact hids.1 (hid ▸ List.mem_map_of_mem _ hc')

/-- **A run of writes keeps the invariant.**  Over a run whose calls meet `FreshCalls`, the
log gains exactly the records of the calls that returned `Ok`, in order, the engine serves
it, and the SSTables stay as they were. -/
theorem Serves.run (h : s.Serves s.valLog.records) {calls : List Call} (hc : FreshCalls s calls)
    (hrun : s.run calls = .ok s') :
    s'.Serves s'.valLog.records ∧ s'.sstables = s.sstables ∧
      s'.valLog.records =
        s.valLog.records ++ (Outcome.okInputs StorageEngine.apply s calls).map Call.record := by
  obtain ⟨⟨hs', -, hsst⟩, hlog⟩ := Outcome.steps_log
    (P := fun t cs => t.Serves t.valLog.records ∧ FreshCalls t cs ∧ t.sstables = s.sstables)
    (L := fun t => t.valLog.records) (f := fun c => [c.record])
    (fun _ _ _ _ ⟨ht, hc, hsst⟩ happ =>
      let ⟨⟨ht', hc'⟩, hlog⟩ := ht.apply_fresh hc happ
      ⟨⟨ht', hc', (sstables_apply happ).trans hsst⟩, hlog⟩)
    (fun _ _ _ _ ⟨ht, hc, hsst⟩ _ => ⟨ht, hc.tail, hsst⟩) ⟨h, hc, rfl⟩ hrun
  exact ⟨hs', hsst, by rw [hlog, List.map_eq_flatMap]⟩

/-- **From a fresh start.**  Open an engine on an empty directory and run calls with positive
times that strictly increase over the writes to each key, and table ids that do not repeat:
the engine serves its log and has no SSTable, and the log is the `TAIL` and `HEAD` records
followed by the records of the calls that returned `Ok`, in order. -/
theorem serves_of_openEmpty_run {sizeUnit : SizeUnit} {capacity : Nat} {config : Config}
    {createdAt : Nat} {calls : List Call} (hpos : ∀ c ∈ calls, 0 < c.record.createdAt)
    (hinc : calls.Pairwise fun c c' =>
      c.record.key = c'.record.key → c.record.createdAt < c'.record.createdAt)
    (hids : (calls.map Call.tableId).Nodup)
    (hrun : (openEmpty sizeUnit capacity config createdAt >>= (·.run calls)) = .ok s) :
    ∃ s₀ : StorageEngine F, openEmpty sizeUnit capacity config createdAt = .ok s₀ ∧
      s.Serves s.valLog.records ∧
      s.sstables = [] ∧ s.valLog.records =
        [⟨tailEntryKey, [], createdAt, false⟩, ⟨headEntryKey, [], createdAt, false⟩] ++
          (Outcome.okInputs apply s₀ calls).map Call.record := by
  obtain ⟨s₀, he, hrun⟩ := Outcome.bind_eq_ok.1 hrun
  obtain ⟨h₀, hro, hsst, hrec⟩ := serves_openEmpty he
  have hsent : ∀ q ∈ s₀.valLog.records, IsSentinel q.key := by rw [hrec]; simp [IsSentinel]
  obtain ⟨h, hsst', hlog⟩ := h₀.run (.of_sentinels hsent hro hpos hinc hids) hrun
  exact ⟨s₀, he, h, hsst'.trans hsst, hrec ▸ hlog⟩

end Runs

/-! ### Each piece of a flush keeps the invariant -/

section Flushes

variable {s s₁ s₂ s₃ : StorageEngine F} {records : List ValueLogEntry}

/-- What a flush step does to the engine: the memtables, the heap and the log stay, and
the biggest-key index, the filters and the SSTables only grow. -/
structure Extends (s s' : StorageEngine F) : Prop where
  keeps : KeepsMemtables s s'
  index : ∀ p ∈ s.biggestKeyIndex, p ∈ s'.biggestKeyIndex
  filters : ∀ p ∈ s.bloomFilters, p ∈ s'.bloomFilters
  tables : ∃ us, s'.sstables = s.sstables ++ us

omit [BloomFilter F] in
theorem Extends.refl (s : StorageEngine F) : Extends s s :=
  ⟨.refl s, fun _ hp => hp, fun _ hp => hp, [], (List.append_nil _).symm⟩

omit [BloomFilter F] in
theorem Extends.readIndices (h : Extends s s') : s'.readIndices = s.readIndices := by
  simp only [StorageEngine.readIndices, h.keeps.active, h.keeps.readOnly]

omit [BloomFilter F] in
theorem Extends.trans (h₁ : Extends s₁ s₂) (h₂ : Extends s₂ s₃) : Extends s₁ s₃ where
  keeps := h₁.keeps.trans h₂.keeps
  index p hp := h₂.index p (h₁.index p hp)
  filters p hp := h₂.filters p (h₁.filters p hp)
  tables := by
    obtain ⟨us₁, e₁⟩ := h₁.tables
    obtain ⟨us₂, e₂⟩ := h₂.tables
    exact ⟨us₁ ++ us₂, by rw [e₂, e₁, List.append_assoc]⟩

omit [BloomFilter F] in
theorem extends_registerSstable (s : StorageEngine F) (m : InMemoryTable F) (bucketId path : String) :
    Extends s (s.registerSstable m bucketId path) :=
  ⟨keepsMemtables_registerSstable _ _ _ _, fun _ hp => hp,
    fun _ hp => List.mem_append_left _ hp, _, rfl⟩

omit [BloomFilter F] in
theorem extends_recordBiggestKey (s : StorageEngine F) {path : String}
    (hpath : path ∉ s.biggestKeyIndex.map Prod.fst) (k : Key) :
    Extends s (s.recordBiggestKey path k) :=
  ⟨keepsMemtables_recordBiggestKey _ _ _,
    fun _ hp => by simp only [recordBiggestKey, indexMapInsert_of_not_mem hpath]; exact
      List.mem_append_left _ hp,
    fun _ hp => hp, [], (List.append_nil _).symm⟩

/-- A flush step keeps the invariant when the SSTables it adds fit the history and every
biggest-key entry still names an SSTable. -/
theorem Serves.extend (h : s.Serves records) (he : Extends s s')
    (hfits : ∀ t ∈ s'.sstables, ∀ key v, ¬IsSentinel key → t.entries.lookup key = some v →
      Fits records key v)
    (hindexed : ∀ p ∈ s'.biggestKeyIndex, ∃ t ∈ s'.sstables, t.dataFilePath = p.1) :
    s'.Serves records := by
  have hri := he.readIndices
  obtain ⟨⟨ha, hro, hheap, -, -, -⟩, hidx, hf, htab⟩ := he
  refine ⟨hri ▸ hheap ▸ h.fits, ha ▸ hheap ▸ h.active, fun key w hk hw hn => ?_, h.positive,
    ha ▸ hheap ▸ h.bloom, hri ▸ hheap ▸ h.allocated, hfits, hindexed⟩
  rcases h.sealed key w hk hw (ha ▸ hheap ▸ hn) with hp | ⟨hnone, hin⟩
  · exact .inl (hro ▸ hheap ▸ hp)
  · exact .inr ⟨hro ▸ hheap ▸ hnone, hin.mono hidx hf htab⟩

/-- The memtable `m` has been written to an SSTable step 3 reaches: its path is in
`biggest_key_index` under a key that no key of the skip map is above, its filter is in
`bloom_filters` under the path, and the first SSTable with the path is its skip map. -/
def Flushed (s : StorageEngine F) (m : InMemoryTable F) : Prop :=
  ∃ path biggest, (path, biggest) ∈ s.biggestKeyIndex ∧
    (∀ key ∈ s.heap.cells m.index, keyLt biggest key = false) ∧
    (m.bloomFilter, path) ∈ s.bloomFilters ∧
    s.sstables.find? (fun t => t.dataFilePath = path) = some ⟨path, s.heap.cells m.index⟩

omit [BloomFilter F] in
theorem Flushed.mono {m : InMemoryTable F} (h : s.Flushed m) (he : Extends s s') : s'.Flushed m := by
  obtain ⟨path, biggest, hi, hge, hf, hfind⟩ := h
  obtain ⟨us, hus⟩ := he.tables
  refine ⟨path, biggest, he.index _ hi, he.keeps.heap ▸ hge, he.filters _ hf, ?_⟩
  rw [hus, List.find?_append, hfind, he.keeps.heap]
  rfl

/-- Step 3 reaches what a flushed memtable's filter admits and its skip map holds. -/
theorem Flushed.inSstables {m : InMemoryTable F} (h : s.Flushed m) {key : Key} {w : SkipMapValue}
    (hc : BloomFilter.contains m.bloomFilter key = true)
    (hl : (s.heap.cells m.index).lookup key = some w) : s.InSstables key w := by
  obtain ⟨path, biggest, hi, hge, hf, hfind⟩ := h
  refine ⟨path, biggest, _, hi, hge key (AList.lookup_isSome.1 (by simp [hl])), hf, hc, ?_⟩
  simp [sstGet, hfind, hl]

/-- **One flush keeps the invariant.**  `flush_memtable` on a memtable `get` reads, under a
path no SSTable has, adds the SSTable of its skip map; when it succeeds, the memtable is
`Flushed`. -/
theorem Serves.flushMemtable (h : s.Serves records) {m : InMemoryTable F}
    (hm : m.index ∈ s.readIndices) (bucketId : String) {path : String}
    (hpath : ∀ t ∈ s.sstables, t.dataFilePath ≠ path) :
    (s.flushMemtable m bucketId path).1.Serves records ∧
      Extends s (s.flushMemtable m bucketId path).1 ∧
      (s.flushMemtable m bucketId path).1.sstables = s.sstables ++ [⟨path, s.heap.cells m.index⟩] ∧
      ((s.flushMemtable m bucketId path).2 = .ok () → (s.flushMemtable m bucketId path).1.Flushed m) := by
  -- registering the SSTable
  have hreg : (s.registerSstable m bucketId path).Serves records :=
    h.extend (extends_registerSstable _ _ _ _)
      (fun t ht key v hk hv => by
        rcases List.mem_append.1 ht with ht | ht
        · exact h.sstFits t ht key v hk hv
        · rw [List.mem_singleton.1 ht] at hv
          exact h.fits _ hm key v hk hv)
      (fun p hp => (h.indexed p hp).imp fun t ht => ⟨List.mem_append_left _ ht.1, ht.2⟩)
  have hnew : path ∉ s.biggestKeyIndex.map Prod.fst := fun hmem => by
    obtain ⟨p, hp, hpe⟩ := List.mem_map.1 hmem
    obtain ⟨t, ht, htp⟩ := h.indexed p hp
    exact hpath t ht (htp.trans hpe)
  rcases InMemoryTable.findBiggestKey_cases s.heap m with ⟨-, he⟩ | ⟨-, k, hk⟩
  · rw [StorageEngine.flushMemtable, he]
    exact ⟨hreg, extends_registerSstable _ _ _ _, rfl, nofun⟩
  · rw [StorageEngine.flushMemtable, hk]
    have hext := extends_recordBiggestKey (s.registerSstable m bucketId path) hnew k
    refine ⟨hreg.extend hext hreg.sstFits fun p hp => ?_,
      (extends_registerSstable _ _ _ _).trans hext, rfl, fun _ => ?_⟩
    · rcases mem_indexMapInsert hp with hp | rfl
      · exact hreg.indexed p hp
      · exact ⟨_, List.mem_append_right _ (List.mem_singleton_self _), rfl⟩
    · refine ⟨path, k, mem_indexMapInsert_self _ _ _, InMemoryTable.findBiggestKey_ge hk,
        List.mem_append_right _ (List.mem_singleton_self _), ?_⟩
      have hnone : s.sstables.find? (fun t => t.dataFilePath = path) = none :=
        List.find?_eq_none.2 fun t ht => by simpa using hpath t ht
      simp [recordBiggestKey, hnone]

/-- A table of a list that one flush extended is an old one or the new one. -/
theorem mem_of_sstables_eq_append {ts ts' : List SSTable} {path : String} {entries : SkipMap}
    (h : ts' = ts ++ [⟨path, entries⟩]) {t : SSTable} (ht : t ∈ ts') :
    t ∈ ts ∨ t.dataFilePath = path := by
  subst h
  rcases List.mem_append.1 ht with ht | ht
  · exact .inl ht
  · exact .inr (by rw [List.mem_singleton.1 ht])

/-- The loop over the sealed memtables, under paths that are distinct and name no SSTable:
every flush keeps the invariant, the SSTables it adds sit at the paths it draws, and when
the loop succeeds every memtable it was given is `Flushed`. -/
theorem Serves.flushMemtables {draws : FlushDraws} (hinj : Function.Injective draws.sstablePath) :
    ∀ (s : StorageEngine F) (n : Nat) (ms : List (InMemoryTable F)), s.Serves records →
      (∀ m ∈ ms, m.index ∈ s.readIndices) →
      (∀ j, n ≤ j → ∀ t ∈ s.sstables, t.dataFilePath ≠ draws.sstablePath j) →
      (flushMemtables draws s n ms).1.Serves records ∧ Extends s (flushMemtables draws s n ms).1 ∧
      (∀ t ∈ (flushMemtables draws s n ms).1.sstables,
        t ∈ s.sstables ∨ ∃ j, n ≤ j ∧ t.dataFilePath = draws.sstablePath j) ∧
      ((flushMemtables draws s n ms).2 = .ok () → ∀ m ∈ ms, (flushMemtables draws s n ms).1.Flushed m)
  | s, _, [], h, _, _ => ⟨h, .refl s, fun _ ht => .inl ht, fun _ _ hm => nomatch hm⟩
  | s, n, m :: ms, h, hms, hfresh => by
    obtain ⟨h₁, he₁, ht₁, hfl₁⟩ :=
      h.flushMemtable (hms m (List.mem_cons_self _ _)) (draws.bucketId n) (hfresh n le_rfl)
    generalize hr : s.flushMemtable m (draws.bucketId n) (draws.sstablePath n) = r at h₁ he₁ ht₁ hfl₁
    obtain ⟨s₁, o⟩ := r
    have hnew₁ := fun t => mem_of_sstables_eq_append ht₁ (t := t)
    cases o with
    | ok u =>
      rw [flushMemtables_cons_ok hr]
      obtain ⟨h₂, he₂, ht₂, hfl₂⟩ := Serves.flushMemtables hinj s₁ (n + 1) ms h₁
        (fun m' hm' => he₁.readIndices ▸ hms m' (List.mem_cons_of_mem _ hm'))
        (fun j hj t ht => (hnew₁ t ht).elim (hfresh j (by omega) t) fun htn hj' =>
          absurd (hinj (htn.symm.trans hj')) (by omega))
      refine ⟨h₂, he₁.trans he₂, fun t ht => ?_, fun hok m' hm' => ?_⟩
      · rcases ht₂ t ht with ht | ⟨j, hj, htj⟩
        · exact (hnew₁ t ht).imp_right fun htn => ⟨n, le_rfl, htn⟩
        · exact .inr ⟨j, by omega, htj⟩
      · rcases List.mem_cons.1 hm' with rfl | hm'
        · exact (hfl₁ rfl).mono he₂
        · exact hfl₂ hok m' hm'
    | err _ | panic _ =>
      rw [StorageEngine.flushMemtables, hr]
      exact ⟨h₁, he₁, fun t ht => (hnew₁ t ht).imp_right fun htn => ⟨n, le_rfl, htn⟩, nofun⟩

/-- **Clearing flushed memtables loses nothing.**  When the active memtable and every
sealed one are `Flushed`, `finishFlushAll` keeps the invariant: every key's last entry is
reached through the SSTables. -/
theorem Serves.finishFlushAll (h : s.Serves records) (hact : s.Flushed s.activeMemtable)
    (hro : ∀ p ∈ s.readOnlyMemtables, s.Flushed p.2) (hotness : String → Nat) :
    (s.finishFlushAll hotness).Serves records := by
  have hin : ∀ key w, ¬IsSentinel key → lastEntry records key = some w → s.InSstables key w := by
    intro key w hk hw
    by_cases ha : key ∈ s.heap.cells s.activeMemtable.index
    · exact hact.inSstables (h.bloom key ha) ((h.active key hk ha).trans hw)
    · rcases h.sealed key w hk hw ha with ⟨p, hp, hc, hl⟩ | ⟨-, hin⟩
      · exact (hro p hp).inSstables hc hl
      · exact hin
  have hempty : (s.finishFlushAll hotness).heap.cells s.activeMemtable.index = ∅ :=
    finishFlushAll_active_empty s hotness
  have hri : (s.finishFlushAll hotness).readIndices = [s.activeMemtable.index] := rfl
  refine ⟨fun i hi key v _ hv => ?_, fun key _ hm => absurd hm (hempty ▸ AList.not_mem_empty key),
    fun key w hk hw _ => .inr ⟨nofun, ?_⟩, h.positive, InMemoryTable.bloomCovers_clear _ _,
    fun i hi => ?_, h.sstFits, h.indexed⟩
  · rw [hri, List.mem_singleton] at hi
    subst hi
    rw [hempty] at hv
    cases hv
  · exact (hin key w hk hw).mono (fun _ hp => hp) (fun _ hp => List.mem_mergeSort.2 hp)
      ⟨[], (List.append_nil _).symm⟩
  · rw [hri, List.mem_singleton] at hi
    subst hi
    exact h.allocated _ (List.mem_cons_self _ _)

/-- **`flush_all_memtables` keeps the invariant**, whether it succeeds or fails, when the
paths it draws are distinct and name no SSTable yet.  It leaves the value log alone, and
every SSTable it adds sits at a path it drew. -/
theorem Serves.flushAllMemtables (h : s.Serves records) {draws : FlushDraws}
    (hinj : Function.Injective draws.sstablePath)
    (hfresh : ∀ j, ∀ t ∈ s.sstables, t.dataFilePath ≠ draws.sstablePath j) :
    (s.flushAllMemtables draws).1.Serves records ∧ (s.flushAllMemtables draws).1.valLog = s.valLog ∧
      ∀ t ∈ (s.flushAllMemtables draws).1.sstables,
        t ∈ s.sstables ∨ ∃ j, t.dataFilePath = draws.sstablePath j := by
  obtain ⟨h₁, he₁, ht₁, hfl₁⟩ :=
    h.flushMemtable (List.mem_cons_self _ _) (draws.bucketId 0) (hfresh 0)
  unfold StorageEngine.flushAllMemtables
  generalize s.flushMemtable s.activeMemtable (draws.bucketId 0) (draws.sstablePath 0) = r₁
    at h₁ he₁ ht₁ hfl₁
  obtain ⟨s₁, o₁⟩ := r₁
  have hnew₁ : ∀ t ∈ s₁.sstables, t ∈ s.sstables ∨ ∃ j, t.dataFilePath = draws.sstablePath j :=
    fun t ht => (mem_of_sstables_eq_append ht₁ ht).imp_right fun h0 => ⟨0, h0⟩
  cases o₁ with
  | ok u =>
    dsimp only
    obtain ⟨h₂, he₂, ht₂, hfl₂⟩ := h₁.flushMemtables hinj s₁ 1 (s₁.readOnlyMemtables.map Prod.snd)
      (fun m hm => by
        obtain ⟨p, hp, rfl⟩ := List.mem_map.1 hm
        exact List.mem_cons_of_mem _ (List.mem_map_of_mem _ hp))
      (fun j hj t ht => (mem_of_sstables_eq_append ht₁ ht).elim (hfresh j t) fun h0 hj0 =>
        absurd (hinj (h0.symm.trans hj0)) (by omega))
    have hnew₂ : ∀ t ∈
        (StorageEngine.flushMemtables draws s₁ 1 (s₁.readOnlyMemtables.map Prod.snd)).1.sstables,
        t ∈ s.sstables ∨ ∃ j, t.dataFilePath = draws.sstablePath j := fun t ht =>
      (ht₂ t ht).elim (hnew₁ t) fun ⟨j, _, htj⟩ => .inr ⟨j, htj⟩
    have hlog := he₂.keeps.valLog.trans he₁.keeps.valLog
    have hactive := he₂.keeps.active.trans he₁.keeps.active
    have hsealed := he₂.keeps.readOnly
    generalize StorageEngine.flushMemtables draws s₁ 1 (s₁.readOnlyMemtables.map Prod.snd) = r₂
      at h₂ he₂ hfl₂ hnew₂ hlog hactive hsealed
    obtain ⟨s₂, o₂⟩ := r₂
    cases o₂ with
    | ok u =>
      refine ⟨h₂.finishFlushAll (hactive ▸ (hfl₁ rfl).mono he₂) (fun p hp => ?_) _, hlog, hnew₂⟩
      exact hfl₂ rfl p.2 (List.mem_map_of_mem _ (hsealed ▸ hp))
    | err _ | panic _ => exact ⟨h₂, hlog, hnew₂⟩
  | err _ | panic _ => exact ⟨h₁, he₁.keeps.valLog, hnew₁⟩

/-- **A successful `flush_all_memtables` persists every write.**  Under the invariant, when
the call returns `Ok` the memtables hold nothing, and every key's last entry is in an SSTable
that the search of `get` reaches. -/
theorem Serves.flushAllMemtables_persists (h : s.Serves records) {draws : FlushDraws}
    (hinj : Function.Injective draws.sstablePath)
    (hfresh : ∀ j, ∀ t ∈ s.sstables, t.dataFilePath ≠ draws.sstablePath j)
    (hok : (s.flushAllMemtables draws).2 = .ok ()) :
    (s.flushAllMemtables draws).1.readOnlyMemtables = [] ∧
      (s.flushAllMemtables draws).1.heap.cells (s.flushAllMemtables draws).1.activeMemtable.index = ∅ ∧
      ∀ key w, ¬IsSentinel key → lastEntry records key = some w →
        (s.flushAllMemtables draws).1.InSstables key w := by
  obtain ⟨hs, -, -⟩ := h.flushAllMemtables hinj hfresh
  obtain ⟨s₁, -, ⟨-, hf⟩ | ⟨-, hf⟩⟩ := flushAllMemtables_eq s draws
  · rw [hf] at hs ⊢
    have hempty := finishFlushAll_active_empty s₁ draws.hotness
    refine ⟨rfl, hempty, fun key w hk hw => ?_⟩
    -- no memtable is left to hold the key
    rcases hs.sealed key w hk hw (hempty ▸ AList.not_mem_empty _) with ⟨p, hp, -⟩ | ⟨-, hin⟩
    · exact nomatch hp
    · exact hin
  · rw [hf] at hok
    cases hok

/-- Paths of one repeated letter, `a`, `aa`, `aaa`, ...: distinct, and distinct from those
of another letter. -/
def letterDraws (c : Char) : FlushDraws :=
  ⟨fun _ => "bucket-1", fun n => String.mk (List.replicate (n + 1) c), fun _ => 1⟩

theorem letterDraws_injective (c : Char) : Function.Injective (letterDraws c).sstablePath :=
  fun _ _ h => by simpa [letterDraws] using congrArg String.length h

theorem letterDraws_disjoint (i j : Nat) :
    (letterDraws 'a').sstablePath i ≠ (letterDraws 'b').sstablePath j := fun h => by
  have := congrArg (·.data.head?) h
  simp [letterDraws, List.replicate_succ] at this

/-- Two `put`s on `smallEngine`.  The sentinels already fill its 31-byte memtable, so each
`put` rolls the memtable over, and the flush writes two sealed memtables as well as the
active one. -/
def twoPuts : List Call := [.put [97] [49] 2 2 [48], .put [98] [50] 3 3 [49]]

theorem written_engine_flush_persists :
    ∃ s, (smallEngine >>= (·.run twoPuts)) = .ok s ∧ s.Serves s.valLog.records ∧
      s.readOnlyMemtables.length = 2 ∧ lastEntry s.valLog.records [97] ≠ none ∧
      lastEntry s.valLog.records [98] ≠ none ∧ (s.flushAllMemtables (letterDraws 'a')).2 = .ok () ∧
      ((s.flushAllMemtables (letterDraws 'a')).1.readOnlyMemtables = [] ∧
        (s.flushAllMemtables (letterDraws 'a')).1.heap.cells
          (s.flushAllMemtables (letterDraws 'a')).1.activeMemtable.index = ∅ ∧
        ∀ key w, ¬IsSentinel key → lastEntry s.valLog.records key = some w →
          (s.flushAllMemtables (letterDraws 'a')).1.InSstables key w) :=
  (fun (hs : (smallEngine >>= (·.run twoPuts)) = .ok _) =>
    (serves_of_openEmpty_run (by decide) (by decide) (by decide) hs).elim fun _ h =>
      ⟨_, hs, h.2.1, by rfl, by decide, by decide, by rfl, Serves.flushAllMemtables_persists h.2.1
        (letterDraws_injective 'a') (fun _ t ht => absurd (h.2.2.1 ▸ ht) (List.not_mem_nil t)) (by rfl)⟩) rfl

end Flushes

/-! ### Runs of writes and `flush_all_memtables` -/

/-- The user calls of a run, in order. -/
def callsOf : List Operation → List Call
  | [] => []
  | .call c :: ops => c :: callsOf ops
  | .flushAll _ :: ops => callsOf ops

/-- What the `flush_all_memtables` calls of a run draw, in order. -/
def flushDrawsOf : List Operation → List FlushDraws
  | [] => []
  | .call _ :: ops => flushDrawsOf ops
  | .flushAll d :: ops => d :: flushDrawsOf ops

omit [BloomFilter F] in
/-- The records an operation appends when it returns `Ok`, over a run: those of its calls. -/
theorem flatMap_callsOf (ops : List Operation) :
    ops.flatMap (fun o => (callsOf [o]).map Call.record) = (callsOf ops).map Call.record := by
  induction ops with
  | nil => rfl
  | cons o ops ih => cases o <;> simp [callsOf, ih]

section Exec

variable {s s' : StorageEngine F}

/-- What the `flush_all_memtables` calls of a run need of the engine they start from: each
draws distinct SSTable paths, no two draw a common one, and none names an SSTable there. -/
structure FreshFlushes (s : StorageEngine F) (draws : List FlushDraws) : Prop where
  inj : ∀ d ∈ draws, Function.Injective d.sstablePath
  disj : draws.Pairwise fun d d' => ∀ i j, d.sstablePath i ≠ d'.sstablePath j
  fresh : ∀ d ∈ draws, ∀ j, ∀ t ∈ s.sstables, t.dataFilePath ≠ d.sstablePath j

/-- A table id sealed after `flush_all_memtables` was sealed before: the call keeps
`read_only_memtables` or empties it. -/
theorem sealedIds_flushAllMemtables (s : StorageEngine F) (draws : FlushDraws) :
    ∀ id ∈ (s.flushAllMemtables draws).1.sealedIds, id ∈ s.sealedIds := by
  obtain ⟨s₁, hk, ⟨-, hf⟩ | ⟨-, hf⟩⟩ := flushAllMemtables_eq s draws <;> rw [hf] <;> intro id hid
  · exact nomatch hid
  · rwa [sealedIds, hk.readOnly] at hid

/-- **One operation of a run.**  An operation that returns `Ok` appends the records of its
call, none for a flush, and keeps the invariant, and the later operations meet their
conditions against the engine it returns. -/
theorem Serves.perform_fresh (h : s.Serves s.valLog.records) {o : Operation}
    {ops : List Operation} (hc : FreshCalls s (callsOf (o :: ops)))
    (hf : FreshFlushes s (flushDrawsOf (o :: ops))) (hp : s.perform o = .ok s') :
    (s'.Serves s'.valLog.records ∧ FreshCalls s' (callsOf ops) ∧
        FreshFlushes s' (flushDrawsOf ops)) ∧
      s'.valLog.records = s.valLog.records ++ (callsOf [o]).map Call.record := by
  cases o with
  | call c =>
    obtain ⟨⟨hs', hc'⟩, hlog⟩ := h.apply_fresh hc hp
    exact ⟨⟨hs', hc', ⟨hf.inj, hf.disj, (sstables_apply hp).symm ▸ hf.fresh⟩⟩, hlog⟩
  | flushAll d =>
    cases hp
    have hinj := List.forall_mem_cons.1 hf.inj
    have hdisj := List.pairwise_cons.1 hf.disj
    have hfresh := List.forall_mem_cons.1 hf.fresh
    obtain ⟨hs', hlog, ht⟩ := h.flushAllMemtables hinj.1 hfresh.1
    refine ⟨⟨by rw [hlog]; exact hs', ⟨hc.pos, hc.inc, by rw [hlog]; exact hc.old, hc.ids,
      fun c hc' hid => hc.free c hc' (sealedIds_flushAllMemtables s d _ hid)⟩,
      ⟨hinj.2, hdisj.2, fun d' hd' j t ht' => ?_⟩⟩, by simp [hlog, callsOf]⟩
    -- the later flushes draw paths no SSTable has yet
    rcases ht t ht' with ht' | ⟨i, hti⟩
    · exact hfresh.2 d' hd' j t ht'
    · exact hti ▸ hdisj.1 d' hd' i j

/-- **A run of writes and flushes keeps the invariant.**  Over a run whose calls meet
`FreshCalls` and whose flushes meet `FreshFlushes`, the log gains exactly the records of the
calls that returned `Ok`, in order, and the engine serves it. -/
theorem Serves.exec (h : s.Serves s.valLog.records) {ops : List Operation}
    (hc : FreshCalls s (callsOf ops)) (hf : FreshFlushes s (flushDrawsOf ops))
    (hrun : s.exec ops = .ok s') :
    s'.Serves s'.valLog.records ∧ s'.valLog.records =
      s.valLog.records ++ (callsOf (Outcome.okInputs perform s ops)).map Call.record := by
  obtain ⟨⟨hs', -⟩, hlog⟩ := Outcome.steps_log
    (P := fun t ops => t.Serves t.valLog.records ∧ FreshCalls t (callsOf ops) ∧
      FreshFlushes t (flushDrawsOf ops))
    (L := fun t => t.valLog.records) (f := fun o => (callsOf [o]).map Call.record)
    (fun _ _ _ _ hP hp => hP.1.perform_fresh hP.2.1 hP.2.2 hp)
    (fun _ o _ _ hP hp => by
      cases o with
      | call c => exact ⟨hP.1, hP.2.1.tail, hP.2.2⟩
      | flushAll d => cases hp)
    ⟨h, hc, hf⟩ hrun
  exact ⟨hs', by rw [hlog, flatMap_callsOf]⟩

end Exec

end StorageEngine

end LsmEngine
