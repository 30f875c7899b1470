import LsmEngine.Engine.Read

/-!
# Reads across `flush_all_memtables`

Under `Serves`, `get` (`src/storage_engine/storage.rs`, lines 246 to 360) answers what the
value log says (`Serves.get_readsBack`): the last write's value and `created_at`, a
tombstone error for a delete, and one of the not-found errors of the SSTable search for a
key never written.  A key whose last entry a memtable holds is read from it as before
(`Serves.get_of_memtable`); otherwise the search of step 3 reaches the SSTable that holds the
last entry and keeps it, as no SSTable entry is newer (`Serves.searchSstables_of_inSstables`).

So `delete` (lines 362 to 430), which reads before it writes, writes a tombstone exactly over
a live write, after which `get` reports the tombstone, and otherwise returns the error of its
read and writes nothing (`Serves.delete_spec`).  Along any run of writes and
`flush_all_memtables` calls from a fresh engine, with times that increase per key, table ids
that do not repeat, and SSTable paths that do not repeat, the log is the `TAIL` and `HEAD`
records followed by the records of the calls that returned `Ok`, and every read returns the
last write (`reads_return_last_write_across_flushes`).
-/

namespace LsmEngine

namespace StorageEngine

variable {F : Type} [BloomFilter F]

/-! ### What a read may answer once SSTables exist -/

/-- What `get` may answer from the log once SSTables exist.  For a live last record, its
value and `created_at`.  For a delete, the tombstone error of the memtables or of the
SSTables.  For a key no record has, one of the not-found errors of the SSTable search. -/
def ReadsBack (records : List ValueLogEntry) (key : Key) (o : Outcome (Key × Nat)) : Prop :=
  match records.reverse.find? (·.key = key) with
  | none => o = .err .keyNotFoundInAnySSTableError ∨ o = .err .keyNotFoundByAnyBloomFilterError ∨
      o = .err .notFoundInDB
  | some r =>
    if r.isTombstone then
      o = .err .keyFoundAsTombstoneInMemtableError ∨ o = .err .keyFoundAsTombstoneInSSTableError
    else o = .ok (r.value, r.createdAt)

/-! ### `get` under the invariant -/

section Reads

variable {s : StorageEngine F} {key : Key}

omit [BloomFilter F] in
/-- One step of a scan, against an entry `v` no hit is newer than: the accumulator stays
below `v`, equal to it once as new, and it is `v` after the step when it was `v` before or
the step's hit is `v`. -/
theorem scanStep_bounded {v acc : SkipMapValue} {x : Option SkipMapValue}
    (hx : ∀ w, x = some w → w.2.1 ≤ v.2.1 ∧ (w.2.1 = v.2.1 → w = v))
    (hle : acc.2.1 ≤ v.2.1) (heq : acc.2.1 = v.2.1 → acc = v) :
    (scanStep acc x).2.1 ≤ v.2.1 ∧ ((scanStep acc x).2.1 = v.2.1 → scanStep acc x = v) ∧
      (acc = v ∨ x = some v → scanStep acc x = v) := by
  cases x with
  | none => exact ⟨hle, heq, fun h => h.elim id nofun⟩
  | some w =>
    obtain ⟨hwle, hweq⟩ := hx w rfl
    rw [scanStep_some]
    split_ifs with hlt
    · refine ⟨hwle, hweq, fun h => h.elim (fun hav => ?_) Option.some.inj⟩
      subst hav; omega
    · exact ⟨hle, heq, fun h => h.elim id fun hw => heq (by cases hw; omega)⟩

omit [BloomFilter F] in
/-- The fold of step 3 ends at `v` once it has seen `v`, when no hit is newer than `v` and
none is as new without being `v`. -/
theorem foldl_scanStep_eq_newest {α : Type} (g : α → Option SkipMapValue) {v : SkipMapValue}
    (hhits : ∀ a w, g a = some w → w.2.1 ≤ v.2.1 ∧ (w.2.1 = v.2.1 → w = v)) :
    ∀ {l : List α} {acc : SkipMapValue}, acc.2.1 ≤ v.2.1 → (acc.2.1 = v.2.1 → acc = v) →
      (acc = v ∨ ∃ a ∈ l, g a = some v) → l.foldl (fun acc a => scanStep acc (g a)) acc = v
  | [], _, _, _, hseen => by simpa using hseen
  | a :: l, acc, hle, heq, hseen => by
    obtain ⟨hle', heq', hv⟩ := scanStep_bounded (hhits a) hle heq
    rw [List.foldl_cons]
    refine foldl_scanStep_eq_newest g hhits hle' heq' ?_
    rcases hseen with h | ⟨b, hb, hbv⟩
    · exact .inl (hv (.inl h))
    · rcases List.mem_cons.1 hb with rfl | hb
      · exact .inl (hv (.inr hbv))
      · exact .inr ⟨b, hb, hbv⟩

omit [BloomFilter F] in
/-- A hit of `sstGet` is an entry of one of the SSTables. -/
theorem sstGet_eq_some {ts : List SSTable} {path : String} {v : SkipMapValue}
    (h : sstGet ts path key = some v) : ∃ t ∈ ts, t.entries.lookup key = some v := by
  obtain ⟨t, ht, hv⟩ := Option.bind_eq_some.1 h
  exact ⟨t, List.mem_of_find?_eq_some ht, hv⟩

/-- **Step 3 finds the last entry.**  When step 3 reaches an SSTable that holds a key's
last entry, and every SSTable entry fits the history, the search answers that entry, or
the SSTable tombstone error for a delete. -/
theorem Serves.searchSstables_of_inSstables {records : List ValueLogEntry}
    (h : s.Serves records) (hk : ¬IsSentinel key) {w : SkipMapValue}
    (hw : lastEntry records key = some w) (hin : s.InSstables key w) (hpos : 0 < w.2.1) :
    s.searchSstables key (0, 0, false) =
      if w.2.2 then .err .keyFoundAsTombstoneInSSTableError else .ok w := by
  obtain ⟨path, biggest, f, hi, hlt, hfm, hc, hget⟩ := hin
  have hrange : path ∈ filterSstablesByBiggestKey s.biggestKeyIndex key :=
    List.mem_map.2 ⟨(path, biggest), List.mem_filter.2 ⟨hi, by simp [hlt]⟩, rfl⟩
  have hbf : (f, path) ∈ bloomFiltersWithinKeyRange s.bloomFilters
      (filterSstablesByBiggestKey s.biggestKeyIndex key) :=
    List.mem_filter.2 ⟨hfm, decide_eq_true hrange⟩
  unfold searchSstables sstablesWithinKeyRange
  dsimp only
  rw [if_neg (List.isEmpty_iff.not.2 (List.ne_nil_of_mem hrange)),
    if_neg (List.isEmpty_iff.not.2 (List.ne_nil_of_mem hbf))]
  have hpaths : path ∈ ((bloomFiltersWithinKeyRange s.bloomFilters
      (filterSstablesByBiggestKey s.biggestKeyIndex key)).filter
        fun b => BloomFilter.contains b.1 key).map Prod.snd :=
    List.mem_map.2 ⟨(f, path), List.mem_filter.2 ⟨hbf, hc⟩, rfl⟩
  generalize ((bloomFiltersWithinKeyRange s.bloomFilters
      (filterSstablesByBiggestKey s.biggestKeyIndex key)).filter
        fun b => BloomFilter.contains b.1 key).map Prod.snd = paths at hpaths
  -- the newest hit over the admitted paths is the last entry
  have hfold : paths.foldl (fun acc p => scanStep acc (sstGet s.sstables p key)) (0, 0, false) = w :=
    foldl_scanStep_eq_newest _ (fun _ v hv => by
        obtain ⟨t, ht, hl⟩ := sstGet_eq_some hv
        exact (h.sstFits t ht key v hk hl).2 w hw)
      (Nat.zero_le _) (fun h0 => absurd h0 hpos.ne) (.inr ⟨path, hpaths, hget⟩)
  cases paths with
  | nil => cases hpaths
  | cons p ps =>
    dsimp only
    rw [hfold]
    by_cases hb : w.2.2 = true <;> simp [hb, hpos]

/-- For a key no record has, step 3 answers one of its not-found errors, or it finds
nothing and passes the empty accumulator on. -/
theorem Serves.searchSstables_of_lastEntry_none {records : List ValueLogEntry}
    (h : s.Serves records) (hk : ¬IsSentinel key) (hnone : lastEntry records key = none) :
    s.searchSstables key (0, 0, false) = .err .keyNotFoundInAnySSTableError ∨
      s.searchSstables key (0, 0, false) = .err .keyNotFoundByAnyBloomFilterError ∨
      s.searchSstables key (0, 0, false) = .ok (0, 0, false) := by
  have hfold : ∀ paths : List String,
      paths.foldl (fun acc p => scanStep acc (sstGet s.sstables p key)) (0, 0, false) = (0, 0, false) :=
    fun _ => foldl_scanStep_eq_newest _ (fun _ v hv => by
        obtain ⟨t, ht, hl⟩ := sstGet_eq_some hv
        obtain ⟨r, hr, hkey, -⟩ := (h.sstFits t ht key v hk hl).1
        exact absurd hkey (lastEntry_eq_none hnone r (mem_of_recordAt hr)))
      le_rfl (fun _ => rfl) (.inl rfl)
  unfold searchSstables sstablesWithinKeyRange
  dsimp only
  split_ifs
  · exact .inl rfl
  · exact .inr (.inl rfl)
  · split
    · exact .inl rfl
    · rw [hfold]
      exact .inr (.inr rfl)

omit [BloomFilter F] in
/-- What `get` does with a key's last entry is what `ReadsBack` allows: both tombstone errors
for a delete, and `read_value` at its offset for a live record. -/
theorem readsBack_of_lastEntry {o t : Nat} {b : Bool}
    (hlast : lastEntry s.valLog.records key = some (o, t, b)) (ht : 0 < t) :
    (b = true → ∀ e, e = .keyFoundAsTombstoneInMemtableError ∨
        e = .keyFoundAsTombstoneInSSTableError → ReadsBack s.valLog.records key (.err e)) ∧
      (b = false → ReadsBack s.valLog.records key (s.readValue o t)) := by
  obtain ⟨r, hfind, hrec, -, hv⟩ := lastEntry_eq_some hlast
  obtain ⟨rfl, rfl⟩ : t = r.createdAt ∧ b = r.isTombstone := by simpa using hv
  refine ⟨fun hb e he => ?_, fun hb => ?_⟩
  · simp only [ReadsBack, hfind, hb, if_true]
    rcases he with rfl | rfl <;> simp
  · simp only [ReadsBack, hfind, hb, readValue_of_recordAt hrec ht]
    rfl

/-- **Under the invariant, `get` answers what the log says**, once SSTables exist: the last
write's value and `created_at`, a tombstone error for a delete, and a not-found error for a
key no record has. -/
theorem Serves.get_readsBack (h : s.Serves s.valLog.records) (hk : ¬IsSentinel key) :
    ReadsBack s.valLog.records key (s.get key) := by
  cases hlast : lastEntry s.valLog.records key with
  | some w =>
    obtain ⟨o, t, b⟩ := w
    have ht := lastEntry_pos h.positive hk hlast
    obtain ⟨htomb, hlive⟩ := readsBack_of_lastEntry hlast ht
    by_cases hm : key ∈ s.heap.cells s.activeMemtable.index ∨ ∃ p ∈ s.readOnlyMemtables,
        BloomFilter.contains p.2.bloomFilter key = true ∧
          (s.heap.cells p.2.index).lookup key = some (o, t, b)
    · -- a memtable holds the last entry
      rw [h.get_of_memtable hk hlast hm]
      cases b
      · exact hlive rfl
      · exact htomb rfl _ (.inl rfl)
    · -- no memtable holds the key, and step 3 finds its last entry
      obtain ⟨ha, hp⟩ := not_or.1 hm
      obtain ⟨hro, hin⟩ := (h.sealed key _ hk hlast ha).resolve_left hp
      rw [get_of_no_memtable h.bloom ha hro, h.searchSstables_of_inSstables hk hlast hin ht]
      cases b
      · simpa using hlive rfl
      · simpa using htomb rfl _ (.inr rfl)
  | none =>
    -- no skip map holds the key, and step 3 finds nothing
    have hout := h.not_mem_of_lastEntry_none hk hlast
    rw [get_of_no_memtable h.bloom (hout _ (List.mem_cons_self _ _))
      (fun p hp => hout _ (mem_readIndices_of_sealed hp))]
    unfold ReadsBack
    rw [find?_eq_none_of_lastEntry hlast]
    rcases h.searchSstables_of_lastEntry_none hk hlast with he | he | he <;> simp [he, readValue]

/-- The key's last write is a put or an update. -/
def liveIn (records : List ValueLogEntry) (key : Key) : Bool :=
  match records.reverse.find? (·.key = key) with
  | some r => !r.isTombstone
  | none => false

/-- A read may answer `Ok` only for a key whose last write is live. -/
theorem ReadsBack.ok_iff {records : List ValueLogEntry} {o : Outcome (Key × Nat)}
    (h : ReadsBack records key o) : (∃ v, o = .ok v) ↔ liveIn records key = true := by
  unfold ReadsBack at h
  unfold liveIn
  generalize records.reverse.find? (·.key = key) = last at h ⊢
  cases last with
  | none => rcases h with rfl | rfl | rfl <;> simp
  | some r =>
    dsimp only at h ⊢
    by_cases ht : r.isTombstone = true
    · rw [if_pos ht] at h
      rcases h with rfl | rfl <;> simp [ht]
    · rw [if_neg ht] at h
      simp [h, ht]

/-- **`delete` writes a tombstone exactly over a live write.**  Under the invariant, with a
fresh table id and a time newer than every record of the key, `delete` of a key whose last
write is a put or an update is the tombstone write; when it returns `Ok`, the log has gained
the tombstone, the engine serves the longer log, and `get` answers the memtable tombstone
error.  For a key never written, or whose last write is already a delete, `delete` returns
the error of its `get` and writes nothing. -/
theorem Serves.delete_spec (h : s.Serves s.valLog.records) (hk : ¬IsSentinel key)
    {createdAt headNow : Nat} {tableId : TableId} (hid : tableId ∉ s.sealedIds)
    (hfresh : ∀ q ∈ s.valLog.records, q.key = key → q.createdAt < createdAt)
    (hpos : 0 < createdAt) :
    (liveIn s.valLog.records key = true →
      s.delete key createdAt headNow tableId =
        StorageEngine.appendAndInsert (StorageEngine.rolloverInDelete · headNow tableId) s key
          tombStoneMarker createdAt true ∧
      ∀ s', s.delete key createdAt headNow tableId = .ok s' →
        s'.valLog.records = s.valLog.records ++ [⟨key, tombStoneMarker, createdAt, true⟩] ∧
        s'.Serves s'.valLog.records ∧ s'.get key = .err .keyFoundAsTombstoneInMemtableError) ∧
    (liveIn s.valLog.records key = false →
      ∃ e, s.get key = .err e ∧ s.delete key createdAt headNow tableId = .err e) := by
  have hok := (h.get_readsBack hk).ok_iff
  refine ⟨fun hl => ?_, fun hl => ?_⟩
  · obtain ⟨v, hv⟩ := hok.2 hl
    refine ⟨delete_eq_of_get_ok hv, fun s' hd => ?_⟩
    obtain ⟨hs', hlog⟩ := h.apply (c := .delete key createdAt headNow tableId) hid
      (fun _ => hfresh) hpos hd
    -- the tombstone is the key's last entry, and the active memtable holds it
    have hlast : lastEntry s'.valLog.records key =
        some (logLength s.valLog.records, createdAt, true) := by
      rw [hlog, lastEntry_append_singleton]
      exact if_pos rfl
    obtain ⟨s₁, -, rfl⟩ := appendAndInsert_eq ((delete_eq_of_get_ok hv).symm.trans hd)
    exact ⟨hlog, hs', hs'.get_of_memtable hk hlast (.inl (insertActive_mem_self s₁ ⟨key, _, _, _⟩))⟩
  · cases hg : s.get key with
    | ok v => exact absurd (hok.1 ⟨v, hg⟩) (by simp [hl])
    | err e => exact ⟨e, rfl, delete_eq_err.2 hg⟩
    | panic p => simpa [hg, Outcome.panicSite] using get_panicSite s key

/-- One `put` of `"a"` on `smallEngine`, after which `"a"` is live and `"b"` never written. -/
def putA : List Call := [.put [97] [49] 2 2 [48]]

theorem delete_after_put_writes_tombstone :
    ∃ s, (smallEngine >>= (·.run putA)) = .ok s ∧ s.Serves s.valLog.records ∧
      liveIn s.valLog.records [97] = true ∧ liveIn s.valLog.records [98] = false ∧
      (∃ s', s.delete [97] 3 3 [49] = .ok s') ∧
      ((liveIn s.valLog.records [97] = true →
        s.delete [97] 3 3 [49] =
          StorageEngine.appendAndInsert (StorageEngine.rolloverInDelete · 3 [49]) s [97]
            tombStoneMarker 3 true ∧
        ∀ s', s.delete [97] 3 3 [49] = .ok s' →
          s'.valLog.records = s.valLog.records ++ [⟨[97], tombStoneMarker, 3, true⟩] ∧
          s'.Serves s'.valLog.records ∧ s'.get [97] = .err .keyFoundAsTombstoneInMemtableError) ∧
      (liveIn s.valLog.records [97] = false →
        ∃ e, s.get [97] = .err e ∧ s.delete [97] 3 3 [49] = .err e)) ∧
      ((liveIn s.valLog.records [98] = true →
        s.delete [98] 3 3 [49] =
          StorageEngine.appendAndInsert (StorageEngine.rolloverInDelete · 3 [49]) s [98]
            tombStoneMarker 3 true ∧
        ∀ s', s.delete [98] 3 3 [49] = .ok s' →
          s'.valLog.records = s.valLog.records ++ [⟨[98], tombStoneMarker, 3, true⟩] ∧
          s'.Serves s'.valLog.records ∧ s'.get [98] = .err .keyFoundAsTombstoneInMemtableError) ∧
      (liveIn s.valLog.records [98] = false →
        ∃ e, s.get [98] = .err e ∧ s.delete [98] 3 3 [49] = .err e)) :=
  (fun (hs : (smallEngine >>= (·.run putA)) = .ok _) =>
    (serves_of_openEmpty_run (by decide) (by decide) (by decide) hs).elim fun _ h =>
      ⟨_, hs, h.2.1, by decide, by decide, ⟨_, by rfl⟩,
        Serves.delete_spec h.2.1 (by decide) (by decide) (by decide) (by decide),
        Serves.delete_spec h.2.1 (by decide) (by decide) (by decide) (by decide)⟩) rfl

end Reads

/-! ### Runs of writes and `flush_all_memtables` -/

section Runs

variable {s : StorageEngine F}

/-- **Reads return the last write across flushes.**  Open an engine on an empty directory
and run any writes and `flush_all_memtables` calls, the writes with positive times that
strictly increase over the writes to each key and table ids that do not repeat, the
flushes with SSTable paths that repeat neither within one call nor across calls.  The log
is the `TAIL` and `HEAD` records followed by the records of the writes that returned `Ok`,
in order; and for every key but the sentinels `get` answers from the last of them, whether
the memtables or the SSTables hold it: its value and `created_at` for a put or update, a
tombstone error for a delete, and a not-found error when there is none. -/
theorem reads_return_last_write_across_flushes {sizeUnit : SizeUnit} {capacity : Nat}
    {config : Config} {createdAt : Nat} {ops : List Operation}
    (hpos : ∀ c ∈ callsOf ops, 0 < c.record.createdAt)
    (hinc : (callsOf ops).Pairwise fun c c' =>
      c.record.key = c'.record.key → c.record.createdAt < c'.record.createdAt)
    (hids : ((callsOf ops).map Call.tableId).Nodup)
    (hinj : ∀ d ∈ flushDrawsOf ops, Function.Injective d.sstablePath)
    (hdisj : (flushDrawsOf ops).Pairwise fun d d' => ∀ i j, d.sstablePath i ≠ d'.sstablePath j)
    (hrun : (openEmpty sizeUnit capacity config createdAt >>= (·.exec ops)) = .ok s) :
    (∃ s₀ : StorageEngine F, openEmpty sizeUnit capacity config createdAt = .ok s₀ ∧
      s.valLog.records =
        [⟨tailEntryKey, [], createdAt, false⟩, ⟨headEntryKey, [], createdAt, false⟩] ++
          (callsOf (Outcome.okInputs perform s₀ ops)).map Call.record) ∧
    ∀ key, ¬IsSentinel key → ReadsBack s.valLog.records key (s.get key) := by
  obtain ⟨s₀, he, hrun⟩ := Outcome.bind_eq_ok.1 hrun
  obtain ⟨h₀, hro, hsst, hrec⟩ := serves_openEmpty he
  have hsent : ∀ q ∈ s₀.valLog.records, IsSentinel q.key := by rw [hrec]; simp [IsSentinel]
  obtain ⟨h, hlog⟩ := h₀.exec (.of_sentinels hsent hro hpos hinc hids)
    ⟨hinj, hdisj, fun _ _ _ t ht => by simp [hsst] at ht⟩ hrun
  exact ⟨⟨s₀, he, hrec ▸ hlog⟩, fun key hk => h.get_readsBack hk⟩

/-- Writes on `smallEngine`, a flush, a write and a delete of `"a"`, a second flush and an
update of `"b"`, whose last write sits in an SSTable. -/
def flushingOperations : List Operation :=
  [.call (.put [97] [49] 2 2 [48]), .call (.put [98] [50] 3 3 [49]),
    .flushAll (letterDraws 'a'), .call (.put [97] [51] 4 4 [50]), .call (.delete [97] 5 5 [51]),
    .flushAll (letterDraws 'b'), .call (.update [98] [52] 6 6 [52])]

theorem flushing_run_reads_back :
    ∃ s, (smallEngine >>= (·.exec flushingOperations)) = .ok s ∧
      (∃ s₀ : StorageEngine ExactFilter, smallEngine = .ok s₀ ∧
        s.valLog.records = [⟨tailEntryKey, [], 1, false⟩, ⟨headEntryKey, [], 1, false⟩] ++
          (callsOf (Outcome.okInputs perform s₀ flushingOperations)).map Call.record) ∧
      ∀ key, ¬IsSentinel key → ReadsBack s.valLog.records key (s.get key) :=
  (fun hs => ⟨_, hs, reads_return_last_write_across_flushes (by decide) (by decide) (by decide)
    (by simp [flushDrawsOf, flushingOperations, letterDraws_injective])
    (by simp [flushDrawsOf, flushingOperations, letterDraws_disjoint]) hs⟩) rfl

end Runs

end StorageEngine

end LsmEngine
