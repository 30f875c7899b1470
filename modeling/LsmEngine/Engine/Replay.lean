import LsmEngine.Engine.Reopen

/-!
# What one step of the replay does

`recover_memtable` (`src/storage_engine/storage.rs`, lines 747 to 807) replays the value
log from the head offset, one record per iteration of `for e in entries`.
`replayStep_eq` says everything one iteration can do: skip the record at the head offset,
or insert the record at `most_recent_offset` into the active memtable, after sealing it and
starting a fresh one when it is full for the record's key.  In every case
`most_recent_offset` moves past the record by its size in the log.  `replay_preserves`
packages the loop: what every iteration keeps, the replay keeps.
-/

namespace LsmEngine

namespace StorageEngine

variable {F : Type} [BloomFilter F]

section Step

variable {sizeUnit : SizeUnit} {capacity : Nat} {rate : F64} {headOffset : Nat}
  {draw : Nat → TableId}

/-- **One iteration of the replay.**  The record at the head offset is skipped.  Any other
record goes into the active memtable (after the memtable is sealed into
`read_only_memtables` under the next drawn id and a fresh one started, when it is full for
the record's key) as an entry at `most_recent_offset` with the record's `created_at` and
tombstone flag.  `most_recent_offset` moves past the record. -/
theorem replayStep_eq {st st' : ReplayState F} {e : ValueLogEntry}
    (h : replayStep sizeUnit capacity rate headOffset draw st e = .ok st') :
    (st.offset = headOffset ∧ st' = { st with offset := st.offset + e.size }) ∨
    (st.offset ≠ headOffset ∧ ∃ st₁ : ReplayState F,
      ((st.active.isFull e.key.length = false ∧ st₁ = st) ∨
        (st.active.isFull e.key.length = true ∧ ∃ m : InMemoryTable F,
          m.Fresh st.heap.next (sizeUnit.toBytes capacity) rate ∧
          st₁ = { st with heap := st.heap.alloc.1, active := m,
                          readOnly := indexMapInsert st.readOnly (draw st.draws)
                            { st.active with readOnly := true },
                          draws := st.draws + 1 })) ∧
      st' = { st₁ with
                heap := (st₁.active.insert st₁.heap ⟨e.key, st.offset, e.createdAt, e.isTombstone⟩).1
                active := (st₁.active.insert st₁.heap ⟨e.key, st.offset, e.createdAt, e.isTombstone⟩).2
                offset := st.offset + e.size }) := by
  have hnext : st.offset + sizeOfU32 + sizeOfU32 + sizeOfU64 + sizeOfU8 + e.key.length +
      e.value.length = st.offset + e.size := by
    simp only [ValueLogEntry.size]; omega
  unfold replayStep at h
  dsimp only at h
  rw [hnext] at h
  split at h
  · rename_i hne
    obtain ⟨st₁, h₁, h₂⟩ := Outcome.bind_eq_ok.1 h
    cases h₂
    refine .inr ⟨hne, st₁, ?_, rfl⟩
    split at h₁
    · obtain ⟨⟨heap, m⟩, hw, hs⟩ := Outcome.bind_eq_ok.1 h₁
      obtain ⟨rfl, hm⟩ := InMemoryTable.withSpecifiedCapacityAndRate_eq _ hw
      cases hs
      exact .inr ⟨‹_›, m, hm, rfl⟩
    · cases h₁
      exact .inl ⟨Bool.eq_false_iff.2 ‹_›, rfl⟩
  · cases h
    exact .inl ⟨of_not_not ‹_›, rfl⟩

/-- **What every iteration keeps, the replay keeps.** -/
theorem replay_preserves {P : ReplayState F → Prop}
    (hstep : ∀ st e st', P st →
      replayStep sizeUnit capacity rate headOffset draw st e = .ok st' → P st') :
    ∀ {st : ReplayState F} {es : List ValueLogEntry} {st' : ReplayState F}, P st →
      replay sizeUnit capacity rate headOffset draw st es = .ok st' → P st'
  | _, [], _, hs, h => by cases h; exact hs
  | st, e :: es, _, hs, h => by
    obtain ⟨st₁, h₁, h₂⟩ := Outcome.bind_eq_ok.1 h
    exact replay_preserves hstep (hstep st e st₁ hs h₁) h₂

end Step

/-- What `recover_memtable` returns, as the final state of its replay. -/
theorem recoverMemtable_eq {heap heap' : Heap} {sizeUnit : SizeUnit} {capacity : Nat} {rate : F64}
    {records : List ValueLogEntry} {headOffset : Nat} {draw : Nat → TableId}
    {active : InMemoryTable F} {readOnly : List (TableId × InMemoryTable F)}
    (h : recoverMemtable heap sizeUnit capacity rate records headOffset draw =
      .ok (heap', active, readOnly)) :
    ∃ m st, m.Fresh heap.next (sizeUnit.toBytes capacity) rate ∧
      replay sizeUnit capacity rate headOffset draw ⟨heap.alloc.1, m, [], headOffset, 0⟩
        (recoverFrom records headOffset) = .ok st ∧
      heap' = st.heap ∧ active = st.active ∧ readOnly = st.readOnly := by
  obtain ⟨⟨heap₁, m⟩, hw, h⟩ := Outcome.bind_eq_ok.1 h
  obtain ⟨rfl, hm⟩ := InMemoryTable.withSpecifiedCapacityAndRate_eq _ hw
  obtain ⟨st, hr, hs⟩ := Outcome.bind_eq_ok.1 h
  cases hs
  exact ⟨m, st, hm, hr, rfl, rfl, rfl⟩

/-- What a recovery that opens holds: the heap and memtables of `recover_memtable`, run from
some head offset, nothing handed to the flush channel, and the config it was given. -/
theorem openRecover_eq {disk : Disk} {sizeUnit : SizeUnit} {capacity : Nat} {config : Config}
    {draw : Nat → TableId} {s : StorageEngine F}
    (h : openRecover disk sizeUnit capacity config draw = .ok s) :
    ∃ headOffset, recoverMemtable Heap.empty sizeUnit capacity config.falsePositiveRate
        disk.valLog headOffset draw = .ok (s.heap, s.activeMemtable, s.readOnlyMemtables) ∧
      s.flushSends = [] ∧ s.config = config := by
  unfold openRecover at h
  split at h
  · cases h
  · obtain ⟨w, -, h⟩ := Outcome.bind_eq_ok.1 h
    split at h
    · split at h
      · cases h
      · cases h
        exact ⟨_, ‹_›, rfl, rfl⟩
    · cases h
    · cases h

/-! ### What the replay should give -/

/-- The skip map a run of entries leaves in an empty memtable, inserted in order. -/
def skipMapOf (run : List Entry) : SkipMap :=
  run.foldl (fun m e => m.insert e.key e.value) ∅

@[simp] theorem skipMapOf_nil : skipMapOf [] = ∅ := rfl

@[simp] theorem skipMapOf_append_singleton (run : List Entry) (e : Entry) :
    skipMapOf (run ++ [e]) = (skipMapOf run).insert e.key e.value := by
  simp [skipMapOf, List.foldl_append]

/-- A skip map answers for a key with the last entry of its run for that key. -/
theorem lookup_skipMapOf (run : List Entry) (k : Key) :
    (skipMapOf run).lookup k = (run.reverse.find? (·.key = k)).map Entry.value := by
  induction run using List.reverseRecOn with
  | nil => rfl
  | append_singleton run e ih =>
    rw [skipMapOf_append_singleton, List.reverse_append, List.reverse_singleton,
      List.singleton_append, List.find?_cons]
    by_cases hk : e.key = k
    · subst hk; simp
    · simp [hk, AList.lookup_insert_ne (Ne.symm hk), ih]

/-- **Newest first, the skip maps of consecutive runs answer with the last entry.**  Looking
a key up in the skip maps of `runs`, newest first, gives the last entry for it of all the
runs together. -/
theorem findSome_lookup_skipMapOf (runs : List (List Entry)) (k : Key) :
    ((runs.map skipMapOf).reverse.findSome? fun m => m.lookup k) =
      (runs.flatten.reverse.find? (·.key = k)).map Entry.value := by
  induction runs using List.reverseRecOn with
  | nil => rfl
  | append_singleton runs run ih =>
    simp only [List.map_append, List.map_singleton, List.reverse_append, List.reverse_singleton,
      List.singleton_append, List.findSome?_cons, List.flatten_append, List.flatten_cons,
      List.flatten_nil, List.append_nil, List.find?_append, lookup_skipMapOf, ih]
    cases run.reverse.find? (·.key = k) <;> rfl

/-- The entries for records laid out one after another from `offset`, each at the offset
where it starts. -/
def offsetsFrom (offset : Nat) : List ValueLogEntry → List Entry
  | [] => []
  | r :: rs => ⟨r.key, offset, r.createdAt, r.isTombstone⟩ :: offsetsFrom (offset + r.size) rs

/-- The entries the replay is to insert for the records `vlog.recover(head_offset)` returns:
every record but the first, at the offset where it starts. -/
def replayEntries (headOffset : Nat) : List ValueLogEntry → List Entry
  | [] => []
  | r₀ :: rs => offsetsFrom (headOffset + r₀.size) rs

theorem getElem?_offsetsFrom (offset : Nat) (rs : List ValueLogEntry) (i : Nat) :
    (offsetsFrom offset rs)[i]? = rs[i]?.map fun r =>
      ⟨r.key, offset + logLength (rs.take i), r.createdAt, r.isTombstone⟩ := by
  induction rs generalizing offset i with
  | nil => simp [offsetsFrom]
  | cons r rs ih =>
    cases i with
    | zero => simp [offsetsFrom]
    | succ i => simp [offsetsFrom, ih, Nat.add_assoc]

/-- The `i`-th entry of the replay is the record `r_(i+1)`, at `head_offset` plus the sizes
of the records before it. -/
theorem getElem?_replayEntries (headOffset : Nat) (records : List ValueLogEntry) (i : Nat) :
    (replayEntries headOffset records)[i]? = records[i + 1]?.map fun r =>
      ⟨r.key, headOffset + logLength (records.take (i + 1)), r.createdAt, r.isTombstone⟩ := by
  cases records with
  | nil => rfl
  | cons r₀ rs => simp [replayEntries, getElem?_offsetsFrom, Nat.add_assoc]

/-- The bytes a run of entries adds to an empty memtable's `size`. -/
def runBytes : List Entry → Nat
  | [] => 0
  | e :: run => entryLengthByte e.key + runBytes run

@[simp] theorem runBytes_append_singleton (run : List Entry) (e : Entry) :
    runBytes (run ++ [e]) = runBytes run + entryLengthByte e.key := by
  induction run with
  | nil => simp [runBytes]
  | cons e' run ih => rw [List.cons_append, runBytes, runBytes, ih, Nat.add_assoc]

/-- No entry of the runs went into a memtable of `capacity` bytes that was full for its key:
the bytes of the entries before it in its run and its own stay below `capacity`.  The first
entry of each run after the first is exempt: it went into the fresh memtable the seal
started, which the replay does not check. -/
def InsertedUnlessFull (capacity : Nat) (runs : List (List Entry)) : Prop :=
  ∀ j run, runs[j]? = some run → ∀ i e, run[i]? = some e → (j = 0 ∨ 0 < i) →
    runBytes (run.take i) + entryLengthByte e.key < capacity

/-- What `recover_memtable` should return, against the runs of entries its memtables were
filled with: the runs are the replay's entries cut in order; the sealed memtables, in
creation order, and then the active one each hold their run; the sealed ones carry the
draws in order; all have the active one's capacity; each was sealed when full for the first
key of the next run, and no entry went into a memtable full for its key; and, newest first,
the memtables answer for every key with the last record for it. -/
structure RecoveredAs (records : List ValueLogEntry) (headOffset : Nat) (draw : Nat → TableId)
    (heap : Heap) (active : InMemoryTable F) (readOnly : List (TableId × InMemoryTable F))
    (sealedRuns : List (List Entry)) (activeRun : List Entry) : Prop where
  runs : (sealedRuns ++ [activeRun]).flatten = replayEntries headOffset (recoverFrom records headOffset)
  sealedCells : readOnly.map (fun p => heap.cells p.2.index) = sealedRuns.map skipMapOf
  activeCell : heap.cells active.index = skipMapOf activeRun
  ids : readOnly.map Prod.fst = (List.range readOnly.length).map draw
  sealedWhenFull : ∀ j p, readOnly[j]? = some p → ∃ e rest,
    (sealedRuns ++ [activeRun])[j + 1]? = some (e :: rest) ∧ p.2.isFull e.key.length = true
  sameCapacity : ∀ p ∈ readOnly, p.2.capacity = active.capacity
  insertedUnlessFull : InsertedUnlessFull active.capacity (sealedRuns ++ [activeRun])
  newestWins : ∀ k, ((readOnly.map (fun p => heap.cells p.2.index) ++ [heap.cells active.index]).reverse.findSome?
      fun m => m.lookup k) =
    ((replayEntries headOffset (recoverFrom records headOffset)).reverse.find? (·.key = k)).map
      Entry.value

/-! ### The replay's invariant -/

/-- Where the replay's memtables stand against the runs they were filled with: the sealed
ones hold `sealedRuns` and the active one `activeRun`; their skip maps are consecutive
allocations from `base`; the sealed ones carry the draws in order. -/
structure ReplayState.Layout (st : ReplayState F) (draw : Nat → TableId) (base : Nat)
    (sealedRuns : List (List Entry)) (activeRun : List Entry) : Prop where
  sealedCells : st.readOnly.map (fun p => st.heap.cells p.2.index) = sealedRuns.map skipMapOf
  activeCell : st.heap.cells st.active.index = skipMapOf activeRun
  indices : st.readOnly.map (·.2.index) ++ [st.active.index] = List.range' base (st.readOnly.length + 1)
  next : st.heap.next = base + st.readOnly.length + 1
  ids : st.readOnly.map Prod.fst = (List.range st.readOnly.length).map draw
  draws : st.draws = st.readOnly.length

/-- The layout; each sealed memtable full for the first key of the run after it; every
memtable of `capacity` bytes, the active one's size the bytes of its run; and no entry
inserted into a memtable full for its key. -/
structure ReplayState.Holds (st : ReplayState F) (draw : Nat → TableId) (base capacity : Nat)
    (sealedRuns : List (List Entry)) (activeRun : List Entry)
    extends st.Layout draw base sealedRuns activeRun : Prop where
  sealedWhenFull : ∀ j p, st.readOnly[j]? = some p → ∃ e rest,
    (sealedRuns ++ [activeRun])[j + 1]? = some (e :: rest) ∧ p.2.isFull e.key.length = true
  sealedCapacity : ∀ p ∈ st.readOnly, p.2.capacity = capacity
  activeCapacity : st.active.capacity = capacity
  activeSize : st.active.size = runBytes activeRun
  insertedUnlessFull : InsertedUnlessFull capacity (sealedRuns ++ [activeRun])

section Layout

variable {st : ReplayState F} {draw : Nat → TableId} {base : Nat} {sealedRuns : List (List Entry)}
  {activeRun : List Entry}

omit [BloomFilter F] in
theorem ReplayState.Layout.length_eq (h : st.Layout draw base sealedRuns activeRun) :
    sealedRuns.length = st.readOnly.length := by
  simpa using (congrArg List.length h.sealedCells).symm

omit [BloomFilter F] in
/-- Every skip map of the replay was allocated before `heap.next`, the active one last. -/
theorem ReplayState.Layout.index_lt (h : st.Layout draw base sealedRuns activeRun) :
    (∀ p ∈ st.readOnly, p.2.index < st.heap.next) ∧ st.active.index < st.heap.next := by
  have hmem : ∀ i ∈ st.readOnly.map (·.2.index) ++ [st.active.index], i < st.heap.next := by
    intro i hi
    rw [h.indices, List.mem_range'_1] at hi
    rw [h.next]; omega
  exact ⟨fun p hp => hmem _ (List.mem_append_left _ (List.mem_map_of_mem _ hp)),
    hmem _ (List.mem_append_right _ (List.mem_singleton_self _))⟩

omit [BloomFilter F] in
/-- No sealed memtable shares the active memtable's skip map. -/
theorem ReplayState.Layout.index_ne (h : st.Layout draw base sealedRuns activeRun) :
    ∀ p ∈ st.readOnly, p.2.index ≠ st.active.index := by
  have hnd := List.nodup_range' base (st.readOnly.length + 1)
  rw [← h.indices, List.nodup_append] at hnd
  exact fun p hp he => hnd.2.2 (List.mem_map_of_mem _ hp) (List.mem_singleton.2 he)

omit [BloomFilter F] in
/-- A new draw is a new id, so sealing appends. -/
theorem ReplayState.Layout.indexMapInsert_eq (h : st.Layout draw base sealedRuns activeRun)
    (hdraw : Function.Injective draw) (m : InMemoryTable F) :
    indexMapInsert st.readOnly (draw st.draws) m = st.readOnly ++ [(draw st.draws, m)] := by
  refine indexMapInsert_of_not_mem ?_ m
  rw [h.ids, h.draws]
  simp [hdraw.eq_iff]

theorem ReplayState.Layout.insert (h : st.Layout draw base sealedRuns activeRun) (entry : Entry)
    (offset : Nat) :
    ({ st with heap := (st.active.insert st.heap entry).1, active := (st.active.insert st.heap entry).2,
               offset := offset } : ReplayState F).Layout draw base sealedRuns (activeRun ++ [entry]) where
  sealedCells := by
    rw [← h.sealedCells]
    refine List.map_congr_left fun p hp => ?_
    simp only [InMemoryTable.insert_fst, Heap.modify_cells, if_neg (h.index_ne p hp)]
  activeCell := by simp [h.activeCell]
  indices := by simpa using h.indices
  next := by simpa using h.next
  ids := h.ids
  draws := h.draws

omit [BloomFilter F] in
theorem ReplayState.Layout.seal (h : st.Layout draw base sealedRuns activeRun)
    (hdraw : Function.Injective draw) {m : InMemoryTable F} {capacity : Nat} {rate : F64}
    (hm : m.Fresh st.heap.next capacity rate) :
    ({ st with heap := st.heap.alloc.1, active := m,
               readOnly := indexMapInsert st.readOnly (draw st.draws) { st.active with readOnly := true },
               draws := st.draws + 1 } : ReplayState F).Layout draw base
      (sealedRuns ++ [activeRun]) [] := by
  obtain ⟨hlt, hlt'⟩ := h.index_lt
  have hro := h.indexMapInsert_eq hdraw { st.active with readOnly := true }
  refine ⟨?_, ?_, ?_, ?_, ?_, ?_⟩
  · rw [hro, List.map_append, List.map_append, List.map_singleton, List.map_singleton,
      ← h.sealedCells, ← h.activeCell]
    congr 1
    · exact List.map_congr_left fun p hp => by
        simp only [Heap.alloc_cells, if_neg (Nat.ne_of_lt (hlt p hp))]
    · simp only [Heap.alloc_cells, if_neg (Nat.ne_of_lt hlt')]
  · simp [hm.index]
  · rw [hro]
    simp only [List.map_append, List.map_singleton, List.length_append, List.length_singleton,
      hm.index]
    rw [h.indices, h.next, List.range'_concat base (st.readOnly.length + 1)]
    simp only [Nat.one_mul, Nat.add_assoc]
  · rw [hro]; simp [h.next]; omega
  · rw [hro, List.length_append, List.length_singleton, List.range_succ, List.map_append,
      List.map_append, h.ids, h.draws]
    rfl
  · rw [hro]; simp [h.draws]

/-- An element of a list with one more at its end is an element of the list, or the last. -/
theorem getElem?_concat_eq_some {α : Type} {l : List α} {a b : α} {j : Nat}
    (h : (l ++ [a])[j]? = some b) : (j < l.length ∧ l[j]? = some b) ∨ (j = l.length ∧ a = b) := by
  rcases Nat.lt_or_ge j l.length with hj | hj
  · exact .inl ⟨hj, by rwa [List.getElem?_append_left hj] at h⟩
  · rw [List.getElem?_append_right hj] at h
    cases hk : j - l.length with
    | zero => simp only [hk, List.getElem?_cons_zero, Option.some.injEq] at h; exact .inr ⟨by omega, h⟩
    | succ k => simp [hk] at h

/-- A replay that has inserted nothing meets the condition. -/
theorem insertedUnlessFull_nil (capacity : Nat) : InsertedUnlessFull capacity [[]] := by
  intro j run hr i e he _
  cases j with
  | zero => cases hr; simp at he
  | succ j => simp at hr

/-- An entry that fits joins the last run. -/
theorem InsertedUnlessFull.push {capacity : Nat} {runs : List (List Entry)} {run : List Entry}
    (h : InsertedUnlessFull capacity (runs ++ [run])) {x : Entry}
    (hx : runBytes run + entryLengthByte x.key < capacity) :
    InsertedUnlessFull capacity (runs ++ [run ++ [x]]) := by
  intro j r hr i e he hji
  rcases getElem?_concat_eq_some hr with ⟨hj, hr⟩ | ⟨rfl, rfl⟩
  · exact h j r (by rwa [List.getElem?_append_left hj]) i e he hji
  · rcases getElem?_concat_eq_some he with ⟨hi, he⟩ | ⟨rfl, rfl⟩
    · rw [List.take_append_of_le_length hi.le]
      exact h _ run (List.getElem?_concat_length runs run) i e he hji
    · rwa [List.take_left]

/-- A seal starts a new run, whose one entry goes in unchecked. -/
theorem InsertedUnlessFull.seal {capacity : Nat} {runs : List (List Entry)} {run : List Entry}
    (h : InsertedUnlessFull capacity (runs ++ [run])) (x : Entry) :
    InsertedUnlessFull capacity (runs ++ [run] ++ [[x]]) := by
  intro j r hr i e he hji
  rcases getElem?_concat_eq_some hr with ⟨-, hr⟩ | ⟨rfl, rfl⟩
  · exact h j r hr i e he hji
  · cases i with
    | zero => simp at hji
    | succ i => simp at he

/-- Appending to the last run keeps the first entry of every run. -/
theorem getElem?_append_last_cons {runs : List (List Entry)} {run : List Entry} {j : Nat}
    {e : Entry} {rest : List Entry} (h : (runs ++ [run])[j]? = some (e :: rest)) (x : Entry) :
    ∃ rest', (runs ++ [run ++ [x]])[j]? = some (e :: rest') := by
  rcases Nat.lt_or_ge j runs.length with hj | hj
  · rw [List.getElem?_append_left hj] at h ⊢
    exact ⟨rest, h⟩
  · rw [List.getElem?_append_right hj] at h ⊢
    cases hk : j - runs.length with
    | zero =>
      simp only [hk, List.getElem?_cons_zero, Option.some.injEq] at h ⊢
      exact ⟨rest ++ [x], by rw [h]; rfl⟩
    | succ k => simp [hk] at h

variable {sizeUnit : SizeUnit} {capacity : Nat} {rate : F64} {headOffset : Nat}

/-- **One iteration keeps the replay's invariant.**  Past the head offset, the record's entry
joins the active run when it fits, or starts a new run when the active memtable is full for
its key. -/
theorem holds_replayStep {st st' : ReplayState F}
    (h : st.Holds draw base (sizeUnit.toBytes capacity) sealedRuns activeRun)
    (hdraw : Function.Injective draw) (hne : st.offset ≠ headOffset) {e : ValueLogEntry}
    (hs : replayStep sizeUnit capacity rate headOffset draw st e = .ok st') :
    ∃ sealedRuns' activeRun',
      st'.Holds draw base (sizeUnit.toBytes capacity) sealedRuns' activeRun' ∧
      (sealedRuns' ++ [activeRun']).flatten =
        (sealedRuns ++ [activeRun]).flatten ++ [⟨e.key, st.offset, e.createdAt, e.isTombstone⟩] ∧
      st'.offset = st.offset + e.size := by
  rcases replayStep_eq hs with ⟨hh, -⟩ | ⟨-, st₁, hst₁, rfl⟩
  · exact absurd hh hne
  rcases hst₁ with ⟨hnot, hst⟩ | ⟨hfull, m, hm, rfl⟩
  · subst st₁
    -- the entry fits in the active memtable, and joins its run
    have hfits : runBytes activeRun + entryLengthByte e.key < sizeUnit.toBytes capacity := by
      simp only [InMemoryTable.isFull, decide_eq_false_iff_not, not_le, h.activeSize,
        h.activeCapacity] at hnot
      simp only [entryLengthByte]
      omega
    refine ⟨sealedRuns, activeRun ++ [_], ⟨h.toLayout.insert _ _, fun j p hp => ?_, h.sealedCapacity,
      by simp [h.activeCapacity], by simp [h.activeSize], h.insertedUnlessFull.push hfits⟩,
      by simp, rfl⟩
    obtain ⟨e', rest, he', hfull'⟩ := h.sealedWhenFull j p hp
    obtain ⟨rest', he''⟩ := getElem?_append_last_cons he' ⟨e.key, st.offset, e.createdAt, e.isTombstone⟩
    exact ⟨e', rest', he'', hfull'⟩
  · -- the active memtable is sealed, and the entry starts a new run
    have hlen := h.length_eq
    have hro := h.indexMapInsert_eq hdraw { st.active with readOnly := true }
    refine ⟨sealedRuns ++ [activeRun], [_], ⟨(h.toLayout.seal hdraw hm).insert _ _,
      fun j p hp => ?_, fun p hp => ?_, by simp [hm.capacity], by simp [hm.size, runBytes],
      h.insertedUnlessFull.seal _⟩, by simp, rfl⟩
    · dsimp only at hp
      rw [hro] at hp
      rcases getElem?_concat_eq_some hp with ⟨hj, hp⟩ | ⟨rfl, rfl⟩
      · obtain ⟨e', rest, he', hfull'⟩ := h.sealedWhenFull j p hp
        have hj₁ : j + 1 < (sealedRuns ++ [activeRun]).length := by simp [hlen]; omega
        exact ⟨e', rest, by rw [List.getElem?_append_left hj₁]; exact he', hfull'⟩
      · have hj' : st.readOnly.length + 1 = (sealedRuns ++ [activeRun]).length := by simp [hlen]
        refine ⟨⟨e.key, st.offset, e.createdAt, e.isTombstone⟩, [], ?_, hfull⟩
        rw [hj', List.getElem?_append_right le_rfl]
        simp
    · dsimp only at hp
      rw [hro] at hp
      rcases List.mem_append.1 hp with hp | hp
      · exact h.sealedCapacity p hp
      · rw [List.mem_singleton.1 hp]
        exact h.activeCapacity

/-- **The replay keeps its invariant**, from any state past the head offset: the runs grow by
the entries of the records at their offsets. -/
theorem holds_replay (hdraw : Function.Injective draw) :
    ∀ {st : ReplayState F} {sealedRuns : List (List Entry)} {activeRun : List Entry}
      {rs : List ValueLogEntry} {st' : ReplayState F},
      st.Holds draw base (sizeUnit.toBytes capacity) sealedRuns activeRun → headOffset < st.offset →
      replay sizeUnit capacity rate headOffset draw st rs = .ok st' →
      ∃ sealedRuns' activeRun', st'.Holds draw base (sizeUnit.toBytes capacity) sealedRuns' activeRun' ∧
        (sealedRuns' ++ [activeRun']).flatten =
          (sealedRuns ++ [activeRun]).flatten ++ offsetsFrom st.offset rs
  | _, _, _, [], _, h, _, hr => by cases hr; exact ⟨_, _, h, by simp [offsetsFrom]⟩
  | st, _, _, r :: rs, _, h, hlt, hr => by
    obtain ⟨st₁, h₁, h₂⟩ := Outcome.bind_eq_ok.1 hr
    obtain ⟨sealedRuns₁, activeRun₁, hh₁, hflat₁, hoff₁⟩ := holds_replayStep h hdraw (Nat.ne_of_gt hlt) h₁
    have hlt₁ : headOffset < st₁.offset := by rw [hoff₁]; have := r.size_pos; omega
    obtain ⟨sealedRuns₂, activeRun₂, hh₂, hflat₂⟩ := holds_replay hdraw hh₁ hlt₁ h₂
    exact ⟨sealedRuns₂, activeRun₂, hh₂, by rw [hflat₂, hflat₁, hoff₁]; simp [offsetsFrom]⟩

end Layout

omit [BloomFilter F] in
/-- What a replay state that keeps the invariant returns. -/
theorem RecoveredAs.of_holds {records : List ValueLogEntry} {headOffset : Nat} {draw : Nat → TableId}
    {base capacity : Nat} {st : ReplayState F} {sealedRuns : List (List Entry)}
    {activeRun : List Entry} (h : st.Holds draw base capacity sealedRuns activeRun)
    (hruns : (sealedRuns ++ [activeRun]).flatten =
      replayEntries headOffset (recoverFrom records headOffset)) :
    RecoveredAs records headOffset draw st.heap st.active st.readOnly sealedRuns activeRun where
  runs := hruns
  sealedCells := h.sealedCells
  activeCell := h.activeCell
  ids := h.ids
  sealedWhenFull := h.sealedWhenFull
  sameCapacity p hp := (h.sealedCapacity p hp).trans h.activeCapacity.symm
  insertedUnlessFull := by rw [h.activeCapacity]; exact h.insertedUnlessFull
  newestWins k := by
    have hmaps : sealedRuns.map skipMapOf ++ [skipMapOf activeRun] =
        (sealedRuns ++ [activeRun]).map skipMapOf := by simp
    rw [h.sealedCells, h.activeCell, hmaps, findSome_lookup_skipMapOf, hruns]

section Total

variable {sizeUnit : SizeUnit} {capacity : Nat} {rate : F64} {headOffset : Nat}
  {draw : Nat → TableId}

theorem replayStep_ok (hrate : rate.geZero = true) (hcap : 0 < capacity) (st : ReplayState F)
    (e : ValueLogEntry) : ∃ st', replayStep sizeUnit capacity rate headOffset draw st e = .ok st' := by
  obtain ⟨heap', m', hw⟩ : ∃ heap' m', InMemoryTable.withSpecifiedCapacityAndRate (F := F) st.heap
      sizeUnit capacity rate = .ok (heap', m') :=
    InMemoryTable.withSpecifiedCapacityAndRate_isOk st.heap hrate hcap
  unfold replayStep
  dsimp only
  split
  · split
    · rw [hw]; exact ⟨_, rfl⟩
    · exact ⟨_, rfl⟩
  · exact ⟨_, rfl⟩

theorem replay_ok (hrate : rate.geZero = true) (hcap : 0 < capacity) :
    ∀ (st : ReplayState F) (es : List ValueLogEntry),
      ∃ st', replay sizeUnit capacity rate headOffset draw st es = .ok st'
  | st, [] => ⟨st, rfl⟩
  | st, e :: es => by
    obtain ⟨st₁, h₁⟩ : ∃ st₁, replayStep sizeUnit capacity rate headOffset draw st e = .ok st₁ :=
      replayStep_ok hrate hcap st e
    obtain ⟨st₂, h₂⟩ := replay_ok hrate hcap st₁ es
    exact ⟨st₂, by simp only [replay, h₁, Outcome.ok_bind, h₂]⟩

/-- `recover_memtable` returns once its assertions pass: the replay itself never fails. -/
theorem recoverMemtable_ok (heap : Heap) (records : List ValueLogEntry) (hrate : rate.geZero = true)
    (hcap : 0 < capacity) :
    ∃ r, recoverMemtable (F := F) heap sizeUnit capacity rate records headOffset draw = .ok r := by
  obtain ⟨heap₁, m, hw⟩ : ∃ heap₁ m, InMemoryTable.withSpecifiedCapacityAndRate (F := F) heap sizeUnit
      capacity rate = .ok (heap₁, m) :=
    InMemoryTable.withSpecifiedCapacityAndRate_isOk heap hrate hcap
  obtain ⟨st, hst⟩ : ∃ st, replay sizeUnit capacity rate headOffset draw ⟨heap₁, m, [], headOffset, 0⟩
      (recoverFrom records headOffset) = .ok st := replay_ok hrate hcap _ _
  exact ⟨(st.heap, st.active, st.readOnly), by simp only [recoverMemtable, hw, Outcome.ok_bind, hst]⟩

end Total

/-- **`recover_memtable` replays the log.**  Take any heap, a rate the assertion accepts, a
positive capacity, any head offset and any records, and table ids drawn without repeats.
`recover_memtable` returns; the record at the head offset is not inserted; every other
record is inserted once, at the offset where it starts, with its `created_at` and tombstone
flag; the sealed memtables, in creation order, then the active one hold consecutive runs of
those entries in log order; a memtable was sealed exactly when full for the key of the next
record (it was sealed only then, and no entry went into a memtable full for its key); and,
newest first, the memtables answer for every key with its last record. -/
theorem recoverMemtable_replays_log (heap : Heap) (sizeUnit : SizeUnit) {capacity : Nat} {rate : F64}
    (records : List ValueLogEntry) (headOffset : Nat) {draw : Nat → TableId}
    (hrate : rate.geZero = true) (hcap : 0 < capacity) (hdraw : Function.Injective draw) :
    ∃ heap' active readOnly,
      recoverMemtable (F := F) heap sizeUnit capacity rate records headOffset draw =
        .ok (heap', active, readOnly) ∧
      ∃ sealedRuns activeRun,
        RecoveredAs records headOffset draw heap' active readOnly sealedRuns activeRun := by
  obtain ⟨⟨heap', active, readOnly⟩, hrec⟩ : ∃ r, recoverMemtable (F := F) heap sizeUnit capacity rate
      records headOffset draw = .ok r := recoverMemtable_ok heap records hrate hcap
  refine ⟨heap', active, readOnly, hrec, ?_⟩
  obtain ⟨m, st, hm, hr, rfl, rfl, rfl⟩ := recoverMemtable_eq hrec
  have h₀ : ∀ offset, (⟨heap.alloc.1, m, [], offset, 0⟩ : ReplayState F).Holds draw heap.next
      (sizeUnit.toBytes capacity) [] [] :=
    fun _ => ⟨⟨rfl, by simp [hm.index], by simp [hm.index], by simp, rfl, rfl⟩, by simp, nofun,
      hm.capacity, hm.size, insertedUnlessFull_nil _⟩
  cases hrs : recoverFrom records headOffset with
  | nil =>
    rw [hrs] at hr
    cases hr
    exact ⟨[], [], .of_holds (h₀ headOffset) (by simp [hrs, replayEntries])⟩
  | cons r₀ rs =>
    rw [hrs] at hr
    obtain ⟨st₁, h₁, h₂⟩ := Outcome.bind_eq_ok.1 hr
    have hst₁ : st₁ = ⟨heap.alloc.1, m, [], headOffset + r₀.size, 0⟩ := by
      rcases replayStep_eq h₁ with ⟨-, rfl⟩ | ⟨hne, -⟩
      · rfl
      · exact absurd rfl hne
    subst hst₁
    obtain ⟨sealedRuns, activeRun, hh, hflat⟩ :=
      holds_replay hdraw (h₀ _) (Nat.lt_add_of_pos_right r₀.size_pos) h₂
    exact ⟨sealedRuns, activeRun, .of_holds hh (by rw [hflat, hrs]; simp [replayEntries])⟩

/-- The log `put("a", "1")`, `delete("a")` and `put("b", "2")` leave on a fresh engine:
`TAIL` at 0, `HEAD` at 21, then the three records from 42.  Replayed from the head into
31-byte memtables, the first two entries take 28 bytes, so the third finds the memtable
full and the replay seals it. -/
def sealingLog : List ValueLogEntry :=
  [⟨tailEntryKey, [], 1, false⟩, ⟨headEntryKey, [], 1, false⟩, ⟨[97], [49], 2, false⟩,
    ⟨[97], tombStoneMarker, 3, true⟩, ⟨[98], [50], 4, false⟩]

theorem replicate_injective : Function.Injective fun n : Nat => List.replicate n (0 : UInt8) :=
  fun a b h => by simpa using congrArg List.length h

theorem sealing_log_replays :
    ∃ heap' active readOnly,
      recoverMemtable (F := ExactFilter) Heap.empty .bytes 31 onePercent sealingLog 21
          (fun n => List.replicate n 0) = .ok (heap', active, readOnly) ∧
      readOnly.length = 1 ∧ ∃ sealedRuns activeRun,
        RecoveredAs sealingLog 21 (fun n => List.replicate n 0) heap' active readOnly sealedRuns
          activeRun := by
  obtain ⟨heap', active, readOnly, hrec, hR⟩ := @recoverMemtable_replays_log ExactFilter _ Heap.empty
    .bytes 31 onePercent sealingLog 21 _ (by decide) (by decide) replicate_injective
  obtain ⟨r, hr, hlen⟩ : ∃ r, recoverMemtable (F := ExactFilter) Heap.empty .bytes 31 onePercent
      sealingLog 21 (fun n => List.replicate n 0) = .ok r ∧ r.2.2.length = 1 := ⟨_, rfl, rfl⟩
  cases hrec.symm.trans hr
  exact ⟨heap', active, readOnly, hrec, hlen, hR⟩

end StorageEngine

end LsmEngine
