import LsmEngine.Memtable.InMemory

/-!
# The filter gate over any run of memtable calls

`InMemoryTable::get`, `update` and `delete` (`src/memtable/inmemory.rs`, lines 136 to 186)
ask the Bloom filter before the skip map, so each of them is only as good as the filter's
covering of the skip map (`BloomCovers`).  Every call keeps the covering, whatever the
filter's false positives: `insert` and `upsert` set a key the filter does not accept before
writing it (`bloomCovers_insert`), `update` and `delete` write only a key the filter
accepts (`bloomCovers_update`, `bloomCovers_delete`), and `clear` empties the skip map
(`bloomCovers_clear`).  Along any run from `with_specified_capacity_and_rate`, `get` is
the skip map's lookup and `update` and `delete` fail only for keys the skip map does not
hold (`filter_gate_exact`).
-/

namespace LsmEngine

/-- One call on a memtable.  `delete` carries the clock reading `Utc::now()` it takes. -/
inductive MemtableCall where
  | insert (entry : Entry)
  | upsert (entry : Entry)
  | update (entry : Entry)
  | delete (entry : Entry) (now : Nat)
  | clear

namespace InMemoryTable

variable {F : Type} [BloomFilter F]

/-- One call on the memtable `st.2`, whose skip map lives in the heap `st.1`.  `update` and
`delete` write the skip map only; an `Err` leaves both alone. -/
def apply (st : Heap × InMemoryTable F) : MemtableCall → Outcome (Heap × InMemoryTable F)
  | .insert entry => .ok (st.2.insert st.1 entry)
  | .upsert entry => .ok (st.2.upsert st.1 entry)
  | .update entry => st.2.update st.1 entry >>= fun heap => .ok (heap, st.2)
  | .delete entry now => st.2.delete st.1 entry now >>= fun heap => .ok (heap, st.2)
  | .clear => .ok (st.2.clear st.1)

/-- The calls one after another; an `Err` leaves the memtable as it was. -/
def run (st : Heap × InMemoryTable F) (calls : List MemtableCall) :
    Outcome (Heap × InMemoryTable F) :=
  Outcome.steps apply st calls

section Gate

variable {heap heap' : Heap} {m : InMemoryTable F} {entry : Entry}

/-- `update` fails exactly when the filter rejects the key, with `KeyNotFoundInMemTable`,
and otherwise writes the entry. -/
theorem update_eq_ok (h : m.update heap entry = .ok heap') :
    BloomFilter.contains m.bloomFilter entry.key = true ∧
      heap' = heap.modify m.index (·.insert entry.key entry.value) := by
  unfold update at h
  split at h
  · cases h
  · rename_i hc
    cases h; exact ⟨by simpa using hc, rfl⟩

theorem update_eq_err {e : StorageEngineError} (h : m.update heap entry = .err e) :
    BloomFilter.contains m.bloomFilter entry.key = false ∧ e = .keyNotFoundInMemTable := by
  unfold update at h
  split at h
  · rename_i hc
    cases h; exact ⟨by simpa using hc, rfl⟩
  · cases h

/-- `delete` is `update` with the entry's time replaced by the clock reading. -/
theorem delete_eq_ok {now : Nat} (h : m.delete heap entry now = .ok heap') :
    BloomFilter.contains m.bloomFilter entry.key = true ∧
      heap' = heap.modify m.index (·.insert entry.key (entry.valOffset, now, entry.isTombstone)) := by
  unfold delete at h
  split at h
  · cases h
  · rename_i hc
    cases h; exact ⟨by simpa using hc, rfl⟩

theorem delete_eq_err {now : Nat} {e : StorageEngineError} (h : m.delete heap entry now = .err e) :
    BloomFilter.contains m.bloomFilter entry.key = false ∧ e = .keyNotFoundInMemTable := by
  unfold delete at h
  split at h
  · rename_i hc
    cases h; exact ⟨by simpa using hc, rfl⟩
  · cases h

/-- Writing a key the filter accepts keeps the filter covering the skip map. -/
theorem bloomCovers_modify_insert (h : BloomCovers heap m) {k : Key}
    (hk : BloomFilter.contains m.bloomFilter k = true) (v : SkipMapValue) :
    BloomCovers (heap.modify m.index (·.insert k v)) m := by
  intro k' hk'
  simp only [Heap.modify_cells, if_true, AList.mem_insert] at hk'
  rcases hk' with rfl | hk'
  · exact hk
  · exact h k' hk'

theorem bloomCovers_update (h : BloomCovers heap m) (hu : m.update heap entry = .ok heap') :
    BloomCovers heap' m := by
  obtain ⟨hk, rfl⟩ := update_eq_ok hu
  exact bloomCovers_modify_insert h hk _

theorem bloomCovers_delete (h : BloomCovers heap m) {now : Nat}
    (hd : m.delete heap entry now = .ok heap') : BloomCovers heap' m := by
  obtain ⟨hk, rfl⟩ := delete_eq_ok hd
  exact bloomCovers_modify_insert h hk _

/-- After `clear` the skip map is empty, so any filter covers it. -/
theorem bloomCovers_clear (heap : Heap) (m : InMemoryTable F) :
    BloomCovers (m.clear heap).1 (m.clear heap).2 := by
  intro k hk
  simp [clear] at hk

/-- A memtable fresh from `with_specified_capacity_and_rate` has an empty skip map. -/
theorem bloomCovers_of_fresh {capacity : Nat} {rate : F64}
    (hm : m.Fresh heap.next capacity rate) : BloomCovers heap.alloc.1 m := by
  intro k hk
  simp [hm.index] at hk

/-- **Every call keeps the filter covering the skip map.** -/
theorem BloomCovers.apply {st st' : Heap × InMemoryTable F} (h : BloomCovers st.1 st.2)
    {c : MemtableCall} (hc : InMemoryTable.apply st c = .ok st') : BloomCovers st'.1 st'.2 := by
  cases c with
  | insert e | upsert e =>
    cases hc
    exact bloomCovers_insert h e
  | update e =>
    obtain ⟨heap, hu, hs⟩ := Outcome.bind_eq_ok.1 hc
    cases hs
    exact bloomCovers_update h hu
  | delete e now =>
    obtain ⟨heap, hd, hs⟩ := Outcome.bind_eq_ok.1 hc
    cases hs
    exact bloomCovers_delete h hd
  | clear =>
    cases hc
    exact bloomCovers_clear _ _

/-- **A filter covering the skip map makes the gate exact.**  `get` is the skip map's
lookup, and `update` and `delete` fail, with `KeyNotFoundInMemTable`, only for keys the skip
map does not hold. -/
theorem BloomCovers.gate_exact (h : BloomCovers heap m) :
    (∀ k, m.get heap k = (heap.cells m.index).lookup k) ∧
    (∀ e err, m.update heap e = .err err →
      err = .keyNotFoundInMemTable ∧ e.key ∉ heap.cells m.index) ∧
    (∀ e now err, m.delete heap e now = .err err →
      err = .keyNotFoundInMemTable ∧ e.key ∉ heap.cells m.index) := by
  refine ⟨get_eq_lookup h, fun e err hu => ?_, fun e now err hd => ?_⟩
  · obtain ⟨hk, rfl⟩ := update_eq_err hu
    exact ⟨rfl, fun hm => by simp [h _ hm] at hk⟩
  · obtain ⟨hk, rfl⟩ := delete_eq_err hd
    exact ⟨rfl, fun hm => by simp [h _ hm] at hk⟩

end Gate

/-- **The filter gate is exact along every run.**  Start a memtable with
`with_specified_capacity_and_rate` on any heap, with any filter that has no false negatives,
and run any `insert`, `upsert`, `update`, `delete` and `clear` calls.  Every key of the skip
map passes the filter; `get(k)` is the skip map's entry for `k`, `Some` exactly when the
skip map holds `k`; and `update` and `delete` fail, with `KeyNotFoundInMemTable`, only for
keys the skip map does not hold. -/
theorem filter_gate_exact {heap heap' : Heap} {sizeUnit : SizeUnit} {capacity : Nat}
    {rate : F64} {calls : List MemtableCall} {m : InMemoryTable F}
    (h : (withSpecifiedCapacityAndRate heap sizeUnit capacity rate >>= (run · calls)) =
      .ok (heap', m)) :
    (∀ k ∈ heap'.cells m.index, BloomFilter.contains m.bloomFilter k = true) ∧
    (∀ k, m.get heap' k = (heap'.cells m.index).lookup k ∧
      ((m.get heap' k).isSome ↔ k ∈ heap'.cells m.index)) ∧
    (∀ e err, m.update heap' e = .err err →
      err = .keyNotFoundInMemTable ∧ e.key ∉ heap'.cells m.index) ∧
    (∀ e now err, m.delete heap' e now = .err err →
      err = .keyNotFoundInMemTable ∧ e.key ∉ heap'.cells m.index) := by
  obtain ⟨⟨heap₀, m₀⟩, hw, hrun⟩ := Outcome.bind_eq_ok.1 h
  obtain ⟨rfl, hm⟩ := withSpecifiedCapacityAndRate_eq heap hw
  have hcov : BloomCovers heap' m :=
    Outcome.steps_preserves (P := fun st => BloomCovers st.1 st.2)
      (fun _ _ _ hs hc => hs.apply hc) (bloomCovers_of_fresh hm) hrun
  obtain ⟨hget, hupd, hdel⟩ := hcov.gate_exact
  exact ⟨hcov, fun k => ⟨hget k, by rw [hget k, AList.lookup_isSome]⟩, hupd, hdel⟩

/-- An entry written, an `update` of a key never written, a `delete`, a `clear`, and a
last write, on a memtable with an exact filter. -/
def sampleMemtableCalls : List MemtableCall :=
  [.insert ⟨[97], 0, 1, false⟩, .update ⟨[98], 21, 2, false⟩, .delete ⟨[97], 42, 3, true⟩ 4,
    .clear, .insert ⟨[99], 63, 5, false⟩]

theorem sample_memtable_gate_exact :
    ∃ heap' m, (withSpecifiedCapacityAndRate (F := ExactFilter) Heap.empty .bytes 1024
        ⟨0x3F847AE147AE147B⟩ >>= (run · sampleMemtableCalls)) = .ok (heap', m) ∧
      (∀ k ∈ heap'.cells m.index, BloomFilter.contains m.bloomFilter k = true) ∧
      (∀ k, m.get heap' k = (heap'.cells m.index).lookup k ∧
        ((m.get heap' k).isSome ↔ k ∈ heap'.cells m.index)) ∧
      (∀ e err, m.update heap' e = .err err →
        err = .keyNotFoundInMemTable ∧ e.key ∉ heap'.cells m.index) ∧
      (∀ e now err, m.delete heap' e now = .err err →
        err = .keyNotFoundInMemTable ∧ e.key ∉ heap'.cells m.index) :=
  (fun h => ⟨_, _, h, filter_gate_exact h⟩) rfl

end InMemoryTable

end LsmEngine
