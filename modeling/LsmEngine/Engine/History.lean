import LsmEngine.Engine.Replay

/-!
# The value log as the history of writes

A fresh engine writes the `TAIL` and `HEAD` records, and every write that succeeds appends
its record to the value log (`Call.record`) before it touches a memtable, so the log is the
history that the memtables and the SSTables index.  `lastEntry` is the entry of a key's last
record (where the record starts, its `created_at` and its tombstone flag), and `expectedGet`
is what a read should answer from the history.

An index entry `Points` at a record of its key, and it `Fits` the history when, moreover, no
entry is newer than the key's last record, nor as new without being it.  Appending a record
newer than every earlier record of its key keeps every entry fitting (`Fits.append`), and the
appended record's own entry fits (`fits_append_self`).  Both the write path and the flushes
(`Engine.Serves`) are argued from these two facts.
-/

namespace LsmEngine

/-- The record a call appends to the value log when it succeeds. -/
def Call.record : Call → ValueLogEntry
  | .put key value createdAt _ _ | .update key value createdAt _ _ => ⟨key, value, createdAt, false⟩
  | .delete key createdAt _ _ => ⟨key, tombStoneMarker, createdAt, true⟩

namespace StorageEngine

/-! ### The last record of a key -/

theorem offsetsFrom_append (offset : Nat) (rs qs : List ValueLogEntry) :
    offsetsFrom offset (rs ++ qs) = offsetsFrom offset rs ++ offsetsFrom (offset + logLength rs) qs := by
  induction rs generalizing offset with
  | nil => simp [offsetsFrom]
  | cons r rs ih => simp [offsetsFrom, ih, Nat.add_assoc]

theorem mem_of_recordAt {rs : List ValueLogEntry} {offset : Nat} {r : ValueLogEntry}
    (h : recordAt rs offset = some r) : r ∈ rs := by
  induction rs generalizing offset with
  | nil => simp [recordAt] at h
  | cons q rs ih =>
    simp only [recordAt] at h
    split_ifs at h
    · cases h; exact List.mem_cons_self _ _
    · exact List.mem_cons_of_mem _ (ih h)

/-- The entry of the last record for `key`: where it starts, its `created_at` and its
tombstone flag. -/
def lastEntry (records : List ValueLogEntry) (key : Key) : Option SkipMapValue :=
  ((offsetsFrom 0 records).reverse.find? (·.key = key)).map Entry.value

theorem lastEntry_append_singleton (rs : List ValueLogEntry) (r : ValueLogEntry) (key : Key) :
    lastEntry (rs ++ [r]) key =
      if r.key = key then some (logLength rs, r.createdAt, r.isTombstone) else lastEntry rs key := by
  unfold lastEntry
  rw [offsetsFrom_append]
  by_cases h : r.key = key <;> simp [offsetsFrom, h, Entry.value]

/-- The last entry for a key is the last record for it, found by its offset. -/
theorem lastEntry_eq_some {records : List ValueLogEntry} {key : Key} {w : SkipMapValue}
    (h : lastEntry records key = some w) :
    ∃ r, records.reverse.find? (·.key = key) = some r ∧ recordAt records w.1 = some r ∧
      r.key = key ∧ w.2 = (r.createdAt, r.isTombstone) := by
  induction records using List.reverseRecOn generalizing w with
  | nil => simp [lastEntry, offsetsFrom] at h
  | append_singleton rs r ih =>
    rw [lastEntry_append_singleton] at h
    simp only [List.reverse_append, List.reverse_singleton, List.singleton_append, List.find?_cons]
    split_ifs at h with hk
    · cases h
      exact ⟨r, by simp [hk], recordAt_append_length rs r, hk, rfl⟩
    · obtain ⟨r', hfind, hrec, hkey, hw⟩ := ih h
      refine ⟨r', by simp [hk, hfind], ?_, hkey, hw⟩
      rw [recordAt_append_of_lt _ _ (lt_logLength_of_recordAt hrec)]
      exact hrec

theorem lastEntry_eq_none {records : List ValueLogEntry} {key : Key}
    (h : lastEntry records key = none) : ∀ r ∈ records, r.key ≠ key := by
  induction records using List.reverseRecOn with
  | nil => simp
  | append_singleton rs r ih =>
    rw [lastEntry_append_singleton] at h
    split_ifs at h with hk
    intro q hq
    rcases List.mem_append.1 hq with hq | hq
    · exact ih h q hq
    · rw [List.mem_singleton.1 hq]; exact hk

theorem find?_eq_none_of_lastEntry {records : List ValueLogEntry} {key : Key}
    (h : lastEntry records key = none) : records.reverse.find? (·.key = key) = none :=
  List.find?_eq_none.2 fun r hr => by simpa using lastEntry_eq_none h r (List.mem_reverse.1 hr)

/-- When every record of a key other than the sentinels has a positive time, so has the
last entry of such a key. -/
theorem lastEntry_pos {records : List ValueLogEntry}
    (hpos : ∀ r ∈ records, ¬IsSentinel r.key → 0 < r.createdAt) {key : Key} (hk : ¬IsSentinel key)
    {w : SkipMapValue} (hw : lastEntry records key = some w) : 0 < w.2.1 := by
  obtain ⟨r, -, hrec, hkey, hv⟩ := lastEntry_eq_some hw
  rw [hv]
  exact hpos r (mem_of_recordAt hrec) (hkey ▸ hk)

/-- What `get` should answer from the log: an error when no record has the key, and
otherwise the last record's value and `created_at`, or a tombstone error. -/
def expectedGet (records : List ValueLogEntry) (key : Key) : Outcome (Key × Nat) :=
  match records.reverse.find? (·.key = key) with
  | none => .err .keyNotFoundInAnySSTableError
  | some r =>
    if r.isTombstone then .err .keyFoundAsTombstoneInMemtableError else .ok (r.value, r.createdAt)

/-! ### Index entries against the history -/

/-- The entry `v` for `key` points at a record of that key with its `created_at` and
tombstone flag. -/
def Points (records : List ValueLogEntry) (key : Key) (v : SkipMapValue) : Prop :=
  ∃ r, recordAt records v.1 = some r ∧ r.key = key ∧ r.createdAt = v.2.1 ∧ r.isTombstone = v.2.2

theorem Points.append {records : List ValueLogEntry} {key : Key} {v : SkipMapValue}
    (h : Points records key v) (r : ValueLogEntry) : Points (records ++ [r]) key v := by
  obtain ⟨q, hq, hrest⟩ := h
  exact ⟨q, by rw [recordAt_append_of_lt _ _ (lt_logLength_of_recordAt hq)]; exact hq, hrest⟩

/-- The entry `v` for `key` points at a record of that key, and it is not newer than the
key's last record, nor as new without being it. -/
def Fits (records : List ValueLogEntry) (key : Key) (v : SkipMapValue) : Prop :=
  Points records key v ∧
    ∀ w, lastEntry records key = some w → v.2.1 ≤ w.2.1 ∧ (v.2.1 = w.2.1 → v = w)

/-- An entry keeps fitting when a record newer than every earlier one of its key is
appended. -/
theorem Fits.append {records : List ValueLogEntry} {key : Key} {v : SkipMapValue}
    (h : Fits records key v) (hk : ¬IsSentinel key) (r : ValueLogEntry)
    (hfresh : ¬IsSentinel r.key → ∀ q ∈ records, q.key = r.key → q.createdAt < r.createdAt) :
    Fits (records ++ [r]) key v := by
  refine ⟨h.1.append r, fun w hw => ?_⟩
  rw [lastEntry_append_singleton] at hw
  split_ifs at hw with hrk
  · cases hw
    -- the entry points at an older record of the key
    obtain ⟨q, hq, hqk, hqt, -⟩ := h.1
    have := hfresh (hrk ▸ hk) q (mem_of_recordAt hq) (hqk.trans hrk.symm)
    exact ⟨by dsimp only; omega, fun heq => absurd heq (by dsimp only; omega)⟩
  · exact h.2 w hw

/-- The entry of the record just appended fits the longer history. -/
theorem fits_append_self (records : List ValueLogEntry) (r : ValueLogEntry) :
    Fits (records ++ [r]) r.key (logLength records, r.createdAt, r.isTombstone) :=
  ⟨⟨r, recordAt_append_length records r, rfl, rfl, rfl⟩, fun w hw => by
    rw [lastEntry_append_singleton, if_pos rfl] at hw
    cases hw
    exact ⟨le_rfl, fun _ => rfl⟩⟩

/-- A key that no record has has no fitting entry. -/
theorem Fits.lastEntry_ne_none {records : List ValueLogEntry} {key : Key} {v : SkipMapValue}
    (h : Fits records key v) : lastEntry records key ≠ none := fun hnone => by
  obtain ⟨r, hr, hkey, -⟩ := h.1
  exact lastEntry_eq_none hnone r (mem_of_recordAt hr) hkey

end StorageEngine

end LsmEngine
