import LsmEngine.Basic

/-!
# The value log

The `value_log` module is not among the sources: what the engine needs of it is modelled
from the spec (§3, §4.2).  The log is the list of its records in append order.  A record
takes `key_len:u32 | value_len:u32 | created_at:u64 | is_tombstone:u8 | key | value`, so
the offset of a record is the sum of the sizes of the records before it (`logLength`), and
`append` returns the length of the log before the record.  `recordAt` reads the record that
starts at an offset, and `recoverFrom` replays the records from one.
-/

namespace LsmEngine

/-- One record of `v_log.bin`. -/
structure ValueLogEntry where
  key : Key
  value : Key
  createdAt : Nat
  isTombstone : Bool

/-- The bytes a record takes: the four header fields, then the key and the value. -/
def ValueLogEntry.size (e : ValueLogEntry) : Nat :=
  sizeOfU32 + sizeOfU32 + sizeOfU64 + sizeOfU8 + e.key.length + e.value.length

theorem ValueLogEntry.size_pos (e : ValueLogEntry) : 0 < e.size := by
  unfold size sizeOfU32; omega

/-- The bytes a list of records takes. -/
def logLength : List ValueLogEntry → Nat
  | [] => 0
  | r :: rs => r.size + logLength rs

@[simp] theorem logLength_nil : logLength [] = 0 := rfl

@[simp] theorem logLength_cons (r : ValueLogEntry) (rs : List ValueLogEntry) :
    logLength (r :: rs) = r.size + logLength rs := rfl

@[simp] theorem logLength_append (rs qs : List ValueLogEntry) :
    logLength (rs ++ qs) = logLength rs + logLength qs := by
  induction rs with
  | nil => simp
  | cons r rs ih => simp [ih, Nat.add_assoc]

/-- The record that starts at `offset`, if one does. -/
def recordAt : List ValueLogEntry → Nat → Option ValueLogEntry
  | [], _ => none
  | r :: rs, offset =>
    if offset = 0 then some r else if offset < r.size then none else recordAt rs (offset - r.size)

/-- Modelled from the spec: `ValueLog::recover(from_offset)` parses records from
`from_offset` to the end of the file; an offset inside a record parses nothing. -/
def recoverFrom : List ValueLogEntry → Nat → List ValueLogEntry
  | [], _ => []
  | r :: rs, offset =>
    if offset = 0 then r :: rs else if offset < r.size then [] else recoverFrom rs (offset - r.size)

/-- Modelled from the spec: the records of `v_log.bin` and the `head` and `tail` pointers
the log keeps in memory. -/
structure ValueLog where
  records : List ValueLogEntry
  head : Nat
  tail : Nat

namespace ValueLog

/-- Modelled from the spec: `ValueLog::append` writes the record at the end of the file,
moves `head` to it, and returns its offset. -/
def append (vl : ValueLog) (key value : Key) (createdAt : Nat) (isTombstone : Bool) :
    ValueLog × Nat :=
  (⟨vl.records ++ [⟨key, value, createdAt, isTombstone⟩], logLength vl.records, vl.tail⟩,
    logLength vl.records)

/-- Modelled from the spec: `ValueLog::get(offset)`, the value and tombstone flag of the
record at `offset`. -/
def get (vl : ValueLog) (offset : Nat) : Option (Key × Bool) :=
  (recordAt vl.records offset).map fun r => (r.value, r.isTombstone)

/-- `ValueLog::set_head`. -/
def setHead (vl : ValueLog) (head : Nat) : ValueLog := { vl with head }

/-- `ValueLog::set_tail`. -/
def setTail (vl : ValueLog) (tail : Nat) : ValueLog := { vl with tail }

variable (vl : ValueLog) (key value : Key) (createdAt : Nat) (isTombstone : Bool)

@[simp] theorem append_snd : (vl.append key value createdAt isTombstone).2 = logLength vl.records :=
  rfl

@[simp] theorem append_records :
    (vl.append key value createdAt isTombstone).1.records =
      vl.records ++ [⟨key, value, createdAt, isTombstone⟩] := rfl

@[simp] theorem append_head :
    (vl.append key value createdAt isTombstone).1.head = logLength vl.records := rfl

@[simp] theorem setHead_records (h : Nat) : (vl.setHead h).records = vl.records := rfl

@[simp] theorem setHead_head (h : Nat) : (vl.setHead h).head = h := rfl

@[simp] theorem setTail_records (t : Nat) : (vl.setTail t).records = vl.records := rfl

end ValueLog

/-! ### Reading back what was appended -/

/-- A record appended at the end is read back at the old length of the log. -/
theorem recordAt_append_length (rs : List ValueLogEntry) (r : ValueLogEntry) :
    recordAt (rs ++ [r]) (logLength rs) = some r := by
  induction rs with
  | nil => simp [recordAt]
  | cons q rs ih =>
    have := q.size_pos
    rw [List.cons_append, logLength_cons, recordAt, if_neg (by omega), if_neg (by omega),
      Nat.add_sub_cancel_left, ih]

/-- Appending leaves every record before the end where it was. -/
theorem recordAt_append_of_lt (rs qs : List ValueLogEntry) {offset : Nat}
    (h : offset < logLength rs) : recordAt (rs ++ qs) offset = recordAt rs offset := by
  induction rs generalizing offset with
  | nil => simp at h
  | cons q rs ih =>
    simp only [List.cons_append, logLength_cons, recordAt] at h ⊢
    split_ifs with h₀ h₁
    · rfl
    · rfl
    · exact ih (by omega)

/-- A record read at an offset starts before the end of the log. -/
theorem lt_logLength_of_recordAt {rs : List ValueLogEntry} {offset : Nat} {r : ValueLogEntry}
    (h : recordAt rs offset = some r) : offset < logLength rs := by
  induction rs generalizing offset with
  | nil => simp [recordAt] at h
  | cons q rs ih =>
    have := q.size_pos
    simp only [recordAt, logLength_cons] at h ⊢
    split_ifs at h with h₀ h₁
    · omega
    · have := ih h; omega

end LsmEngine
