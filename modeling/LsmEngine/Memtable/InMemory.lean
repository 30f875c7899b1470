import LsmEngine.Basic

/-!
# The memtable: `InMemoryTable`

`src/memtable/inmemory.rs`.  A memtable is a skip map from keys to
`(value offset, created_at, is_tombstone)` behind an `Arc`, a Bloom filter in front of it,
a byte counter `size` and a byte `capacity`.  `#[derive(Clone)]` copies every field, and
copying the `Arc` copies a pointer: a clone shares its skip map with the original.  The
engine clones the active memtable when it seals it, so the skip maps live in a `Heap`, and
a memtable holds the pointer `index` into it.

Every operation is stated against the heap and the memtable, and each has its field lemmas
next to it, so that the engine's proofs never unfold an operation.  `BloomCovers` is the
memtable's own invariant: every key of the skip map passes the Bloom filter, so `get`
answers exactly what the skip map holds (`get_eq_lookup`).
-/

namespace LsmEngine

/-- `(value offset, created_at, is_tombstone)`, what the skip map stores under a key. -/
abbrev SkipMapValue := Nat × Nat × Bool

/-- The `SkipMap` of a memtable: one value per key. -/
abbrev SkipMap := AList (fun _ : Key => SkipMapValue)

/-- The skip maps behind the memtables' `Arc`s, and the next pointer to hand out. -/
structure Heap where
  cells : Nat → SkipMap
  next : Nat

namespace Heap

/-- A heap with no skip map handed out yet. -/
def empty : Heap := ⟨fun _ => ∅, 0⟩

/-- `Arc::new(SkipMap::new())`: a fresh, empty skip map. -/
def alloc (h : Heap) : Heap × Nat := (⟨Function.update h.cells h.next ∅, h.next + 1⟩, h.next)

/-- Change the skip map at `p`, as every clone holding `p` sees it. -/
def modify (h : Heap) (p : Nat) (f : SkipMap → SkipMap) : Heap :=
  { h with cells := Function.update h.cells p (f (h.cells p)) }

variable (h : Heap) (p q : Nat) (f : SkipMap → SkipMap)

@[simp] theorem modify_cells : (h.modify p f).cells q = if q = p then f (h.cells p) else h.cells q := by
  simp [modify, Function.update_apply]

@[simp] theorem modify_next : (h.modify p f).next = h.next := rfl

@[simp] theorem alloc_snd : h.alloc.2 = h.next := rfl

@[simp] theorem alloc_next : h.alloc.1.next = h.next + 1 := rfl

@[simp] theorem alloc_cells : h.alloc.1.cells q = if q = h.next then ∅ else h.cells q := by
  simp [alloc, Function.update_apply]

end Heap

/-- `Entry<Vec<u8>, usize>`. -/
structure Entry where
  key : Key
  valOffset : Nat
  createdAt : Nat
  isTombstone : Bool

/-- What `insert` stores under the entry's key. -/
def Entry.value (e : Entry) : SkipMapValue := (e.valOffset, e.createdAt, e.isTombstone)

/-- `key.len() + SIZE_OF_U32 + SIZE_OF_U64 + SIZE_OF_U8`, what an insert adds to `size`. -/
def entryLengthByte (key : Key) : Nat := key.length + sizeOfU32 + sizeOfU64 + sizeOfU8

/-- `InMemoryTable<Vec<u8>>`, with its skip map as the pointer `index` into the heap.  The
`created_at` field is read by no modelled function and is left out. -/
structure InMemoryTable (F : Type) where
  index : Nat
  bloomFilter : F
  falsePositiveRate : F64
  size : Nat
  sizeUnit : SizeUnit
  capacity : Nat
  readOnly : Bool

namespace InMemoryTable

variable {F : Type} [BloomFilter F]

/-- `InMemoryTable::with_specified_capacity_and_rate`: both assertions, then a fresh skip
map and a filter sized for `capacity / 100` entries.  The memtable keeps its capacity in
bytes and says so in `size_unit`. -/
def withSpecifiedCapacityAndRate (heap : Heap) (sizeUnit : SizeUnit) (capacity : Nat)
    (falsePositiveRate : F64) : Outcome (Heap × InMemoryTable F) :=
  if !falsePositiveRate.geZero then .panic .assertFalsePositiveRate
  else if capacity = 0 then .panic .assertCapacity
  else
    let capacityToBytes := sizeUnit.toBytes capacity
    let maxNoOfEntries := capacityToBytes / 100
    .ok (heap.alloc.1,
      { index := heap.alloc.2
        bloomFilter := BloomFilter.new falsePositiveRate maxNoOfEntries
        size := 0
        sizeUnit := .bytes
        capacity := capacityToBytes
        falsePositiveRate := falsePositiveRate
        readOnly := false })

/-- `InMemoryTable::insert`: both branches insert and count the entry; only a key the
filter rejects is added to it first. -/
def insert (heap : Heap) (m : InMemoryTable F) (entry : Entry) : Heap × InMemoryTable F :=
  if !BloomFilter.contains m.bloomFilter entry.key then
    (heap.modify m.index (·.insert entry.key entry.value),
      { m with bloomFilter := BloomFilter.set m.bloomFilter entry.key,
               size := m.size + entryLengthByte entry.key })
  else
    (heap.modify m.index (·.insert entry.key entry.value),
      { m with size := m.size + entryLengthByte entry.key })

/-- `InMemoryTable::get`: the Bloom gate, then the skip map. -/
def get (heap : Heap) (m : InMemoryTable F) (key : Key) : Option SkipMapValue :=
  if BloomFilter.contains m.bloomFilter key then (heap.cells m.index).lookup key else none

/-- `InMemoryTable::update`: a key the filter rejects is an error; `size` is not touched. -/
def update (heap : Heap) (m : InMemoryTable F) (entry : Entry) : Outcome Heap :=
  if !BloomFilter.contains m.bloomFilter entry.key then .err .keyNotFoundInMemTable
  else .ok (heap.modify m.index (·.insert entry.key entry.value))

/-- `InMemoryTable::upsert`. -/
def upsert (heap : Heap) (m : InMemoryTable F) (entry : Entry) : Heap × InMemoryTable F :=
  insert heap m entry

/-- `InMemoryTable::delete`: as `update`, with the timestamp `now` read from the clock. -/
def delete (heap : Heap) (m : InMemoryTable F) (entry : Entry) (now : Nat) : Outcome Heap :=
  if !BloomFilter.contains m.bloomFilter entry.key then .err .keyNotFoundInMemTable
  else .ok (heap.modify m.index (·.insert entry.key (entry.valOffset, now, entry.isTombstone)))

/-- `InMemoryTable::is_full`. -/
def isFull (m : InMemoryTable F) (keyLen : Nat) : Bool :=
  decide (m.capacity ≤ m.size + keyLen + sizeOfU32 + sizeOfU64 + sizeOfU8)

/-- The greatest of a list of keys, in the byte order of the skip map. -/
def biggestKey (keys : List Key) : Option Key :=
  keys.foldl (fun acc k => some (match acc with | none => k | some a => if keyLt a k then k else a)) none

/-- `InMemoryTable::find_biggest_key`: the last key of the skip map, an error when it is
empty. -/
def findBiggestKey (heap : Heap) (m : InMemoryTable F) : Outcome Key :=
  match biggestKey (heap.cells m.index).keys with
  | some k => .ok k
  | none => .err .biggestKeyIndexError

/-- A skip map has no key exactly when it is empty. -/
theorem skipMap_keys_eq_nil {m : SkipMap} : m.keys = [] ↔ m = ∅ :=
  ⟨fun h => AList.ext (List.map_eq_nil_iff.1 h), fun h => h ▸ AList.keys_empty⟩

theorem isSome_foldl_biggestKey : ∀ (keys : List Key) (acc : Option Key), acc.isSome →
    (keys.foldl (fun acc k => some (match acc with
      | none => k
      | some a => if keyLt a k then k else a)) acc).isSome
  | [], _, h => h
  | _ :: keys, _, _ => isSome_foldl_biggestKey keys _ rfl

omit [BloomFilter F] in
/-- **`find_biggest_key` fails exactly on an empty skip map**, with
`BiggestKeyIndexError`. -/
theorem findBiggestKey_cases (heap : Heap) (m : InMemoryTable F) :
    (heap.cells m.index = ∅ ∧ findBiggestKey heap m = .err .biggestKeyIndexError) ∨
      (heap.cells m.index ≠ ∅ ∧ ∃ k, findBiggestKey heap m = .ok k) := by
  unfold findBiggestKey
  cases hk : (heap.cells m.index).keys with
  | nil => exact .inl ⟨skipMap_keys_eq_nil.1 hk, rfl⟩
  | cons k keys =>
    obtain ⟨b, hb⟩ := Option.isSome_iff_exists.1 (isSome_foldl_biggestKey keys (some k) rfl)
    refine .inr ⟨fun h => by simp [h] at hk, b, ?_⟩
    simp only [biggestKey, List.foldl_cons]
    rw [hb]

/-- The fold of `biggestKey` ends at a key that neither the start nor any key it passes is
above. -/
theorem foldl_biggestKey_ge : ∀ (keys : List Key) (acc : Option Key) {b : Key},
    keys.foldl (fun acc k => some (match acc with
      | none => k
      | some a => if keyLt a k then k else a)) acc = some b →
    (∀ a, acc = some a → keyLt b a = false) ∧ ∀ k ∈ keys, keyLt b k = false
  | [], _, _, h => ⟨fun a ha => by cases h.symm.trans ha; exact keyLt_irrefl _, nofun⟩
  | k :: keys, acc, b, h => by
    obtain ⟨hstep, hrest⟩ := foldl_biggestKey_ge keys _ h
    have hb := hstep _ rfl
    refine ⟨fun a ha => ?_, List.forall_mem_cons.2 ⟨?_, hrest⟩⟩
    · -- the fold kept the larger of the two
      subst ha
      dsimp only at hb
      split_ifs at hb with hak
      · exact Bool.eq_false_iff.2 fun hba => nomatch (keyLt_trans hba hak).symm.trans hb
      · exact hb
    · cases acc with
      | none => exact hb
      | some a =>
        dsimp only at hb
        split_ifs at hb with hak
        · exact hb
        · -- `k` is not above `a`, so it is below it or equal to it
          refine Bool.eq_false_iff.2 fun hbk => ?_
          cases hka : keyLt k a
          · rw [eq_of_not_keyLt (Bool.eq_false_iff.2 hak) hka, hbk] at hb
            cases hb
          · exact nomatch (keyLt_trans hbk hka).symm.trans hb

omit [BloomFilter F] in
/-- `find_biggest_key` returns a key no key of the skip map is above. -/
theorem findBiggestKey_ge {heap : Heap} {m : InMemoryTable F} {k : Key}
    (h : findBiggestKey heap m = .ok k) : ∀ key ∈ heap.cells m.index, keyLt k key = false := by
  unfold findBiggestKey at h
  split at h
  · rename_i hb
    cases h
    exact fun key hkey => (foldl_biggestKey_ge _ none hb).2 key (AList.mem_keys.2 hkey)
  · cases h

/-- `InMemoryTable::clear`: the skip map is emptied in place, and the filter is replaced. -/
def clear (heap : Heap) (m : InMemoryTable F) : Heap × InMemoryTable F :=
  let capacityToBytes := m.sizeUnit.toBytes m.capacity
  let maxNoOfEntries := capacityToBytes / 100
  (heap.modify m.index fun _ => ∅,
    { m with size := 0, bloomFilter := BloomFilter.new m.falsePositiveRate maxNoOfEntries })

/-- What `with_specified_capacity_and_rate` returns: a memtable on the new skip map `index`,
empty, unsealed, with `capacity` bytes and the rate it was given. -/
structure Fresh (m : InMemoryTable F) (index capacity : Nat) (rate : F64) : Prop where
  index : m.index = index
  size : m.size = 0
  sizeUnit : m.sizeUnit = .bytes
  capacity : m.capacity = capacity
  rate : m.falsePositiveRate = rate
  readOnly : m.readOnly = false

/-! ### Field lemmas -/

section Fields

variable (heap : Heap) (m : InMemoryTable F) (entry : Entry)

@[simp] theorem insert_fst :
    (insert heap m entry).1 = heap.modify m.index (·.insert entry.key entry.value) := by
  unfold insert; split <;> rfl

@[simp] theorem insert_index : (insert heap m entry).2.index = m.index := by
  unfold insert; split <;> rfl

@[simp] theorem insert_size : (insert heap m entry).2.size = m.size + entryLengthByte entry.key := by
  unfold insert; split <;> rfl

@[simp] theorem insert_capacity : (insert heap m entry).2.capacity = m.capacity := by
  unfold insert; split <;> rfl

@[simp] theorem insert_sizeUnit : (insert heap m entry).2.sizeUnit = m.sizeUnit := by
  unfold insert; split <;> rfl

@[simp] theorem insert_falsePositiveRate :
    (insert heap m entry).2.falsePositiveRate = m.falsePositiveRate := by
  unfold insert; split <;> rfl

@[simp] theorem insert_readOnly : (insert heap m entry).2.readOnly = m.readOnly := by
  unfold insert; split <;> rfl

/-- After an insert the skip map holds a key. -/
theorem insert_cells_ne_empty : (insert heap m entry).1.cells (insert heap m entry).2.index ≠ ∅ :=
  fun h => AList.not_mem_empty entry.key (h ▸ (by simp : entry.key ∈
    (insert heap m entry).1.cells (insert heap m entry).2.index))

/-- The filter after an insert accepts the inserted key and everything it accepted. -/
theorem contains_insert {k : Key}
    (h : BloomFilter.contains m.bloomFilter k = true ∨ k = entry.key) :
    BloomFilter.contains (insert heap m entry).2.bloomFilter k = true := by
  unfold insert
  split
  · exact BloomFilter.contains_set _ _ _ h
  · rename_i hc
    rcases h with h | rfl
    · exact h
    · simpa using hc

@[simp] theorem clear_fst : (clear heap m).1 = heap.modify m.index fun _ => ∅ := rfl

@[simp] theorem clear_snd_index : (clear heap m).2.index = m.index := rfl

@[simp] theorem clear_snd_capacity : (clear heap m).2.capacity = m.capacity := rfl

@[simp] theorem clear_snd_sizeUnit : (clear heap m).2.sizeUnit = m.sizeUnit := rfl

@[simp] theorem clear_snd_falsePositiveRate :
    (clear heap m).2.falsePositiveRate = m.falsePositiveRate := rfl

/-- The memtable `with_specified_capacity_and_rate` builds, when its assertions pass. -/
theorem withSpecifiedCapacityAndRate_eq {sizeUnit : SizeUnit} {capacity : Nat} {rate : F64}
    {heap' : Heap} {m' : InMemoryTable F}
    (h : withSpecifiedCapacityAndRate heap sizeUnit capacity rate = .ok (heap', m')) :
    heap' = heap.alloc.1 ∧ Fresh m' heap.next (sizeUnit.toBytes capacity) rate := by
  unfold withSpecifiedCapacityAndRate at h
  split at h
  · cases h
  · split at h
    · cases h
    · cases h; exact ⟨rfl, rfl, rfl, rfl, rfl, rfl, rfl⟩

theorem withSpecifiedCapacityAndRate_noErr (sizeUnit : SizeUnit) (capacity : Nat) (rate : F64) :
    (withSpecifiedCapacityAndRate (F := F) heap sizeUnit capacity rate).NoErr := by
  unfold withSpecifiedCapacityAndRate
  split
  · exact Outcome.noErr_panic _
  · split
    · exact Outcome.noErr_panic _
    · exact Outcome.noErr_ok _

/-- Its only panics are its two assertions. -/
theorem withSpecifiedCapacityAndRate_panicSite (sizeUnit : SizeUnit) (capacity : Nat) (rate : F64) :
    (withSpecifiedCapacityAndRate (F := F) heap sizeUnit capacity rate).panicSite ≠
      some .headOffsetUnwrap := by
  unfold withSpecifiedCapacityAndRate
  split
  · simp [Outcome.panicSite]
  · split <;> simp [Outcome.panicSite]

/-- The assertions pass exactly for a non-negative rate and a positive capacity. -/
theorem withSpecifiedCapacityAndRate_isOk {sizeUnit : SizeUnit} {capacity : Nat} {rate : F64}
    (hr : rate.geZero = true) (hc : 0 < capacity) :
    ∃ heap' m', withSpecifiedCapacityAndRate (F := F) heap sizeUnit capacity rate = .ok (heap', m') := by
  simp [withSpecifiedCapacityAndRate, hr, Nat.pos_iff_ne_zero.mp hc]

end Fields

/-! ### The filter covers the skip map -/

/-- Every key of the skip map passes the Bloom filter. -/
def BloomCovers (heap : Heap) (m : InMemoryTable F) : Prop :=
  ∀ k ∈ heap.cells m.index, BloomFilter.contains m.bloomFilter k = true

/-- Under `BloomCovers`, `get` is the skip map's lookup. -/
theorem get_eq_lookup {heap : Heap} {m : InMemoryTable F} (h : BloomCovers heap m) (key : Key) :
    get heap m key = (heap.cells m.index).lookup key := by
  unfold get
  split
  · rfl
  · rename_i hc
    exact ((AList.lookup_eq_none).2 fun hk => hc (h key hk)).symm

/-- An insert keeps the filter covering the skip map. -/
theorem bloomCovers_insert {heap : Heap} {m : InMemoryTable F} (h : BloomCovers heap m)
    (entry : Entry) : BloomCovers (insert heap m entry).1 (insert heap m entry).2 := by
  intro k hk
  simp only [insert_fst, insert_index, Heap.modify_cells, if_true, AList.mem_insert] at hk
  exact contains_insert heap m entry (hk.elim Or.inr fun hk => Or.inl (h k hk))

end InMemoryTable

end LsmEngine
