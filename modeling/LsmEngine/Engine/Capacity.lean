import LsmEngine.Engine.Replay

/-!
# Every memtable keeps the capacity and rate the engine was opened with

`with_specified_capacity_and_rate` converts its capacity to bytes once and records the
unit as `SizeUnit::Bytes` (`src/memtable/inmemory.rs`, lines 81 to 108).  Every later
memtable is built from an existing one's `capacity`, `size_unit` and `false_positive_rate`:
the rollovers of `put` and `delete`, and `clear`, which reopens the engine with the active
memtable's capacity and unit.  Since `Bytes.to_bytes` is the identity, the conversion is
never applied twice (`InMemoryTable.Sized.renewed`).

`Sized capacity rate` says that a memtable has `capacity` bytes, counted in bytes, and the
rate `rate`; for an engine, that every memtable it holds does and that its config keeps the
rate.  Opening establishes it (`withCapacityAndRate_sized`, through the replay of
`recover_memtable` when the log is not empty), every request keeps it (`Sized.handle`),
and so every run does (`memtables_keep_opening_capacity_and_rate`).
-/

namespace LsmEngine

namespace InMemoryTable

variable {F : Type} [BloomFilter F]

/-- The memtable has `capacity` bytes, counted in bytes, and the false-positive rate
`rate`. -/
structure Sized (m : InMemoryTable F) (capacity : Nat) (rate : F64) : Prop where
  capacity : m.capacity = capacity
  sizeUnit : m.sizeUnit = .bytes
  rate : m.falsePositiveRate = rate

section Sized

variable {m m' : InMemoryTable F} {capacity index : Nat} {rate : F64}

omit [BloomFilter F] in
theorem Fresh.sized (h : m.Fresh index capacity rate) : m.Sized capacity rate :=
  ⟨h.capacity, h.sizeUnit, h.rate⟩

theorem Sized.insert (h : m.Sized capacity rate) (heap : Heap) (entry : Entry) :
    (m.insert heap entry).2.Sized capacity rate := by
  obtain ⟨hc, hu, hr⟩ := h
  exact ⟨by simpa using hc, by simpa using hu, by simpa using hr⟩

theorem Sized.clear (h : m.Sized capacity rate) (heap : Heap) : (m.clear heap).2.Sized capacity rate :=
  ⟨h.capacity, h.sizeUnit, h.rate⟩

omit [BloomFilter F] in
theorem Sized.seal (h : m.Sized capacity rate) : ({ m with readOnly := true }).Sized capacity rate :=
  ⟨h.capacity, h.sizeUnit, h.rate⟩

omit [BloomFilter F] in
/-- **No unit is converted twice.**  A memtable built from a sized memtable's own
`capacity`, `size_unit` and `false_positive_rate` has the same capacity and rate, because
the unit it reads is `Bytes`. -/
theorem Sized.renewed (h : m.Sized capacity rate)
    (hm' : m'.Fresh index (m.sizeUnit.toBytes m.capacity) m.falsePositiveRate) :
    m'.Sized capacity rate := by
  have := hm'.sized
  rwa [h.sizeUnit, h.capacity, h.rate, SizeUnit.toBytes_bytes] at this

end Sized

end InMemoryTable

namespace StorageEngine

variable {F : Type} [BloomFilter F]

/-- Every memtable of the engine has `capacity` bytes, counted in bytes, and the rate
`rate`, which is also the rate of its config. -/
structure Sized (s : StorageEngine F) (capacity : Nat) (rate : F64) : Prop where
  config : s.config.falsePositiveRate = rate
  active : s.activeMemtable.Sized capacity rate
  readOnly : ∀ p ∈ s.readOnlyMemtables, p.2.Sized capacity rate
  flushSends : ∀ p ∈ s.flushSends, p.2.Sized capacity rate

/-- The replay's memtables all have `capacity` bytes and the rate `rate`. -/
structure ReplayState.Sized (st : ReplayState F) (capacity : Nat) (rate : F64) : Prop where
  active : st.active.Sized capacity rate
  readOnly : ∀ p ∈ st.readOnly, p.2.Sized capacity rate

section Steps

variable {s s' : StorageEngine F} {capacity : Nat} {rate : F64}

omit [BloomFilter F] in
/-- A memtable sealed into an index map of sized memtables leaves it sized. -/
theorem sized_indexMapInsert {l : List (TableId × InMemoryTable F)} {m : InMemoryTable F}
    (hl : ∀ p ∈ l, p.2.Sized capacity rate) (hm : m.Sized capacity rate) (id : TableId) :
    ∀ p ∈ indexMapInsert l id m, p.2.Sized capacity rate := by
  intro p hp
  rcases mem_indexMapInsert hp with hp | rfl
  · exact hl p hp
  · exact hm

theorem Sized.insertActive (h : s.Sized capacity rate) (entry : Entry) :
    (insertActive s entry).Sized capacity rate :=
  { h with active := h.active.insert _ _ }

theorem Sized.sealActive (h : s.Sized capacity rate) (headEntry : Entry) (tableId : TableId) :
    (sealActive s headEntry tableId).Sized capacity rate :=
  { h with
    active := (h.active.insert _ _).seal
    readOnly := sized_indexMapInsert h.readOnly (h.active.insert _ _).seal tableId }

omit [BloomFilter F] in
/-- A rollover's end state: the sealed state with a queue that only gained its oldest
memtable, and a fresh active memtable built from the old one's fields. -/
theorem Sized.renewed {sealed : StorageEngine F} (h : s.Sized capacity rate)
    (hs : sealed.Sized capacity rate) {sends : List (TableId × InMemoryTable F)}
    (hsends : sends = s.flushSends ∨ ∃ p, sends = s.flushSends ++ [p] ∧
      sealed.readOnlyMemtables.head? = some p)
    {heap : Heap} {m : InMemoryTable F} {index : Nat}
    (hm : m.Fresh index (s.activeMemtable.sizeUnit.toBytes s.activeMemtable.capacity)
      s.activeMemtable.falsePositiveRate) :
    ({ sealed with flushSends := sends, heap := heap, activeMemtable := m }).Sized capacity rate where
  config := hs.config
  active := h.active.renewed hm
  readOnly := hs.readOnly
  flushSends := by
    rcases hsends with rfl | ⟨p, rfl, hp⟩
    · exact h.flushSends
    · simp only [List.mem_append, List.mem_singleton]
      rintro q (hq | rfl)
      · exact h.flushSends q hq
      · exact hs.readOnly q (List.mem_of_mem_head? hp)

theorem Sized.rolloverInPut (h : s.Sized capacity rate) {headNow : Nat} {tableId : TableId}
    (hr : rolloverInPut s headNow tableId = .ok s') : s'.Sized capacity rate := by
  obtain ⟨headOffset, m, sends, -, hsends, rfl, hm⟩ := rolloverInPut_eq hr
  have hsealed := Sized.sealActive (s := { s with valLog := s.valLog.setHead headOffset })
    ⟨h.config, h.active, h.readOnly, h.flushSends⟩ ⟨headEntryKey, headOffset, headNow, false⟩ tableId
  exact h.renewed hsealed hsends hm

theorem Sized.rolloverInDelete (h : s.Sized capacity rate) {headNow : Nat} {tableId : TableId}
    (hr : rolloverInDelete s headNow tableId = .ok s') : s'.Sized capacity rate := by
  obtain ⟨headOffset, -, ⟨-, rfl⟩ | ⟨p, m, -, hp, rfl, hm⟩⟩ := rolloverInDelete_eq hr
  · exact h.sealActive _ _
  · exact h.renewed (h.sealActive _ _) (.inr ⟨p, rfl, hp⟩) hm

theorem Sized.appendAndInsert {rollover : StorageEngine F → Outcome (StorageEngine F)}
    (hroll : ∀ {s s'}, s.Sized capacity rate → rollover s = .ok s' → s'.Sized capacity rate)
    (h : s.Sized capacity rate) {key value : Key} {createdAt : Nat} {isTombstone : Bool}
    (hs : appendAndInsert rollover s key value createdAt isTombstone = .ok s') :
    s'.Sized capacity rate := by
  obtain ⟨s₁, h₁, rfl⟩ := appendAndInsert_eq hs
  have happ : ({ s with valLog := (s.valLog.append key value createdAt isTombstone).1 }).Sized
      capacity rate := ⟨h.config, h.active, h.readOnly, h.flushSends⟩
  refine Sized.insertActive ?_ _
  rcases rolloverIfFull_eq h₁ with ⟨-, h₁⟩ | ⟨-, rfl⟩
  · exact hroll happ h₁
  · exact happ

theorem Sized.apply (h : s.Sized capacity rate) {c : Call} (hc : s.apply c = .ok s') :
    s'.Sized capacity rate := by
  cases c with
  | put | update => exact h.appendAndInsert (fun hs hr => hs.rolloverInPut hr) hc
  | delete =>
    obtain ⟨_, -, hd⟩ := Outcome.bind_eq_ok.1 hc
    exact h.appendAndInsert (fun hs hr => hs.rolloverInDelete hr) hd

end Steps

/-! ### Opening -/

section Open

variable {disk : Disk} {sizeUnit : SizeUnit} {capacity : Nat} {config : Config}
  {createdAt : Nat} {draw : Nat → TableId} {s : StorageEngine F}

/-- Every step of the replay keeps its memtables sized: the sealed one is the active one,
and a fresh one is built with the replay's own capacity and rate. -/
theorem ReplayState.Sized.replayStep {st st' : ReplayState F} {rate : F64} {headOffset : Nat}
    (h : st.Sized (sizeUnit.toBytes capacity) rate) {e : ValueLogEntry}
    (hs : StorageEngine.replayStep sizeUnit capacity rate headOffset draw st e = .ok st') :
    st'.Sized (sizeUnit.toBytes capacity) rate := by
  rcases replayStep_eq hs with ⟨-, rfl⟩ | ⟨-, st₁, h₁, rfl⟩
  · exact ⟨h.active, h.readOnly⟩
  · have hst₁ : st₁.Sized (sizeUnit.toBytes capacity) rate := by
      rcases h₁ with ⟨-, rfl⟩ | ⟨-, m, hm, rfl⟩
      · exact h
      · exact ⟨hm.sized, sized_indexMapInsert h.readOnly h.active.seal _⟩
    exact ⟨hst₁.active.insert _ _, hst₁.readOnly⟩

theorem recoverMemtable_sized {heap heap' : Heap} {rate : F64} {records : List ValueLogEntry}
    {headOffset : Nat} {active : InMemoryTable F} {readOnly : List (TableId × InMemoryTable F)}
    (h : recoverMemtable heap sizeUnit capacity rate records headOffset draw =
      .ok (heap', active, readOnly)) :
    active.Sized (sizeUnit.toBytes capacity) rate ∧
      ∀ p ∈ readOnly, p.2.Sized (sizeUnit.toBytes capacity) rate := by
  obtain ⟨m, st, hm, hr, -, rfl, rfl⟩ := recoverMemtable_eq h
  have := replay_preserves (fun _ _ _ hs h => ReplayState.Sized.replayStep hs h)
    (⟨hm.sized, by simp⟩ : ReplayState.Sized ⟨heap.alloc.1, m, [], headOffset, 0⟩ _ rate) hr
  exact ⟨this.active, this.readOnly⟩

theorem openFresh_sized (h : openFresh disk sizeUnit capacity config createdAt = .ok s) :
    s.Sized (sizeUnit.toBytes capacity) config.falsePositiveRate := by
  obtain ⟨⟨heap, m⟩, hw, hs⟩ := Outcome.bind_eq_ok.1 h
  obtain ⟨-, hm⟩ := InMemoryTable.withSpecifiedCapacityAndRate_eq _ hw
  cases hs
  exact ⟨rfl, (hm.sized.insert _ _).insert _ _, by simp, by simp⟩

theorem openRecover_sized (h : openRecover disk sizeUnit capacity config draw = .ok s) :
    s.Sized (sizeUnit.toBytes capacity) config.falsePositiveRate := by
  obtain ⟨_, hrec, hsends, rfl⟩ := openRecover_eq h
  obtain ⟨ha, hro⟩ := recoverMemtable_sized hrec
  exact ⟨rfl, ha, hro, by simp [hsends]⟩

/-- **Opening sizes every memtable.**  Whatever the directory, an engine that
`with_capacity_and_rate` opens has every memtable at `size_unit.to_bytes(capacity)` bytes
and the config's rate. -/
theorem withCapacityAndRate_sized
    (h : withCapacityAndRate disk sizeUnit capacity config createdAt draw = .ok s) :
    s.Sized (sizeUnit.toBytes capacity) config.falsePositiveRate := by
  unfold withCapacityAndRate at h
  split at h
  · exact openFresh_sized h
  · exact openRecover_sized h

end Open

section Run

variable {s s' : StorageEngine F} {capacity : Nat} {rate : F64}

/-- `clear` reopens with the active memtable's capacity, already in bytes, and the config's
rate. -/
theorem Sized.clear (h : s.Sized capacity rate) {createdAt : Nat} {draw : Nat → TableId}
    (hc : s.clear createdAt draw = .ok s') : s'.Sized capacity rate := by
  have := withCapacityAndRate_sized hc
  rwa [h.active.sizeUnit, h.active.capacity, SizeUnit.toBytes_bytes, h.config] at this

theorem Sized.handle (h : s.Sized capacity rate) {r : Request} (hr : s.handle r = .ok s') :
    s'.Sized capacity rate := by
  cases r with
  | call c => exact h.apply hr
  | clear => exact h.clear hr

/-- **Every memtable keeps the opening capacity and rate.**  Open an engine on any
directory with `(size_unit, capacity)` and a config, and run any requests, `clear`
included: every memtable the engine then holds, active, sealed or handed to the flush
channel, has `size_unit.to_bytes(capacity)` bytes, the unit `Bytes`, and the config's
false-positive rate. -/
theorem memtables_keep_opening_capacity_and_rate {disk : Disk} {sizeUnit : SizeUnit}
    {capacity : Nat} {config : Config} {createdAt : Nat} {draw : Nat → TableId}
    {rs : List Request} {s : StorageEngine F}
    (h : (withCapacityAndRate disk sizeUnit capacity config createdAt draw >>= (·.serve rs)) =
      .ok s) :
    ∀ m ∈ s.memtables, m.capacity = sizeUnit.toBytes capacity ∧ m.sizeUnit = .bytes ∧
      m.falsePositiveRate = config.falsePositiveRate := by
  obtain ⟨s₀, h₀, hrun⟩ := Outcome.bind_eq_ok.1 h
  have hs := Outcome.steps_preserves (fun _ _ _ hs hr => Sized.handle hs hr)
    (withCapacityAndRate_sized h₀) hrun
  intro m hm
  have hm : m.Sized (sizeUnit.toBytes capacity) config.falsePositiveRate := by
    simp only [memtables, List.mem_cons, List.mem_append, List.mem_map] at hm
    rcases hm with rfl | ⟨p, hp, rfl⟩ | ⟨p, hp, rfl⟩
    · exact hs.active
    · exact hs.readOnly p hp
    · exact hs.flushSends p hp
  exact ⟨hm.capacity, hm.sizeUnit, hm.rate⟩

/-- A `put` that rolls `smallEngine`'s memtable over, a `clear`, and another `put`. -/
def smallRequests : List Request :=
  [.call (.put [97] [49] 2 2 [48]), .clear 3 fun _ => [], .call (.put [98] [50] 4 4 [49])]

theorem small_run_keeps_capacity :
    ∃ s, (withCapacityAndRate (F := ExactFilter) ⟨[], some [], []⟩ .bytes 31 smallConfig 1
        (fun _ => []) >>= (·.serve smallRequests)) = .ok s ∧
      ∀ m ∈ s.memtables, m.capacity = SizeUnit.bytes.toBytes 31 ∧ m.sizeUnit = .bytes ∧
        m.falsePositiveRate = smallConfig.falsePositiveRate :=
  (fun hs => ⟨_, hs, memtables_keep_opening_capacity_and_rate hs⟩) rfl

end Run

end StorageEngine

end LsmEngine
