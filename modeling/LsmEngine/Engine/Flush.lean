import LsmEngine.Engine.WriteSpec

/-!
# The flush channel, interleaved with the flusher

When a rollover leaves `read_only_memtables` with `max_buffer_write_number` memtables or
more, the writer spawns a task that sends the oldest one, with its id, on the flush channel
(`src/storage_engine/storage.rs`, lines 199 to 225 and 395 to 419).  The spawned sends
complete in any order, each once the channel, `mpsc::channel(100)`, has room.  The
flusher receives the pairs in channel order, flushes each, and removes it from
`read_only_memtables`.

`FlushSystem` is the state of the interleaving: the engine, whose `flushSends` are the
spawned sends still pending, the channel, and the ids the flusher has flushed.  A step is a
user call, one pending send completing, or one receive of the flusher.

Nothing stops a rollover from sending the oldest memtable again while the flusher has not
removed it yet, so one id can be sent twice and can reach the flusher after its memtable was
flushed (`flush_channel_carries_flushed_id`).  What holds over every interleaving
(`flush_sends_name_sealed_memtables`): every pair pending or in the channel names a
memtable that is still sealed or already flushed, no sealed id has been flushed, and a send
is only ever spawned for a memtable that is sealed and not flushed.  Table ids are assumed
distinct, as ten random alphanumeric bytes are meant to be.
-/

namespace LsmEngine

/-- The table id a call draws for a rollover. -/
def Call.tableId : Call → TableId
  | .put _ _ _ _ tableId | .update _ _ _ _ tableId | .delete _ _ _ tableId => tableId

namespace StorageEngine

variable {F : Type} [BloomFilter F]

/-- The ids of `read_only_memtables`, oldest first. -/
def sealedIds (s : StorageEngine F) : List TableId := s.readOnlyMemtables.map Prod.fst

/-- What a write may do to the sealed memtables and the sends: it keeps every sealed id,
adds none but the id `tableId` it drew, and spawns sends only of sealed memtables. -/
structure SealsUnder (s s' : StorageEngine F) (tableId : TableId) : Prop where
  keeps : ∀ id ∈ s.sealedIds, id ∈ s'.sealedIds
  adds : ∀ id ∈ s'.sealedIds, id ∈ s.sealedIds ∨ id = tableId
  sends : ∃ new, s'.flushSends = s.flushSends ++ new ∧ ∀ p ∈ new, p.1 ∈ s'.sealedIds

section SealsUnder

variable {s s₁ s₂ s₃ : StorageEngine F} {tableId : TableId}

omit [BloomFilter F] in
theorem SealsUnder.of_eq (hr : s'.readOnlyMemtables = s.readOnlyMemtables)
    (hf : s'.flushSends = s.flushSends) : SealsUnder s s' tableId where
  keeps id h := by rwa [sealedIds, hr]
  adds id h := by rw [sealedIds, hr] at h; exact .inl h
  sends := ⟨[], by simp [hf], by simp⟩

omit [BloomFilter F] in
theorem SealsUnder.trans (h₁ : SealsUnder s₁ s₂ tableId) (h₂ : SealsUnder s₂ s₃ tableId) :
    SealsUnder s₁ s₃ tableId where
  keeps id h := h₂.keeps id (h₁.keeps id h)
  adds id h := (h₂.adds id h).elim (h₁.adds id) .inr
  sends := by
    obtain ⟨n₁, e₁, h₁'⟩ := h₁.sends
    obtain ⟨n₂, e₂, h₂'⟩ := h₂.sends
    refine ⟨n₁ ++ n₂, by rw [e₂, e₁, List.append_assoc], fun p hp => ?_⟩
    rcases List.mem_append.1 hp with hp | hp
    · exact h₂.keeps _ (h₁' p hp)
    · exact h₂' p hp

omit [BloomFilter F] in
/-- Only the sealed memtables and the sends of the state before count. -/
theorem SealsUnder.of_left (h : SealsUnder s₂ s₃ tableId)
    (hr : s₂.readOnlyMemtables = s₁.readOnlyMemtables) (hf : s₂.flushSends = s₁.flushSends) :
    SealsUnder s₁ s₃ tableId :=
  (SealsUnder.of_eq hr hf).trans h

theorem sealsUnder_sealActive (s : StorageEngine F) (headEntry : Entry) (tableId : TableId) :
    SealsUnder s (sealActive s headEntry tableId) tableId where
  keeps id h := by
    simp only [sealedIds, sealActive_readOnlyMemtables, map_fst_indexMapInsert]
    split <;> simp_all [sealedIds]
  adds id h := by
    simp only [sealedIds, sealActive_readOnlyMemtables, map_fst_indexMapInsert] at h
    split at h <;> simp_all [sealedIds]
  sends := ⟨[], by simp, by simp⟩

omit [BloomFilter F] in
/-- The end of a rollover: a send of the oldest sealed memtable, or none, and a fresh active
memtable. -/
theorem sealsUnder_queued {sends : List (TableId × InMemoryTable F)}
    (hsends : sends = s.flushSends ∨ ∃ p, sends = s.flushSends ++ [p] ∧
      s.readOnlyMemtables.head? = some p) (heap : Heap) (m : InMemoryTable F) :
    SealsUnder s { s with flushSends := sends, heap := heap, activeMemtable := m } tableId := by
  rcases hsends with rfl | ⟨p, rfl, hp⟩
  · exact .of_eq rfl rfl
  · refine ⟨fun _ h => h, fun _ h => .inl h, [p], rfl, fun q hq => ?_⟩
    rw [List.mem_singleton.1 hq]
    exact List.mem_map_of_mem _ (List.mem_of_mem_head? hp)

theorem sealsUnder_rolloverInPut {headNow : Nat} (h : rolloverInPut s headNow tableId = .ok s') :
    SealsUnder s s' tableId := by
  obtain ⟨headOffset, m, sends, -, hsends, rfl, -⟩ := rolloverInPut_eq h
  let headEntry : Entry := ⟨headEntryKey, headOffset, headNow, false⟩
  let s₁ := { s with valLog := s.valLog.setHead headOffset }
  exact ((sealsUnder_sealActive s₁ headEntry tableId).trans
    (sealsUnder_queued (s := sealActive s₁ headEntry tableId) hsends _ m)).of_left rfl rfl

theorem sealsUnder_rolloverInDelete {headNow : Nat}
    (h : rolloverInDelete s headNow tableId = .ok s') : SealsUnder s s' tableId := by
  obtain ⟨headOffset, -, ⟨-, rfl⟩ | ⟨p, m, -, hp, rfl, -⟩⟩ := rolloverInDelete_eq h
  · exact sealsUnder_sealActive s _ tableId
  · exact (sealsUnder_sealActive s _ tableId).trans
      (sealsUnder_queued (s := sealActive s ⟨headEntryKey, headOffset, headNow, true⟩ tableId)
        (.inr ⟨p, rfl, hp⟩) _ m)

theorem sealsUnder_appendAndInsert {rollover : StorageEngine F → Outcome (StorageEngine F)}
    (hroll : ∀ {s s'}, rollover s = .ok s' → SealsUnder s s' tableId) {key value : Key}
    {createdAt : Nat} {isTombstone : Bool}
    (h : appendAndInsert rollover s key value createdAt isTombstone = .ok s') :
    SealsUnder s s' tableId := by
  obtain ⟨s₁, h₁, rfl⟩ := appendAndInsert_eq h
  have h₂ : SealsUnder s s₁ tableId := by
    rcases rolloverIfFull_eq h₁ with ⟨-, h₁⟩ | ⟨-, rfl⟩
    · exact (hroll h₁).of_left rfl rfl
    · exact .of_eq rfl rfl
  exact h₂.trans (.of_eq rfl rfl)

/-- **What a user call does to the flush hand-off.** -/
theorem sealsUnder_apply {c : Call} (h : s.apply c = .ok s') : SealsUnder s s' c.tableId := by
  cases c with
  | put | update => exact sealsUnder_appendAndInsert sealsUnder_rolloverInPut h
  | delete =>
    obtain ⟨_, -, h⟩ := Outcome.bind_eq_ok.1 h
    exact sealsUnder_appendAndInsert sealsUnder_rolloverInDelete h

end SealsUnder

end StorageEngine

/-! ### The interleaving -/

/-- The depth of the flush channel, `mpsc::channel(100)`. -/
def flushChannelCapacity : Nat := 100

/-- What runs next: a user call, the `i`-th pending send completing, or the flusher
receiving the next pair. -/
inductive Action where
  | call (c : Call)
  | deliver (i : Nat)
  | flush

/-- The ids the calls of a schedule draw. -/
def callIds : List Action → List TableId
  | [] => []
  | .call c :: as => c.tableId :: callIds as
  | _ :: as => callIds as

/-- The state of the interleaving: the engine (its `flushSends` are the spawned sends still
pending), the pairs in the flush channel in the order the flusher receives them, and the ids
the flusher has flushed. -/
structure FlushSystem (F : Type) where
  engine : StorageEngine F
  channel : List (TableId × InMemoryTable F)
  flushed : List TableId

namespace FlushSystem

variable {F : Type} [BloomFilter F]

/-- The interleaving starts from an engine with nothing sent. -/
def init (engine : StorageEngine F) : FlushSystem F := ⟨engine, [], []⟩

/-- Modelled from the spec: the flusher is not among the sources; §4.7 says it receives a
pair, persists it as an SSTable, and removes the memtable from the immutable queue. -/
def receive (sys : FlushSystem F) : Option (FlushSystem F) :=
  match sys.channel with
  | p :: rest =>
    some { engine := { sys.engine with
                       readOnlyMemtables := sys.engine.readOnlyMemtables.filter (·.1 ≠ p.1) }
           channel := rest
           flushed := sys.flushed ++ [p.1] }
  | [] => none

/-- One step of the interleaving; `none` when the action cannot run, or the call panicked.
A call that returns `Err` leaves the state as it was. -/
def step (sys : FlushSystem F) : Action → Option (FlushSystem F)
  | .call c =>
    match sys.engine.apply c with
    | .ok engine => some { sys with engine := engine }
    | .err _ => some sys
    | .panic _ => none
  | .deliver i =>
    match sys.engine.flushSends[i]? with
    | some p =>
      if sys.channel.length < flushChannelCapacity then
        some { sys with engine := { sys.engine with flushSends := sys.engine.flushSends.eraseIdx i }
                        channel := sys.channel ++ [p] }
      else none
    | none => none
  | .flush => sys.receive

/-- A schedule, step after step. -/
def run (sys : FlushSystem F) : List Action → Option (FlushSystem F)
  | [] => some sys
  | a :: as => (sys.step a).bind fun sys => sys.run as

/-- Every pair pending or in the channel names a memtable still sealed or already flushed,
and no sealed id has been flushed. -/
structure Tracked (sys : FlushSystem F) : Prop where
  sent : ∀ p ∈ sys.engine.flushSends ++ sys.channel, p.1 ∈ sys.engine.sealedIds ∨ p.1 ∈ sys.flushed
  unflushed : ∀ id ∈ sys.engine.sealedIds, id ∉ sys.flushed

/-- The ids still to be drawn are neither sealed nor flushed. -/
def Unused (sys : FlushSystem F) (ids : List TableId) : Prop :=
  ∀ t ∈ ids, t ∉ sys.engine.sealedIds ∧ t ∉ sys.flushed

section Steps

variable {sys sys' : FlushSystem F}

/-! What each action can do. -/

theorem step_call_eq {c : Call} (h : sys.step (.call c) = some sys') :
    sys' = sys ∨ ∃ engine, sys.engine.apply c = .ok engine ∧ sys' = { sys with engine := engine } := by
  simp only [FlushSystem.step] at h
  split at h
  · cases h; exact .inr ⟨_, ‹_›, rfl⟩
  · cases h; exact .inl rfl
  · cases h

theorem step_deliver_eq {i : Nat} (h : sys.step (.deliver i) = some sys') :
    ∃ p, sys.engine.flushSends[i]? = some p ∧ sys.channel.length < flushChannelCapacity ∧
      sys' = { sys with engine := { sys.engine with flushSends := sys.engine.flushSends.eraseIdx i }
                        channel := sys.channel ++ [p] } := by
  simp only [FlushSystem.step] at h
  split at h
  · split at h
    · cases h; exact ⟨_, ‹_›, ‹_›, rfl⟩
    · cases h
  · cases h

omit [BloomFilter F] in
theorem receive_eq (h : sys.receive = some sys') :
    ∃ p rest, sys.channel = p :: rest ∧
      sys' = { engine := { sys.engine with
                           readOnlyMemtables := sys.engine.readOnlyMemtables.filter (·.1 ≠ p.1) }
               channel := rest
               flushed := sys.flushed ++ [p.1] } := by
  unfold FlushSystem.receive at h
  split at h
  · cases h; exact ⟨_, _, ‹_›, rfl⟩
  · cases h

omit [BloomFilter F] in
/-- The flusher's removal takes out exactly the id it received. -/
theorem mem_sealedIds_remove {engine : StorageEngine F} {k id : TableId} :
    id ∈ ({ engine with readOnlyMemtables := engine.readOnlyMemtables.filter (·.1 ≠ k) }
      : StorageEngine F).sealedIds ↔ id ∈ engine.sealedIds ∧ id ≠ k := by
  simp only [StorageEngine.sealedIds, List.mem_map, List.mem_filter, decide_eq_true_eq]
  constructor
  · rintro ⟨q, ⟨hq, hne⟩, rfl⟩; exact ⟨⟨q, hq, rfl⟩, hne⟩
  · rintro ⟨⟨q, hq, rfl⟩, hne⟩; exact ⟨q, ⟨hq, hne⟩, rfl⟩

/-! What each action keeps. -/

/-- A call that draws an unflushed id keeps the pairs tracked. -/
theorem tracked_call (h : sys.Tracked) {c : Call} {engine : StorageEngine F}
    (hc : sys.engine.apply c = .ok engine) (ht : c.tableId ∉ sys.flushed) :
    ({ sys with engine := engine } : FlushSystem F).Tracked := by
  have hs := StorageEngine.sealsUnder_apply hc
  obtain ⟨new, hnew, hnewIds⟩ := hs.sends
  refine ⟨fun p hp => ?_, fun id hid => ?_⟩
  · simp only [hnew, List.mem_append] at hp
    rcases hp with (hp | hp) | hp
    · exact (h.sent p (List.mem_append_left _ hp)).imp_left (hs.keeps _)
    · exact .inl (hnewIds p hp)
    · exact (h.sent p (List.mem_append_right _ hp)).imp_left (hs.keeps _)
  · rcases hs.adds id hid with hid | rfl
    · exact h.unflushed id hid
    · exact ht

theorem tracked_deliver (h : sys.Tracked) {i : Nat} (hs : sys.step (.deliver i) = some sys') :
    sys'.Tracked := by
  obtain ⟨p, hp, -, rfl⟩ := step_deliver_eq hs
  refine ⟨fun q hq => h.sent q ?_, h.unflushed⟩
  simp only [List.mem_append, List.mem_singleton] at hq ⊢
  rcases hq with hq | hq | rfl
  · exact .inl (List.mem_of_mem_eraseIdx hq)
  · exact .inr hq
  · exact .inl (List.getElem?_mem hp)

omit [BloomFilter F] in
theorem tracked_receive (h : sys.Tracked) (hs : sys.receive = some sys') : sys'.Tracked := by
  obtain ⟨p, rest, hch, rfl⟩ := receive_eq hs
  refine ⟨fun q hq => ?_, fun id hid => ?_⟩
  · have hold := h.sent q (by
      rw [hch]
      exact List.mem_append.2 ((List.mem_append.1 hq).imp_right (List.mem_cons_of_mem _)))
    by_cases hq : q.1 = p.1
    · exact .inr (List.mem_append_right _ (List.mem_singleton.2 hq))
    · exact hold.imp (fun hold => mem_sealedIds_remove.2 ⟨hold, hq⟩) (List.mem_append_left _)
  · obtain ⟨hid, hne⟩ := mem_sealedIds_remove.1 hid
    simp only [List.mem_append, List.mem_singleton, not_or]
    exact ⟨h.unflushed id hid, hne⟩

/-- **One step keeps the pairs tracked**, when a call draws an id nothing has used. -/
theorem tracked_step (h : sys.Tracked) {a : Action} {ids : List TableId}
    (hfresh : sys.Unused (callIds [a] ++ ids)) (hnd : (callIds [a] ++ ids).Nodup)
    (hs : sys.step a = some sys') : sys'.Tracked ∧ sys'.Unused ids := by
  cases a with
  | call c =>
    simp only [callIds, List.singleton_append, List.nodup_cons] at hfresh hnd
    have hrest : sys.Unused ids := fun t ht => hfresh t (List.mem_cons_of_mem _ ht)
    rcases step_call_eq hs with rfl | ⟨engine, hc, rfl⟩
    · exact ⟨h, hrest⟩
    · refine ⟨tracked_call h hc (hfresh c.tableId (List.mem_cons_self _ _)).2,
        fun t ht => ⟨fun hm => ?_, (hrest t ht).2⟩⟩
      rcases (StorageEngine.sealsUnder_apply hc).adds t hm with hm | rfl
      · exact (hrest t ht).1 hm
      · exact hnd.1 ht
  | deliver i =>
    refine ⟨tracked_deliver h hs, ?_⟩
    obtain ⟨p, -, -, rfl⟩ := step_deliver_eq hs
    exact hfresh
  | flush =>
    refine ⟨tracked_receive h hs, ?_⟩
    obtain ⟨p, rest, hch, rfl⟩ := receive_eq hs
    intro t ht
    obtain ⟨hs₁, hs₂⟩ := hfresh t ht
    have hp := h.sent p (by rw [hch]; exact List.mem_append_right _ (List.mem_cons_self _ _))
    refine ⟨fun hm => hs₁ (mem_sealedIds_remove.1 hm).1, ?_⟩
    simp only [List.mem_append, List.mem_singleton, not_or]
    refine ⟨hs₂, fun htp => ?_⟩
    subst htp
    exact hp.elim hs₁ hs₂

/-- **A whole schedule keeps the pairs tracked.** -/
theorem tracked_run (h : sys.Tracked) {as : List Action} {ids : List TableId}
    (hfresh : sys.Unused (callIds as ++ ids)) (hnd : (callIds as ++ ids).Nodup)
    (hs : sys.run as = some sys') : sys'.Tracked ∧ sys'.Unused ids := by
  induction as generalizing sys with
  | nil => cases hs; exact ⟨h, hfresh⟩
  | cons a as ih =>
    obtain ⟨sys₁, h₁, h₂⟩ := Option.bind_eq_some.1 hs
    have hsplit : callIds (a :: as) = callIds [a] ++ callIds as := by
      cases a <;> simp [callIds]
    rw [hsplit, List.append_assoc] at hfresh hnd
    obtain ⟨ht₁, hu₁⟩ := tracked_step h hfresh hnd h₁
    exact ih ht₁ hu₁ (List.nodup_append.1 hnd).2.1 h₂

/-- A call that draws an unused id spawns sends only of sealed memtables, none of them
flushed. -/
theorem tracked_call_spawns (h : sys.Tracked) {c : Call} (ht : c.tableId ∉ sys.flushed)
    (hs : sys.step (.call c) = some sys') :
    ∀ p ∈ sys'.engine.flushSends.drop sys.engine.flushSends.length,
      p.1 ∈ sys'.engine.sealedIds ∧ p.1 ∉ sys'.flushed := by
  rcases step_call_eq hs with rfl | ⟨engine, hc, rfl⟩
  · simp
  · obtain ⟨new, hnew, hnewIds⟩ := (StorageEngine.sealsUnder_apply hc).sends
    intro p hp
    simp only [hnew, List.drop_left] at hp
    exact ⟨hnewIds p hp, (tracked_call h hc ht).unflushed _ (hnewIds p hp)⟩

end Steps

omit [BloomFilter F] in
theorem tracked_init {engine : StorageEngine F} (hr : engine.readOnlyMemtables = [])
    (hf : engine.flushSends = []) : (init engine).Tracked where
  sent p hp := by simp [init, hf] at hp
  unflushed id hid := by simp [StorageEngine.sealedIds, init, hr] at hid

end FlushSystem

namespace StorageEngine

variable {F : Type} [BloomFilter F]

/-- **What the flush channel does guarantee.**  Start from an engine opened on an empty
directory, and run any interleaving of user calls, completions of spawned sends and
receives of the flusher, the calls drawing distinct table ids.  Then every pair pending or
in the channel names a memtable still in `read_only_memtables` or already flushed, no
memtable of `read_only_memtables` has been flushed, and a next call with a new id spawns
sends only of memtables in `read_only_memtables`, none of them flushed. -/
theorem flush_sends_name_sealed_memtables {sizeUnit : SizeUnit} {capacity : Nat} {config : Config}
    {createdAt : Nat} {engine : StorageEngine F}
    (he : openEmpty sizeUnit capacity config createdAt = .ok engine) {as : List Action} {c : Call}
    (hids : (callIds as ++ [c.tableId]).Nodup) {sys sys' : FlushSystem F}
    (hrun : (FlushSystem.init engine).run as = some sys) :
    sys.Tracked ∧ (sys.step (.call c) = some sys' →
      ∀ p ∈ sys'.engine.flushSends.drop sys.engine.flushSends.length,
        p.1 ∈ sys'.engine.sealedIds ∧ p.1 ∉ sys'.flushed) := by
  have he : openFresh ⟨[], some [], []⟩ sizeUnit capacity config createdAt = .ok engine := he
  obtain ⟨_, -, hs⟩ := Outcome.bind_eq_ok.1 he
  have hr : engine.readOnlyMemtables = [] := by cases hs; rfl
  have hf : engine.flushSends = [] := by cases hs; rfl
  have hunused : (FlushSystem.init engine).Unused (callIds as ++ [c.tableId]) := fun _ _ =>
    ⟨by simp [sealedIds, FlushSystem.init, hr], by simp [FlushSystem.init]⟩
  obtain ⟨ht, hu⟩ := FlushSystem.tracked_run (FlushSystem.tracked_init hr hf) hunused hids hrun
  exact ⟨ht, FlushSystem.tracked_call_spawns ht (hu c.tableId (List.mem_singleton_self _)).2⟩

/-- A queue of one sealed memtable before a flush. -/
def eagerConfig : Config := ⟨onePercent, 1⟩

/-- The engine opened on an empty directory with 31-byte memtables and `eagerConfig`. -/
def eagerEngine : Outcome (StorageEngine ExactFilter) := openEmpty .bytes 31 eagerConfig 1

theorem eager_run_tracked :
    ∃ engine sys, eagerEngine = .ok engine ∧
      (FlushSystem.init engine).run [.call (.put [97] [49] 2 2 [48])] = some sys ∧
      ∀ sys', sys.Tracked ∧ (sys.step (.call (.put [98] [50] 3 3 [49])) = some sys' →
        ∀ p ∈ sys'.engine.flushSends.drop sys.engine.flushSends.length,
          p.1 ∈ sys'.engine.sealedIds ∧ p.1 ∉ sys'.flushed) :=
  (fun he => (fun hrun => ⟨_, _, he, hrun,
    fun _ => flush_sends_name_sealed_memtables he (by decide) hrun⟩) rfl) rfl

/-- Two `put`s that each roll the memtable over, with the flusher idle, send the memtable
sealed under id `"0"` twice; once both sends complete and the flusher has received the
first, the channel still holds id `"0"`, now flushed. -/
theorem flush_channel_carries_flushed_id :
    ∃ engine sys₁ sys₂, eagerEngine = .ok engine ∧
      (FlushSystem.init engine).run [.call (.put [97] [49] 2 2 [48]),
        .call (.put [98] [50] 3 3 [49]), .deliver 0, .deliver 0] = some sys₁ ∧
      sys₁.channel.map Prod.fst = [[48], [48]] ∧
      sys₁.step .flush = some sys₂ ∧ sys₂.flushed = [[48]] ∧
      sys₂.channel.map Prod.fst = [[48]] :=
  ⟨_, _, _, rfl, rfl, rfl, rfl, rfl, rfl⟩

end StorageEngine

end LsmEngine
