import LsmEngine.Basic

/-!
# `KeyRange`: the key envelope of every SSTable

`src/key_range/range.rs` keeps, for each SSTable path, the smallest and the biggest key
the table holds.  Over these envelopes it answers which tables hold keys at or above a key
(`filter_sstables_by_biggest_key`) and which tables a scan of `[start_key, end_key]` must
read (`range_scan`).  Both compare keys with `Ord::cmp` on `&[u8]` (`keyCmp`).  That
comparison is the standard library's lexicographic order `List.lt` on `List UInt8`
(`keyCmp_eq_lt_iff`, `keyCmp_eq_gt_iff`), so each filter reads as an order statement in
`List.le`, which is `¬ List.lt b a` (`cmp_le_eq`, `cmp_ge_eq`).  The order is named, not
written `<`, since Mathlib's `List.Lex` instance of `<` would otherwise take its place.

`range_scan` keeps a range when its smallest key is at or below `start_key` *or* its
biggest key is at or above `end_key` (`rangeScan_eq`).  An envelope meets `[lo, hi]` when
its smallest key is at or below `hi` *and* its biggest key is at or above `lo`
(`Intersects`).  The two tests disagree on two families of envelopes, whatever else the map
holds:
- an envelope strictly inside the query meets it, yet is never returned
  (`inner_not_scanned`);
- an envelope that misses the query entirely is always returned (`disjoint_scanned`).
-/

namespace LsmEngine

/-! ### Comparing keys -/

/-- `Ord::cmp` on `&[u8]`: byte by byte, a proper prefix first. -/
def keyCmp : Key → Key → Ordering
  | [], [] => .eq
  | [], _ :: _ => .lt
  | _ :: _, [] => .gt
  | a :: as, b :: bs => (compare a.toNat b.toNat).then (keyCmp as bs)

theorem cons_lt_cons_iff {a b : UInt8} {as bs : Key} :
    List.lt (a :: as) (b :: bs) ↔ a.toNat < b.toNat ∨ a = b ∧ List.lt as bs := by
  constructor
  · intro h
    cases h with
    | head _ _ h => exact .inl h
    | tail h₁ h₂ h =>
      change ¬ a.toNat < b.toNat at h₁
      change ¬ b.toNat < a.toNat at h₂
      exact .inr ⟨UInt8.toNat.inj (by omega), h⟩
  · rintro (h | ⟨rfl, h⟩)
    · exact .head _ _ h
    · exact .tail (Nat.lt_irrefl _) (Nat.lt_irrefl _) h

theorem keyCmp_eq_lt_iff : ∀ a b : Key, keyCmp a b = .lt ↔ List.lt a b
  | [], [] => iff_of_false (by decide) nofun
  | [], _ :: _ => iff_of_true rfl (.nil _ _)
  | _ :: _, [] => iff_of_false (by simp [keyCmp]) nofun
  | a :: as, b :: bs => by
    rw [cons_lt_cons_iff, ← keyCmp_eq_lt_iff as bs, keyCmp]
    cases hc : compare a.toNat b.toNat with
    | lt => simp [Ordering.then, Nat.compare_eq_lt.1 hc]
    | eq => simp [Ordering.then, UInt8.toNat.inj (Nat.compare_eq_eq.1 hc)]
    | gt =>
      have := Nat.compare_eq_gt.1 hc
      simp only [Ordering.then, reduceCtorEq, false_iff]
      rintro (h | ⟨rfl, -⟩) <;> omega

theorem keyCmp_eq_gt_iff : ∀ a b : Key, keyCmp a b = .gt ↔ List.lt b a
  | [], [] => iff_of_false (by decide) nofun
  | [], _ :: _ => iff_of_false (by simp [keyCmp]) nofun
  | _ :: _, [] => iff_of_true rfl (.nil _ _)
  | a :: as, b :: bs => by
    rw [cons_lt_cons_iff, ← keyCmp_eq_gt_iff as bs, keyCmp]
    cases hc : compare a.toNat b.toNat with
    | gt => simp [Ordering.then, Nat.compare_eq_gt.1 hc]
    | eq => simp [Ordering.then, UInt8.toNat.inj (Nat.compare_eq_eq.1 hc)]
    | lt =>
      have := Nat.compare_eq_lt.1 hc
      simp only [Ordering.then, reduceCtorEq, false_iff]
      rintro (h | ⟨rfl, -⟩) <;> omega

/-- `cmp(a, b) == Less || cmp(a, b) == Equal`, the code's test for `a ≤ b`. -/
theorem cmp_le_eq (a b : Key) :
    (keyCmp a b == .lt || keyCmp a b == .eq) = decide (List.le a b) := by
  rw [Bool.eq_iff_iff, decide_eq_true_iff]
  show _ ↔ ¬ List.lt b a
  rw [← keyCmp_eq_gt_iff]
  cases keyCmp a b <;> decide

/-- `cmp(a, b) == Greater || cmp(a, b) == Equal`, the code's test for `b ≤ a`. -/
theorem cmp_ge_eq (a b : Key) :
    (keyCmp a b == .gt || keyCmp a b == .eq) = decide (List.le b a) := by
  rw [Bool.eq_iff_iff, decide_eq_true_iff]
  show _ ↔ ¬ List.lt a b
  rw [← keyCmp_eq_lt_iff]
  cases keyCmp a b <;> decide

theorem key_lt_trans {a b c : Key} (h₁ : List.lt a b) (h₂ : List.lt b c) : List.lt a c :=
  List.lt_trans UInt8.lt_trans (fun {x y z : UInt8} (h₁ : ¬ x < y) (h₂ : ¬ y < z) => by
    change ¬ x.toNat < y.toNat at h₁
    change ¬ y.toNat < z.toNat at h₂
    exact (by omega : ¬ x.toNat < z.toNat)) h₁ h₂

/-! ### The map -/

/-- `Range`: the envelope of one SSTable and the table.  `T` stands for `sst::Table`, which
the sources do not contain; no modelled function reads it. -/
structure Range (T : Type) where
  smallestKey : Key
  biggestKey : Key
  sst : T

/-- `KeyRange`: a `HashMap<PathBuf, Range>`, one entry per path.  A `HashMap` is iterated
once over every entry in an unspecified order; the model takes the order of the list. -/
structure KeyRange (T : Type) where
  keyRanges : AList fun _ : String => Range T

namespace KeyRange

variable {T : Type}

/-- `KeyRange::new`. -/
def new : KeyRange T := ⟨∅⟩

/-- `KeyRange::set`: records the envelope of the table at `sstPath`, replacing the one
there; `true` when there was one. -/
def set (kr : KeyRange T) (sstPath : String) (smallestKey biggestKey : Key) (table : T) :
    KeyRange T × Bool :=
  (⟨kr.keyRanges.insert sstPath ⟨smallestKey, biggestKey, table⟩⟩,
    (kr.keyRanges.lookup sstPath).isSome)

/-- `KeyRange::remove`. -/
def remove (kr : KeyRange T) (sstPath : String) : KeyRange T × Bool :=
  (⟨kr.keyRanges.erase sstPath⟩, (kr.keyRanges.lookup sstPath).isSome)

/-- `KeyRange::filter_sstables_by_biggest_key`. -/
def filterSstablesByBiggestKey (kr : KeyRange T) (key : Key) : List T :=
  (kr.keyRanges.entries.filter fun e =>
    keyCmp e.2.biggestKey key == .gt || keyCmp e.2.biggestKey key == .eq).map (·.2.sst)

/-- `KeyRange::range_scan`. -/
def rangeScan (kr : KeyRange T) (startKey endKey : Key) : List (Range T) :=
  (kr.keyRanges.entries.filter fun e =>
    (keyCmp e.2.smallestKey startKey == .lt || keyCmp e.2.smallestKey startKey == .eq) ||
      (keyCmp e.2.biggestKey endKey == .gt || keyCmp e.2.biggestKey endKey == .eq)).map (·.2)

/-- The ranges the map holds, one per path. -/
def ranges (kr : KeyRange T) : List (Range T) := kr.keyRanges.entries.map (·.2)

/-- Every envelope of the map is ordered. -/
def WellFormed (kr : KeyRange T) : Prop := ∀ r ∈ kr.ranges, List.le r.smallestKey r.biggestKey

instance (kr : KeyRange T) : Decidable kr.WellFormed :=
  inferInstanceAs (Decidable (∀ r ∈ kr.ranges, _))

/-- The spec's answer: the envelope `[smallestKey, biggestKey]` meets `[lo, hi]`. -/
def Intersects (r : Range T) (lo hi : Key) : Prop :=
  List.le r.smallestKey hi ∧ List.le lo r.biggestKey

instance (r : Range T) (lo hi : Key) : Decidable (Intersects r lo hi) :=
  inferInstanceAs (Decidable (_ ∧ _))

/-! ### Building the map keeps its envelopes ordered -/

theorem WellFormed.set {kr : KeyRange T} (h : kr.WellFormed) {sstPath : String}
    {smallestKey biggestKey : Key} (hk : List.le smallestKey biggestKey) (table : T) :
    (kr.set sstPath smallestKey biggestKey table).1.WellFormed := by
  intro r hr
  simp only [KeyRange.set, ranges, AList.insert_entries, List.map_cons, List.mem_cons] at hr
  rcases hr with rfl | hr
  · exact hk
  · exact h r ((List.kerase_sublist _ _).map _ |>.subset hr)

theorem WellFormed.remove {kr : KeyRange T} (h : kr.WellFormed) (sstPath : String) :
    (kr.remove sstPath).1.WellFormed :=
  fun r hr => h r ((List.kerase_sublist _ _).map _ |>.subset hr)

/-! ### What the two filters return -/

/-- `filter_sstables_by_biggest_key` returns the table of every range whose biggest key is
at or above `key`. -/
theorem filterSstablesByBiggestKey_eq (kr : KeyRange T) (key : Key) :
    kr.filterSstablesByBiggestKey key =
      (kr.keyRanges.entries.filter fun e => List.le key e.2.biggestKey).map (·.2.sst) := by
  simp only [filterSstablesByBiggestKey, cmp_ge_eq]

/-- **What `range_scan` returns.**  Every range of the map once, in the map's order, kept
when its smallest key is at or below `startKey` or its biggest key is at or above
`endKey`. -/
theorem rangeScan_eq (kr : KeyRange T) (startKey endKey : Key) :
    kr.rangeScan startKey endKey =
      (kr.keyRanges.entries.filter fun e =>
        List.le e.2.smallestKey startKey ∨ List.le endKey e.2.biggestKey).map (·.2) := by
  simp only [rangeScan, cmp_le_eq, cmp_ge_eq, ← Bool.decide_or]

theorem mem_rangeScan {kr : KeyRange T} {lo hi : Key} {r : Range T} :
    r ∈ kr.rangeScan lo hi ↔
      r ∈ kr.ranges ∧ (List.le r.smallestKey lo ∨ List.le hi r.biggestKey) := by
  simp only [rangeScan_eq, ranges, List.mem_map, List.mem_filter, decide_eq_true_eq]
  constructor
  · rintro ⟨e, ⟨he, hp⟩, rfl⟩
    exact ⟨⟨e, he, rfl⟩, hp⟩
  · rintro ⟨⟨e, he, rfl⟩, hp⟩
    exact ⟨e, ⟨he, hp⟩, rfl⟩

/-- **An envelope strictly inside the query meets it, and the scan misses it.** -/
theorem inner_not_scanned (kr : KeyRange T) {lo hi : Key} {r : Range T}
    (hr : List.le r.smallestKey r.biggestKey) (hlo : List.lt lo r.smallestKey)
    (hhi : List.lt r.biggestKey hi) :
    Intersects r lo hi ∧ r ∉ kr.rangeScan lo hi :=
  ⟨⟨fun h => hr (key_lt_trans hhi h), fun h => hr (key_lt_trans h hlo)⟩,
    fun h => (mem_rangeScan.1 h).2.elim (· hlo) (· hhi)⟩

/-- **An envelope that misses the query is returned by the scan.** -/
theorem disjoint_scanned {kr : KeyRange T} {lo hi : Key} {r : Range T} (hm : r ∈ kr.ranges)
    (hr : List.le r.smallestKey r.biggestKey) (hd : ¬ Intersects r lo hi) :
    r ∈ kr.rangeScan lo hi := by
  refine mem_rangeScan.2 ⟨hm, ?_⟩
  by_cases hs : List.le r.smallestKey hi
  · -- the envelope lies below `lo`
    have hb : List.lt r.biggestKey lo := Classical.not_not.1 fun h => hd ⟨hs, h⟩
    exact .inl fun h => hr (key_lt_trans hb h)
  · -- the envelope lies above `hi`
    exact .inr fun h => hr (key_lt_trans h (Classical.not_not.1 hs))

end KeyRange

/-- Two SSTables recorded by `set`: one holding `c` to `d`, one holding only `a`. -/
def sampleKeyRange : KeyRange Unit :=
  ((KeyRange.new.set "sstable_inner" [99] [100] ()).1.set "sstable_below" [97] [97] ()).1

/-- A scan of `b` to `y` over `sampleKeyRange` returns only the table below the query, and
the one table whose keys lie in the query is not returned. -/
theorem range_scan_misses_inner_returns_below :
    sampleKeyRange.WellFormed ∧ List.le ([98] : Key) [121] ∧
      sampleKeyRange.rangeScan [98] [121] = [⟨[97], [97], ()⟩] ∧
      sampleKeyRange.ranges.filter (KeyRange.Intersects · [98] [121]) = [⟨[99], [100], ()⟩] :=
  ⟨by decide, by decide, rfl, rfl⟩

end LsmEngine
