import Mathlib.Data.List.AList

/-!
# Keys, constants, and what a call can end in

`src/storage_engine/storage.rs` and `src/memtable/inmemory.rs` work on `Vec<u8>` keys,
`usize` offsets and `u64` millisecond timestamps; here they are `List UInt8` and `Nat`.
The modules the sources import but do not contain (`consts`, `bloom_filter`, `cfg`) are
modelled from the spec where a modelled function reads them.

A call of the engine returns `Ok`, returns an `Err(StorageEngineError)`, or panics at an
`unwrap`, an `assert!` or an index.  `Outcome` keeps the three apart, and `PanicSite` names
every place of the modelled code that can panic, so that "never panics" is a statement
about a value of the model.
-/

namespace LsmEngine

/-- A key or a value: the `Vec<u8>` the engine stores. -/
abbrev Key := List UInt8

/-- `std::mem::size_of::<u32>()`, the `SIZE_OF_U32` of `consts`. -/
def sizeOfU32 : Nat := 4

/-- `std::mem::size_of::<u64>()`, the `SIZE_OF_U64` of `consts`. -/
def sizeOfU64 : Nat := 8

/-- `std::mem::size_of::<u8>()`, the `SIZE_OF_U8` of `consts`. -/
def sizeOfU8 : Nat := 1

/-- Modelled from the spec: `consts` is not among the sources; §3 names the sentinel that
carries the value-log head `HEAD`, here its ASCII bytes. -/
def headEntryKey : Key := [0x48, 0x45, 0x41, 0x44]

/-- Modelled from the spec: `consts` is not among the sources; §3 names the sentinel that
carries the value-log tail `TAIL`, here its ASCII bytes. -/
def tailEntryKey : Key := [0x54, 0x41, 0x49, 0x4C]

/-- Modelled from the spec: `consts` is not among the sources, and the spec only says a
tombstone record carries a marker value.  `TOMB_STONE_MARKER.to_le_bytes()` is taken to be
the eight bytes of a zero `usize`; no result below depends on which bytes they are. -/
def tombStoneMarker : Key := List.replicate 8 0

/-- The two sentinel keys the engine writes itself. -/
def IsSentinel (k : Key) : Prop := k = headEntryKey ∨ k = tailEntryKey

instance (k : Key) : Decidable (IsSentinel k) := inferInstanceAs (Decidable (_ ∨ _))

theorem headEntryKey_length : headEntryKey.length = 4 := rfl

/-- Lists compared element by element through `rank`, a proper prefix first. -/
def lexLt {α : Type} (rank : α → Nat) : List α → List α → Bool
  | [], [] => false
  | [], _ :: _ => true
  | _ :: _, [] => false
  | a :: as, b :: bs =>
    if rank a < rank b then true else if rank b < rank a then false else lexLt rank as bs

/-- `Ord` on `Vec<u8>`. -/
def keyLt : Key → Key → Bool := lexLt UInt8.toNat

section Order

variable {α : Type} (rank : α → Nat)

theorem lexLt_cons_cons (a b : α) (as bs : List α) :
    lexLt rank (a :: as) (b :: bs) = true ↔
      rank a < rank b ∨ rank a = rank b ∧ lexLt rank as bs = true := by
  simp only [lexLt]
  split_ifs with h₁ h₂
  · exact iff_of_true rfl (.inl h₁)
  · exact iff_of_false (by simp) fun h => by rcases h with h | ⟨h, -⟩ <;> omega
  · exact ⟨fun h => .inr ⟨by omega, h⟩, fun h => h.elim (absurd · h₁) (·.2)⟩

theorem lexLt_irrefl : ∀ l : List α, lexLt rank l l = false
  | [] => rfl
  | a :: l => by simp only [lexLt, Nat.lt_irrefl, if_false]; exact lexLt_irrefl l

theorem lexLt_trans : ∀ {l₁ l₂ l₃ : List α}, lexLt rank l₁ l₂ = true → lexLt rank l₂ l₃ = true →
    lexLt rank l₁ l₃ = true
  | [], [], _, h, _ | [], _ :: _, [], _, h | _ :: _, [], _, h, _ | _ :: _, _ :: _, [], _, h =>
    by simp [lexLt] at h
  | [], _ :: _, _ :: _, _, _ => rfl
  | a :: as, b :: bs, c :: cs, h₁, h₂ => by
    rw [lexLt_cons_cons] at h₁ h₂ ⊢
    rcases h₁ with h₁ | ⟨e₁, h₁⟩ <;> rcases h₂ with h₂ | ⟨e₂, h₂⟩
    · exact .inl (by omega)
    · exact .inl (by omega)
    · exact .inl (by omega)
    · exact .inr ⟨e₁.trans e₂, lexLt_trans h₁ h₂⟩

end Order

theorem keyLt_irrefl (k : Key) : keyLt k k = false := lexLt_irrefl _ k

theorem keyLt_trans {a b c : Key} : keyLt a b = true → keyLt b c = true → keyLt a c = true :=
  lexLt_trans _

/-- Two keys neither of which is below the other are equal: `keyLt` is total. -/
theorem eq_of_not_keyLt : ∀ {a b : Key}, keyLt a b = false → keyLt b a = false → a = b
  | [], [], _, _ => rfl
  | [], _ :: _, h, _ | _ :: _, [], _, h => by simp [keyLt, lexLt] at h
  | a :: as, b :: bs, h₁, h₂ => by
    simp only [keyLt, ← Bool.not_eq_true, lexLt_cons_cons, not_or, not_and] at h₁ h₂
    have hab : a.toNat = b.toNat := by omega
    rw [UInt8.toNat.inj hab, eq_of_not_keyLt (Bool.eq_false_iff.2 (h₁.2 hab))
      (Bool.eq_false_iff.2 (h₂.2 hab.symm))]

/-! ### Sizes and rates -/

/-- `SizeUnit`, the unit a memtable capacity is given in. -/
inductive SizeUnit where
  | bytes
  | kilobytes
  | megabytes
  | gigabytes
  deriving DecidableEq, Repr

/-- `SizeUnit::to_bytes`.  The products are `usize` products, taken here as a release build
computes them on a 64-bit target: modulo `2 ^ 64` (`UInt64.size`), so that
`(Gigabytes, 2 ^ 34)` gives `0`.  A debug build panics on the same inputs instead ("attempt
to multiply with overflow"); where the product stays below `2 ^ 64` the two builds agree. -/
def SizeUnit.toBytes : SizeUnit → Nat → Nat
  | .bytes, value => value
  | .kilobytes, value => value * 1024 % UInt64.size
  | .megabytes, value => value * 1024 * 1024 % UInt64.size
  | .gigabytes, value => value * 1024 * 1024 * 1024 % UInt64.size

@[simp] theorem SizeUnit.toBytes_bytes (value : Nat) : SizeUnit.bytes.toBytes value = value := rfl

example : SizeUnit.gigabytes.toBytes (2 ^ 34) = 0 := by decide

/-- An `f64`, as its IEEE 754 bit pattern: the sign in bit 63, the biased exponent in bits
52 to 62 and the fraction below them. -/
structure F64 where
  bits : UInt64
  deriving DecidableEq, Repr

/-- `x >= 0.0`: false for a NaN and for every negative number other than `-0.0`. -/
def F64.geZero (x : F64) : Bool :=
  let sign := x.bits.toNat / 0x8000000000000000
  let exponent := x.bits.toNat / 0x10000000000000 % 0x800
  let fraction := x.bits.toNat % 0x10000000000000
  decide (¬(exponent = 0x7FF ∧ fraction ≠ 0) ∧ (sign = 0 ∨ (exponent = 0 ∧ fraction = 0)))

example : F64.geZero ⟨0x3F847AE147AE147B⟩ = true ∧ F64.geZero ⟨0xBF847AE147AE147B⟩ = false ∧
    F64.geZero ⟨0x8000000000000000⟩ = true ∧ F64.geZero ⟨0x7FF8000000000000⟩ = false := by
  decide

/-! ### Errors and panics -/

/-- The variants of `StorageEngineError` (`src/err/mod.rs`) that the modelled functions
return, with the fields they fill in. -/
inductive StorageEngineError where
  | bucketDirectoryOpenError (path : String)
  | invalidSSTableDirectoryError (inputString : String)
  | invaidUUIDParseString (inputString : String)
  | memTableRecoveryError (error : StorageEngineError)
  | keyNotFoundInAnySSTableError
  | keyFoundAsTombstoneInSSTableError
  | keyFoundAsTombstoneInMemtableError
  | keyFoundAsTombstoneInValueLogError
  | keyNotFoundInMemTable
  | keyNotFoundInValueLogError
  | notFoundInDB
  | biggestKeyIndexError
  | keyNotFoundByAnyBloomFilterError
  deriving DecidableEq, Repr

/-- Every place of the modelled code that can panic. -/
inductive PanicSite where
  /-- `assert!(false_positive_rate >= 0.0)` in `with_specified_capacity_and_rate`. -/
  | assertFalsePositiveRate
  /-- `assert!(capacity > 0)` in `with_specified_capacity_and_rate`. -/
  | assertCapacity
  /-- `head_offset.unwrap()` in the rollover of `put` and of `delete`. -/
  | headOffsetUnwrap
  /-- `rd_table.iter().next().unwrap()` in the rollover of `put` and of `delete`. -/
  | flushCandidateUnwrap
  /-- `entry.next_entry().await.unwrap().unwrap()` on an SSTable directory listing. -/
  | sstableDirEntryUnwrap
  /-- `sst_files[1]` and `sst_files[0]`. -/
  | sstFilesIndex
  /-- `sstable_from_file.unwrap()`. -/
  | sstableFromFileUnwrap
  /-- `read_only_memtables.iter().next().unwrap()` on what `recover_memtable` returned. -/
  | recoveredReadOnlyUnwrap
  deriving DecidableEq, Repr

/-- What a call ends in: `Ok`, `Err`, or a panic. -/
inductive Outcome (α : Type) where
  | ok (a : α)
  | err (e : StorageEngineError)
  | panic (site : PanicSite)

namespace Outcome

variable {α β : Type}

/-- `?` and `unwrap` sequencing: an error or a panic ends the call. -/
def bind : Outcome α → (α → Outcome β) → Outcome β
  | ok a, f => f a
  | err e, _ => err e
  | panic p, _ => panic p

instance : Monad Outcome where
  pure := ok
  bind := bind

@[simp] theorem pure_eq (a : α) : (pure a : Outcome α) = ok a := rfl
@[simp] theorem ok_bind (a : α) (f : α → Outcome β) : (ok a >>= f) = f a := rfl
@[simp] theorem err_bind (e : StorageEngineError) (f : α → Outcome β) : (err e >>= f) = err e := rfl
@[simp] theorem panic_bind (p : PanicSite) (f : α → Outcome β) : (panic p >>= f) = panic p := rfl

theorem bind_eq_ok {x : Outcome α} {f : α → Outcome β} {b : β} :
    (x >>= f) = ok b ↔ ∃ a, x = ok a ∧ f a = ok b := by
  cases x <;> simp

/-- A call that returns `Ok` or panics, never `Err`. -/
def NoErr (x : Outcome α) : Prop := ∀ e, x ≠ err e

theorem noErr_ok (a : α) : NoErr (ok a) := fun _ h => Outcome.noConfusion h

theorem noErr_panic (p : PanicSite) : NoErr (panic p : Outcome α) := fun _ h => Outcome.noConfusion h

theorem NoErr.bind {x : Outcome α} {f : α → Outcome β} (hx : NoErr x) (hf : ∀ a, NoErr (f a)) :
    NoErr (x >>= f) := by
  cases x with
  | ok a => exact hf a
  | err e => exact absurd rfl (hx e)
  | panic p => exact noErr_panic p

/-- The site, when the call panicked. -/
def panicSite : Outcome α → Option PanicSite
  | panic p => some p
  | _ => none

/-- A call reaches the panic site `p` only if one of its two halves does. -/
theorem panicSite_bind_ne {x : Outcome α} {f : α → Outcome β} {p : PanicSite}
    (hx : x.panicSite ≠ some p) (hf : ∀ a, (f a).panicSite ≠ some p) :
    (x >>= f).panicSite ≠ some p := by
  cases x with
  | ok a => exact hf a
  | err e => exact fun h => Option.noConfusion h
  | panic q => exact hx

/-- Whether the call returned `Ok`. -/
def isOk : Outcome α → Bool
  | ok _ => true
  | _ => false

/-- Calls one after another on a state: a call that returns `Err` leaves the state as it
was, a panic ends the run. -/
def steps {σ : Type} (step : σ → α → Outcome σ) : σ → List α → Outcome σ
  | s, [] => ok s
  | s, a :: as =>
    match step s a with
    | ok s' => steps step s' as
    | err _ => steps step s as
    | panic p => panic p

/-- **What every call keeps, a run keeps.** -/
theorem steps_preserves {σ : Type} {step : σ → α → Outcome σ} {P : σ → Prop}
    (hstep : ∀ s a s', P s → step s a = ok s' → P s') :
    ∀ {s : σ} {as : List α} {s' : σ}, P s → steps step s as = ok s' → P s'
  | _, [], _, hs, h => by cases h; exact hs
  | s, a :: as, _, hs, h => by
    unfold steps at h
    split at h
    · exact steps_preserves hstep (hstep s a _ hs ‹_›) h
    · exact steps_preserves hstep hs h
    · cases h

/-- One call of a run that returns `Ok`: it returned `Ok`, or `Err` and left the state. -/
theorem steps_cons_ok {σ : Type} {step : σ → α → Outcome σ} {s s' : σ} {a : α} {as : List α}
    (h : steps step s (a :: as) = ok s') :
    (∃ s₁, step s a = ok s₁ ∧ steps step s₁ as = ok s') ∨
      ∃ e, step s a = err e ∧ steps step s as = ok s' := by
  unfold steps at h
  split at h
  · exact .inl ⟨_, ‹_›, h⟩
  · exact .inr ⟨_, ‹_›, h⟩
  · cases h

/-- The calls of a run that returned `Ok`, in order: a call that returned `Err` is left out,
and a panic ends the run. -/
def okInputs {σ : Type} (step : σ → α → Outcome σ) : σ → List α → List α
  | _, [] => []
  | s, a :: as =>
    match step s a with
    | ok s' => a :: okInputs step s' as
    | err _ => okInputs step s as
    | panic _ => []

/-- **What a run appends.**  When a call `a` that returns `Ok` appends `f a` to the log `L`
and keeps `P` of the state and the calls still to come, and one that returns `Err` keeps `P`
for the calls after it, a run that ends keeps `P` and has appended the outputs of the calls
that returned `Ok`, in order. -/
theorem steps_log {σ β : Type} {step : σ → α → Outcome σ} {P : σ → List α → Prop}
    {L : σ → List β} {f : α → List β}
    (hok : ∀ s a as s', P s (a :: as) → step s a = ok s' → P s' as ∧ L s' = L s ++ f a)
    (herr : ∀ s a as e, P s (a :: as) → step s a = err e → P s as) :
    ∀ {s : σ} {as : List α} {s' : σ}, P s as → steps step s as = ok s' →
      P s' [] ∧ L s' = L s ++ (okInputs step s as).flatMap f
  | _, [], _, hs, h => by cases h; exact ⟨hs, by simp [okInputs]⟩
  | s, a :: as, _, hs, h => by
    cases hst : step s a with
    | ok s₁ =>
      simp only [steps, hst] at h
      obtain ⟨hP₁, hlog₁⟩ := hok s a as s₁ hs hst
      obtain ⟨hP, hlog⟩ := steps_log hok herr hP₁ h
      exact ⟨hP, by simp only [okInputs, hst, List.flatMap_cons, hlog, hlog₁, List.append_assoc]⟩
    | err e =>
      simp only [steps, hst] at h
      simpa only [okInputs, hst] using steps_log hok herr (herr s a as e hs hst) h
    | panic p => simp only [steps, hst] at h; cases h

end Outcome

/-! ### Bloom filters -/

/-- Modelled from the spec: the `bloom_filter` module is not among the sources.  A Bloom
filter is anything whose `contains` accepts every key passed to `set` before (§4.1,
"probabilistic membership"); its false positives, and those of a fresh filter, are left
arbitrary. -/
class BloomFilter (F : Type) where
  /-- `BloomFilter::new(false_positive_rate, no_of_elements)`. -/
  new : F64 → Nat → F
  /-- `BloomFilter::set`. -/
  set : F → Key → F
  /-- `BloomFilter::contains`. -/
  contains : F → Key → Bool
  /-- No false negatives: `set` keeps what was accepted and accepts its key. -/
  contains_set : ∀ (f : F) (k k' : Key), contains f k' = true ∨ k' = k → contains (set f k) k' = true

/-- The filter without false positives: the keys set so far. -/
structure ExactFilter where
  keys : List Key

instance : BloomFilter ExactFilter where
  new _ _ := ⟨[]⟩
  set f k := ⟨k :: f.keys⟩
  contains f k := decide (k ∈ f.keys)
  contains_set f k k' h := by
    rcases h with h | rfl
    · simpa using Or.inr h
    · simp

end LsmEngine
