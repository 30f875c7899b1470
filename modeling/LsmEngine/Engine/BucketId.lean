import LsmEngine.Engine.Open
import Mathlib.Data.List.Infix

/-!
# Parsing a bucket id undoes the bucket directory's name

A bucket is the directory `<root>/buckets/bucket<UUID>` (spec §4.5 and the directory
layout), and the recovery walk reads its id back with `get_bucket_id_from_full_bucket_path`
from the path of an SSTable directory inside it (`src/storage_engine/storage.rs`, lines 571
to 620 and 877 to 891): the text between the last `"bucket"` and the next `'/'`.

The root may hold `"bucket"` any number of times, and `buckets` holds it too; the parse is
right because nothing after the bucket directory's own `"bucket"` can hold the word again.
A UUID is hexadecimal digits and hyphens, the word holds no `'/'`, and its first letter `b`
does not recur in it, so an occurrence after that point would lie inside the UUID or inside
the SSTable directory's name (`not_infix_append_sep`, `not_infix_append_of_head`).  Then
`rfind` finds the bucket directory's `"bucket"` (`rfind_append`), the next `'/'` ends the
UUID, and the parse returns it (`getBucketId_of_suffix`, `bucket_id_of_bucket_path`), in the
form that `Uuid::parse_str` accepts (`parseUuid_toString`).
-/

namespace LsmEngine

/-! ### Paths -/

/-- `PathBuf::join` with a component that is a name, on Unix: the component alone when it is
absolute, and otherwise appended after a `'/'` unless the base is empty or already ends in
one. -/
def joinPath (base component : String) : String :=
  if component.toList.head? = some '/' then component
  else
    match base.toList.getLast? with
    | some c => if c = '/' then base ++ component else base ++ "/" ++ component
    | none => base ++ component

theorem toList_joinPath_of_head (base component : String)
    (hc : component.toList.head? ≠ some '/') :
    ∃ pre, (joinPath base component).toList = pre ++ component.toList := by
  unfold joinPath
  rw [if_neg hc]
  split
  · split
    · exact ⟨base.toList, String.data_append _ _⟩
    · exact ⟨base.toList ++ ['/'], by simp [String.data_append]⟩
  · exact ⟨base.toList, String.data_append _ _⟩

theorem toList_joinPath_of_last {base component : String}
    (hc : component.toList.head? ≠ some '/') {c : Char} (hb : base.toList.getLast? = some c)
    (hslash : c ≠ '/') : (joinPath base component).toList = base.toList ++ '/' :: component.toList := by
  unfold joinPath
  rw [if_neg hc, hb]
  dsimp only
  rw [if_neg hslash]
  simp [String.data_append]

/-- The last character of a path that ends in a name without `'/'`. -/
theorem getLast?_append_ne_slash (pre l : List Char) (hl : l ≠ []) (h : '/' ∉ l) :
    ∃ c, (pre ++ l).getLast? = some c ∧ c ≠ '/' :=
  ⟨l.getLast hl, by simp [List.getLast?_append, List.getLast?_eq_getLast l hl],
    fun hc => h (hc ▸ List.getLast_mem hl)⟩

/-! ### Where `"bucket"` can occur -/

theorem infix_of_drop_take {l pat : List Char} {i : Nat} (h : (l.drop i).take pat.length = pat) :
    pat <:+: l :=
  (h ▸ List.take_prefix _ _ : pat <+: l.drop i).isInfix.trans (List.drop_suffix _ _).isInfix

/-- A word without the separator occurs across `P ++ sep :: Q` only inside `P` or inside
`Q`. -/
theorem not_infix_append_sep {w P Q : List Char} {sep : Char} (hw : sep ∉ w) (hP : ¬ w <:+: P)
    (hQ : ¬ w <:+: Q) : ¬ w <:+: P ++ sep :: Q := by
  rintro ⟨a, b, h⟩
  rw [List.append_assoc] at h
  rcases List.append_eq_append_iff.1 h with ⟨a', rfl, h'⟩ | ⟨c', rfl, h'⟩
  · rcases List.append_eq_append_iff.1 h' with ⟨d, rfl, -⟩ | ⟨d, rfl, hd⟩
    · exact hP ⟨a, d, by simp⟩
    · cases d with
      | nil => exact hP ⟨a, [], by simp⟩
      | cons x d =>
        obtain ⟨rfl, -⟩ := List.cons.inj hd
        exact hw (List.mem_append_right _ (List.mem_cons_self _ _))
  · cases c' with
    | nil =>
      cases w with
      | nil => exact hP ⟨[], P, rfl⟩
      | cons x w => exact hw ((List.cons.inj h').1 ▸ List.mem_cons_self _ _)
    | cons x c' =>
      obtain ⟨-, rfl⟩ := List.cons.inj h'
      exact hQ ⟨c', b, by simp⟩

/-- A word whose first letter does not occur in `v` occurs in `v ++ u` only inside `u`. -/
theorem not_infix_append_of_head {c : Char} {w v u : List Char} (hc : c ∉ v)
    (hu : ¬ (c :: w) <:+: u) : ¬ (c :: w) <:+: v ++ u := by
  rintro ⟨a, b, h⟩
  rw [List.append_assoc] at h
  rcases List.append_eq_append_iff.1 h with ⟨a', rfl, h'⟩ | ⟨c', rfl, h'⟩
  · cases a' with
    | nil => exact hu ⟨[], b, by simpa using h'⟩
    | cons x a' =>
      obtain ⟨rfl, -⟩ := List.cons.inj h'
      exact hc (List.mem_append_right _ (List.mem_cons_self _ _))
  · exact hu ⟨c', b, by simp [h']⟩

/-- `rfind` finds an occurrence after which the word does not start again. -/
theorem rfind_append (A Y : List Char) (c : Char) (pat : List Char)
    (hno : ¬ (c :: pat) <:+: pat ++ Y) : rfind (A ++ (c :: pat ++ Y)) (c :: pat) = some A.length := by
  have hlen : (A ++ (c :: pat ++ Y)).length + 1 = A.length + ((pat ++ Y).length + 1 + 1) := by
    simp; omega
  have hat : ∀ j, ((A ++ (c :: pat ++ Y)).drop (A.length + j)) = (c :: pat ++ Y).drop j := by
    intro j; rw [List.drop_append]
  unfold rfind
  rw [hlen, List.range_add, List.filter_append, List.getLast?_append, List.filter_map,
    List.range_succ_eq_map, List.filter_cons_of_pos (by simp [hat]),
    List.filter_eq_nil_iff.2 fun j hj => ?_]
  · rfl
  · obtain ⟨i, -, rfl⟩ := List.mem_map.1 hj
    simpa [hat] using fun h => hno (infix_of_drop_take (i := i) h)

/-- The text after the occurrence ends at the first `'/'`. -/
theorem findIdx?_slash {u s : List Char} (hu : '/' ∉ u) :
    (u ++ '/' :: s).findIdx? (· = '/') = some u.length := by
  rw [List.findIdx?_append, List.findIdx?_eq_none_iff.2 fun x hx =>
    decide_eq_false fun h : x = '/' => hu (h ▸ hx)]
  simp

/-- **The parse of a path ending in `bucket<u>/<s>`.**  Whatever comes before, when `u`
holds no `'/'` and neither `u` nor `s` holds `"bucket"`, the parse returns `u`. -/
theorem getBucketId_of_suffix (A u s : List Char) (hu : '/' ∉ u) (hub : ¬ bucketWord <:+: u)
    (hs : ¬ bucketWord <:+: s) :
    getBucketIdFromFullBucketPath (String.mk (A ++ (bucketWord ++ (u ++ '/' :: s)))) =
      String.mk u := by
  have hno : ¬ bucketWord <:+: bucketWord.tail ++ (u ++ '/' :: s) := by
    rw [← List.append_assoc]
    exact not_infix_append_sep (by decide) (not_infix_append_of_head (by decide) hub) hs
  have hfind : rfind (A ++ (bucketWord ++ (u ++ '/' :: s))) bucketWord = some A.length :=
    rfind_append A (u ++ '/' :: s) 'b' bucketWord.tail hno
  have hdrop : (A ++ (bucketWord ++ (u ++ '/' :: s))).drop (A.length + bucketWord.length) =
      u ++ '/' :: s := by
    rw [List.drop_append, List.drop_left]
  simp only [getBucketIdFromFullBucketPath, String.toList, hfind, hdrop, findIdx?_slash hu,
    List.take_left]

/-! ### UUIDs -/

/-- Modelled from the spec: a UUID, its sixteen bytes (§2, "Bucket identifier is a UUID"). -/
structure Uuid where
  bytes : List UInt8
  length_eq : bytes.length = 16

/-- A lower-case hexadecimal digit, for `n < 16`. -/
def hexDigit (n : Nat) : Char := if n < 10 then Char.ofNat (48 + n) else Char.ofNat (87 + n)

/-- The two digits of a byte. -/
def byteHex (b : UInt8) : List Char := [hexDigit (b.toNat / 16), hexDigit (b.toNat % 16)]

/-- The bytes of the five groups of the hyphenated form: four, two, two, two and six. -/
def Uuid.groups (u : Uuid) : List (List UInt8) :=
  [u.bytes.take 4, (u.bytes.drop 4).take 2, (u.bytes.drop 6).take 2, (u.bytes.drop 8).take 2,
    u.bytes.drop 10]

/-- Modelled from the `uuid` crate: `Uuid`'s `Display`, the hyphenated lower-case form the
bucket directory is named with. -/
def Uuid.toString (u : Uuid) : String :=
  String.mk (['-'].intercalate (u.groups.map (·.flatMap byteHex)))

theorem hexDigit_ne {n : Nat} (hn : n < 16) :
    hexDigit n ≠ '/' ∧ hexDigit n ≠ '-' ∧ hexDigit n ≠ 'u' ∧
      isHexDigit (hexDigit n) = true ∧ hexLower (hexDigit n) = hexDigit n := by
  have : ∀ m : Fin 16, hexDigit m ≠ '/' ∧ hexDigit m ≠ '-' ∧ hexDigit m ≠ 'u' ∧
      isHexDigit (hexDigit m) = true ∧ hexLower (hexDigit m) = hexDigit m := by decide
  exact this ⟨n, hn⟩

/-- Every character of a group is a digit of a byte. -/
theorem hexDigit_of_mem_flatMap {c : Char} {bs : List UInt8} (h : c ∈ bs.flatMap byteHex) :
    ∃ n < 16, c = hexDigit n := by
  obtain ⟨b, -, hb⟩ := List.mem_flatMap.1 h
  simp only [byteHex, List.mem_cons, List.mem_singleton, List.not_mem_nil, or_false] at hb
  rcases hb with rfl | rfl
  · exact ⟨_, Nat.div_lt_of_lt_mul (b.val.isLt : b.toNat < 256), rfl⟩
  · exact ⟨_, Nat.mod_lt _ (by decide), rfl⟩

theorem length_flatMap_byteHex (bs : List UInt8) : (bs.flatMap byteHex).length = 2 * bs.length := by
  induction bs with
  | nil => rfl
  | cons b bs ih => simp [List.flatMap_cons, byteHex, ih]; omega

/-- The hyphenated form is the groups' digits with a `'-'` between groups. -/
theorem Uuid.toList_toString (u : Uuid) :
    u.toString.toList = ['-'].intercalate (u.groups.map (·.flatMap byteHex)) := rfl

/-- What `intersperse` puts in a list: its elements and the separator. -/
theorem mem_intersperse {α : Type} {sep l : α} : ∀ {L : List α}, l ∈ L.intersperse sep → l = sep ∨ l ∈ L
  | [], h => by simp at h
  | [x], h => .inr (by simpa using h)
  | x :: y :: L, h => by
    rw [List.intersperse_cons₂, List.mem_cons, List.mem_cons] at h
    rcases h with rfl | rfl | h
    · exact .inr (List.mem_cons_self _ _)
    · exact .inl rfl
    · exact (mem_intersperse h).imp_right (List.mem_cons_of_mem _)

/-- Every character of the hyphenated form is a hyphen or a digit. -/
theorem Uuid.mem_toString {u : Uuid} {c : Char} (h : c ∈ u.toString.toList) :
    c = '-' ∨ ∃ n < 16, c = hexDigit n := by
  rw [toList_toString, List.intercalate, List.mem_flatten] at h
  obtain ⟨l, hl, hc⟩ := h
  rcases mem_intersperse hl with rfl | hl
  · exact .inl (List.mem_singleton.1 hc)
  · obtain ⟨bs, -, rfl⟩ := List.mem_map.1 hl
    exact .inr (hexDigit_of_mem_flatMap hc)

theorem Uuid.slash_not_mem (u : Uuid) : '/' ∉ u.toString.toList := fun h => by
  rcases u.mem_toString h with h | ⟨n, hn, h⟩
  · cases h
  · exact (hexDigit_ne hn).1 h.symm

theorem Uuid.not_bucket_infix (u : Uuid) : ¬ bucketWord <:+: u.toString.toList := fun h => by
  rcases u.mem_toString (h.subset (by decide : 'u' ∈ bucketWord)) with h | ⟨n, hn, h⟩
  · cases h
  · exact (hexDigit_ne hn).2.2.1 h.symm

/-- **The walk accepts the hyphenated form.**  `Uuid::parse_str`, as the recovery calls it,
returns the UUID the name of every bucket directory was made from, whose text is that name. -/
theorem parseUuid_toString (u : Uuid) : parseUuid u.toString = some u.toString := by
  have hgroups : u.toString.data.splitOn '-' = u.groups.map (·.flatMap byteHex) := by
    refine List.splitOn_intercalate _ _ (fun l hl hm => ?_) (by simp [Uuid.groups])
    obtain ⟨bs, -, rfl⟩ := List.mem_map.1 hl
    obtain ⟨n, hn, h⟩ := hexDigit_of_mem_flatMap hm
    exact (hexDigit_ne hn).2.1 h.symm
  have hlen : (u.groups.map (·.flatMap byteHex)).map List.length = [8, 4, 4, 4, 12] := by
    simp only [Uuid.groups, List.map_cons, List.map_nil, length_flatMap_byteHex, List.length_take,
      List.length_drop, u.length_eq]
    rfl
  -- every digit of the name is a lower-case hexadecimal digit
  have hdigit : ∀ l ∈ u.groups.map (·.flatMap byteHex), ∀ c ∈ l,
      isHexDigit c = true ∧ hexLower c = c := by
    intro l hl c hc
    obtain ⟨bs, -, rfl⟩ := List.mem_map.1 hl
    obtain ⟨n, hn, rfl⟩ := hexDigit_of_mem_flatMap hc
    exact (hexDigit_ne hn).2.2.2
  have hhex : (u.groups.map (·.flatMap byteHex)).all (·.all isHexDigit) = true :=
    List.all_eq_true.2 fun l hl => List.all_eq_true.2 fun c hc => (hdigit l hl c hc).1
  have hlower : (u.groups.map (·.flatMap byteHex)).map (·.map hexLower) =
      u.groups.map (·.flatMap byteHex) :=
    (List.map_congr_left fun l hl => (List.map_congr_left fun c hc => (hdigit l hl c hc).2).trans
      (List.map_id l)).trans (List.map_id _)
  have h36 : u.toString.data.length = 36 := by
    have := congrArg List.sum hlen
    simp only [Uuid.toString, Uuid.groups, List.map_cons, List.map_nil, List.sum_cons,
      List.sum_nil, List.intercalate, List.intersperse_cons₂, List.intersperse_single,
      List.flatten_cons, List.flatten_nil, List.length_append, List.length_singleton,
      List.append_nil] at this ⊢
    omega
  simp only [parseUuid, String.toList, h36, parseHyphenated, hgroups, hlen, hhex, uuidText, hlower]
  rfl

/-! ### The bucket directory's path -/

/-- **Parsing a bucket id undoes the bucket directory's name.**  For every root path, every
bucket UUID `u` and every SSTable directory name `s` that holds neither `"bucket"` nor
`'/'`, `get_bucket_id_from_full_bucket_path` on `root/buckets/bucket<u>/s` returns the
hyphenated form of `u`, which the walk's `Uuid::parse_str` then accepts. -/
theorem bucket_id_of_bucket_path (root : String) (u : Uuid) (s : String)
    (hs : ¬ bucketWord <:+: s.toList) (hslash : '/' ∉ s.toList) :
    getBucketIdFromFullBucketPath
        (joinPath (joinPath (joinPath root bucketsDirectoryName) ("bucket" ++ u.toString)) s) =
      u.toString ∧
    parseUuid (getBucketIdFromFullBucketPath
        (joinPath (joinPath (joinPath root bucketsDirectoryName) ("bucket" ++ u.toString)) s)) =
      some u.toString := by
  have hid : getBucketIdFromFullBucketPath
      (joinPath (joinPath (joinPath root bucketsDirectoryName) ("bucket" ++ u.toString)) s) =
      u.toString := by
    have hbucket : ("bucket" ++ u.toString).toList = bucketWord ++ u.toString.toList :=
      String.data_append _ _
    obtain ⟨pre, hpre⟩ := toList_joinPath_of_head (joinPath root bucketsDirectoryName)
      ("bucket" ++ u.toString) (by rw [hbucket]; simp [bucketWord])
    rw [hbucket] at hpre
    -- the bucket directory's name ends in a letter of `"bucket"` or of the UUID
    obtain ⟨c, hc, hcs⟩ := getLast?_append_ne_slash pre (bucketWord ++ u.toString.toList)
      (by simp [bucketWord]) (List.not_mem_append (by decide) u.slash_not_mem)
    have hpath : (joinPath (joinPath (joinPath root bucketsDirectoryName)
        ("bucket" ++ u.toString)) s).toList =
        pre ++ (bucketWord ++ (u.toString.toList ++ '/' :: s.toList)) := by
      rw [toList_joinPath_of_last (fun h => hslash (List.mem_of_mem_head? h))
        (by rw [hpre]; exact hc) hcs, hpre]
      simp
    calc _ = getBucketIdFromFullBucketPath
          (String.mk (pre ++ (bucketWord ++ (u.toString.toList ++ '/' :: s.toList)))) := by
          rw [← hpath]; rfl
      _ = u.toString :=
        getBucketId_of_suffix pre _ _ u.slash_not_mem u.not_bucket_infix hs
  exact ⟨hid, by rw [hid]; exact parseUuid_toString u⟩

/-- A root that itself holds `"bucket"`, a UUID, and the SSTable directory the walk reads. -/
theorem sample_bucket_path_parses :
    ¬ bucketWord <:+: "sstable_1700000000000".toList ∧ '/' ∉ "sstable_1700000000000".toList ∧
      getBucketIdFromFullBucketPath (joinPath (joinPath (joinPath "/srv/bucket_store"
        bucketsDirectoryName) ("bucket" ++ (⟨List.replicate 16 0xAB, rfl⟩ : Uuid).toString))
        "sstable_1700000000000") = (⟨List.replicate 16 0xAB, rfl⟩ : Uuid).toString ∧
      parseUuid (getBucketIdFromFullBucketPath (joinPath (joinPath (joinPath "/srv/bucket_store"
        bucketsDirectoryName) ("bucket" ++ (⟨List.replicate 16 0xAB, rfl⟩ : Uuid).toString))
        "sstable_1700000000000")) = some (⟨List.replicate 16 0xAB, rfl⟩ : Uuid).toString :=
  ⟨by decide, by decide, bucket_id_of_bucket_path _ _ _ (by decide) (by decide)⟩

end LsmEngine
