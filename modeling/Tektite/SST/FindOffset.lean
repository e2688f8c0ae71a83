import Tektite.SST.Codec

/-!
# `findOffset`

`findOffset` binary-searches the index region for the first record whose padded key is not below the lookup key
(`findOffsetLoop`), checks the last record when the search ends there, and returns that record's offset field, or
`-1`. `linearScan` reads the records one after the other instead.

On an index whose records are readable and in order (`SortedIndex`) with at least one record, the two agree
(`findOffset_eq_linearScan`): the loop keeps "every record below `low` is below the key, and `high` is the last
record or not below the key" (`findOffsetLoop_spec`). A built table with entries has such an index, its keys
padded (`sortedIndex_build`).

Without any order on the keys, the loop still stays inside the range it searches (`findOffsetLoop_mem`): on any table
whose index records fit in its data, `findOffset` reads nothing but index records and does not panic
(`findOffset_of_indexFits`).
-/

set_option autoImplicit false

namespace Tektite.SST

namespace SSTable

/-- `i*indexRecordLen + indexOffset`: where index record `i` starts. -/
def recordStart (s : SSTable) (i : Int) : Int := i * (s.maxKeyLength.toNat + 4) + s.indexOffset.toNat

/-- `s.data[recordStart : recordStart+maxKeyLength]`: the padded key of index record `i`. -/
def recordKey (s : SSTable) (i : Int) : Option (List UInt8) :=
  slice s.data (s.recordStart i) (s.recordStart i + s.maxKeyLength.toNat)

/-- `int(off)` for the offset field `off` of index record `i`. -/
def recordOffset (s : SSTable) (i : Int) : Option Int :=
  (readUint32FromBufferLE s.data (s.recordStart i + s.maxKeyLength.toNat)).map fun r => (r.1.toNat : Int)

/-- The `for low < high` loop of `findOffset`; it returns `high`. -/
def findOffsetLoop (s : SSTable) (key : List UInt8) (low high : Int) : Option Int :=
  if low < high then
    let middle := low + (high - low) / 2
    match s.recordKey middle with
    | none => none
    | some midKey =>
      if Bytes.compare midKey key = .lt then findOffsetLoop s key (middle + 1) high
      else findOffsetLoop s key low middle
  else some high
termination_by (high - low).toNat
decreasing_by all_goals omega

/-- `findOffset`. -/
def findOffset (s : SSTable) (key : List UInt8) : Option Int :=
  let outerHighBound : Int := s.numEntries.toNat - 1
  match findOffsetLoop s key 0 outerHighBound with
  | none => none
  | some high =>
    if high = outerHighBound then
      match s.recordKey high with
      | none => none
      | some highKey => if Bytes.compare highKey key = .lt then some (-1) else s.recordOffset high
    else s.recordOffset high

/-- Records `i` to `i + c - 1` read one after the other: the offset field of the first whose key is not below
`key`, or `-1`. -/
def scanIndex (s : SSTable) (key : List UInt8) : Nat → Nat → Option Int
  | _, 0 => some (-1)
  | i, c + 1 =>
    match s.recordKey i with
    | none => none
    | some k => if Bytes.compare k key = .lt then scanIndex s key (i + 1) c else s.recordOffset i

/-- The linear scan of the `numEntries` index records. -/
def linearScan (s : SSTable) (key : List UInt8) : Option Int := scanIndex s key 0 s.numEntries.toNat

/-! ## The search on a sorted index -/

/-- The `numEntries` index records of `s` can be read, record `i` with the padded key `keys i`, and their keys are
in order. -/
structure SortedIndex (s : SSTable) (keys : Nat → List UInt8) : Prop where
  recordKey_eq : ∀ i < s.numEntries.toNat, s.recordKey i = some (keys i)
  keys_sorted : ∀ i j, i ≤ j → j < s.numEntries.toNat → Bytes.compare (keys i) (keys j) ≠ .gt

section Search

variable {s : SSTable} {keys : Nat → List UInt8}

theorem findOffsetLoop_of_not_lt (key : List UInt8) {low high : Int} (h : ¬low < high) :
    s.findOffsetLoop key low high = some high := by
  rw [findOffsetLoop, if_neg h]

/-- **The invariant of the loop**: every record below `low` is below the key, and `high` is the last record or not
below the key. The loop ends at a record with both properties. -/
theorem findOffsetLoop_spec (hs : SortedIndex s keys) (key : List UInt8) :
    ∀ d l h : Nat, h - l = d → l ≤ h → h < s.numEntries.toNat →
      (∀ j < l, Bytes.compare (keys j) key = .lt) →
      (h + 1 = s.numEntries.toNat ∨ Bytes.compare (keys h) key ≠ .lt) →
      ∃ r : Nat, s.findOffsetLoop key l h = some (r : Int) ∧ r < s.numEntries.toNat ∧
        (∀ j < r, Bytes.compare (keys j) key = .lt) ∧
        (r + 1 = s.numEntries.toNat ∨ Bytes.compare (keys r) key ≠ .lt) := by
  intro d
  induction d using Nat.strong_induction_on with
  | _ d ih =>
    intro l h hd hlh hn hlow hhigh
    by_cases hlt : l < h
    · have hm : (l : Int) + ((h : Int) - l) / 2 = ((l + (h - l) / 2 : Nat) : Int) := by omega
      rw [findOffsetLoop, if_pos (by omega)]
      simp only [hm, hs.recordKey_eq _ (show l + (h - l) / 2 < _ by omega)]
      split_ifs with hc
      · -- the middle record is below the key: search above it
        have hlow' : ∀ j < l + (h - l) / 2 + 1, Bytes.compare (keys j) key = .lt := fun j hj =>
          if hjl : j < l then hlow j hjl
          else Bytes.compare_lt_of_ne_gt_of_lt (hs.keys_sorted j _ (by omega) (by omega)) hc
        have e : ((l + (h - l) / 2 : Nat) : Int) + 1 = ((l + (h - l) / 2 + 1 : Nat) : Int) := by omega
        rw [e]
        exact ih _ (by omega) _ h rfl (by omega) hn hlow' hhigh
      · -- it is not: search up to it
        exact ih _ (by omega) l _ rfl (by omega) (by omega) hlow (.inr hc)
    · obtain rfl : l = h := by omega
      exact ⟨l, findOffsetLoop_of_not_lt key (lt_irrefl _), hn, hlow, hhigh⟩

/-- The scan over records that are all below the key finds none. -/
theorem scanIndex_of_lt (hs : SortedIndex s keys) (key : List UInt8) :
    ∀ c i : Nat, i + c ≤ s.numEntries.toNat →
      (∀ j, i ≤ j → j < i + c → Bytes.compare (keys j) key = .lt) →
      s.scanIndex key i c = some (-1)
  | 0, _, _, _ => rfl
  | c + 1, i, hc, h => by
    rw [scanIndex, hs.recordKey_eq i (by omega)]
    simp only [h i le_rfl (by omega), if_true]
    exact scanIndex_of_lt hs key c (i + 1) (by omega) fun j hj hj' => h j (by omega) (by omega)

/-- The scan stops at the first record not below the key. -/
theorem scanIndex_of_not_lt (hs : SortedIndex s keys) (key : List UInt8) :
    ∀ c i r : Nat, i ≤ r → r < i + c → i + c ≤ s.numEntries.toNat →
      (∀ j, i ≤ j → j < r → Bytes.compare (keys j) key = .lt) → Bytes.compare (keys r) key ≠ .lt →
      s.scanIndex key i c = s.recordOffset r
  | 0, _, _, _, h, _, _, _ => by omega
  | c + 1, i, r, hir, hrc, hc, hlow, hr => by
    rw [scanIndex, hs.recordKey_eq i (by omega)]
    by_cases hi : i < r
    · simp only [hlow i le_rfl hi, if_true]
      exact scanIndex_of_not_lt hs key c (i + 1) r hi (by omega) (by omega) (fun j hj hj' => hlow j (by omega) hj') hr
    · obtain rfl : i = r := by omega
      simp only [hr, if_false]

/-- **`findOffset` agrees with the linear scan** on a sorted index with at least one record. -/
theorem findOffset_eq_linearScan (hs : SortedIndex s keys) (hn : 0 < s.numEntries.toNat) (key : List UInt8) :
    s.findOffset key = s.linearScan key := by
  obtain ⟨r, hr, hrn, hlow, hhigh⟩ := findOffsetLoop_spec hs key _ 0 (s.numEntries.toNat - 1) rfl (Nat.zero_le _)
    (by omega) (fun _ h => absurd h (Nat.not_lt_zero _)) (.inl (by omega))
  rw [Nat.cast_zero, Nat.cast_pred hn] at hr
  simp only [findOffset, hr, linearScan]
  have hscan := scanIndex_of_not_lt hs key s.numEntries.toNat 0 r (Nat.zero_le r) (by omega) (by omega)
    fun j _ hj => hlow j hj
  by_cases hlast : r + 1 = s.numEntries.toNat
  · rw [if_pos (by omega), hs.recordKey_eq r hrn]
    by_cases hc : Bytes.compare (keys r) key = .lt
    · simp only [hc, if_true]
      rw [scanIndex_of_lt hs key s.numEntries.toNat 0 (by omega)]
      intro j _ hj
      rcases Nat.lt_or_ge j r with hj' | hj'
      · exact hlow j hj'
      · obtain rfl : j = r := by omega
        exact hc
    · simp only [hc, if_false, hscan hc]
  · rw [if_neg (by omega), hscan (hhigh.resolve_left hlast)]

end Search

/-! ## The search on any table -/

section Safety

variable {s : SSTable}

theorem recordStart_ofNat (s : SSTable) (i : Nat) :
    s.recordStart i = ((s.indexOffset.toNat + i * (s.maxKeyLength.toNat + 4) : Nat) : Int) := by
  rw [recordStart]; push_cast; ring

/-- The `numEntries` records of `maxKeyLength + 4` bytes fit in the data from `indexOffset` on. -/
def IndexFits (s : SSTable) : Prop :=
  s.indexOffset.toNat + s.numEntries.toNat * (s.maxKeyLength.toNat + 4) ≤ s.data.length

instance : DecidablePred IndexFits := fun _ => inferInstanceAs (Decidable (_ ≤ _))

/-- Every record of an index that fits can be read. -/
theorem record_readable (hfit : s.IndexFits) {i : Nat} (hi : i < s.numEntries.toNat) :
    (∃ k, s.recordKey i = some k) ∧ ∃ o, s.recordOffset i = some o := by
  have hle : (i + 1) * (s.maxKeyLength.toNat + 4) ≤ s.numEntries.toNat * (s.maxKeyLength.toNat + 4) :=
    Nat.mul_le_mul_right _ hi
  rw [Nat.succ_mul] at hle
  have hs := recordStart_ofNat s i
  unfold IndexFits at hfit
  refine ⟨⟨_, if_pos (by rw [hs]; omega)⟩, ?_⟩
  obtain ⟨v, hv⟩ := readUint32FromBufferLE_of_le
    (show (0 : Int) ≤ s.recordStart i + s.maxKeyLength.toNat by rw [hs]; omega)
    (show s.recordStart i + s.maxKeyLength.toNat + 4 ≤ s.data.length by rw [hs]; omega)
  exact ⟨_, by rw [recordOffset, hv]; rfl⟩

/-- One iteration of the loop on a range of at least two records, at a middle record that can be read. -/
theorem findOffsetLoop_lt (key : List UInt8) {l h : Nat} (hlt : l < h) {k : List UInt8}
    (hk : s.recordKey (l + (h - l) / 2 : Nat) = some k) :
    s.findOffsetLoop key l h = if Bytes.compare k key = .lt then s.findOffsetLoop key (l + (h - l) / 2 + 1 : Nat) h
      else s.findOffsetLoop key l (l + (h - l) / 2 : Nat) := by
  have hm : (l : Int) + ((h : Int) - l) / 2 = ((l + (h - l) / 2 : Nat) : Int) := by omega
  rw [findOffsetLoop, if_pos (by omega), Nat.cast_succ]
  simp only [hm, hk]

/-- On records that can all be read, the loop returns a record of the range it searches. -/
theorem findOffsetLoop_mem (hk : ∀ i < s.numEntries.toNat, ∃ k, s.recordKey i = some k) (key : List UInt8) :
    ∀ d l h : Nat, h - l = d → l ≤ h → h < s.numEntries.toNat →
      ∃ r : Nat, s.findOffsetLoop key l h = some (r : Int) ∧ l ≤ r ∧ r ≤ h := by
  intro d
  induction d using Nat.strong_induction_on with
  | _ d ih =>
    intro l h hd hlh hn
    by_cases hlt : l < h
    · obtain ⟨k, hkm⟩ := hk _ (show l + (h - l) / 2 < _ by omega)
      rw [findOffsetLoop_lt key hlt hkm]
      have hm : l ≤ l + (h - l) / 2 ∧ l + (h - l) / 2 < h := by omega
      generalize l + (h - l) / 2 = m at hm ⊢
      split_ifs
      · -- search above the middle record
        obtain ⟨r, hr, h₁, h₂⟩ := ih _ (by omega) (m + 1) h rfl hm.2 hn
        exact ⟨r, hr, by omega, h₂⟩
      · -- search up to it
        obtain ⟨r, hr, h₁, h₂⟩ := ih _ (by omega) l m rfl (by omega) (by omega)
        exact ⟨r, hr, h₁, by omega⟩
    · obtain rfl : l = h := by omega
      exact ⟨l, findOffsetLoop_of_not_lt key (lt_irrefl _), le_rfl, le_rfl⟩

/-- **`findOffset` reads only the index.** On any table with at least one index record whose records fit in its
data (one that `Deserialize` read from any bytes, for instance), whatever the keys and their order, `findOffset`
does not panic: it returns `-1` or the offset field of one of the records. -/
theorem findOffset_of_indexFits (hn : 0 < s.numEntries.toNat) (hfit : s.IndexFits) (key : List UInt8) :
    s.findOffset key = some (-1) ∨
      ∃ r < s.numEntries.toNat, ∃ o : Int, s.recordOffset r = some o ∧ s.findOffset key = some o := by
  obtain ⟨r, hr, -, hrn⟩ := findOffsetLoop_mem (fun i hi => (record_readable hfit hi).1) key _ 0
    (s.numEntries.toNat - 1) rfl (Nat.zero_le _) (by omega)
  rw [Nat.cast_zero, Nat.cast_pred hn] at hr
  obtain ⟨⟨k, hk⟩, o, ho⟩ := record_readable hfit (show r < s.numEntries.toNat by omega)
  simp only [findOffset, hr]
  split_ifs
  · rw [hk]
    dsimp only
    split_ifs
    · exact .inl rfl
    · exact .inr ⟨r, by omega, o, ho, ho⟩
  · exact .inr ⟨r, by omega, o, ho, ho⟩

/-- A table whose two index records, of one-byte keys, are out of order. -/
def unsortedTable : SSTable := ⟨0, 1, 2, 0, 0, 0, [9, 0, 0, 0, 0, 1, 0, 0, 0, 0]⟩

theorem findOffset_of_indexFits_unsortedTable :
    0 < unsortedTable.numEntries.toNat ∧ unsortedTable.IndexFits ∧
      (unsortedTable.findOffset [5] = some (-1) ∨
        ∃ r < unsortedTable.numEntries.toNat, ∃ o : Int, unsortedTable.recordOffset r = some o ∧
          unsortedTable.findOffset [5] = some o) :=
  have hn : 0 < unsortedTable.numEntries.toNat := by decide
  have hfit : unsortedTable.IndexFits := by decide
  ⟨hn, hfit, findOffset_of_indexFits hn hfit [5]⟩

end Safety

/-! ## The index of a built table -/

/-- A record whose bytes are a key of `maxKeyLength` bytes and the four bytes of `n` reads back as both. -/
theorem record_of_take {s : SSTable} {m i n : Nat} {key : List UInt8} (hm : s.maxKeyLength.toNat = m)
    (hk : key.length = m) (hn : n < 2 ^ 32)
    (h : (s.data.drop (s.indexOffset.toNat + i * (m + 4))).take (m + 4) = key ++ le32 n) :
    s.recordKey i = some key ∧ s.recordOffset i = some n := by
  subst hk
  rw [recordKey, recordOffset, recordStart_ofNat, hm]
  generalize s.indexOffset.toNat + i * (key.length + 4) = lo at h ⊢
  have hlen : lo + (key.length + 4) ≤ s.data.length := by
    have := congrArg List.length h
    simp only [List.length_take, List.length_drop, List.length_append, length_le32] at this
    omega
  have hsplit : s.data = s.data.take lo ++ key ++ le32 n ++ (s.data.drop lo).drop (key.length + 4) := by
    conv_lhs => rw [← List.take_append_drop lo s.data, ← List.take_append_drop (key.length + 4) (s.data.drop lo), h]
    simp only [List.append_assoc]
  have hlo : (s.data.take lo).length = lo := List.length_take_of_le (by omega)
  refine ⟨slice_of_eq _ _ (hsplit.trans (List.append_assoc _ _ _)) (by rw [hlo]) rfl, ?_⟩
  rw [readUint32FromBufferLE_of_eq _ hsplit (by simp [hlo])]
  show some ((UInt32.ofNat n).toNat : Int) = some (n : Int)
  rw [toNat_ofNat_u32, Nat.mod_eq_of_lt hn]

/-- The key of the `i`-th entry padded to the longest key length: what index record `i` of a table built from
`kvs` holds. -/
def paddedKey (kvs : List KV) (i : Nat) : List UInt8 := Bytes.pad (maxKeyLen kvs) (kvs.getD i ⟨[], []⟩).key

theorem record_build (format : UInt8) (now : UInt64) {kvs : List KV} (hs : encodedSize kvs ≤ maxUint32) {i : Nat}
    (hi : i < kvs.length) :
    (build format now kvs).table.recordKey i = some (paddedKey kvs i) ∧
      (build format now kvs).table.recordOffset i = some (entryOffset kvs i) := by
  have hw := wireLayout_build format now hs
  rw [paddedKey, List.getD_eq_getElem _ _ hi]
  exact record_of_take hw.maxKeyLength_eq (Bytes.length_pad (length_le_maxKeyLen (List.getElem_mem hi)))
    (hw.entryOffset_lt i) (hw.indexRecord i hi)

theorem numEntries_build (format : UInt8) (now : UInt64) {kvs : List KV} (hs : encodedSize kvs ≤ maxUint32) :
    (build format now kvs).table.numEntries.toNat = kvs.length :=
  Nat.mod_eq_of_lt (lt_of_encodedSize_le hs).2.2.1

/-- The index of a table built from valid entries is sorted: padding keeps the order of the keys. -/
theorem sortedIndex_build (format : UInt8) (now : UInt64) {kvs : List KV} (hv : Valid kvs)
    (hs : encodedSize kvs ≤ maxUint32) : SortedIndex (build format now kvs).table (paddedKey kvs) := by
  refine ⟨fun i hi => (record_build format now hs (numEntries_build format now hs ▸ hi)).1, fun i j hij hj => ?_⟩
  rw [numEntries_build format now hs] at hj
  rcases Nat.lt_or_eq_of_le hij with hij | rfl
  · rw [paddedKey, paddedKey, List.getD_eq_getElem _ _ (by omega), List.getD_eq_getElem _ _ hj]
    exact Bytes.pad_ne_gt_pad (List.pairwise_iff_getElem.1 (valid_iff.1 hv).1 i j _ hj hij)
      (length_le_maxKeyLen (List.getElem_mem hj))
  · simp

theorem build_nil_table (format : UInt8) (now : UInt64) :
    (build format now []).table = ⟨format, 0, 0, 0, 5, now, [format, 5, 0, 0, 0]⟩ := rfl

/-- Without entries `findOffset` reads the header: the table's length for the empty key, and `-1` for any other. -/
theorem findOffset_build_nil (format : UInt8) (now : UInt64) (key : List UInt8) :
    (build format now []).table.findOffset key = if key = [] then some 5 else some (-1) := by
  rw [build_nil_table, findOffset]
  cases key <;> simp [findOffsetLoop_of_not_lt, recordKey, recordOffset, recordStart, slice, readUint32FromBufferLE,
    leValue]

theorem linearScan_build_nil (format : UInt8) (now : UInt64) (key : List UInt8) :
    (build format now []).table.linearScan key = some (-1) := rfl

end SSTable

open SSTable

/-! ## Lookups in a built table -/

/-- **On a built table `findOffset` agrees with the linear scan**, except for the empty key on a table without
entries. -/
theorem buildSSTable_findOffset_eq_linearScan {format : UInt8} {bs es : Int} {now : UInt64} {kvs : List KV}
    {r : BuildResult} (h : buildSSTable format bs es now (.ofList kvs) = .ok r) (key : List UInt8) :
    r.table.findOffset key = r.table.linearScan key ↔ kvs ≠ [] ∨ key ≠ [] := by
  obtain ⟨hv, hs, rfl⟩ := buildSSTable_ofList_ok h
  by_cases hne : kvs = []
  · subst hne
    rw [findOffset_build_nil, linearScan_build_nil]
    cases key <;> simp
  · have hn : 0 < (build format now kvs).table.numEntries.toNat := by
      rw [numEntries_build format now hs]; exact List.length_pos.2 hne
    exact iff_of_true (findOffset_eq_linearScan (sortedIndex_build format now hv hs) hn key) (.inl hne)

theorem buildSSTable_findOffset_eq_linearScan_twoEntries :
    buildSSTable 3 64 2 0 (.ofList twoEntries) = .ok (build 3 0 twoEntries) ∧
      ((build 3 0 twoEntries).table.findOffset [] = (build 3 0 twoEntries).table.linearScan [] ↔
        twoEntries ≠ [] ∨ ([] : List UInt8) ≠ []) :=
  have h : buildSSTable 3 64 2 0 (.ofList twoEntries) = .ok (build 3 0 twoEntries) := by decide
  ⟨h, buildSSTable_findOffset_eq_linearScan h []⟩

/-- On the table built from no entries, `findOffset` returns the table's length `5` for the empty key, where the
scan finds no record. -/
theorem findOffset_empty_table (format : UInt8) (bs es : Int) (now : UInt64) (hfit : EstimatesFit bs es) :
    buildSSTable format bs es now (.ofList []) = .ok (build format now []) ∧
      (build format now []).table.findOffset [] = some 5 ∧ (build format now []).table.linearScan [] = some (-1) :=
  ⟨by rw [buildSSTable_ofList format bs es now hfit (by decide), if_neg (by decide)],
    by rw [findOffset_build_nil, if_pos rfl], rfl⟩

theorem findOffset_empty_table_zero :
    EstimatesFit 0 0 ∧ buildSSTable 0 0 0 0 (.ofList []) = .ok (build 0 0 []) ∧
      (build 0 0 []).table.findOffset [] = some 5 ∧ (build 0 0 []).table.linearScan [] = some (-1) :=
  have hfit : EstimatesFit 0 0 := by decide
  ⟨hfit, findOffset_empty_table 0 0 0 0 hfit⟩

/-- The lookup the spec describes: the offset at which the entry of the first key of `kvs` not below `key` was
written, or `-1` when every key is below `key`. -/
def lowerBoundOffset (kvs : List KV) (key : List UInt8) : Int :=
  match kvs.findIdx? fun kv => Bytes.compare kv.key key != .lt with
  | none => -1
  | some i => entryOffset kvs i

/-- **`findOffset` is a lower-bound search over the entries of a built table**, for a lookup key that is not a
stored key followed by zero bytes its padding covers, on a table with entries or for a non-empty key. -/
theorem buildSSTable_findOffset {format : UInt8} {bs es : Int} {now : UInt64} {kvs : List KV} {r : BuildResult}
    (h : buildSSTable format bs es now (.ofList kvs) = .ok r) {key : List UInt8} (hkey : kvs ≠ [] ∨ key ≠ [])
    (hz : ∀ kv ∈ kvs, ¬Bytes.ZeroExt (maxKeyLen kvs) kv.key key) :
    r.table.findOffset key = some (lowerBoundOffset kvs key) := by
  obtain ⟨hv, hs, rfl⟩ := buildSSTable_ofList_ok h
  by_cases hne : kvs = []
  · subst hne
    rw [findOffset_build_nil, if_neg (hkey.resolve_left (not_not.2 rfl))]
    rfl
  have hsi := sortedIndex_build format now hv hs
  have hN := numEntries_build format now hs
  have hpad : ∀ i (hi : i < kvs.length),
      Bytes.compare (paddedKey kvs i) key = .lt ↔ Bytes.compare kvs[i].key key = .lt := fun i hi => by
    rw [paddedKey, List.getD_eq_getElem _ _ hi, Bytes.pad_lt_iff (length_le_maxKeyLen (List.getElem_mem hi))]
    exact and_iff_left (hz _ (List.getElem_mem hi))
  rw [findOffset_eq_linearScan hsi (by rw [hN]; exact List.length_pos.2 hne), linearScan, hN, lowerBoundOffset]
  split
  · next hnone =>
    rw [List.findIdx?_eq_none_iff] at hnone
    exact scanIndex_of_lt hsi key kvs.length 0 (by omega) fun j _ hj =>
      (hpad j (by omega)).2 (by simpa using hnone _ (List.getElem_mem (show j < kvs.length by omega)))
  · next i hi =>
    obtain ⟨hi, hp, hlt⟩ := List.findIdx?_eq_some_iff_getElem.1 hi
    rw [scanIndex_of_not_lt hsi key kvs.length 0 i (Nat.zero_le i) (by omega) (by omega)
      (fun j _ hj => (hpad j (by omega)).2 (by simpa using hlt j hj)) (mt (hpad i hi).1 (by simpa using hp))]
    exact (record_build format now hs hi).2

theorem buildSSTable_findOffset_twoEntries :
    buildSSTable 3 64 2 0 (.ofList twoEntries) = .ok (build 3 0 twoEntries) ∧
      (∀ kv ∈ twoEntries, ¬Bytes.ZeroExt (maxKeyLen twoEntries) kv.key [2, 2, 2, 2, 2, 2, 2, 2]) ∧
      (build 3 0 twoEntries).table.findOffset [2, 2, 2, 2, 2, 2, 2, 2] =
        some (lowerBoundOffset twoEntries [2, 2, 2, 2, 2, 2, 2, 2]) :=
  have h : buildSSTable 3 64 2 0 (.ofList twoEntries) = .ok (build 3 0 twoEntries) := by decide
  have hz : ∀ kv ∈ twoEntries, ¬Bytes.ZeroExt (maxKeyLen twoEntries) kv.key [2, 2, 2, 2, 2, 2, 2, 2] := by decide
  ⟨h, hz, buildSSTable_findOffset h (.inl (by decide)) hz⟩

/-- The lookup key `[1, 1, 1, 1, 1, 1, 1, 1, 0]` equals the padded first key of `twoEntries`, so `findOffset` returns
the first entry's offset `5`, although that key is below the lookup key and the least key not below it is the
second, written at `21`. -/
theorem findOffset_zero_extended_key :
    buildSSTable 3 64 2 0 (.ofList twoEntries) = .ok (build 3 0 twoEntries) ∧
      (build 3 0 twoEntries).table.findOffset [1, 1, 1, 1, 1, 1, 1, 1, 0] = some 5 ∧
      lowerBoundOffset twoEntries [1, 1, 1, 1, 1, 1, 1, 1, 0] = 21 := by
  have h : buildSSTable 3 64 2 0 (.ofList twoEntries) = .ok (build 3 0 twoEntries) := by decide
  obtain ⟨hv, hs, -⟩ := buildSSTable_ofList_ok h
  refine ⟨h, ?_, by decide⟩
  rw [findOffset_eq_linearScan (sortedIndex_build 3 0 hv hs) (by decide)]
  decide

end Tektite.SST
