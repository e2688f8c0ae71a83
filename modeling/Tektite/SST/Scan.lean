import Tektite.SST.FindOffset

/-!
# Reading the entries region from `findOffset`

The offset `findOffset` returns is where a reader of the entries region starts. On a table built from `kvs`:

* the records from the offset of the `i`-th entry up to the index region are the entries from the `i`-th on, each at
  its offset (`parseEntries_build_drop`);
* for every lookup key, `findOffset` does not panic and returns `-1` or the offset of an entry
  (`buildSSTable_findOffset_boundary`), since the scan over the index stops at a record or after the last
  (`scanIndex_cases`);
* for a lookup key that is no stored key followed by zero bytes the padding covers, it returns the offset of the
  first entry whose key is not below the lookup key (`findOffset_build_eq`). The keys increase, so the records from
  there on are exactly the entries whose keys are not below the lookup key (`filter_eq_drop_findIdx`,
  `buildSSTable_scan`).
-/

set_option autoImplicit false

namespace Tektite.SST

open SSTable

/-- The records from the offset of the `i`-th entry of a built table up to its index region are the entries from
the `i`-th on. -/
theorem parseEntries_build_drop (format : UInt8) (now : UInt64) {kvs : List KV} (hs : encodedSize kvs ≤ maxUint32)
    (i : Nat) :
    parseEntries (build format now kvs).table.data (entryOffset kvs i) (build format now kvs).table.indexOffset.toNat =
      some (withOffsets (entryOffset kvs i) (kvs.drop i)) := by
  have hsplit : entriesRegion kvs = entriesRegion (kvs.take i) ++ entriesRegion (kvs.drop i) := by
    rw [← entriesRegion_append, List.take_append_drop]
  have hpre : ([format] ++ le32 (encodedSize kvs) ++ entriesRegion (kvs.take i)).length = entryOffset kvs i := by
    simp only [List.length_append, List.length_singleton, length_le32, length_entriesRegion, entryOffset,
      List.map_take]
  have hio : (build format now kvs).table.indexOffset.toNat =
      entryOffset kvs i + (entriesRegion (kvs.drop i)).length := by
    rw [(wireLayout_build format now hs).indexOffset_eq, ← hpre, hsplit]
    simp only [List.length_append, List.length_singleton, length_le32]
    omega
  have hdata : (build format now kvs).table.data = [format] ++ le32 (encodedSize kvs) ++
      entriesRegion (kvs.take i) ++ entriesRegion (kvs.drop i) ++ indexRegion (maxKeyLen kvs) 5 kvs := by
    rw [build_data, hsplit]
    simp only [List.append_assoc]
  rw [hio, hdata, ← hpre]
  exact parseEntries_append _ _ _ fun kv hkv => (lt_of_encodedSize_le hs).1 kv (List.mem_of_mem_drop hkv)

/-- For a lookup key that is no stored key followed by zero bytes the padding covers, a padded key is below the
lookup key exactly when the key itself is. -/
theorem paddedKey_lt_iff {kvs : List KV} {key : List UInt8}
    (hz : ∀ kv ∈ kvs, ¬Bytes.ZeroExt (maxKeyLen kvs) kv.key key) {i : Nat} (hi : i < kvs.length) :
    Bytes.compare (paddedKey kvs i) key = .lt ↔ Bytes.compare kvs[i].key key = .lt := by
  rw [paddedKey, List.getD_eq_getElem _ _ hi, Bytes.pad_lt_iff (length_le_maxKeyLen (List.getElem_mem hi))]
  exact and_iff_left (hz _ (List.getElem_mem hi))

/-- The scan over records `i` to `i + c - 1` returns `-1` or the offset field of one of them. -/
theorem scanIndex_cases {s : SSTable} {keys : Nat → List UInt8} (hs : SortedIndex s keys) (key : List UInt8) :
    ∀ c i : Nat, i + c ≤ s.numEntries.toNat →
      s.scanIndex key i c = some (-1) ∨ ∃ j, i ≤ j ∧ j < i + c ∧ s.scanIndex key i c = s.recordOffset j
  | 0, _, _ => .inl rfl
  | c + 1, i, hc => by
    rw [scanIndex, hs.recordKey_eq i (by omega)]
    dsimp only
    split_ifs
    · rcases scanIndex_cases hs key c (i + 1) (by omega) with h | ⟨j, hj₁, hj₂, h⟩
      · exact .inl h
      · exact .inr ⟨j, by omega, by omega, h⟩
    · exact .inr ⟨i, le_rfl, by omega, rfl⟩

/-- On a table built from entries, `findOffset` returns the offset of the first entry whose key is not below the
lookup key, or `-1` when there is none, for a lookup key that is no stored key followed by zero bytes the padding
covers. -/
theorem findOffset_build_eq (format : UInt8) (now : UInt64) {kvs : List KV} (hv : Valid kvs)
    (hs : encodedSize kvs ≤ maxUint32) (hne : kvs ≠ []) {key : List UInt8}
    (hz : ∀ kv ∈ kvs, ¬Bytes.ZeroExt (maxKeyLen kvs) kv.key key) :
    (build format now kvs).table.findOffset key =
      some (if kvs.findIdx (fun kv => Bytes.compare kv.key key != .lt) < kvs.length then
        (entryOffset kvs (kvs.findIdx fun kv => Bytes.compare kv.key key != .lt) : Int) else -1) := by
  have hsi := sortedIndex_build format now hv hs
  have hN := numEntries_build format now hs
  have hlow : ∀ j < kvs.findIdx (fun kv => Bytes.compare kv.key key != .lt),
      Bytes.compare (paddedKey kvs j) key = .lt := fun j hj => by
    rw [paddedKey_lt_iff hz (lt_of_lt_of_le hj (List.findIdx_le_length _))]
    simpa using List.not_of_lt_findIdx hj
  rw [findOffset_eq_linearScan hsi (by rw [hN]; exact List.length_pos.2 hne), linearScan]
  split_ifs with hi
  · rw [scanIndex_of_not_lt hsi key _ 0 _ (Nat.zero_le _) (by omega) (by omega) (fun j _ hj => hlow j hj)
      (by rw [Ne, paddedKey_lt_iff hz hi]; simpa using List.findIdx_getElem (w := hi))]
    exact (record_build format now hs hi).2
  · exact scanIndex_of_lt hsi key _ 0 (by omega) fun j _ hj => hlow j (by omega)

/-- On increasing keys, the entries not below a key are those from the first of them on. -/
theorem filter_eq_drop_findIdx {kvs : List KV} (hk : KeysIncreasing kvs) (key : List UInt8) :
    kvs.filter (fun kv => Bytes.compare kv.key key != .lt) =
      kvs.drop (kvs.findIdx fun kv => Bytes.compare kv.key key != .lt) := by
  induction kvs with
  | nil => rfl
  | cons kv kvs ih =>
    obtain ⟨hkv, hk⟩ := List.pairwise_cons.1 hk
    rw [List.filter_cons, List.findIdx_cons]
    by_cases hb : (Bytes.compare kv.key key != .lt) = true
    · -- the first entry is not below the key, so neither is any later one
      rw [if_pos hb, hb, cond_true, List.drop_zero, List.filter_eq_self.2 fun x hx => ?_]
      exact (Bytes.bne_lt_eq_true _).2 fun hx' => (Bytes.bne_lt_eq_true _).1 hb (Bytes.compare_lt_trans (hkv x hx) hx')
    · rw [if_neg hb, Bool.eq_false_iff.2 hb, cond_false, List.drop_succ_cons]
      exact ih hk

/-! ## Lookups -/

/-- **`findOffset` lands on an entry.** On a table that `BuildSSTable` returns, for every lookup key, `findOffset`
does not panic and returns `-1` or the offset of an entry; the records from there up to the index region are the
entries from that one on. -/
theorem buildSSTable_findOffset_boundary {format : UInt8} {bs es : Int} {now : UInt64} {kvs : List KV} {r : BuildResult}
    (h : buildSSTable format bs es now (.ofList kvs) = .ok r) (key : List UInt8) :
    r.table.findOffset key = some (-1) ∨ ∃ i ≤ kvs.length, r.table.findOffset key = some (entryOffset kvs i) ∧
      parseEntries r.table.data (entryOffset kvs i) r.table.indexOffset.toNat =
        some (withOffsets (entryOffset kvs i) (kvs.drop i)) := by
  obtain ⟨hv, hs, rfl⟩ := buildSSTable_ofList_ok h
  have hdrop := parseEntries_build_drop format now hs
  by_cases hne : kvs = []
  · subst hne
    rw [findOffset_build_nil]
    split_ifs
    · exact .inr ⟨0, le_rfl, rfl, hdrop 0⟩
    · exact .inl rfl
  have hsi := sortedIndex_build format now hv hs
  have hN := numEntries_build format now hs
  rw [findOffset_eq_linearScan hsi (by rw [hN]; exact List.length_pos.2 hne), linearScan]
  rcases scanIndex_cases hsi key (build format now kvs).table.numEntries.toNat 0 (by omega) with h | ⟨j, -, hj, h⟩
  · exact .inl h
  · exact .inr ⟨j, by omega, h.trans (record_build format now hs (by omega)).2, hdrop j⟩

theorem buildSSTable_findOffset_boundary_twoEntries :
    buildSSTable 3 64 2 0 (.ofList twoEntries) = .ok (build 3 0 twoEntries) ∧
      ((build 3 0 twoEntries).table.findOffset [1, 1, 1, 1, 1, 1, 1, 1, 0] = some (-1) ∨
        ∃ i ≤ twoEntries.length, (build 3 0 twoEntries).table.findOffset [1, 1, 1, 1, 1, 1, 1, 1, 0] =
            some (entryOffset twoEntries i) ∧
          parseEntries (build 3 0 twoEntries).table.data (entryOffset twoEntries i)
              (build 3 0 twoEntries).table.indexOffset.toNat =
            some (withOffsets (entryOffset twoEntries i) (twoEntries.drop i))) :=
  have h : buildSSTable 3 64 2 0 (.ofList twoEntries) = .ok (build 3 0 twoEntries) := by decide
  ⟨h, buildSSTable_findOffset_boundary h _⟩

/-- **Scanning from `findOffset`.** On a table that `BuildSSTable` returns, for a lookup key that is no stored key
followed by zero bytes the padding covers, `findOffset` returns `-1` only when every key is below the lookup key,
and otherwise an offset from which the records up to the index region are exactly the entries whose keys are not
below the lookup key, in order, each at its offset. -/
theorem buildSSTable_scan {format : UInt8} {bs es : Int} {now : UInt64} {kvs : List KV} {r : BuildResult}
    (h : buildSSTable format bs es now (.ofList kvs) = .ok r) {key : List UInt8}
    (hz : ∀ kv ∈ kvs, ¬Bytes.ZeroExt (maxKeyLen kvs) kv.key key) :
    ∃ o, r.table.findOffset key = some o ∧ (o = -1 → ∀ kv ∈ kvs, Bytes.compare kv.key key = .lt) ∧
      (o ≠ -1 → parseEntries r.table.data o.toNat r.table.indexOffset.toNat =
        some (withOffsets o.toNat (kvs.filter fun kv => Bytes.compare kv.key key != .lt))) := by
  obtain ⟨hv, hs, rfl⟩ := buildSSTable_ofList_ok h
  have hdrop := parseEntries_build_drop format now hs
  by_cases hne : kvs = []
  · -- the empty table: `-1`, or `5` for the empty key, where the region is empty
    subst hne
    rw [findOffset_build_nil]
    by_cases hk : key = []
    · exact ⟨5, if_pos hk, fun h => absurd h (by decide), fun _ => hdrop 0⟩
    · exact ⟨-1, if_neg hk, fun _ _ h => (nomatch h), fun ho => absurd rfl ho⟩
  rw [findOffset_build_eq format now hv hs hne hz]
  split_ifs with hi
  · refine ⟨_, rfl, fun ho => absurd ho (by omega), fun _ => ?_⟩
    rw [Int.toNat_ofNat, filter_eq_drop_findIdx (valid_iff.1 hv).1]
    exact hdrop _
  · have hall := List.findIdx_eq_length.1 (Nat.le_antisymm (List.findIdx_le_length _) (Nat.not_lt.1 hi))
    exact ⟨_, rfl, fun _ kv hkv => by simpa using hall kv hkv, fun ho => absurd rfl ho⟩

theorem buildSSTable_scan_twoEntries :
    buildSSTable 3 64 2 0 (.ofList twoEntries) = .ok (build 3 0 twoEntries) ∧
      (∀ kv ∈ twoEntries, ¬Bytes.ZeroExt (maxKeyLen twoEntries) kv.key [1, 1, 1, 1, 1, 1, 1, 1, 1]) ∧
      ∃ o, (build 3 0 twoEntries).table.findOffset [1, 1, 1, 1, 1, 1, 1, 1, 1] = some o ∧
        (o = -1 → ∀ kv ∈ twoEntries, Bytes.compare kv.key [1, 1, 1, 1, 1, 1, 1, 1, 1] = .lt) ∧
        (o ≠ -1 → parseEntries (build 3 0 twoEntries).table.data o.toNat
            (build 3 0 twoEntries).table.indexOffset.toNat =
          some (withOffsets o.toNat
            (twoEntries.filter fun kv => Bytes.compare kv.key [1, 1, 1, 1, 1, 1, 1, 1, 1] != .lt))) :=
  have h : buildSSTable 3 64 2 0 (.ofList twoEntries) = .ok (build 3 0 twoEntries) := by decide
  have hz : ∀ kv ∈ twoEntries, ¬Bytes.ZeroExt (maxKeyLen twoEntries) kv.key [1, 1, 1, 1, 1, 1, 1, 1, 1] := by
    decide
  ⟨h, hz, buildSSTable_scan h hz⟩

end Tektite.SST
