import Tektite.SST.Layout

/-!
# The contract of `BuildSSTable`

When `BuildSSTable` returns a table, panics, or returns an error (`buildSSTable_outcome`): a table exactly when
`make` accepts both capacity estimates, the keys are strictly increasing, at least eight bytes long, and the table
fits the 32-bit offsets; a panic exactly when one of the first three fails; the size error when only the size
fails; and an iterator error, after estimates and entries that pass the checks, as it is. A negative estimate
panics on entries the builder would accept (`buildSSTable_negative_estimate`). The order check compares neighbours
only; it is enough because the key order is transitive (`valid_iff`).

The statistics it returns with a table (`buildSSTable_stats`): the counts, the longest key length, the first and
last keys, and the extreme versions, each attained by an entry.
-/

set_option autoImplicit false

namespace Tektite.SST

/-- The keys of `kvs` are strictly increasing in `bytes.Compare` order. -/
def KeysIncreasing (kvs : List KV) : Prop := kvs.Pairwise fun a b => Bytes.compare a.key b.key = .lt

theorem valid_iff {kvs : List KV} : Valid kvs ↔ KeysIncreasing kvs ∧ ∀ kv ∈ kvs, 8 ≤ kv.key.length :=
  haveI : IsTrans KV fun a b => Bytes.compare a.key b.key = .lt := ⟨fun _ _ _ => Bytes.compare_lt_trans⟩
  and_congr_left' List.chain'_iff_pairwise

/-- **When `BuildSSTable` returns a table**, panics, or fails: on an iterator that reports no error, a table
exactly when `make` accepts both capacity estimates and the keys increase, have version suffixes, and fit; a panic
exactly when an estimate is rejected, the keys do not increase, or one is too short; the size error exactly when
only the size is too large. An iterator error after entries that pass the checks is returned as it is. -/
theorem buildSSTable_outcome (format : UInt8) (buffSizeEstimate entriesEstimate : Int) (now : UInt64) :
    (∀ kvs : List KV,
      ((buildSSTable format buffSizeEstimate entriesEstimate now (.ofList kvs)).IsOk ↔
        EstimatesFit buffSizeEstimate entriesEstimate ∧ KeysIncreasing kvs ∧ (∀ kv ∈ kvs, 8 ≤ kv.key.length) ∧
          encodedSize kvs ≤ maxUint32) ∧
      ((buildSSTable format buffSizeEstimate entriesEstimate now (.ofList kvs)).IsPanic ↔
        ¬(EstimatesFit buffSizeEstimate entriesEstimate ∧ KeysIncreasing kvs ∧ ∀ kv ∈ kvs, 8 ≤ kv.key.length)) ∧
      (buildSSTable format buffSizeEstimate entriesEstimate now (.ofList kvs) = .error "SSTable too big" ↔
        EstimatesFit buffSizeEstimate entriesEstimate ∧ KeysIncreasing kvs ∧ (∀ kv ∈ kvs, 8 ≤ kv.key.length) ∧
          maxUint32 < encodedSize kvs)) ∧
    ∀ (it : Iterator) (e : String), EstimatesFit buffSizeEstimate entriesEstimate → it.err = some e →
      KeysIncreasing it.entries → (∀ kv ∈ it.entries, 8 ≤ kv.key.length) →
      buildSSTable format buffSizeEstimate entriesEstimate now it = .error e := by
  refine ⟨fun kvs => ?_, fun it e hfit he hk hl =>
    buildSSTable_err format buffSizeEstimate entriesEstimate now hfit (valid_iff.2 ⟨hk, hl⟩) he⟩
  simp only [← and_assoc, ← valid_iff]
  by_cases hv : EstimatesFit buffSizeEstimate entriesEstimate ∧ Valid kvs
  · rw [buildSSTable_ofList format _ _ now hv.1 hv.2]
    split_ifs with hs
    · simp [hv, hs]
    · simp [hv]; omega
  · obtain ⟨m, hm⟩ := buildSSTable_panic format buffSizeEstimate entriesEstimate now
      (show ¬(_ ∧ Valid (Iterator.ofList kvs).entries) by simpa using hv)
    simp [hm, hv]

/-- A negative estimate of the buffer's size: `make` panics before the first entry is read, although the entries
increase, have version suffixes, and fit. -/
theorem buildSSTable_negative_estimate :
    buildSSTable 3 (-1) 2 0 (.ofList twoEntries) = .panic "runtime error: makeslice: cap out of range" ∧
      KeysIncreasing twoEntries ∧ (∀ kv ∈ twoEntries, 8 ≤ kv.key.length) ∧ encodedSize twoEntries ≤ maxUint32 :=
  have h : buildSSTable 3 64 2 0 (.ofList twoEntries) = .ok (build 3 0 twoEntries) := by decide
  have ⟨hv, hs, _⟩ := buildSSTable_ofList_ok h
  ⟨by decide, (valid_iff.1 hv).1, (valid_iff.1 hv).2, hs⟩

/-- The statistics `BuildSSTable` returns with a table built from `kvs`. -/
structure BuildStats (kvs : List KV) (r : BuildResult) : Prop where
  numEntries_eq : r.table.numEntries.toNat = kvs.length
  /-- `numDeletes` counts the tombstones. -/
  numDeletes_eq : r.table.numDeletes.toNat = (kvs.filter fun kv => kv.value.length = 0).length
  numDeletes_le : r.table.numDeletes.toNat ≤ r.table.numEntries.toNat
  /-- `maxKeyLength` is the longest key length, `0` without entries. -/
  le_maxKeyLength : ∀ kv ∈ kvs, kv.key.length ≤ r.table.maxKeyLength.toNat
  maxKeyLength_mem : kvs ≠ [] → ∃ kv ∈ kvs, kv.key.length = r.table.maxKeyLength.toNat
  maxKeyLength_nil : kvs = [] → r.table.maxKeyLength.toNat = 0
  smallestKey_eq : ∀ kv ∈ kvs.head?, r.smallestKey = kv.key
  largestKey_eq : ∀ kv ∈ kvs.getLast?, r.largestKey = kv.key
  /-- `minVersion` is the least version of a key, `math.MaxUint64` without entries. -/
  minVersion_le : ∀ kv ∈ kvs, r.minVersion ≤ keyVersion kv.key
  minVersion_mem : kvs ≠ [] → ∃ kv ∈ kvs, keyVersion kv.key = r.minVersion
  minVersion_nil : kvs = [] → r.minVersion = maxUint64
  /-- `maxVersion` is the greatest version of a key, `0` without entries. -/
  le_maxVersion : ∀ kv ∈ kvs, keyVersion kv.key ≤ r.maxVersion
  maxVersion_mem : kvs ≠ [] → ∃ kv ∈ kvs, keyVersion kv.key = r.maxVersion
  maxVersion_nil : kvs = [] → r.maxVersion = 0

theorem keyVersion_le (key : List UInt8) : keyVersion key ≤ maxUint64 := Nat.sub_le _ _

/-- **The statistics of a built table.** -/
theorem buildSSTable_stats {format : UInt8} {bs es : Int} {now : UInt64} {kvs : List KV} {r : BuildResult}
    (h : buildSSTable format bs es now (.ofList kvs) = .ok r) : BuildStats kvs r := by
  obtain ⟨-, hs, rfl⟩ := buildSSTable_ofList_ok h
  obtain ⟨-, -, hn, hm, hd⟩ := lt_of_encodedSize_le hs
  have hM : (build format now kvs).table.maxKeyLength.toNat = maxKeyLen kvs := Nat.mod_eq_of_lt hm
  have hD : (build format now kvs).table.numDeletes.toNat = numDeletesOf kvs := Nat.mod_eq_of_lt hd
  have hN : (build format now kvs).table.numEntries.toNat = kvs.length := Nat.mod_eq_of_lt hn
  refine ⟨hN, by rw [hD, numDeletesOf, List.countP_eq_length_filter], by rw [hD, hN]; exact List.countP_le_length _,
    fun kv hkv => hM ▸ length_le_maxKeyLen hkv,
    fun hne => hM ▸ exists_eq_foldMax _ hne fun _ _ => Nat.zero_le _, by rintro rfl; exact hM,
    fun kv hkv => ?_, fun kv hkv => ?_,
    fun kv hkv => foldMin_le_of_mem _ _ hkv, fun hne => exists_eq_foldMin _ hne fun kv _ => keyVersion_le kv.key,
    by rintro rfl; rfl,
    fun kv hkv => le_foldMax_of_mem (fun kv => keyVersion kv.key) 0 hkv,
    fun hne => exists_eq_foldMax _ hne fun _ _ => Nat.zero_le _,
    by rintro rfl; rfl⟩
  · simp [build, Option.mem_def.1 hkv]
  · simp [build, Option.mem_def.1 hkv]

theorem buildSSTable_stats_twoEntries :
    buildSSTable 3 64 2 0 (.ofList twoEntries) = .ok (build 3 0 twoEntries) ∧
      BuildStats twoEntries (build 3 0 twoEntries) :=
  have h : buildSSTable 3 64 2 0 (.ofList twoEntries) = .ok (build 3 0 twoEntries) := by decide
  ⟨h, buildSSTable_stats h⟩

end Tektite.SST
