import Tektite.SST.Build
import Mathlib

/-!
# What `BuildSSTable` computes

The regions of a table in closed form: the entries region `entriesRegion` of length-prefixed records, the index
region `indexRegion` of fixed-stride records, and the total size `encodedSize`. `BuildState.ofEntries f kvs` is
the state of the builder's loop after the entries `kvs`. One pass of the body takes it to the state after one
more entry, or panics exactly when that entry breaks the order or is shorter than eight bytes (`step_ofEntries`);
by induction over the iterator the whole loop does (`buildLoop_ofEntries`, `buildLoop_panic`).

`build` is the table of valid entries, and `buildSSTable` refines it: with capacity estimates that `make` accepts
(`EstimatesFit`) it returns `build`, the size error, the iterator's error, or a panic, as `Valid` and `encodedSize`
say (`buildSSTable_ofList`, `buildSSTable_err`, `buildSSTable_panic`); with others it panics.
-/

set_option autoImplicit false

namespace Tektite.SST

/-! ## The regions of a table -/

/-- The bytes one entry takes in the entries region. -/
def recordLen (kv : KV) : Nat := 8 + kv.key.length + kv.value.length

/-- One record of the entries region: `len(key)`, `key`, `len(value)`, `value`. -/
def encodeEntry (kv : KV) : List UInt8 := le32 kv.key.length ++ kv.key ++ le32 kv.value.length ++ kv.value

/-- The entries region. -/
def entriesRegion (kvs : List KV) : List UInt8 := (kvs.map encodeEntry).flatten

/-- The index entries the loop collects for `kvs` when the first of them is written at `o`. -/
def indexEntriesFrom : Nat → List KV → List IndexEntry
  | _, [] => []
  | o, kv :: kvs => ⟨kv.key, UInt32.ofNat o⟩ :: indexEntriesFrom (o + recordLen kv) kvs

/-- The index region, records of stride `m + 4`, when the first entry is at `o`: each key padded to `m` bytes and
the offset of its entry. -/
def indexRegion (m : Nat) : Nat → List KV → List UInt8
  | _, [] => []
  | o, kv :: kvs => Bytes.pad m kv.key ++ le32 o ++ indexRegion m (o + recordLen kv) kvs

/-- The largest of `f` over `kvs` and `a`. -/
def foldMax (f : KV → Nat) (a : Nat) (kvs : List KV) : Nat := kvs.foldl (fun m kv => max m (f kv)) a

/-- The smallest of `f` over `kvs` and `a`. -/
def foldMin (f : KV → Nat) (a : Nat) (kvs : List KV) : Nat := kvs.foldl (fun m kv => min m (f kv)) a

/-- The longest key length, `0` without keys. -/
def maxKeyLen (kvs : List KV) : Nat := foldMax (fun kv => kv.key.length) 0 kvs

/-- `math.MaxUint64 - binary.BigEndian.Uint64(key[len(key)-8:])`: the version a key carries. -/
def keyVersion (key : List UInt8) : Nat := maxUint64 - bigEndianUint64 (key.drop (key.length - 8))

/-- The number of tombstones: entries with an empty value. -/
def numDeletesOf (kvs : List KV) : Nat := kvs.countP fun kv => kv.value.length = 0

/-- The length of the table built from `kvs`. -/
def encodedSize (kvs : List KV) : Nat := 5 + (kvs.map recordLen).sum + kvs.length * (maxKeyLen kvs + 4)

@[simp] theorem length_encodeEntry (kv : KV) : (encodeEntry kv).length = recordLen kv := by
  simp [encodeEntry, recordLen]; omega

@[simp] theorem entriesRegion_nil : entriesRegion [] = [] := rfl

@[simp] theorem entriesRegion_cons (kv : KV) (kvs : List KV) :
    entriesRegion (kv :: kvs) = encodeEntry kv ++ entriesRegion kvs := rfl

@[simp] theorem entriesRegion_append (xs ys : List KV) :
    entriesRegion (xs ++ ys) = entriesRegion xs ++ entriesRegion ys := by
  simp [entriesRegion]

@[simp] theorem length_entriesRegion (kvs : List KV) : (entriesRegion kvs).length = (kvs.map recordLen).sum := by
  induction kvs <;> simp_all

theorem indexEntriesFrom_append (o : Nat) (xs ys : List KV) :
    indexEntriesFrom o (xs ++ ys) =
      indexEntriesFrom o xs ++ indexEntriesFrom (o + (entriesRegion xs).length) ys := by
  induction xs generalizing o with
  | nil => rfl
  | cons kv xs ih => simp [indexEntriesFrom, ih, Nat.add_assoc]

theorem length_indexRegion (m o : Nat) (kvs : List KV) (h : ∀ kv ∈ kvs, kv.key.length ≤ m) :
    (indexRegion m o kvs).length = kvs.length * (m + 4) := by
  induction kvs generalizing o with
  | nil => simp [indexRegion]
  | cons kv kvs ih =>
    simp only [indexRegion, List.length_append, Bytes.length_pad (h kv (by simp)), length_le32, List.length_cons,
      ih _ fun x hx => h x (by simp [hx]), Nat.add_one_mul]
    omega

/-! ## Running maxima and minima -/

section Fold

variable (f : KV → Nat)

@[simp] theorem foldMax_nil (a : Nat) : foldMax f a [] = a := rfl
@[simp] theorem foldMin_nil (a : Nat) : foldMin f a [] = a := rfl
theorem foldMax_cons (a : Nat) (kv : KV) (kvs : List KV) :
    foldMax f a (kv :: kvs) = foldMax f (max a (f kv)) kvs := rfl
theorem foldMin_cons (a : Nat) (kv : KV) (kvs : List KV) :
    foldMin f a (kv :: kvs) = foldMin f (min a (f kv)) kvs := rfl

theorem le_foldMax (a : Nat) (kvs : List KV) : a ≤ foldMax f a kvs := by
  induction kvs generalizing a with
  | nil => exact le_rfl
  | cons kv kvs ih => exact le_trans (le_max_left _ _) (ih _)

theorem le_foldMax_of_mem (a : Nat) {kvs : List KV} {kv : KV} (h : kv ∈ kvs) : f kv ≤ foldMax f a kvs := by
  induction kvs generalizing a with
  | nil => cases h
  | cons x kvs ih =>
    rcases List.mem_cons.1 h with rfl | h
    · exact le_trans (le_max_right _ _) (le_foldMax f _ kvs)
    · exact ih _ h

theorem foldMax_eq (a : Nat) (kvs : List KV) : foldMax f a kvs = a ∨ ∃ kv ∈ kvs, f kv = foldMax f a kvs := by
  induction kvs generalizing a with
  | nil => exact .inl rfl
  | cons kv kvs ih =>
    rw [foldMax_cons]
    rcases ih (max a (f kv)) with h | ⟨x, hx, h⟩
    · rcases max_choice a (f kv) with h' | h' <;> rw [h'] at h ⊢
      · exact .inl h
      · exact .inr ⟨kv, by simp, h.symm⟩
    · exact .inr ⟨x, by simp [hx], h⟩

theorem foldMin_le (a : Nat) (kvs : List KV) : foldMin f a kvs ≤ a := by
  induction kvs generalizing a with
  | nil => exact le_rfl
  | cons kv kvs ih => exact le_trans (ih _) (min_le_left _ _)

theorem foldMin_le_of_mem (a : Nat) {kvs : List KV} {kv : KV} (h : kv ∈ kvs) : foldMin f a kvs ≤ f kv := by
  induction kvs generalizing a with
  | nil => cases h
  | cons x kvs ih =>
    rcases List.mem_cons.1 h with rfl | h
    · exact le_trans (foldMin_le f _ kvs) (min_le_right _ _)
    · exact ih _ h

theorem foldMin_eq (a : Nat) (kvs : List KV) : foldMin f a kvs = a ∨ ∃ kv ∈ kvs, f kv = foldMin f a kvs := by
  induction kvs generalizing a with
  | nil => exact .inl rfl
  | cons kv kvs ih =>
    rw [foldMin_cons]
    rcases ih (min a (f kv)) with h | ⟨x, hx, h⟩
    · rcases min_choice a (f kv) with h' | h' <;> rw [h'] at h ⊢
      · exact .inl h
      · exact .inr ⟨kv, by simp, h.symm⟩
    · exact .inr ⟨x, by simp [hx], h⟩

theorem exists_eq_foldMax {a : Nat} {kvs : List KV} (hne : kvs ≠ []) (ha : ∀ kv ∈ kvs, a ≤ f kv) :
    ∃ kv ∈ kvs, f kv = foldMax f a kvs := by
  rcases foldMax_eq f a kvs with h | h
  · obtain ⟨kv, hkv⟩ := List.exists_mem_of_ne_nil kvs hne
    exact ⟨kv, hkv, le_antisymm (le_foldMax_of_mem f a hkv) (by rw [h]; exact ha kv hkv)⟩
  · exact h

theorem exists_eq_foldMin {a : Nat} {kvs : List KV} (hne : kvs ≠ []) (ha : ∀ kv ∈ kvs, f kv ≤ a) :
    ∃ kv ∈ kvs, f kv = foldMin f a kvs := by
  rcases foldMin_eq f a kvs with h | h
  · obtain ⟨kv, hkv⟩ := List.exists_mem_of_ne_nil kvs hne
    exact ⟨kv, hkv, le_antisymm (by rw [h]; exact ha kv hkv) (foldMin_le_of_mem f a hkv)⟩
  · exact h

@[simp] theorem foldMax_append_singleton (a : Nat) (kvs : List KV) (kv : KV) :
    foldMax f a (kvs ++ [kv]) = max (foldMax f a kvs) (f kv) := by
  simp [foldMax]

@[simp] theorem foldMin_append_singleton (a : Nat) (kvs : List KV) (kv : KV) :
    foldMin f a (kvs ++ [kv]) = min (foldMin f a kvs) (f kv) := by
  simp [foldMin]

end Fold

/-! ## The loop -/

/-- The checks of the loop body pass on every entry: each key is above the one before it, and long enough for its
eight-byte version suffix. -/
def Valid (kvs : List KV) : Prop :=
  kvs.Chain' (fun a b => Bytes.compare a.key b.key = .lt) ∧ ∀ kv ∈ kvs, 8 ≤ kv.key.length

instance : DecidablePred Valid := fun _ => inferInstanceAs (Decidable (_ ∧ _))

theorem Valid.of_append {xs ys : List KV} (h : Valid (xs ++ ys)) : Valid xs :=
  ⟨h.1.left_of_append, fun kv hkv => h.2 kv (List.mem_append_left _ hkv)⟩

theorem valid_append_singleton {kvs : List KV} {kv : KV} :
    Valid (kvs ++ [kv]) ↔
      Valid kvs ∧ BuildState.outOfOrder (kvs.getLast?.map KV.key) kv.key = false ∧ 8 ≤ kv.key.length := by
  have hord : BuildState.outOfOrder (kvs.getLast?.map KV.key) kv.key = false ↔
      ∀ x ∈ kvs.getLast?, Bytes.compare x.key kv.key = .lt := by
    cases kvs.getLast? with
    | none => simp [BuildState.outOfOrder]
    | some x =>
      show (Bytes.compare x.key kv.key != .lt) = false ↔ ∀ y ∈ some x, Bytes.compare y.key kv.key = .lt
      simp only [Option.mem_def, Option.some.injEq, forall_eq']
      generalize Bytes.compare x.key kv.key = c; cases c <;> decide
  simp only [Valid, List.chain'_append, List.chain'_singleton, List.head?_cons, Option.mem_def,
    Option.some.injEq, forall_eq', List.mem_append, List.mem_singleton, hord]
  constructor
  · rintro ⟨⟨h₁, -, h₂⟩, h₃⟩
    exact ⟨⟨h₁, fun x hx => h₃ x (.inl hx)⟩, h₂, h₃ kv (.inr rfl)⟩
  · rintro ⟨⟨h₁, h₃⟩, h₂, h₄⟩
    exact ⟨⟨h₁, trivial, h₂⟩, fun x hx => hx.elim (h₃ x) (fun e => e ▸ h₄)⟩

theorem slice_versionSuffix (key : List UInt8) :
    slice key ((key.length : Int) - 8) key.length =
      if key.length < 8 then none else some (key.drop (key.length - 8)) := by
  by_cases h : key.length < 8
  · rw [if_pos h, slice_eq_none (by omega)]
  · rw [if_neg h, slice, if_pos (by omega)]
    congr 1
    rw [List.take_of_length_le (by simp; omega), show ((key.length : Int) - 8).toNat = key.length - 8 by omega]

theorem ite_gt_eq_max (a b : Nat) : (if a > b then a else b) = max b a := by
  rw [max_def]; split_ifs <;> omega

theorem ite_lt_eq_min (a b : Nat) : (if a < b then a else b) = min b a := by
  rw [min_def]; split_ifs <;> omega

namespace BuildState

/-- The loop's variables after the entries `kvs`. -/
def ofEntries (format : UInt8) (kvs : List KV) : BuildState where
  buff := [format, 0, 0, 0, 0] ++ entriesRegion kvs
  indexEntries := indexEntriesFrom 5 kvs
  maxVersion := foldMax (fun kv => keyVersion kv.key) 0 kvs
  minVersion := foldMin (fun kv => keyVersion kv.key) maxUint64 kvs
  maxKeyLength := maxKeyLen kvs
  numEntries := kvs.length
  numDeletes := numDeletesOf kvs
  first := kvs.isEmpty
  prevKey := kvs.getLast?.map KV.key
  smallestKey := (kvs.head?.map KV.key).getD []
  largestKey := (kvs.getLast?.map KV.key).getD []

theorem init_eq (format : UInt8) : init format = ofEntries format [] := rfl

@[simp] theorem ofEntries_prevKey (format : UInt8) (kvs : List KV) :
    (ofEntries format kvs).prevKey = kvs.getLast?.map KV.key := rfl

theorem add_ofEntries (format : UInt8) (kvs : List KV) (kv : KV) :
    (ofEntries format kvs).add kv (keyVersion kv.key) = ofEntries format (kvs ++ [kv]) := by
  simp only [add, ofEntries, appendBytesWithLengthPrefix, appendUint32ToBufferLE_eq, toNat_ofNat_u32, le32_mod,
    indexEntriesFrom_append, maxKeyLen, numDeletesOf, foldMax_append_singleton, foldMin_append_singleton,
    List.countP_append, ite_gt_eq_max, ite_lt_eq_min, mk.injEq]
  refine ⟨by simp [encodeEntry], by simp [indexEntriesFrom, Nat.add_comm _ 5], trivial, trivial, trivial, by simp, ?_,
    by simp, by simp, by cases kvs <;> simp, by simp⟩
  split <;> simp_all

/-- One pass of the loop body after the entries `kvs`. -/
theorem step_ofEntries (format : UInt8) (kvs : List KV) (kv : KV) :
    (ofEntries format kvs).step kv =
      if outOfOrder (kvs.getLast?.map KV.key) kv.key then .panic "keys not in order / contains duplicates"
      else if kv.key.length < 8 then .panic "runtime error: slice bounds out of range"
      else .ok (ofEntries format (kvs ++ [kv])) := by
  rw [step, ofEntries_prevKey, slice_versionSuffix]
  split_ifs <;> simp [← add_ofEntries, keyVersion]

theorem step_ofEntries_ok {format : UInt8} {kvs : List KV} {kv : KV} (h : Valid (kvs ++ [kv])) :
    (ofEntries format kvs).step kv = .ok (ofEntries format (kvs ++ [kv])) := by
  obtain ⟨-, h₁, h₂⟩ := valid_append_singleton.1 h
  rw [step_ofEntries, if_neg (by simp [h₁]), if_neg (by omega)]

theorem step_ofEntries_panic {format : UInt8} {kvs : List KV} {kv : KV} (hv : Valid kvs)
    (h : ¬Valid (kvs ++ [kv])) : ((ofEntries format kvs).step kv).IsPanic := by
  rw [valid_append_singleton] at h
  rw [step_ofEntries]
  split_ifs with h₁ h₂
  · simp
  · simp
  · exact absurd ⟨hv, by simpa using h₁, by omega⟩ h

end BuildState

open BuildState

/-- **The loop on valid entries.** From the state after the valid entries `pre`, the loop takes in every entry of
the iterator and ends as the iterator does. -/
theorem buildLoop_ofEntries (format : UInt8) :
    ∀ (it : Iterator) (pre : List KV), Valid (pre ++ it.entries) →
      buildLoop (ofEntries format pre) it = it.finish (ofEntries format (pre ++ it.entries))
  | .done, pre, _ => by simp [buildLoop, Iterator.finish, Iterator.err, Iterator.entries]
  | .invalid _, _, _ => rfl
  | .next kv rest, pre, h => by
    have h' : Valid ((pre ++ [kv]) ++ rest.entries) := by simpa [Iterator.entries] using h
    rw [buildLoop, step_ofEntries_ok h'.of_append, Outcome.ok_bind, buildLoop_ofEntries format rest _ h']
    simp [Iterator.finish, Iterator.err, Iterator.entries]
  | .nextFails kv _, pre, h => by
    rw [buildLoop, step_ofEntries_ok (by simpa [Iterator.entries] using h)]
    rfl

/-- **The loop panics on invalid entries.** -/
theorem buildLoop_panic (format : UInt8) :
    ∀ (it : Iterator) (pre : List KV), Valid pre → ¬Valid (pre ++ it.entries) →
      (buildLoop (ofEntries format pre) it).IsPanic
  | .done, _, hv, h | .invalid _, _, hv, h => absurd (by simpa [Iterator.entries] using hv) h
  | .next kv rest, pre, hv, h => by
    rw [buildLoop]
    by_cases h₁ : Valid (pre ++ [kv])
    · rw [step_ofEntries_ok h₁, Outcome.ok_bind]
      exact buildLoop_panic format rest _ h₁ (by simpa [Iterator.entries] using h)
    · exact (step_ofEntries_panic hv h₁).bind _
  | .nextFails kv _, _, hv, h => (step_ofEntries_panic hv (by simpa [Iterator.entries] using h)).bind _

/-! ## After the loop -/

theorem appendIndexEntry_eq (m : Nat) (buff : List UInt8) (e : IndexEntry) :
    appendIndexEntry m buff e = buff ++ Bytes.pad m e.key ++ le32 e.offset.toNat := by
  rw [appendIndexEntry, Bytes.pad]
  split_ifs with h
  · simp [show (↑m - ↑e.key.length : Int).toNat = m - e.key.length by omega]
  · simp [show m - e.key.length = 0 by omega]

theorem foldl_appendIndexEntry (m : Nat) :
    ∀ (o : Nat) (kvs : List KV) (buff : List UInt8),
      (indexEntriesFrom o kvs).foldl (appendIndexEntry m) buff = buff ++ indexRegion m o kvs
  | _, [], _ => by simp [indexEntriesFrom, indexRegion]
  | o, kv :: kvs, buff => by
    simp only [indexEntriesFrom, indexRegion, List.foldl_cons, appendIndexEntry_eq, toNat_ofNat_u32, le32_mod,
      foldl_appendIndexEntry m _ kvs, List.append_assoc]

theorem setMetadataOffset_eq (format : UInt8) (rest : List UInt8) (n : Nat) :
    setMetadataOffset (format :: 0 :: 0 :: 0 :: 0 :: rest) n = format :: (le32 n ++ rest) := by
  simp [setMetadataOffset, le32, Nat.shiftRight_eq_div_pow]

theorem length_le_maxKeyLen {kvs : List KV} {kv : KV} (h : kv ∈ kvs) : kv.key.length ≤ maxKeyLen kvs :=
  le_foldMax_of_mem (fun kv => kv.key.length) 0 h

/-- The results of `BuildSSTable` on the valid entries `kvs`. -/
def build (format : UInt8) (now : UInt64) (kvs : List KV) : BuildResult where
  table :=
    { format := format
      maxKeyLength := UInt32.ofNat (maxKeyLen kvs)
      numEntries := UInt32.ofNat kvs.length
      numDeletes := UInt32.ofNat (numDeletesOf kvs)
      indexOffset := UInt32.ofNat (5 + (entriesRegion kvs).length)
      creationTime := now
      data := format :: le32 (encodedSize kvs) ++ entriesRegion kvs ++ indexRegion (maxKeyLen kvs) 5 kvs }
  smallestKey := (kvs.head?.map KV.key).getD []
  largestKey := (kvs.getLast?.map KV.key).getD []
  minVersion := foldMin (fun kv => keyVersion kv.key) maxUint64 kvs
  maxVersion := foldMax (fun kv => keyVersion kv.key) 0 kvs

theorem length_build_data (format : UInt8) (now : UInt64) (kvs : List KV) :
    (build format now kvs).table.data.length = encodedSize kvs := by
  simp [build, encodedSize, length_indexRegion _ _ _ fun _ => length_le_maxKeyLen]
  omega

/-- What follows the loop, on the state after the entries `kvs`. -/
theorem finish_ofEntries (format : UInt8) (now : UInt64) (kvs : List KV) :
    (ofEntries format kvs).finish format now =
      if encodedSize kvs > maxUint32 then .error "SSTable too big" else .ok (build format now kvs) := by
  have hlen : ([format, 0, 0, 0, 0] ++ (entriesRegion kvs ++ indexRegion (maxKeyLen kvs) 5 kvs)).length =
      encodedSize kvs := by
    simp [encodedSize, length_indexRegion _ _ _ fun _ => length_le_maxKeyLen]; omega
  have hio : ([format, 0, 0, 0, 0] ++ entriesRegion kvs).length = 5 + (entriesRegion kvs).length := by
    simp only [List.length_append]; rfl
  simp only [finish, ofEntries, foldl_appendIndexEntry, List.append_assoc, hlen, hio]
  split_ifs
  · rfl
  · simp [build, setMetadataOffset_eq]

/-! ## `BuildSSTable` -/

section BuildSSTable

variable {format : UInt8} {bs es : Int} {now : UInt64}

/-- Past its two `make` calls, `BuildSSTable` is its loop and what follows it. -/
theorem buildSSTable_of_fit (hfit : EstimatesFit bs es) (it : Iterator) :
    buildSSTable format bs es now it = (buildLoop (.init format) it).bind fun st => st.finish format now := by
  simp [buildSSTable, makeSlice, hfit.1, hfit.2]

/-- An estimate that `make` rejects makes `BuildSSTable` panic before it reads the iterator. -/
theorem buildSSTable_of_not_fit (hfit : ¬EstimatesFit bs es) (it : Iterator) :
    buildSSTable format bs es now it = .panic "runtime error: makeslice: cap out of range" := by
  unfold EstimatesFit at hfit
  by_cases he : MakeSliceFits indexEntrySize es
  · simp [buildSSTable, makeSlice, he, show ¬MakeSliceFits 1 bs from fun hb => hfit ⟨he, hb⟩]
  · simp [buildSSTable, makeSlice, he]

theorem estimatesFit_of_ok {it : Iterator} {r : BuildResult} (h : buildSSTable format bs es now it = .ok r) :
    EstimatesFit bs es :=
  Classical.byContradiction fun hfit => by rw [buildSSTable_of_not_fit hfit] at h; cases h

variable (format bs es now)

/-- **`BuildSSTable` refines `build`**: with estimates `make` accepts, on valid entries that report no error it
returns `build`, or the size error when the table would not fit the 32-bit offsets. -/
theorem buildSSTable_ofList (hfit : EstimatesFit bs es) {kvs : List KV} (h : Valid kvs) :
    buildSSTable format bs es now (.ofList kvs) =
      if encodedSize kvs > maxUint32 then .error "SSTable too big" else .ok (build format now kvs) := by
  rw [buildSSTable_of_fit hfit, init_eq, buildLoop_ofEntries format _ [] (by simpa using h)]
  simp [Iterator.finish, finish_ofEntries]

/-- An iterator error after valid entries is returned as it is. -/
theorem buildSSTable_err (hfit : EstimatesFit bs es) {it : Iterator} {e : String} (h : Valid it.entries)
    (he : it.err = some e) : buildSSTable format bs es now it = .error e := by
  rw [buildSSTable_of_fit hfit, init_eq, buildLoop_ofEntries format _ [] (by simpa using h)]
  simp [Iterator.finish, he]

/-- Estimates that `make` rejects, or invalid entries, make `BuildSSTable` panic, whatever the iterator does after
the entries. -/
theorem buildSSTable_panic {it : Iterator} (h : ¬(EstimatesFit bs es ∧ Valid it.entries)) :
    (buildSSTable format bs es now it).IsPanic := by
  by_cases hfit : EstimatesFit bs es
  · rw [buildSSTable_of_fit hfit]
    exact (buildLoop_panic format it [] ⟨List.chain'_nil, by simp⟩ (by simpa using fun hv => h ⟨hfit, hv⟩)).bind _
  · rw [buildSSTable_of_not_fit hfit]
    exact Outcome.isPanic_panic _

variable {format bs es now}

theorem buildSSTable_ofList_ok {kvs : List KV} {r : BuildResult}
    (h : buildSSTable format bs es now (.ofList kvs) = .ok r) :
    Valid kvs ∧ encodedSize kvs ≤ maxUint32 ∧ r = build format now kvs := by
  have hfit := estimatesFit_of_ok h
  by_cases hv : Valid kvs
  · rw [buildSSTable_ofList format bs es now hfit hv] at h
    split_ifs at h with hs
    cases h
    exact ⟨hv, by omega, rfl⟩
  · obtain ⟨m, hm⟩ := buildSSTable_panic format bs es now
      (show ¬(EstimatesFit bs es ∧ Valid (Iterator.ofList kvs).entries) by simp [hv])
    rw [hm] at h; cases h

end BuildSSTable

end Tektite.SST
