import Tektite.SST.Run

/-!
# The wire layout of a built table

A table built from the entries `kvs` is the format byte, the 4-byte length of the table, the entries region, and
the index region (`buildSSTable_layout`). Its index region is a sequence of fixed-stride records: record `i` is the
`i`-th key padded to the longest key length and the offset `entryOffset kvs i` of the `i`-th entry
(`drop_indexRegion`). Every length and offset the builder converts to `uint32` is below `2 ^ 32`
(`lt_of_encodedSize_le`), and the records of the entries region parse back to the entries, each at its offset
(`parseEntries_append`).
-/

set_option autoImplicit false

namespace Tektite.SST

/-- Where the `i`-th entry starts in the table. -/
def entryOffset (kvs : List KV) (i : Nat) : Nat := 5 + ((kvs.take i).map recordLen).sum

/-- The entries with the position of each, the first at `o`. -/
def withOffsets : Nat → List KV → List (Nat × KV)
  | _, [] => []
  | o, kv :: kvs => (o, kv) :: withOffsets (o + recordLen kv) kvs

@[simp] theorem map_snd_withOffsets : ∀ (o : Nat) (kvs : List KV), (withOffsets o kvs).map Prod.snd = kvs
  | _, [] => rfl
  | _, _ :: kvs => congrArg _ (map_snd_withOffsets _ kvs)

@[simp] theorem length_withOffsets (o : Nat) (kvs : List KV) : (withOffsets o kvs).length = kvs.length := by
  have := congrArg List.length (map_snd_withOffsets o kvs)
  rwa [List.length_map] at this

theorem getElem_withOffsets_fst : ∀ (o : Nat) (kvs : List KV) (i : Nat) (hi : i < (withOffsets o kvs).length),
    ((withOffsets o kvs)[i]).1 = o + ((kvs.take i).map recordLen).sum
  | _, [], _, hi => by simp at hi
  | o, kv :: kvs, 0, _ => by simp [withOffsets]
  | o, kv :: kvs, i + 1, hi => by
    simp only [withOffsets, List.getElem_cons_succ, List.take_succ_cons, List.map_cons, List.sum_cons]
    rw [getElem_withOffsets_fst _ kvs i (by simpa [withOffsets] using hi)]
    omega

/-! ## Sizes -/

theorem recordLen_le_sum {kvs : List KV} {kv : KV} (h : kv ∈ kvs) : recordLen kv ≤ (kvs.map recordLen).sum :=
  List.le_sum_of_mem (List.mem_map_of_mem _ h)

theorem entryOffset_le (kvs : List KV) (i : Nat) : entryOffset kvs i ≤ 5 + (kvs.map recordLen).sum := by
  have := List.sum_take_add_sum_drop (kvs.map recordLen) i
  rw [entryOffset, List.map_take]; omega

/-- **No `uint32` conversion of the builder truncates** once the table fits the 32-bit offsets: the key and value
lengths, the entry offsets, the counts and the longest key length are all below `2 ^ 32`. -/
theorem lt_of_encodedSize_le {kvs : List KV} (h : encodedSize kvs ≤ maxUint32) :
    (∀ kv ∈ kvs, kv.key.length < 2 ^ 32 ∧ kv.value.length < 2 ^ 32) ∧ (∀ i, entryOffset kvs i < 2 ^ 32) ∧
      kvs.length < 2 ^ 32 ∧ maxKeyLen kvs < 2 ^ 32 ∧ numDeletesOf kvs < 2 ^ 32 := by
  have hs : 5 + (kvs.map recordLen).sum + kvs.length * (maxKeyLen kvs + 4) ≤ 2 ^ 32 - 1 := h
  have hn : kvs.length * 4 ≤ kvs.length * (maxKeyLen kvs + 4) := Nat.mul_le_mul_left _ (by omega)
  have hd : numDeletesOf kvs ≤ kvs.length := List.countP_le_length _
  refine ⟨fun kv hkv => ?_, fun i => by have := entryOffset_le kvs i; omega, by omega, ?_, by omega⟩
  · have := recordLen_le_sum hkv; simp only [recordLen] at this; omega
  · rcases foldMax_eq (fun kv => kv.key.length) 0 kvs with h0 | ⟨kv, hkv, hm⟩
    · rw [maxKeyLen, h0]; omega
    · have := recordLen_le_sum hkv; simp only [recordLen] at this; rw [maxKeyLen, ← hm]; omega

/-! ## The index region -/

theorem drop_indexRegion {m : Nat} :
    ∀ (o : Nat) (kvs : List KV) (i : Nat), (∀ kv ∈ kvs, kv.key.length ≤ m) →
      (indexRegion m o kvs).drop (i * (m + 4)) = indexRegion m (o + ((kvs.take i).map recordLen).sum) (kvs.drop i)
  | o, [], i, _ => by simp [indexRegion]
  | o, kv :: kvs, 0, _ => by simp
  | o, kv :: kvs, i + 1, h => by
    have hp : (Bytes.pad m kv.key ++ le32 o).length = m + 4 := by
      simp [Bytes.length_pad (h kv (by simp))]
    rw [Nat.add_one_mul, Nat.add_comm, ← List.drop_drop, indexRegion, List.drop_left' hp,
      drop_indexRegion _ kvs i fun x hx => h x (by simp [hx])]
    simp [Nat.add_assoc]

/-- Index record `i` is the `i`-th key padded to `m` bytes and the offset of the `i`-th entry. -/
theorem indexRecord_eq {m o : Nat} {kvs : List KV} (h : ∀ kv ∈ kvs, kv.key.length ≤ m) {i : Nat}
    (hi : i < kvs.length) :
    ((indexRegion m o kvs).drop (i * (m + 4))).take (m + 4) =
      Bytes.pad m kvs[i].key ++ le32 (o + ((kvs.take i).map recordLen).sum) := by
  rw [drop_indexRegion o kvs i h, List.drop_eq_getElem_cons hi, indexRegion,
    List.take_left' (by simp [Bytes.length_pad (h _ (List.getElem_mem hi))])]

/-! ## The entries region -/

/-- Reads the length-prefixed key and value at `pos`. -/
def readEntry (data : List UInt8) (pos : Nat) : Option KV := do
  let (keyLen, pos) ← readUint32FromBufferLE data pos
  let key ← slice data pos (pos + keyLen.toNat)
  let (valueLen, pos) ← readUint32FromBufferLE data (pos + keyLen.toNat)
  let value ← slice data pos (pos + valueLen.toNat)
  pure ⟨key, value⟩

/-- Reads the records of an entries region from `pos` up to `stop`, each with the position it starts at. -/
def parseEntries (data : List UInt8) (pos stop : Nat) : Option (List (Nat × KV)) :=
  if _h : pos < stop then
    match readEntry data pos with
    | none => none
    | some kv => (parseEntries data (pos + recordLen kv) stop).map ((pos, kv) :: ·)
  else if pos = stop then some [] else none
termination_by stop - pos
decreasing_by simp [recordLen]; omega

theorem readEntry_append (pre rest : List UInt8) {kv : KV} (hk : kv.key.length < 2 ^ 32)
    (hv : kv.value.length < 2 ^ 32) : readEntry (pre ++ encodeEntry kv ++ rest) pre.length = some kv := by
  have e₁ := readUint32FromBufferLE_of_eq pre.length
    (show pre ++ encodeEntry kv ++ rest = pre ++ le32 kv.key.length ++ (kv.key ++ le32 kv.value.length ++ kv.value
      ++ rest) by simp [encodeEntry]) rfl
  have e₂ := slice_of_eq (pre.length + 4) (pre.length + 4 + kv.key.length)
    (show pre ++ encodeEntry kv ++ rest = (pre ++ le32 kv.key.length) ++ kv.key ++ (le32 kv.value.length ++ kv.value
      ++ rest) by simp [encodeEntry]) (by simp) rfl
  have e₃ := readUint32FromBufferLE_of_eq (pre.length + 4 + kv.key.length)
    (show pre ++ encodeEntry kv ++ rest = (pre ++ le32 kv.key.length ++ kv.key) ++ le32 kv.value.length ++ (kv.value
      ++ rest) by simp [encodeEntry]) (by simp; omega)
  have e₄ := slice_of_eq (pre.length + 4 + kv.key.length + 4)
    (pre.length + 4 + kv.key.length + 4 + kv.value.length)
    (show pre ++ encodeEntry kv ++ rest = (pre ++ le32 kv.key.length ++ kv.key ++ le32 kv.value.length) ++ kv.value
      ++ rest by simp [encodeEntry]) (by simp; omega) rfl
  have hk' : (UInt32.ofNat kv.key.length).toNat = kv.key.length := Nat.mod_eq_of_lt hk
  have hv' : (UInt32.ofNat kv.value.length).toNat = kv.value.length := Nat.mod_eq_of_lt hv
  generalize pre ++ encodeEntry kv ++ rest = buff at *
  simp [readEntry, e₁, e₂, e₃, e₄, hk', hv', -toNat_ofNat_u32]

/-- **The entries region parses back.** -/
theorem parseEntries_append (rest : List UInt8) :
    ∀ (pre : List UInt8) (kvs : List KV), (∀ kv ∈ kvs, kv.key.length < 2 ^ 32 ∧ kv.value.length < 2 ^ 32) →
      parseEntries (pre ++ entriesRegion kvs ++ rest) pre.length (pre.length + (entriesRegion kvs).length) =
        some (withOffsets pre.length kvs)
  | pre, [], _ => by rw [parseEntries]; simp [withOffsets]
  | pre, kv :: kvs, h => by
    obtain ⟨hk, hv⟩ := h kv (by simp)
    have hr := readEntry_append pre (entriesRegion kvs ++ rest) hk hv
    have ih := parseEntries_append rest (pre ++ encodeEntry kv) kvs fun x hx => h x (by simp [hx])
    simp only [entriesRegion_cons, List.append_assoc, List.length_append, length_encodeEntry,
      length_entriesRegion, Nat.add_assoc] at hr ih ⊢
    rw [parseEntries, dif_pos (by simp [recordLen]), hr]
    simp [ih, withOffsets]

/-! ## The layout -/

theorem build_data (format : UInt8) (now : UInt64) (kvs : List KV) :
    (build format now kvs).table.data =
      [format] ++ le32 (encodedSize kvs) ++ entriesRegion kvs ++ indexRegion (maxKeyLen kvs) 5 kvs := rfl

/-- The bytes of a table `t` built from the entries `kvs` with format byte `format`. -/
structure WireLayout (format : UInt8) (kvs : List KV) (t : SSTable) : Prop where
  /-- The format byte, the table's length, the entries region, and the index region. -/
  data_eq : t.data = [format] ++ le32 t.data.length ++ entriesRegion kvs ++ indexRegion (maxKeyLen kvs) 5 kvs
  indexOffset_eq : t.indexOffset.toNat = 5 + (entriesRegion kvs).length
  maxKeyLength_eq : t.maxKeyLength.toNat = maxKeyLen kvs
  /-- Index record `i` sits at stride `maxKeyLen kvs + 4` and holds the padded key and the offset of entry `i`. -/
  indexRecord : ∀ i (hi : i < kvs.length),
    ((t.data.drop (t.indexOffset.toNat + i * (maxKeyLen kvs + 4))).take (maxKeyLen kvs + 4) =
      Bytes.pad (maxKeyLen kvs) kvs[i].key ++ le32 (entryOffset kvs i))
  /-- Every value the builder converts to `uint32` is below `2 ^ 32`. -/
  length_le : t.data.length ≤ maxUint32
  entry_lengths_lt : ∀ kv ∈ kvs, kv.key.length < 2 ^ 32 ∧ kv.value.length < 2 ^ 32
  entryOffset_lt : ∀ i, entryOffset kvs i < 2 ^ 32
  counts_lt : kvs.length < 2 ^ 32 ∧ maxKeyLen kvs < 2 ^ 32 ∧ numDeletesOf kvs < 2 ^ 32
  /-- The records from offset 5 up to the index region parse back to the entries, the `i`-th at `entryOffset kvs i`. -/
  parse : ∃ ps, parseEntries t.data 5 t.indexOffset.toNat = some ps ∧ ps.map Prod.snd = kvs ∧
    ∀ i (hi : i < ps.length), ps[i].1 = entryOffset kvs i

theorem wireLayout_build (format : UInt8) (now : UInt64) {kvs : List KV} (hs : encodedSize kvs ≤ maxUint32) :
    WireLayout format kvs (build format now kvs).table := by
  obtain ⟨hkv, hoff, hn, hm, hd⟩ := lt_of_encodedSize_le hs
  have hlen := length_build_data format now kvs
  have hE : 5 + (entriesRegion kvs).length ≤ encodedSize kvs := by simp [encodedSize]
  have hio : (build format now kvs).table.indexOffset.toNat = 5 + (entriesRegion kvs).length :=
    Nat.mod_eq_of_lt (by unfold maxUint32 at hs; omega)
  have hP : ([format] ++ le32 (encodedSize kvs) ++ entriesRegion kvs).length = 5 + (entriesRegion kvs).length := by
    simp only [List.length_append, List.length_singleton, length_le32]
  refine ⟨by rw [hlen]; rfl, hio, Nat.mod_eq_of_lt hm, fun i hi => ?_, by rw [hlen]; exact hs, hkv, hoff,
    ⟨hn, hm, hd⟩, withOffsets 5 kvs, ?_, map_snd_withOffsets 5 kvs, getElem_withOffsets_fst 5 kvs⟩
  · rw [hio, build_data, ← hP, List.drop_append, indexRecord_eq (fun _ => length_le_maxKeyLen) hi]
    rfl
  · rw [hio, build_data]
    exact parseEntries_append (indexRegion (maxKeyLen kvs) 5 kvs) ([format] ++ le32 (encodedSize kvs)) kvs hkv

/-- **The wire layout of a built table.** -/
theorem buildSSTable_layout {format : UInt8} {bs es : Int} {now : UInt64} {kvs : List KV} {r : BuildResult}
    (h : buildSSTable format bs es now (.ofList kvs) = .ok r) : WireLayout format kvs r.table := by
  obtain ⟨-, hs, rfl⟩ := buildSSTable_ofList_ok h
  exact wireLayout_build format now hs

/-- Two entries, the second key one byte longer. -/
def twoEntries : List KV := [⟨[1, 1, 1, 1, 1, 1, 1, 1], []⟩, ⟨[2, 2, 2, 2, 2, 2, 2, 2, 2], [7]⟩]

theorem buildSSTable_layout_twoEntries :
    buildSSTable 3 64 2 0 (.ofList twoEntries) = .ok (build 3 0 twoEntries) ∧
      WireLayout 3 twoEntries (build 3 0 twoEntries).table :=
  have h : buildSSTable 3 64 2 0 (.ofList twoEntries) = .ok (build 3 0 twoEntries) := by decide
  ⟨h, buildSSTable_layout h⟩

end Tektite.SST
