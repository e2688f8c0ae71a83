import Tektite.SST.Contract

/-!
# `Serialize` and `Deserialize`

`SSTable.serialize` appends the 24-byte metadata to the table's data; `SSTable.deserialize` reads the format byte at
its offset, follows the metadata offset stored in the table's header, reads the metadata there, and keeps the
buffer up to the metadata as the data.

A table serialized alone decodes to itself, and decoding returns the offset past it (`deserialize_serialize`). The
metadata offset in the header is relative to the table while `Deserialize` uses it as a position in the whole
buffer, and the data is cut from the start of the buffer: behind a prefix `p`, decoding keeps the format but takes
`p ++ data` as the data, reads the metadata from inside the data, and returns the offset it would return without
`p` (`deserialize_append_serialize`). For the same reason, bytes after the table end up in the data: followed by
`q`, a table decodes with its metadata and end offset right but with the buffer up to its last 24 bytes as the
data, which is the table's data only when `q` is empty (`deserialize_serialize_append`).
-/

set_option autoImplicit false

namespace Tektite.SST

namespace SSTable

/-- `Serialize`: the data followed by the metadata. -/
def serialize (s : SSTable) : List UInt8 :=
  let buff := appendUint32ToBufferLE s.data s.maxKeyLength
  let buff := appendUint32ToBufferLE buff s.numEntries
  let buff := appendUint32ToBufferLE buff s.numDeletes
  let buff := appendUint32ToBufferLE buff s.indexOffset
  appendUint64ToBufferLE buff s.creationTime

/-- `Deserialize` from `offset` on. It overwrites every field of its receiver, so it returns a new table with the
offset; it panics (`none`) where a read leaves the buffer. -/
def deserialize (buff : List UInt8) (offset : Int) : Option (SSTable × Int) := do
  let format ← index buff offset
  let offset := offset + 1
  let (metadataOffset, _) ← readUint32FromBufferLE buff offset
  let offset : Int := metadataOffset.toNat
  let (maxKeyLength, offset) ← readUint32FromBufferLE buff offset
  let (numEntries, offset) ← readUint32FromBufferLE buff offset
  let (numDeletes, offset) ← readUint32FromBufferLE buff offset
  let (indexOffset, offset) ← readUint32FromBufferLE buff offset
  let (creationTime, offset) ← readUint64FromBufferLE buff offset
  let data ← slice buff 0 (buff.length - 24)
  pure (⟨format, maxKeyLength, numEntries, numDeletes, indexOffset, creationTime, data⟩, offset)

/-- `SizeBytes`. -/
def sizeBytes (s : SSTable) : Nat := s.data.length + 24

/-- The metadata `Serialize` appends. -/
def metadata (s : SSTable) : List UInt8 :=
  le32 s.maxKeyLength.toNat ++ le32 s.numEntries.toNat ++ le32 s.numDeletes.toNat ++ le32 s.indexOffset.toNat ++
    le64 s.creationTime.toNat

theorem serialize_eq (s : SSTable) : s.serialize = s.data ++ s.metadata := by
  simp [serialize, metadata]

@[simp] theorem length_metadata (s : SSTable) : s.metadata.length = 24 := by simp [metadata]

theorem length_serialize (s : SSTable) : s.serialize.length = s.sizeBytes := by
  simp [serialize_eq, sizeBytes]

end SSTable

open SSTable

/-- The header a built table starts with: its format byte and its length. -/
def HasHeader (s : SSTable) : Prop :=
  ∃ rest, s.data = [s.format] ++ le32 s.data.length ++ rest

theorem index_append_cons (p rest : List UInt8) (b : UInt8) : index (p ++ b :: rest) p.length = some b := by
  simp only [index, Int.toNat_ofNat, if_pos (Int.ofNat_nonneg _)]
  rw [List.getElem?_append_right (le_refl _)]
  simp

theorem readUint32FromBufferLE_of_le {buff : List UInt8} {pos : Int} (h₀ : 0 ≤ pos) (h : pos + 4 ≤ buff.length) :
    ∃ v, readUint32FromBufferLE buff pos = some (v, pos + 4) := ⟨_, if_pos ⟨h₀, h⟩⟩

theorem readUint64FromBufferLE_of_le {buff : List UInt8} {pos : Int} (h₀ : 0 ≤ pos) (h : pos + 8 ≤ buff.length) :
    ∃ v, readUint64FromBufferLE buff pos = some (v, pos + 8) := ⟨_, if_pos ⟨h₀, h⟩⟩

/-- The format byte and the metadata offset of a table with its header, at `|p|` behind a prefix `p`. -/
theorem header_reads (p : List UInt8) {s : SSTable} (hs : HasHeader s) :
    index (p ++ s.serialize) p.length = some s.format ∧
      readUint32FromBufferLE (p ++ s.serialize) (p.length + 1) =
        some (UInt32.ofNat s.data.length, (p.length : Int) + 1 + 4) := by
  obtain ⟨rest, hr⟩ := hs
  have hb : p ++ s.serialize = p ++ [s.format] ++ le32 s.data.length ++ (rest ++ s.metadata) := by
    rw [serialize_eq]; conv_lhs => rw [hr]
    simp
  rw [hb]
  exact ⟨by simpa using index_append_cons p (le32 s.data.length ++ (rest ++ s.metadata)) s.format,
    readUint32FromBufferLE_of_eq _ rfl (by simp)⟩

theorem slice_data (p : List UInt8) (s : SSTable) :
    slice (p ++ s.serialize) 0 ((p ++ s.serialize).length - 24) = some (p ++ s.data) :=
  slice_of_eq _ _ (show p ++ s.serialize = [] ++ (p ++ s.data) ++ s.metadata by simp [serialize_eq]) rfl
    (by simp [length_serialize, sizeBytes]; omega)

/-- `Deserialize` in terms of its reads: the format byte, the metadata offset, the five metadata fields from there
on, and the data up to the last 24 bytes. -/
theorem deserialize_of_reads {buff : List UInt8} {offset : Int} {format : UInt8} {mo mkl ne nd io : UInt32}
    {ct : UInt64} {data : List UInt8} {x o₂ o₃ o₄ o₅ o₆ : Int}
    (h₀ : index buff offset = some format)
    (h₁ : readUint32FromBufferLE buff (offset + 1) = some (mo, x))
    (h₂ : readUint32FromBufferLE buff mo.toNat = some (mkl, o₂))
    (h₃ : readUint32FromBufferLE buff o₂ = some (ne, o₃))
    (h₄ : readUint32FromBufferLE buff o₃ = some (nd, o₄))
    (h₅ : readUint32FromBufferLE buff o₄ = some (io, o₅))
    (h₆ : readUint64FromBufferLE buff o₅ = some (ct, o₆))
    (h₇ : slice buff 0 (buff.length - 24) = some data) :
    deserialize buff offset = some (⟨format, mkl, ne, nd, io, ct, data⟩, o₆) := by
  simp only [deserialize, Option.bind_eq_bind, Option.some_bind, h₀, h₁, h₂, h₃, h₄, h₅, h₆, h₇]
  rfl

/-- The metadata reads back as the table's fields, wherever it stands in a buffer. -/
theorem metadata_reads (s : SSTable) {buff pre post : List UInt8} (h : buff = pre ++ s.metadata ++ post) :
    readUint32FromBufferLE buff pre.length = some (s.maxKeyLength, (pre.length : Int) + 4) ∧
      readUint32FromBufferLE buff ((pre.length : Int) + 4) = some (s.numEntries, (pre.length : Int) + 4 + 4) ∧
      readUint32FromBufferLE buff ((pre.length : Int) + 4 + 4) =
        some (s.numDeletes, (pre.length : Int) + 4 + 4 + 4) ∧
      readUint32FromBufferLE buff ((pre.length : Int) + 4 + 4 + 4) =
        some (s.indexOffset, (pre.length : Int) + 4 + 4 + 4 + 4) ∧
      readUint64FromBufferLE buff ((pre.length : Int) + 4 + 4 + 4 + 4) =
        some (s.creationTime, (pre.length : Int) + 4 + 4 + 4 + 4 + 8) := by
  subst h
  obtain ⟨f, mkl, ne, nd, io, ct, data⟩ := s
  simp only [metadata]
  refine ⟨?_, ?_, ?_, ?_, ?_⟩
  · simpa using readUint32FromBufferLE_append pre
      (le32 ne.toNat ++ le32 nd.toNat ++ le32 io.toNat ++ le64 ct.toNat ++ post) mkl.toNat
  · simpa using readUint32FromBufferLE_append (pre ++ le32 mkl.toNat)
      (le32 nd.toNat ++ le32 io.toNat ++ le64 ct.toNat ++ post) ne.toNat
  · simpa using readUint32FromBufferLE_append (pre ++ le32 mkl.toNat ++ le32 ne.toNat)
      (le32 io.toNat ++ le64 ct.toNat ++ post) nd.toNat
  · simpa using readUint32FromBufferLE_append (pre ++ le32 mkl.toNat ++ le32 ne.toNat ++ le32 nd.toNat)
      (le64 ct.toNat ++ post) io.toNat
  · simpa using readUint64FromBufferLE_append (pre ++ le32 mkl.toNat ++ le32 ne.toNat ++ le32 nd.toNat ++
      le32 io.toNat) post ct.toNat

/-- **What `Deserialize` does behind a prefix.** For a table with its header, after any prefix `p`, decoding at
`|p|` reads the right format byte and the metadata offset, then the metadata at that offset counted from the start
of the buffer, keeps `p ++ data` as the data, and returns the offset past the table as if `p` were empty. -/
theorem deserialize_append_serialize (p : List UInt8) {s : SSTable} (hs : HasHeader s)
    (hlen : s.data.length < 2 ^ 32) :
    ∃ t : SSTable, deserialize (p ++ s.serialize) p.length = some (t, (s.data.length : Int) + 24) ∧
      t.format = s.format ∧ t.data = p ++ s.data := by
  obtain ⟨h₀, h₁⟩ := header_reads p hs
  have hm : ((UInt32.ofNat s.data.length).toNat : Int) = s.data.length := congrArg _ (Nat.mod_eq_of_lt hlen)
  have hl : ((p ++ s.serialize).length : Int) = p.length + s.data.length + 24 := by
    simp [length_serialize, sizeBytes]; omega
  obtain ⟨a, ha⟩ := readUint32FromBufferLE_of_le (show (0 : Int) ≤ s.data.length by omega)
    (show (s.data.length : Int) + 4 ≤ (p ++ s.serialize).length by omega)
  obtain ⟨b, hb⟩ := readUint32FromBufferLE_of_le (show (0 : Int) ≤ s.data.length + 4 by omega)
    (show (s.data.length : Int) + 4 + 4 ≤ (p ++ s.serialize).length by omega)
  obtain ⟨c, hc⟩ := readUint32FromBufferLE_of_le (show (0 : Int) ≤ s.data.length + 4 + 4 by omega)
    (show (s.data.length : Int) + 4 + 4 + 4 ≤ (p ++ s.serialize).length by omega)
  obtain ⟨d, hd⟩ := readUint32FromBufferLE_of_le (show (0 : Int) ≤ s.data.length + 4 + 4 + 4 by omega)
    (show (s.data.length : Int) + 4 + 4 + 4 + 4 ≤ (p ++ s.serialize).length by omega)
  obtain ⟨e, he⟩ := readUint64FromBufferLE_of_le (show (0 : Int) ≤ s.data.length + 4 + 4 + 4 + 4 by omega)
    (show (s.data.length : Int) + 4 + 4 + 4 + 4 + 8 ≤ (p ++ s.serialize).length by omega)
  refine ⟨⟨s.format, a, b, c, d, e, p ++ s.data⟩,
    (deserialize_of_reads h₀ h₁ (by rw [hm]; exact ha) hb hc hd he (slice_data p s)).trans ?_, rfl, rfl⟩
  congr 2

/-- **Round trip**: a table with its header, serialized alone, decodes to itself, and to the offset past it. -/
theorem deserialize_serialize {s : SSTable} (hs : HasHeader s) (hlen : s.data.length < 2 ^ 32) :
    deserialize s.serialize 0 = some (s, (s.sizeBytes : Int)) := by
  obtain ⟨h₀, h₁⟩ := header_reads [] hs
  have hm : ((UInt32.ofNat s.data.length).toNat : Int) = s.data.length := congrArg _ (Nat.mod_eq_of_lt hlen)
  obtain ⟨ha, hb, hc, hd, he⟩ :=
    metadata_reads s (show s.serialize = s.data ++ s.metadata ++ [] by simp [serialize_eq])
  have hd' := slice_data [] s
  simp only [List.nil_append, List.length_nil, Nat.cast_zero, zero_add] at h₀ h₁ hd'
  refine (deserialize_of_reads h₀ h₁ (by rw [hm]; exact ha) hb hc hd he hd').trans ?_
  simp only [sizeBytes]; congr 2

theorem hasHeader_of_buildSSTable {format : UInt8} {bs es : Int} {now : UInt64} {kvs : List KV} {r : BuildResult}
    (h : buildSSTable format bs es now (.ofList kvs) = .ok r) : HasHeader r.table ∧ r.table.data.length < 2 ^ 32 := by
  obtain ⟨-, hs, rfl⟩ := buildSSTable_ofList_ok h
  have hl := wireLayout_build format now hs
  exact ⟨⟨_, by rw [hl.data_eq, List.append_assoc]; rfl⟩,
    by have := hl.length_le; unfold maxUint32 at this; omega⟩

/-- **A built table survives `Serialize` and `Deserialize`** at offset `0`, which returns the offset past it. -/
theorem buildSSTable_deserialize_serialize {format : UInt8} {bs es : Int} {now : UInt64} {kvs : List KV}
    {r : BuildResult} (h : buildSSTable format bs es now (.ofList kvs) = .ok r) :
    deserialize r.table.serialize 0 = some (r.table, (r.table.sizeBytes : Int)) :=
  deserialize_serialize (hasHeader_of_buildSSTable h).1 (hasHeader_of_buildSSTable h).2

theorem buildSSTable_deserialize_serialize_twoEntries :
    buildSSTable 3 64 2 0 (.ofList twoEntries) = .ok (build 3 0 twoEntries) ∧
      deserialize (build 3 0 twoEntries).table.serialize 0 =
        some ((build 3 0 twoEntries).table, ((build 3 0 twoEntries).table.sizeBytes : Int)) :=
  have h : buildSSTable 3 64 2 0 (.ofList twoEntries) = .ok (build 3 0 twoEntries) := by decide
  ⟨h, buildSSTable_deserialize_serialize h⟩

/-- **A built table behind a prefix**: `Deserialize` at the table's offset keeps the format, takes the prefix with
the data as its data, and returns the offset as if the table started the buffer. -/
theorem buildSSTable_deserialize_behind {format : UInt8} {bs es : Int} {now : UInt64} {kvs : List KV} {r : BuildResult}
    (h : buildSSTable format bs es now (.ofList kvs) = .ok r) (p : List UInt8) :
    ∃ t : SSTable, deserialize (p ++ r.table.serialize) p.length = some (t, (r.table.sizeBytes : Int)) ∧
      t.format = r.table.format ∧ t.data = p ++ r.table.data :=
  deserialize_append_serialize p (hasHeader_of_buildSSTable h).1 (hasHeader_of_buildSSTable h).2

theorem buildSSTable_deserialize_behind_twoEntries :
    buildSSTable 3 64 2 0 (.ofList twoEntries) = .ok (build 3 0 twoEntries) ∧
      ∃ t : SSTable, deserialize ([9] ++ (build 3 0 twoEntries).table.serialize) 1 =
        some (t, ((build 3 0 twoEntries).table.sizeBytes : Int)) ∧ t.format = 3 ∧
        t.data = [9] ++ (build 3 0 twoEntries).table.data :=
  have h : buildSSTable 3 64 2 0 (.ofList twoEntries) = .ok (build 3 0 twoEntries) := by decide
  ⟨h, buildSSTable_deserialize_behind h [9]⟩

/-- Behind the one-byte prefix `[0]`, the empty table of format `0` decodes with the index offset `1280` read from
inside the metadata, six bytes of data, and the offset `29` where the table ends at `30`. -/
theorem deserialize_behind_prefix_empty :
    buildSSTable 0 0 0 0 (.ofList []) = .ok (build 0 0 []) ∧ (build 0 0 []).table.sizeBytes = 29 ∧
      deserialize ([0] ++ (build 0 0 []).table.serialize) 1 =
        some (⟨0, 0, 0, 0, 1280, 0, [0, 0, 5, 0, 0, 0]⟩, 29) :=
  ⟨by decide, by decide, by decide⟩

/-! ## A table followed by other bytes -/

/-- Decoding keeps as the data the buffer up to its last 24 bytes: behind a table and any bytes `q`, that is the
table's data exactly when `q` is empty. -/
theorem take_serialize_append_eq_iff {s : SSTable} {q : List UInt8} :
    (s.serialize ++ q).take (s.data.length + q.length) = s.data ↔ q = [] := by
  constructor
  · intro h
    have := congrArg List.length h
    simp only [List.length_take, List.length_append, length_serialize, sizeBytes] at this
    exact List.eq_nil_of_length_eq_zero (by omega)
  · rintro rfl
    simp [serialize_eq]

/-- A table with its header at the start of a buffer, followed by any bytes `q`, decodes with every metadata field
and the offset past the table right, but with the buffer up to its last 24 bytes as its data. -/
theorem deserialize_serialize_append {s : SSTable} (hs : HasHeader s) (hlen : s.data.length < 2 ^ 32)
    (q : List UInt8) :
    deserialize (s.serialize ++ q) 0 =
      some ({ s with data := (s.serialize ++ q).take (s.data.length + q.length) }, (s.sizeBytes : Int)) := by
  obtain ⟨rest, hr⟩ := hs
  have hb : s.serialize ++ q = [s.format] ++ le32 s.data.length ++ (rest ++ s.metadata ++ q) := by
    rw [serialize_eq]; conv_lhs => rw [hr]
    simp only [List.append_assoc]
  have hm : ((UInt32.ofNat s.data.length).toNat : Int) = s.data.length := congrArg _ (Nat.mod_eq_of_lt hlen)
  have hl : (s.serialize ++ q).length = s.data.length + q.length + 24 := by
    rw [List.length_append, length_serialize, sizeBytes]; omega
  obtain ⟨ha, hb', hc, hd, he⟩ :=
    metadata_reads s (show s.serialize ++ q = s.data ++ s.metadata ++ q by rw [serialize_eq])
  have hdata := slice_of_eq 0 ((s.serialize ++ q).length - 24)
    (show s.serialize ++ q = [] ++ (s.serialize ++ q).take (s.data.length + q.length) ++
      (s.serialize ++ q).drop (s.data.length + q.length) by rw [List.nil_append, List.take_append_drop]) rfl
    (by rw [List.length_take]; omega)
  refine (deserialize_of_reads (by rw [hb]; rfl) (readUint32FromBufferLE_of_eq _ hb rfl) (by rw [hm]; exact ha) hb'
    hc hd he hdata).trans ?_
  simp only [sizeBytes]; congr 2

/-- **A built table followed by other bytes.** Decoding a table that `BuildSSTable` returned, at the start of a
buffer where any bytes `q` follow it, reads every metadata field right and returns the offset past the table, but
takes as the data everything up to the last 24 bytes of the buffer: it gives back the table exactly when nothing
follows it. -/
theorem buildSSTable_deserialize_followed {format : UInt8} {bs es : Int} {now : UInt64} {kvs : List KV}
    {r : BuildResult} (h : buildSSTable format bs es now (.ofList kvs) = .ok r) (q : List UInt8) :
    deserialize (r.table.serialize ++ q) 0 =
        some ({ r.table with data := (r.table.serialize ++ q).take (r.table.data.length + q.length) },
          (r.table.sizeBytes : Int)) ∧
      ((deserialize (r.table.serialize ++ q) 0).map Prod.fst = some r.table ↔ q = []) := by
  have hd := deserialize_serialize_append (hasHeader_of_buildSSTable h).1 (hasHeader_of_buildSSTable h).2 q
  refine ⟨hd, ?_⟩
  rw [hd, Option.map_some', Option.some_inj, ← take_serialize_append_eq_iff (s := r.table)]
  exact ⟨congrArg SSTable.data, fun hq => by rw [hq]⟩

theorem buildSSTable_deserialize_followed_twoEntries :
    buildSSTable 3 64 2 0 (.ofList twoEntries) = .ok (build 3 0 twoEntries) ∧
      deserialize ((build 3 0 twoEntries).table.serialize ++ [9]) 0 =
          some ({ (build 3 0 twoEntries).table with
            data := ((build 3 0 twoEntries).table.serialize ++ [9]).take
              ((build 3 0 twoEntries).table.data.length + [9].length) },
            ((build 3 0 twoEntries).table.sizeBytes : Int)) ∧
        ((deserialize ((build 3 0 twoEntries).table.serialize ++ [9]) 0).map Prod.fst =
          some (build 3 0 twoEntries).table ↔ ([9] : List UInt8) = []) :=
  have h : buildSSTable 3 64 2 0 (.ofList twoEntries) = .ok (build 3 0 twoEntries) := by decide
  ⟨h, buildSSTable_deserialize_followed h [9]⟩

end Tektite.SST
