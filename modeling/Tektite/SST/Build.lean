import Tektite.Bytes
import Tektite.Encoding
import Tektite.Iteration

/-!
# `BuildSSTable`

The builder of `sst/sstable.go`, as the source computes it. It first makes its two slices with the capacities the
caller estimates; Go's `make` panics on a negative capacity or one above the runtime's allocation limit
(`makeSlice`, `EstimatesFit`). The `for` loop over the iterator is `buildLoop`; its
body is `BuildState.step`, which checks that the key is above the previous one, slices off the key's eight-byte
version suffix (a panic on a shorter key), and then appends the entry with length prefixes and updates the running
statistics (`BuildState.add`). After the loop the index region is appended record by record
(`appendIndexEntry`), the total length is checked against `math.MaxUint32`, and bytes 1 to 4 of the buffer are
set to that length (`setMetadataOffset`).
-/

set_option autoImplicit false

namespace Tektite.SST

/-- Go's `math.MaxUint32`. -/
def maxUint32 : Nat := 2 ^ 32 - 1

/-- Go's `math.MaxUint64`. -/
def maxUint64 : Nat := 2 ^ 64 - 1

/-- `SSTable`. -/
structure SSTable where
  format : UInt8
  maxKeyLength : UInt32
  numEntries : UInt32
  numDeletes : UInt32
  indexOffset : UInt32
  creationTime : UInt64
  data : List UInt8
deriving DecidableEq, Repr

/-- `indexEntry`, local to `BuildSSTable`. -/
structure IndexEntry where
  key : List UInt8
  offset : UInt32
deriving DecidableEq, Repr

/-- `appendBytesWithLengthPrefix`. -/
def appendBytesWithLengthPrefix (buff bytes : List UInt8) : List UInt8 :=
  appendUint32ToBufferLE buff (UInt32.ofNat bytes.length) ++ bytes

/-- The local variables of `BuildSSTable` that its loop updates; a `nil` key is `none` or `[]`. -/
structure BuildState where
  buff : List UInt8
  indexEntries : List IndexEntry
  maxVersion : Nat
  minVersion : Nat
  maxKeyLength : Nat
  numEntries : Nat
  numDeletes : Nat
  first : Bool
  prevKey : Option (List UInt8)
  smallestKey : List UInt8
  largestKey : List UInt8
deriving DecidableEq, Repr

namespace BuildState

/-- The variables before the loop: the format byte, then four bytes for the metadata offset. -/
def init (format : UInt8) : BuildState where
  buff := [format, 0, 0, 0, 0]
  indexEntries := []
  maxVersion := 0
  minVersion := maxUint64
  maxKeyLength := 0
  numEntries := 0
  numDeletes := 0
  first := true
  prevKey := none
  smallestKey := []
  largestKey := []

/-- `prevKey != nil && bytes.Compare(prevKey, kv.Key) >= 0`. -/
def outOfOrder (prevKey : Option (List UInt8)) (key : List UInt8) : Bool :=
  match prevKey with
  | none => false
  | some p => Bytes.compare p key != .lt

/-- The loop body past its order check, for an entry whose key has version `version`. -/
def add (st : BuildState) (kv : KV) (version : Nat) : BuildState where
  prevKey := some kv.key
  smallestKey := if st.first then kv.key else st.smallestKey
  first := false
  maxKeyLength := if kv.key.length > st.maxKeyLength then kv.key.length else st.maxKeyLength
  buff := appendBytesWithLengthPrefix (appendBytesWithLengthPrefix st.buff kv.key) kv.value
  indexEntries := st.indexEntries ++ [⟨kv.key, UInt32.ofNat st.buff.length⟩]
  numEntries := st.numEntries + 1
  numDeletes := if kv.value.length = 0 then st.numDeletes + 1 else st.numDeletes
  largestKey := kv.key
  maxVersion := if version > st.maxVersion then version else st.maxVersion
  minVersion := if version < st.minVersion then version else st.minVersion

/-- The loop body on the entry `kv`. The source slices the version suffix after it has appended the entry; a panic
there discards what the body built, so the slice is taken first here. -/
def step (st : BuildState) (kv : KV) : Outcome BuildState :=
  if outOfOrder st.prevKey kv.key then .panic "keys not in order / contains duplicates"
  else
    match slice kv.key ((kv.key.length : Int) - 8) kv.key.length with
    | none => .panic "runtime error: slice bounds out of range"
    | some suffix => .ok (st.add kv (maxUint64 - bigEndianUint64 suffix))

end BuildState

/-- The `for` loop of `BuildSSTable`. -/
def buildLoop (st : BuildState) : Iterator → Outcome BuildState
  | .done => .ok st
  | .invalid err => .error err
  | .next kv rest => (st.step kv).bind fun st => buildLoop st rest
  | .nextFails kv err => (st.step kv).bind fun _ => .error err

/-- One pass of the loop that writes the index region: the key, zero padding up to `maxKeyLength`, and the offset
of the entry. Both ways the source extends the buffer for the padding give zero bytes, since the capacity it
reslices into was never written. -/
def appendIndexEntry (maxKeyLength : Nat) (buff : List UInt8) (entry : IndexEntry) : List UInt8 :=
  let buff := buff ++ entry.key
  let paddingBytes : Int := maxKeyLength - entry.key.length
  let buff := if paddingBytes > 0 then buff ++ List.replicate paddingBytes.toNat 0 else buff
  appendUint32ToBufferLE buff entry.offset

/-- `buff[1] = byte(metadataOffset)` up to `buff[4] = byte(metadataOffset >> 24)`. -/
def setMetadataOffset (buff : List UInt8) (metadataOffset : Nat) : List UInt8 :=
  (((buff.set 1 (UInt8.ofNat metadataOffset)).set 2 (UInt8.ofNat (metadataOffset >>> 8))).set 3
    (UInt8.ofNat (metadataOffset >>> 16))).set 4 (UInt8.ofNat (metadataOffset >>> 24))

/-- What `BuildSSTable` returns besides its error. -/
structure BuildResult where
  table : SSTable
  smallestKey : List UInt8
  largestKey : List UInt8
  minVersion : Nat
  maxVersion : Nat
deriving DecidableEq, Repr

/-- The part of `BuildSSTable` after its loop: the index region, the size check, the metadata offset, and the
results. -/
def BuildState.finish (st : BuildState) (format : UInt8) (now : UInt64) : Outcome BuildResult :=
  let indexOffset := st.buff.length
  let buff := st.indexEntries.foldl (appendIndexEntry st.maxKeyLength) st.buff
  let metadataOffset := buff.length
  if metadataOffset > maxUint32 then .error "SSTable too big"
  else
    .ok { table := { format := format
                     maxKeyLength := UInt32.ofNat st.maxKeyLength
                     numEntries := UInt32.ofNat st.numEntries
                     numDeletes := UInt32.ofNat st.numDeletes
                     indexOffset := UInt32.ofNat indexOffset
                     creationTime := now
                     data := setMetadataOffset buff metadataOffset }
          smallestKey := st.smallestKey
          largestKey := st.largestKey
          minVersion := st.minVersion
          maxVersion := st.maxVersion }

/-! ## Go's `make` -/

/-- The runtime's `maxAlloc` on 64-bit Linux, `1 << 48`: the most bytes one allocation may ask for. -/
def maxAlloc : Nat := 2 ^ 48

/-- Whether `make([]T, 0, c)`, for elements of `size` bytes, allocates. `runtime.makeslice` panics when
`uintptr(c) * size` overflows or exceeds `maxAlloc`; a negative `int` converts to at least `2 ^ 63`, so for a
positive `size` that is when `c < 0` or `size * c > maxAlloc`. -/
def MakeSliceFits (size : Nat) (c : Int) : Prop := 0 ≤ c ∧ size * c.toNat ≤ maxAlloc

instance (size : Nat) (c : Int) : Decidable (MakeSliceFits size c) := inferInstanceAs (Decidable (_ ∧ _))

/-- `make([]T, 0, c)` for elements of `size` bytes: a panic, or an empty slice, whose capacity the model does not
keep. An allocation below `maxAlloc` that memory cannot hold ends the process with a fatal error, not a panic, and
is outside the model. -/
def makeSlice (size : Nat) (c : Int) : Outcome Unit :=
  if MakeSliceFits size c then .ok () else .panic "runtime error: makeslice: cap out of range"

/-- The size of `indexEntry` on 64-bit platforms: a slice header of three words and a `uint32`, padded to a
multiple of eight. -/
def indexEntrySize : Nat := 32

/-- The capacity estimates for which both `make` calls of `BuildSSTable` allocate. -/
def EstimatesFit (buffSizeEstimate entriesEstimate : Int) : Prop :=
  MakeSliceFits indexEntrySize entriesEstimate ∧ MakeSliceFits 1 buffSizeEstimate

instance (buffSizeEstimate entriesEstimate : Int) : Decidable (EstimatesFit buffSizeEstimate entriesEstimate) :=
  inferInstanceAs (Decidable (_ ∧ _))

/-- `BuildSSTable`, with `now` the reading of `uint64(time.Now().UTC().UnixMilli())`: `make` for `indexEntries`,
then for `buff`, then the loop and what follows it. -/
def buildSSTable (format : UInt8) (buffSizeEstimate entriesEstimate : Int) (now : UInt64) (iter : Iterator) :
    Outcome BuildResult :=
  (makeSlice indexEntrySize entriesEstimate).bind fun _ =>
    (makeSlice 1 buffSizeEstimate).bind fun _ =>
      (buildLoop (.init format) iter).bind fun st => st.finish format now

end Tektite.SST
