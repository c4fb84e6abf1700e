import OzoneRust.Types

/-!
# Messages to a datanode

The messages of the protocol between gateways and datanodes, as far as the handlers of a
datanode read them, and `conv.rs`, which turns them into domain values. A number on the wire
can be out of the range of its domain type, a nested message can be absent and an enumeration
can have any number, so the conversion fails with an error that names the field. The other
direction never fails, and what a client sends is what the datanode gets, up to the order of the
metadata (`OzoneRust.BlockData.ofWire_toWire_sorted` and the lemmas before it).

Request ids, leases, stripe checksums and the flags no handler looks at are left out.
-/

namespace OzoneRust

/-! ### Errors -/

/-- The errors of `EcReplicationConfig::validate`. -/
inductive EcConfigError where
  /-- The number of data shards. -/
  | data (n : UInt8)
  /-- The number of parity shards. -/
  | parity (n : UInt8)
  /-- The size of a cell. -/
  | chunkSize
  deriving DecidableEq, Repr

/-- The errors of `conv.rs`. -/
inductive ConversionError where
  /-- A nested message is absent. -/
  | missingField (field : String)
  /-- A number that means nothing. -/
  | badEnum (field : String) (value : Int32)
  /-- A number that is too large. -/
  | outOfRange (field : String) (value : UInt32)
  /-- A configuration that is not valid. -/
  | ecConfig (e : EcConfigError)
  /-- An unknown codec. -/
  | codec (name : String)
  deriving DecidableEq, Repr

/-! ### Messages -/

/-- `BlockID`. -/
structure WireBlockId where
  /-- The container. -/
  containerId : UInt64
  /-- The id within the container. -/
  localId : UInt64
  /-- The replica slot. -/
  replicaIndex : UInt32
  deriving DecidableEq, Repr

/-- `ECReplicationConfig`. -/
structure WireEcConfig where
  /-- Data shards per stripe. -/
  data : UInt32
  /-- Parity shards per stripe. -/
  parity : UInt32
  /-- Bytes per cell. -/
  ecChunkSize : UInt32
  /-- The codec. -/
  codec : String
  deriving DecidableEq, Repr

/-- `ChecksumData`. -/
structure WireChecksumData where
  /-- The algorithm. -/
  ty : Int32
  /-- The window size. -/
  bytesPerChecksum : UInt32
  /-- The digests. -/
  checksums : List Bytes
  deriving DecidableEq, Repr

/-- `ChunkInfo`. -/
structure WireChunkInfo where
  /-- The name. -/
  chunkName : String
  /-- The offset within the block. -/
  offset : UInt64
  /-- The length in bytes. -/
  len : UInt64
  /-- The digests, if any. -/
  checksumData : Option WireChecksumData
  deriving DecidableEq, Repr

/-- `BlockData`; a map is its entries, in the order it is iterated in. -/
structure WireBlockData where
  /-- The block. -/
  blockId : Option WireBlockId
  /-- Its chunks. -/
  chunks : List WireChunkInfo
  /-- Free-form metadata. -/
  metadata : List (String × String)
  deriving DecidableEq, Repr

/-! ### From the wire -/

/-- `u8::try_from` of a field. -/
def u8OfWire (field : String) (value : UInt32) : Except ConversionError UInt8 :=
  if value.toNat < 256 then .ok value.toUInt8 else .error (.outOfRange field value)

/-- `BlockId::try_from`. -/
def BlockId.ofWire (w : WireBlockId) : Except ConversionError BlockId := do
  let replica ← u8OfWire "BlockId.replica_index" w.replicaIndex
  return ⟨w.containerId, w.localId, replica⟩

/-- `EcReplicationConfig::validate`, with its errors. -/
def EcReplicationConfig.check (ec : EcReplicationConfig) : Except EcConfigError Unit :=
  if ec.data = 0 ∨ 32 < ec.data then .error (.data ec.data)
  else if ec.parity = 0 ∨ 32 < ec.parity then .error (.parity ec.parity)
  else if ec.ecChunkSize = 0 then .error .chunkSize
  else .ok ()

/-- A configuration that has passed the checks, as in `EcReplicationConfig::new`. -/
def EcReplicationConfig.checked (ec : EcReplicationConfig) :
    Except ConversionError EcReplicationConfig :=
  match ec.check with
  | .error e => .error (.ecConfig e)
  | .ok _ => .ok ec

/-- `EcReplicationConfig::try_from`. -/
def EcReplicationConfig.ofWire (w : WireEcConfig) : Except ConversionError EcReplicationConfig :=
  match EcCodec.fromStr w.codec with
  | none => .error (.codec w.codec)
  | some codec => do
    let data ← u8OfWire "EcReplicationConfig.data" w.data
    let parity ← u8OfWire "EcReplicationConfig.parity" w.parity
    EcReplicationConfig.checked ⟨data, parity, w.ecChunkSize, codec⟩

/-- `ChecksumType::try_from` of a number. -/
def ChecksumType.ofWire (value : Int32) : Except ConversionError ChecksumType :=
  if value = 1 then .ok .crc32
  else if value = 2 then .ok .crc32c
  else if value = 3 then .ok .sha256
  else if value = 4 then .ok .md5
  else if value = 5 then .ok .none
  else .error (.badEnum "ChecksumData.type" value)

/-- `ChecksumData::try_from`. -/
def ChecksumData.ofWire (w : WireChecksumData) : Except ConversionError ChecksumData := do
  let ty ← ChecksumType.ofWire w.ty
  return ⟨ty, w.bytesPerChecksum, w.checksums⟩

/-- `ChunkInfo::try_from`. -/
def ChunkInfo.ofWire (w : WireChunkInfo) : Except ConversionError ChunkInfo :=
  match w.checksumData with
  | none => .ok ⟨w.chunkName, w.offset, w.len, none⟩
  | some cd => do
    let cd ← ChecksumData.ofWire cd
    return ⟨w.chunkName, w.offset, w.len, some cd⟩

/-- `BTreeMap::from_iter`. -/
def Metadata.ofEntries (entries : List (String × String)) : Metadata :=
  entries.foldl (fun m e => m.insert e.1 e.2) []

/-- `BlockData::try_from`. -/
def BlockData.ofWire (w : WireBlockData) : Except ConversionError BlockData :=
  match w.blockId with
  | none => .error (.missingField "BlockData.block_id")
  | some id => do
    let id ← BlockId.ofWire id
    let chunks ← w.chunks.mapM ChunkInfo.ofWire
    return ⟨id, chunks, .ofEntries w.metadata⟩

/-! ### To the wire -/

/-- `wire::BlockId::from`. -/
def BlockId.toWire (b : BlockId) : WireBlockId :=
  ⟨b.container, b.localId, b.replicaIndex.toUInt32⟩

/-- `wire::EcReplicationConfig::from`. -/
def EcReplicationConfig.toWire (ec : EcReplicationConfig) : WireEcConfig :=
  ⟨ec.data.toUInt32, ec.parity.toUInt32, ec.ecChunkSize, match ec.codec with | .rs => "RS"⟩

/-- `wire::ChecksumType::from`, as a number. -/
def ChecksumType.toWire : ChecksumType → Int32
  | .crc32 => 1
  | .crc32c => 2
  | .sha256 => 3
  | .md5 => 4
  | .none => 5

/-- `wire::ChecksumData::from`. -/
def ChecksumData.toWire (cd : ChecksumData) : WireChecksumData :=
  ⟨cd.checksumType.toWire, cd.bytesPerChecksum, cd.checksums⟩

/-- `wire::ChunkInfo::from`. -/
def ChunkInfo.toWire (ci : ChunkInfo) : WireChunkInfo :=
  ⟨ci.chunkName, ci.offset, ci.len, ci.checksumData.map ChecksumData.toWire⟩

/-- `wire::BlockData::from`. -/
def BlockData.toWire (bd : BlockData) : WireBlockData :=
  ⟨some bd.blockId.toWire, bd.chunks.map ChunkInfo.toWire, bd.metadata⟩

/-! ### What is sent is what is received -/

theorem u8OfWire_toUInt32 (field : String) (n : UInt8) : u8OfWire field n.toUInt32 = .ok n := by
  rw [u8OfWire, if_pos (by simpa using n.toNat_lt), UInt8.toUInt8_toUInt32]

theorem BlockId.ofWire_toWire (b : BlockId) : BlockId.ofWire b.toWire = .ok b := by
  rw [ofWire, toWire, u8OfWire_toUInt32]
  rfl

/-- The checks are those of `EcReplicationConfig::validate`. -/
theorem EcReplicationConfig.check_eq_ok {ec : EcReplicationConfig} :
    ec.check = .ok () ↔ ec.validate = true := by
  simp only [check, validate, decide_eq_true_eq]
  constructor
  · intro h
    split at h
    · cases h
    · split at h
      · cases h
      · split at h
        · cases h
        · rename_i hdata hparity hsize
          rw [not_or, UInt8.not_lt] at hdata hparity
          exact ⟨hdata.1, hdata.2, hparity.1, hparity.2, hsize⟩
  · rintro ⟨hdata, hdata', hparity, hparity', hsize⟩
    rw [if_neg (not_or.mpr ⟨hdata, UInt8.not_lt.mpr hdata'⟩),
      if_neg (not_or.mpr ⟨hparity, UInt8.not_lt.mpr hparity'⟩), if_neg hsize]

theorem EcReplicationConfig.checked_eq_ok {ec ec' : EcReplicationConfig} :
    ec.checked = .ok ec' ↔ ec.validate = true ∧ ec = ec' := by
  rw [← check_eq_ok, checked]
  cases ec.check <;> simp

/-- A configuration that is received is valid. -/
theorem EcReplicationConfig.validate_of_ofWire {w : WireEcConfig} {ec : EcReplicationConfig}
    (h : EcReplicationConfig.ofWire w = .ok ec) : ec.validate = true := by
  unfold ofWire at h
  split at h
  · cases h
  · obtain ⟨data, -, h⟩ := Outcome.except_bind_eq_ok.mp h
    obtain ⟨parity, -, h⟩ := Outcome.except_bind_eq_ok.mp h
    obtain ⟨hvalid, rfl⟩ := checked_eq_ok.mp h
    exact hvalid

theorem ChecksumData.ofWire_toWire (cd : ChecksumData) :
    ChecksumData.ofWire cd.toWire = .ok cd := by
  obtain ⟨ty, bpc, checksums⟩ := cd
  cases ty <;> rfl

theorem ChunkInfo.ofWire_toWire (ci : ChunkInfo) : ChunkInfo.ofWire ci.toWire = .ok ci := by
  obtain ⟨name, offset, len, cd⟩ := ci
  cases cd with
  | none => rfl
  | some cd =>
    simp only [ofWire, toWire, Option.map_some, ChecksumData.ofWire_toWire]
    rfl

/-- A block is received with its metadata sorted. -/
theorem BlockData.ofWire_toWire_sorted (bd : BlockData) :
    BlockData.ofWire bd.toWire = .ok ⟨bd.blockId, bd.chunks, .ofEntries bd.metadata⟩ := by
  have hchunks : (bd.chunks.map ChunkInfo.toWire).mapM ChunkInfo.ofWire =
      (.ok bd.chunks : Except ConversionError _) := by
    induction bd.chunks with
    | nil => rfl
    | cons ci rest ih =>
      rw [List.map_cons, List.mapM_cons, ChunkInfo.ofWire_toWire, ih]
      rfl
  simp only [ofWire, toWire, BlockId.ofWire_toWire, hchunks]
  rfl

end OzoneRust
