import OzoneRust.Ec.Stripe

/-!
# Domain types

The types of the `ozone-types` crate that the modelled components share: block ids and
their parts, the erasure-coding configuration of a key or container, and the layout of a
block as a datanode records it. Ids, slots and lengths are machine words, as in the source.

A `BTreeMap` of strings is its list of entries in key order (`OzoneRust.Metadata`). The
number of blocks of a container is a natural number: it goes up by one per call.
-/

namespace OzoneRust

/-! ### Identifiers -/

/-- A container id. -/
abbrev ContainerId := UInt64

/-- A block id within its container. -/
abbrev LocalId := UInt64

/-- A replica slot: `0` for a block that is not erasure-coded, `1..=k+p` for a shard. -/
abbrev ReplicaIndex := UInt8

/-- A block: container, local id and replica slot. -/
structure BlockId where
  /-- The container. -/
  container : ContainerId
  /-- The id within the container. -/
  localId : LocalId
  /-- The replica slot. -/
  replicaIndex : ReplicaIndex
  deriving DecidableEq, Repr

/-! ### Erasure coding -/

/-- The codec family. -/
inductive EcCodec where
  /-- Reed–Solomon. -/
  | rs
  deriving DecidableEq, Repr

/-- `EcCodec::from_str`: the name, in any ASCII case. -/
def EcCodec.fromStr (s : String) : Option EcCodec :=
  if s.toList.map Char.toLower = ['r', 's'] then some .rs else none

/-- Erasure-coding parameters. -/
structure EcReplicationConfig where
  /-- Data shards per stripe. -/
  data : UInt8
  /-- Parity shards per stripe. -/
  parity : UInt8
  /-- Bytes per cell. -/
  ecChunkSize : UInt32
  /-- The codec. -/
  codec : EcCodec
  deriving DecidableEq, Repr

/-- `ec_profile`: the profile handed to the coder. -/
def EcReplicationConfig.profile (ec : EcReplicationConfig) : Profile :=
  ⟨ec.data.toNat, ec.parity.toNat, ec.ecChunkSize.toNat⟩

/-- `EcReplicationConfig::validate`, as a test. -/
def EcReplicationConfig.validate (ec : EcReplicationConfig) : Bool :=
  ec.data ≠ 0 ∧ ec.data ≤ 32 ∧ ec.parity ≠ 0 ∧ ec.parity ≤ 32 ∧ ec.ecChunkSize ≠ 0

/-- `EcReplicationConfig::new`; `none` for any of its errors. -/
def EcReplicationConfig.new (data parity : UInt8) (ecChunkSize : UInt32) (codec : EcCodec) :
    Option EcReplicationConfig :=
  let cfg : EcReplicationConfig := ⟨data, parity, ecChunkSize, codec⟩
  if cfg.validate then some cfg else none

/-! ### Checksums, chunks and blocks -/

/-- The checksum algorithms the wire format names. -/
inductive ChecksumType where
  /-- No checksum. -/
  | none
  /-- CRC-32. -/
  | crc32
  /-- CRC-32C, the default. -/
  | crc32c
  /-- SHA-256. -/
  | sha256
  /-- MD5. -/
  | md5
  deriving DecidableEq, Repr

/-- The digests of a chunk, one per window of `bytesPerChecksum` bytes. -/
structure ChecksumData where
  /-- The algorithm. -/
  checksumType : ChecksumType
  /-- The window size. -/
  bytesPerChecksum : UInt32
  /-- The digests. -/
  checksums : List Bytes
  deriving DecidableEq, Repr

/-- A contiguous run of bytes of a block. Its `stripe_checksum` is left out: the repository
never fills it in, and no function reads it. -/
structure ChunkInfo where
  /-- The name the file name is derived from. -/
  chunkName : String
  /-- The offset within the block. -/
  offset : UInt64
  /-- The length in bytes. -/
  len : UInt64
  /-- The digests, if any. -/
  checksumData : Option ChecksumData
  deriving DecidableEq, Repr

/-- A map from strings to strings, as its entries in key order. -/
abbrev Metadata := List (String × String)

/-- `BTreeMap::insert`. -/
def Metadata.insert (k v : String) : Metadata → Metadata
  | [] => [(k, v)]
  | (k', v') :: rest =>
    if k < k' then (k, v) :: (k', v') :: rest
    else if k = k' then (k, v) :: rest
    else (k', v') :: Metadata.insert k v rest

/-- `BTreeMap::get`. -/
def Metadata.get? (k : String) (m : Metadata) : Option String :=
  (m.find? fun kv => kv.1 = k).map Prod.snd

/-- The digits after an optional plus sign. -/
def stripPlus : List Char → List Char
  | '+' :: rest => rest
  | digits => digits

/-- `str::parse::<u64>`: decimal digits after an optional plus sign, without overflow. -/
def parseU64 (s : String) : Option UInt64 :=
  let digits := stripPlus s.toList
  if digits ≠ [] ∧ digits.all Char.isDigit ∧ Nat.ofDigitChars 10 digits 0 < 2 ^ 64 then
    some (UInt64.ofNat (Nat.ofDigitChars 10 digits 0))
  else none

/-- What a datanode records of a block. -/
structure BlockData where
  /-- The block. -/
  blockId : BlockId
  /-- Its chunks, in order. -/
  chunks : List ChunkInfo
  /-- Free-form metadata. -/
  metadata : Metadata
  deriving DecidableEq, Repr

namespace BlockData

/-- `BLOCK_GROUP_LEN_KEY`: where the length of a whole block group is recorded. -/
def blockGroupLenKey : String := "blockGroupLen"

/-- `BlockData::new`: no chunks and no metadata. -/
def new (id : BlockId) : BlockData := ⟨id, [], []⟩

/-- `BlockData::len`: the sum of the chunk lengths, a `u64`. -/
def len (bd : BlockData) : UInt64 := (bd.chunks.map (·.len)).foldl (· + ·) 0

/-- `BlockData::block_group_len`. -/
def blockGroupLen (bd : BlockData) : Option UInt64 :=
  (bd.metadata.get? blockGroupLenKey).bind parseU64

/-- `BlockData::set_block_group_len`. -/
def setBlockGroupLen (bd : BlockData) (len : UInt64) : BlockData :=
  { bd with metadata := Metadata.insert blockGroupLenKey (toString len.toNat) bd.metadata }

end BlockData

/-- A number is read back from its decimal digits. -/
theorem parseU64_toString (n : UInt64) : parseU64 (toString n.toNat) = some n := by
  have hdigits : ∀ c ∈ Nat.toDigits 10 n.toNat, c.isDigit = true := fun c hc =>
    Nat.isDigit_of_mem_toDigits (by decide) (by decide) hc
  have hvalue : Nat.ofDigitChars 10 (Nat.toDigits 10 n.toNat) 0 = n.toNat :=
    Nat.ofDigitChars_toDigits (by decide) (by decide)
  have hstrip : stripPlus (Nat.toDigits 10 n.toNat) = Nat.toDigits 10 n.toNat := by
    unfold stripPlus
    split
    case h_1 rest hrest =>
      -- a plus sign is no digit
      exact absurd (hdigits '+' (hrest ▸ List.mem_cons_self)) (by decide)
    case h_2 => rfl
  unfold parseU64
  dsimp only
  rw [Nat.toString_eq_ofList_toDigits, String.toList_ofList, hstrip, hvalue,
    if_pos ⟨Nat.toDigits_ne_nil, List.all_eq_true.mpr hdigits, n.toNat_lt⟩, UInt64.ofNat_toNat]

theorem Metadata.get?_insert_self (k v : String) (m : Metadata) :
    (m.insert k v).get? k = some v := by
  induction m with
  | nil => simp [insert, get?]
  | cons kv rest ih =>
    obtain ⟨k', v'⟩ := kv
    rw [insert]
    split
    · simp [get?]
    · split
      · simp [get?]
      · rename_i hne
        rw [get?, List.find?_cons_of_neg (by simpa using Ne.symm hne)]
        exact ih

theorem BlockData.blockGroupLen_setBlockGroupLen (bd : BlockData) (len : UInt64) :
    (bd.setBlockGroupLen len).blockGroupLen = some len := by
  rw [blockGroupLen, setBlockGroupLen, Metadata.get?_insert_self, Option.bind_some,
    parseU64_toString]

/-! ### Containers -/

/-- The lifecycle of a container. -/
inductive ContainerState where
  /-- Accepting writes. -/
  | open
  /-- Draining. -/
  | closing
  /-- Closed without quorum. -/
  | quasiClosed
  /-- Immutable. -/
  | closed
  /-- Failed an integrity check. -/
  | unhealthy
  /-- Marked for deletion. -/
  | deleted
  deriving DecidableEq, Repr

/-- `ContainerState::is_writable`: only an open container is. -/
def ContainerState.isWritable : ContainerState → Bool
  | .open => true
  | _ => false

/-- What is known of a container. -/
structure ContainerInfo where
  /-- The container. -/
  containerId : ContainerId
  /-- The state. -/
  state : ContainerState
  /-- The bytes of all its blocks. -/
  usedBytes : UInt64
  /-- The number of its blocks. -/
  blockCount : ℕ
  /-- The erasure-coding configuration, if any. -/
  ecConfig : Option EcReplicationConfig
  deriving DecidableEq, Repr

/-- `ContainerInfo::new_open`: an open container without blocks. -/
def ContainerInfo.newOpen (id : ContainerId) (ec : EcReplicationConfig) : ContainerInfo :=
  ⟨id, .open, 0, 0, some ec⟩

end OzoneRust
