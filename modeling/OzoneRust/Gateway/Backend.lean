import OzoneRust.Ec.Layout
import OzoneRust.Gateway.Wire
import OzoneRust.Lib.AssocList
import OzoneRust.Lib.Interleave
import OzoneRust.Storage.Checksum

/-!
# The gateway's object operations

The operations of `backend.rs` on one object, as programs whose calls are the single requests
they send: to the Ozone Manager (open a key, allocate a block, commit, look up, delete,
complete a multipart upload) and to a datanode (dial it, create a container, write a chunk, put or
delete a block, read a chunk). Every call can fail, and the programs go on or give up
exactly where the source does.

An object is cut into segments of `blockGroupSize` bytes. Each segment is erasure-coded and
written to the `k + p` members of a block, the shard of slot `s` to the member whose replica
index is `s`; the object is the concatenation of its segments.

The envelope of a manager request (client id, version, principal) is left out, as are the
connection cache of the gateway and the region: none of them changes what a call does. MD5
and the iteration order of a `HashMap` are parameters.
-/

namespace OzoneRust

/-! ### Requests to the services -/

/-- A key of a bucket; all buckets live in one volume. -/
structure KeyName where
  /-- The bucket. -/
  bucket : String
  /-- The key. -/
  key : String
  deriving DecidableEq, Repr

/-- The errors of the datanode client, as far as the gateway tells them apart. -/
inductive DnClientError where
  /-- The datanode answered `ALREADY_EXISTS`. -/
  | alreadyExists
  /-- Anything else. -/
  | failed (message : String)
  deriving DecidableEq, Repr

/-- The manager's answer to `CreateKey`. -/
structure CreateKeyResponse where
  /-- The open session. -/
  id : Option UInt64
  /-- The key, with the blocks allocated in advance. -/
  keyInfo : Option KeyInfo
  deriving DecidableEq, Repr

/-- A single request of the gateway. -/
inductive GatewayOp where
  /-- `CreateKey`, or the same for one part of a multipart upload. -/
  | createKey (key : KeyName) (multipart : Option (String × UInt32)) (size : UInt64)
  /-- `AllocateBlock`. -/
  | allocateBlock (key : KeyName) (clientId : UInt64)
  /-- `CommitKey`. -/
  | commitKey (key : KeyName) (clientId : UInt64) (locations : List KeyLocation) (size : UInt64)
      (metadata : List (String × Option String))
  /-- `GetKeyInfo`. -/
  | getKeyInfo (key : KeyName)
  /-- `DeleteKey`. -/
  | deleteKey (key : KeyName)
  /-- `CompleteMultiPartUpload`. -/
  | completeMultipart (key : KeyName) (uploadId : String) (parts : List UInt32)
  /-- Dial a datanode; the error is its text. -/
  | dial (endpoint : String)
  /-- Create a container on a datanode. -/
  | createContainer (endpoint : String) (container : ContainerId) (ec : EcReplicationConfig)
  /-- Write a chunk of a block. -/
  | writeChunk (endpoint : String) (block : BlockId) (chunk : ChunkInfo) (data : Bytes)
  /-- Record a block. -/
  | putBlock (endpoint : String) (block : BlockData) (eof : Bool)
  /-- Read a chunk of a block. -/
  | readChunk (endpoint : String) (block : BlockId) (chunk : ChunkInfo) (verify : Bool)
  /-- Delete a block. -/
  | deleteBlock (endpoint : String) (block : BlockId)
  deriving DecidableEq

/-- The requests with their answers. -/
def gatewayCalls : Calls where
  Op := GatewayOp
  Res
    | .createKey .. => Except OmError CreateKeyResponse
    | .allocateBlock .. => Except OmError (Option KeyLocation)
    | .commitKey .. => Except OmError Unit
    | .getKeyInfo _ => Except OmError (Option KeyInfo)
    | .deleteKey _ => Except OmError Unit
    | .completeMultipart .. => Except OmError (Option (Option String))
    | .dial _ => Except String Unit
    | .createContainer .. => Except DnClientError Unit
    | .writeChunk .. => Except DnClientError Unit
    | .putBlock .. => Except DnClientError Unit
    | .readChunk .. => Except DnClientError Bytes
    | .deleteBlock .. => Except DnClientError Unit

/-! ### Errors -/

/-- The errors of the gateway. -/
inductive GatewayError where
  /-- No such key. -/
  | noSuchKey
  /-- No such bucket. -/
  | noSuchBucket
  /-- No such multipart upload. -/
  | noSuchUpload
  /-- A malformed request. -/
  | badRequest (message : String)
  /-- A failure of the manager. -/
  | om (e : OmError)
  /-- A failure of a datanode. -/
  | dn (e : DnClientError)
  /-- A failure of the coder. -/
  | ec (e : EcError)
  /-- A violated invariant. -/
  | internal (message : String)
  deriving DecidableEq, Repr

/-- `From<OmError> for GatewayError`. -/
def GatewayError.ofOm : OmError → GatewayError
  | .notFound => .noSuchKey
  | .bucketNotFound => .noSuchBucket
  | .noSuchUpload => .noSuchUpload
  | .invalidPart => .badRequest "invalid multipart part"
  | .invalidPartOrder => .badRequest "invalid multipart part order"
  | .entityTooSmall => .badRequest "multipart part too small"
  | other => .om other

/-! ### The manager's client -/

/-- A computation of the manager's client. -/
abbrev OmM := Prog gatewayCalls OmError

/-- A computation of the gateway. -/
abbrev GwM := Prog gatewayCalls GatewayError

/-- The answer of a call, or its error as one of the caller. -/
def okOr {ε ε' α : Type} (f : ε → ε') : Except ε α → Prog gatewayCalls ε' α
  | .ok a => .done (.ok a)
  | .error e => .done (.err (f e))

/-- A field of a response that must be there. -/
def present {α : Type} (field : String) : Option α → OmM α
  | some a => .done (.ok a)
  | none => .done (.err (.missing field))

/-- What `create_key` returns. -/
structure OpenKey where
  /-- The open session. -/
  clientId : UInt64
  /-- The blocks allocated in advance. -/
  blocks : List BlockLocation
  deriving DecidableEq, Repr

/-- What `get_key_info` returns. -/
structure KeyMeta where
  /-- The size. -/
  size : UInt64
  /-- The `ETAG` entry of the metadata. -/
  etag : Option String
  /-- The metadata. -/
  metadata : List (String × String)
  /-- The modification time. -/
  modificationTime : UInt64
  /-- The blocks. -/
  blocks : List BlockLocation
  deriving DecidableEq, Repr

namespace OmClient

/-- `OzoneOmClient::create_key`, and `create_multipart_part_key`. -/
def createKey (key : KeyName) (multipart : Option (String × UInt32)) (size : UInt64) :
    OmM OpenKey := do
  let resp ← okOr id (← Prog.perform (C := gatewayCalls) (.createKey key multipart size))
  let clientId ← present "create_key_response.id" resp.id
  let info ← present "create_key_response.key_info" resp.keyInfo
  let blocks ← Prog.lift (blocksOfKeyInfo info)
  return ⟨clientId, blocks⟩

/-- `OzoneOmClient::allocate_block`. -/
def allocateBlock (key : KeyName) (clientId : UInt64) : OmM BlockLocation := do
  let resp ← okOr id (← Prog.perform (C := gatewayCalls) (.allocateBlock key clientId))
  let loc ← present "allocate_block_response.key_location" resp
  Prog.lift (keyLocationToBlock loc)

/-- `OzoneOmClient::commit_key`: the ETag goes last into the metadata. -/
def commitKey (key : KeyName) (clientId : UInt64) (blocks : List BlockLocation) (size : UInt64)
    (etag : Option String) (metadata : List (String × String)) : OmM Unit := do
  let md := metadata.map (fun kv => (kv.1, some kv.2)) ++
    (etag.map fun e => ("ETAG", some e)).toList
  okOr id (← Prog.perform (C := gatewayCalls)
    (.commitKey key clientId (blocks.map blockToKeyLocation) size md))

/-- `OzoneOmClient::get_key_info`. -/
def getKeyInfo (key : KeyName) : OmM KeyMeta := do
  let resp ← okOr id (← Prog.perform (C := gatewayCalls) (.getKeyInfo key))
  let info ← present "get_key_info_response.key_info" resp
  let metadata := info.metadata.map fun kv => (kv.1, kv.2.getD "")
  let etag := (metadata.find? fun kv => kv.1 = "ETAG").map (·.2)
  let blocks ← Prog.lift (blocksOfKeyInfo info)
  return ⟨info.dataSize, etag, metadata, info.modificationTime, blocks⟩

/-- `OzoneOmClient::delete_key`. -/
def deleteKey (key : KeyName) : OmM Unit := do
  okOr id (← Prog.perform (C := gatewayCalls) (.deleteKey key))

/-- `OzoneOmClient::complete_multipart`: the ETag and the size. The answer is the hash, if there
is a response and it has one. -/
def completeMultipart (key : KeyName) (uploadId : String) (parts : List UInt32) :
    OmM (String × UInt64) := do
  let resp ← okOr id (← Prog.perform (C := gatewayCalls) (.completeMultipart key uploadId parts))
  let hash ← present "complete_multi_part_upload_response" resp
  let etag ← present "complete_multi_part_upload_response.hash" hash
  let info ← getKeyInfo key
  return (etag, info.size)

end OmClient

/-! ### The gateway -/

/-- What the gateway's operations depend on. -/
structure Gateway where
  /-- Erasure-coding library. -/
  isal : IsaL
  /-- The most bytes of an object in one block group. -/
  blockGroupSize : ℕ
  /-- `set_block_group_size` clamps to at least one byte. -/
  blockGroupSize_pos : 0 < blockGroupSize
  /-- `md5_hex`. -/
  md5Hex : Bytes → String
  /-- The order in which a `HashMap` yields its entries. Its `insert` is `AssocList.put`. -/
  hashOrder : List (String × String) → List (String × String)

/-- `CopyDirectives`. -/
structure CopyDirectives where
  /-- The metadata of the request replaces that of the source. -/
  replaceMetadata : Bool
  /-- The metadata of the request. -/
  metadata : List (String × String)
  /-- The tags of the request replace those of the source. -/
  replaceTags : Bool
  /-- The tags of the request. -/
  tags : List (String × String)
  deriving DecidableEq, Repr

/-- `TAG_META_PREFIX`. -/
def tagMetaPrefix : String := "x-amz-tag-"

/-- `endpoint_for_slot`: the member whose replica index is the slot. -/
def endpointForSlot (block : BlockLocation) (slot : UInt8) : Except GatewayError String :=
  match block.members.find? fun m => m.replicaIndex = slot with
  | some m => .ok m.endpoint
  | none => .error (.internal ("block has no member for slot " ++ toString slot.toNat))

theorem endpointForSlot_eq {block : BlockLocation} {place : Placement}
    (h : block.members.Perm place.slotList) {n : ℕ} (hn : n < place.total) :
    endpointForSlot block (UInt8.ofNat (n + 1)) = .ok (place.endpoint (UInt8.ofNat (n + 1))) := by
  obtain ⟨m, hm, hep⟩ := Placement.find?_slot h hn
  rw [endpointForSlot, hm]
  exact congrArg Except.ok hep

namespace Gateway

/-- The single chunk of a shard. -/
def shardChunk (shard : Bytes) (cd : ChecksumData) : ChunkInfo :=
  ⟨"0", 0, UInt64.ofNat shard.length, some cd⟩

/-- One slot of `write_block_group`: dial the member, make sure the container exists, write
the chunk, record the block. -/
def writeSlot (block : BlockLocation) (ec : EcReplicationConfig) (segmentLen : ℕ)
    (shards : EncodedShards) (slot : ℕ) : GwM Unit := do
  let k := ec.data.toNat
  let shard ← Prog.lift (if slot ≤ k then Outcome.index shards.data (slot - 1)
    else Outcome.index shards.parity (slot - 1 - k))
  let endpoint ← okOr id (endpointForSlot block (UInt8.ofNat slot))
  okOr .internal (← Prog.perform (C := gatewayCalls) (.dial endpoint))
  match ← Prog.perform (C := gatewayCalls) (.createContainer endpoint block.containerId ec) with
  | .ok _ | .error .alreadyExists => pure ()
  | .error e => Prog.lift (.err (.dn e))
  let cd ← okOr (fun _ => GatewayError.internal "checksum")
    (Checksum.compute shard ec.ecChunkSize .crc32c)
  let chunk := shardChunk shard cd
  let blockSlot : BlockId := ⟨block.containerId, block.localId, UInt8.ofNat slot⟩
  okOr .dn (← Prog.perform (C := gatewayCalls) (.writeChunk endpoint blockSlot chunk shard))
  let bd := { BlockData.new blockSlot with chunks := [chunk] }
  okOr .dn (← Prog.perform (C := gatewayCalls)
    (.putBlock endpoint (bd.setBlockGroupLen (UInt64.ofNat segmentLen)) true))

/-- `write_block_group`: the committed block. -/
def writeBlockGroup (gw : Gateway) (block : BlockLocation) (ec : EcReplicationConfig)
    (segment : Bytes) : GwM BlockLocation := do
  let shards ← Prog.lift ((encodeObject gw.isal ec.profile segment).mapErr .ec)
  ((List.range (ec.data.toNat + ec.parity.toNat)).map (· + 1)).foldlM
    (fun _ slot => writeSlot block ec segment.length shards slot) ()
  return { block with length := UInt64.ofNat segment.length }

/-- The next block of `allocate_and_write`: one allocated in advance, or a new one. -/
def takeBlock (key : KeyName) (clientId : UInt64) :
    List BlockLocation → GwM (BlockLocation × List BlockLocation)
  | b :: rest => return (b, rest)
  | [] => do
    let b ← (OmClient.allocateBlock key clientId).mapErr .ofOm
    return (b, [])

/-- One segment of `allocate_and_write`, with the blocks allocated in advance that are left
and the blocks written so far. -/
def writeSegment (gw : Gateway) (key : KeyName) (clientId : UInt64)
    (ec : Option EcReplicationConfig) (acc : List BlockLocation × List BlockLocation)
    (segment : Bytes) : GwM (List BlockLocation × List BlockLocation) := do
  let (block, preAllocated) ← takeBlock key clientId acc.1
  match ec with
  | none => Prog.lift (.err (.internal "open key has no EC block"))
  | some ec => do
    let written ← gw.writeBlockGroup block ec segment
    return (preAllocated, acc.2 ++ [written])

/-- `allocate_and_write`: the committed blocks and the open session. -/
def allocateAndWrite (gw : Gateway) (key : KeyName) (body : Bytes)
    (multipart : Option (String × UInt32)) : GwM (List BlockLocation × UInt64) := do
  let opened ← (OmClient.createKey key multipart (UInt64.ofNat body.length)).mapErr .ofOm
  let ec := opened.blocks.head?.map (·.ec)
  let acc ← (Blocks.chunks gw.blockGroupSize body).foldlM
    (gw.writeSegment key opened.clientId ec) (opened.blocks, [])
  return (acc.2, opened.clientId)

/-- The metadata of `put_object`: the tags are entries under a reserved key. -/
def putMetadata (metadata tags : List (String × String)) : List (String × String) :=
  tags.foldl (fun m kv => AssocList.put (tagMetaPrefix ++ kv.1, kv.2) m) metadata

/-- `put_object`: the ETag. -/
def putObject (gw : Gateway) (key : KeyName) (body : Bytes)
    (metadata tags : List (String × String)) : GwM String := do
  let (blocks, clientId) ← gw.allocateAndWrite key body none
  let etag := gw.md5Hex body
  (OmClient.commitKey key clientId blocks (UInt64.ofNat body.length) (some etag)
    (gw.hashOrder (putMetadata metadata tags))).mapErr .ofOm
  return etag

/-- The chunk `read_block_group` asks for. -/
def readRequest : ChunkInfo := ⟨"0", 0, 0, none⟩

/-- One slot of `read_block_group`: a slot without a member, one that cannot be dialled and
one whose read fails stay absent. -/
def readSlot (block : BlockLocation) (slot : ℕ) : GwM (Option Bytes) := do
  match endpointForSlot block (UInt8.ofNat slot) with
  | .error _ => return none
  | .ok endpoint =>
    match ← Prog.perform (C := gatewayCalls) (.dial endpoint) with
    | .error _ => return none
    | .ok _ =>
      let blockSlot : BlockId := ⟨block.containerId, block.localId, UInt8.ofNat slot⟩
      match ← Prog.perform (C := gatewayCalls) (.readChunk endpoint blockSlot readRequest true) with
      | .error _ => return none
      | .ok b => return some b

/-- `read_block_group`: the bytes of one block group. -/
def readBlockGroup (gw : Gateway) (block : BlockLocation) : GwM Bytes := do
  let profile := block.ec.profile
  let total ← Prog.lift (profile.total.mapErr .ec)
  let views ← ((List.range total).map (· + 1)).foldlM
    (fun acc slot => do return acc ++ [← readSlot block slot]) []
  Prog.lift ((decodeObject gw.isal profile block.length.toNat views).mapErr .ec)

/-- What `get_object` returns. -/
structure GetReply where
  /-- The body. -/
  body : Bytes
  /-- The ETag. -/
  etag : String
  /-- The metadata. -/
  metadata : List (String × String)
  /-- The modification time. -/
  modMs : UInt64
  deriving DecidableEq, Repr

/-- The loop of `get_object`. -/
def readBlocks (gw : Gateway) (blocks : List BlockLocation) : GwM Bytes :=
  blocks.foldlM (fun out block => do return out ++ (← gw.readBlockGroup block)) []

/-- `get_object`: the groups, one after the other. -/
def getObject (gw : Gateway) (key : KeyName) : GwM GetReply := do
  let info ← (OmClient.getKeyInfo key).mapErr .ofOm
  let out ← gw.readBlocks info.blocks
  return ⟨out, info.etag.getD "", info.metadata.foldl (fun m kv => AssocList.put kv m) [],
    info.modificationTime⟩

/-- What `head_object` returns. -/
structure HeadReply where
  /-- The size. -/
  size : UInt64
  /-- The ETag. -/
  etag : String
  /-- The metadata. -/
  metadata : List (String × String)
  /-- The modification time. -/
  modMs : UInt64
  deriving DecidableEq, Repr

/-- `head_object`. -/
def headObject (key : KeyName) : GwM HeadReply := do
  let info ← (OmClient.getKeyInfo key).mapErr .ofOm
  return ⟨info.size, info.etag.getD "", info.metadata.foldl (fun m kv => AssocList.put kv m) [],
    info.modificationTime⟩

/-- One entry of a source's metadata in `copy_object`: user metadata, or a tag. -/
def splitEntry (acc : List (String × String) × List (String × String)) (kv : String × String) :
    List (String × String) × List (String × String) :=
  if tagMetaPrefix.toList <+: kv.1.toList then
    (acc.1, acc.2 ++ [(String.ofList (kv.1.toList.drop tagMetaPrefix.toList.length), kv.2)])
  else (AssocList.put kv acc.1, acc.2)

/-- `copy_object`: the ETag and the size. -/
def copyObject (gw : Gateway) (dest source : KeyName) (directives : CopyDirectives) :
    GwM (String × UInt64) := do
  let got ← gw.getObject source
  let (userMeta, srcTags) := (gw.hashOrder got.metadata).foldl splitEntry ([], [])
  let metadata := if directives.replaceMetadata then directives.metadata else userMeta
  let tags := if directives.replaceTags then directives.tags else srcTags
  let etag ← gw.putObject dest got.body metadata tags
  return (etag, UInt64.ofNat got.body.length)

/-- `complete_multipart`: the ETag. -/
def completeMultipart (key : KeyName) (uploadId : String) (partNumbers : List UInt32) :
    GwM String := do
  if partNumbers = [] then Prog.lift (.err (.badRequest "complete with no parts"))
  else if (partNumbers.zip partNumbers.tail).any fun w => w.1 ≥ w.2 then
    Prog.lift (.err (.badRequest "parts must be in ascending order with no duplicates"))
  else do
    let completed ← (OmClient.completeMultipart key uploadId partNumbers).mapErr .ofOm
    return completed.1

/-- One slot of `delete_object`: every failure is passed over. -/
def deleteSlot (block : BlockLocation) (slot : ℕ) : GwM Unit := do
  match endpointForSlot block (UInt8.ofNat slot) with
  | .error _ => return ()
  | .ok endpoint =>
    match ← Prog.perform (C := gatewayCalls) (.dial endpoint) with
    | .error _ => return ()
    | .ok _ => do
      let _ ← Prog.perform (C := gatewayCalls)
        (.deleteBlock endpoint ⟨block.containerId, block.localId, UInt8.ofNat slot⟩)
      return ()

/-- The number of slots `delete_object` visits, a sum of two `u8`. -/
def deleteTotal (ec : EcReplicationConfig) : Outcome GatewayError ℕ :=
  if ec.data.toNat + ec.parity.toNat < 256 then .ok (ec.data.toNat + ec.parity.toNat) else .panic

/-- The loop of `delete_object`. -/
def deleteBlocks (blocks : List BlockLocation) : GwM Unit :=
  blocks.foldlM (fun _ block => do
    let total ← Prog.lift (deleteTotal block.ec)
    ((List.range total).map (· + 1)).foldlM (fun _ slot => deleteSlot block slot) ()) ()

/-- `delete_object`: the shards of the key as it is found, then the key. -/
def deleteObject (key : KeyName) : GwM Unit := do
  match ← (OmClient.getKeyInfo key).attempt with
  | .error _ => pure ()
  | .ok info => deleteBlocks info.blocks
  (OmClient.deleteKey key).mapErr .ofOm

end Gateway

end OzoneRust
