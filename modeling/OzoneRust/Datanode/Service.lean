import OzoneRust.Datanode.Messages
import OzoneRust.Datanode.Stores

/-!
# The datanode service

`DatanodeService`, the side of a datanode that gateways talk to. A handler first reads its
request, and rejects it if something is missing, out of range or does not match its digests
(`OzoneRust.Service.acceptWrite` and the like); then it calls the stores, one call after the
other (`OzoneRust.storeCalls`).

A chunk is sent as a stream of messages, the first of which has a header, and read as a
stream of frames. What the client of a datanode sends is accepted as it was meant
(`OzoneRust.Service.acceptWrite_writeMessages`), and what it collects from the frames is the
chunk (`OzoneRust.Service.collect_flagLast`).
-/

namespace OzoneRust

/-! ### Statuses -/

/-- The codes of a status. -/
inductive Code where
  /-- `InvalidArgument`. -/
  | invalidArgument
  /-- `NotFound`. -/
  | notFound
  /-- `AlreadyExists`. -/
  | alreadyExists
  /-- `FailedPrecondition`. -/
  | failedPrecondition
  /-- `DataLoss`. -/
  | dataLoss
  /-- `Internal`. -/
  | internal
  deriving DecidableEq, Repr

/-- What a request fails with. The text of a status is that of the error inside. -/
inductive Status where
  /-- `storage_status`. -/
  | storage (e : StorageError)
  /-- `conv_status`. -/
  | conversion (e : ConversionError)
  /-- `missing`. -/
  | missing (field : String)
  /-- The bytes do not match their digests. -/
  | dataLoss (e : Checksum.ChecksumError)
  /-- Something is not there. -/
  | notFound (message : String)
  /-- The stream of a request broke off. -/
  | broken (code : Code) (message : String)
  deriving DecidableEq, Repr

/-- The code of a status. -/
def Status.code : Status → Code
  | .storage (.containerNotFound _) | .storage (.blockNotFound _) => .notFound
  | .storage (.containerExists _) => .alreadyExists
  | .storage (.containerNotOpen _ _) => .failedPrecondition
  | .storage (.checksum _) => .dataLoss
  | .storage (.io _) | .storage (.metaError _) | .storage (.corrupt _) => .internal
  | .conversion _ => .invalidArgument
  | .missing _ => .invalidArgument
  | .dataLoss _ => .dataLoss
  | .notFound _ => .notFound
  | .broken code _ => code

namespace Service

/-- A handler. -/
abbrev ServiceM := Prog storeCalls Status

/-! ### Reading a request -/

/-- `ok_or_else` with `missing`. -/
def required {α : Type} (field : String) : Option α → Except Status α
  | some a => .ok a
  | none => .error (.missing field)

/-- `map_err` with `conv_status`. -/
def converted {α : Type} : Except ConversionError α → Except Status α
  | .ok a => .ok a
  | .error e => .error (.conversion e)

/-- `CreateContainerRequest`. -/
structure CreateContainerRequest where
  /-- The container. -/
  containerId : Option ContainerId
  /-- Its configuration. -/
  ecConfig : Option WireEcConfig
  deriving DecidableEq, Repr

/-- The container a request is to create. -/
def acceptCreate (req : CreateContainerRequest) : Except Status ContainerInfo := do
  let cid ← required "container_id" req.containerId
  let ec ← converted (EcReplicationConfig.ofWire (← required "ec_config" req.ecConfig))
  return .newOpen cid ec

/-- The block a request is to record. -/
def acceptPut (blockData : Option WireBlockData) : Except Status BlockData := do
  converted (BlockData.ofWire (← required "block_data" blockData))

/-- The block a request names. -/
def acceptBlock (field : String) (blockId : Option WireBlockId) : Except Status BlockId := do
  converted (BlockId.ofWire (← required field blockId))

/-- The chunk a request names. -/
def acceptChunk (field : String) (chunkInfo : Option WireChunkInfo) : Except Status ChunkInfo := do
  converted (ChunkInfo.ofWire (← required field chunkInfo))

/-- `WriteChunkHeader`. -/
structure WriteChunkHeader where
  /-- The block. -/
  blockId : Option WireBlockId
  /-- The chunk. -/
  chunkInfo : Option WireChunkInfo
  deriving DecidableEq, Repr

/-- `WriteChunkRequest`: one message of the stream. -/
structure WriteChunkMessage where
  /-- The header, on the first message. -/
  header : Option WriteChunkHeader
  /-- Some of the bytes. -/
  payload : Bytes
  /-- The stream ends here. -/
  last : Bool
  deriving DecidableEq, Repr

/-- The stream of a request: its messages, or how it broke off. -/
abbrev WriteStream := List (Except Status WriteChunkMessage)

/-- The loop of `write_chunk` over its stream, with the header and the bytes so far. -/
def receive (header : Option WriteChunkHeader) (buf : Bytes) :
    WriteStream → Except Status (Option WriteChunkHeader × Bytes)
  | [] => .ok (header, buf)
  | .error s :: _ => .error s
  | .ok msg :: rest =>
    let header := header.or msg.header
    let buf := buf ++ msg.payload
    if msg.last then .ok (header, buf) else receive header buf rest

/-- The digests of a chunk are checked, if there are any. -/
def verified (data : Bytes) : Option ChecksumData → Except Status Unit
  | none => .ok ()
  | some cd =>
    match Checksum.verify data cd with
    | .ok _ => .ok ()
    | .error e => .error (.dataLoss e)

/-- The chunk a request is to write, and its bytes. -/
def acceptWrite (stream : WriteStream) : Except Status (BlockId × ChunkInfo × Bytes) := do
  let (header, data) ← receive none [] stream
  let header ← required "WriteChunkHeader" header
  let block ← acceptBlock "WriteChunkHeader.block_id" header.blockId
  let chunk ← acceptChunk "WriteChunkHeader.chunk_info" header.chunkInfo
  verified data chunk.checksumData
  return (block, chunk, data)

/-- `ReadChunkRequest`. -/
structure ReadChunkRequest where
  /-- The block. -/
  blockId : Option WireBlockId
  /-- The chunk. -/
  chunkInfo : Option WireChunkInfo
  /-- The digests are to be checked. -/
  verify : Bool
  deriving DecidableEq, Repr

/-! ### Frames -/

/-- `READ_FRAME_BYTES`. -/
def readFrameBytes : ℕ := 64 * 1024

/-- `frame`: the bytes of a chunk, cut every `n`; there is always a frame. -/
def frame (n : ℕ) (data : Bytes) : List Bytes := if data = [] then [[]] else Blocks.chunks n data

/-- The frames, with the last one marked. -/
def flagLast : List Bytes → List (Bytes × Bool)
  | [] => []
  | [f] => [(f, true)]
  | f :: rest => (f, false) :: flagLast rest

/-- The loop of a client over the frames it reads, with the bytes so far. -/
def collect (buf : Bytes) : List (Bytes × Bool) → Bytes
  | [] => buf
  | (f, last) :: rest => if last then buf ++ f else collect (buf ++ f) rest

/-! ### Handlers -/

/-- What was accepted, with the `?` of the source. -/
def accepted {α : Type} (x : Except Status α) : ServiceM α := Prog.lift (.ofExcept id x)

/-- `create_container`: the state of the new container. -/
def createContainer (req : CreateContainerRequest) : ServiceM ContainerState := do
  let info ← accepted (acceptCreate req)
  (StoreOp.createContainer info).call .storage
  return .open

/-- `close_container`: the state, the bytes in use and the number of blocks. -/
def closeContainer (containerId : Option ContainerId) : ServiceM (ContainerState × UInt64 × ℕ) := do
  let cid ← accepted (required "container_id" containerId)
  (StoreOp.setContainerState cid .closed).call .storage
  match ← (StoreOp.getContainer cid).call .storage with
  | some info => return (info.state, info.usedBytes, info.blockCount)
  | none =>
    .done (.err (.notFound ("container " ++ toString cid.toNat ++ " vanished during close")))

/-- `delete_container`: the metadata, then the bytes. -/
def deleteContainer (containerId : Option ContainerId) : ServiceM Unit := do
  let cid ← accepted (required "container_id" containerId)
  (StoreOp.deleteContainer cid).call .storage
  (StoreOp.deleteChunks cid).call .storage

/-- `get_container_info`. -/
def getContainerInfo (containerId : Option ContainerId) : ServiceM ContainerInfo := do
  let cid ← accepted (required "container_id" containerId)
  match ← (StoreOp.getContainer cid).call .storage with
  | some info => return info
  | none => .done (.err (.notFound ("container " ++ toString cid.toNat ++ " not found")))

/-- `put_block`: the commit sequence number. -/
def putBlock (blockData : Option WireBlockData) : ServiceM ℕ := do
  let block ← accepted (acceptPut blockData)
  (StoreOp.putBlock block).call .storage

/-- A block in a text: container, local id and slot. -/
def blockText (b : BlockId) : String :=
  toString b.container.toNat ++ "/" ++ toString b.localId.toNat ++ "#" ++
    toString b.replicaIndex.toNat

/-- `get_block`. -/
def getBlock (blockId : Option WireBlockId) : ServiceM BlockData := do
  let id ← accepted (acceptBlock "block_id" blockId)
  match ← (StoreOp.getBlock id).call .storage with
  | some bd => return bd
  | none => .done (.err (.notFound ("block " ++ blockText id ++ " not found")))

/-- The bytes of all chunks of a block are deleted. -/
def deleteChunksOf (id : BlockId) (chunks : List ChunkInfo) : ServiceM Unit :=
  chunks.foldlM (fun _ ci => (StoreOp.deleteChunk id ci.chunkName).call .storage) ()

/-- `delete_block`: the bytes of every chunk on record, then the record. -/
def deleteBlock (blockId : Option WireBlockId) : ServiceM Unit := do
  let id ← accepted (acceptBlock "block_id" blockId)
  match ← (StoreOp.getBlock id).call .storage with
  | some bd => deleteChunksOf id bd.chunks
  | none => pure ()
  (StoreOp.deleteBlock id).call .storage

/-- `ListBlocksRequest`. -/
structure ListBlocksRequest where
  /-- The container. -/
  containerId : Option ContainerId
  /-- The first local id. -/
  startLocalId : LocalId
  /-- The blocks of a page, or `0` for the default. -/
  pageSize : UInt32
  deriving DecidableEq, Repr

/-- `DEFAULT_LIST_PAGE`. -/
def defaultListPage : ℕ := 1000

/-- The loop of `list_blocks`: the pages that are sent, and the status that ends the stream. The
client drops the stream after `taken` pages. -/
def listPages (cid : ContainerId) (limit : ℕ) :
    ℕ → LocalId → ServiceM (List BlockPage × Option Status)
  | 0, _ => return ([], none)
  | taken + 1, start => do
    match ← Prog.perform (C := storeCalls) (.listBlocks cid start limit) with
    | .error e => return ([], some (.storage e))
    | .ok page =>
      match page.nextLocalId with
      | none => return ([page], none)
      | some next =>
        let (pages, status) ← listPages cid limit taken next
        return (page :: pages, status)

/-- `list_blocks`: the stream, of which the client takes so many pages. -/
def listBlocks (req : ListBlocksRequest) (taken : ℕ) :
    ServiceM (List BlockPage × Option Status) := do
  let cid ← accepted (required "container_id" req.containerId)
  listPages cid (if req.pageSize = 0 then defaultListPage else req.pageSize.toNat) taken
    req.startLocalId

/-- `write_chunk`: the number of bytes. The state of the container is not looked at. -/
def writeChunk (stream : WriteStream) : ServiceM ℕ := do
  let (block, chunk, data) ← accepted (acceptWrite stream)
  (StoreOp.writeChunk block chunk.chunkName data).call .storage
  return data.length

/-- The digests the bytes of a chunk must match: those of the request, or those on record. -/
def expectedDigests (block : BlockId) (chunk : ChunkInfo) : ServiceM (Option ChecksumData) :=
  match chunk.checksumData with
  | some cd => return some cd
  | none => do
    let bd ← (StoreOp.getBlock block).call .storage
    return (bd.bind fun bd => bd.chunks.find? fun c => c.chunkName = chunk.chunkName).bind
      (·.checksumData)

/-- `read_chunk`: the frames of the chunk. -/
def readChunk (req : ReadChunkRequest) : ServiceM (List (Bytes × Bool)) := do
  let block ← accepted (acceptBlock "block_id" req.blockId)
  let chunk ← accepted (acceptChunk "chunk_info" req.chunkInfo)
  let data ← (StoreOp.readChunk block chunk.chunkName).call .storage
  if req.verify then
    accepted (verified data (← expectedDigests block chunk))
  return flagLast (frame readFrameBytes data)

/-- A write makes one call, with the chunk it was accepted as. -/
theorem makes_writeChunk {P : StoreOp → Prop} {stream : WriteStream}
    (h : ∀ b chunk data, acceptWrite stream = .ok (b, chunk, data) →
      P (.writeChunk b chunk.chunkName data)) : (writeChunk stream).Makes P := by
  unfold writeChunk accepted
  cases hacc : acceptWrite stream with
  | error e => trivial
  | ok chunk =>
    have hmakes : ∀ n : ℕ, (pure n : ServiceM ℕ).Makes P := fun _ => trivial
    exact makes_call_bind (h _ _ _ hacc) fun _ => hmakes _

/-- A put makes one call, with the block it was accepted as. -/
theorem makes_putBlock {P : StoreOp → Prop} {blockData : Option WireBlockData}
    (h : ∀ block, acceptPut blockData = .ok block → P (.putBlock block)) :
    (putBlock blockData).Makes P := by
  unfold putBlock accepted
  cases hacc : acceptPut blockData with
  | error e => trivial
  | ok block => exact ⟨h block hacc, fun _ => trivial⟩

/-! ### What a client sends -/

/-- `WRITE_FRAME_BYTES`. -/
def writeFrameBytes : ℕ := 256 * 1024

/-- The messages of a client that writes a chunk. -/
def writeMessages (block : BlockId) (chunk : ChunkInfo) (data : Bytes) : List WriteChunkMessage :=
  match flagLast (frame writeFrameBytes data) with
  | [] => []
  | (payload, last) :: rest =>
    ⟨some ⟨some block.toWire, some chunk.toWire⟩, payload, last⟩ ::
      rest.map fun f => ⟨none, f.1, f.2⟩

/-- A stream that does not break off. -/
def whole (messages : List WriteChunkMessage) : WriteStream := messages.map .ok

theorem flatten_frame {n : ℕ} (hn : 0 < n) (data : Bytes) : (frame n data).flatten = data := by
  unfold frame
  split
  · subst data
    rfl
  · exact Blocks.flatten_chunks hn data

theorem frame_ne_nil {n : ℕ} (hn : 0 < n) (data : Bytes) : frame n data ≠ [] := by
  intro h
  obtain rfl : [] = data := by
    rw [← flatten_frame hn data, h]
    rfl
  rw [frame, if_pos rfl] at h
  cases h

/-- **What is collected from the frames is the chunk.** -/
theorem collect_flagLast : ∀ (frames : List Bytes) (buf : Bytes),
    collect buf (flagLast frames) = buf ++ frames.flatten
  | [], buf => by simp [flagLast, collect]
  | [f], buf => by simp [flagLast, collect]
  | f :: g :: rest, buf => by
    rw [flagLast, collect, if_neg (by simp), collect_flagLast (g :: rest)]
    · simp
    · simp

/-- What the messages after the header add up to. -/
theorem receive_rest (header : WriteChunkHeader) : ∀ (frames : List Bytes) (buf : Bytes),
    receive (some header) buf (whole ((flagLast frames).map fun f => ⟨none, f.1, f.2⟩)) =
      .ok (some header, buf ++ frames.flatten)
  | [], buf => by simp [flagLast, whole, receive]
  | [f], buf => by simp [flagLast, whole, receive]
  | f :: g :: rest, buf => by
    rw [flagLast, List.map_cons, whole, List.map_cons, receive, Option.some_or,
      if_neg (by simp)]
    · rw [← whole, receive_rest header (g :: rest)]
      simp
    · simp

theorem receive_writeMessages (block : BlockId) (chunk : ChunkInfo) (data : Bytes) :
    receive none [] (whole (writeMessages block chunk data)) =
      .ok (some ⟨some block.toWire, some chunk.toWire⟩, data) := by
  have hne := frame_ne_nil (n := writeFrameBytes) (by decide) data
  have hflat := flatten_frame (n := writeFrameBytes) (by decide) data
  unfold writeMessages
  match hframes : frame writeFrameBytes data with
  | [] => exact absurd hframes hne
  | [f] =>
    rw [hframes] at hflat
    simp only [flagLast, List.map_nil, whole, List.map_cons, receive]
    simpa using hflat
  | f :: g :: rest =>
    rw [hframes] at hflat
    rw [flagLast, whole, List.map_cons, receive, Option.none_or, if_neg (by simp), ← whole,
      receive_rest _ (g :: rest)]
    · rw [← hflat]
      simp
    · simp

/-- **What a client writes is accepted as it was meant**, if its digests are those of the
bytes. -/
theorem acceptWrite_writeMessages {block : BlockId} {chunk : ChunkInfo} {data : Bytes}
    (h : verified data chunk.checksumData = .ok ()) :
    acceptWrite (whole (writeMessages block chunk data)) = .ok (block, chunk, data) := by
  simp only [acceptWrite, receive_writeMessages, acceptBlock, acceptChunk, required]
  dsimp only [bind, Except.bind]
  rw [BlockId.ofWire_toWire, ChunkInfo.ofWire_toWire]
  dsimp only [converted]
  rw [h]
  rfl

end Service

end OzoneRust
