import OzoneRust.Ec.Stripe
import OzoneRust.Storage.MetaStore

/-!
# Repair from survivors

`reconstruct_from_survivors` of `repair.rs`: a datanode that has lost its slots of a
container asks the survivors what block groups there are, reads their shards, decodes and
re-encodes each group, and stores the shards of the missing slots with fresh digests. A
container it had to create is closed at the end, or taken back if nothing was rebuilt or
something failed.

The peers are a function from endpoints to answers: what a peer lists for a container, if it
can be reached, and what a verified read of a block returns. The chunk store is a map from
blocks and chunk names to bytes. The local stores can fail at any call
(`OzoneRust.LocalFaults`); a failed call changes nothing, and whatever was done before it
stays done, which is why the computation is a state monad whose state survives an error
(`OzoneRust.RepairM`).
-/

namespace OzoneRust

/-! ### Peers and stores -/

/-- A peer datanode, as the repair sees it. -/
structure Peer where
  /-- `list_blocks`; `none` if the peer cannot be reached or the call fails. -/
  listBlocks : ContainerId → Option (List BlockData)
  /-- `read_chunk` of the chunk `0`, verified; `none` if it fails. -/
  readChunk : BlockId → Option Bytes

/-- What a reconstruction is asked for. -/
structure ReconstructInput where
  /-- The container. -/
  container : ContainerId
  /-- Its configuration. -/
  ec : EcReplicationConfig
  /-- The slots to rebuild here. -/
  missingSlots : List UInt8
  /-- The surviving peers, with the slot of each. -/
  sources : List (UInt8 × String)

/-- The slots of a group. -/
def ReconstructInput.total (input : ReconstructInput) : ℕ :=
  input.ec.data.toNat + input.ec.parity.toNat

/-- The errors of `repair.rs`. -/
inductive RepairError where
  /-- Too few shards could be read. -/
  | notEnoughShards (have_ need : ℕ)
  /-- The container does not exist here. -/
  | containerAbsent (id : ContainerId)
  /-- The container does not accept writes. -/
  | containerNotWritable (id : ContainerId) (state : ContainerState)
  /-- The coder failed. -/
  | ec (e : EcError)
  /-- A local store failed. -/
  | storage (e : StorageError)
  /-- The digests could not be computed. -/
  | checksum (e : Checksum.ChecksumError)
  deriving DecidableEq, Repr

/-- The stores of the datanode that repairs. -/
structure Target where
  /-- The metadata. -/
  store : MetaStore
  /-- The chunks, by block and name. -/
  chunks : BlockId → String → Option Bytes

/-- A target that stores nothing. -/
def Target.empty : Target := ⟨.empty, fun _ _ => none⟩

/-- Which calls to the local stores fail, and how. -/
structure LocalFaults where
  /-- `get_container`. -/
  getContainer : Option StorageError
  /-- `create_container`. -/
  createContainer : Option StorageError
  /-- `set_container_state`. -/
  setContainerState : Option StorageError
  /-- `MetaStore::delete_container`. -/
  deleteContainer : Option StorageError
  /-- `ChunkStore::delete_container`. -/
  deleteChunks : Option StorageError
  /-- `write_chunk`. -/
  writeChunk : BlockId → Option StorageError
  /-- `put_block`. -/
  putBlock : BlockId → Option StorageError

/-- No call fails. -/
def LocalFaults.none : LocalFaults :=
  ⟨.none, .none, .none, .none, .none, fun _ => .none, fun _ => .none⟩

/-! ### Survivors -/

/-- What the survivors told: the shards that were read, per group and slot, and the least
length reported for a group. -/
structure Enumeration where
  /-- The shards. -/
  shards : SortedMap UInt64 (List (Option Bytes))
  /-- The lengths. -/
  lengths : SortedMap UInt64 UInt64

/-- One block a survivor lists. A block without a positive group length is passed over; a
shard that cannot be read still has its length counted. -/
def enumerateBlock (input : ReconstructInput) (slot : UInt8) (peer : Peer) (acc : Enumeration)
    (bd : BlockData) : Enumeration :=
  let loc := bd.blockId.localId
  match bd.blockGroupLen with
  | none => acc
  | some len =>
    if len = 0 then acc
    else
      let lengths := acc.lengths.insert loc (match acc.lengths.get? loc with
        | some m => min m len
        | none => len)
      match peer.readChunk ⟨input.container, loc, slot⟩ with
      | none => ⟨acc.shards, lengths⟩
      | some bytes =>
        let old := (acc.shards.get? loc).getD (List.replicate input.total none)
        ⟨acc.shards.insert loc (old.set (slot.toNat - 1) (some bytes)), lengths⟩

/-- A source whose slot is no slot, or one to be rebuilt, is not asked. -/
def ReconstructInput.skips (input : ReconstructInput) (slot : UInt8) : Bool :=
  slot = 0 ∨ input.total < slot.toNat ∨ slot ∈ input.missingSlots

/-- One survivor. -/
def enumerateSource (net : String → Peer) (input : ReconstructInput) (acc : Enumeration)
    (src : UInt8 × String) : Enumeration :=
  if input.skips src.1 then acc
  else
    match (net src.2).listBlocks input.container with
    | none => acc
    | some blocks => blocks.foldl (enumerateBlock input src.1 (net src.2)) acc

/-- All survivors. -/
def enumerate (net : String → Peer) (input : ReconstructInput) : Enumeration :=
  input.sources.foldl (enumerateSource net input) ⟨.empty, .empty⟩

/-! ### Local calls -/

/-- How a repair ends early. -/
inductive Abort where
  /-- With an error. -/
  | err (e : RepairError)
  /-- With a panic. -/
  | panic
  deriving DecidableEq, Repr

/-- A computation of the repair: what is stored stays stored when it fails. -/
abbrev RepairM := EStateM Abort Target

namespace RepairM

/-- A computation without local calls. -/
def ofOutcome {ε α : Type} (f : ε → RepairError) : Outcome ε α → RepairM α
  | .ok a => pure a
  | .err e => throw (.err (f e))
  | .panic => throw .panic

/-- A call to a local store fails here, or goes on. -/
def fault : Option StorageError → RepairM Unit
  | none => pure ()
  | some e => throw (.err (.storage e))

/-- A call to the metadata store. -/
def onStore {α : Type} (f : MetaStore → Except StorageError (α × MetaStore)) : RepairM α := do
  let t ← get
  match f t.store with
  | .error e => throw (.err (.storage e))
  | .ok (a, store) => do
    set { t with store := store }
    return a

/-- `write_chunk`. -/
def writeChunk (b : BlockId) (name : String) (data : Bytes) : RepairM Unit :=
  modify fun t =>
    { t with chunks := Function.update t.chunks b (Function.update (t.chunks b) name (some data)) }

end RepairM

open RepairM

/-- `rollback_created`: both deletions are tried, and no failure is surfaced. -/
def rollbackCreated (F : LocalFaults) (id : ContainerId) : RepairM Unit := do
  modify fun t => match F.deleteContainer, t.store.deleteContainer id with
    | none, .ok (_, store) => { t with store := store }
    | _, _ => t
  modify fun t => match F.deleteChunks with
    | none => { t with chunks := fun b => if b.container = id then fun _ => none else t.chunks b }
    | some _ => t

/-! ### Rebuilding -/

/-- The shard of a slot, data shards first. -/
def encodedSlot (k : ℕ) (encoded : EncodedShards) (slot : UInt8) : Outcome EcError Bytes :=
  if slot.toNat ≤ k then Outcome.index encoded.data (slot.toNat - 1)
  else Outcome.index encoded.parity (slot.toNat - 1 - k)

/-- The chunk of a rebuilt shard. -/
def rebuiltChunk (shard : Bytes) (cd : ChecksumData) : ChunkInfo :=
  ⟨"0", 0, UInt64.ofNat shard.length, some cd⟩

/-- One missing slot of a group: its bytes, then its block record. -/
def persistSlot (F : LocalFaults) (input : ReconstructInput) (loc len : UInt64)
    (encoded : EncodedShards) (slot : UInt8) : RepairM Unit :=
  if slot = 0 ∨ input.total < slot.toNat then pure ()
  else do
    let shard ← ofOutcome .ec (encodedSlot input.ec.data.toNat encoded slot)
    match Checksum.compute shard input.ec.ecChunkSize .crc32c with
    | .error e => throw (.err (.checksum e))
    | .ok cd => do
      let id : BlockId := ⟨input.container, loc, slot⟩
      fault (F.writeChunk id)
      writeChunk id "0" shard
      let bd := { BlockData.new id with chunks := [rebuiltChunk shard cd] }
      fault (F.putBlock id)
      let _ ← onStore fun s => s.putBlock (bd.setBlockGroupLen len)

/-- One group of `rebuild_groups`, with the groups rebuilt so far. A group of which too few
shards were read is passed over. -/
def rebuildGroup (isal : IsaL) (F : LocalFaults) (input : ReconstructInput)
    (lengths : SortedMap UInt64 UInt64) (rebuilt : List UInt64)
    (group : UInt64 × List (Option Bytes)) : RepairM (List UInt64) :=
  match lengths.get? group.1 with
  | none => pure rebuilt
  | some len =>
    if group.2.countP Option.isSome < input.ec.data.toNat then pure rebuilt
    else do
      let object ← ofOutcome .ec (decodeObject isal input.ec.profile len.toNat group.2)
      let encoded ← ofOutcome .ec (encodeObject isal input.ec.profile object)
      input.missingSlots.foldlM (fun _ => persistSlot F input group.1 len encoded) ()
      return rebuilt ++ [group.1]

/-- `rebuild_groups`. -/
def rebuildGroups (isal : IsaL) (F : LocalFaults) (input : ReconstructInput) (e : Enumeration) :
    RepairM (List UInt64) :=
  e.shards.entries.foldlM (rebuildGroup isal F input e.lengths) []

/-- What is found at the target. -/
inductive Provision where
  /-- The container was rebuilt before. -/
  | finished
  /-- The container is open and stays so. -/
  | existing
  /-- The container was created. -/
  | created
  deriving DecidableEq, Repr

/-- The target container is found or created. -/
def provision (F : LocalFaults) (input : ReconstructInput) : RepairM Provision := do
  fault F.getContainer
  match (← get).store.getContainer input.container with
  | some ci =>
    if ci.state = .closed then return .finished
    else if ci.state.isWritable then return .existing
    else throw (.err (.containerNotWritable input.container ci.state))
  | none => do
    fault F.createContainer
    onStore fun s => s.createContainer (.newOpen input.container input.ec)
    return .created

/-- The computation, and what is done if it fails; a panic is not caught. -/
def orElse {α : Type} (x : RepairM α) (cleanup : RepairM Unit) : RepairM α := fun t =>
  match x t with
  | .error (.err e) t' =>
    match cleanup t' with
    | .ok _ t'' => .error (.err e) t''
    | .error a t'' => .error a t''
  | r => r

/-- The end of a rebuild into a container that was created: it is closed, or taken back if it
is empty. -/
def finishCreated (F : LocalFaults) (input : ReconstructInput) (rebuilt : List UInt64) :
    RepairM (List UInt64) :=
  if rebuilt = [] then do
    rollbackCreated F input.container
    return []
  else do
    fault F.setContainerState
    onStore fun s => s.setContainerState input.container .closed
    return rebuilt

/-- `reconstruct_from_survivors`: the groups rebuilt. -/
def reconstructFromSurvivors (isal : IsaL) (F : LocalFaults) (net : String → Peer)
    (input : ReconstructInput) : RepairM (List UInt64) :=
  let e := enumerate net input
  if e.shards.entries = [] then pure []
  else do
    match ← provision F input with
    | .finished => return []
    | .existing => rebuildGroups isal F input e
    | .created => do
      let rebuilt ← orElse (rebuildGroups isal F input e) (rollbackCreated F input.container)
      finishCreated F input rebuilt

/-! ### Reading -/

/-- `read_chunk` of the service, of the chunk `0` without digests from the caller, verified
against the digests of the block record. -/
def Target.readVerified (t : Target) (b : BlockId) : Except StorageError Bytes :=
  match t.chunks b "0" with
  | none => .error (.blockNotFound b)
  | some data =>
    let expected := (t.store.getBlock b).bind fun bd =>
      (bd.chunks.find? fun c => c.chunkName = "0").bind (·.checksumData)
    match expected with
    | none => .ok data
    | some cd =>
      match Checksum.verify data cd with
      | .ok _ => .ok data
      | .error e => .error (.checksum e)

end OzoneRust
