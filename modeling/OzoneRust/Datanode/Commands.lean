import OzoneRust.Datanode.Repair
import OzoneRust.Gateway.Wire
import OzoneRust.Lib.Interleave

/-!
# The commands of the storage container manager

A datanode asks its storage container manager for commands with each heartbeat and executes
them before the next: it closes or deletes a container, or rebuilds the slots of one that are
assigned to it. After a close or a rebuild it announces the state of the container
(`OzoneRust.reportState`), by adding a replica to the list of pending reports.

The handlers are programs over the calls they make on the local stores and on that list
(`OzoneRust.nodeCalls`), since both change between two calls: clients write, and the reporter
of the scrubber's findings adds to the list. A rebuild is one call.
-/

namespace OzoneRust

/-! ### Reports -/

/-- The states of `ContainerReplicaProto`. -/
inductive ReplicaState where
  /-- `OPEN`. -/
  | open
  /-- `CLOSING`. -/
  | closing
  /-- `QUASI_CLOSED`. -/
  | quasiClosed
  /-- `CLOSED`. -/
  | closed
  /-- `UNHEALTHY`. -/
  | unhealthy
  /-- `INVALID`. -/
  | invalid
  /-- `DELETED`. -/
  | deleted
  deriving DecidableEq, Repr

/-- `container_state_to_real`. -/
def containerStateToReal : ContainerState → ReplicaState
  | .open => .open
  | .closing => .closing
  | .quasiClosed => .quasiClosed
  | .closed => .closed
  | .unhealthy => .unhealthy
  | .deleted => .deleted

/-- `ContainerReplicaProto`, as far as a datanode fills it in. -/
structure ContainerReplica where
  /-- The container. -/
  containerId : Int64
  /-- Its state. -/
  state : ReplicaState
  /-- The slot. -/
  replicaIndex : Option Int32
  /-- The datanode. -/
  originNodeId : Option String
  /-- The number of blocks. -/
  keyCount : Option Int64
  /-- The bytes in use. -/
  used : Option Int64
  deriving DecidableEq, Repr

/-- `slot as i32`. -/
def slotToI32 (slot : UInt8) : Int32 := slot.toUInt32.toInt32

/-- `unhealthy_replica`. -/
def unhealthyReplica (uuid : String) (container : ContainerId) (slot : UInt8) : ContainerReplica :=
  ⟨container.toInt64, .unhealthy, some (slotToI32 slot), some uuid, none, none⟩

/-- The replica `report_state` announces, from the record of a container and its first block. -/
def stateReplica (uuid : String) (container : ContainerId) (ci : ContainerInfo)
    (first : BlockData) : ContainerReplica :=
  ⟨container.toInt64, containerStateToReal ci.state, some (slotToI32 first.blockId.replicaIndex),
    some uuid, some (Int64.ofNat ci.blockCount), some ci.usedBytes.toInt64⟩

/-! ### Commands -/

/-- `DatanodeDetailsProto`, with the id of the datanode. -/
structure DatanodeProto extends DatanodeDetails where
  /-- The id. -/
  uuid : Option String
  deriving DecidableEq, Repr

/-- `ReconstructEcContainersCommandProto`. -/
structure ReconstructCommand where
  /-- The container. -/
  containerId : Int64
  /-- The survivors, with the slot of each. -/
  sources : List (DatanodeProto × Int32)
  /-- The datanodes that rebuild. -/
  targets : List DatanodeProto
  /-- The slots to rebuild, one per target. -/
  missingContainerIndexes : Bytes
  /-- The configuration. -/
  ecReplicationConfig : EcProto
  deriving DecidableEq, Repr

/-- The command types that are handled; the others are one. -/
inductive CommandType where
  /-- `CloseContainerCommand`. -/
  | closeContainer
  /-- `DeleteContainerCommand`. -/
  | deleteContainer
  /-- `ReconstructEcContainersCommand`. -/
  | reconstructEcContainers
  /-- Any other number. -/
  | other
  deriving DecidableEq, Repr

/-- `ScmCommandProto`: a type, and an optional body for each type. -/
structure ScmCommand where
  /-- The type. -/
  commandType : CommandType
  /-- The container to close. -/
  closeContainer : Option Int64
  /-- The container to delete. -/
  deleteContainer : Option Int64
  /-- What to rebuild. -/
  reconstruct : Option ReconstructCommand
  deriving DecidableEq, Repr

/-! ### Calls -/

/-- A call of a handler. -/
inductive NodeOp where
  /-- `MetaStore::set_container_state`. -/
  | setContainerState (id : ContainerId) (state : ContainerState)
  /-- `MetaStore::get_container`. -/
  | getContainer (id : ContainerId)
  /-- `MetaStore::list_blocks`. -/
  | listBlocks (id : ContainerId) (start : UInt64) (limit : ℕ)
  /-- `MetaStore::delete_container`. -/
  | deleteContainer (id : ContainerId)
  /-- `ChunkStore::delete_container`. -/
  | deleteChunks (id : ContainerId)
  /-- `reconstruct_from_survivors`. -/
  | reconstruct (input : ReconstructInput)
  /-- A replica is added to the pending reports. -/
  | push (replica : ContainerReplica)

/-- The answers. -/
abbrev NodeOp.Res : NodeOp → Type
  | .setContainerState _ _ => Except StorageError Unit
  | .getContainer _ => Except StorageError (Option ContainerInfo)
  | .listBlocks _ _ _ => Except StorageError BlockPage
  | .deleteContainer _ => Except StorageError Unit
  | .deleteChunks _ => Except StorageError Unit
  | .reconstruct _ => Outcome RepairError (List UInt64)
  | .push _ => Unit

/-- The calls of a handler. -/
def nodeCalls : Calls := ⟨NodeOp, NodeOp.Res⟩

/-- A handler: it returns nothing and fails with nothing, but it can panic. -/
abbrev Handler := Prog nodeCalls Empty Unit

/-- One call. -/
def NodeOp.perform (op : NodeOp) : Prog nodeCalls Empty op.Res := Prog.perform (C := nodeCalls) op

/-! ### Handlers -/

/-- `report_state`: a container without a record or without blocks is not announced. -/
def reportState (uuid : String) (container : ContainerId) : Handler := do
  match ← (NodeOp.getContainer container).perform with
  | .ok (some ci) =>
    match ← (NodeOp.listBlocks container 0 1).perform with
    | .ok page =>
      match page.blocks.head? with
      | some first => (NodeOp.push (stateReplica uuid container ci first)).perform
      | none => pure ()
    | .error _ => pure ()
  | _ => pure ()

/-- `to_domain_ec`. The numbers are cut to their width before they are checked. -/
def toDomainEc (w : EcProto) : Option EcReplicationConfig :=
  match EcCodec.fromStr w.codec with
  | none => none
  | some codec =>
    EcReplicationConfig.new w.data.toUInt32.toUInt8 w.parity.toUInt32.toUInt8
      w.ecChunkSize.toUInt32 codec

/-- The slots a command assigns to a datanode. -/
def mySlots (uuid : String) (cmd : ReconstructCommand) : List UInt8 :=
  ((cmd.targets.zip cmd.missingContainerIndexes).filter fun t => t.1.uuid = some uuid).map Prod.snd

/-- A source of a command, unless its slot is to be rebuilt here or it has no replication
port. -/
def reconstructSource (slots : List UInt8) (source : DatanodeProto × Int32) :
    Option (UInt8 × String) :=
  let slot := source.2.toUInt32.toUInt8
  if slots.contains slot then none
  else
    (source.1.ports.find? fun p => p.name = replicationPortName).map fun port =>
      (slot, "http://" ++ source.1.ipAddress ++ ":" ++ toString port.value.toNat)

/-- `handle_reconstruct`. The state is announced if something was rebuilt. -/
def handleReconstruct (uuid : String) (cmd : ReconstructCommand) : Handler :=
  let slots := mySlots uuid cmd
  if slots = [] then pure ()
  else
    let container := cmd.containerId.toUInt64
    match toDomainEc cmd.ecReplicationConfig with
    | none => pure ()
    | some ec => do
      let sources := cmd.sources.filterMap (reconstructSource slots)
      match ← (NodeOp.reconstruct ⟨container, ec, slots, sources⟩).perform with
      | .ok locals => if locals ≠ [] then reportState uuid container else pure ()
      | .err _ => pure ()
      | .panic => .done .panic

/-- `handle_command`. -/
def handleCommand (uuid : String) (cmd : ScmCommand) : Handler :=
  match cmd.commandType with
  | .closeContainer =>
    match cmd.closeContainer with
    | none => pure ()
    | some c => do
      match ← (NodeOp.setContainerState c.toUInt64 .closed).perform with
      | .ok _ => reportState uuid c.toUInt64
      | .error _ => pure ()
  | .deleteContainer =>
    match cmd.deleteContainer with
    | none => pure ()
    | some c => do
      let _ ← (NodeOp.deleteContainer c.toUInt64).perform
      let _ ← (NodeOp.deleteChunks c.toUInt64).perform
  | .reconstructEcContainers =>
    match cmd.reconstruct with
    | none => pure ()
    | some c => handleReconstruct uuid c
  | .other => pure ()

end OzoneRust
