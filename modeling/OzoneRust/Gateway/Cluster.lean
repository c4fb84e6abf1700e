import OzoneRust.Datanode.Service
import OzoneRust.Gateway.Multipart
import OzoneRust.Lib.Handlers

/-!
# The gateway and its datanodes

In `OzoneRust.World` a slot on a datanode is a cell, and a request to a datanode is one step that
may do this or that to the cell. Here the datanodes are those of the repository: a request is sent,
and the datanode runs the handler of `OzoneRust.Service` for it, one call on its stores after the
other, while the handlers of other requests do the same. The client of a datanode
(`ozone-dn-client`) turns the request into a message and what comes back into bytes or an error.

So each request of the gateway to a datanode is a program (`OzoneRust.handle`), and a call of the
gateway is the program of `OzoneRust.MultipartRequest.run` with these in place of the requests
(`OzoneRust.MultipartRequest.runOn`). The manager and the dialling of a datanode stay as they are in
`OzoneRust.MultipartAnswers`.

Every call on a store can fail. A connection can break at any point, before a request arrives,
between two calls on the stores, or with the answer on its way back; the handler does not go on
after that.
-/

namespace OzoneRust

/-! ### The client of a datanode -/

/-- A state of a container in a text. -/
def ContainerState.text : ContainerState → String
  | .open => "Open"
  | .closing => "Closing"
  | .quasiClosed => "QuasiClosed"
  | .closed => "Closed"
  | .unhealthy => "Unhealthy"
  | .deleted => "Deleted"

/-- An algorithm in a text. -/
def ChecksumType.text : ChecksumType → String
  | .none => "None"
  | .crc32 => "Crc32"
  | .crc32c => "Crc32c"
  | .sha256 => "Sha256"
  | .md5 => "Md5"

/-- The text of an error about digests. -/
def Checksum.ChecksumError.text : Checksum.ChecksumError → String
  | .mismatch window => "checksum mismatch at window " ++ toString window
  | .countMismatch windows provided => "checksum count mismatch: data spans " ++ toString windows ++
      " windows but " ++ toString provided ++ " digests were provided"
  | .unsupported ty => "unsupported checksum type for chunk verification: " ++ ty.text

/-- The text of a storage error. -/
def StorageError.text : StorageError → String
  | .io message => "io error: " ++ message
  | .checksum e => e.text
  | .containerNotFound id => "container " ++ toString id.toNat ++ " not found"
  | .containerExists id => "container " ++ toString id.toNat ++ " already exists"
  | .containerNotOpen id state =>
    "container " ++ toString id.toNat ++ " is not open (state " ++ state.text ++ ")"
  | .blockNotFound id => "block " ++ Service.blockText id ++ " not found"
  | .metaError message => "metadata store error: " ++ message
  | .corrupt message => "corrupt stored data: " ++ message

/-- The text of a conversion error. -/
def ConversionError.text : ConversionError → String
  | .missingField field => "missing required field: " ++ field
  | .badEnum field value =>
    "invalid enum value " ++ toString value.toInt ++ " for field " ++ field
  | .outOfRange field value =>
    "value " ++ toString value.toNat ++ " out of range for field " ++ field
  | .ecConfig (.data n) => "EC data shards must be in 1..=32, got " ++ toString n.toNat
  | .ecConfig (.parity n) => "EC parity shards must be in 1..=32, got " ++ toString n.toNat
  | .ecConfig .chunkSize => "EC chunk size must be > 0"
  | .codec name => "unknown EC codec: \"" ++ name ++ "\""

/-- The message of a status. -/
def Status.message : Status → String
  | .storage e => e.text
  | .conversion e => e.text
  | .missing field => "missing required field: " ++ field
  | .dataLoss e => e.text
  | .notFound message => message
  | .broken _ message => message

/-- `From<tonic::Status> for DnClientError`, as far as the gateway tells the errors apart. -/
def DnClientError.ofStatus (s : Status) : DnClientError :=
  if s.code = .alreadyExists then .alreadyExists else .failed s.message

/-! ### Calls -/

/-- A call in the cluster. -/
inductive ClusterOp where
  /-- A request to the manager, or the dialling of a datanode. -/
  | service (op : MultipartOp)
  /-- A request is sent to a datanode. -/
  | send (req : GatewayOp)
  /-- The handler of a request makes a call on the stores of its datanode. -/
  | store (req : GatewayOp) (endpoint : String) (op : StoreOp)

/-- The calls with their answers; the error of the last two is that of a broken connection. -/
def clusterCalls : Calls where
  Op := ClusterOp
  Res
    | .service op => multipartCalls.Res op
    | .send _ => Except String Unit
    | .store _ _ op => Except String (Except StorageError op.Val)

section Requests

variable {ε α : Type}

/-- The client goes on, unless the connection is broken. -/
def unlessBroken {β : Type} (k : β → Prog clusterCalls ε (Except DnClientError α)) :
    Except String β → Prog clusterCalls ε (Except DnClientError α)
  | .error message => .done (.ok (.error (.failed message)))
  | .ok b => k b

/-- A datanode runs the handler of a request, and the client gets what it returns. -/
def serve (req : GatewayOp) (endpoint : String) :
    Service.ServiceM α → Prog clusterCalls ε (Except DnClientError α)
  | .done (.ok a) => .done (.ok (.ok a))
  | .done (.err s) => .done (.ok (.error (.ofStatus s)))
  | .done .panic => .done (.ok (.error (.failed "transport error")))
  | .call op next => .call (C := clusterCalls) (.store req endpoint op)
    (unlessBroken fun r => serve req endpoint (next r))

/-- A request to a datanode. -/
def request (req : GatewayOp) (endpoint : String) (handler : Service.ServiceM α) :
    Prog clusterCalls ε (Except DnClientError α) :=
  .call (C := clusterCalls) (.send req) (unlessBroken fun _ => serve req endpoint handler)

/-- `DnClient::create_container`. -/
def DnClient.createContainer (endpoint : String) (id : ContainerId) (ec : EcReplicationConfig) :
    Prog clusterCalls ε (Except DnClientError ContainerState) :=
  request (.createContainer endpoint id ec) endpoint
    (Service.createContainer ⟨some id, some ec.toWire⟩)

/-- `DnClient::write_chunk`. -/
def DnClient.writeChunk (endpoint : String) (block : BlockId) (chunk : ChunkInfo) (data : Bytes) :
    Prog clusterCalls ε (Except DnClientError ℕ) :=
  request (.writeChunk endpoint block chunk data) endpoint
    (Service.writeChunk (Service.whole (Service.writeMessages block chunk data)))

/-- `DnClient::put_block`. -/
def DnClient.putBlock (endpoint : String) (block : BlockData) (eof : Bool) :
    Prog clusterCalls ε (Except DnClientError ℕ) :=
  request (.putBlock endpoint block eof) endpoint (Service.putBlock (some block.toWire))

/-- `DnClient::read_chunk`: the frames, put together. -/
def DnClient.readChunk (endpoint : String) (block : BlockId) (chunk : ChunkInfo) (verify : Bool) :
    Prog clusterCalls ε (Except DnClientError Bytes) := do
  let frames ← request (.readChunk endpoint block chunk verify) endpoint
    (Service.readChunk ⟨some block.toWire, some chunk.toWire, verify⟩)
  return frames.map (Service.collect [])

/-- `DnClient::delete_block`. -/
def DnClient.deleteBlock (endpoint : String) (block : BlockId) :
    Prog clusterCalls ε (Except DnClientError Unit) :=
  request (.deleteBlock endpoint block) endpoint (Service.deleteBlock (some block.toWire))

/-- **What carries out a request of the gateway.** -/
def handle : (op : multipartCalls.Op) → Prog clusterCalls ε (multipartCalls.Res op)
  | .object (.createContainer endpoint id ec) => do
    return (← DnClient.createContainer endpoint id ec).map fun _ => ()
  | .object (.writeChunk endpoint block chunk data) => do
    return (← DnClient.writeChunk endpoint block chunk data).map fun _ => ()
  | .object (.putBlock endpoint block eof) => do
    return (← DnClient.putBlock endpoint block eof).map fun _ => ()
  | .object (.readChunk endpoint block chunk verify) =>
    DnClient.readChunk endpoint block chunk verify
  | .object (.deleteBlock endpoint block) => DnClient.deleteBlock endpoint block
  | op => Prog.perform (C := clusterCalls) (.service op)

end Requests

/-- The program of a call of the gateway, on its datanodes. -/
def MultipartRequest.runOn (gw : Gateway) (req : MultipartRequest) :
    Prog clusterCalls GatewayError MultipartReply :=
  (req.run gw).interpret handle

/-! ### The cluster -/

/-- What happened: a call of the gateway started, or one of its calls was answered. -/
inductive ClusterEvent where
  /-- Call `t` started. -/
  | start (t : Tid)
  /-- The manager answered a request of call `t`, or a datanode was dialled. -/
  | service (t : Tid) (op : MultipartOp) (r : multipartCalls.Res op) (served : Bool)
  /-- A request of call `t` was sent to a datanode. -/
  | send (t : Tid) (req : GatewayOp) (r : Except String Unit)
  /-- A handler made a call on the stores of its datanode, for a request of call `t`. -/
  | store (t : Tid) (req : GatewayOp) (endpoint : String) (op : StoreOp)
      (r : Except String (Except StorageError op.Val))

/-- The call an event belongs to. -/
def ClusterEvent.tid : ClusterEvent → Tid
  | .start t => t
  | .service t _ _ _ => t
  | .send t _ _ => t
  | .store t _ _ _ _ => t

/-- The manager, the datanodes, and the log of what happened. -/
structure ClusterWorld where
  /-- The groups the manager has allocated. -/
  alloc : GroupId → Option Alloc
  /-- The keys. -/
  keys : KeyName → Option KeyRecord
  /-- The uploads. -/
  uploads : String → UploadState
  /-- The stores of the datanode at each endpoint. -/
  nodes : String → Target
  /-- The log, newest first. -/
  log : List ClusterEvent

/-- The result of a request that is settled by the one call its handler makes. -/
def settled {α : Type} : Except String (Except StorageError α) → Except DnClientError Unit
  | .error message => .error (.failed message)
  | .ok (.error e) => .error (.ofStatus (.storage e))
  | .ok (.ok _) => .ok ()

/-- The result of a request that is settled before its handler makes a call. -/
def settledEarly {α : Type} (handler : Service.ServiceM α) :
    Except String Unit → Option (Except DnClientError Unit)
  | .error message => some (.error (.failed message))
  | .ok _ =>
    match handler with
    | .done (.ok _) => some (.ok ())
    | .done (.err s) => some (.error (.ofStatus s))
    | .done .panic => some (.error (.failed "transport error"))
    | .call _ _ => none

/-- What the gateway sees of an event: that the manager has answered, that a container, a chunk or a
record has been written or could not be, and that one may have been deleted. -/
def ClusterEvent.seen? : ClusterEvent → Option MultipartEvent
  | .start t => some (.start t)
  | .service t op r served => some (.answer t op r served)
  | .send t (.createContainer endpoint id ec) r =>
    (settledEarly (Service.createContainer ⟨some id, some ec.toWire⟩) r).map fun r =>
      .answer t (.object (.createContainer endpoint id ec)) r true
  | .send t (.writeChunk endpoint block chunk data) r =>
    (settledEarly
      (Service.writeChunk (Service.whole (Service.writeMessages block chunk data))) r).map
      fun r => .answer t (.object (.writeChunk endpoint block chunk data)) r true
  | .send t (.putBlock endpoint block eof) r =>
    (settledEarly (Service.putBlock (some block.toWire)) r).map fun r =>
      .answer t (.object (.putBlock endpoint block eof)) r true
  | .send _ _ _ => none
  | .store t (.createContainer endpoint id ec) _ _ r =>
    some (.answer t (.object (.createContainer endpoint id ec)) (settled r) true)
  | .store t (.writeChunk endpoint block chunk data) _ _ r =>
    some (.answer t (.object (.writeChunk endpoint block chunk data)) (settled r) true)
  | .store t (.putBlock endpoint block eof) _ _ r =>
    some (.answer t (.object (.putBlock endpoint block eof)) (settled r) true)
  | .store t (.deleteBlock _ _) _ (.deleteChunk _ _) _ => some (.start t)
  | .store t (.deleteBlock _ _) _ (.deleteBlock _) _ => some (.start t)
  | .store _ _ _ _ _ => none

/-- A slot of the gateway on a datanode: the one chunk that the gateway writes to it, and the
digests of this chunk that are on record. -/
def Holdings.cell (h : Holdings) (b : BlockId) : Cell :=
  ⟨h.chunk b "0", (h.block b).bind slotDigests?⟩

namespace ClusterWorld

/-- No key, no block, no upload, and nothing on the datanodes. -/
def empty : ClusterWorld := ⟨fun _ => none, fun _ => none, fun _ => .unused, fun _ => .empty, []⟩

/-- The world with one more event. -/
def logged (w : ClusterWorld) (e : ClusterEvent) : ClusterWorld := { w with log := e :: w.log }

/-- The world with other stores at an endpoint. -/
def setNode (w : ClusterWorld) (endpoint : String) (node : Target) : ClusterWorld :=
  { w with nodes := Function.update w.nodes endpoint node }

/-- The world with what the manager has in another. -/
def setManager (w : ClusterWorld) (m : MultipartWorld) : ClusterWorld :=
  { w with alloc := m.objects.alloc, keys := m.objects.keys, uploads := m.uploads }

/-- **The cluster as the gateway sees it.** -/
def services (w : ClusterWorld) : MultipartWorld where
  objects :=
    { alloc := w.alloc
      keys := w.keys
      cells := fun endpoint => (w.nodes endpoint).holdings.cell
      log := [] }
  uploads := w.uploads
  log := w.log.filterMap ClusterEvent.seen?

end ClusterWorld

/-- The calls that the stores of a datanode may fail: all of them. -/
def StoreOp.always (_ : StoreOp) : Prop := True

/-- **The cluster as a system.** A call on the stores whose connection breaks may have been made or
not. -/
def clusterSystem : System clusterCalls Tid ClusterWorld where
  starts t w w' := w' = w.logged (.start t)
  answers t w op r w' :=
    match op, r with
    | .service op, r => ∃ served m, MultipartAnswers t w.services op r served m ∧
        w' = (w.setManager m).logged (.service t op r served)
    | .send req, r => w' = w.logged (.send t req r)
    | .store req endpoint op, r =>
      (∃ r₀ node, StoreOp.Answers StoreOp.always (w.nodes endpoint) op r₀ node ∧
        (r = .ok r₀ ∨ ∃ message, r = .error message) ∧
        w' = (w.setNode endpoint node).logged (.store t req endpoint op r)) ∨
      (∃ message, r = .error message) ∧ w' = w.logged (.store t req endpoint op r)

end OzoneRust
