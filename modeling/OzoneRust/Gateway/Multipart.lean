import OzoneRust.Gateway.World
import OzoneRust.Lib.Embed

/-!
# Multipart uploads

An object can be uploaded in parts. `initiate_multipart` has the manager open an upload,
`upload_part` writes the blocks of one part and commits them to the upload, `complete_multipart`
has the manager make an object of the parts it is told, and `abort_multipart` drops the upload
(`backend.rs`, and the calls of `compliant.rs` below it). The gateway itself remembers nothing
between these calls.

The requests of the operations on whole objects are `OzoneRust.GatewayOp`; here are those of
multipart uploads beside them (`OzoneRust.MultipartOp`). A program of whole objects is one of the
larger system by `OzoneRust.Prog.embed`.

What the manager may answer is `OzoneRust.MultipartAnswers`, as weak as `OzoneRust.Answers`: every
request may fail, and a request that fails may have taken effect. An upload id is given once. A
part that is committed again replaces the one before; a completion makes the key at once, of the
parts as they are then, and closes the upload, so that no part of it can be committed and no
other object be made of it.
-/

namespace OzoneRust

/-! ### Requests to the services -/

/-- A single request of the gateway, those of multipart uploads included. -/
inductive MultipartOp where
  /-- A request of the operations on whole objects. -/
  | object (op : GatewayOp)
  /-- `InitiateMultiPartUpload`. -/
  | initiate (key : KeyName)
  /-- `CommitMultiPartUpload`. -/
  | commitPart (key : KeyName) (uploadId : String) (partNumber : UInt32) (clientId : UInt64)
      (locations : List KeyLocation) (size : UInt64) (metadata : List (String × Option String))
  /-- `AbortMultiPartUpload`. -/
  | abort (key : KeyName) (uploadId : String)
  deriving DecidableEq

/-- The requests with their answers. -/
def multipartCalls : Calls where
  Op := MultipartOp
  Res
    | .object op => gatewayCalls.Res op
    | .initiate _ => Except OmError (Option String)
    | .commitPart .. => Except OmError (Option (Option String))
    | .abort .. => Except OmError Unit

/-- The requests of the operations on whole objects are among them. -/
def objectCalls : gatewayCalls.Embedding multipartCalls := ⟨.object, fun _ r => r⟩

/-- A computation of the gateway. -/
abbrev MpM := Prog multipartCalls GatewayError

namespace OmClient

/-- `OzoneOmClient::initiate_multipart`: the upload id. -/
def initiateMultipart (key : KeyName) : Prog multipartCalls OmError String := do
  let resp ← Prog.lift (.ofExcept id (← Prog.perform (C := multipartCalls) (.initiate key)))
  (present "initiate_multi_part_upload_response" resp).embed objectCalls

/-- `OzoneOmClient::commit_part`: the name of the part. -/
def commitPart (key : KeyName) (uploadId : String) (partNumber : UInt32) (clientId : UInt64)
    (blocks : List BlockLocation) (size : UInt64) (etagHex : String) :
    Prog multipartCalls OmError String := do
  let resp ← Prog.lift (.ofExcept id (← Prog.perform (C := multipartCalls) (.commitPart key uploadId
    partNumber clientId (blocks.map blockToKeyLocation) size [("ETAG", some etagHex)])))
  let cp ← (present "commit_multi_part_upload_response" resp).embed objectCalls
  (present "commit_multi_part_upload_response.part_name" cp).embed objectCalls

/-- `OzoneOmClient::abort_multipart`. -/
def abortMultipart (key : KeyName) (uploadId : String) : Prog multipartCalls OmError Unit := do
  Prog.lift (.ofExcept id (← Prog.perform (C := multipartCalls) (.abort key uploadId)))

end OmClient

namespace Gateway

/-- `MAX_PART_NUMBER`. -/
def maxPartNumber : UInt32 := 10000

/-- `initiate_multipart`: the upload id. -/
def initiateMultipart (key : KeyName) : MpM String :=
  (OmClient.initiateMultipart key).mapErr .ofOm

/-- `upload_part`: the ETag of the part. -/
def uploadPart (gw : Gateway) (key : KeyName) (uploadId : String) (partNumber : UInt32)
    (body : Bytes) : MpM String :=
  if ¬(1 ≤ partNumber ∧ partNumber ≤ maxPartNumber) then
    Prog.lift (.err (.badRequest ("part number " ++ toString partNumber.toNat ++
      " out of range (1..=" ++ toString maxPartNumber.toNat ++ ")")))
  else do
    let (blocks, clientId) ←
      (gw.allocateAndWrite key body (some (uploadId, partNumber))).embed objectCalls
    let etagHex := gw.md5Hex body
    let _ ← (OmClient.commitPart key uploadId partNumber clientId blocks
      (UInt64.ofNat body.length) etagHex).mapErr .ofOm
    return etagHex

/-- `abort_multipart`. -/
def abortMultipart (key : KeyName) (uploadId : String) : MpM Unit :=
  (OmClient.abortMultipart key uploadId).mapErr .ofOm

end Gateway

/-! ### The services -/

/-- A part as the manager keeps it. -/
structure PartRecord where
  /-- The locations. -/
  locations : List KeyLocation
  /-- The size. -/
  size : UInt64
  /-- The metadata of the commit. -/
  metadata : List (String × Option String)

/-- What became of an upload id. -/
inductive UploadState where
  /-- It was never given. -/
  | unused
  /-- The upload is in flight, with these parts. -/
  | active (parts : UInt32 → Option PartRecord)
  /-- The upload was completed or aborted. -/
  | closed

/-- What happened: a call of the gateway started, or one of its requests was answered. -/
inductive MultipartEvent where
  /-- Call `t` started. -/
  | start (t : Tid)
  /-- A request of call `t` was answered; `served` says whether the service acted on it. -/
  | answer (t : Tid) (op : MultipartOp) (r : multipartCalls.Res op) (served : Bool)

/-- The call an event belongs to. -/
def MultipartEvent.tid : MultipartEvent → Tid
  | .start t => t
  | .answer t _ _ _ => t

/-- The services, and the log of what happened. -/
structure MultipartWorld where
  /-- The keys, the groups and the slots. -/
  objects : World
  /-- The uploads. -/
  uploads : String → UploadState
  /-- The log, newest first. -/
  log : List MultipartEvent

namespace MultipartWorld

/-- No key, no block, no upload. -/
def empty : MultipartWorld := ⟨World.empty, fun _ => .unused, []⟩

/-- The world with another key record. -/
def setKey (w : MultipartWorld) (key : KeyName) (rec : Option KeyRecord) : MultipartWorld :=
  { w with objects := w.objects.setKey key rec }

/-- The world with another state of an upload. -/
def setUpload (w : MultipartWorld) (uploadId : String) (s : UploadState) : MultipartWorld :=
  { w with uploads := Function.update w.uploads uploadId s }

/-- The world with one more event. -/
def logged (w : MultipartWorld) (e : MultipartEvent) : MultipartWorld :=
  { w with log := e :: w.log }

/-- The object that a completion makes of some parts. -/
def assembled (parts : List PartRecord) (metadata : List (String × Option String)) : KeyRecord :=
  ⟨parts.flatMap (·.locations), parts.foldl (fun size part => size + part.size) 0, metadata⟩

/-- What a completion does: the key is made of the parts, and the upload is closed. -/
def Completes (w : MultipartWorld) (key : KeyName) (uploadId : String) (numbers : List UInt32)
    (hash : String) (w' : MultipartWorld) : Prop :=
  ∃ parts records metadata, w.uploads uploadId = .active parts ∧
    List.Forall₂ (fun n record => parts n = some record) numbers records ∧
    (metadata.filter fun kv => kv.1 = "ETAG") =
      [("ETAG", some (hash ++ "-" ++ toString numbers.length))] ∧
    w' = (w.setKey key (some (assembled records metadata))).setUpload uploadId .closed

end MultipartWorld

/-- **What a call of `t` may be answered, and what it does.** -/
def MultipartAnswers (t : Tid) (w : MultipartWorld) :
    (op : MultipartOp) → multipartCalls.Res op → Bool → MultipartWorld → Prop
  | .object (.completeMultipart key uploadId numbers), r, true, w' => ∃ hash,
      w.Completes key uploadId numbers hash w' ∧
        ∀ etag, r = .ok (some (some etag)) → etag = hash ++ "-" ++ toString numbers.length
  | .object (.completeMultipart _ _ _), r, false, w' => w' = w ∧ ∃ e, r = .error e
  | .object op, r, served, w' => ∃ objects, Answers t w.objects op r served objects ∧
      w' = { w with objects := objects }
  | .initiate _, r, true, w' => ∃ uploadId, w.uploads uploadId = .unused ∧
      w' = w.setUpload uploadId (.active fun _ => none) ∧ ∀ id, r = .ok (some id) → id = uploadId
  | .initiate _, r, false, w' => w' = w ∧ ∃ e, r = .error e
  | .commitPart _ uploadId n _ locations size metadata, _, true, w' => ∃ parts,
      w.uploads uploadId = .active parts ∧ w' = w.setUpload uploadId
        (.active (Function.update parts n (some ⟨locations, size, metadata⟩)))
  | .commitPart _ _ _ _ _ _ _, r, false, w' => w' = w ∧ ∃ e, r = .error e
  | .abort _ uploadId, _, true, w' => match w.uploads uploadId with
      | .active _ => w' = w.setUpload uploadId .closed
      | _ => w' = w
  | .abort _ _, r, false, w' => w' = w ∧ ∃ e, r = .error e

/-- The services as a system: every start and every answer is logged. -/
def multipartSystem : System multipartCalls Tid MultipartWorld where
  starts t w w' := w' = w.logged (.start t)
  answers t w op r w' :=
    ∃ served w₁, MultipartAnswers t w op r served w₁ ∧ w' = w₁.logged (.answer t op r served)

/-! ### Requests -/

/-- A call of the gateway. -/
inductive MultipartRequest where
  /-- `put_object`. -/
  | put (key : KeyName) (body : Buffer) (metadata tags : List (String × String))
  /-- `get_object`. -/
  | get (key : KeyName)
  /-- `delete_object`. -/
  | delete (key : KeyName)
  /-- `initiate_multipart`. -/
  | initiate (key : KeyName)
  /-- `upload_part`. -/
  | uploadPart (key : KeyName) (uploadId : String) (partNumber : UInt32) (body : Buffer)
  /-- `complete_multipart`. -/
  | complete (key : KeyName) (uploadId : String) (numbers : List UInt32)
  /-- `abort_multipart`. -/
  | abort (key : KeyName) (uploadId : String)

/-- What a call returns. -/
inductive MultipartReply where
  /-- An object. -/
  | object (reply : Gateway.GetReply)
  /-- An ETag or an upload id. -/
  | text (text : String)
  /-- Nothing. -/
  | done

namespace MultipartRequest

/-- The program of a call. -/
def run (gw : Gateway) : MultipartRequest → MpM MultipartReply
  | .put key body metadata tags => do
    return .text (← (gw.putObject key body.bytes metadata tags).embed objectCalls)
  | .get key => do return .object (← (gw.getObject key).embed objectCalls)
  | .delete key => do
    (Gateway.deleteObject key).embed objectCalls
    return .done
  | .initiate key => do return .text (← Gateway.initiateMultipart key)
  | .uploadPart key uploadId partNumber body => do
    return .text (← gw.uploadPart key uploadId partNumber body.bytes)
  | .complete key uploadId numbers => do
    return .text (← (Gateway.completeMultipart key uploadId numbers).embed objectCalls)
  | .abort key uploadId => do
    Gateway.abortMultipart key uploadId
    return .done

/-- The bytes a call brings. -/
def body? : MultipartRequest → Option Buffer
  | .put _ body _ _ => some body
  | .uploadPart _ _ _ body => some body
  | _ => none

end MultipartRequest

/-! ### What the log says -/

/-- Blocks that one call has committed: an object, or a part of one. -/
structure Piece where
  /-- The call. -/
  call : Tid
  /-- The locations it committed. -/
  locations : List KeyLocation
  deriving DecidableEq, Repr

/-- What an event commits. -/
def MultipartEvent.commit? : MultipartEvent → Option Piece
  | .answer t (.object (.commitKey _ _ locations _ _)) _ true => some ⟨t, locations⟩
  | .answer t (.commitPart _ _ _ _ locations _ _) _ true => some ⟨t, locations⟩
  | _ => none

/-- The upload an event completes, and the key it makes. -/
def MultipartEvent.completed? : MultipartEvent → Option (String × KeyName)
  | .answer _ (.object (.completeMultipart key uploadId _)) _ true => some (uploadId, key)
  | _ => none

/-- The part an event commits, with the upload and the number. -/
def MultipartEvent.part? : MultipartEvent → Option ((String × UInt32) × Piece)
  | .answer t (.commitPart _ uploadId n _ locations _ _) _ true =>
    some ((uploadId, n), ⟨t, locations⟩)
  | _ => none

/-- The part of an upload that was committed last under a number. -/
def lastPart (log : List MultipartEvent) (uploadId : String) (n : UInt32) : Option Piece :=
  ((log.filterMap MultipartEvent.part?).find? fun x => x.1 = (uploadId, n)).map (·.2)

/-- The key an event publishes, and the pieces of the object: the blocks of a `put_object`, or the
parts of a `complete_multipart`, each as it was committed last before. -/
def MultipartEvent.publishes? (before : List MultipartEvent) :
    MultipartEvent → Option (KeyName × Option (List Piece))
  | .answer t (.object (.commitKey key _ locations _ _)) _ true => some (key, some [⟨t, locations⟩])
  | .answer _ (.object (.completeMultipart key uploadId numbers)) _ true =>
    some (key, numbers.mapM (lastPart before uploadId))
  | _ => none

/-- **What was published last under a key**; the log is newest first. -/
def published : List MultipartEvent → KeyName → Option (List Piece)
  | [], _ => none
  | e :: before, key =>
    match e.publishes? before with
    | some (key', pieces) => if key' = key then pieces else published before key
    | none => published before key

end OzoneRust
