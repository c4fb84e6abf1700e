import OzoneRust.Ec.Layout
import OzoneRust.Lib.Lists
import OzoneRust.Types

/-!
# Key locations on the wire

The part of the Ozone Manager client that turns the manager's `KeyLocation` messages into
the gateway's blocks and back (`compliant.rs`). The signed and optional fields are the
protobuf's; a message that lacks a field or carries a value out of range is a violation of
the manager's contract and becomes `OzoneRust.OmError.missing`.

A pipeline lists its members and, in a parallel array, the replica slot of each: a member's
slot is read from that array, never from its position. `OzoneRust.Placement` is a pipeline
as the manager means it, a valid configuration whose slots are exactly `1..=k+p`, and
`OzoneRust.KeyLocation.Presents` a message that carries one, with its members in any order.
From such a message the client reads the same endpoint for every slot
(`OzoneRust.Placement.find?_slot`).
-/

namespace OzoneRust

/-! ### Errors -/

/-- The errors of the manager's client. -/
inductive OmError where
  /-- The transport failed. -/
  | rpc (message : String)
  /-- `KEY_NOT_FOUND`. -/
  | notFound
  /-- `BUCKET_NOT_FOUND`. -/
  | bucketNotFound
  /-- `NO_SUCH_MULTIPART_UPLOAD_ERROR`. -/
  | noSuchUpload
  /-- `INVALID_PART`. -/
  | invalidPart
  /-- `INVALID_PART_ORDER`. -/
  | invalidPartOrder
  /-- `ENTITY_TOO_SMALL`. -/
  | entityTooSmall
  /-- Another status. -/
  | om (status : Int) (message : String)
  /-- A response without an expected field. -/
  | missing (field : String)
  deriving DecidableEq, Repr

/-! ### Messages -/

/-- A named port of a datanode. -/
structure Port where
  /-- Its name. -/
  name : String
  /-- Its number. -/
  value : UInt32
  deriving DecidableEq, Repr

/-- A datanode as a pipeline lists it. -/
structure DatanodeDetails where
  /-- The address. -/
  ipAddress : String
  /-- The ports. -/
  ports : List Port
  deriving DecidableEq, Repr

/-- An erasure-coding configuration on the wire. -/
structure EcProto where
  /-- Data shards. -/
  data : Int32
  /-- Parity shards. -/
  parity : Int32
  /-- The codec's name. -/
  codec : String
  /-- Bytes per cell. -/
  ecChunkSize : Int32
  deriving DecidableEq, Repr

/-- A pipeline on the wire. -/
structure Pipeline where
  /-- The members. -/
  members : List DatanodeDetails
  /-- The configuration. -/
  ecReplicationConfig : Option EcProto
  /-- The slot of each member. -/
  memberReplicaIndexes : List UInt32
  deriving DecidableEq, Repr

/-- One block of a key on the wire. -/
structure KeyLocation where
  /-- The container. -/
  containerId : Int64
  /-- The block within the container. -/
  localId : Int64
  /-- The offset within the key. -/
  offset : UInt64
  /-- The length. -/
  length : UInt64
  /-- The pipeline; absent in what a client commits. -/
  pipeline : Option Pipeline
  deriving DecidableEq, Repr

/-- A key on the wire: a list of locations per version, the latest last. -/
structure KeyInfo where
  /-- The size. -/
  dataSize : UInt64
  /-- The metadata entries. -/
  metadata : List (String × Option String)
  /-- The modification time, in milliseconds. -/
  modificationTime : UInt64
  /-- The locations of each version. -/
  keyLocationList : List (List KeyLocation)
  deriving DecidableEq, Repr

/-! ### Blocks -/

/-- A datanode and the slot it holds. -/
structure DatanodeSlot where
  /-- The slot. -/
  replicaIndex : ReplicaIndex
  /-- Where to dial it. -/
  endpoint : String
  deriving DecidableEq, Repr

/-- A block of a key, as the gateway uses it. -/
structure BlockLocation where
  /-- The container. -/
  containerId : ContainerId
  /-- The block within the container. -/
  localId : LocalId
  /-- The offset within the key. -/
  offset : UInt64
  /-- The length. -/
  length : UInt64
  /-- The configuration. -/
  ec : EcReplicationConfig
  /-- The members. -/
  members : List DatanodeSlot
  deriving DecidableEq, Repr

/-! ### Conversions -/

/-- `u8::try_from` of an `i32`. -/
def tryU8 (n : Int32) : Option UInt8 :=
  if 0 ≤ n.toInt ∧ n.toInt < 256 then some (UInt8.ofNat n.toInt.toNat) else none

/-- `ec_config_from_proto`. -/
def ecConfigFromProto (ec : EcProto) : Outcome OmError EcReplicationConfig :=
  match EcCodec.fromStr ec.codec with
  | none => .err (.missing "ec.codec")
  | some codec =>
    match tryU8 ec.data with
    | none => .err (.missing "ec.data")
    | some data =>
      match tryU8 ec.parity with
      | none => .err (.missing "ec.parity")
      | some parity =>
        if ec.ecChunkSize.toInt < 0 then .err (.missing "ec.chunkSize")
        else .ok ⟨data, parity, UInt32.ofNat ec.ecChunkSize.toInt.toNat, codec⟩

/-- `REPLICATION_PORT_NAME`. -/
def replicationPortName : String := "REPLICATION"

/-- One member of a pipeline, with the slot the parallel array gives it. -/
def memberToSlot (member : DatanodeDetails × UInt32) : Outcome OmError DatanodeSlot :=
  if 256 ≤ member.2.toNat then .err (.missing "replica_index")
  else
    match member.1.ports.find? fun p => p.name = replicationPortName with
    | none => .err (.missing "REPLICATION port")
    | some port =>
      .ok ⟨member.2.toUInt8,
        "http://" ++ member.1.ipAddress ++ ":" ++ toString port.value.toNat⟩

/-- `key_location_to_block`. -/
def keyLocationToBlock (loc : KeyLocation) : Outcome OmError BlockLocation :=
  if loc.containerId < 0 then .err (.missing "container_id")
  else if loc.localId < 0 then .err (.missing "local_id")
  else
    match loc.pipeline with
    | none => .err (.missing "pipeline")
    | some pipeline =>
      match pipeline.ecReplicationConfig with
      | none => .err (.missing "pipeline.ec")
      | some ecProto => do
        let ec ← ecConfigFromProto ecProto
        if pipeline.members.length ≠ pipeline.memberReplicaIndexes.length then
          .err (.missing "pipeline.member_replica_indexes")
        else do
          let members ← (pipeline.members.zip pipeline.memberReplicaIndexes).mapM memberToSlot
          return ⟨loc.containerId.toUInt64, loc.localId.toUInt64, loc.offset, loc.length, ec,
            members⟩

/-- `block_to_key_location`: the pipeline is left out, the manager owns placement. -/
def blockToKeyLocation (block : BlockLocation) : KeyLocation :=
  ⟨block.containerId.toInt64, block.localId.toInt64, block.offset, block.length, none⟩

/-- `blocks_of_key_info`: the blocks of the latest version. -/
def blocksOfKeyInfo (info : KeyInfo) : Outcome OmError (List BlockLocation) :=
  match info.keyLocationList.getLast? with
  | none => .ok []
  | some locations => locations.mapM keyLocationToBlock

theorem blocksOfKeyInfo_eq (info : KeyInfo) : blocksOfKeyInfo info =
    (info.keyLocationList.getLast?.getD []).mapM keyLocationToBlock := by
  unfold blocksOfKeyInfo
  cases info.keyLocationList.getLast? <;> rfl

/-! ### Placements -/

/-- The replication endpoint of a datanode, where it has one. -/
def DatanodeDetails.endpoint (d : DatanodeDetails) : String :=
  match d.ports.find? fun p => p.name = replicationPortName with
  | none => ""
  | some port => "http://" ++ d.ipAddress ++ ":" ++ toString port.value.toNat

/-- **A pipeline as the manager means it**: a valid configuration, and for each slot
`1..=k+p` one member, which can be dialled. -/
structure Placement where
  /-- The configuration on the wire. -/
  ecProto : EcProto
  /-- The configuration. -/
  config : EcReplicationConfig
  /-- The members with their slots. -/
  members : List (DatanodeDetails × UInt32)
  /-- The two configurations agree. -/
  config_eq : ecConfigFromProto ecProto = .ok config
  /-- The configuration is valid. -/
  valid : config.profile.Valid
  /-- The slots are `1..=k+p`. -/
  slots : (members.map Prod.snd).Perm
    ((List.range (config.data.toNat + config.parity.toNat)).map fun i => UInt32.ofNat (i + 1))
  /-- Every member has a replication port. -/
  ports : ∀ m ∈ members, ∃ p ∈ m.1.ports, p.name = replicationPortName

/-- A message carries the placement, with its members in any order. -/
def KeyLocation.Presents (loc : KeyLocation) (place : Placement) : Prop :=
  ∃ pipeline, loc.pipeline = some pipeline ∧
    pipeline.ecReplicationConfig = some place.ecProto ∧
    pipeline.members.length = pipeline.memberReplicaIndexes.length ∧
    (pipeline.members.zip pipeline.memberReplicaIndexes).Perm place.members

namespace Placement

/-- The number of slots. -/
def total (place : Placement) : ℕ := place.config.data.toNat + place.config.parity.toNat

/-- The members as the gateway sees them. -/
def slotList (place : Placement) : List DatanodeSlot :=
  place.members.map fun m => ⟨m.2.toUInt8, m.1.endpoint⟩

theorem total_le (place : Placement) : place.total ≤ 64 := by
  have h₁ := place.valid.data_le
  have h₂ := place.valid.parity_le
  simp only [EcReplicationConfig.profile] at h₁ h₂
  unfold total
  omega

theorem replicaIndexes_slotList (place : Placement) :
    (place.slotList.map (·.replicaIndex)).Perm
      ((List.range place.total).map fun i => UInt8.ofNat (i + 1)) := by
  have hperm := place.slots.map UInt32.toUInt8
  rw [slotList, List.map_map]
  rw [List.map_map, List.map_map] at hperm
  refine hperm.trans (.of_eq ?_)
  exact List.map_congr_left fun i _ => by simp

theorem nodup_replicaIndexes (place : Placement) :
    (place.slotList.map (·.replicaIndex)).Nodup := by
  rw [place.replicaIndexes_slotList.nodup_iff]
  refine List.nodup_range.map_on fun i hi j hj hij => ?_
  have hle := place.total_le
  have hi' := List.mem_range.mp hi
  have hj' := List.mem_range.mp hj
  have hnat := congrArg UInt8.toNat hij
  simp only [UInt8.toNat_ofNat'] at hnat
  omega

/-- The endpoint of the member that holds a slot. -/
def endpoint (place : Placement) (slot : UInt8) : String :=
  ((place.slotList.find? fun m => m.replicaIndex = slot).map (·.endpoint)).getD ""

/-- **Every slot has its member, whatever the order of the members.** -/
theorem find?_slot {place : Placement} {members : List DatanodeSlot}
    (h : members.Perm place.slotList) {i : ℕ} (hi : i < place.total) :
    ∃ m, members.find? (fun m => m.replicaIndex = UInt8.ofNat (i + 1)) = some m ∧
      m.endpoint = place.endpoint (UInt8.ofNat (i + 1)) := by
  have hmem : UInt8.ofNat (i + 1) ∈ place.slotList.map (·.replicaIndex) :=
    place.replicaIndexes_slotList.mem_iff.mpr
      (List.mem_map.mpr ⟨i, List.mem_range.mpr hi, rfl⟩)
  obtain ⟨m, hm, hslot⟩ := List.mem_map.mp hmem
  have hnd := place.nodup_replicaIndexes
  have hfind := Lists.find?_key_of_mem hnd hm
  rw [hslot] at hfind
  have hfind' := Lists.find?_key_of_mem ((h.map _).nodup_iff.mpr hnd) (h.mem_iff.mpr hm)
  rw [hslot] at hfind'
  exact ⟨m, hfind', by rw [endpoint, hfind]; rfl⟩

end Placement

/-! ### Reading a placement -/

theorem memberToSlot_eq {place : Placement} {m : DatanodeDetails × UInt32}
    (hm : m ∈ place.members) : memberToSlot m = .ok ⟨m.2.toUInt8, m.1.endpoint⟩ := by
  have hslot : m.2 ∈ place.members.map Prod.snd := List.mem_map_of_mem hm
  rw [place.slots.mem_iff] at hslot
  obtain ⟨i, hi, hi'⟩ := List.mem_map.mp hslot
  have hle := place.total_le
  have hlt : m.2.toNat < 256 := by
    have hi := List.mem_range.mp hi
    rw [← hi', UInt32.toNat_ofNat']
    unfold Placement.total at hle
    omega
  obtain ⟨p, hp, hname⟩ := place.ports m hm
  unfold memberToSlot DatanodeDetails.endpoint
  rw [if_neg (by omega)]
  cases hfind : m.1.ports.find? fun p => p.name = replicationPortName with
  | none => exact absurd (List.find?_eq_none.mp hfind p hp) (by simp [hname])
  | some port => rfl

/-- A block as it is read from a message that presents a placement. -/
structure BlockLocation.IsRead (block : BlockLocation) (loc : KeyLocation) (place : Placement) :
    Prop where
  /-- The container. -/
  containerId : block.containerId = loc.containerId.toUInt64
  /-- The block within it. -/
  localId : block.localId = loc.localId.toUInt64
  /-- The offset. -/
  offset : block.offset = loc.offset
  /-- The length. -/
  length : block.length = loc.length
  /-- The configuration. -/
  ec : block.ec = place.config
  /-- The members, in some order. -/
  members : block.members.Perm place.slotList

/-- **A message that presents a placement is read as such**, whatever the order of its
members. -/
theorem keyLocationToBlock_presents {loc : KeyLocation} {place : Placement}
    (h : loc.Presents place) (hc : ¬loc.containerId < 0) (hl : ¬loc.localId < 0) :
    ∃ block, keyLocationToBlock loc = .ok block ∧ block.IsRead loc place := by
  obtain ⟨pipeline, hpl, hec, hlen, hperm⟩ := h
  have hslots : (pipeline.members.zip pipeline.memberReplicaIndexes).mapM memberToSlot =
      .ok ((pipeline.members.zip pipeline.memberReplicaIndexes).map
        fun m => ⟨m.2.toUInt8, m.1.endpoint⟩) :=
    Outcome.mapM_eq fun m hm => memberToSlot_eq (hperm.mem_iff.mp hm)
  refine ⟨⟨loc.containerId.toUInt64, loc.localId.toUInt64, loc.offset, loc.length, place.config,
    (pipeline.members.zip pipeline.memberReplicaIndexes).map
      fun m => ⟨m.2.toUInt8, m.1.endpoint⟩⟩, ?_, rfl, rfl, rfl, rfl, rfl, hperm.map _⟩
  unfold keyLocationToBlock
  rw [if_neg hc, if_neg hl, hpl]
  dsimp only
  rw [hec]
  dsimp only
  rw [place.config_eq, Outcome.ok_bind, if_neg (not_not_intro hlen), hslots, Outcome.ok_bind]
  rfl

/-- The other way: whatever is read from such a message has nonnegative ids. -/
theorem BlockLocation.IsRead.of_eq_ok {loc : KeyLocation} {place : Placement}
    {block : BlockLocation} (h : loc.Presents place) (hok : keyLocationToBlock loc = .ok block) :
    block.IsRead loc place ∧ ¬loc.containerId < 0 ∧ ¬loc.localId < 0 := by
  by_cases hc : loc.containerId < 0
  · rw [keyLocationToBlock, if_pos hc] at hok
    cases hok
  by_cases hl : loc.localId < 0
  · rw [keyLocationToBlock, if_neg hc, if_pos hl] at hok
    cases hok
  obtain ⟨block', hok', hread⟩ := keyLocationToBlock_presents h hc hl
  rw [hok] at hok'
  cases hok'
  exact ⟨hread, hc, hl⟩

end OzoneRust
