import OzoneRust.Lib.ByteOrder
import OzoneRust.Lib.SortedMap
import OzoneRust.Lib.Trace
import OzoneRust.Storage.Checksum

/-!
# The metadata store

`FjallMetaStore` of the `ozone-fjall-store` crate: the container records and the block
records of a datanode, in two partitions of an ordered key–value store. The keys are byte
strings, numbers most significant byte first, so that the blocks of a container are the
entries under one prefix, in the order of local id and slot
(`OzoneRust.MetaStore.blockKey_lt_blockKey`).

The write lock makes every mutating call one step, and a batch is applied as a whole or not
at all, so a call that fails leaves the store as it was. Values are kept as such: what was
encoded is what is decoded. Sums of lengths are `u64` and wrap; the commit sequence number
and the number of blocks, which go up by one per call, are natural numbers.
-/

namespace OzoneRust

/-- The errors of the storage crate. -/
inductive StorageError where
  /-- The file system failed. -/
  | io (message : String)
  /-- A chunk does not match its digests. -/
  | checksum (e : Checksum.ChecksumError)
  /-- No such container. -/
  | containerNotFound (id : ContainerId)
  /-- The container exists. -/
  | containerExists (id : ContainerId)
  /-- The container does not accept writes. -/
  | containerNotOpen (id : ContainerId) (state : ContainerState)
  /-- No such block. -/
  | blockNotFound (id : BlockId)
  /-- The key–value store failed. -/
  | metaError (message : String)
  /-- A record cannot be decoded. -/
  | corrupt (message : String)
  deriving DecidableEq, Repr

/-- A container record: what is known of it, and its commit sequence number. -/
structure StoredContainer where
  /-- What is known of it. -/
  info : ContainerInfo
  /-- The commit sequence number. -/
  bcsi : ℕ
  deriving DecidableEq, Repr

/-- `u64::saturating_sub`. -/
def satSub (a b : UInt64) : UInt64 := if b ≤ a then a - b else 0

/-- The two partitions. -/
structure MetaStore where
  /-- The container records. -/
  containers : SortedMap Bytes StoredContainer
  /-- The block records. -/
  blocks : SortedMap Bytes BlockData

/-- A page of blocks, and where the next one starts. -/
structure BlockPage where
  /-- The blocks. -/
  blocks : List BlockData
  /-- The local id to go on from, unless this page is the last. -/
  nextLocalId : Option UInt64
  deriving DecidableEq, Repr

namespace MetaStore

/-! ### Keys -/

/-- `container_key`. -/
def containerKey (id : ContainerId) : Bytes := BigEndian.bytes 8 id.toNat

/-- `block_key`. -/
def blockKey (id : BlockId) : Bytes :=
  containerKey id.container ++ BigEndian.bytes 8 id.localId.toNat ++ [id.replicaIndex]

/-- The store of a datanode that has never been used. -/
def empty : MetaStore := ⟨.empty, .empty⟩

/-! ### Calls -/

/-- `create_container`. -/
def createContainer (s : MetaStore) (info : ContainerInfo) :
    Except StorageError (Unit × MetaStore) :=
  match s.containers.get? (containerKey info.containerId) with
  | some _ => .error (.containerExists info.containerId)
  | none =>
    .ok ((), { s with containers := s.containers.insert (containerKey info.containerId) ⟨info, 0⟩ })

/-- `get_container`. -/
def getContainer (s : MetaStore) (id : ContainerId) : Option ContainerInfo :=
  (s.containers.get? (containerKey id)).map (·.info)

/-- `list_containers`: the containers in the order of their keys. -/
def listContainers (s : MetaStore) : List ContainerInfo :=
  s.containers.entries.map fun e => e.2.info

/-- `set_container_state`. -/
def setContainerState (s : MetaStore) (id : ContainerId) (state : ContainerState) :
    Except StorageError (Unit × MetaStore) :=
  match s.containers.get? (containerKey id) with
  | none => .error (.containerNotFound id)
  | some record =>
    let record := { record with info := { record.info with state := state } }
    .ok ((), { s with containers := s.containers.insert (containerKey id) record })

/-- `delete_container`: the record and every block under the prefix. -/
def deleteContainer (s : MetaStore) (id : ContainerId) : Except StorageError (Unit × MetaStore) :=
  .ok ((), ⟨s.containers.erase (containerKey id),
    s.blocks.filterKeys fun k => ¬(containerKey id).isPrefixOf k⟩)

/-- The counters after a block of `newLen` bytes is put where a block may have been. -/
def countPut (info : ContainerInfo) (prev : Option BlockData) (newLen : UInt64) : ContainerInfo :=
  match prev with
  | some prev => { info with usedBytes := satSub info.usedBytes prev.len + newLen }
  | none => { info with blockCount := info.blockCount + 1, usedBytes := info.usedBytes + newLen }

/-- `put_block`: the new commit sequence number. -/
def putBlock (s : MetaStore) (block : BlockData) : Except StorageError (ℕ × MetaStore) :=
  let cid := block.blockId.container
  match s.containers.get? (containerKey cid) with
  | none => .error (.containerNotFound cid)
  | some record =>
    if !record.info.state.isWritable then .error (.containerNotOpen cid record.info.state)
    else
      let info := countPut record.info (s.blocks.get? (blockKey block.blockId)) block.len
      .ok (record.bcsi + 1, ⟨s.containers.insert (containerKey cid) ⟨info, record.bcsi + 1⟩,
        s.blocks.insert (blockKey block.blockId) block⟩)

/-- `get_block`. -/
def getBlock (s : MetaStore) (id : BlockId) : Option BlockData := s.blocks.get? (blockKey id)

/-- The counters after a block is deleted. -/
def countDelete (info : ContainerInfo) (existing : BlockData) : ContainerInfo :=
  { info with
    blockCount := info.blockCount - 1
    usedBytes := satSub info.usedBytes existing.len }

/-- `delete_block`. -/
def deleteBlock (s : MetaStore) (id : BlockId) : Except StorageError (Unit × MetaStore) :=
  match s.blocks.get? (blockKey id) with
  | none => .ok ((), s)
  | some existing =>
    let blocks := s.blocks.erase (blockKey id)
    match s.containers.get? (containerKey id.container) with
    | none => .ok ((), { s with blocks := blocks })
    | some record =>
      let record := { record with info := countDelete record.info existing }
      .ok ((), ⟨s.containers.insert (containerKey id.container) record, blocks⟩)

/-- The blocks under the prefix of a container, in key order. -/
def scan (s : MetaStore) (container : ContainerId) : List BlockData :=
  (s.blocks.entries.filter fun e => (containerKey container).isPrefixOf e.1).map Prod.snd

/-- The loop of `list_blocks`, with the blocks collected so far. -/
def listLoop (start : UInt64) (limit : ℕ) : List BlockData → List BlockData → BlockPage
  | [], out => ⟨out, none⟩
  | bd :: rest, out =>
    if bd.blockId.localId < start then listLoop start limit rest out
    else if limit ≤ out.length then ⟨out, some bd.blockId.localId⟩
    else listLoop start limit rest (out ++ [bd])

/-- `list_blocks`. -/
def listBlocks (s : MetaStore) (container : ContainerId) (start : UInt64) (limit : ℕ) : BlockPage :=
  listLoop start limit (s.scan container) []

/-! ### The order of the keys -/

theorem containerKey_inj {a b : ContainerId} : containerKey a = containerKey b ↔ a = b := by
  rw [containerKey, containerKey, BigEndian.bytes_inj a.toNat_lt b.toNat_lt, UInt64.toNat_inj]

theorem containerKey_lt_containerKey {a b : ContainerId} :
    containerKey a < containerKey b ↔ a < b := by
  rw [containerKey, containerKey, BigEndian.bytes_lt_bytes a.toNat_lt b.toNat_lt,
    ← UInt64.lt_iff_toNat_lt]

theorem length_containerKey (id : ContainerId) : (containerKey id).length = 8 :=
  BigEndian.length_bytes 8 _

/-- The blocks under the prefix of a container are its own. -/
theorem isPrefixOf_blockKey {c : ContainerId} {id : BlockId} :
    (containerKey c).isPrefixOf (blockKey id) = true ↔ id.container = c := by
  have hlen : (containerKey c).length = (containerKey id.container).length := by
    rw [length_containerKey, length_containerKey]
  rw [List.isPrefixOf_iff_prefix, blockKey, List.append_assoc]
  constructor
  · rintro ⟨t, h⟩
    exact (containerKey_inj.mp (List.append_inj h hlen).1).symm
  · rintro rfl
    exact List.prefix_append _ _

/-- **Within a container, keys ascend by local id, then by slot.** -/
theorem blockKey_lt_blockKey {a b : BlockId} (h : a.container = b.container) :
    blockKey a < blockKey b ↔
      a.localId < b.localId ∨ a.localId = b.localId ∧ a.replicaIndex < b.replicaIndex := by
  rw [blockKey, blockKey, h, List.append_assoc, List.append_assoc, append_lt_append rfl,
    append_lt_append (by simp), BigEndian.bytes_lt_bytes a.localId.toNat_lt b.localId.toNat_lt,
    BigEndian.bytes_inj a.localId.toNat_lt b.localId.toNat_lt, UInt64.toNat_inj,
    ← UInt64.lt_iff_toNat_lt, cons_lt_cons]
  simp

theorem blockKey_inj {a b : BlockId} : blockKey a = blockKey b ↔ a = b := by
  constructor
  · intro h
    obtain ⟨h, hslot⟩ := List.append_inj' h rfl
    obtain ⟨hcontainer, hlocal⟩ := List.append_inj' h (by simp)
    obtain ⟨ac, al, ar⟩ := a
    obtain ⟨bc, bl, br⟩ := b
    rw [BigEndian.bytes_inj al.toNat_lt bl.toNat_lt, UInt64.toNat_inj] at hlocal
    rw [BlockId.mk.injEq]
    exact ⟨containerKey_inj.mp hcontainer, hlocal, List.singleton_inj.mp hslot⟩
  · rintro rfl
    rfl

end MetaStore

end OzoneRust
