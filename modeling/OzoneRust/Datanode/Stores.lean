import OzoneRust.Datanode.Repair
import OzoneRust.Lib.Interleave

/-!
# Calls on the stores of a datanode

What a datanode does, a request, a command or a repair, is a sequence of calls on its two
stores, and each call is one step: others come between, and each can fail. So what it does is
a program over `OzoneRust.storeCalls`.

`OzoneRust.StoreOp.exec` is what a call answers and does if it does not fail by itself. A call
that fails leaves the stores as they were (`OzoneRust.StoreOp.Leaves`): a batch of the metadata
store is applied as a whole or not at all, and a chunk is written next to the old one and
renamed. Only the deletion of a directory can stop half-way. Which calls may fail is a
parameter of `OzoneRust.StoreOp.Answers`.

For the proofs, the stores are three functions: from containers to records, from blocks to
records, from blocks and chunk names to bytes (`OzoneRust.Holdings`). The calls are updates of
these functions (`OzoneRust.StoreOp.holdings_exec`), and no proof after this looks into the
maps.
-/

namespace OzoneRust

/-! ### Calls -/

/-- A call on the metadata store or on the chunk store. -/
inductive StoreOp where
  /-- `MetaStore::get_container`. -/
  | getContainer (id : ContainerId)
  /-- `MetaStore::list_containers`. -/
  | listContainers
  /-- `MetaStore::create_container`. -/
  | createContainer (info : ContainerInfo)
  /-- `MetaStore::set_container_state`. -/
  | setContainerState (id : ContainerId) (state : ContainerState)
  /-- `MetaStore::delete_container`. -/
  | deleteContainer (id : ContainerId)
  /-- `MetaStore::get_block`. -/
  | getBlock (b : BlockId)
  /-- `MetaStore::put_block`. -/
  | putBlock (block : BlockData)
  /-- `MetaStore::delete_block`. -/
  | deleteBlock (b : BlockId)
  /-- `MetaStore::list_blocks`. -/
  | listBlocks (id : ContainerId) (start : UInt64) (limit : ℕ)
  /-- `ChunkStore::read_chunk`. -/
  | readChunk (b : BlockId) (name : String)
  /-- `ChunkStore::write_chunk`. -/
  | writeChunk (b : BlockId) (name : String) (data : Bytes)
  /-- `ChunkStore::delete_chunk`. -/
  | deleteChunk (b : BlockId) (name : String)
  /-- `ChunkStore::delete_container`. -/
  | deleteChunks (id : ContainerId)

/-- What a call returns. -/
abbrev StoreOp.Val : StoreOp → Type
  | .getContainer _ => Option ContainerInfo
  | .listContainers => List ContainerInfo
  | .createContainer _ => Unit
  | .setContainerState _ _ => Unit
  | .deleteContainer _ => Unit
  | .getBlock _ => Option BlockData
  | .putBlock _ => ℕ
  | .deleteBlock _ => Unit
  | .listBlocks _ _ _ => BlockPage
  | .readChunk _ _ => Bytes
  | .writeChunk _ _ _ => Unit
  | .deleteChunk _ _ => Unit
  | .deleteChunks _ => Unit

/-- The calls on the stores; each may fail. -/
abbrev storeCalls : Calls := ⟨StoreOp, fun op => Except StorageError op.Val⟩

/-- A call, with the `?` of the source. -/
def StoreOp.call {ε : Type} (f : StorageError → ε) (op : StoreOp) : Prog storeCalls ε op.Val :=
  .call (C := storeCalls) op fun r => .done (.ofExcept f r)

theorem makes_call_bind {ε α : Type} {P : StoreOp → Prop} {f : StorageError → ε} {op : StoreOp}
    {k : op.Val → Prog storeCalls ε α} (h : P op) (hk : ∀ a, (k a).Makes P) :
    (op.call f >>= k).Makes P :=
  Prog.Makes.bind ⟨h, fun _ => trivial⟩ hk

/-! ### What the calls do -/

/-- One chunk is set, or removed. -/
def Target.setChunk (t : Target) (b : BlockId) (name : String) (data : Option Bytes) : Target :=
  { t with chunks := Function.update t.chunks b (Function.update (t.chunks b) name data) }

/-- All chunks of a container are removed. -/
def Target.deleteChunks (t : Target) (id : ContainerId) : Target :=
  { t with chunks := fun b => if b.container = id then fun _ => none else t.chunks b }

/-- A call on the metadata store. -/
def Target.onMeta {α : Type} (t : Target) :
    Except StorageError (α × MetaStore) → Except StorageError α × Target
  | .ok (a, store) => (.ok a, { t with store := store })
  | .error e => (.error e, t)

/-- What a call that does not fail by itself answers, and the stores it leaves. -/
def StoreOp.exec (t : Target) : (op : StoreOp) → Except StorageError op.Val × Target
  | .getContainer id => (.ok (t.store.getContainer id), t)
  | .listContainers => (.ok t.store.listContainers, t)
  | .createContainer info => t.onMeta (t.store.createContainer info)
  | .setContainerState id state => t.onMeta (t.store.setContainerState id state)
  | .deleteContainer id => t.onMeta (t.store.deleteContainer id)
  | .getBlock b => (.ok (t.store.getBlock b), t)
  | .putBlock block => t.onMeta (t.store.putBlock block)
  | .deleteBlock b => t.onMeta (t.store.deleteBlock b)
  | .listBlocks id start limit => (.ok (t.store.listBlocks id start limit), t)
  | .readChunk b name =>
    match t.chunks b name with
    | some data => (.ok data, t)
    | none => (.error (.blockNotFound b), t)
  | .writeChunk b name data => (.ok (), t.setChunk b name (some data))
  | .deleteChunk b name => (.ok (), t.setChunk b name none)
  | .deleteChunks id => (.ok (), t.deleteChunks id)

/-- What a call that fails leaves: the stores as they were, but for the deletion of a
directory, which may have removed any of its files. -/
def StoreOp.Leaves (t : Target) : StoreOp → Target → Prop
  | .deleteChunks id, t' => t'.store = t.store ∧ ∀ b name, t'.chunks b name = t.chunks b name ∨
      b.container = id ∧ t'.chunks b name = none
  | _, t' => t' = t

/-- What a call can answer, and what it leaves, if the calls in `may` may fail. -/
def StoreOp.Answers (may : StoreOp → Prop) (t : Target) (op : StoreOp)
    (r : Except StorageError op.Val) (t' : Target) : Prop :=
  r = (op.exec t).1 ∧ t' = (op.exec t).2 ∨ may op ∧ (∃ e, r = .error e) ∧ op.Leaves t t'

theorem StoreOp.answers_exec (may : StoreOp → Prop) (t : Target) (op : StoreOp) :
    op.Answers may t (op.exec t).1 (op.exec t).2 :=
  .inl ⟨rfl, rfl⟩

theorem StoreOp.ends_call_bind {ε α : Type} {f : StorageError → ε} {op : StoreOp}
    {k : op.Val → Prog storeCalls ε α} {may : StoreOp → Prop} {t t' : Target} {o : Outcome ε α}
    {a : op.Val} (h : (op.exec t).1 = .ok a)
    (hk : (k a).Ends (StoreOp.Answers may) (op.exec t).2 o t') :
    (op.call f >>= k).Ends (StoreOp.Answers may) t o t' :=
  ⟨.ok a, _, h ▸ answers_exec may t op, hk⟩

/-- Threads on the stores of a datanode; the calls in `may` may fail, each thread's own. -/
def storeSystem {T : Type} (may : T → StoreOp → Prop) : System storeCalls T Target where
  starts _ w w' := w' = w
  answers u := StoreOp.Answers (may u)

/-! ### What is held -/

/-- What a datanode holds. -/
@[ext] structure Holdings where
  /-- The containers. -/
  record : ContainerId → Option StoredContainer
  /-- The blocks. -/
  block : BlockId → Option BlockData
  /-- The chunks. -/
  chunk : BlockId → String → Option Bytes

/-- What the stores hold. -/
def Target.holdings (t : Target) : Holdings :=
  ⟨fun c => t.store.containers.get? (MetaStore.containerKey c), t.store.getBlock, t.chunks⟩

namespace Holdings

/-- The record of a container is set, or removed. -/
def setRecord (h : Holdings) (c : ContainerId) (record : Option StoredContainer) : Holdings :=
  { h with record := Function.update h.record c record }

/-- The record of a block is set, or removed. -/
def setBlock (h : Holdings) (b : BlockId) (block : Option BlockData) : Holdings :=
  { h with block := Function.update h.block b block }

/-- One chunk is set, or removed. -/
def setChunk (h : Holdings) (b : BlockId) (name : String) (data : Option Bytes) : Holdings :=
  { h with chunk := Function.update h.chunk b (Function.update (h.chunk b) name data) }

/-- The record of a container and those of all its blocks are removed. -/
def dropContainer (h : Holdings) (c : ContainerId) : Holdings :=
  { h with
    record := Function.update h.record c none
    block := fun b => if b.container = c then none else h.block b }

/-- All chunks of a container are removed. -/
def dropChunks (h : Holdings) (c : ContainerId) : Holdings :=
  { h with chunk := fun b => if b.container = c then fun _ => none else h.chunk b }

end Holdings

open MetaStore

/-- What a call does to what is held, unless it fails. -/
def StoreOp.act (h : Holdings) : StoreOp → Holdings
  | .createContainer info =>
    match h.record info.containerId with
    | some _ => h
    | none => h.setRecord info.containerId (some ⟨info, 0⟩)
  | .setContainerState id state =>
    match h.record id with
    | none => h
    | some record =>
      h.setRecord id (some { record with info := { record.info with state := state } })
  | .deleteContainer id => h.dropContainer id
  | .putBlock block =>
    match h.record block.blockId.container with
    | none => h
    | some record =>
      if record.info.state.isWritable then
        (h.setRecord block.blockId.container
          (some ⟨countPut record.info (h.block block.blockId) block.len, record.bcsi + 1⟩)).setBlock
            block.blockId (some block)
      else h
  | .deleteBlock b =>
    match h.block b with
    | none => h
    | some existing =>
      (match h.record b.container with
      | none => h
      | some record => h.setRecord b.container
          (some { record with info := countDelete record.info existing })).setBlock b none
  | .writeChunk b name data => h.setChunk b name (some data)
  | .deleteChunk b name => h.setChunk b name none
  | .deleteChunks id => h.dropChunks id
  | _ => h

section Refines

variable {t : Target}

theorem holdings_record (c : ContainerId) :
    t.holdings.record c = t.store.containers.get? (containerKey c) := rfl

theorem holdings_block (b : BlockId) : t.holdings.block b = t.store.blocks.get? (blockKey b) := rfl

theorem get?_insert_container {m : SortedMap Bytes StoredContainer} {c : ContainerId}
    {record : StoredContainer} :
    (fun c' => (m.insert (containerKey c) record).get? (containerKey c')) =
      Function.update (fun c' => m.get? (containerKey c')) c (some record) := by
  funext c'
  by_cases hc : c' = c
  · rw [hc, SortedMap.get?_insert_self, Function.update_self]
  · rw [SortedMap.get?_insert_of_ne (mt containerKey_inj.mp hc), Function.update_of_ne hc]

theorem get?_insert_block {m : SortedMap Bytes BlockData} {b : BlockId} {block : BlockData} :
    (fun b' => (m.insert (blockKey b) block).get? (blockKey b')) =
      Function.update (fun b' => m.get? (blockKey b')) b (some block) := by
  funext b'
  by_cases hb : b' = b
  · rw [hb, SortedMap.get?_insert_self, Function.update_self]
  · rw [SortedMap.get?_insert_of_ne (mt blockKey_inj.mp hb), Function.update_of_ne hb]

theorem get?_erase_block {m : SortedMap Bytes BlockData} {b : BlockId} :
    (fun b' => (m.erase (blockKey b)).get? (blockKey b')) =
      Function.update (fun b' => m.get? (blockKey b')) b none := by
  funext b'
  by_cases hb : b' = b
  · rw [hb, SortedMap.get?_erase_self, Function.update_self]
  · rw [SortedMap.get?_erase_of_ne (mt blockKey_inj.mp hb), Function.update_of_ne hb]

theorem get?_erase_container {m : SortedMap Bytes StoredContainer} {c : ContainerId} :
    (fun c' => (m.erase (containerKey c)).get? (containerKey c')) =
      Function.update (fun c' => m.get? (containerKey c')) c none := by
  funext c'
  by_cases hc : c' = c
  · rw [hc, SortedMap.get?_erase_self, Function.update_self]
  · rw [SortedMap.get?_erase_of_ne (mt containerKey_inj.mp hc), Function.update_of_ne hc]

theorem get?_filterKeys_block {m : SortedMap Bytes BlockData} {c : ContainerId} :
    (fun b => (m.filterKeys fun k => ¬(containerKey c).isPrefixOf k).get? (blockKey b)) =
      fun b => if b.container = c then none else m.get? (blockKey b) := by
  funext b
  by_cases hb : b.container = c
  · rw [if_pos hb, SortedMap.get?_filterKeys_of_not]
    simpa using isPrefixOf_blockKey.mpr hb
  · rw [if_neg hb, SortedMap.get?_filterKeys]
    simpa using mt isPrefixOf_blockKey.mp hb

/-- **The calls act on what is held.** -/
theorem StoreOp.holdings_exec (t : Target) (op : StoreOp) :
    (op.exec t).2.holdings = op.act t.holdings := by
  cases op with
  | getContainer id => rfl
  | listContainers => rfl
  | getBlock b => rfl
  | listBlocks id start limit => rfl
  | writeChunk b name data => rfl
  | deleteChunk b name => rfl
  | deleteChunks id => rfl
  | deleteContainer id => exact Holdings.ext get?_erase_container get?_filterKeys_block rfl
  | readChunk b name =>
    rw [exec]
    cases t.chunks b name <;> rfl
  | createContainer info =>
    rw [exec, act, MetaStore.createContainer, holdings_record]
    cases hrecord : t.store.containers.get? (containerKey info.containerId) with
    | some record => rfl
    | none => exact Holdings.ext get?_insert_container rfl rfl
  | setContainerState id state =>
    rw [exec, act, MetaStore.setContainerState, holdings_record]
    cases hrecord : t.store.containers.get? (containerKey id) with
    | none => rfl
    | some record => exact Holdings.ext get?_insert_container rfl rfl
  | putBlock block =>
    rw [exec, act, MetaStore.putBlock, holdings_record]
    dsimp only
    cases hrecord : t.store.containers.get? (containerKey block.blockId.container) with
    | none => rfl
    | some record =>
      dsimp only
      cases record.info.state.isWritable with
      | false => rfl
      | true => exact Holdings.ext get?_insert_container get?_insert_block rfl
  | deleteBlock b =>
    rw [exec, act, MetaStore.deleteBlock, holdings_block, holdings_record]
    cases hblock : t.store.blocks.get? (blockKey b) with
    | none => rfl
    | some existing =>
      dsimp only
      cases hrecord : t.store.containers.get? (containerKey b.container) with
      | none => exact Holdings.ext rfl get?_erase_block rfl
      | some record => exact Holdings.ext get?_insert_container get?_erase_block rfl

/-! What the calls answer: -/

theorem StoreOp.exec_createContainer {info : ContainerInfo}
    (h : t.holdings.record info.containerId = none) :
    ((StoreOp.createContainer info).exec t).1 = .ok () := by
  rw [exec, MetaStore.createContainer, ← holdings_record, h]
  rfl

theorem StoreOp.exec_setContainerState {id : ContainerId} {state : ContainerState}
    {record : StoredContainer} (h : t.holdings.record id = some record) :
    ((StoreOp.setContainerState id state).exec t).1 = .ok () := by
  rw [exec, MetaStore.setContainerState, ← holdings_record, h]
  rfl

/-- A block is put if and only if its container is open. -/
theorem StoreOp.exec_putBlock {block : BlockData} {n : ℕ}
    (h : ((StoreOp.putBlock block).exec t).1 = .ok n) :
    ∃ record, t.holdings.record block.blockId.container = some record ∧
      record.info.state = .open := by
  rw [exec, MetaStore.putBlock, ← holdings_record] at h
  cases hrecord : t.holdings.record block.blockId.container with
  | none =>
    rw [hrecord] at h
    cases h
  | some record =>
    rw [hrecord] at h
    refine ⟨record, rfl, ?_⟩
    cases hstate : record.info.state with
    | «open» => rfl
    | _ =>
      simp only [hstate] at h
      cases h

end Refines

/-! ### What a call can change -/

/-- Some chunks of a container are gone, and nothing else. -/
structure Holdings.Reduced (c : ContainerId) (h h' : Holdings) : Prop where
  /-- The records of the containers. -/
  record : h'.record = h.record
  /-- The records of the blocks. -/
  block : h'.block = h.block
  /-- The chunks. -/
  chunk : ∀ b name, h'.chunk b name = h.chunk b name ∨ b.container = c ∧ h'.chunk b name = none

/-- Nothing changes outside a container. -/
structure Holdings.AgreeOff (c : ContainerId) (h h' : Holdings) : Prop where
  /-- The records of the containers. -/
  record : ∀ c', c' ≠ c → h'.record c' = h.record c'
  /-- The records of the blocks. -/
  block : ∀ b, b.container ≠ c → h'.block b = h.block b
  /-- The chunks. -/
  chunk : ∀ b, b.container ≠ c → h'.chunk b = h.chunk b

/-- The container a call is about, if it is about one. -/
def StoreOp.container? : StoreOp → Option ContainerId
  | .getContainer id => some id
  | .listContainers => none
  | .createContainer info => some info.containerId
  | .setContainerState id _ => some id
  | .deleteContainer id => some id
  | .getBlock b => some b.container
  | .putBlock block => some block.blockId.container
  | .deleteBlock b => some b.container
  | .listBlocks id _ _ => some id
  | .readChunk b _ => some b.container
  | .writeChunk b _ _ => some b.container
  | .deleteChunk b _ => some b.container
  | .deleteChunks id => some id

/-- The call is about a container. -/
def StoreOp.About (c : ContainerId) (op : StoreOp) : Prop := op.container? = some c

section Changes

variable {t t' : Target} {may : StoreOp → Prop} {op : StoreOp} {r : Except StorageError op.Val}
  {h h' h'' : Holdings} {c : ContainerId}

/-- **What a call leaves**: what it does, or nothing, or a half-deleted directory. -/
theorem StoreOp.Answers.holdings (ha : StoreOp.Answers may t op r t') :
    t'.holdings = op.act t.holdings ∨
      may op ∧ (∃ e, r = .error e) ∧
        (t' = t ∨ ∃ id, op = .deleteChunks id ∧ t.holdings.Reduced id t'.holdings) := by
  rcases ha with ⟨-, ht'⟩ | ⟨hmay, herr, hleaves⟩
  · exact .inl ((congrArg Target.holdings ht').trans (holdings_exec t op))
  · refine .inr ⟨hmay, herr, ?_⟩
    cases op with
    | deleteChunks id =>
      obtain ⟨hstore, hchunk⟩ := hleaves
      exact .inr ⟨id, rfl, by simp only [Target.holdings, hstore],
        by simp only [Target.holdings, hstore], hchunk⟩
    | _ => exact .inl hleaves

/-- A call that may not fail does what it does. -/
theorem StoreOp.Answers.exec (ha : StoreOp.Answers may t op r t') (hnot : ¬may op) :
    r = (op.exec t).1 ∧ t' = (op.exec t).2 := ha.resolve_right fun hfail => hnot hfail.1

theorem countPut_state (info : ContainerInfo) (prev : Option BlockData) (len : UInt64) :
    (countPut info prev len).state = info.state := by
  cases prev <;> rfl

theorem StoreOp.act_createContainer {info : ContainerInfo}
    (habsent : h.record info.containerId = none) :
    (StoreOp.createContainer info).act h = h.setRecord info.containerId (some ⟨info, 0⟩) := by
  rw [act, habsent]

/-- A block is put into an open container. -/
theorem StoreOp.act_putBlock {block : BlockData} {record : StoredContainer}
    (hrecord : h.record block.blockId.container = some record)
    (hopen : record.info.state = .open) :
    (StoreOp.putBlock block).act h = (h.setRecord block.blockId.container
      (some ⟨countPut record.info (h.block block.blockId) block.len, record.bcsi + 1⟩)).setBlock
        block.blockId (some block) := by
  rw [act, hrecord]
  exact if_pos (by rw [hopen]; rfl)

theorem StoreOp.chunk_act_putBlock (block : BlockData) :
    ((StoreOp.putBlock block).act h).chunk = h.chunk := by
  rw [act]
  split
  · rfl
  · split <;> rfl

theorem Holdings.chunk_setChunk_self {b : BlockId} {name : String} {data : Option Bytes} :
    (h.setChunk b name data).chunk b name = data := by
  simp [setChunk]

theorem Holdings.chunk_setChunk_of_ne {b b' : BlockId} {name name' : String} {data : Option Bytes}
    (hne : ¬(b' = b ∧ name' = name)) :
    (h.setChunk b name data).chunk b' name' = h.chunk b' name' := by
  unfold setChunk
  dsimp only
  by_cases hb : b' = b
  · rw [hb, Function.update_self, Function.update_of_ne fun hname => hne ⟨hb, hname⟩]
  · rw [Function.update_of_ne hb]

theorem Holdings.AgreeOff.refl : Holdings.AgreeOff c h h :=
  ⟨fun _ _ => rfl, fun _ _ => rfl, fun _ _ => rfl⟩

theorem Holdings.AgreeOff.trans (h₁ : Holdings.AgreeOff c h h') (h₂ : Holdings.AgreeOff c h' h'') :
    Holdings.AgreeOff c h h'' where
  record c' hc := (h₂.record c' hc).trans (h₁.record c' hc)
  block b hb := (h₂.block b hb).trans (h₁.block b hb)
  chunk b hb := (h₂.chunk b hb).trans (h₁.chunk b hb)

theorem Holdings.agreeOff_setRecord (record : Option StoredContainer) :
    Holdings.AgreeOff c h (h.setRecord c record) :=
  ⟨fun _ hc => Function.update_of_ne hc _ _, fun _ _ => rfl, fun _ _ => rfl⟩

theorem Holdings.agreeOff_setBlock {b : BlockId} (hb : b.container = c) (block : Option BlockData) :
    Holdings.AgreeOff c h (h.setBlock b block) :=
  ⟨fun _ _ => rfl, fun _ hne => Function.update_of_ne
    (ne_of_apply_ne BlockId.container (hb ▸ hne)) _ _, fun _ _ => rfl⟩

theorem Holdings.agreeOff_setChunk {b : BlockId} (hb : b.container = c) (name : String)
    (data : Option Bytes) : Holdings.AgreeOff c h (h.setChunk b name data) :=
  ⟨fun _ _ => rfl, fun _ _ => rfl,
    fun _ hne => Function.update_of_ne (ne_of_apply_ne BlockId.container (hb ▸ hne)) _ _⟩

/-- **A call about a container changes no other.** -/
theorem StoreOp.agreeOff_act (hop : op.About c) :
    Holdings.AgreeOff c h (op.act h) := by
  cases op with
  | listContainers => cases hop
  | getContainer id => exact .refl
  | getBlock b => exact .refl
  | listBlocks id start limit => exact .refl
  | readChunk b name => exact .refl
  | createContainer info =>
    obtain rfl := Option.some.inj hop
    rw [act]
    split
    · exact .refl
    · exact Holdings.agreeOff_setRecord _
  | setContainerState id state =>
    obtain rfl := Option.some.inj hop
    rw [act]
    split
    · exact .refl
    · exact Holdings.agreeOff_setRecord _
  | deleteContainer id =>
    obtain rfl := Option.some.inj hop
    exact ⟨fun _ hc => Function.update_of_ne hc _ _, fun _ hb => if_neg hb, fun _ _ => rfl⟩
  | putBlock block =>
    obtain rfl := Option.some.inj hop
    rw [act]
    split
    · exact .refl
    · split
      · exact (Holdings.agreeOff_setRecord _).trans (Holdings.agreeOff_setBlock rfl _)
      · exact .refl
  | deleteBlock b =>
    obtain rfl := Option.some.inj hop
    rw [act]
    split
    · exact .refl
    · refine .trans ?_ (Holdings.agreeOff_setBlock rfl _)
      split
      · exact .refl
      · exact Holdings.agreeOff_setRecord _
  | writeChunk b name data => exact Holdings.agreeOff_setChunk (Option.some.inj hop) name _
  | deleteChunk b name => exact Holdings.agreeOff_setChunk (Option.some.inj hop) name _
  | deleteChunks id =>
    obtain rfl := Option.some.inj hop
    exact ⟨fun _ _ => rfl, fun _ _ => rfl, fun _ hb => if_neg hb⟩

theorem Holdings.Reduced.agreeOff (hred : Holdings.Reduced c h h') : Holdings.AgreeOff c h h' where
  record _ _ := by rw [hred.record]
  block _ _ := by rw [hred.block]
  chunk b hb := funext fun name => (hred.chunk b name).resolve_right fun hin => hb hin.1

theorem StoreOp.Answers.agreeOff (ha : StoreOp.Answers may t op r t')
    (hop : op.About c) : Holdings.AgreeOff c t.holdings t'.holdings := by
  rcases ha.holdings with hact | ⟨-, -, rfl | ⟨id, rfl, hred⟩⟩
  · rw [hact]
    exact StoreOp.agreeOff_act hop
  · exact .refl
  · exact Option.some.inj hop ▸ hred.agreeOff

end Changes

/-! ### Without failures -/

/-- No call fails. -/
def StoreOp.never (_ : StoreOp) : Prop := False

/-- The call looks at the metadata only. -/
def StoreOp.MetaOnly : StoreOp → Prop
  | .listContainers => False
  | .listBlocks _ _ _ => False
  | .readChunk _ _ => False
  | _ => True

/-- The same metadata, and the same chunks in `S`. -/
structure Holdings.AgreeOn (S : BlockId → String → Prop) (h h' : Holdings) : Prop where
  /-- The records of the containers. -/
  record : h'.record = h.record
  /-- The records of the blocks. -/
  block : h'.block = h.block
  /-- The chunks. -/
  chunk : ∀ b name, S b name → h'.chunk b name = h.chunk b name

section Never

variable {t t' : Target} {op : StoreOp} {h h' : Holdings} {S : BlockId → String → Prop}

theorem StoreOp.answers_never {r : Except StorageError op.Val} :
    StoreOp.Answers StoreOp.never t op r t' ↔ r = (op.exec t).1 ∧ t' = (op.exec t).2 :=
  ⟨fun ha => ha.exec id, .inl⟩

theorem StoreOp.Answers.mono {may may' : StoreOp → Prop} (himp : ∀ op, may op → may' op)
    {r : Except StorageError op.Val} (ha : StoreOp.Answers may t op r t') :
    StoreOp.Answers may' t op r t' :=
  ha.imp_right fun hfail => ⟨himp op hfail.1, hfail.2⟩

/-- Without failures a program has one run. -/
theorem StoreOp.ends_unique {ε α : Type} {p : Prog storeCalls ε α} {o o' : Outcome ε α}
    {t'' : Target} (hp : p.Ends (StoreOp.Answers StoreOp.never) t o t')
    (hp' : p.Ends (StoreOp.Answers StoreOp.never) t o' t'') : o = o' ∧ t' = t'' := by
  refine hp.unique (fun w op r w' r' w'' hans hans' => ?_) hp'
  obtain ⟨rfl, rfl⟩ := StoreOp.answers_never.mp hans
  obtain ⟨rfl, rfl⟩ := StoreOp.answers_never.mp hans'
  exact ⟨rfl, rfl⟩

theorem Holdings.AgreeOn.act (ha : Holdings.AgreeOn S h h') (op : StoreOp) :
    Holdings.AgreeOn S (op.act h) (op.act h') := by
  obtain ⟨record, block, chunk⟩ := h
  obtain ⟨record', block', chunk'⟩ := h'
  obtain ⟨rfl, rfl, hchunk⟩ := ha
  have hset : ∀ (b : BlockId) (name : String) (data : Option Bytes), Holdings.AgreeOn S
      (Holdings.setChunk ⟨record', block', chunk⟩ b name data)
      (Holdings.setChunk ⟨record', block', chunk'⟩ b name data) := by
    refine fun b name data => ⟨rfl, rfl, fun b' name' hS => ?_⟩
    simp only [Holdings.setChunk, Function.update_apply]
    split
    · subst b'
      simp only [Function.update_apply]
      split
      · rfl
      · exact hchunk _ _ hS
    · exact hchunk _ _ hS
  cases op with
  | getContainer id => exact ⟨rfl, rfl, hchunk⟩
  | listContainers => exact ⟨rfl, rfl, hchunk⟩
  | getBlock b => exact ⟨rfl, rfl, hchunk⟩
  | listBlocks id start limit => exact ⟨rfl, rfl, hchunk⟩
  | readChunk b name => exact ⟨rfl, rfl, hchunk⟩
  | writeChunk b name data => exact hset b name _
  | deleteChunk b name => exact hset b name _
  | deleteContainer id => exact ⟨rfl, rfl, hchunk⟩
  | deleteChunks id =>
    refine ⟨rfl, rfl, fun b name hS => ?_⟩
    simp only [StoreOp.act, Holdings.dropChunks]
    split
    · rfl
    · exact hchunk b name hS
  | createContainer info =>
    simp only [StoreOp.act]
    split <;> exact ⟨rfl, rfl, hchunk⟩
  | setContainerState id state =>
    simp only [StoreOp.act]
    split <;> exact ⟨rfl, rfl, hchunk⟩
  | putBlock block =>
    simp only [StoreOp.act]
    split
    · exact ⟨rfl, rfl, hchunk⟩
    · split <;> exact ⟨rfl, rfl, hchunk⟩
  | deleteBlock b =>
    simp only [StoreOp.act]
    split
    · exact ⟨rfl, rfl, hchunk⟩
    · split <;> exact ⟨rfl, rfl, hchunk⟩

/-- What a call answers depends on the metadata only, for most calls. -/
theorem StoreOp.MetaOnly.exec_congr (hop : op.MetaOnly) {v : Target}
    (hrecord : v.holdings.record = t.holdings.record)
    (hblock : v.holdings.block = t.holdings.block) : (op.exec v).1 = (op.exec t).1 := by
  have hget : ∀ c, v.store.containers.get? (containerKey c) =
      t.store.containers.get? (containerKey c) := congrFun hrecord
  have hgetBlock : ∀ b, v.store.blocks.get? (blockKey b) =
      t.store.blocks.get? (blockKey b) := congrFun hblock
  cases op with
  | getContainer id => simp only [exec, MetaStore.getContainer, hget]
  | getBlock b => simp only [exec, MetaStore.getBlock, hgetBlock]
  | createContainer info =>
    simp only [exec, MetaStore.createContainer, hget]
    split <;> rfl
  | setContainerState id state =>
    simp only [exec, MetaStore.setContainerState, hget]
    split <;> rfl
  | putBlock block =>
    simp only [exec, MetaStore.putBlock, hget]
    split
    · rfl
    · split <;> rfl
  | deleteBlock b =>
    simp only [exec, MetaStore.deleteBlock, hget, hgetBlock]
    split
    · rfl
    · split <;> rfl
  | listContainers => exact hop.elim
  | listBlocks id start limit => exact hop.elim
  | readChunk b name => exact hop.elim
  | _ => rfl

/-- **The same metadata, the same run.** -/
theorem StoreOp.ends_agreeOn {ε α : Type} {p : Prog storeCalls ε α} {o : Outcome ε α} {v : Target}
    (hp : p.Makes StoreOp.MetaOnly) (hrun : p.Ends (StoreOp.Answers StoreOp.never) t o t')
    (hagree : Holdings.AgreeOn S t.holdings v.holdings) :
    ∃ v', p.Ends (StoreOp.Answers StoreOp.never) v o v' ∧
      Holdings.AgreeOn S t'.holdings v'.holdings := by
  refine Prog.Ends.related (R := fun t v : Target => Holdings.AgreeOn S t.holdings v.holdings)
    (fun w v op r w' hop hR ha => ?_) hp hrun hagree
  obtain ⟨rfl, rfl⟩ := StoreOp.answers_never.mp ha
  refine ⟨(StoreOp.exec v op).2, .inl ⟨(hop.exec_congr hR.record hR.block).symm, rfl⟩, ?_⟩
  rw [StoreOp.holdings_exec, StoreOp.holdings_exec]
  exact hR.act op

end Never

end OzoneRust
