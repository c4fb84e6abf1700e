import OzoneRust.Datanode.Heartbeat
import OzoneRust.Datanode.RepairCalls
import OzoneRust.Datanode.Scrub
import OzoneRust.Datanode.Service

/-!
# The slots a datanode reports

A replica that a datanode announces, when it registers or with a heartbeat, names a slot, and
the storage container manager rejects a slot that is not one of `1, …, k + p`. A datanode does
not keep its slot: it takes that of the first block it finds in the container, or that of the
block the scrubber has found damaged.

Here everything that can lead to a report runs side by side, one call at a time: requests of
clients, commands of the manager (with each rebuild call by call), passes of the scrubber, and
registrations. The world (`OzoneRust.Reporting`) is the stores, every call that was made on them,
and the replicas that were put into a message. A pass over stores that nobody else changes is the
pass as one function (`OzoneRust.Scrubber.eval_checkAll`).

`put_block` does not look at the configuration of the container, so a block may be recorded
under any slot, `0` and `255` included, and is then reported under it
(`OzoneRust.reports_slot_zero`). If every block that is put names a slot of its container, all
recorded blocks do (`OzoneRust.Holdings.Placed.act`), and so does every replica that is reported:
the slot is one of the configuration that the container had when the reporting thread listed the
block (`OzoneRust.reports_in_range`).
-/

namespace OzoneRust

/-! ### Requests -/

namespace Service

/-- A request to the datanode. `GetVersion` and the two for stripes reach no store. -/
inductive Rpc where
  /-- `CreateContainer`. -/
  | createContainer (req : CreateContainerRequest)
  /-- `CloseContainer`. -/
  | closeContainer (containerId : Option ContainerId)
  /-- `DeleteContainer`. -/
  | deleteContainer (containerId : Option ContainerId)
  /-- `GetContainerInfo`. -/
  | getContainerInfo (containerId : Option ContainerId)
  /-- `PutBlock`. -/
  | putBlock (blockData : Option WireBlockData)
  /-- `GetBlock`. -/
  | getBlock (blockId : Option WireBlockId)
  /-- `DeleteBlock`. -/
  | deleteBlock (blockId : Option WireBlockId)
  /-- `ListBlocks`, of which the client takes so many pages. -/
  | listBlocks (req : ListBlocksRequest) (taken : ℕ)
  /-- `WriteChunk`. -/
  | writeChunk (stream : WriteStream)
  /-- `ReadChunk`. -/
  | readChunk (req : ReadChunkRequest)

/-- What serves a request; the answer is not looked at. -/
def Rpc.serve : Rpc → ServiceM Unit
  | .createContainer req => do let _ ← Service.createContainer req
  | .closeContainer containerId => do let _ ← Service.closeContainer containerId
  | .deleteContainer containerId => Service.deleteContainer containerId
  | .getContainerInfo containerId => do let _ ← Service.getContainerInfo containerId
  | .putBlock blockData => do let _ ← Service.putBlock blockData
  | .getBlock blockId => do let _ ← Service.getBlock blockId
  | .deleteBlock blockId => Service.deleteBlock blockId
  | .listBlocks req taken => do let _ ← Service.listBlocks req taken
  | .writeChunk stream => do let _ ← Service.writeChunk stream
  | .readChunk req => do let _ ← Service.readChunk req

/-- **The stream of `list_blocks`**, on stores that do not change, has the blocks that its reader
sees. -/
theorem eval_listPages {t : Target} {cid : ContainerId} {limit : ℕ} :
    ∀ {taken : ℕ} {start : LocalId} {blocks : List BlockData},
      t.store.listBlocksStream cid limit taken start = some blocks →
      ∃ pages, (listPages cid limit taken start).eval (fun op => (op.exec t).1) =
        .ok (pages, none) ∧ pages.flatMap BlockPage.blocks = blocks
  | 0, _, _, h => by cases h
  | taken + 1, start, blocks, h => by
    have hpage : ((StoreOp.listBlocks cid start limit).exec t).1 =
      .ok (t.store.listBlocks cid start limit) := rfl
    rw [MetaStore.listBlocksStream] at h
    rw [listPages, Prog.eval_bind]
    change ∃ pages, Prog.eval _ _ = _ ∧ _
    dsimp only at h ⊢
    rw [hpage]
    dsimp only
    cases hnext : (t.store.listBlocks cid start limit).nextLocalId with
    | none =>
      rw [hnext] at h
      exact ⟨[_], rfl, by simpa using h⟩
    | some next =>
      rw [hnext] at h
      obtain ⟨rest, hrest, rfl⟩ := Option.map_eq_some_iff.mp h
      obtain ⟨pages, heval, rfl⟩ := eval_listPages hrest
      refine ⟨t.store.listBlocks cid start limit :: pages, ?_, List.flatMap_cons⟩
      dsimp only
      rw [Prog.eval_bind, heval]
      rfl

end Service

/-! ### Calls -/

/-- A call that is made on the way to a report. -/
inductive ReportOp where
  /-- A call on the stores. -/
  | store (op : StoreOp)
  /-- The reporter receives a finding of the scrubber. -/
  | finding (container : ContainerId) (slot : UInt8)
  /-- A replica is put into a message. -/
  | announce (replica : ContainerReplica)

/-- The answers. -/
abbrev ReportOp.Res : ReportOp → Type
  | .store op => Except StorageError op.Val
  | .finding _ _ => Unit
  | .announce _ => Unit

/-- The calls that are made on the way to a report. -/
abbrev reportCalls : Calls := ⟨ReportOp, ReportOp.Res⟩

/-- A computation with these calls. -/
abbrev ReportM := Prog reportCalls StorageError

namespace ReportOp

/-- One call. -/
def perform {ε : Type} (op : ReportOp) : Prog reportCalls ε op.Res :=
  Prog.perform (C := reportCalls) op

/-- A call on the stores, with the `?` of the source. -/
def ask (op : StoreOp) : ReportM op.Val :=
  .call (C := reportCalls) (.store op) fun r => .done (.ofExcept id r)

/-- A program over the stores. -/
def onStores {ε α : Type} (p : Prog storeCalls ε α) : Prog reportCalls ε α :=
  p.interpret fun op => (ReportOp.store op).perform

end ReportOp

open ReportOp

/-! ### Registration -/

/-- One container of `container_replicas`; one without blocks is skipped. -/
def containerReplica (uuid : String) (out : List ContainerReplica) (c : ContainerInfo) :
    ReportM (List ContainerReplica) := do
  let page ← ask (.listBlocks c.containerId 0 1)
  match page.blocks.head? with
  | none => return out
  | some first => return out ++ [stateReplica uuid c.containerId c first]

/-- `container_replicas`. -/
def containerReplicas (uuid : String) : ReportM (List ContainerReplica) := do
  (← ask .listContainers).foldlM (containerReplica uuid) []

/-- `build_register`, as far as containers go. -/
def buildRegister (uuid : String) : ReportM Unit := do
  (← containerReplicas uuid).foldlM (fun _ replica => (announce replica).perform) ()

/-! ### The scrubber, call by call -/

namespace Scrubber

/-- Whether a chunk needs a repair, from what the chunk store has answered. -/
def verdict (cd : ChecksumData) : Except StorageError Bytes → Except StorageError Bool
  | .ok bytes => .ok (Checksum.verify bytes cd matches .error _)
  | .error (.blockNotFound _) => .ok true
  | .error e => .error e

/-- One chunk. -/
def checkChunk (c : ContainerId) (ec : EcReplicationConfig) (bd : BlockData)
    (report : ScrubReport) (chunk : ChunkInfo) : ReportM ScrubReport :=
  match chunk.checksumData with
  | none => pure report
  | some cd => do
    let answer ← (ReportOp.store (.readChunk bd.blockId chunk.chunkName)).perform
    if ← Prog.lift (.ofExcept id (verdict cd answer)) then
      return { report with corrupt := report.corrupt ++ [request c ec bd] }
    else return { report with clean := report.clean + 1 }

/-- One block. -/
def checkBlock (c : ContainerId) (ec : EcReplicationConfig) (report : ScrubReport)
    (bd : BlockData) : ReportM ScrubReport :=
  bd.chunks.foldlM (checkChunk c ec bd) report

/-- The pages of a container from a local id on; `none` if they are more. -/
def checkPages (c : ContainerId) (ec : EcReplicationConfig) :
    ℕ → UInt64 → ScrubReport → ReportM (Option ScrubReport)
  | 0, _, _ => pure none
  | fuel + 1, start, report => do
    let pager ← ask (.listBlocks c start page)
    let report ← pager.blocks.foldlM (checkBlock c ec) report
    match pager.nextLocalId with
    | some next => checkPages c ec fuel next report
    | none => return some report

/-- One container, unless the pass has got stuck in one before. -/
def checkContainer (fuel : ℕ) (report : Option ScrubReport) (c : ContainerInfo) :
    ReportM (Option ScrubReport) :=
  match report, c.ecConfig with
  | some report, some ec => checkPages c.containerId ec fuel 0 report
  | report, _ => pure report

/-- `scrub_once`, with a bound for the pages of a container: a pass that takes more has not come
to an end. -/
def checkAll (fuel : ℕ) : ReportM (Option ScrubReport) := do
  (← ask .listContainers).foldlM (checkContainer fuel) (some ⟨0, []⟩)

/-- `scrub_once` and what `run` sends after it. -/
def pass (fuel : ℕ) : ReportM Unit := do
  match ← checkAll fuel with
  | none => pure ()
  | some report =>
    report.corrupt.foldlM (fun _ req => (ReportOp.finding req.container req.slot).perform) ()

/-! A pass over stores that do not change is `OzoneRust.Scrubber.scrubOnce`: -/

/-- The answer of the chunk store is judged as there. -/
theorem isCorrupt_eq_verdict (disk : Reads) (b : BlockId) (name : String) (cd : ChecksumData) :
    isCorrupt disk b name cd = verdict cd (readChunk disk b name) := rfl

/-- The answers of such stores, with what the reads of the files return. -/
def fixedAnswer (t : Target) (disk : Reads) : (op : ReportOp) → op.Res
  | .store (.readChunk b name) => readChunk disk b name
  | .store op => (op.exec t).1
  | .finding _ _ => ()
  | .announce _ => ()

/-- The outcome of a pass as one function. -/
def outcomeOf : Option (Except StorageError ScrubReport) →
    Outcome StorageError (Option ScrubReport)
  | none => .ok none
  | some (.ok report) => .ok (some report)
  | some (.error e) => .err e

section Fixed

variable {t : Target} {disk : Reads} {c : ContainerId} {ec : EcReplicationConfig}

theorem eval_ask {α : Type} {op : StoreOp} {f : op.Val → ReportM α} {a : op.Val}
    (h : fixedAnswer t disk (.store op) = .ok a) :
    (ask op >>= f).eval (fixedAnswer t disk) = (f a).eval (fixedAnswer t disk) := by
  have hask : (ask op).eval (fixedAnswer t disk) = .ok a := congrArg (Outcome.ofExcept id) h
  rw [Prog.eval_bind, hask]
  rfl

theorem eval_checkChunk (bd : BlockData) (report : ScrubReport) (chunk : ChunkInfo) :
    (checkChunk c ec bd report chunk).eval (fixedAnswer t disk) =
      .ofExcept id (scrubChunk disk c ec bd report chunk) := by
  unfold checkChunk scrubChunk
  cases chunk.checksumData with
  | none => rfl
  | some cd =>
    have hread : (ReportOp.store (.readChunk bd.blockId chunk.chunkName)).perform.eval
        (fixedAnswer t disk) = (.ok (readChunk disk bd.blockId chunk.chunkName) :
          Outcome StorageError (Except StorageError Bytes)) := rfl
    dsimp only
    rw [Prog.eval_bind, hread, isCorrupt_eq_verdict]
    dsimp only [Outcome.ok_bind]
    rw [Prog.eval_bind]
    cases verdict cd (readChunk disk bd.blockId chunk.chunkName) with
    | error e => rfl
    | ok corrupt => cases corrupt <;> rfl

theorem eval_checkBlocks (blocks : List BlockData) (report : ScrubReport) :
    (blocks.foldlM (checkBlock c ec) report).eval (fixedAnswer t disk) =
      .ofExcept id (blocks.foldlM (scrubBlock disk c ec) report) := by
  rw [Prog.eval_foldlM, Outcome.ofExcept_foldlM]
  refine congrArg (fun f => blocks.foldlM f report) (funext fun report => funext fun bd => ?_)
  rw [checkBlock, scrubBlock, Prog.eval_foldlM, Outcome.ofExcept_foldlM]
  simp only [eval_checkChunk]

/-- The pages, by induction on their number. -/
theorem eval_checkPages : ∀ (fuel : ℕ) (start : UInt64) (report : ScrubReport),
    (checkPages c ec fuel start report).eval (fixedAnswer t disk) =
      outcomeOf (scrubPages t.store disk c ec fuel start report)
  | 0, _, _ => rfl
  | fuel + 1, start, report => by
    have hpage : fixedAnswer t disk (.store (.listBlocks c start page)) =
      .ok (t.store.listBlocks c start page) := rfl
    rw [checkPages, scrubPages, eval_ask hpage, Prog.eval_bind, eval_checkBlocks]
    cases (t.store.listBlocks c start page).blocks.foldlM (scrubBlock disk c ec) report with
    | error e => rfl
    | ok report =>
      dsimp only [Outcome.ofExcept, Outcome.ok_bind]
      cases (t.store.listBlocks c start page).nextLocalId with
      | none => rfl
      | some next => exact eval_checkPages fuel next report

/-- The containers; a pass that is stuck stays so. -/
theorem eval_checkContainers (fuel : ℕ) : ∀ (containers : List ContainerInfo)
    (report : ScrubReport),
    (containers.foldlM (checkContainer fuel) (some report)).eval (fixedAnswer t disk) =
      outcomeOf (scrubContainers t.store disk fuel containers report)
  | [], _ => rfl
  | c :: containers, report => by
    have hstuck : ∀ containers : List ContainerInfo,
        (containers.foldlM (checkContainer fuel) none).eval (fixedAnswer t disk) = .ok none := by
      intro containers
      induction containers with
      | nil => rfl
      | cons c containers ih => exact ih
    rw [List.foldlM_cons, Prog.eval_bind, scrubContainers]
    unfold checkContainer
    cases c.ecConfig with
    | none => exact eval_checkContainers fuel containers report
    | some ec =>
      dsimp only
      rw [eval_checkPages]
      cases scrubPages t.store disk c.containerId ec fuel 0 report with
      | none => exact hstuck containers
      | some result =>
        cases result with
        | error e => rfl
        | ok report => exact eval_checkContainers fuel containers report

/-- **A pass, call by call, over stores that do not change** is the pass as one function. -/
theorem eval_checkAll (fuel : ℕ) :
    (checkAll fuel).eval (fixedAnswer t disk) = outcomeOf (scrubOnce t.store disk fuel) :=
  eval_checkContainers fuel t.store.listContainers ⟨0, []⟩

end Fixed

end Scrubber

/-! ### Commands, call by call -/

/-- The program of a call of a command handler. -/
def NodeOp.prog (isal : IsaL) (net : String → Peer) : (op : NodeOp) → Prog reportCalls Empty op.Res
  | .setContainerState id state => (ReportOp.store (.setContainerState id state)).perform
  | .getContainer id => (ReportOp.store (.getContainer id)).perform
  | .listBlocks id start limit => (ReportOp.store (.listBlocks id start limit)).perform
  | .deleteContainer id => (ReportOp.store (.deleteContainer id)).perform
  | .deleteChunks id => (ReportOp.store (.deleteChunks id)).perform
  | .reconstruct input =>
    (onStores (Repair.reconstructFromSurvivors isal net input)).mapOutcome .ok
  | .push replica => (ReportOp.announce replica).perform

/-- `handle_command`, with the calls of a rebuild one by one. -/
def executeCommand (isal : IsaL) (uuid : String) (net : String → Peer) (cmd : ScmCommand) :
    Prog reportCalls Empty Unit :=
  (handleCommand uuid cmd).interpret (NodeOp.prog isal net)

/-! ### Everything side by side -/

/-- Something a datanode does. -/
inductive Activity where
  /-- It serves a request. -/
  | serve (rpc : Service.Rpc)
  /-- It executes a command, with what its peers answer meanwhile. -/
  | execute (cmd : ScmCommand) (net : String → Peer)
  /-- The scrubber makes a pass, and the reporter receives the findings. -/
  | scrub (fuel : ℕ)
  /-- It registers. -/
  | register

/-- The program of an activity; what it ends with is not looked at. -/
def Activity.prog (isal : IsaL) (uuid : String) : Activity → Prog reportCalls Empty Unit
  | .serve rpc => (onStores rpc.serve).mapOutcome fun _ => .ok ()
  | .execute cmd net => executeCommand isal uuid net cmd
  | .scrub fuel => (Scrubber.pass fuel).mapOutcome fun _ => .ok ()
  | .register => (buildRegister uuid).mapOutcome fun _ => .ok ()

/-- The stores, the calls and the reports, with the threads that made them. -/
structure Reporting (T : Type) where
  /-- The stores. -/
  target : Target
  /-- The calls on the stores, and the states in which they were made. -/
  calls : List (T × StoreOp × Target)
  /-- The containers and slots the reporter has reported. -/
  reported : Finset (ContainerId × UInt8)
  /-- The replicas that were put into a message. -/
  reports : List (T × ContainerReplica)

namespace Reporting

variable {T : Type}

/-- A datanode that has just started. -/
def start (t : Target) : Reporting T := ⟨t, [], ∅, []⟩

/-- A call is made, and the stores are now these. -/
def store (w : Reporting T) (u : T) (op : StoreOp) (t : Target) : Reporting T :=
  { w with target := t, calls := w.calls ++ [(u, op, w.target)] }

/-- A replica is put into a message. -/
def announce (w : Reporting T) (u : T) (replica : ContainerReplica) : Reporting T :=
  { w with reports := w.reports ++ [(u, replica)] }

/-- The reporter receives a finding: the first for a container and a slot is reported. -/
def receive (uuid : String) (w : Reporting T) (u : T) (c : ContainerId) (slot : UInt8) :
    Reporting T :=
  if (c, slot) ∈ w.reported then w
  else
    { w with
      reported := insert (c, slot) w.reported
      reports := w.reports ++ [(u, unhealthyReplica uuid c slot)] }

end Reporting

/-- What a call can answer. Calls on the stores that are in `may` may fail; a call is made only
in a state in which it meets a condition. -/
def ReportOp.Answers {T : Type} (uuid : String) (u : T) (may : StoreOp → Prop)
    (meets : Target → StoreOp → Prop) (w : Reporting T) :
    (op : ReportOp) → op.Res → Reporting T → Prop
  | .store op, r, w' => meets w.target op ∧ ∃ t, op.Answers may w.target r t ∧ w' = w.store u op t
  | .finding c slot, _, w' => w' = w.receive uuid u c slot
  | .announce replica, _, w' => w' = w.announce u replica

/-- A datanode. -/
def reportSystem {T : Type} (uuid : String) (may : T → StoreOp → Prop)
    (meets : Target → StoreOp → Prop) : System reportCalls T (Reporting T) where
  starts _ w w' := w' = w
  answers u := ReportOp.Answers uuid u (may u) meets

/-! ### Slots -/

namespace Holdings

/-- The container has a record, and the slot is one of its configuration. -/
def HasSlot (h : Holdings) (c : ContainerId) (slot : UInt8) : Prop :=
  ∃ record ec, h.record c = some record ∧ record.info.ecConfig = some ec ∧ 1 ≤ slot.toNat ∧
    slot.toNat ≤ ec.data.toNat + ec.parity.toNat

/-- Every block on record is in a slot of its container. -/
def Placed (h : Holdings) : Prop :=
  ∀ b bd, h.block b = some bd → h.HasSlot b.container b.replicaIndex

variable {h : Holdings} {c c' : ContainerId} {slot : UInt8} {record record' : StoredContainer}

theorem HasSlot.of_eq {h' : Holdings} (hs : h.HasSlot c slot) (heq : h'.record c = h.record c) :
    h'.HasSlot c slot := by
  obtain ⟨record, ec, hrecord, hec⟩ := hs
  exact ⟨record, ec, heq.trans hrecord, hec⟩

/-- The record of a container may change, as long as its configuration does not. -/
theorem HasSlot.setRecord (hs : h.HasSlot c slot) (hrecord : h.record c' = some record)
    (hec : record'.info.ecConfig = record.info.ecConfig) :
    (h.setRecord c' (some record')).HasSlot c slot := by
  by_cases hc : c = c'
  · subst c'
    obtain ⟨r, ec, hr, hconfig, hslot⟩ := hs
    obtain rfl := Option.some.inj (hrecord.symm.trans hr)
    exact ⟨record', ec, Function.update_self .., hec.trans hconfig, hslot⟩
  · exact hs.of_eq (Function.update_of_ne hc _ _)

theorem Placed.setRecord (hp : h.Placed) (hrecord : h.record c' = some record)
    (hec : record'.info.ecConfig = record.info.ecConfig) : (h.setRecord c' (some record')).Placed :=
  fun b bd hb => (hp b bd hb).setRecord hrecord hec

/-- A block may be added in a slot of its container. -/
theorem Placed.setBlock (hp : h.Placed) {b : BlockId} {bd : BlockData}
    (hs : h.HasSlot b.container b.replicaIndex) : (h.setBlock b (some bd)).Placed := by
  intro b' bd' hb'
  by_cases hne : b' = b
  · subst b'
    exact hs
  · exact hp b' bd' ((Function.update_of_ne hne _ _).symm.trans hb')

theorem Placed.dropBlock (hp : h.Placed) (b : BlockId) : (h.setBlock b none).Placed := by
  intro b' bd' hb'
  by_cases hne : b' = b
  · subst b'
    have hnone : (h.setBlock b none).block b = none := Function.update_self ..
    rw [hnone] at hb'
    cases hb'
  · exact hp b' bd' ((Function.update_of_ne hne _ _).symm.trans hb')

end Holdings

/-- **The condition**: a block that is put into an open container names a slot of its
configuration. -/
def PutsInRange (t : Target) : StoreOp → Prop
  | .putBlock block => t.IsOpen block.blockId.container →
      t.holdings.HasSlot block.blockId.container block.blockId.replicaIndex
  | _ => True

theorem countPut_ecConfig (info : ContainerInfo) (prev : Option BlockData) (len : UInt64) :
    (MetaStore.countPut info prev len).ecConfig = info.ecConfig := by
  cases prev <;> rfl

/-- **Calls that meet the condition keep the blocks in their slots.** -/
theorem Holdings.Placed.act {t : Target} {op : StoreOp} (hp : t.holdings.Placed)
    (hmeets : PutsInRange t op) : (op.act t.holdings).Placed := by
  cases op with
  | createContainer info =>
    rw [StoreOp.act]
    split
    · exact hp
    · rename_i hnone
      -- no block is in a container without a record
      intro b bd hb
      obtain ⟨record, ec, hrecord, hec⟩ := hp b bd hb
      refine ⟨record, ec, ?_, hec⟩
      have hne : b.container ≠ info.containerId := fun heq => by
        rw [heq, hnone] at hrecord
        cases hrecord
      exact (Function.update_of_ne hne _ _).trans hrecord
  | setContainerState id state =>
    rw [StoreOp.act]
    split
    · exact hp
    · rename_i hrecord
      exact hp.setRecord hrecord rfl
  | deleteContainer id =>
    intro b bd hb
    have hne : b.container ≠ id := fun heq => by
      simp only [StoreOp.act, dropContainer, if_pos heq] at hb
      cases hb
    simp only [StoreOp.act, dropContainer, if_neg hne] at hb
    exact (hp b bd hb).of_eq (Function.update_of_ne hne _ _)
  | putBlock block =>
    rw [StoreOp.act]
    split
    · exact hp
    · rename_i record hrecord
      split
      · rename_i hwritable
        have hopen : record.info.state = .open := by
          cases hstate : record.info.state <;>
            simp [hstate, ContainerState.isWritable] at hwritable ⊢
        have hslot := hmeets ⟨record, hrecord, hopen⟩
        exact (hp.setRecord hrecord (countPut_ecConfig ..)).setBlock
          (hslot.setRecord hrecord (countPut_ecConfig ..))
      · exact hp
  | deleteBlock b =>
    rw [StoreOp.act]
    split
    · exact hp
    · split
      · exact hp.dropBlock b
      · rename_i hrecord
        refine Placed.dropBlock (hp.setRecord hrecord ?_) b
        rfl
  | getContainer id => exact hp
  | listContainers => exact hp
  | getBlock b => exact hp
  | listBlocks id start limit => exact hp
  | readChunk b name => exact hp
  | writeChunk b name data => exact hp
  | deleteChunk b name => exact hp
  | deleteChunks id => exact hp

/-- A call on the metadata store leaves it as it was or returns a new one. -/
theorem Target.onMeta_cases {α : Type} {t : Target} {r : Except StorageError (α × MetaStore)}
    {P : MetaStore → Prop} (hP : P t.store) (hok : ∀ a store, r = .ok (a, store) → P store) :
    P (t.onMeta r).2.store := by
  match r, hok with
  | .ok (a, store), hok => exact hok a store rfl
  | .error e, _ => exact hP

/-- Every call keeps the blocks under their keys. -/
theorem MetaStore.Keyed.exec {t : Target} (hk : t.store.Keyed) (op : StoreOp) :
    (op.exec t).2.store.Keyed := by
  have hrun : ∀ (call : MetaOp) {r : MetaReply} {s : MetaStore}, call.run t.store = .ok (r, s) →
      s.Keyed := fun _ _ _ h => hk.effect (effect_of_run h)
  cases op with
  | createContainer info =>
    refine Target.onMeta_cases hk fun a store h => ?_
    rw [MetaStore.createContainer] at h
    split at h
    · cases h
    · cases h
      exact ⟨hk.key, fun k bd hb => exists_get?_insert (hk.owner k bd hb)⟩
  | setContainerState id state =>
    exact Target.onMeta_cases hk fun a store h =>
      hrun (.setContainerState id state) (by rw [MetaOp.run, h]; rfl)
  | deleteContainer id =>
    exact Target.onMeta_cases hk fun a store h =>
      hrun (.deleteContainer id) (by rw [MetaOp.run, h]; rfl)
  | putBlock block =>
    exact Target.onMeta_cases hk fun a store h =>
      hrun (.putBlock block) (by rw [MetaOp.run, h]; rfl)
  | deleteBlock b =>
    exact Target.onMeta_cases hk fun a store h =>
      hrun (.deleteBlock b) (by rw [MetaOp.run, h]; rfl)
  | readChunk b name =>
    rw [StoreOp.exec]
    split <;> exact hk
  | getContainer id => exact hk
  | listContainers => exact hk
  | getBlock b => exact hk
  | listBlocks id start limit => exact hk
  | writeChunk b name data => exact hk
  | deleteChunk b name => exact hk
  | deleteChunks id => exact hk

/-! ### What is reported -/

/-- **A replica that the manager takes**: its slot is one of the configuration that the container
has in these stores. -/
def ContainerReplica.Legal (t : Target) (r : ContainerReplica) : Prop :=
  ∃ (c : ContainerId) (record : StoredContainer) (ec : EcReplicationConfig) (i : Int32),
    r.containerId = c.toInt64 ∧ t.holdings.record c = some record ∧
    record.info.ecConfig = some ec ∧ r.replicaIndex = some i ∧ 1 ≤ i.toInt ∧
    i.toInt ≤ ec.data.toNat + ec.parity.toNat

theorem toInt_slotToI32 (slot : UInt8) : (slotToI32 slot).toInt = slot.toNat := by
  have hall : ∀ n < 256, (slotToI32 (UInt8.ofNat n)).toInt = n := by decide +kernel
  have hslot := hall slot.toNat slot.toNat_lt
  rwa [UInt8.ofNat_toNat] at hslot

theorem legal_of_hasSlot {t : Target} {r : ContainerReplica} {c : ContainerId} {slot : UInt8}
    (hs : t.holdings.HasSlot c slot) (hc : r.containerId = c.toInt64)
    (hi : r.replicaIndex = some (slotToI32 slot)) : r.Legal t := by
  obtain ⟨record, ec, hrecord, hec, hpos, hle⟩ := hs
  refine ⟨c, record, ec, slotToI32 slot, hc, hrecord, hec, hi, ?_, ?_⟩ <;>
    rw [toInt_slotToI32] <;> omega

namespace Reporting

variable {T : Type}

/-- The calls that were made stay on record. -/
def Grows (w w' : Reporting T) : Prop := ∀ call ∈ w.calls, call ∈ w'.calls

/-- A fact that needs the calls so far only, and so stays. -/
def Lasting (F : Reporting T → Prop) : Prop := ∀ w w', Grows w w' → F w → F w'

/-- **The thread has listed a block in the slot** when the stores were these. -/
def Lists (w : Reporting T) (u : T) (c : ContainerId) (slot : UInt8) (t : Target) : Prop :=
  ∃ start limit, (u, .listBlocks c start limit, t) ∈ w.calls ∧
    ∃ bd ∈ (t.store.listBlocks c start limit).blocks, bd.blockId.replicaIndex = slot

/-- The slot was one of the container when the thread listed it. -/
def Held (w : Reporting T) (u : T) (c : ContainerId) (slot : UInt8) : Prop :=
  ∃ t, w.Lists u c slot t ∧ t.holdings.HasSlot c slot

/-- The replica names a slot that was one of the container when the thread listed it. -/
def Vouched (w : Reporting T) (u : T) (r : ContainerReplica) : Prop :=
  ∃ (c : ContainerId) (slot : UInt8), w.Held u c slot ∧ r.containerId = c.toInt64 ∧
    r.replicaIndex = some (slotToI32 slot)

/-- What holds throughout. -/
structure Sound (w : Reporting T) : Prop where
  /-- The blocks are under their keys. -/
  keyed : w.target.store.Keyed
  /-- The blocks are in slots of their containers. -/
  placed : w.target.holdings.Placed
  /-- The reports are such that the manager takes them. -/
  vouched : ∀ u r, (u, r) ∈ w.reports → w.Vouched u r

variable {w w' : Reporting T} {u : T} {c : ContainerId} {slot : UInt8} {r : ContainerReplica}
  {op : StoreOp} {may : StoreOp → Prop} {t : Target}

theorem Held.grows (h : w.Held u c slot) (hg : w.Grows w') : w'.Held u c slot :=
  let ⟨t, ⟨start, limit, hcall, hbd⟩, hs⟩ := h
  ⟨t, ⟨start, limit, hg _ hcall, hbd⟩, hs⟩

theorem Vouched.grows (h : w.Vouched u r) (hg : w.Grows w') : w'.Vouched u r :=
  let ⟨c, slot, hheld, hr⟩ := h
  ⟨c, slot, hheld.grows hg, hr⟩

theorem lasting_held : Lasting fun w : Reporting T => w.Held u c slot := fun _ _ hg h => h.grows hg

theorem lasting_vouched : Lasting fun w : Reporting T => w.Vouched u r :=
  fun _ _ hg h => h.grows hg

theorem lasting_true : Lasting fun _ : Reporting T => True := fun _ _ _ _ => trivial

theorem Lasting.and {F F' : Reporting T → Prop} (hF : Lasting F) (hF' : Lasting F') :
    Lasting fun w => F w ∧ F' w :=
  fun w w' hg h => ⟨hF w w' hg h.1, hF' w w' hg h.2⟩

theorem Lasting.forall_mem {β : Type} {F : β → Reporting T → Prop} (hF : ∀ x, Lasting (F x))
    (l : List β) : Lasting fun w => ∀ x ∈ l, F x w :=
  fun w w' hg h x hx => hF x w w' hg (h x hx)

theorem Held.vouched (h : w.Held u c slot) (hc : r.containerId = c.toInt64)
    (hi : r.replicaIndex = some (slotToI32 slot)) : w.Vouched u r :=
  ⟨c, slot, h, hc, hi⟩

theorem grows_store (w : Reporting T) (u : T) (op : StoreOp) (t : Target) :
    w.Grows (w.store u op t) :=
  fun _ hcall => List.mem_append_left _ hcall

/-- **A call on the stores**: it keeps what holds throughout if it meets the condition. -/
theorem Sound.store {r : Except StorageError op.Val} (hw : w.Sound)
    (hmeets : PutsInRange w.target op) (ha : op.Answers may w.target r t) (u : T) :
    (w.store u op t).Sound where
  keyed := by
    rcases ha with ⟨-, rfl⟩ | ⟨-, -, hleaves⟩
    · exact hw.keyed.exec op
    · cases op with
      | deleteChunks id => exact hleaves.1 ▸ hw.keyed
      | _ => exact hleaves ▸ hw.keyed
  placed := by
    rcases ha.holdings with hact | ⟨-, -, rfl | ⟨id, -, hred⟩⟩
    · exact hact ▸ hw.placed.act hmeets
    · exact hw.placed
    · intro b bd hb
      rw [Reporting.store, hred.block] at hb
      exact (hw.placed b bd hb).of_eq (congrFun hred.record _)
  vouched u' r hr := (hw.vouched u' r hr).grows (grows_store w u op t)

/-- A replica may be announced that the manager takes. -/
theorem Sound.announce (hw : w.Sound) (hr : w.Vouched u r) : (w.announce u r).Sound where
  keyed := hw.keyed
  placed := hw.placed
  vouched u' r' hr' := by
    rcases List.mem_append.mp hr' with hr' | hr'
    · exact hw.vouched u' r' hr'
    · cases List.mem_singleton.mp hr'
      exact hr

theorem Sound.receive (hw : w.Sound) (hs : w.Held u c slot) (uuid : String) :
    (w.receive uuid u c slot).Sound := by
  rw [Reporting.receive]
  split
  · exact hw
  · have hr : w.Vouched u (unhealthyReplica uuid c slot) := hs.vouched rfl rfl
    exact ⟨hw.keyed, hw.placed, (hw.announce hr).vouched⟩

theorem grows_receive (w : Reporting T) (uuid : String) (u : T) (c : ContainerId) (slot : UInt8) :
    w.Grows (w.receive uuid u c slot) := by
  rw [Reporting.receive]
  split <;> exact fun _ ht => ht

/-- **What a listing returns is in slots of the container.** -/
theorem Sound.held_of_listed {start : UInt64} {limit : ℕ} {page : BlockPage} (hw : w.Sound)
    (ha : (StoreOp.listBlocks c start limit).Answers may w.target (.ok page) t) (u : T)
    {bd : BlockData} (hbd : bd ∈ page.blocks) :
    (w.store u (.listBlocks c start limit) t).Held u c bd.blockId.replicaIndex := by
  have hpage : page = w.target.store.listBlocks c start limit := by
    rcases ha with ⟨hr, -⟩ | ⟨-, ⟨e, he⟩, -⟩
    · exact Except.ok.inj hr
    · cases he
  subst hpage
  have hlists : (w.store u (.listBlocks c start limit) t).Lists u c bd.blockId.replicaIndex
      w.target := ⟨start, limit, List.mem_append_right _ (List.mem_singleton_self _), bd, hbd, rfl⟩
  refine ⟨w.target, hlists, ?_⟩
  rw [MetaStore.listBlocks_eq] at hbd
  obtain ⟨hget, rfl⟩ := (MetaStore.mem_scan hw.keyed).mp
    (List.mem_filter.mp (List.mem_of_mem_take hbd)).1
  exact hw.placed _ _ hget

end Reporting

/-! ### What a thread reports -/

/-- Every thread keeps what holds throughout, and the calls stay on record. -/
def slotRely {T : Type} (uuid : String) (may : T → StoreOp → Prop) :
    RelyGuarantee reportCalls T (Reporting T) where
  sys := reportSystem uuid may PutsInRange
  Inv := Reporting.Sound
  Guar _ := Reporting.Grows

section Threads

open RelyGuarantee

variable {T : Type} {uuid : String} {may : T → StoreOp → Prop} {u : T} {ε α : Type}
  {w : Reporting T} {Q : Outcome ε α → Reporting T → Prop}

theorem stable_of_lasting {F : Reporting T → Prop} (hF : Reporting.Lasting F) :
    (slotRely uuid may).Stable u F := by
  rintro w w' ⟨-, -, v, -, hg⟩ hw
  exact hF w w' hg hw

/-- The rule of a call on the stores. -/
theorem safe_store {op : StoreOp} {next : Except StorageError op.Val → Prog reportCalls ε α}
    {F : Reporting T → Prop} (hF : Reporting.Lasting F) (hw : F w)
    (h : ∀ (w₁ : Reporting T) (r : Except StorageError op.Val) (t : Target), w₁.Sound →
      op.Answers (may u) w₁.target r t → F (w₁.store u op t) →
      (slotRely uuid may).Safe u Q (next r) (w₁.store u op t)) :
    (slotRely uuid may).Safe u Q (.call (.store op) next) w := by
  refine Safe.call F (stable_of_lasting hF) hw fun w₁ hw₁ hI r w₂ ⟨hmeets, t, ha, hw₂⟩ => ?_
  subst hw₂
  have hg := w₁.grows_store u op t
  exact ⟨hI.store hmeets ha u, hg, h w₁ r t hI ha (hF _ _ hg hw₁)⟩

/-- The same with the `?` of the source. -/
theorem safe_ask {op : StoreOp} {f : op.Val → ReportM α} {J : α → Reporting T → Prop}
    {F : Reporting T → Prop} (hF : Reporting.Lasting F) (hw : F w)
    (h : ∀ (w₁ : Reporting T) (a : op.Val) (t : Target), w₁.Sound →
      op.Answers (may u) w₁.target (.ok a) t → F (w₁.store u op t) →
      (slotRely uuid may).Safe u (ends J) (f a) (w₁.store u op t)) :
    (slotRely uuid may).Safe u (ends J) (ask op >>= f) w := by
  refine safe_store hF hw fun w₁ r t hI ha hw₁ => ?_
  cases r with
  | ok a => exact h w₁ a t hI ha hw₁
  | error e => trivial

/-- The rule of an announcement. -/
theorem safe_announce {r : ContainerReplica} (hr : w.Vouched u r) :
    (slotRely uuid may).Safe u (ends fun _ _ => True)
      ((announce r).perform : Prog reportCalls ε Unit) w := by
  refine Safe.call _ (stable_of_lasting Reporting.lasting_vouched) hr fun w₁ h₁ hI _ w₂ hw₂ => ?_
  subst hw₂
  exact ⟨hI.announce h₁, fun _ ht => ht, trivial⟩

/-- The rule of a finding. -/
theorem safe_finding {c : ContainerId} {slot : UInt8} (hs : w.Held u c slot) :
    (slotRely uuid may).Safe u (ends fun _ _ => True)
      ((finding c slot).perform : Prog reportCalls ε Unit) w := by
  refine Safe.call _ (stable_of_lasting Reporting.lasting_held) hs fun w₁ h₁ hI _ w₂ hw₂ => ?_
  subst hw₂
  exact ⟨hI.receive h₁ uuid, w₁.grows_receive uuid u c slot, trivial⟩

/-- What lasts is there at the end. -/
theorem safe_frame {J : α → Reporting T → Prop} {F : Reporting T → Prop} {p : Prog reportCalls ε α}
    (hF : Reporting.Lasting F) (hp : (slotRely uuid may).Safe u (ends J) p w) (hw : F w) :
    (slotRely uuid may).Safe u (ends fun a w => J a w ∧ F w) p w := by
  refine (hp.frame (fun _ w w' hg h => hF w w' hg h) hw).mono fun o w h => ?_
  cases o with
  | ok a => exact h
  | err e => trivial
  | panic => trivial

/-- A loop over things that are each fine. -/
theorem safe_forall {β : Type} {F : β → Reporting T → Prop} {f : β → Prog reportCalls ε Unit}
    (hF : ∀ x, Reporting.Lasting (F x))
    (hf : ∀ x w, F x w → (slotRely uuid may).Safe u (ends fun _ _ => True) (f x) w) {l : List β}
    (hl : ∀ x ∈ l, F x w) :
    (slotRely uuid may).Safe u (ends fun _ _ => True) (l.foldlM (fun _ => f) ()) w := by
  refine (Safe.foldlM_ends (fun l _ (w : Reporting T) => ∀ x ∈ l, F x w)
    (fun x l _ w hl => ?_) hl).mono_ends fun _ _ _ => trivial
  have hrest := fun y hy => hl y (List.mem_cons_of_mem x hy)
  exact (safe_frame (.forall_mem hF l) (hf x w (hl x List.mem_cons_self)) hrest).mono_ends
    fun _ _ h => h.2

/-- A program that only calls the stores. -/
theorem safe_onStores (p : Prog storeCalls ε α) :
    (slotRely uuid may).Safe u (fun _ _ => True) (onStores p) w := by
  have hstore : ∀ op : StoreOp, ((ReportOp.store op).perform : Prog reportCalls ε _).Makes
      fun op => ∃ o, op = ReportOp.store o := fun op => ⟨⟨op, rfl⟩, fun _ => trivial⟩
  have hmakes : (onStores p).Makes fun op => ∃ o, op = ReportOp.store o :=
    Prog.makes_interpret hstore p
  refine Safe.of_makes (fun _ _ _ _ => trivial) ?_ hmakes trivial
  rintro w _ r w' ⟨op, rfl⟩ - hI ⟨hmeets, t, ha, rfl⟩
  exact ⟨hI.store hmeets ha u, w.grows_store u op t, trivial⟩

/-! A registration: -/

theorem safe_containerReplica {out : List ContainerReplica} (hout : ∀ r ∈ out, w.Vouched u r)
    (c : ContainerInfo) : (slotRely uuid may).Safe u (ends fun out w => ∀ r ∈ out, w.Vouched u r)
      (containerReplica uuid out c) w := by
  refine safe_ask (.forall_mem (fun _ => Reporting.lasting_vouched) out) hout
    fun w₁ page t hI ha hout => ?_
  cases hfirst : page.blocks.head? with
  | none => exact hout
  | some first =>
    intro r hr
    rcases List.mem_append.mp hr with hr | hr
    · exact hout r hr
    · rw [List.mem_singleton.mp hr]
      exact (hI.held_of_listed ha u (List.mem_of_head? hfirst)).vouched rfl rfl

theorem safe_containerReplicas : (slotRely uuid may).Safe u
    (ends fun out w => ∀ r ∈ out, w.Vouched u r) (containerReplicas uuid) w :=
  safe_ask Reporting.lasting_true trivial fun _ _ _ _ _ _ =>
    Safe.foldlM_ends (fun _ out (w : Reporting T) => ∀ r ∈ out, w.Vouched u r)
      (fun c _ _ _ hout => safe_containerReplica hout c) (by simp)

theorem safe_buildRegister :
    (slotRely uuid may).Safe u (ends fun _ _ => True) (buildRegister uuid) w :=
  Safe.bind_ends safe_containerReplicas fun _ _ hout =>
    safe_forall (fun _ => Reporting.lasting_vouched) (fun _ _ hr => safe_announce hr) hout

/-! A pass of the scrubber: -/

/-- The containers had the slots in which something was found, when the thread listed them. -/
def Scrubber.Found (u : T) (report : Scrubber.ScrubReport) (w : Reporting T) : Prop :=
  ∀ req ∈ report.corrupt, w.Held u req.container req.slot

open Scrubber

theorem lasting_found (report : ScrubReport) : Reporting.Lasting (Found u report) :=
  .forall_mem (fun _ => Reporting.lasting_held) report.corrupt

variable {c : ContainerId} {ec : EcReplicationConfig} {bd : BlockData} {report : ScrubReport}

theorem safe_checkChunk (hs : w.Held u c bd.blockId.replicaIndex) (hw : Found u report w)
    (chunk : ChunkInfo) :
    (slotRely uuid may).Safe u (ends fun report w => Found u report w)
      (checkChunk c ec bd report chunk) w := by
  unfold checkChunk
  cases chunk.checksumData with
  | none => exact hw
  | some cd =>
    refine safe_store (Reporting.lasting_held.and (lasting_found report)) ⟨hs, hw⟩
      fun w₁ r t _ _ h₁ => ?_
    obtain ⟨hs, hw⟩ := h₁
    dsimp only [bind, Prog.bind]
    cases verdict cd r with
    | error e => trivial
    | ok corrupt =>
      cases corrupt with
      | false => exact hw
      | true =>
        intro req hreq
        rcases List.mem_append.mp hreq with hreq | hreq
        · exact hw req hreq
        · exact List.mem_singleton.mp hreq ▸ hs

theorem safe_checkBlock (hs : w.Held u c bd.blockId.replicaIndex) (hw : Found u report w) :
    (slotRely uuid may).Safe u (ends fun report w => Found u report w)
      (checkBlock c ec report bd) w :=
  (Safe.foldlM_ends
    (fun _ report (w : Reporting T) => Found u report w ∧ w.Held u c bd.blockId.replicaIndex)
    (fun chunk _ _ _ h => safe_frame Reporting.lasting_held (safe_checkChunk h.2 h.1 chunk) h.2)
    ⟨hw, hs⟩).mono_ends fun _ _ h => h.1

theorem safe_checkBlocks {blocks : List BlockData}
    (hs : ∀ bd ∈ blocks, w.Held u c bd.blockId.replicaIndex) (hw : Found u report w) :
    (slotRely uuid may).Safe u (ends fun report w => Found u report w)
      (blocks.foldlM (checkBlock c ec) report) w := by
  refine (Safe.foldlM_ends (fun l report (w : Reporting T) => Found u report w ∧
    ∀ bd ∈ l, w.Held u c bd.blockId.replicaIndex) (fun bd l _ _ h => ?_) ⟨hw, hs⟩).mono_ends
      fun _ _ h => h.1
  have hrest := fun bd' hbd' => h.2 bd' (List.mem_cons_of_mem bd hbd')
  exact safe_frame (.forall_mem (fun _ => Reporting.lasting_held) l)
    (safe_checkBlock (h.2 bd List.mem_cons_self) h.1) hrest

/-- The pages, by induction on their number. -/
theorem safe_checkPages : ∀ (fuel : ℕ) (start : UInt64) {report : ScrubReport} {w : Reporting T},
    Found u report w → (slotRely uuid may).Safe u (ends fun report w => ∀ r ∈ report, Found u r w)
      (checkPages c ec fuel start report) w
  | 0, _, _, _, _ => fun _ hr => by cases hr
  | fuel + 1, start, report, w, hw => by
    refine safe_ask (lasting_found report) hw fun w₁ page t hI ha hw₁ => ?_
    refine Safe.bind_ends (safe_checkBlocks (fun bd => hI.held_of_listed ha u) hw₁)
      fun report w hw => ?_
    cases page.nextLocalId with
    | none =>
      intro r hr
      cases hr
      exact hw
    | some next => exact safe_checkPages fuel next hw

theorem safe_checkAll (fuel : ℕ) : (slotRely uuid may).Safe u
    (ends fun report w => ∀ r ∈ report, Found u r w) (checkAll fuel) w := by
  refine safe_ask Reporting.lasting_true trivial fun w₁ containers t _ _ _ => ?_
  refine Safe.foldlM_ends (fun _ report (w : Reporting T) => ∀ r ∈ report, Found u r w)
    (fun c _ report w hw => ?_) ?_
  · cases report with
    | none => exact hw
    | some report =>
      unfold checkContainer
      cases c.ecConfig with
      | none => exact hw
      | some ec => exact safe_checkPages fuel 0 (hw report rfl)
  · intro r hr
    cases hr
    exact fun req hreq => by cases hreq

theorem safe_pass (fuel : ℕ) :
    (slotRely uuid may).Safe u (ends fun _ _ => True) (pass fuel) w := by
  refine Safe.bind_ends (safe_checkAll fuel) fun report w hw => ?_
  cases report with
  | none => trivial
  | some report =>
    exact safe_forall (fun _ => Reporting.lasting_held) (fun _ _ hs => safe_finding hs)
      (hw report rfl)

/-! A command: -/

variable {isal : IsaL} {net : String → Peer}

theorem safe_reportState (c : ContainerId) :
    (slotRely uuid may).Safe u (ends fun _ _ => True)
      ((reportState uuid c).interpret (NodeOp.prog isal net)) w := by
  refine safe_store Reporting.lasting_true trivial fun w₁ r t _ _ _ => ?_
  cases r with
  | error e => trivial
  | ok ci =>
    cases ci with
    | none => trivial
    | some ci =>
      refine safe_store Reporting.lasting_true trivial fun w₁ r t hI ha _ => ?_
      cases r with
      | error e => trivial
      | ok page =>
        obtain ⟨blocks, next⟩ := page
        cases blocks with
        | nil => trivial
        | cons first rest =>
          exact safe_announce ((hI.held_of_listed ha u List.mem_cons_self).vouched rfl rfl)

theorem safe_handleReconstruct (cmd : ReconstructCommand) :
    (slotRely uuid may).Safe u (ends fun _ _ => True)
      ((handleReconstruct uuid cmd).interpret (NodeOp.prog isal net)) w := by
  rw [handleReconstruct]
  by_cases hslots : mySlots uuid cmd = []
  · rw [if_pos hslots]
    trivial
  · rw [if_neg hslots]
    cases toDomainEc cmd.ecReplicationConfig with
    | none => trivial
    | some ec =>
      refine Safe.bind (I := fun _ _ => True) (fun o w _ => ?_) ?_
      · cases o with
        | err e => trivial
        | panic => trivial
        | ok locals =>
          cases locals with
          | nil => trivial
          | cons l rest => exact safe_reportState _
      · exact Safe.mapOutcome (fun _ _ _ => trivial) (safe_onStores _)

theorem safe_executeCommand (cmd : ScmCommand) :
    (slotRely uuid may).Safe u (ends fun _ _ => True) (executeCommand isal uuid net cmd) w := by
  obtain ⟨kind, close, delete, reconstruct⟩ := cmd
  cases kind with
  | other => trivial
  | closeContainer =>
    cases close with
    | none => trivial
    | some c =>
      refine safe_store Reporting.lasting_true trivial fun w₁ r t _ _ _ => ?_
      cases r with
      | error e => trivial
      | ok _ => exact safe_reportState _
  | deleteContainer =>
    cases delete with
    | none => trivial
    | some c =>
      exact safe_store Reporting.lasting_true trivial fun _ _ _ _ _ _ =>
        safe_store Reporting.lasting_true trivial fun _ _ _ _ _ _ => trivial
  | reconstructEcContainers =>
    cases reconstruct with
    | none => trivial
    | some c => exact safe_handleReconstruct c

/-- **Whatever a datanode does, it reports slots of its containers**, if only blocks in such
slots are put. -/
theorem safe_activity (a : Activity) :
    (slotRely uuid may).Safe u (fun _ _ => True) (a.prog isal uuid) w := by
  cases a with
  | serve rpc => exact Safe.mapOutcome (fun _ _ _ => trivial) (safe_onStores rpc.serve)
  | execute cmd net => exact (safe_executeCommand cmd).mono fun _ _ _ => trivial
  | scrub fuel => exact Safe.mapOutcome (fun _ _ _ => trivial) (safe_pass fuel)
  | register => exact Safe.mapOutcome (fun _ _ _ => trivial) safe_buildRegister

end Threads

/-! ### In range -/

/-- **Every replica in a message names a slot of its container**, in every run in which each
block that is put into an open container does: one of the configuration that the container had
when the thread that reports the replica listed a block in that slot. -/
theorem reports_in_range {T : Type} [DecidableEq T] (isal : IsaL) (uuid : String)
    (may : T → StoreOp → Prop) (activity : T → Activity) {t₀ : Target} (hkeyed : t₀.store.Keyed)
    (hplaced : t₀.holdings.Placed) {P : Pool reportCalls Empty Unit T (Reporting T)}
    (hP : Pool.Reachable (reportSystem uuid may PutsInRange)
      (fun u => (activity u).prog isal uuid) (.start t₀) P) :
    ∀ u r, (u, r) ∈ P.world.reports → ∃ c slot t, P.world.Lists u c slot t ∧
      r.containerId = c.toInt64 ∧ r.replicaIndex = some (slotToI32 slot) ∧ r.Legal t := by
  have hstart : (Reporting.start t₀ : Reporting T).Sound :=
    ⟨hkeyed, hplaced, fun _ _ hr => by cases hr⟩
  have hall := RelyGuarantee.safe_of_reachable (slotRely uuid may) (fun _ _ _ => True) hstart
    (fun _ => trivial) (fun _ => stable_of_lasting Reporting.lasting_true)
    (fun u w w' hw _ heq => by
      cases heq
      exact ⟨hw, fun _ ht => ht, safe_activity (activity u)⟩)
    (fun _ _ => stable_of_lasting Reporting.lasting_true) hP
  intro u r hr
  obtain ⟨c, slot, ⟨t, hlists, hslot⟩, hc, hi⟩ := hall.inv.vouched u r hr
  exact ⟨c, slot, t, hlists, hc, hi, legal_of_hasSlot hslot hc hi⟩

/-! ### Out of range -/

/-- A datanode creates a container, puts a block into it, and registers. -/
def oneReplica (slot : UInt8) : Fin 3 → Activity
  | 0 => .serve (.createContainer ⟨some 1, some ⟨3, 2, 1048576, "RS"⟩⟩)
  | 1 => .serve (.putBlock (some ⟨some ⟨1, 1, slot.toUInt32⟩, [], []⟩))
  | 2 => .register

/-- The container is there. -/
def withContainer : Target :=
  ((StoreOp.createContainer (.newOpen 1 ⟨3, 2, 1048576, .rs⟩)).exec .empty).2

/-- The block is there. -/
def withBlock (slot : UInt8) : Target :=
  ((StoreOp.putBlock ⟨⟨1, 1, slot⟩, [], []⟩).exec withContainer).2

theorem acceptPut_oneReplica (slot : UInt8) :
    Service.acceptPut (some ⟨some ⟨1, 1, slot.toUInt32⟩, [], []⟩) =
      .ok ⟨⟨1, 1, slot⟩, [], []⟩ := by
  have hid : BlockId.ofWire ⟨1, 1, slot.toUInt32⟩ = .ok ⟨1, 1, slot⟩ :=
    BlockId.ofWire_toWire ⟨1, 1, slot⟩
  simp only [Service.acceptPut, Service.required, BlockData.ofWire, bind, Except.bind, hid]
  rfl

/-- The replica the datanode registers. -/
def registered (slot : UInt8) : ContainerReplica :=
  ⟨1, .open, some (slotToI32 slot), some "dn", some 1, some 0⟩

/-- The datanode reports the slot of the block, if the calls meet the condition. -/
theorem reachable_oneReplica (isal : IsaL) {meets : Target → StoreOp → Prop} {slot : UInt8}
    (hok : ((StoreOp.putBlock ⟨⟨1, 1, slot⟩, [], []⟩).exec withContainer).1 = .ok 1)
    (hcontainers : (withBlock slot).store.listContainers =
      [⟨1, .open, 0, 1, some ⟨3, 2, 1048576, .rs⟩⟩])
    (hlisted : (withBlock slot).store.listBlocks 1 0 1 = ⟨[⟨⟨1, 1, slot⟩, [], []⟩], none⟩)
    (hcreate : meets .empty (.createContainer (.newOpen 1 ⟨3, 2, 1048576, .rs⟩)))
    (hput : meets withContainer (.putBlock ⟨⟨1, 1, slot⟩, [], []⟩))
    (hlist : meets (withBlock slot) .listContainers ∧ meets (withBlock slot) (.listBlocks 1 0 1)) :
    ∃ P, Pool.Reachable (reportSystem "dn" (fun _ => StoreOp.never) meets)
        (fun u => (oneReplica slot u).prog isal "dn") (.start .empty) P ∧
      P.world.reports = [(2, registered slot)] := by
  have hanswers : ∀ op t, StoreOp.Answers StoreOp.never t op (op.exec t).1 (op.exec t).2 :=
    fun op t => StoreOp.answers_exec StoreOp.never t op
  have hfirst : ((oneReplica slot 0).prog isal "dn").Ends
      (ReportOp.Answers "dn" (0 : Fin 3) StoreOp.never meets) (.start .empty) (.ok ())
      ((Reporting.start .empty).store 0 _ withContainer) :=
    ⟨.ok (), _, ⟨hcreate, _, hanswers _ _, rfl⟩, rfl, rfl⟩
  have hsecond : ∀ w : Reporting (Fin 3), w.target = withContainer →
      ((oneReplica slot 1).prog isal "dn").Ends
        (ReportOp.Answers "dn" (1 : Fin 3) StoreOp.never meets) w (.ok ())
        (w.store 1 (.putBlock ⟨⟨1, 1, slot⟩, [], []⟩) (withBlock slot)) := by
    rintro ⟨_, calls, reported, reports⟩ rfl
    simp only [oneReplica, Activity.prog, Service.Rpc.serve, Service.putBlock,
      acceptPut_oneReplica]
    exact ⟨.ok 1, _, ⟨hput, _, hok ▸ hanswers _ _, rfl⟩, rfl, rfl⟩
  have hthird : ∀ w : Reporting (Fin 3), w.target = withBlock slot →
      ((oneReplica slot 2).prog isal "dn").Ends
        (ReportOp.Answers "dn" (2 : Fin 3) StoreOp.never meets) w (.ok ())
        (((w.store 2 .listContainers (withBlock slot)).store 2 (.listBlocks 1 0 1)
          (withBlock slot)).announce 2 (registered slot)) := by
    rintro ⟨_, calls, reported, reports⟩ rfl
    exact ⟨.ok [⟨1, .open, 0, 1, some ⟨3, 2, 1048576, .rs⟩⟩], _, ⟨hlist.1, _,
        hcontainers ▸ hanswers .listContainers (withBlock slot), rfl⟩,
      .ok ⟨[⟨⟨1, 1, slot⟩, [], []⟩], none⟩, _, ⟨hlist.2, _,
        hlisted ▸ hanswers (.listBlocks 1 0 1) (withBlock slot), rfl⟩,
      (), _, rfl, rfl, rfl⟩
  refine ⟨_, ((Pool.steps_of_start rfl rfl hfirst).trans
    (Pool.steps_of_start rfl rfl (hsecond _ rfl))).trans
      (Pool.steps_of_start rfl rfl (hthird _ rfl)), rfl⟩

/-- A block in the first slot. -/
theorem reports_in_range_first :
    ∃ P, Pool.Reachable (reportSystem "dn" (fun _ => StoreOp.never) PutsInRange)
        (fun u => (oneReplica 1 u).prog IsaL.reference "dn") (.start .empty) P ∧
      P.world.reports = [(2, registered 1)] ∧ ∃ c slot t, P.world.Lists 2 c slot t ∧
        (registered 1).containerId = c.toInt64 ∧
        (registered 1).replicaIndex = some (slotToI32 slot) ∧ (registered 1).Legal t := by
  have hslot : withContainer.holdings.HasSlot 1 1 :=
    ⟨_, ⟨3, 2, 1048576, .rs⟩, rfl, rfl, by decide, by decide⟩
  obtain ⟨P, hP, hreports⟩ := @reachable_oneReplica IsaL.reference PutsInRange 1
    (by decide +kernel) (by decide +kernel) (by decide +kernel) trivial (fun _ => hslot)
    ⟨trivial, trivial⟩
  refine ⟨P, hP, hreports, reports_in_range IsaL.reference "dn" _ (oneReplica 1)
    MetaStore.keyed_empty (fun b bd hb => ?_) hP 2 _ (hreports ▸ List.mem_singleton_self _)⟩
  cases hb

/-- **A slot that is none is reported.** The block is accepted, and the datanode registers with
slot `0` of a container of five. -/
theorem reports_slot_zero :
    ∃ P, Pool.Reachable (reportSystem "dn" (fun _ => StoreOp.never) fun _ _ => True)
        (fun u => (oneReplica 0 u).prog IsaL.reference "dn") (.start .empty) P ∧
      P.world.reports = [(2, registered 0)] ∧ ∀ t, ¬(registered 0).Legal t := by
  obtain ⟨P, hP, hreports⟩ := @reachable_oneReplica IsaL.reference (fun _ _ => True) 0
    (by decide +kernel) (by decide +kernel) (by decide +kernel) trivial trivial ⟨trivial, trivial⟩
  refine ⟨P, hP, hreports, fun t hlegal => ?_⟩
  obtain ⟨c, record, ec, i, -, -, -, hi, hpos, -⟩ := hlegal
  cases hi
  exact absurd hpos (by decide)

end OzoneRust
