import OzoneRust.Datanode.Atomicity
import OzoneRust.Datanode.Dangling

/-!
# What was acknowledged stays

A client has written a chunk and put its block, and was told so. Beside it run other clients, and
repairs that create containers, write into them, and take back what they created when they fail.

The block keeps its record and its bytes if its container had a record to begin with: a repair
that finds the container uses it and never takes it back
(`OzoneRust.Acknowledged.safe_reconstructFrom`), and a repair of another container does not reach
it (`OzoneRust.Acknowledged.spares_of_about`). Three things are left to the others: that they do
not touch the block or delete its container, that no repair is to rebuild the slot of the block,
and that the names of their chunks are plain, since a name with a slash reaches the chunks of
other blocks (`OzoneRust.chunk_escapes`). Repairs and gateways name every chunk `0`, which is
plain.

* `OzoneRust.acknowledged_survives`: a client among any other clients and repairs.
* `OzoneRust.rollback_spares_acknowledged`: a repair among gateways that write the other slots of
  its container.
* `OzoneRust.rollback_destroys_acknowledged`: where the repair creates the container, a gateway
  that comes second is told that the container is there, and its block is put; then the repair
  finds nothing to rebuild, and deletes the container with the block.
-/

namespace OzoneRust

namespace Acknowledged

open Service RelyGuarantee
open FileChunkStore (stored Clean)

/-! ### The neighbours -/

/-- The calls that leave a block and its container in place. -/
def Spares (b : BlockId) : StoreOp → Prop
  | .putBlock block => block.blockId ≠ b
  | .writeChunk b' _ _ => b' ≠ b
  | .deleteBlock b' => b' ≠ b
  | .deleteChunk b' _ => b' ≠ b
  | .deleteContainer c => c ≠ b.container
  | .deleteChunks c => c ≠ b.container
  | _ => True

/-- What runs beside the client. -/
inductive Neighbour (b : BlockId) where
  /-- Another client. -/
  | client (p : ServiceM Unit) (spares : p.Makes (Spares b)) (plain : p.Makes StoreOp.Plain)
  /-- A repair that is not to rebuild the slot of the block. -/
  | repair (isal : IsaL) (net : String → Peer) (input : ReconstructInput)
      (h : input.container = b.container → b.replicaIndex ∉ input.missingSlots)

/-- The calls of a repair. -/
def repairProg (isal : IsaL) (net : String → Peer) (input : ReconstructInput) : ServiceM Unit :=
  (Repair.reconstructFromSurvivors isal net input).mapOutcome fun _ => .ok ()

/-- The calls of a neighbour. -/
def Neighbour.prog {b : BlockId} : Neighbour b → ServiceM Unit
  | .client p _ _ => p
  | .repair isal net input _ => repairProg isal net input

/-- The calls of the client and of its neighbours. -/
def prog {ι : Type} {b : BlockId} (stream : WriteStream) (blockData : Option WireBlockData)
    (neighbours : ι → Neighbour b) : Option ι → ServiceM Unit
  | none => Dangling.writeThenPut stream blockData
  | some i => (neighbours i).prog

/-- `create_container` of a gateway, for which a container that is there is as good as new. -/
def createIfAbsent (req : CreateContainerRequest) : ServiceM Unit := do
  match ← (createContainer req).attempt with
  | .ok _ => pure ()
  | .error s => if s.code = .alreadyExists then pure () else .done (.err s)

/-- A gateway that writes one slot of a group, as the datanode sees it. -/
structure SlotWrite where
  /-- The container is to be there. -/
  create : CreateContainerRequest
  /-- The chunk is written. -/
  stream : WriteStream
  /-- The block is put. -/
  blockData : Option WireBlockData
  /-- The block that is put. -/
  block : BlockData
  /-- The chunk that is written. -/
  chunk : ChunkInfo
  /-- Its bytes. -/
  data : Bytes
  /-- The chunk is one of the block. -/
  written : acceptWrite stream = .ok (block.blockId, chunk, data)
  /-- The block is accepted. -/
  accepted : acceptPut blockData = .ok block
  /-- The chunk has a plain name. -/
  plain : PlainName chunk.chunkName

/-- The calls of a gateway at one slot. -/
def SlotWrite.prog (s : SlotWrite) : ServiceM Unit := do
  createIfAbsent s.create
  Dangling.writeThenPut s.stream s.blockData

/-- A repair, and gateways beside it. -/
def besideRepair {ι : Type} (isal : IsaL) (net : String → Peer) (input : ReconstructInput)
    (writes : ι → SlotWrite) : Option ι → ServiceM Unit
  | none => repairProg isal net input
  | some i => (writes i).prog

/-! ### The calls they make -/

theorem plain_repairProg {isal : IsaL} {net : String → Peer} {input : ReconstructInput} :
    (repairProg isal net input).Makes StoreOp.Plain :=
  ((Repair.makes_reconstruct net).mono fun _ hop => hop.2.2).mapOutcome

theorem plain_neighbour {b : BlockId} : ∀ n : Neighbour b, n.prog.Makes StoreOp.Plain
  | .client _ _ plain => plain
  | .repair _ _ _ _ => plain_repairProg

theorem makes_writeThenPut {P : StoreOp → Prop} {stream : WriteStream}
    {blockData : Option WireBlockData} {bd : BlockData} {ci : ChunkInfo} {data : Bytes}
    (hwrite : acceptWrite stream = .ok (bd.blockId, ci, data))
    (hput : acceptPut blockData = .ok bd) (hchunk : P (.writeChunk bd.blockId ci.chunkName data))
    (hblock : P (.putBlock bd)) : (Dangling.writeThenPut stream blockData).Makes P := by
  refine (makes_writeChunk fun b chunk data' h => ?_).bind fun _ =>
    (makes_putBlock fun block h => ?_).bind fun _ => trivial
  · rw [hwrite] at h
    cases h
    exact hchunk
  · rw [hput] at h
    cases h
    exact hblock

theorem makes_createIfAbsent {P : StoreOp → Prop} (h : ∀ info, P (.createContainer info))
    (req : CreateContainerRequest) : (createIfAbsent req).Makes P := by
  have hcreate : (createContainer req).Makes P := by
    unfold createContainer Service.accepted
    cases acceptCreate req with
    | error e => trivial
    | ok info => exact makes_call_bind (h info) fun _ => trivial
  refine hcreate.attempt.bind fun r => ?_
  cases r with
  | ok _ => trivial
  | error s =>
    dsimp only
    split <;> trivial

theorem plain_slotWrite (s : SlotWrite) : s.prog.Makes StoreOp.Plain :=
  (makes_createIfAbsent (fun _ => trivial) s.create).bind fun _ =>
    makes_writeThenPut s.written s.accepted s.plain trivial

theorem spares_slotWrite {b : BlockId} {s : SlotWrite} (h : s.block.blockId ≠ b) :
    s.prog.Makes (Spares b) :=
  (makes_createIfAbsent (fun _ => trivial) s.create).bind fun _ =>
    makes_writeThenPut s.written s.accepted h h

/-! ### What they leave to each other -/

/-- The container of a block has a record. -/
def Housed (b : BlockId) (h : Holdings) : Prop := h.record b.container ≠ none

/-- The block is as it was. -/
def Same (b : BlockId) (h h' : Holdings) : Prop := h'.block b = h.block b ∧ h'.chunk b = h.chunk b

section Calls

variable {b : BlockId} {h : Holdings} {op : StoreOp} {t t' : Target} {may : StoreOp → Prop}
  {r : Except StorageError op.Val} {c : ContainerId}

theorem housed_setRecord {record : StoredContainer} (hb : Housed b h) :
    Housed b (h.setRecord c (some record)) := by
  unfold Housed Holdings.setRecord
  dsimp only
  by_cases hc : b.container = c
  · rw [hc, Function.update_self]
    simp
  · rw [Function.update_of_ne hc]
    exact hb

/-- **A call that spares the block.** -/
theorem spares_act (hop : Spares b op) (hb : Housed b h) :
    Housed b (op.act h) ∧ Same b h (op.act h) := by
  cases op with
  | getContainer id => exact ⟨hb, rfl, rfl⟩
  | listContainers => exact ⟨hb, rfl, rfl⟩
  | getBlock b' => exact ⟨hb, rfl, rfl⟩
  | listBlocks id start limit => exact ⟨hb, rfl, rfl⟩
  | readChunk b' name => exact ⟨hb, rfl, rfl⟩
  | createContainer info =>
    rw [StoreOp.act]
    split
    · exact ⟨hb, rfl, rfl⟩
    · exact ⟨housed_setRecord hb, rfl, rfl⟩
  | setContainerState id state =>
    rw [StoreOp.act]
    split
    · exact ⟨hb, rfl, rfl⟩
    · exact ⟨housed_setRecord hb, rfl, rfl⟩
  | deleteContainer id =>
    have hne : b.container ≠ id := Ne.symm hop
    exact ⟨fun hnone => hb ((Function.update_of_ne hne _ _).symm.trans hnone), if_neg hne, rfl⟩
  | putBlock block =>
    have hne : b ≠ block.blockId := Ne.symm hop
    rw [StoreOp.act]
    split
    · exact ⟨hb, rfl, rfl⟩
    · split
      · exact ⟨housed_setRecord hb, Function.update_of_ne hne _ _, rfl⟩
      · exact ⟨hb, rfl, rfl⟩
  | deleteBlock b' =>
    have hne : b ≠ b' := Ne.symm hop
    rw [StoreOp.act]
    split
    · exact ⟨hb, rfl, rfl⟩
    · split
      · exact ⟨hb, Function.update_of_ne hne _ _, rfl⟩
      · exact ⟨housed_setRecord hb, Function.update_of_ne hne _ _, rfl⟩
  | writeChunk b' name data => exact ⟨hb, rfl, Function.update_of_ne (Ne.symm hop) _ _⟩
  | deleteChunk b' name => exact ⟨hb, rfl, Function.update_of_ne (Ne.symm hop) _ _⟩
  | deleteChunks id => exact ⟨hb, rfl, if_neg (Ne.symm hop)⟩

theorem spares_answers (hop : Spares b op) (hb : Housed b t.holdings)
    (ha : StoreOp.Answers may t op r t') :
    Housed b t'.holdings ∧ Same b t.holdings t'.holdings := by
  rcases ha.holdings with hact | ⟨-, -, rfl | ⟨id, rfl, hred⟩⟩
  · rw [hact]
    exact spares_act hop hb
  · exact ⟨hb, rfl, rfl⟩
  · refine ⟨fun hnone => hb (hred.record ▸ hnone), by rw [hred.block], ?_⟩
    exact hred.agreeOff.chunk b (Ne.symm hop)

/-- A call about another container spares the block. -/
theorem spares_of_about (hop : op.About c) (hc : c ≠ b.container) : Spares b op := by
  have hne : ∀ {b' : BlockId}, some b'.container = some c → b' ≠ b := by
    rintro _ h rfl
    exact hc (Option.some.inj h).symm
  cases op with
  | putBlock block => exact hne hop
  | writeChunk b' name data => exact hne hop
  | deleteBlock b' => exact hne hop
  | deleteChunk b' name => exact hne hop
  | deleteContainer id => exact Option.some.inj hop ▸ hc
  | deleteChunks id => exact Option.some.inj hop ▸ hc
  | _ => trivial

theorem spares_of_rebuilds {input : ReconstructInput} {e : Enumeration}
    (hop : Repair.Rebuilds input e op) (hslot : b.replicaIndex ∉ input.missingSlots) :
    Spares b op := by
  cases op with
  | writeChunk b' name data =>
    rintro rfl
    exact hslot hop.2.1.2.2
  | putBlock block =>
    rintro rfl
    exact hslot hop.1.2.2
  | _ => exact hop.elim

end Calls

section Threads

variable {T : Type} {b : BlockId} {me : T} {may : T → StoreOp → Prop}

/-- Only the client, which is `me`, touches the block. -/
def rely (b : BlockId) (me : T) (may : T → StoreOp → Prop) :
    RelyGuarantee storeCalls T Target where
  sys := storeSystem may
  Inv w := Housed b w.holdings
  Guar u w w' := u ≠ me → Same b w.holdings w'.holdings

variable {u : T} {w : Target} {ε α : Type}

/-- A program that only makes such calls. -/
theorem safe_of_spares {p : Prog storeCalls ε α} (hp : p.Makes (Spares b)) :
    (rely b me may).Safe u (fun _ _ => True) p w :=
  Safe.of_makes (P := Spares b) (F := fun _ => True) (fun _ _ _ _ => trivial)
    (fun _ _ _ _ hop _ hI ha =>
      ⟨(spares_answers hop hI ha).1, fun _ => (spares_answers hop hI ha).2, trivial⟩)
    hp trivial

/-- **A repair of the container finds it**, and does not take it back. -/
theorem safe_reconstructFrom (isal : IsaL) {input : ReconstructInput} (e : Enumeration)
    (hc : input.container = b.container) (hslot : b.replicaIndex ∉ input.missingSlots) :
    (rely b me may).Safe u (fun _ _ => True) (Repair.reconstructFrom isal input e) w := by
  unfold Repair.reconstructFrom
  split
  · trivial
  · refine Safe.bind (I := fun found _ => found ≠ .created) (fun found w hfound => ?_) ?_
    · cases found with
      | finished => trivial
      | existing =>
        exact safe_of_spares (Repair.makes_rebuildGroups.mono fun _ h => spares_of_rebuilds h hslot)
      | created => exact absurd rfl hfound
    · refine Safe.call (fun _ => True) (fun _ _ _ _ => trivial) trivial ?_
      intro w₁ _ hI r w₂ ha
      have hspares : Spares b (.getContainer input.container) := trivial
      obtain ⟨hI', hsame⟩ := spares_answers hspares hI ha
      refine ⟨hI', fun _ => hsame, ?_⟩
      rcases ha with ⟨hr, -⟩ | ⟨-, ⟨err, rfl⟩, -⟩
      · obtain ⟨record, hrecord⟩ := Option.ne_none_iff_exists'.mp hI
        have hget : ((StoreOp.getContainer input.container).exec w₁).1 =
            .ok (some record.info) := by
          rw [hc, StoreOp.exec, MetaStore.getContainer, ← holdings_record, hrecord]
          rfl
        rw [hr, hget]
        change (rely b me may).Safe u _ (Repair.provisionFound input (some record.info)) w₂
        rw [Repair.provisionFound]
        split
        · exact Provision.noConfusion
        · split
          · exact Provision.noConfusion
          · trivial
      · trivial

/-- **A repair leaves the block alone.** -/
theorem safe_repairProg {isal : IsaL} {net : String → Peer} {input : ReconstructInput}
    (h : input.container = b.container → b.replicaIndex ∉ input.missingSlots) :
    (rely b me may).Safe u (fun _ _ => True) (repairProg isal net input) w := by
  refine Safe.mapOutcome (Q := fun _ _ => True) (fun _ _ _ => trivial) ?_
  by_cases hc : input.container = b.container
  · exact safe_reconstructFrom isal _ hc (h hc)
  · exact safe_of_spares ((Repair.makes_reconstruct net).mono fun _ hop => spares_of_about hop.1 hc)

/-- **The neighbours leave the block alone.** -/
theorem safe_neighbour : ∀ n : Neighbour b, (rely b me may).Safe u (fun _ _ => True) n.prog w
  | .client _ spares _ => safe_of_spares spares
  | .repair _ _ _ h => safe_repairProg h

/-! ### The client -/

/-- The block has its record and its bytes. -/
def Kept (bd : BlockData) (name : String) (data : Bytes) (w : Target) : Prop :=
  w.holdings.block bd.blockId = some bd ∧ w.holdings.chunk bd.blockId name = some data

/-- What the client knows of the block is not spoiled. -/
theorem stable_same (F : Holdings → Prop) (hF : ∀ h h', Same b h h' → F h → F h') :
    (rely b me may).Stable me fun w => F w.holdings :=
  fun _ _ ⟨_, _, _, hu, hG⟩ => hF _ _ (hG hu)

variable {stream : WriteStream} {blockData : Option WireBlockData} {ci : ChunkInfo} {data : Bytes}
  {bd : BlockData}

/-- A put by the client. -/
theorem housed_putBlock {t t' : Target} {mayFail : StoreOp → Prop} {r : Except StorageError ℕ}
    (hb : Housed bd.blockId t.holdings) (ha : StoreOp.Answers mayFail t (.putBlock bd) r t') :
    Housed bd.blockId t'.holdings ∧ t'.holdings.chunk = t.holdings.chunk ∧
      ∀ n, r = .ok n → t'.holdings.block bd.blockId = some bd := by
  rcases ha with ⟨hr, ht'⟩ | ⟨-, ⟨e, rfl⟩, rfl⟩
  · have hact := (congrArg Target.holdings ht').trans (StoreOp.holdings_exec t (.putBlock bd))
    refine ⟨?_, ?_, fun n hn => ?_⟩
    · rw [hact, StoreOp.act]
      split
      · exact hb
      · split
        · exact housed_setRecord hb
        · exact hb
    · rw [hact, StoreOp.chunk_act_putBlock]
    · obtain ⟨record, hrecord, hopen⟩ := StoreOp.exec_putBlock (hr.symm.trans hn)
      rw [hact, StoreOp.act_putBlock hrecord hopen]
      exact Function.update_self _ _ _
  · exact ⟨hb, rfl, fun _ h => by cases h⟩

/-- **The client**: when it is told that its block is put, the block has its record and its
bytes. -/
theorem safe_client (hwrite : acceptWrite stream = .ok (bd.blockId, ci, data))
    (hput : acceptPut blockData = .ok bd) :
    (rely bd.blockId me may).Safe me (ends fun _ w => Kept bd ci.chunkName data w)
      (Dangling.writeThenPut stream blockData) w := by
  unfold Dangling.writeThenPut writeChunk putBlock accepted
  rw [hwrite, hput]
  refine Safe.call (fun _ => True) (fun _ _ _ _ => trivial) trivial ?_
  rintro w₁ - hI r w₂ ha
  have hstep : Housed bd.blockId w₂.holdings ∧
      (r = .ok () → w₂.holdings.chunk bd.blockId ci.chunkName = some data) := by
    rcases ha with ⟨rfl, rfl⟩ | ⟨-, ⟨e, rfl⟩, rfl⟩
    · refine ⟨hI, fun _ => ?_⟩
      exact Holdings.chunk_setChunk_self (h := w₁.holdings)
    · exact ⟨hI, nofun⟩
  refine ⟨hstep.1, fun h => absurd rfl h, ?_⟩
  cases r with
  | error e => trivial
  | ok _ =>
    refine Safe.call (fun w => w.holdings.chunk bd.blockId ci.chunkName = some data)
      (stable_same (fun h => h.chunk bd.blockId ci.chunkName = some data)
        fun _ _ hsame h => (congrFun hsame.2 _).trans h) (hstep.2 rfl) ?_
    intro w₃ hchunk hI r w₄ ha
    obtain ⟨hI', hchunks, hblock⟩ := housed_putBlock hI ha
    refine ⟨hI', fun h => absurd rfl h, ?_⟩
    cases r with
    | error e => trivial
    | ok n => exact ⟨hblock n rfl, by rw [hchunks]; exact hchunk⟩

/-- A gateway at one slot, likewise. -/
theorem safe_slotWrite (s : SlotWrite) :
    (rely s.block.blockId me may).Safe me
      (ends fun _ w => Kept s.block s.chunk.chunkName s.data w) s.prog w := by
  have hcreate : (createIfAbsent s.create).Makes (Spares s.block.blockId) :=
    makes_createIfAbsent (fun _ => trivial) _
  exact ((safe_of_spares hcreate).mono fun o _ _ => by cases o <;> trivial).bind_ends
    (I := fun _ _ => True) fun _ _ _ => safe_client s.written s.accepted

/-- What holds when a thread has come to its end. -/
def After (bd : BlockData) (name : String) (data : Bytes) (me u : T) (o : Outcome Status Unit)
    (w : Target) : Prop :=
  u = me → ends (fun _ w => Kept bd name data w) o w

variable [DecidableEq T] {prog : T → ServiceM Unit} {name : String}

/-- **Where all others leave the block alone**, it is kept once its client is told so. -/
theorem kept_of_reachable {w₀ : Target} (h₀ : Housed bd.blockId w₀.holdings)
    (hme : ∀ w, (rely bd.blockId me may).Safe me (ends fun _ w => Kept bd name data w) (prog me) w)
    (hothers : ∀ u, u ≠ me → ∀ w, (rely bd.blockId me may).Safe u (fun _ _ => True) (prog u) w)
    {P : Pool storeCalls Status Unit T Target}
    (hP : Pool.Reachable (storeSystem may) prog w₀ P)
    (hdone : P.threads me = some (.done (.ok ()))) : Kept bd name data P.world := by
  have hall : (rely bd.blockId me may).AllSafe (After bd name data me) (fun _ _ => True) P :=
    (rely bd.blockId me may).safe_of_reachable _ h₀ (fun _ => trivial) (fun _ _ _ _ _ => trivial)
      (fun u w w' hI _ hs => ?_) (fun u o => ?_) hP
  · exact hall.safe me _ hdone rfl
  · obtain rfl : w' = w := hs
    refine ⟨hI, fun _ => ⟨rfl, rfl⟩, ?_⟩
    by_cases hu : u = me
    · rw [hu]
      exact (hme _).mono fun _ _ h _ => h
    · exact (hothers u hu _).mono fun _ _ _ h => absurd h hu
  · intro w w' hothers hafter hu
    subst hu
    cases o with
    | ok a =>
      exact stable_same
        (fun h => h.block bd.blockId = some bd ∧ h.chunk bd.blockId name = some data)
        (fun _ _ hsame h => ⟨hsame.1.trans h.1, (congrFun hsame.2 _).trans h.2⟩) _ _ hothers
        (hafter rfl)
    | err e => trivial
    | panic => trivial

/-- The same, with the chunks on disk. -/
theorem kept_onDisk {root : Path} {n₀ : DiskNode} {P : Pool storeCalls Status Unit T DiskNode}
    (hP : Pool.Reachable (diskSystem root may) prog n₀ P)
    (hdone : P.threads me = some (.done (.ok ())))
    (hplain : ∀ u, (prog u).Makes StoreOp.Plain) (hname : PlainName name)
    (h₀ : n₀.store.getContainer bd.blockId.container ≠ none)
    (hme : ∀ w, (rely bd.blockId me may).Safe me (ends fun _ w => Kept bd name data w) (prog me) w)
    (hothers : ∀ u, u ≠ me → ∀ w, (rely bd.blockId me may).Safe u (fun _ _ => True) (prog u) w) :
    P.world.store.getBlock bd.blockId = some bd ∧
      stored root P.world.disk ⟨bd.blockId, name, hname⟩ = some data := by
  have hhoused : Housed bd.blockId (n₀.target root).holdings := fun hnone =>
    h₀ (Dangling.getContainer_eq_none.mpr hnone)
  obtain ⟨hblock, hchunk⟩ := kept_of_reachable hhoused hme hothers (hP.onDisk hplain) hdone
  exact ⟨hblock, ((P.world.shows_target root).chunk ⟨bd.blockId, name, hname⟩).symm.trans hchunk⟩

end Threads

end Acknowledged

open Acknowledged Service
open FileChunkStore (stored Clean)

/-- **An acknowledged block survives** whatever its neighbours do and whichever calls fail, if its
container was there to begin with. -/
theorem acknowledged_survives {ι : Type} [DecidableEq ι] {root : Path} {bd : BlockData}
    {stream : WriteStream} {blockData : Option WireBlockData} {ci : ChunkInfo} {data : Bytes}
    (hwrite : acceptWrite stream = .ok (bd.blockId, ci, data))
    (hput : acceptPut blockData = .ok bd) (hname : PlainName ci.chunkName)
    (neighbours : ι → Neighbour bd.blockId) (may : Option ι → StoreOp → Prop) {n₀ : DiskNode}
    (h₀ : n₀.store.getContainer bd.blockId.container ≠ none)
    {P : Pool storeCalls Status Unit (Option ι) DiskNode}
    (hP : Pool.Reachable (diskSystem root may) (prog stream blockData neighbours) n₀ P)
    (hdone : P.threads none = some (.done (.ok ()))) :
    P.world.store.getBlock bd.blockId = some bd ∧
      stored root P.world.disk ⟨bd.blockId, ci.chunkName, hname⟩ = some data := by
  refine kept_onDisk hP hdone (fun u => ?_) hname h₀ (fun _ => safe_client hwrite hput)
    fun u hu w => ?_
  · cases u with
    | none => exact makes_writeThenPut hwrite hput hname trivial
    | some i => exact plain_neighbour (neighbours i)
  · cases u with
    | none => exact absurd rfl hu
    | some i => exact safe_neighbour (neighbours i)

/-- **A rollback spares what was acknowledged** to gateways that write other slots than those to be
rebuilt, if the container was there before the repair. -/
theorem rollback_spares_acknowledged {ι : Type} [DecidableEq ι] {root : Path} {isal : IsaL}
    {net : String → Peer} {input : ReconstructInput} (writes : ι → SlotWrite)
    (hown : ∀ i j, (writes i).block.blockId = (writes j).block.blockId → i = j)
    (hslot : ∀ i, (writes i).block.blockId.replicaIndex ∉ input.missingSlots)
    (may : Option ι → StoreOp → Prop) {n₀ : DiskNode} {i : ι}
    (h₀ : n₀.store.getContainer (writes i).block.blockId.container ≠ none)
    {P : Pool storeCalls Status Unit (Option ι) DiskNode}
    (hP : Pool.Reachable (diskSystem root may) (besideRepair isal net input writes) n₀ P)
    (hdone : P.threads (some i) = some (.done (.ok ()))) :
    P.world.store.getBlock (writes i).block.blockId = some (writes i).block ∧
      stored root P.world.disk
        ⟨(writes i).block.blockId, (writes i).chunk.chunkName, (writes i).plain⟩ =
          some (writes i).data := by
  refine kept_onDisk hP hdone (fun u => ?_) (writes i).plain h₀
    (fun _ => safe_slotWrite (writes i)) fun u hu w => ?_
  · cases u with
    | none => exact plain_repairProg
    | some j => exact plain_slotWrite (writes j)
  · cases u with
    | none => exact safe_repairProg fun _ => hslot i
    | some j =>
      exact safe_of_spares (spares_slotWrite fun heq => hu (congrArg some (hown j i heq)))

/-! ### Runs -/

open Dangling

/-- The container is there. -/
theorem exists_container : ∃ n : DiskNode, n.Shows dataRoot (storesAfter [createStep]) ∧
    Clean dataRoot n.disk.tree :=
  exists_shows_storesAfter fun op hop => by
    obtain rfl := List.mem_singleton.mp hop
    trivial

/-- A schedule is a run on disk. -/
theorem exists_turns {prog : Option Unit → ServiceM Unit} {n₀ : DiskNode} {t₀ : Target}
    (refuses : Option Unit → StoreOp → Bool) (may : Option Unit → StoreOp → Prop)
    (turns : List (Option Unit)) (hprog : ∀ u, (prog u).Makes StoreOp.Plain)
    (hmay : ∀ u op, refuses u op → may u op) (hmeta : ∀ u op, may u op → op.OnMeta)
    (hR : n₀.Shows dataRoot t₀) (hclean : Clean dataRoot n₀.disk.tree) :
    ∃ n, Pool.Reachable (diskSystem dataRoot may) prog n₀
        ⟨(turns.foldl (Pool.turn prog (fun _ w => w) (serveStores refuses))
          ⟨fun _ => none, t₀⟩).threads, n⟩ ∧
      n.Shows dataRoot (turns.foldl (Pool.turn prog (fun _ w => w) (serveStores refuses))
        ⟨fun _ => none, t₀⟩).world := by
  have hserve : ∀ u op, refuses u op → may u op ∧ op.OnMeta :=
    fun u op h => ⟨hmay u op h, hmeta u op (hmay u op h)⟩
  have hrun : Pool.Reachable (storeSystem may) prog t₀ _ :=
    Pool.steps_foldl_turn (fun _ _ => rfl) (fun _ _ _ _ _ h => answers_serveStores hserve h) turns _
  exact hrun.realized hprog hR hclean hmeta

/-- A repair of the third slot, beside a client that writes the first. -/
def thirdSlot : Neighbour oneChunk.blockId :=
  .repair IsaL.reference (twoSurvivors [7]) lostParity fun _ => by decide

/-- The repair finds the container before the client starts, and writes and puts its shard between
the calls of the client and after them. -/
def besideThirdSlot : Pool storeCalls Status Unit (Option Unit) Target :=
  [some (), some (), none, none, some (), none, some ()].foldl
    (Pool.turn (prog oneStream (some oneChunk.toWire) fun _ => thirdSlot) (fun _ w => w)
      (serveStores fun _ _ => false)) ⟨fun _ => none, storesAfter [createStep]⟩

set_option maxRecDepth 4000 in
/-- The theorem, for that run: the shard of the repair is on record, and the block is kept. -/
theorem acknowledged_survives_thirdSlot : ∃ n₀ n : DiskNode,
    Pool.Reachable (diskSystem dataRoot fun _ => StoreOp.never)
      (prog oneStream (some oneChunk.toWire) fun _ : Unit => thirdSlot) n₀
      ⟨besideThirdSlot.threads, n⟩ ∧
    n₀.store.getContainer 1 ≠ none ∧ besideThirdSlot.threads none = some (.done (.ok ())) ∧
    n.store.getBlock ⟨1, 7, 3⟩ ≠ none ∧ n.store.getBlock ⟨1, 1, 1⟩ = some oneChunk ∧
      stored dataRoot n.disk ⟨⟨1, 1, 1⟩, "0", plainName_zero⟩ = some [5] := by
  obtain ⟨n₀, hR₀, hclean⟩ := exists_container
  have hprog : ∀ u, (prog oneStream (some oneChunk.toWire) (fun _ : Unit => thirdSlot) u).Makes
      StoreOp.Plain := by
    intro u
    cases u with
    | none => exact plain_four 1
    | some _ => exact plain_neighbour thirdSlot
  obtain ⟨n, hrun, hR⟩ := exists_turns (fun _ _ => false) (fun _ => StoreOp.never)
    [some (), some (), none, none, some (), none, some ()] hprog (fun _ _ => Bool.noConfusion)
    (fun _ _ => False.elim) hR₀ hclean
  have hfound : n₀.store.getContainer 1 ≠ none := by
    rw [← hR₀.store]
    decide +kernel
  have hwrite : acceptWrite oneStream = .ok (oneChunk.blockId, ⟨"0", 0, 1, none⟩, [5]) :=
    acceptWrite_oneStream
  refine ⟨n₀, n, hrun, hfound, rfl, ?_, acknowledged_survives hwrite acceptPut_oneChunk
    plainName_zero (fun _ : Unit => thirdSlot) _ hfound hrun rfl⟩
  rw [← hR.store]
  decide +kernel

/-- A gateway that writes the first slot. -/
def firstSlot : SlotWrite where
  create := ⟨some 1, some ⟨3, 2, 1048576, "RS"⟩⟩
  stream := oneStream
  blockData := some oneChunk.toWire
  block := oneChunk
  chunk := ⟨"0", 0, 1, none⟩
  data := [5]
  written := acceptWrite_oneStream
  accepted := acceptPut_oneChunk
  plain := plainName_zero

theorem plain_besideRepair (net : String → Peer) (u : Option Unit) :
    (besideRepair IsaL.reference net lostParity (fun _ => firstSlot) u).Makes StoreOp.Plain := by
  cases u with
  | none => exact plain_repairProg
  | some _ => exact plain_slotWrite firstSlot

/-- The metadata store refuses the shard of the repair. -/
def refusesShard : Option Unit → StoreOp → Bool
  | none, .putBlock _ => true
  | _, _ => false

/-- The repair finds the container, and fails when it puts its shard. -/
def failedRepair : Pool storeCalls Status Unit (Option Unit) Target :=
  [none, none, some (), some (), some (), none, some (), none].foldl
    (Pool.turn (besideRepair IsaL.reference (twoSurvivors [7]) lostParity fun _ => firstSlot)
      (fun _ w => w) (serveStores refusesShard)) ⟨fun _ => none, storesAfter [createStep]⟩

set_option maxRecDepth 4000 in
/-- The theorem, for that run: the chunk of the failed repair is left, and the block of the gateway
is kept. -/
theorem rollback_spares_acknowledged_failedRepair : ∃ n₀ n : DiskNode,
    Pool.Reachable (diskSystem dataRoot fun u op => refusesShard u op)
      (besideRepair IsaL.reference (twoSurvivors [7]) lostParity fun _ => firstSlot) n₀
      ⟨failedRepair.threads, n⟩ ∧
    n₀.store.getContainer 1 ≠ none ∧ failedRepair.threads (some ()) = some (.done (.ok ())) ∧
    failedRepair.threads none = some (.done (.ok ())) ∧ n.store.getBlock ⟨1, 7, 3⟩ = none ∧
    n.store.getBlock ⟨1, 1, 1⟩ = some oneChunk ∧
      stored dataRoot n.disk ⟨⟨1, 1, 1⟩, "0", plainName_zero⟩ = some [5] := by
  obtain ⟨n₀, hR₀, hclean⟩ := exists_container
  have hmeta : ∀ u op, refusesShard u op → op.OnMeta := fun u op h => by
    cases u <;> cases op <;> trivial
  obtain ⟨n, hrun, hR⟩ := exists_turns refusesShard (fun u op => refusesShard u op)
    [none, none, some (), some (), some (), none, some (), none]
    (plain_besideRepair (twoSurvivors [7])) (fun _ _ => id) hmeta hR₀ hclean
  have hfound : n₀.store.getContainer 1 ≠ none := by
    rw [← hR₀.store]
    decide +kernel
  have hdone : failedRepair.threads (some ()) = some (.done (.ok ())) := rfl
  refine ⟨n₀, n, hrun, hfound, hdone, rfl, ?_, rollback_spares_acknowledged (i := ())
    (fun _ => firstSlot) (fun _ _ _ => rfl) (fun _ => by decide) _ hfound hrun hdone⟩
  rw [← hR.store]
  decide +kernel

/-- The repair creates the container, the gateway finds it and puts its block, and the repair finds
nothing to rebuild. -/
def emptyRepair : Pool storeCalls Status Unit (Option Unit) Target :=
  [none, none, none, some (), some (), some (), some (), none, none].foldl
    (Pool.turn (besideRepair IsaL.reference (twoSurvivors [8]) lostParity fun _ => firstSlot)
      (fun _ w => w) (serveStores fun _ _ => false)) ⟨fun _ => none, storesAfter []⟩

set_option maxRecDepth 4000 in
/-- **A rollback destroys an acknowledged block** in a container that the repair has created. -/
theorem rollback_destroys_acknowledged : ∃ P,
    Pool.Reachable (diskSystem dataRoot fun _ => StoreOp.never)
      (besideRepair IsaL.reference (twoSurvivors [8]) lostParity fun _ : Unit => firstSlot)
      DiskNode.empty P ∧
    P.threads (some ()) = some (.done (.ok ())) ∧
    P.world.store.getBlock firstSlot.block.blockId = none ∧
      stored dataRoot P.world.disk ⟨firstSlot.block.blockId, "0", plainName_zero⟩ = none := by
  obtain ⟨n, hrun, hR⟩ := exists_turns (fun _ _ => false) (fun _ => StoreOp.never)
    [none, none, none, some (), some (), some (), some (), none, none]
    (plain_besideRepair (twoSurvivors [8])) (fun _ _ => Bool.noConfusion) (fun _ _ => False.elim)
    shows_start.1 shows_start.2
  have hstore : emptyRepair.world.store = n.store := hR.store
  have hchunk := hR.chunk ⟨firstSlot.block.blockId, "0", plainName_zero⟩
  refine ⟨_, hrun, rfl, ?_, ?_⟩
  · change n.store.getBlock _ = none
    rw [← hstore]
    decide +kernel
  · have hnone : emptyRepair.world.chunks firstSlot.block.blockId "0" = none := by decide +kernel
    exact hchunk.symm.trans hnone

end OzoneRust
