import OzoneRust.Datanode.OnDisk
import OzoneRust.Datanode.Persist

/-!
# Deletions beside writes

A container is deleted in two steps, its records and then its chunks; a client writes a chunk
and then puts the block that names it. Nothing keeps the two apart. What saves the metadata
from naming chunks that are gone is the order of the steps: a block is put only into a
container that has a record, and the chunks are deleted after the record.

So over all interleavings of deletions, by request or by command, of creations, writers and
whatever else does not delete, with chunk names that are plain, every chunk on record is on
disk, at every moment, if

* the chunks of a container are deleted after its records, also by a command: it goes on when
  the deletion of the records has failed (`OzoneRust.Dangling.dangles_when_command_fails`), and
* no container is created whose chunks a task is about to delete, or whose chunk is gone that a
  task is about to put on record (`OzoneRust.Dangling.Careful`,
  `OzoneRust.Dangling.Holds.step`).

The second is so where no container is created while a deletion of it or a write to it is
between its two steps, `OzoneRust.Dangling.whole_of_orderly`, and where no container is created
once a deletion of it has begun, `OzoneRust.Dangling.whole_of_noReuse`. Without it a block is
put and then loses its chunk (`OzoneRust.Dangling.dangles_when_created_between`).
-/

namespace OzoneRust

namespace Dangling

open Service

/-! ### Tasks -/

/-- The calls that take no chunk away and put no block. -/
def Quiet : StoreOp → Prop
  | .getContainer _ => True
  | .listContainers => True
  | .createContainer _ => True
  | .setContainerState _ _ => True
  | .getBlock _ => True
  | .listBlocks _ _ _ => True
  | .readChunk _ _ => True
  | _ => False

/-- The record names the chunk that was written, and no other. -/
def Records (stream : WriteStream) (blockData : Option WireBlockData) : Prop :=
  ∀ b ci data bd, acceptWrite stream = .ok (b, ci, data) → acceptPut blockData = .ok bd →
    bd.blockId = b ∧ ∀ chunk ∈ bd.chunks, chunk.chunkName = ci.chunkName

/-- What a datanode does. -/
inductive Task where
  /-- `delete_container`. -/
  | delete (containerId : Option ContainerId)
  /-- `DeleteContainerCommand`. -/
  | command (c : ContainerId)
  /-- A client's `write_chunk`, and the `put_block` of the chunk if that returns. -/
  | write (stream : WriteStream) (blockData : Option WireBlockData) (h : Records stream blockData)
  /-- Anything that takes nothing away and puts no block: `create_container`,
  `close_container`, the requests that read, a report, a pass of the scrubber. -/
  | quiet (p : ServiceM Unit) (h : p.Makes Quiet)

/-- The two steps of a `DeleteContainerCommand`: the second is made whatever the first
answers. -/
def deleteCommand (c : ContainerId) : ServiceM Unit := do
  let _ ← Prog.perform (C := storeCalls) (.deleteContainer c)
  let _ ← Prog.perform (C := storeCalls) (.deleteChunks c)

/-- The two steps of a client that writes a chunk: the second is made if the first returns. -/
def writeThenPut (stream : WriteStream) (blockData : Option WireBlockData) : ServiceM Unit := do
  let _ ← writeChunk stream
  let _ ← putBlock blockData

/-- The calls of a task. -/
def Task.prog : Task → ServiceM Unit
  | .delete containerId => deleteContainer containerId
  | .command c => deleteCommand c
  | .write stream blockData _ => writeThenPut stream blockData
  | .quiet p _ => p

/-- The task deletes the container. -/
def Task.Deletes (c : ContainerId) : Task → Prop
  | .delete containerId => containerId = some c
  | .command id => id = c
  | _ => False

/-- A task is about to delete the chunks of a container. -/
def Deleting (c : ContainerId) : Option (ServiceM Unit) → Prop
  | some (.call (.deleteChunks id) _) => id = c
  | _ => False

/-- A task is about to put a block. -/
def Putting (bd : BlockData) : Option (ServiceM Unit) → Prop
  | some (.call (.putBlock block) _) => block = bd
  | _ => False

/-- A task is between its two steps: it is about to delete the chunks of a container, or to put
a block into it. -/
def Between (c : ContainerId) (p : Option (ServiceM Unit)) : Prop :=
  Deleting c p ∨ ∃ bd : BlockData, bd.blockId.container = c ∧ Putting bd p

/-! ### What is known of a task -/

/-- Every chunk on record is stored. -/
def Whole (h : Holdings) : Prop :=
  ∀ b bd, h.block b = some bd → ∀ ci ∈ bd.chunks, h.chunk b ci.chunkName ≠ none

/-- A container has no record and no blocks. -/
def Gone (c : ContainerId) (h : Holdings) : Prop :=
  h.record c = none ∧ ∀ b, b.container = c → h.block b = none

/-- The chunks of a block are stored, or its container has no record because it is being
deleted. The containers of which a deletion has begun are those in `D`. -/
def Ready (D : ContainerId → Prop) (bd : BlockData) (h : Holdings) : Prop :=
  (∀ ci ∈ bd.chunks, h.chunk bd.blockId ci.chunkName ≠ none) ∨
    h.record bd.blockId.container = none ∧ D bd.blockId.container

/-- Where a task is. -/
inductive Stage (D : ContainerId → Prop) (task : Task) (p : Option (ServiceM Unit))
    (h : Holdings) : Prop where
  /-- It has not started. -/
  | idle (hp : p = none)
  /-- It has made no call. -/
  | begun (hp : p = some task.prog)
  /-- It has deleted the records of a container, and is about to delete the chunks. -/
  | deleting {c : ContainerId} {next : Except StorageError Unit → ServiceM Unit}
      (hp : p = some (.call (C := storeCalls) (.deleteChunks c) next))
      (hnext : ∀ r, (next r).Makes Quiet) (hc : task.Deletes c) (hgone : Gone c h)
  /-- It has written a chunk, and is about to put the block. -/
  | putting {bd : BlockData} {next : Except StorageError ℕ → ServiceM Unit}
      (hp : p = some (.call (C := storeCalls) (.putBlock bd) next))
      (hnext : ∀ r, (next r).Makes Quiet) (hready : Ready D bd h)
  /-- It will take nothing away and put no block. -/
  | ending {q : ServiceM Unit} (hp : p = some q) (hq : q.Makes Quiet)

/-- What a task between its two steps knows of a container is not spoiled. -/
structure Mild (D : ContainerId → Prop) (c : ContainerId) (h h' : Holdings) : Prop where
  /-- A deletion. -/
  gone : Gone c h → Gone c h'
  /-- A writer. -/
  ready : ∀ bd : BlockData, bd.blockId.container = c → Ready D bd h → Ready D bd h'

section Stage

variable {D D' : ContainerId → Prop} {task : Task} {p : Option (ServiceM Unit)} {h h' : Holdings}

theorem Ready.mono (hD : ∀ c, D c → D' c) {bd : BlockData} (hready : Ready D bd h) :
    Ready D' bd h :=
  hready.imp_right fun ⟨hrecord, hc⟩ => ⟨hrecord, hD _ hc⟩

theorem Stage.keep (hs : Stage D task p h)
    (hdel : ∀ c, Deleting c p → Gone c h → Gone c h')
    (hput : ∀ bd, Putting bd p → Ready D bd h → Ready D' bd h') : Stage D' task p h' := by
  cases hs with
  | idle hp => exact .idle hp
  | begun hp => exact .begun hp
  | deleting hp hnext hc hgone =>
    exact .deleting hp hnext hc (hdel _ (by rw [hp]; exact rfl) hgone)
  | putting hp hnext hready => exact .putting hp hnext (hput _ (by rw [hp]; exact rfl) hready)
  | ending hp hq => exact .ending hp hq

/-- No task starts with a deletion of chunks or with a put. -/
theorem Task.prog_ne {op : StoreOp} {next : Except StorageError op.Val → ServiceM Unit}
    (hprog : task.prog = .call (C := storeCalls) op next) :
    (∀ c, op ≠ .deleteChunks c) ∧ ∀ bd, op ≠ .putBlock bd := by
  have hquiet : Quiet op → (∀ c, op ≠ .deleteChunks c) ∧ ∀ bd, op ≠ .putBlock bd := by
    intro hop
    exact ⟨fun c hc => by rw [hc] at hop; exact hop, fun bd hbd => by rw [hbd] at hop; exact hop⟩
  cases task with
  | delete containerId =>
    cases containerId with
    | none => cases hprog
    | some c =>
      cases hprog
      exact ⟨fun _ => StoreOp.noConfusion, fun _ => StoreOp.noConfusion⟩
  | command c =>
    cases hprog
    exact ⟨fun _ => StoreOp.noConfusion, fun _ => StoreOp.noConfusion⟩
  | write stream blockData h =>
    have hwrite : (writeThenPut stream blockData) = .call (C := storeCalls) op next := hprog
    unfold writeThenPut writeChunk accepted at hwrite
    cases hacc : acceptWrite stream with
    | error e =>
      rw [hacc] at hwrite
      cases hwrite
    | ok written =>
      rw [hacc] at hwrite
      cases hwrite
      exact ⟨fun _ => StoreOp.noConfusion, fun _ => StoreOp.noConfusion⟩
  | quiet p h =>
    obtain rfl : p = _ := hprog
    exact hquiet h.1

theorem exists_of_deleting {c : ContainerId} : ∀ {p : Option (ServiceM Unit)}, Deleting c p →
    ∃ next, p = some (.call (C := storeCalls) (.deleteChunks c) next)
  | some (.call (.deleteChunks _) next), rfl => ⟨next, rfl⟩

theorem exists_of_putting {bd : BlockData} : ∀ {p : Option (ServiceM Unit)}, Putting bd p →
    ∃ next, p = some (.call (C := storeCalls) (.putBlock bd) next)
  | some (.call (.putBlock _) next), rfl => ⟨next, rfl⟩

/-- Who is about to delete the chunks of a container is a deletion of it. -/
theorem Stage.deletes (hs : Stage D task p h) {c : ContainerId} (hp : Deleting c p) :
    task.Deletes c := by
  obtain ⟨next, rfl⟩ := exists_of_deleting hp
  cases hs with
  | idle hp => cases hp
  | begun hp => exact absurd rfl ((Task.prog_ne (Option.some.inj hp).symm).1 c)
  | deleting hp _ hc _ =>
    cases hp
    exact hc
  | putting hp => cases hp
  | ending hp hq =>
    cases hp
    exact hq.1.elim

/-- Who is about to put a block has its chunks. -/
theorem Stage.ready (hs : Stage D task p h) {bd : BlockData} (hp : Putting bd p) :
    Ready D bd h := by
  obtain ⟨next, rfl⟩ := exists_of_putting hp
  cases hs with
  | idle hp => cases hp
  | begun hp => exact absurd rfl ((Task.prog_ne (Option.some.inj hp).symm).2 bd)
  | deleting hp => cases hp
  | putting hp _ hready =>
    cases hp
    exact hready
  | ending hp hq =>
    cases hp
    exact hq.1.elim

end Stage

/-! ### What the calls do -/

section Calls

variable {D : ContainerId → Prop} {h h' : Holdings} {c : ContainerId} {op : StoreOp}
  {t t' : Target} {may : StoreOp → Prop} {r : Except StorageError op.Val}

/-- Where records, blocks and chunks only change so, nothing is spoiled. -/
theorem Mild.of (hrecord : h.record c = none → h'.record c = none)
    (hblock : h.record c = none → ∀ b, b.container = c → h.block b = none → h'.block b = none)
    (hchunk : ∀ b name, b.container = c → h.chunk b name ≠ none →
      h'.chunk b name ≠ none ∨ h'.record c = none ∧ D c) : Mild D c h h' := by
  refine ⟨fun hgone => ⟨hrecord hgone.1, fun b hb => hblock hgone.1 b hb (hgone.2 b hb)⟩, ?_⟩
  rintro bd rfl (hready | ⟨hnone, hD⟩)
  · by_cases hnone : h'.record bd.blockId.container = none ∧ D bd.blockId.container
    · exact .inr hnone
    · exact .inl fun ci hci => (hchunk _ _ rfl (hready ci hci)).resolve_right hnone
  · exact .inr ⟨hrecord hnone, hD⟩

theorem Mild.refl : Mild D c h h := ⟨id, fun _ _ => id⟩

/-- **A call that takes nothing away.** -/
theorem quiet_act (hop : Quiet op) : (op.act h).block = h.block ∧ (op.act h).chunk = h.chunk := by
  cases op with
  | createContainer info =>
    rw [StoreOp.act]
    split <;> exact ⟨rfl, rfl⟩
  | setContainerState id state =>
    rw [StoreOp.act]
    split <;> exact ⟨rfl, rfl⟩
  | getContainer id => exact ⟨rfl, rfl⟩
  | listContainers => exact ⟨rfl, rfl⟩
  | getBlock b => exact ⟨rfl, rfl⟩
  | listBlocks id start limit => exact ⟨rfl, rfl⟩
  | readChunk b name => exact ⟨rfl, rfl⟩
  | _ => exact hop.elim

theorem quiet_answers (hop : Quiet op) (ha : StoreOp.Answers may t op r t') :
    t'.holdings.block = t.holdings.block ∧ t'.holdings.chunk = t.holdings.chunk := by
  rcases ha.holdings with hact | ⟨-, -, rfl | ⟨id, rfl, -⟩⟩
  · rw [hact]
    exact quiet_act hop
  · exact ⟨rfl, rfl⟩
  · exact hop.elim

/-- **The chunks of a container are deleted, or some of them.** -/
theorem deleteChunks_answers {r : Except StorageError Unit}
    (ha : StoreOp.Answers may t (.deleteChunks c) r t') :
    t'.holdings.record = t.holdings.record ∧ t'.holdings.block = t.holdings.block ∧
      ∀ b name, b.container ≠ c → t'.holdings.chunk b name = t.holdings.chunk b name := by
  have hoff := ha.agreeOff rfl
  rcases ha.holdings with hact | ⟨-, -, rfl | ⟨id, -, hred⟩⟩
  · exact ⟨by rw [hact]; rfl, by rw [hact]; rfl, fun b name hb => by rw [hoff.chunk b hb]⟩
  · exact ⟨rfl, rfl, fun _ _ _ => rfl⟩
  · exact ⟨hred.record, hred.block, fun b name hb => by rw [hoff.chunk b hb]⟩

/-- **A block is put**: into a container that has a record, or not at all. -/
theorem putBlock_answers {bd : BlockData} {r : Except StorageError ℕ}
    (ha : StoreOp.Answers may t (.putBlock bd) r t') :
    t' = t ∨ t'.holdings.chunk = t.holdings.chunk ∧
      t.holdings.record bd.blockId.container ≠ none ∧
      (∀ c, t.holdings.record c = none → t'.holdings.record c = none) ∧
      t'.holdings.block = Function.update t.holdings.block bd.blockId (some bd) := by
  rcases ha with ⟨-, ht'⟩ | ⟨-, -, hleaves⟩
  · cases hexec : ((StoreOp.putBlock bd).exec t).1 with
    | error e =>
      refine .inl (ht'.trans ?_)
      simp only [StoreOp.exec] at hexec ⊢
      cases hput : t.store.putBlock bd with
      | error e => rfl
      | ok a =>
        rw [hput] at hexec
        cases hexec
    | ok n =>
      obtain ⟨record, hrecord, hopen⟩ := StoreOp.exec_putBlock hexec
      have hact := (congrArg Target.holdings ht').trans (StoreOp.holdings_exec t (.putBlock bd))
      rw [StoreOp.act_putBlock hrecord hopen] at hact
      refine .inr ⟨by rw [hact]; rfl, by rw [hrecord]; simp, fun c hc => ?_, by rw [hact]; rfl⟩
      have hne : c ≠ bd.blockId.container := by
        rintro rfl
        rw [hrecord] at hc
        cases hc
      rw [hact]
      exact (Function.update_of_ne hne _ _).trans hc
  · exact .inl hleaves

end Calls

/-! ### One step of a task -/

section Own

variable {D : ContainerId → Prop} {t t' : Target} {may : StoreOp → Prop} {task : Task}

/-- What a step of a task leaves: every chunk on record, what is known of the task, and what
others know of containers that are not created by it. Where one is created, all chunks stay. -/
structure Moves (D : ContainerId → Prop) (task : Task) (p : ServiceM Unit) (h h' : Holdings) :
    Prop where
  /-- Every chunk on record is stored. -/
  whole : Whole h → Whole h'
  /-- The task. -/
  stage : Stage D task (some p) h'
  /-- The others. -/
  mild : ∀ c, (h.record c = none → h'.record c = none) → Mild D c h h'
  /-- A creation. -/
  created : ∀ c, (h.record c = none → h'.record c = none) ∨ h'.chunk = h.chunk

theorem moves_quiet {op : StoreOp} {next : Except StorageError op.Val → ServiceM Unit}
    {r : Except StorageError op.Val} (hop : Quiet op) (hnext : ∀ r, (next r).Makes Quiet)
    (ha : StoreOp.Answers may t op r t') : Moves D task (next r) t.holdings t'.holdings := by
  obtain ⟨hblock, hchunk⟩ := quiet_answers hop ha
  refine ⟨fun hw => ?_, .ending rfl (hnext r), fun c hrecord => .of hrecord ?_ ?_,
    fun _ => .inr hchunk⟩
  · unfold Whole
    rw [hblock, hchunk]
    exact hw
  · rw [hblock]
    exact fun _ _ _ => id
  · rw [hchunk]
    exact fun _ _ _ => .inl

theorem moves_deleteChunks {c : ContainerId} {next : Except StorageError Unit → ServiceM Unit}
    {r : Except StorageError Unit} (hnext : ∀ r, (next r).Makes Quiet) (hD : D c)
    (hgone : Gone c t.holdings) (ha : StoreOp.Answers may t (.deleteChunks c) r t') :
    Moves D task (next r) t.holdings t'.holdings := by
  obtain ⟨hrecord, hblock, hchunk⟩ := deleteChunks_answers ha
  refine ⟨fun hw b bd hbd ci hci => ?_, .ending rfl (hnext r), fun c' _ => ?_,
    fun _ => .inl fun h => by rwa [hrecord]⟩
  · rw [hblock] at hbd
    have hb : b.container ≠ c := fun hb => by
      rw [hgone.2 b hb] at hbd
      cases hbd
    rw [hchunk b _ hb]
    exact hw b bd hbd ci hci
  · refine .of (fun h => by rwa [hrecord]) (fun _ b _ h => by rwa [hblock]) fun b name hb h => ?_
    by_cases hc : b.container = c
    · right
      rw [hrecord, ← hb, hc]
      exact ⟨hgone.1, hD⟩
    · left
      rwa [hchunk b name hc]

theorem moves_putBlock {bd : BlockData} {next : Except StorageError ℕ → ServiceM Unit}
    {r : Except StorageError ℕ} (hnext : ∀ r, (next r).Makes Quiet)
    (hready : Ready D bd t.holdings)
    (ha : StoreOp.Answers may t (.putBlock bd) r t') :
    Moves D task (next r) t.holdings t'.holdings := by
  rcases putBlock_answers ha with rfl | ⟨hchunk, hrecord, hnone, hblock⟩
  · exact ⟨id, .ending rfl (hnext r), fun _ _ => .refl, fun _ => .inr rfl⟩
  · have hstored := hready.resolve_right fun hnone => hrecord hnone.1
    refine ⟨fun hw b bd' hbd ci hci => ?_, .ending rfl (hnext r), fun c hc => ?_,
      fun _ => .inr hchunk⟩
    · rw [hchunk]
      rw [hblock] at hbd
      by_cases hb : b = bd.blockId
      · rw [hb, Function.update_self] at hbd
        obtain rfl := Option.some.inj hbd
        rw [hb]
        exact hstored ci hci
      · rw [Function.update_of_ne hb] at hbd
        exact hw b bd' hbd ci hci
    · refine .of hc (fun hcn b hb hbn => ?_) fun b name _ h => .inl (by rwa [hchunk])
      have hne : b ≠ bd.blockId := by
        rintro rfl
        exact hrecord (hb ▸ hcn)
      rw [hblock, Function.update_of_ne hne]
      exact hbn

theorem moves_deleteContainer {c : ContainerId} {p : ServiceM Unit}
    (ht : t'.holdings = (StoreOp.deleteContainer c).act t.holdings)
    (hstage : Gone c t'.holdings → Stage D task (some p) t'.holdings) :
    Moves D task p t.holdings t'.holdings := by
  have hrecord : t'.holdings.record = Function.update t.holdings.record c none := by rw [ht]; rfl
  have hblock : t'.holdings.block =
      fun b => if b.container = c then none else t.holdings.block b := by
    rw [ht]
    rfl
  have hchunk : t'.holdings.chunk = t.holdings.chunk := by rw [ht]; rfl
  refine ⟨fun hw b bd hbd ci hci => ?_, hstage ⟨?_, fun b hb => ?_⟩, fun c' hc' => .of hc' ?_ ?_,
    fun _ => .inr hchunk⟩
  · rw [hblock] at hbd
    dsimp only at hbd
    split at hbd
    · cases hbd
    · rw [hchunk]
      exact hw b bd hbd ci hci
  · rw [hrecord, Function.update_self]
  · rw [hblock]
    exact if_pos hb
  · intro _ b _ hbn
    rw [hblock]
    dsimp only
    split
    · rfl
    · exact hbn
  · intro b name _ h
    exact .inl (by rwa [hchunk])

theorem moves_writeChunk {b : BlockId} {name : String} {data : Bytes} {p : ServiceM Unit}
    (ht : t'.holdings = (StoreOp.writeChunk b name data).act t.holdings)
    (hstage : t'.holdings.chunk b name ≠ none → Stage D task (some p) t'.holdings) :
    Moves D task p t.holdings t'.holdings := by
  have hrecord : t'.holdings.record = t.holdings.record := by rw [ht]; rfl
  have hblock : t'.holdings.block = t.holdings.block := by rw [ht]; rfl
  have hself : t'.holdings.chunk b name ≠ none := by
    rw [ht, StoreOp.act, Holdings.chunk_setChunk_self]
    simp
  have hmore : ∀ b' name', t.holdings.chunk b' name' ≠ none →
      t'.holdings.chunk b' name' ≠ none := by
    intro b' name' h
    by_cases heq : b' = b ∧ name' = name
    · obtain ⟨rfl, rfl⟩ := heq
      exact hself
    · rw [ht, StoreOp.act, Holdings.chunk_setChunk_of_ne heq]
      exact h
  refine ⟨fun hw b' bd hbd ci hci => hmore _ _ (hw b' bd (hblock ▸ hbd) ci hci), hstage hself,
    fun c hc => .of hc (fun _ b' _ h => by rwa [hblock]) fun b' name' _ h => .inl (hmore _ _ h),
    fun _ => .inl fun h => by rwa [hrecord]⟩

theorem moves_same {p : ServiceM Unit} (hstage : Stage D task (some p) t.holdings) :
    Moves D task p t.holdings t.holdings :=
  ⟨id, hstage, fun _ _ => .refl, fun _ => .inr rfl⟩

/-- The first step of a deletion by request. -/
theorem moves_delete {containerId : Option ContainerId} {op : StoreOp}
    {next : Except StorageError op.Val → ServiceM Unit} {r : Except StorageError op.Val}
    (hprog : deleteContainer containerId = .call (C := storeCalls) op next)
    (ha : StoreOp.Answers may t op r t') :
    Moves D (.delete containerId) (next r) t.holdings t'.holdings := by
  cases containerId with
  | none => cases hprog
  | some c =>
    cases hprog
    have hends : ∀ r : Except StorageError Unit, Prog.Makes Quiet
        ((.done (.ofExcept Status.storage r) : ServiceM Unit)) := fun _ => trivial
    rcases ha with ⟨rfl, rfl⟩ | ⟨-, ⟨e, rfl⟩, rfl⟩
    · exact moves_deleteContainer (StoreOp.holdings_exec t (.deleteContainer c))
        fun hgone => .deleting rfl hends rfl hgone
    · exact moves_same (.ending rfl trivial)

/-- The first step of a deletion by command, if it does not fail. -/
theorem moves_command {c : ContainerId} (hmay : ¬may (.deleteContainer c)) {op : StoreOp}
    {next : Except StorageError op.Val → ServiceM Unit} {r : Except StorageError op.Val}
    (hprog : deleteCommand c = .call (C := storeCalls) op next)
    (ha : StoreOp.Answers may t op r t') :
    Moves D (.command c) (next r) t.holdings t'.holdings := by
  cases hprog
  obtain ⟨rfl, rfl⟩ := ha.exec hmay
  exact moves_deleteContainer (StoreOp.holdings_exec t (.deleteContainer c))
    fun hgone => .deleting rfl (fun _ => trivial) rfl hgone

/-- The first step of a writer. -/
theorem moves_write {stream : WriteStream} {blockData : Option WireBlockData}
    (h : Records stream blockData) {op : StoreOp}
    {next : Except StorageError op.Val → ServiceM Unit} {r : Except StorageError op.Val}
    (hprog : writeThenPut stream blockData = .call (C := storeCalls) op next)
    (ha : StoreOp.Answers may t op r t') :
    Moves D (.write stream blockData h) (next r) t.holdings t'.holdings := by
  unfold writeThenPut writeChunk accepted at hprog
  cases hwrite : acceptWrite stream with
  | error e =>
    rw [hwrite] at hprog
    cases hprog
  | ok written =>
    obtain ⟨b, ci, data⟩ := written
    rw [hwrite] at hprog
    cases hprog
    rcases ha with ⟨rfl, rfl⟩ | ⟨-, ⟨e, rfl⟩, rfl⟩
    · refine moves_writeChunk (StoreOp.holdings_exec t (.writeChunk b ci.chunkName data))
        fun hstored => ?_
      change Stage _ _ (some (putBlock blockData >>= fun _ => pure ())) _
      unfold putBlock accepted
      cases hput : acceptPut blockData with
      | error e => exact .ending rfl trivial
      | ok bd =>
        obtain ⟨rfl, hnames⟩ := h b ci data bd hwrite hput
        refine .putting rfl (fun r => ?_) (.inl fun ci' hci' => ?_)
        · cases r <;> trivial
        · rw [hnames ci' hci']
          exact hstored
    · exact moves_same (.ending rfl trivial)

/-- **One step of a task.** -/
theorem Stage.moves {op : StoreOp} {next : Except StorageError op.Val → ServiceM Unit}
    {r : Except StorageError op.Val}
    (hs : Stage D task (some (.call (C := storeCalls) op next)) t.holdings)
    (hD : ∀ c, task.Deletes c → D c) (hmay : ∀ c, task = .command c → ¬may (.deleteContainer c))
    (ha : StoreOp.Answers may t op r t') : Moves D task (next r) t.holdings t'.holdings := by
  cases hs with
  | idle hp => cases hp
  | begun hp =>
    have hprog := (Option.some.inj hp).symm
    cases task with
    | delete containerId => exact moves_delete hprog ha
    | command c => exact moves_command (hmay c rfl) hprog ha
    | write stream blockData h => exact moves_write h hprog ha
    | quiet p h =>
      obtain rfl : p = _ := hprog
      exact moves_quiet h.1 h.2 ha
  | deleting hp hnext hc hgone =>
    cases hp
    exact moves_deleteChunks hnext (hD _ hc) hgone ha
  | putting hp hnext hready =>
    cases hp
    exact moves_putBlock hnext hready ha
  | ending hp hq =>
    cases hp
    exact moves_quiet hq.1 hq.2 ha

end Own

/-! ### Runs -/

section Runs

variable {T : Type} [DecidableEq T]

/-- A deletion of the container has begun. -/
def Started {W : Type} (tasks : T → Task) (P : Pool storeCalls Status Unit T W) (c : ContainerId) :
    Prop :=
  ∃ u, (tasks u).Deletes c ∧ P.threads u ≠ none

/-- **No container is created whose chunks a task is about to delete, or whose chunk is gone that
a task is about to put on record.** -/
def Careful (P P' : Pool storeCalls Status Unit T Target) : Prop :=
  ∀ c, P.world.holdings.record c = none → P'.world.holdings.record c ≠ none → ∀ u,
    ¬Deleting c (P.threads u) ∧ ∀ bd, Putting bd (P.threads u) → bd.blockId.container = c →
      ∀ ci ∈ bd.chunks, P.world.holdings.chunk bd.blockId ci.chunkName ≠ none

/-- What holds between any two steps. -/
structure Holds (tasks : T → Task) (P : Pool storeCalls Status Unit T Target) : Prop where
  /-- Every chunk on record is stored. -/
  whole : Whole P.world.holdings
  /-- The tasks. -/
  stage : ∀ u, Stage (Started tasks P) (tasks u) (P.threads u) P.world.holdings

section Step

variable {may : T → StoreOp → Prop} {tasks : T → Task}
  {P P' : Pool storeCalls Status Unit T Target}

omit [DecidableEq T] in
theorem holds_start {t : Target} (h₀ : Whole t.holdings) : Holds tasks ⟨fun _ => none, t⟩ :=
  ⟨h₀, fun _ => .idle rfl⟩

theorem Started.update {W : Type} {P : Pool storeCalls Status Unit T W} {c : ContainerId} {u : T}
    {q : ServiceM Unit} {w : W} (h : Started tasks P c) :
    Started tasks ⟨Function.update P.threads u (some q), w⟩ c := by
  obtain ⟨v, hv, hstarted⟩ := h
  refine ⟨v, hv, ?_⟩
  by_cases hvu : v = u
  · simp [hvu]
  · simpa [Function.update_of_ne hvu] using hstarted

/-- **One step.** -/
theorem Holds.step (hmay : ∀ u c, tasks u = .command c → ¬may u (.deleteContainer c))
    (hP : Holds tasks P) (hstep : Pool.Step (storeSystem may) (fun u => (tasks u).prog) P P')
    (hcareful : Careful P P') : Holds tasks P' := by
  cases hstep with
  | @start u w hu hstart =>
    obtain rfl : w = P.world := hstart
    refine ⟨hP.whole, fun v => ?_⟩
    by_cases hv : v = u
    · subst hv
      exact .begun (Function.update_self ..)
    · dsimp only
      rw [Function.update_of_ne hv]
      exact (hP.stage v).keep (fun _ _ => id) fun _ _ => Ready.mono fun c => Started.update
  | @call u op next r w hu hans =>
    have hD : ∀ c, (tasks u).Deletes c → Started tasks P c := fun c hc => ⟨u, hc, by simp [hu]⟩
    have hmoves : Moves (Started tasks P) (tasks u) (next r) P.world.holdings w.holdings :=
      Stage.moves (hu ▸ hP.stage u) hD (hmay u) hans
    refine ⟨hmoves.whole hP.whole, fun v => ?_⟩
    by_cases hv : v = u
    · subst hv
      dsimp only
      rw [Function.update_self]
      exact hmoves.stage.keep (fun _ _ => id) fun _ _ => Ready.mono fun c => Started.update
    · dsimp only
      rw [Function.update_of_ne hv]
      refine (hP.stage v).keep (fun c hc hgone => ?_) fun bd hbd hready => ?_
      · refine (hmoves.mild c fun hnone => ?_).gone hgone
        by_contra hne
        exact (hcareful c hnone hne v).1 hc
      · -- where the container is created, the chunks are there and stay
        by_cases hcreated : P.world.holdings.record bd.blockId.container = none ∧
            w.holdings.record bd.blockId.container ≠ none
        · have hstored := (hcareful _ hcreated.1 hcreated.2 v).2 bd hbd rfl
          have hchunk := (hmoves.created bd.blockId.container).resolve_left
            fun hkeep => hcreated.2 (hkeep hcreated.1)
          exact .inl fun ci hci => by
            rw [hchunk]
            exact hstored ci hci
        · have hkeep := not_and_not_right.mp hcreated
          exact ((hmoves.mild _ hkeep).ready bd rfl hready).mono fun c => Started.update

end Step

/-! ### Which containers may be created -/

/-- **No container is created while a deletion of it or a write to it is between its two
steps.** -/
def Orderly (threads : T → Option (ServiceM Unit)) (store store' : MetaStore) : Prop :=
  ∀ c, store.getContainer c = none → store'.getContainer c ≠ none → ∀ u, ¬Between c (threads u)

/-- **No container is created once a deletion of it has begun.** -/
def NoReuse (tasks : T → Task) (threads : T → Option (ServiceM Unit)) (store store' : MetaStore) :
    Prop :=
  ∀ c, store.getContainer c = none → store'.getContainer c ≠ none →
    ∀ u, (tasks u).Deletes c → threads u = none

/-- The steps of a run in which containers are created as is allowed. -/
def StepOf {W : Type} (sys : System storeCalls T W) (store : W → MetaStore) (tasks : T → Task)
    (allowed : (T → Option (ServiceM Unit)) → MetaStore → MetaStore → Prop)
    (P P' : Pool storeCalls Status Unit T W) : Prop :=
  Pool.Step sys (fun u => (tasks u).prog) P P' ∧ allowed P.threads (store P.world) (store P'.world)

section Allowed

variable {may : T → StoreOp → Prop} {tasks : T → Task}
  {allowed : (T → Option (ServiceM Unit)) → MetaStore → MetaStore → Prop}

omit [DecidableEq T] in
theorem getContainer_eq_none {t : Target} {c : ContainerId} :
    t.store.getContainer c = none ↔ t.holdings.record c = none := by
  simp [MetaStore.getContainer, Target.holdings]

omit [DecidableEq T] in
theorem careful_of_orderly {P P' : Pool storeCalls Status Unit T Target}
    (h : Orderly P.threads P.world.store P'.world.store) : Careful P P' := by
  intro c hnone hne u
  have hbetween := h c (getContainer_eq_none.mpr hnone) (mt getContainer_eq_none.mp hne) u
  exact ⟨fun hdel => hbetween (.inl hdel), fun bd hbd hc => absurd (.inr ⟨bd, hc, hbd⟩) hbetween⟩

omit [DecidableEq T] in
theorem careful_of_noReuse {P P' : Pool storeCalls Status Unit T Target} (hP : Holds tasks P)
    (h : NoReuse tasks P.threads P.world.store P'.world.store) : Careful P P' := by
  intro c hnone hne u
  have hidle := h c (getContainer_eq_none.mpr hnone) (mt getContainer_eq_none.mp hne)
  refine ⟨fun hdel => ?_, fun bd hbd hc => ?_⟩
  · obtain ⟨next, hp⟩ := exists_of_deleting hdel
    have hdeletes := (hP.stage u).deletes hdel
    rw [hidle u hdeletes] at hp
    cases hp
  · refine ((hP.stage u).ready hbd).resolve_right fun hgone => ?_
    obtain ⟨v, hdeletes, hstarted⟩ := hgone.2
    exact hstarted (hidle v (hc ▸ hdeletes))

/-- **A run on disk.** -/
theorem holds_of_onDisk {root : Path} {n₀ : DiskNode} {P : Pool storeCalls Status Unit T DiskNode}
    (hmay : ∀ u c, tasks u = .command c → ¬may u (.deleteContainer c))
    (hplain : ∀ u, (tasks u).prog.Makes StoreOp.Plain)
    (hallowed : ∀ P P' : Pool storeCalls Status Unit T Target, Holds tasks P →
      allowed P.threads P.world.store P'.world.store → Careful P P')
    (h₀ : Whole (n₀.target root).holdings)
    (h : Relation.ReflTransGen (StepOf (diskSystem root may) DiskNode.store tasks allowed)
      ⟨fun _ => none, n₀⟩ P) : Holds tasks ⟨P.threads, P.world.target root⟩ := by
  have hall : P.Makes StoreOp.Plain ∧ Holds tasks ⟨P.threads, P.world.target root⟩ := by
    induction h with
    | refl => exact ⟨fun _ _ hp => (by cases hp), holds_start h₀⟩
    | tail _ hstep ih =>
      obtain ⟨hP', hstep'⟩ := hstep.1.onDisk hplain ih.1
      exact ⟨hP', ih.2.step hmay hstep' (hallowed _ _ ih.2 hstep.2)⟩
  exact hall.2

/-- A run on the map, in which the chunk store does not fail, is one on disk. -/
theorem exists_onDisk {root : Path} {n₀ : DiskNode} {t₀ : Target}
    {P : Pool storeCalls Status Unit T Target} (hplain : ∀ u, (tasks u).prog.Makes StoreOp.Plain)
    (hmay : ∀ u op, may u op → op.OnMeta) (hR : n₀.Shows root t₀)
    (hclean : FileChunkStore.Clean root n₀.disk.tree)
    (h : Relation.ReflTransGen (StepOf (storeSystem may) Target.store tasks allowed)
      ⟨fun _ => none, t₀⟩ P) :
    ∃ n, Relation.ReflTransGen (StepOf (diskSystem root may) DiskNode.store tasks allowed)
      ⟨fun _ => none, n₀⟩ ⟨P.threads, n⟩ ∧ n.target root = P.world := by
  have hall : P.Makes StoreOp.Plain ∧ ∃ n,
      Relation.ReflTransGen (StepOf (diskSystem root may) DiskNode.store tasks allowed)
        ⟨fun _ => none, n₀⟩ ⟨P.threads, n⟩ ∧ n.Shows root P.world ∧
        FileChunkStore.Clean root n.disk.tree := by
    induction h with
    | refl => exact ⟨fun _ _ hp => (by cases hp), n₀, .refl, hR, hclean⟩
    | tail _ hstep ih =>
      obtain ⟨hP, n, hrun, hR, hclean⟩ := ih
      obtain ⟨hP', n', hstep', hR', hclean'⟩ := hstep.1.realized hplain hP hR hclean hmay
      refine ⟨hP', n', hrun.tail ⟨hstep', ?_⟩, hR', hclean'⟩
      have hside := hstep.2
      rwa [hR.store, hR'.store] at hside
  obtain ⟨-, n, hrun, hR', -⟩ := hall
  exact ⟨n, hrun, hR'.eq_target.symm⟩

end Allowed

variable {root : Path} {may : T → StoreOp → Prop} {tasks : T → Task} {n₀ : DiskNode}
  {P : Pool storeCalls Status Unit T DiskNode}

/-- **Every chunk on record is on disk**, after every run of deletions, creations, writers and
readers, at every moment, if no container is created while a deletion of it or a write to it is
between its two steps. -/
theorem whole_of_orderly (hmay : ∀ u c, tasks u = .command c → ¬may u (.deleteContainer c))
    (hplain : ∀ u, (tasks u).prog.Makes StoreOp.Plain) (h₀ : Whole (n₀.target root).holdings)
    (h : Relation.ReflTransGen (StepOf (diskSystem root may) DiskNode.store tasks Orderly)
      ⟨fun _ => none, n₀⟩ P) : Whole (P.world.target root).holdings :=
  (holds_of_onDisk hmay hplain (fun _ _ _ => careful_of_orderly) h₀ h).whole

/-- **Every chunk on record is on disk**, after every run of deletions, creations, writers and
readers, at every moment, if no container is created once a deletion of it has begun. -/
theorem whole_of_noReuse (hmay : ∀ u c, tasks u = .command c → ¬may u (.deleteContainer c))
    (hplain : ∀ u, (tasks u).prog.Makes StoreOp.Plain) (h₀ : Whole (n₀.target root).holdings)
    (h : Relation.ReflTransGen (StepOf (diskSystem root may) DiskNode.store tasks (NoReuse tasks))
      ⟨fun _ => none, n₀⟩ P) : Whole (P.world.target root).holdings :=
  (holds_of_onDisk hmay hplain (fun _ _ => careful_of_noReuse) h₀ h).whole

end Runs

/-! ### Four tasks -/

/-- A block with one chunk. -/
def oneChunk : BlockData := ⟨⟨1, 1, 1⟩, [⟨"0", 0, 1, none⟩], []⟩

/-- The stream that writes the chunk. -/
def oneStream : WriteStream := whole (writeMessages ⟨1, 1, 1⟩ ⟨"0", 0, 1, none⟩ [5])

theorem acceptWrite_oneStream :
    acceptWrite oneStream = .ok (⟨1, 1, 1⟩, ⟨"0", 0, 1, none⟩, [5]) :=
  acceptWrite_writeMessages rfl

theorem acceptPut_oneChunk : acceptPut (some oneChunk.toWire) = .ok oneChunk := by
  decide +kernel

theorem records_one : Records oneStream (some oneChunk.toWire) := by
  intro b ci data bd hwrite hput
  rw [acceptWrite_oneStream] at hwrite
  rw [acceptPut_oneChunk] at hput
  cases hwrite
  cases hput
  exact ⟨rfl, by decide⟩

/-- A container is created, a client writes a chunk, and the container is deleted, by request and
by command. -/
def four : Fin 4 → Task
  | 0 => .quiet (createContainer ⟨some 1, some ⟨3, 2, 1048576, "RS"⟩⟩ >>= fun _ => pure ())
      ⟨trivial, fun r => by cases r <;> trivial⟩
  | 1 => .write oneStream (some oneChunk.toWire) records_one
  | 2 => .delete (some 1)
  | 3 => .command 1

/-- The chunk is written. -/
abbrev writeStep : StoreOp := .writeChunk ⟨1, 1, 1⟩ "0" [5]

/-- The container is created. -/
abbrev createStep : StoreOp := .createContainer (.newOpen 1 ⟨3, 2, 1048576, .rs⟩)

/-- The calls of a client that writes the chunk. -/
theorem writeThenPut_one : writeThenPut oneStream (some oneChunk.toWire) = (do
    writeStep.call .storage
    let _ ← (StoreOp.putBlock oneChunk).call .storage) := by
  unfold writeThenPut writeChunk putBlock accepted
  rw [acceptWrite_oneStream, acceptPut_oneChunk]
  refine congrArg (Prog.call (C := storeCalls) writeStep) (funext fun r => ?_)
  cases r <;> rfl

theorem plain_four (u : Fin 4) : (four u).prog.Makes StoreOp.Plain := by
  fin_cases u
  · exact ⟨trivial, fun r => by cases r <;> trivial⟩
  · change (writeThenPut oneStream (some oneChunk.toWire)).Makes StoreOp.Plain
    rw [writeThenPut_one]
    exact makes_call_bind plainName_zero fun _ => makes_call_bind trivial fun _ => trivial
  · refine ⟨trivial, fun r => ?_⟩
    cases r with
    | error e => trivial
    | ok _ => exact ⟨trivial, fun _ => trivial⟩
  · exact ⟨trivial, fun _ => ⟨trivial, fun _ => trivial⟩⟩

/-- Only a creation gives a container a record. -/
theorem record_act_eq_none {op : StoreOp} (hop : ∀ info, op ≠ .createContainer info)
    {h : Holdings} {c : ContainerId} (hnone : h.record c = none) : (op.act h).record c = none := by
  have hset : ∀ {c' : ContainerId} {record record' : StoredContainer}, h.record c' = some record →
      (h.setRecord c' (some record')).record c = none := by
    intro c' record record' hrecord
    have hne : c ≠ c' := by
      rintro rfl
      rw [hrecord] at hnone
      cases hnone
    exact (Function.update_of_ne hne _ _).trans hnone
  cases op with
  | createContainer info => exact absurd rfl (hop info)
  | setContainerState id state =>
    rw [StoreOp.act]
    split
    · exact hnone
    · next hrecord => exact hset hrecord
  | putBlock block =>
    rw [StoreOp.act]
    split
    · exact hnone
    · next hrecord =>
      split
      · exact hset hrecord
      · exact hnone
  | deleteBlock b =>
    rw [StoreOp.act]
    split
    · exact hnone
    · split
      · exact hnone
      · next hrecord => exact hset hrecord
  | deleteContainer id =>
    by_cases hc : c = id
    · rw [hc]
      exact Function.update_self _ _ _
    · exact (Function.update_of_ne hc _ _).trans hnone
  | _ => exact hnone

section Four

variable {may : Fin 4 → StoreOp → Prop} {threads : Fin 4 → Option (ServiceM Unit)}
  {ops : List StoreOp} {allowed : (Fin 4 → Option (ServiceM Unit)) → MetaStore → MetaStore → Prop}

/-- Where nothing is created, nothing is to be allowed. -/
def AllowsRest (allowed : (Fin 4 → Option (ServiceM Unit)) → MetaStore → MetaStore → Prop) :
    Prop :=
  ∀ threads store store', (∀ c, store.getContainer c = none → store'.getContainer c = none) →
    allowed threads store store'

/-- The steps of these tasks. -/
abbrev FourStep (may : Fin 4 → StoreOp → Prop)
    (allowed : (Fin 4 → Option (ServiceM Unit)) → MetaStore → MetaStore → Prop) :=
  StepOf (storeSystem may) Target.store four allowed

theorem four_start (hrest : AllowsRest allowed) (u : Fin 4) (hu : threads u = none) :
    FourStep may allowed ⟨threads, storesAfter ops⟩
      ⟨Function.update threads u (some (four u).prog), storesAfter ops⟩ :=
  ⟨.start hu rfl, hrest _ _ _ fun _ => id⟩

theorem four_step (u : Fin 4) (op : StoreOp) (r : Except StorageError op.Val)
    {next : Except StorageError op.Val → ServiceM Unit}
    (hu : threads u = some (.call (C := storeCalls) op next))
    (hr : r = (op.exec (storesAfter ops)).1)
    (hallowed : allowed threads (storesAfter ops).store (storesAfter (ops ++ [op])).store) :
    FourStep may allowed ⟨threads, storesAfter ops⟩
      ⟨Function.update threads u (some (next r)), storesAfter (ops ++ [op])⟩ := by
  have hans : (storeSystem may).answers u (storesAfter ops) op r (storesAfter (ops ++ [op])) :=
    .inl ⟨hr, storesAfter_concat ops op⟩
  exact ⟨.call hu hans, hallowed⟩

theorem four_call (hrest : AllowsRest allowed) (u : Fin 4) (op : StoreOp)
    (hop : ∀ info, op ≠ .createContainer info) (r : Except StorageError op.Val)
    {next : Except StorageError op.Val → ServiceM Unit}
    (hu : threads u = some (.call (C := storeCalls) op next))
    (hr : r = (op.exec (storesAfter ops)).1) :
    FourStep may allowed ⟨threads, storesAfter ops⟩
      ⟨Function.update threads u (some (next r)), storesAfter (ops ++ [op])⟩ := by
  refine four_step u op r hu hr (hrest _ _ _ fun c hnone => getContainer_eq_none.mpr ?_)
  rw [storesAfter_concat, StoreOp.holdings_exec]
  exact record_act_eq_none hop (getContainer_eq_none.mp hnone)

end Four

theorem allowsRest_orderly : AllowsRest Orderly :=
  fun _ _ _ hkeep c hnone hne => absurd (hkeep c hnone) hne

theorem allowsRest_noReuse : AllowsRest (NoReuse four) :=
  fun _ _ _ hkeep c hnone hne => absurd (hkeep c hnone) hne

theorem allowsRest_all : AllowsRest fun _ _ _ => True := fun _ _ _ _ => trivial

theorem shows_start : DiskNode.empty.Shows dataRoot (storesAfter []) ∧
    FileChunkStore.Clean dataRoot DiskNode.empty.disk.tree :=
  ⟨DiskNode.shows_empty dataRoot, clean_empty dataRoot⟩

theorem whole_start : Whole (DiskNode.empty.target dataRoot).holdings := by
  rw [← shows_start.1.eq_target]
  exact fun b bd hb => by cases hb

/-- The theorem, for a run in which the container is deleted, created and written to. -/
theorem whole_of_orderly_four : ∃ P,
    Relation.ReflTransGen (StepOf (diskSystem dataRoot fun _ => StoreOp.never) DiskNode.store four
      Orderly) ⟨fun _ => none, DiskNode.empty⟩ P ∧
    P.threads 2 = some (.done (.ok ())) ∧ P.world.store.getBlock ⟨1, 1, 1⟩ = some oneChunk ∧
    Whole (P.world.target dataRoot).holdings := by
  have h₁ : Relation.ReflTransGen (FourStep (fun _ => StoreOp.never) Orderly)
      ⟨fun _ => none, storesAfter []⟩ _ := .single (four_start allowsRest_orderly 2 rfl)
  have h₂ := h₁.tail (four_call allowsRest_orderly 2 (.deleteContainer 1)
    (fun _ => StoreOp.noConfusion) (.ok ()) rfl rfl)
  have h₃ := h₂.tail (four_call allowsRest_orderly 2 (.deleteChunks 1)
    (fun _ => StoreOp.noConfusion) (.ok ()) rfl rfl)
  have h₄ := h₃.tail (four_start allowsRest_orderly 0 rfl)
  -- nothing but the creation itself is under way
  have h₅ := h₄.tail (four_step 0 createStep (.ok ()) rfl (by decide +kernel) fun _ _ _ u => by
    fin_cases u <;> exact not_or.mpr ⟨id, fun ⟨_, _, h⟩ => h⟩)
  have h₆ := h₅.tail (four_start allowsRest_orderly 1 rfl)
  rw [show (four 1).prog = _ from writeThenPut_one] at h₆
  have h₇ := h₆.tail (four_call allowsRest_orderly 1 writeStep (fun _ => StoreOp.noConfusion)
    (.ok ()) rfl rfl)
  have h₈ := h₇.tail (four_call allowsRest_orderly 1 (.putBlock oneChunk)
    (fun _ => StoreOp.noConfusion) (.ok 1) rfl (by decide +kernel))
  obtain ⟨n, hrun, htarget⟩ := exists_onDisk plain_four (fun _ _ => False.elim) shows_start.1
    shows_start.2 h₈
  have hwhole := whole_of_orderly (fun _ _ _ => id) plain_four whole_start hrun
  refine ⟨_, hrun, rfl, ?_, hwhole⟩
  have hstore := congrArg Target.store htarget
  change n.store.getBlock _ = _
  rw [show n.store = _ from hstore]
  decide +kernel

/-- The theorem, for a run in which the container is created while the chunk waits to be put, and
a deletion has begun. -/
theorem whole_of_noReuse_four : ∃ P,
    Relation.ReflTransGen (StepOf (diskSystem dataRoot fun _ => StoreOp.never) DiskNode.store four
      (NoReuse four)) ⟨fun _ => none, DiskNode.empty⟩ P ∧
    P.threads 2 ≠ none ∧ P.world.store.getBlock ⟨1, 1, 1⟩ = some oneChunk ∧
    Whole (P.world.target dataRoot).holdings := by
  have h₁ : Relation.ReflTransGen (FourStep (fun _ => StoreOp.never) (NoReuse four))
      ⟨fun _ => none, storesAfter []⟩ _ := .single (four_start allowsRest_noReuse 1 rfl)
  rw [show (four 1).prog = _ from writeThenPut_one] at h₁
  have h₂ := h₁.tail (four_call allowsRest_noReuse 1 writeStep (fun _ => StoreOp.noConfusion)
    (.ok ()) rfl rfl)
  have h₃ := h₂.tail (four_start allowsRest_noReuse 0 rfl)
  -- the two deletions have not started
  have h₄ := h₃.tail (four_step 0 createStep (.ok ()) rfl (by decide +kernel) fun _ _ _ u hu => by
    fin_cases u
    · exact hu.elim
    · exact hu.elim
    · rfl
    · rfl)
  have h₅ := h₄.tail (four_start allowsRest_noReuse 2 rfl)
  have h₆ := h₅.tail (four_call allowsRest_noReuse 1 (.putBlock oneChunk)
    (fun _ => StoreOp.noConfusion) (.ok 1) rfl (by decide +kernel))
  obtain ⟨n, hrun, htarget⟩ := exists_onDisk plain_four (fun _ _ => False.elim) shows_start.1
    shows_start.2 h₆
  have hwhole := whole_of_noReuse (fun _ _ _ => id) plain_four whole_start hrun
  refine ⟨_, hrun, by simp, ?_, hwhole⟩
  have hstore := congrArg Target.store htarget
  change n.store.getBlock _ = _
  rw [show n.store = _ from hstore]
  decide +kernel

/-- A run of these tasks on disk, without conditions. -/
theorem exists_reachable_four {may : Fin 4 → StoreOp → Prop} (hmay : ∀ u op, may u op → op.OnMeta)
    {P : Pool storeCalls Status Unit (Fin 4) Target}
    (h : Relation.ReflTransGen (FourStep may fun _ _ _ => True) ⟨fun _ => none, storesAfter []⟩ P) :
    ∃ n, Pool.Reachable (diskSystem dataRoot may) (fun u => (four u).prog) DiskNode.empty
      ⟨P.threads, n⟩ ∧ n.target dataRoot = P.world := by
  obtain ⟨n, hrun, htarget⟩ := exists_onDisk plain_four hmay shows_start.1 shows_start.2 h
  exact ⟨n, hrun.lift id fun _ _ hstep => hstep.1, htarget⟩

/-- **With a creation between the two steps of a deletion, a block is left without its
chunk.** -/
theorem dangles_when_created_between : ∃ P,
    Pool.Reachable (diskSystem dataRoot fun _ => StoreOp.never) (fun u => (four u).prog)
      DiskNode.empty P ∧ ¬Whole (P.world.target dataRoot).holdings := by
  have h₁ : Relation.ReflTransGen (FourStep (fun _ => StoreOp.never) fun _ _ _ => True)
      ⟨fun _ => none, storesAfter []⟩ _ := .single (four_start allowsRest_all 1 rfl)
  rw [show (four 1).prog = _ from writeThenPut_one] at h₁
  have h₂ := h₁.tail (four_call allowsRest_all 1 writeStep (fun _ => StoreOp.noConfusion) (.ok ())
    rfl rfl)
  have h₃ := h₂.tail (four_start allowsRest_all 2 rfl)
  have h₄ := h₃.tail (four_call allowsRest_all 2 (.deleteContainer 1)
    (fun _ => StoreOp.noConfusion) (.ok ()) rfl rfl)
  have h₅ := h₄.tail (four_start allowsRest_all 0 rfl)
  have h₆ := h₅.tail (four_step 0 createStep (.ok ()) rfl (by decide +kernel) trivial)
  have h₇ := h₆.tail (four_call allowsRest_all 1 (.putBlock oneChunk)
    (fun _ => StoreOp.noConfusion) (.ok 1) rfl (by decide +kernel))
  have h₈ := h₇.tail (four_call allowsRest_all 2 (.deleteChunks 1) (fun _ => StoreOp.noConfusion)
    (.ok ()) rfl rfl)
  obtain ⟨n, hrun, htarget⟩ := exists_reachable_four (fun _ _ => False.elim) h₈
  refine ⟨_, hrun, fun hwhole => ?_⟩
  change Whole (n.target dataRoot).holdings at hwhole
  rw [htarget] at hwhole
  have hblock : (storesAfter [writeStep, .deleteContainer 1, createStep, .putBlock oneChunk,
      .deleteChunks 1]).holdings.block ⟨1, 1, 1⟩ = some oneChunk := by decide +kernel
  exact hwhole _ _ hblock _ List.mem_cons_self (by decide +kernel)

/-- **Where a command cannot delete the records of a container, it deletes the chunks.** -/
theorem dangles_when_command_fails : ∃ P,
    Pool.Reachable (diskSystem dataRoot fun _ op => op = .deleteContainer 1)
      (fun u => (four u).prog) DiskNode.empty P ∧ ¬Whole (P.world.target dataRoot).holdings := by
  have h₁ : Relation.ReflTransGen
      (FourStep (fun _ op => op = .deleteContainer 1) fun _ _ _ => True)
      ⟨fun _ => none, storesAfter []⟩ _ := .single (four_start allowsRest_all 0 rfl)
  have h₂ := h₁.tail (four_step 0 createStep (.ok ()) rfl (by decide +kernel) trivial)
  have h₃ := h₂.tail (four_start allowsRest_all 1 rfl)
  rw [show (four 1).prog = _ from writeThenPut_one] at h₃
  have h₄ := h₃.tail (four_call allowsRest_all 1 writeStep (fun _ => StoreOp.noConfusion) (.ok ())
    rfl rfl)
  have h₅ := h₄.tail (four_call allowsRest_all 1 (.putBlock oneChunk)
    (fun _ => StoreOp.noConfusion) (.ok 1) rfl (by decide +kernel))
  have h₆ := h₅.tail (four_start allowsRest_all 3 rfl)
  have h₇ := h₆.tail ⟨.call (t := 3) rfl
    (.inr ⟨rfl, ⟨.metaError "io", rfl⟩, (rfl : _ = storesAfter _)⟩), trivial⟩
  have h₈ := h₇.tail (four_call allowsRest_all 3 (.deleteChunks 1) (fun _ => StoreOp.noConfusion)
    (.ok ()) rfl rfl)
  obtain ⟨n, hrun, htarget⟩ := exists_reachable_four (fun _ _ h => by rw [h]; trivial) h₈
  refine ⟨_, hrun, fun hwhole => ?_⟩
  change Whole (n.target dataRoot).holdings at hwhole
  rw [htarget] at hwhole
  have hblock : (storesAfter [createStep, writeStep, .putBlock oneChunk,
      .deleteChunks 1]).holdings.block ⟨1, 1, 1⟩ = some oneChunk := by decide +kernel
  exact hwhole _ _ hblock _ List.mem_cons_self (by decide +kernel)

end Dangling

end OzoneRust
