import OzoneRust.Lib.Linearize
import OzoneRust.Storage.ChunkMap

/-!
# The chunk store, called from many tasks

Writes, reads and deletions of chunks run side by side, one call on the file system at a time;
any call can fail, and a task can stop between any two. A write puts its bytes in a
temporary file, whose name has a number from a counter that all tasks share, and then
renames it.

`OzoneRust.fileChunkStore_linearizable`: as long as the counter does not wrap around, the
store is a map on which each operation takes effect at one moment, also when several tasks
write the same chunk. A write does so at its rename, so at no moment is a part of a write
to be seen, whether it is still going on, has failed or was given up. What carries it is
that no task touches the temporary file of another (`OzoneRust.ChunkTasks.rely`): the numbers
are different, and the name of a temporary file ends in its number
(`OzoneRust.FileChunkStore.tempPlace_inj`).
-/

namespace OzoneRust

open FileChunkStore

/-- An operation on a chunk. -/
inductive ChunkTask where
  /-- `write_chunk`. -/
  | write (k : ChunkKey) (data : Bytes)
  /-- `read_chunk`. -/
  | read (k : ChunkKey)
  /-- `delete_chunk`. -/
  | delete (k : ChunkKey)

/-- What a task returns: its operation, with the result and the failures of its calls. -/
def ChunkTask.report {α : Type} (call : Outcome StorageError α → List FileError → ChunkCall) :
    Outcome StorageError (Outcome StorageError α × List FileError) → Outcome StorageError ChunkCall
  | .ok (o, faults) => .ok (call o faults)
  | .err e => .err e
  | .panic => .panic

/-- The calls of an operation, which is returned as `report` says. -/
def reported {α : Type} (p : ChunkM α) (seen : List FileError)
    (call : Outcome StorageError α → List FileError → ChunkCall) : ChunkM ChunkCall :=
  (p.traced ChunkOp.faults seen).mapOutcome (ChunkTask.report call)

/-- What a task does. -/
def ChunkTask.prog (root : Path) : ChunkTask → ChunkM ChunkCall
  | .write k data => reported (writeChunk root k.block k.name data) [] (.write k data)
  | .read k => reported (readChunk root k.block k.name) [] (.read k)
  | .delete k => reported (deleteChunk root k.block k.name) [] (.delete k)

/-- The task of a call. -/
def ChunkCall.task : ChunkCall → Option ChunkTask
  | .write k data _ _ => some (.write k data)
  | .read k _ _ => some (.read k)
  | .delete k _ _ => some (.delete k)
  | .deleteContainer _ _ _ => none
  | .restart => none

/-- The disk, and which task has taken which number. -/
structure TaskDisk (T : Type) where
  /-- The disk. -/
  disk : Disk
  /-- The task that has taken a number for its temporary file. -/
  owner : UInt64 → Option T

/-- The calls of the tasks, as long as the counter does not wrap around. -/
def taskSystem (T : Type) : System chunkCalls T (TaskDisk T) where
  starts _ w w' := w' = w
  answers t w
    | .file op, r, w' => ∃ tree, op.Answers w.disk.tree r tree ∧
        w' = { w with disk := { w.disk with tree := tree } }
    | .tempSeq, r, w' => r = w.disk.tempSeq ∧ w.disk.tempSeq < w.disk.tempSeq + 1 ∧
        w' = ⟨{ w.disk with tempSeq := w.disk.tempSeq + 1 },
          Function.update w.owner w.disk.tempSeq (some t)⟩
    | .processId, r, w' => r = w.disk.pid ∧ w' = w

/-- The operation of a task on the map. -/
def ChunkTask.Step {T : Type} (tasks : T → ChunkTask) (M : ChunkKey → Option Bytes)
    (e : T × Outcome StorageError ChunkCall) (M' : ChunkKey → Option Bytes) : Prop :=
  ∃ call, e.2 = .ok call ∧ call.task = some (tasks e.1) ∧ MapStep M call M'

namespace FileChunkStore

/-- The place of a temporary file. -/
def tempPlace (root : Path) (k : ChunkKey) (pid : UInt32) (seq : UInt64) : List String :=
  (tempPath (chunkPath root k.block k.name) pid seq).resolve

/-- **Temporary files with different numbers are at different places.** -/
theorem tempPlace_inj {root : Path} {k k' : ChunkKey} {pid : UInt32} {seq seq' : UInt64}
    (h : tempPlace root k pid seq = tempPlace root k' pid seq') : seq = seq' := by
  rw [tempPlace, tempPlace, resolve_tempPath, resolve_tempPath, chunkDir_append_inj,
    fileOf_inj] at h
  -- read from its end, the name is the number up to the last dot
  have hsplit : ∀ (name : String) (n : UInt64), (name ++ tempSuffix pid n).toList.reverse =
      (toString n.toNat).toList.reverse ++
        '.' :: (name ++ ".tmp." ++ toString pid.toNat).toList.reverse := by
    intro name n
    simp [tempSuffix, String.toList_append]
  have hdot : ∀ n : ℕ, '.' ∉ (toString n).toList.reverse := fun n hmem =>
    not_mem_toString (show '.'.isDigit = false by decide) n (List.mem_reverse.mp hmem)
  have hname := congrArg (fun s => s.toList.reverse) h.2.2.2
  simp only [hsplit] at hname
  have hnum := ((append_cons_inj (hdot _) (hdot _)).mp hname).1
  rwa [List.reverse_inj, String.toList_inj, toString_inj, UInt64.toNat_inj] at hnum

theorem place_ne_temp {root : Path} (k k' : ChunkKey) (pid : UInt32) (seq : UInt64) :
    place root k ≠ tempPlace root k' pid seq := place_ne_tempPlace k k' pid seq

end FileChunkStore

namespace ChunkTasks

variable {T : Type} {root : Path} {w w' : TaskDisk T}

/-! ### What the tasks leave to each other -/

variable (T root) in
/-- A task leaves the temporary files of the others alone, and the numbers that are taken are
those the counter has passed. -/
def rely : RelyGuarantee chunkCalls T (TaskDisk T) where
  sys := taskSystem T
  Inv w := ∀ seq, w.owner seq ≠ none → seq < w.disk.tempSeq
  Guar u w w' := w'.disk.pid = w.disk.pid ∧ ∀ seq t, t ≠ u → w.owner seq = some t →
    w'.owner seq = some t ∧ ∀ k, w'.disk.tree.fileAt (tempPlace root k w.disk.pid seq) =
      w.disk.tree.fileAt (tempPlace root k w.disk.pid seq)

/-- Task `t` has number `seq` in a process, and its temporary file holds `data`, if that is
known. -/
def Owns (root : Path) (t : T) (k : ChunkKey) (pid : UInt32) (seq : UInt64) (data : Option Bytes)
    (w : TaskDisk T) : Prop :=
  w.disk.pid = pid ∧ w.owner seq = some t ∧
    ∀ d, data = some d → w.disk.tree.fileAt (tempPlace root k pid seq) = some d

theorem owns_stable (t : T) (k : ChunkKey) (pid : UInt32) (seq : UInt64) (data : Option Bytes) :
    (rely T root).Stable t (Owns root t k pid seq data) := by
  rintro w w' ⟨-, -, u, hu, hpid, hG⟩ ⟨rfl, howner, hdata⟩
  obtain ⟨howner', hfile⟩ := hG seq t hu.symm howner
  exact ⟨hpid, howner', fun d hd => (hfile k).trans (hdata d hd)⟩

theorem owner_stable (t : T) (seq : UInt64) :
    (rely T root).Stable t fun w => w.owner seq = some t := by
  rintro w w' ⟨-, -, u, hu, -, hG⟩ howner
  exact (hG seq t hu.symm howner).1

section File

variable {op : FileOp Bytes} {r : op.Res} {tree : FileTree Bytes}

/-- A call on the file system that touches no temporary file of another. -/
theorem guar_file (t : T) (hans : op.Answers w.disk.tree r tree)
    (htouch : ∀ seq u k, u ≠ t → w.owner seq = some u →
      ¬op.Touches (tempPlace root k w.disk.pid seq)) :
    (rely T root).Guar t w { w with disk := { w.disk with tree := tree } } :=
  ⟨rfl, fun seq u hu howner => ⟨howner, fun k => hans.frame (htouch seq u k hu howner)⟩⟩

/-- A call on the file system that touches no chunk. -/
theorem stored_eq (hans : op.Answers w.disk.tree r tree)
    (htouch : ∀ k, ¬op.Touches (place root k)) :
    stored root { w.disk with tree := tree } = stored root w.disk :=
  funext fun k => hans.frame (htouch k)

end File

/-! ### The operations -/

/-- The chunks that are stored are those of the map. -/
def Shows (root : Path) (w : TaskDisk T) (M : ChunkKey → Option Bytes) : Prop :=
  stored root w.disk = M

/-- The end of `write_chunk`, once the temporary file has a name. -/
def placeData (root : Path) (k : ChunkKey) (data : Bytes) (pid : UInt32) (seq : UInt64) :
    ChunkM Unit := do
  let path := chunkPath root k.block k.name
  let tmp := tempPath path pid seq
  match ← onFile (.write tmp data) with
  | .error e => .done (.err (.ofFile e))
  | .ok _ => do
    match ← onFile (.rename tmp path) with
    | .ok _ => pure ()
    | .error e => do
      let _ ← onFile (.removeFile tmp)
      .done (.err (.ofFile e))

variable {tasks : T → ChunkTask} {t : T} {k : ChunkKey} {data : Bytes}

/-- A call of the task takes effect. -/
theorem takesEffect (call : ChunkCall) (hcall : call.task = some (tasks t))
    {M M' : ChunkKey → Option Bytes} (h : MapStep M call M') :
    TakesEffect (ChunkTask.Step tasks) t M none (some (.ok call)) M' :=
  .now ⟨call, rfl, hcall, h⟩

theorem takesEffect_writeFailed (ht : tasks t = .write k data) (e : FileError)
    (more : List FileError) (M : ChunkKey → Option Bytes) :
    TakesEffect (ChunkTask.Step tasks) t M none
      (some (.ok (.write k data (.err (.ofFile e)) (e :: more)))) M :=
  takesEffect (.write k data (.err (.ofFile e)) (e :: more)) (congrArg some ht.symm) .writeFailed

/-- A temporary file is only touched by the task that has its number. -/
theorem owns_touch {pid : UInt32} {seq : UInt64} {d : Option Bytes} (hw : Owns root t k pid seq d w)
    {seq' : UInt64} {u : T} {k' : ChunkKey} (hu : u ≠ t) (howner : w.owner seq' = some u) :
    tempPlace root k' w.disk.pid seq' ≠ tempPlace root k pid seq := by
  obtain ⟨rfl, ht, -⟩ := hw
  intro heq
  obtain rfl := tempPlace_inj heq
  exact hu (Option.some.inj (howner.symm.trans ht))

/-- **The end of a write**: it takes effect when the temporary file is renamed, or not at
all. -/
theorem linear_placeData (ht : tasks t = .write k data) {pid : UInt32} {seq : UInt64}
    (hw : Owns root t k pid seq none w) :
    (rely T root).Linear (ChunkTask.Step tasks) (Shows root) t
      (reported (placeData root k data pid seq) [] (.write k data)) none w := by
  refine .call _ (owns_stable t k pid seq none) hw ?_
  rintro w₁ hw₁ hI r w₂ ⟨tree, hans, rfl⟩
  refine ⟨hI, guar_file t hans fun _ _ _ hu howner => owns_touch hw₁ hu howner, fun M hM => ?_⟩
  have hstored : stored root { w₁.disk with tree := tree } = stored root w₁.disk :=
    stored_eq hans fun k' => place_ne_temp k' k pid seq
  cases r with
  | error e => exact ⟨_, M, takesEffect_writeFailed ht e [] M, hstored.trans hM, rfl⟩
  | ok _ =>
    refine ⟨none, M, .not, hstored.trans hM, ?_⟩
    have hdata : Owns root t k pid seq (some data)
        { w₁ with disk := { w₁.disk with tree := tree } } := by
      refine ⟨hw₁.1, hw₁.2.1, ?_⟩
      rintro _ ⟨⟩
      obtain ⟨-, hwrite⟩ | ⟨⟨_, hr⟩, -⟩ := hans
      · refine FileTree.fileAt_eq_some.mpr ?_
        rw [FileTree.node_write hwrite]
        exact Function.update_self _ _ _
      · cases hr
    refine .call _ (owns_stable t k pid seq (some data)) hdata ?_
    rintro w₃ hw₃ hI r w₄ ⟨tree', hans', rfl⟩
    refine ⟨hI, guar_file t hans' fun seq' u k' hu howner => ?_, fun M hM => ?_⟩
    · rw [FileOp.Touches, not_or, resolve_chunkPath]
      exact ⟨owns_touch hw₃ hu howner, (place_ne_temp _ _ _ _).symm⟩
    · cases r with
      | ok _ =>
        obtain ⟨-, hrename⟩ | ⟨⟨_, hr⟩, -⟩ := hans'
        · have hnode := FileTree.node_rename
            (FileTree.fileAt_eq_some.mp (hw₃.2.2 data rfl)) hrename
          rw [resolve_chunkPath] at hnode
          refine ⟨_, stored root { w₃.disk with tree := tree' }, takesEffect
            (.write k data (.ok ()) []) (congrArg some ht.symm) (.written ?_ fun k' hk' => ?_),
            rfl, rfl⟩
          · refine FileTree.fileAt_eq_some.mpr ?_
            rw [hnode, Function.update_self]
          · rw [← hM]
            refine FileTree.fileAt_congr ?_
            rw [hnode, Function.update_of_ne (mt place_inj.mp hk'),
              Function.update_of_ne (place_ne_temp _ _ _ _)]
        · cases hr
      | error e =>
        obtain ⟨hr, -⟩ | ⟨-, rfl⟩ := hans'
        · cases hr
        refine ⟨none, M, .not, hM, ?_⟩
        -- what the removal of the temporary file answers is not looked at
        refine .call _ (owns_stable t k pid seq (some data)) hw₃ ?_
        rintro w₅ hw₅ hI r w₆ ⟨tree'', hans'', rfl⟩
        refine ⟨hI, guar_file t hans'' fun _ _ _ hu howner => owns_touch hw₅ hu howner,
          fun M hM => ?_⟩
        have hstored : stored root { w₅.disk with tree := tree'' } = stored root w₅.disk :=
          stored_eq hans'' fun k' => place_ne_temp k' k pid seq
        exact ⟨_, M, takesEffect_writeFailed ht e _ M, hstored.trans hM, rfl⟩

/-- **A write.** -/
theorem linear_write (ht : tasks t = .write k data) (w : TaskDisk T) :
    (rely T root).Linear (ChunkTask.Step tasks) (Shows root) t
      (ChunkTask.prog root (.write k data)) none w := by
  unfold ChunkTask.prog writeChunk
  dsimp only
  rw [parent_chunkPath]
  refine .call (fun _ => True) (fun _ _ _ _ => trivial) trivial ?_
  rintro w₁ - hI r w₂ ⟨tree, hans, rfl⟩
  refine ⟨hI, guar_file t hans fun _ _ _ _ _ => id, fun M hM => ?_⟩
  have hstored : stored root { w₁.disk with tree := tree } = stored root w₁.disk :=
    stored_eq hans fun _ => id
  cases r with
  | error e => exact ⟨_, M, takesEffect_writeFailed ht e [] M, hstored.trans hM, rfl⟩
  | ok _ =>
    refine ⟨none, M, .not, hstored.trans hM, ?_⟩
    refine .call (fun _ => True) (fun _ _ _ _ => trivial) trivial ?_
    rintro w₃ - hI r w₄ ⟨rfl, hlt, rfl⟩
    refine ⟨fun seq hseq => ?_, ⟨rfl, fun seq u hu howner => ⟨?_, fun _ => rfl⟩⟩, fun M hM => ?_⟩
    · by_cases heq : seq = w₃.disk.tempSeq
      · rw [heq]
        exact hlt
      · exact (hI seq (fun hnone => hseq ((Function.update_of_ne heq _ _).trans hnone))).trans hlt
    · -- a number that is taken is not the next one
      have hne : seq ≠ w₃.disk.tempSeq := by
        rintro rfl
        exact absurd (hI _ (by rw [howner]; simp)) (lt_irrefl _)
      exact (Function.update_of_ne hne _ _).trans howner
    · refine ⟨none, M, .not, hM, ?_⟩
      refine .call _ (owner_stable t w₃.disk.tempSeq) (Function.update_self _ _ _) ?_
      rintro w₅ howner hI pid w₆ ⟨rfl, rfl⟩
      refine ⟨hI, ⟨rfl, fun _ _ _ h => ⟨h, fun _ => rfl⟩⟩, fun M hM => ?_⟩
      exact ⟨none, M, .not, hM, linear_placeData ht ⟨rfl, howner, fun _ h => by cases h⟩⟩

/-- **A read.** -/
theorem linear_read (ht : tasks t = .read k) (w : TaskDisk T) :
    (rely T root).Linear (ChunkTask.Step tasks) (Shows root) t (ChunkTask.prog root (.read k))
      none w := by
  refine .call (fun _ => True) (fun _ _ _ _ => trivial) trivial ?_
  rintro w₁ - hI r w₂ ⟨tree, hans, rfl⟩
  refine ⟨hI, guar_file t hans fun _ _ _ _ _ => id, fun M hM => ?_⟩
  obtain ⟨rfl, hr⟩ := hans
  rw [resolve_chunkPath] at hr
  subst hM
  rcases r with (_ | message) | data
  · refine ⟨_, _, takesEffect (.read k _ _) (congrArg some ht.symm) (.absent ?_), rfl, rfl⟩
    rw [stored, FileTree.fileAt, show w₁.disk.tree.node (place root k) = none from hr]
  · exact ⟨_, _, takesEffect (.read k _ _) (congrArg some ht.symm) .readFailed, rfl, rfl⟩
  · exact ⟨_, _, takesEffect (.read k _ _) (congrArg some ht.symm)
      (.found (FileTree.fileAt_eq_some.mpr hr)), rfl, rfl⟩

/-- **A deletion.** -/
theorem linear_delete (ht : tasks t = .delete k) (w : TaskDisk T) :
    (rely T root).Linear (ChunkTask.Step tasks) (Shows root) t (ChunkTask.prog root (.delete k))
      none w := by
  refine .call (fun _ => True) (fun _ _ _ _ => trivial) trivial ?_
  rintro w₁ - hI r w₂ ⟨tree, hans, rfl⟩
  have htouch : ∀ q, q ≠ place root k →
      ¬(FileOp.removeFile (chunkPath root k.block k.name) : FileOp Bytes).Touches q := by
    intro q hq
    rw [FileOp.Touches, resolve_chunkPath]
    exact hq
  refine ⟨hI, guar_file t hans fun _ _ _ _ _ => htouch _ (place_ne_temp _ _ _ _).symm,
    fun M hM => ?_⟩
  subst hM
  have hother : ∀ k', k' ≠ k → stored root { w₁.disk with tree := tree } k' =
      stored root w₁.disk k' := fun k' hk' => hans.frame (htouch _ (mt place_inj.mp hk'))
  rcases hans with ⟨rfl, hremove⟩ | ⟨rfl, hnone, rfl⟩ | ⟨⟨m, rfl⟩, rfl⟩
  · refine ⟨_, _, takesEffect (.delete k _ _) (congrArg some ht.symm) (.deleted ?_ hother),
      rfl, rfl⟩
    rw [stored, FileTree.fileAt, FileTree.node_removeFile hremove, resolve_chunkPath,
      Function.update_self]
  · refine ⟨_, _, takesEffect (.delete k _ _) (congrArg some ht.symm) (.deleted ?_ hother),
      rfl, rfl⟩
    rw [stored, FileTree.fileAt, ← resolve_chunkPath, hnone]
  · exact ⟨_, _, takesEffect (.delete k _ _) (congrArg some ht.symm) .deleteFailed, rfl, rfl⟩

theorem linear (t : T) (w : TaskDisk T) :
    (rely T root).Linear (ChunkTask.Step tasks) (Shows root) t ((tasks t).prog root) none w := by
  cases ht : tasks t with
  | write k data => exact linear_write ht w
  | read k => exact linear_read ht w
  | delete k => exact linear_delete ht w

end ChunkTasks

open ChunkTasks in
/-- **However the tasks interleave, the chunk store is a map with operations that take effect at
one moment.** -/
theorem fileChunkStore_linearizable {T : Type} [DecidableEq T] {root : Path} (tasks : T → ChunkTask)
    {disk : Disk} {pool : Pool chunkCalls StorageError ChunkCall T (TaskDisk T)}
    (h : Pool.Reachable (taskSystem T) (fun t => (tasks t).prog root) ⟨disk, fun _ => none⟩ pool) :
    ∃ log, Linearized (ChunkTask.Step tasks) (Shows root) (stored root disk) pool log ∧
      ∀ pool', Relation.ReflTransGen (Pool.Step (taskSystem T) fun t => (tasks t).prog root)
          pool pool' →
        ∃ more, Linearized (ChunkTask.Step tasks) (Shows root) (stored root disk) pool'
          (log ++ more) := by
  have hshows : Shows root (⟨disk, fun _ => none⟩ : TaskDisk T) (stored root disk) := rfl
  refine (rely T root).linearizable (fun t w w' hI hs => ?_) (fun _ h => absurd rfl h) hshows h
  obtain rfl : w' = w := hs
  exact ⟨hI, ⟨rfl, fun _ _ _ h => ⟨h, fun _ => rfl⟩⟩, fun M hM => ⟨none, M, .not, hM, linear t w'⟩⟩

/-! ### A run -/

/-- The disk, in a run without failures. -/
def serveTask {T : Type} [DecidableEq T] (t : T) (w : TaskDisk T) :
    (op : chunkCalls.Op) → Option (chunkCalls.Res op × TaskDisk T)
  | .file op =>
    some ((op.serve w.disk.tree).1,
      { w with disk := { w.disk with tree := (op.serve w.disk.tree).2 } })
  | .tempSeq =>
    if w.disk.tempSeq < w.disk.tempSeq + 1 then
      some (w.disk.tempSeq, ⟨{ w.disk with tempSeq := w.disk.tempSeq + 1 },
        Function.update w.owner w.disk.tempSeq (some t)⟩)
    else none
  | .processId => some (w.disk.pid, w)

theorem answers_serveTask {T : Type} [DecidableEq T] {t : T} {w w' : TaskDisk T}
    {op : chunkCalls.Op} {r : chunkCalls.Res op} (h : serveTask t w op = some (r, w')) :
    (taskSystem T).answers t w op r w' := by
  cases op with
  | file op =>
    cases h
    exact ⟨_, op.answers_serve w.disk.tree, rfl⟩
  | tempSeq =>
    simp only [serveTask] at h
    split at h
    · next hlt =>
      cases h
      exact ⟨rfl, hlt, rfl⟩
    · cases h
  | processId =>
    cases h
    exact ⟨rfl, rfl⟩

/-- A chunk is written, written again, and read. -/
def writesAndRead : Fin 3 → ChunkTask
  | 0 => .write (onlyChunk 1 1) [5]
  | 1 => .write (onlyChunk 1 1) [6]
  | 2 => .read (onlyChunk 1 1)

/-- The read falls between the temporary file of the second write and its rename. -/
def writesAndReadTurns : List (Fin 3) := [0, 0, 0, 0, 0, 0, 1, 1, 1, 1, 1, 2, 2]

/-- The pool they reach. -/
def writesAndReadPool : Pool chunkCalls StorageError ChunkCall (Fin 3) (TaskDisk (Fin 3)) :=
  writesAndReadTurns.foldl (Pool.turn (fun t => (writesAndRead t).prog dataRoot) (fun _ w => w)
    serveTask) ⟨fun _ => none, emptyDisk, fun _ => none⟩

open ChunkTasks in
/-- The theorem, for that run: the bytes of the second write are in its temporary file, and the
read has returned those of the first. -/
theorem fileChunkStore_linearizable_writesAndRead :
    (writesAndReadPool.threads 0 = some (.done (.ok (.write (onlyChunk 1 1) [5] (.ok ()) []))) ∧
      (∃ next, writesAndReadPool.threads 1 = some (.call (C := chunkCalls)
        (.file (.rename (tempPath (chunkPath dataRoot ⟨1, 1, 1⟩ "0") 1 1)
          (chunkPath dataRoot ⟨1, 1, 1⟩ "0"))) next)) ∧
      writesAndReadPool.world.disk.tree.fileAt (tempPlace dataRoot (onlyChunk 1 1) 1 1) =
        some [6] ∧
      writesAndReadPool.threads 2 = some (.done (.ok (.read (onlyChunk 1 1) (.ok [5]) [])))) ∧
    ∃ log, Linearized (ChunkTask.Step writesAndRead) (Shows dataRoot) (stored dataRoot emptyDisk)
        writesAndReadPool log ∧
      ∀ pool', Relation.ReflTransGen
          (Pool.Step (taskSystem (Fin 3)) fun t => (writesAndRead t).prog dataRoot)
          writesAndReadPool pool' →
        ∃ more, Linearized (ChunkTask.Step writesAndRead) (Shows dataRoot)
          (stored dataRoot emptyDisk) pool' (log ++ more) :=
  ⟨⟨rfl, ⟨_, rfl⟩, by decide +kernel, rfl⟩,
    fileChunkStore_linearizable writesAndRead
      (Pool.steps_foldl_turn (fun _ _ => rfl) (fun _ _ _ _ _ h => answers_serveTask h) _ _)⟩

end OzoneRust
