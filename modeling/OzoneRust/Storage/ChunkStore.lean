import OzoneRust.Lib.FileTree
import OzoneRust.Lib.Interleave
import OzoneRust.Storage.MetaStore

/-!
# The chunk store

`FileChunkStore` keeps each chunk in a file, `<root>/<container>/chunks/<local>_<slot>_<name>`.
A write goes to a temporary file in the same directory, which is then renamed.

The calls on the file system can fail at any point (`OzoneRust.FileOp.Answers`), and what was
done before stays done; so the operations are programs over these calls.
-/

namespace OzoneRust

/-! ### Paths -/

namespace FileChunkStore

/-- `container_dir`. -/
def containerDir (root : Path) (c : ContainerId) : Path := Path.join root (toString c.toNat)

/-- The name of the file of a chunk. -/
def fileOf (b : BlockId) (name : String) : String :=
  toString b.localId.toNat ++ "_" ++ toString b.replicaIndex.toNat ++ "_" ++ name

/-- `chunk_path`. -/
def chunkPath (root : Path) (b : BlockId) (name : String) : Path :=
  Path.join (Path.join (containerDir root b.container) "chunks") (fileOf b name)

/-- What a temporary file has after the name of the file it becomes. -/
def tempSuffix (pid : UInt32) (seq : UInt64) : String :=
  ".tmp." ++ toString pid.toNat ++ "." ++ toString seq.toNat

/-- `temp_path`. -/
def tempPath (finalPath : Path) (pid : UInt32) (seq : UInt64) : Path :=
  finalPath.withFileName (finalPath.fileName.getD "" ++ tempSuffix pid seq)

end FileChunkStore

/-! ### Calls -/

/-- A call of the store. -/
inductive ChunkOp where
  /-- On the file system. -/
  | file (op : FileOp Bytes)
  /-- `TEMP_SEQ.fetch_add`. -/
  | tempSeq
  /-- `std::process::id`. -/
  | processId

/-- The answers. -/
abbrev ChunkOp.Res : ChunkOp → Type
  | .file op => op.Res
  | .tempSeq => UInt64
  | .processId => UInt32

/-- The calls of the store. -/
def chunkCalls : Calls := ⟨ChunkOp, ChunkOp.Res⟩

/-- The file system and the process. -/
structure Disk where
  /-- The files. -/
  tree : FileTree Bytes
  /-- The counter for temporary names. -/
  tempSeq : UInt64
  /-- The id of the process. -/
  pid : UInt32

/-- What a call can answer. -/
def ChunkOp.Answers (w : Disk) : (op : chunkCalls.Op) → chunkCalls.Res op → Disk → Prop
  | .file op, r, w' => ∃ t, op.Answers w.tree r t ∧ w' = { w with tree := t }
  | .tempSeq, r, w' => r = w.tempSeq ∧ w' = { w with tempSeq := w.tempSeq + 1 }
  | .processId, r, w' => r = w.pid ∧ w' = w

/-- The failures in an answer. -/
def ChunkOp.faults : (op : chunkCalls.Op) → chunkCalls.Res op → List FileError
  | .file op, r => op.faults r
  | .tempSeq, _ => []
  | .processId, _ => []

/-- The answers, with the failures so far. -/
def ChunkOp.Logged : Disk × List FileError → (op : chunkCalls.Op) → chunkCalls.Res op →
    Disk × List FileError → Prop :=
  Prog.logged ChunkOp.Answers fun _ op r _ => ChunkOp.faults op r

/-- A program of the store. -/
abbrev ChunkM := Prog chunkCalls StorageError

/-- A call on the file system. -/
def onFile (op : FileOp Bytes) : ChunkM op.Res := Prog.perform (C := chunkCalls) (.file op)

section Ends

variable {α : Type} {w : Disk} {seen : List FileError} {o : Outcome StorageError α}
  {v : Disk × List FileError}

theorem ends_onFile_bind {op : FileOp Bytes} {f : op.Res → ChunkM α} :
    (onFile op >>= f).Ends ChunkOp.Logged (w, seen) o v ↔ ∃ r t, op.Answers w.tree r t ∧
      (f r).Ends ChunkOp.Logged (⟨t, w.tempSeq, w.pid⟩, seen ++ op.faults r) o v := by
  constructor
  · rintro ⟨r, ⟨_, _⟩, ⟨⟨t, hans, hw⟩, hseen⟩, h⟩
    dsimp only at hw hseen
    subst hw hseen
    exact ⟨r, t, hans, h⟩
  · rintro ⟨r, t, hans, h⟩
    exact ⟨r, (_, _), ⟨⟨t, hans, rfl⟩, rfl⟩, h⟩

theorem ends_tempSeq_bind {f : UInt64 → ChunkM α} :
    ((Prog.perform (C := chunkCalls) .tempSeq : ChunkM UInt64) >>= f).Ends ChunkOp.Logged
      (w, seen) o v ↔
    (f w.tempSeq).Ends ChunkOp.Logged (⟨w.tree, w.tempSeq + 1, w.pid⟩, seen) o v := by
  constructor
  · rintro ⟨r, v₁, ⟨⟨rfl, hw⟩, hseen⟩, h⟩
    have hv : v₁ = (⟨w.tree, w.tempSeq + 1, w.pid⟩, seen) :=
      Prod.ext hw (hseen.trans (List.append_nil seen))
    rwa [hv] at h
  · exact fun h => ⟨_, (_, _), ⟨⟨rfl, rfl⟩, (List.append_nil seen).symm⟩, h⟩

theorem ends_processId_bind {f : UInt32 → ChunkM α} :
    ((Prog.perform (C := chunkCalls) .processId : ChunkM UInt32) >>= f).Ends ChunkOp.Logged
      (w, seen) o v ↔ (f w.pid).Ends ChunkOp.Logged (w, seen) o v := by
  constructor
  · rintro ⟨r, v₁, ⟨⟨rfl, hw⟩, hseen⟩, h⟩
    have hv : v₁ = (w, seen) := Prod.ext hw (hseen.trans (List.append_nil seen))
    rwa [hv] at h
  · exact fun h => ⟨_, (_, _), ⟨⟨rfl, rfl⟩, (List.append_nil seen).symm⟩, h⟩

end Ends

/-- `StorageError::from` of a failure of the file system. -/
def StorageError.ofFile : FileError → StorageError
  | .notFound => .io "No such file or directory (os error 2)"
  | .other message => .io message

namespace FileChunkStore

/-- `write_chunk`. -/
def writeChunk (root : Path) (b : BlockId) (name : String) (data : Bytes) : ChunkM Unit :=
  let path := chunkPath root b name
  match path.parent with
  | none => .done .panic
  | some dir => do
    match ← onFile (.createDirAll dir) with
    | .error e => .done (.err (.ofFile e))
    | .ok _ => do
      let seq ← Prog.perform (C := chunkCalls) .tempSeq
      let pid ← Prog.perform (C := chunkCalls) .processId
      let tmp := tempPath path pid seq
      match ← onFile (.write tmp data) with
      | .error e => .done (.err (.ofFile e))
      | .ok _ => do
        match ← onFile (.rename tmp path) with
        | .ok _ => pure ()
        | .error e => do
          -- the temporary file is removed if that works
          let _ ← onFile (.removeFile tmp)
          .done (.err (.ofFile e))

/-- `read_chunk`. -/
def readChunk (root : Path) (b : BlockId) (name : String) : ChunkM Bytes := do
  match ← onFile (.read (chunkPath root b name)) with
  | .ok data => pure data
  | .error .notFound => .done (.err (.blockNotFound b))
  | .error e => .done (.err (.ofFile e))

/-- `delete_chunk`. -/
def deleteChunk (root : Path) (b : BlockId) (name : String) : ChunkM Unit := do
  match ← onFile (.removeFile (chunkPath root b name)) with
  | .ok _ => pure ()
  | .error .notFound => pure ()
  | .error e => .done (.err (.ofFile e))

/-- `delete_container`. -/
def deleteContainer (root : Path) (c : ContainerId) : ChunkM Unit := do
  match ← onFile (.removeDirAll (containerDir root c)) with
  | .ok _ => pure ()
  | .error .notFound => pure ()
  | .error e => .done (.err (.ofFile e))

end FileChunkStore

end OzoneRust
