import OzoneRust.Lib.Trace
import OzoneRust.Storage.ChunkStore

/-!
# The chunk store is a map, for plain names

The name of a chunk comes from the caller and goes into the path as it is. As long as it has
no slash and does not look like the name of a temporary file (`OzoneRust.PlainName`), the
files of different chunks are at different places, all in the directory of their container,
and no temporary file is at the place of a chunk (`OzoneRust.FileChunkStore.place_inj`,
`OzoneRust.FileChunkStore.place_ne_tempPlace`). So over all runs, with calls that fail at any
point, the store is a map from container, local id, slot and name to bytes
(`OzoneRust.fileChunkStore_isMap`).

A call is logged with the operations on the file system that failed under it, and it fails
exactly if there was one, or if a read finds nothing (`OzoneRust.MapStep`). Which failures are
possible depends on the disk: on one that holds nothing but what the store put there
(`OzoneRust.FileChunkStore.Clean`, kept by every call) every call can go without any.

With a slash in it a name reaches the files of other chunks and other containers
(`OzoneRust.chunk_escapes`).
-/

namespace OzoneRust

/-! ### Plain names -/

/-- A name without a slash that is not the name of a temporary file. -/
structure PlainName (name : String) : Prop where
  /-- No slash. -/
  slash : '/' ∉ name.toList
  /-- Not temporary. -/
  temp : ∀ base pid seq, name ≠ base ++ FileChunkStore.tempSuffix pid seq

/-- A chunk with a plain name. -/
@[ext] structure ChunkKey where
  /-- The block. -/
  block : BlockId
  /-- The name. -/
  name : String
  /-- The name is plain. -/
  plain : PlainName name

namespace FileChunkStore

theorem toList_toString (n : ℕ) : (toString n).toList = Nat.toDigits 10 n := by
  rw [Nat.toString_eq_ofList_toDigits, String.toList_ofList]

theorem toString_inj {m n : ℕ} : toString m = toString n ↔ m = n := by
  refine ⟨fun h => ?_, fun h => h ▸ rfl⟩
  have hvalue := congrArg (fun s => Nat.ofDigitChars 10 s.toList 0) h
  simpa [toList_toString, Nat.ofDigitChars_toDigits] using hvalue

/-- A number is written without the characters that separate. -/
theorem not_mem_toString {c : Char} (h : c.isDigit = false) (n : ℕ) : c ∉ (toString n).toList := by
  intro hmem
  rw [toList_toString] at hmem
  rw [Nat.isDigit_of_mem_toDigits (by decide) (by decide) hmem] at h
  cases h

theorem plain_toString (n : ℕ) : Path.Plain (toString n) := by
  refine ⟨not_mem_toString (by decide) n, ?_⟩
  have hne : (toString n).toList ≠ [] := by
    rw [toList_toString]
    exact Nat.toDigits_ne_nil
  have hdot := not_mem_toString (show '.'.isDigit = false by decide) n
  simp only [List.mem_cons, List.not_mem_nil, or_false, not_or]
  refine ⟨hne, fun h => hdot ?_, fun h => hdot ?_⟩ <;> rw [h] <;> exact List.mem_cons_self

theorem toList_fileOf (b : BlockId) (name : String) :
    (fileOf b name).toList = (toString b.localId.toNat).toList ++
      '_' :: ((toString b.replicaIndex.toNat).toList ++ '_' :: name.toList) := by
  simp [fileOf]

/-- **Different chunks of a container have different file names.** -/
theorem fileOf_inj {b b' : BlockId} {name name' : String} :
    fileOf b name = fileOf b' name' ↔
      b.localId = b'.localId ∧ b.replicaIndex = b'.replicaIndex ∧ name = name' := by
  have hsep := fun n => not_mem_toString (show '_'.isDigit = false by decide) n
  rw [← String.toList_inj, toList_fileOf, toList_fileOf, append_cons_inj (hsep _) (hsep _),
    append_cons_inj (hsep _) (hsep _), String.toList_inj, String.toList_inj, String.toList_inj,
    toString_inj, toString_inj, UInt64.toNat_inj, UInt8.toNat_inj]

theorem plain_append {s : String} (hslash : '/' ∉ s.toList) (hsep : '_' ∈ s.toList) :
    Path.Plain s := by
  refine ⟨hslash, ?_⟩
  simp only [List.mem_cons, List.not_mem_nil, or_false, not_or]
  refine ⟨?_, ?_, ?_⟩ <;> intro h <;> rw [h] at hsep <;> simp at hsep

theorem plain_fileOf {name : String} (h : '/' ∉ name.toList) (b : BlockId) :
    Path.Plain (fileOf b name) := by
  refine plain_append ?_ ?_ <;> rw [toList_fileOf]
  · simp only [List.mem_append, List.mem_cons, not_or]
    exact ⟨not_mem_toString (by decide) _, by decide, not_mem_toString (by decide) _, by decide, h⟩
  · simp

/-- The place of a container. -/
def containerPlace (root : Path) (c : ContainerId) : List String :=
  root.resolve ++ [toString c.toNat]

/-- The place of its chunks. -/
def chunkDir (root : Path) (c : ContainerId) : List String := containerPlace root c ++ ["chunks"]

/-- The place of a chunk. -/
def place (root : Path) (k : ChunkKey) : List String :=
  chunkDir root k.block.container ++ [fileOf k.block k.name]

theorem chunkPath_eq (root : Path) (b : BlockId) {name : String} (h : '/' ∉ name.toList) :
    chunkPath root b name =
      Path.join (containerDir root b.container) "chunks" ++ [.normal (fileOf b name)] :=
  Path.join_of_plain (plain_fileOf h b) _

theorem resolve_containerDir (root : Path) (c : ContainerId) :
    (containerDir root c).resolve = containerPlace root c :=
  Path.resolve_join_of_plain (plain_toString _) root

theorem resolve_chunks (root : Path) (c : ContainerId) :
    (Path.join (containerDir root c) "chunks").resolve = chunkDir root c := by
  rw [Path.resolve_join_of_plain (by decide), resolve_containerDir, chunkDir]

theorem resolve_chunkPath (root : Path) (k : ChunkKey) :
    (chunkPath root k.block k.name).resolve = place root k := by
  rw [chunkPath_eq root k.block k.plain.slash, Path.resolve_append_normal, resolve_chunks, place]

theorem toList_tempSuffix (pid : UInt32) (seq : UInt64) : '/' ∉ (tempSuffix pid seq).toList := by
  have h := fun n => not_mem_toString (show '/'.isDigit = false by decide) n
  simp only [tempSuffix, String.toList_append, List.mem_append, not_or]
  exact ⟨⟨⟨by decide, h _⟩, by decide⟩, h _⟩

/-- The place of a temporary file. -/
theorem resolve_tempPath (root : Path) (k : ChunkKey) (pid : UInt32) (seq : UInt64) :
    (tempPath (chunkPath root k.block k.name) pid seq).resolve =
      chunkDir root k.block.container ++ [fileOf k.block (k.name ++ tempSuffix pid seq)] := by
  have happ : fileOf k.block k.name ++ tempSuffix pid seq =
      fileOf k.block (k.name ++ tempSuffix pid seq) := by
    simp only [fileOf, String.append_assoc]
  have hplain : Path.Plain (fileOf k.block (k.name ++ tempSuffix pid seq)) := by
    refine plain_fileOf ?_ k.block
    rw [String.toList_append, List.mem_append, not_or]
    exact ⟨k.plain.slash, toList_tempSuffix pid seq⟩
  rw [chunkPath_eq root k.block k.plain.slash, tempPath, Path.fileName_append_normal,
    Option.getD_some, happ, Path.withFileName_append_normal hplain, Path.resolve_append_normal,
    resolve_chunks]

theorem chunkDir_inj {root : Path} {c c' : ContainerId} :
    chunkDir root c = chunkDir root c' ↔ c = c' := by
  rw [chunkDir, chunkDir, List.append_left_inj, containerPlace, containerPlace,
    List.append_right_inj, List.singleton_inj, toString_inj, UInt64.toNat_inj]

theorem chunkDir_append_inj {root : Path} {c c' : ContainerId} {x x' : String} :
    chunkDir root c ++ [x] = chunkDir root c' ++ [x'] ↔ c = c' ∧ x = x' := by
  rw [List.append_singleton_inj, chunkDir_inj]

/-- **Different chunks are at different places.** -/
theorem place_inj {root : Path} {k k' : ChunkKey} : place root k = place root k' ↔ k = k' := by
  rw [place, place, chunkDir_append_inj, fileOf_inj]
  constructor
  · rintro ⟨hc, hl, hr, hname⟩
    obtain ⟨⟨c, l, r⟩, name, _⟩ := k
    obtain ⟨⟨c', l', r'⟩, name', _⟩ := k'
    dsimp only at hc hl hr hname
    subst hc hl hr hname
    rfl
  · rintro rfl
    exact ⟨rfl, rfl, rfl, rfl⟩

/-- **No temporary file is at the place of a chunk.** -/
theorem place_ne_tempPlace {root : Path} (k k' : ChunkKey) (pid : UInt32) (seq : UInt64) :
    place root k ≠ (tempPath (chunkPath root k'.block k'.name) pid seq).resolve := by
  rw [resolve_tempPath, place, Ne, chunkDir_append_inj, fileOf_inj]
  rintro ⟨-, -, -, hname⟩
  exact k.plain.temp _ _ _ hname

/-! ### What the operations do -/

/-- The chunks that are stored. -/
def stored (root : Path) (w : Disk) (k : ChunkKey) : Option Bytes := w.tree.fileAt (place root k)

section Ends

variable {root : Path} {w w' : Disk} {k : ChunkKey} {faults : List FileError}

theorem parent_chunkPath (root : Path) (k : ChunkKey) :
    (chunkPath root k.block k.name).parent =
      some (Path.join (containerDir root k.block.container) "chunks") := by
  rw [chunkPath_eq root k.block k.plain.slash, Path.parent_append]

/-- **A write** stores the chunk, or fails because a call on the file system failed, and changes
no file but that of the chunk and a temporary one in the same directory. -/
theorem writeChunk_ends {data : Bytes} {o : Outcome StorageError Unit}
    (h : (writeChunk root k.block k.name data).Ends ChunkOp.Logged (w, []) o (w', faults)) :
    ((o = .ok () ∧ faults = []) ∧ stored root w' k = some data ∨
      (∃ e more, o = .err (.ofFile e) ∧ faults = e :: more) ∧ stored root w' k = stored root w k) ∧
    ∃ pid seq, ∀ q, q ≠ place root k →
      q ≠ (tempPath (chunkPath root k.block k.name) pid seq).resolve →
      w'.tree.fileAt q = w.tree.fileAt q := by
  unfold writeChunk at h
  dsimp only at h
  rw [parent_chunkPath] at h
  obtain ⟨r₁, t₁, h₁, h⟩ := ends_onFile_bind.mp h
  have hframe₁ : ∀ q, t₁.fileAt q = w.tree.fileAt q := fun q => h₁.frame id
  cases r₁ with
  | error e =>
    cases h.2
    exact ⟨.inr ⟨⟨e, [], h.1, rfl⟩, hframe₁ _⟩, 0, 0, fun q _ _ => hframe₁ q⟩
  | ok _ =>
    obtain ⟨r₂, t₂, h₂, h⟩ :=
      ends_onFile_bind.mp (ends_processId_bind.mp (ends_tempSeq_bind.mp h))
    have hne := @place_ne_tempPlace root k k w.pid w.tempSeq
    have hframe₂ : ∀ q, q ≠ (tempPath (chunkPath root k.block k.name) w.pid w.tempSeq).resolve →
        t₂.fileAt q = w.tree.fileAt q := fun q hq => (h₂.frame hq).trans (hframe₁ q)
    cases r₂ with
    | error e =>
      cases h.2
      exact ⟨.inr ⟨⟨e, [], h.1, rfl⟩, hframe₂ _ hne⟩, w.pid, w.tempSeq, fun q _ hq => hframe₂ q hq⟩
    | ok _ =>
      obtain ⟨r₃, t₃, h₃, h⟩ := ends_onFile_bind.mp h
      cases r₃ with
      | ok _ =>
        cases h.2
        refine ⟨.inl ⟨⟨h.1, rfl⟩, ?_⟩, w.pid, w.tempSeq, fun q hq hq' => ?_⟩
        · have htemp : t₂.node (tempPath (chunkPath root k.block k.name) w.pid w.tempSeq).resolve =
              some (.file data) := by
            obtain ⟨-, hwrite⟩ | ⟨⟨_, hr⟩, -⟩ := h₂
            · rw [FileTree.node_write hwrite, Function.update_self]
            · cases hr
          obtain ⟨-, hrename⟩ | ⟨⟨_, hr⟩, -⟩ := h₃
          · refine FileTree.fileAt_eq_some.mpr ?_
            rw [FileTree.node_rename htemp hrename, resolve_chunkPath, Function.update_self]
          · cases hr
        · refine (h₃.frame ?_).trans (hframe₂ q hq')
          rw [FileOp.Touches, resolve_chunkPath, not_or]
          exact ⟨hq', hq⟩
      | error e =>
        obtain ⟨r₄, t₄, h₄, ho, hw⟩ := ends_onFile_bind.mp h
        cases hw
        obtain ⟨hr, -⟩ | ⟨-, rfl⟩ := h₃
        · cases hr
        · have hframe₄ : ∀ q,
              q ≠ (tempPath (chunkPath root k.block k.name) w.pid w.tempSeq).resolve →
              t₄.fileAt q = w.tree.fileAt q := fun q hq => (h₄.frame hq).trans (hframe₂ q hq)
          exact ⟨.inr ⟨⟨e, _, ho, rfl⟩, hframe₄ _ hne⟩, w.pid, w.tempSeq,
            fun q _ hq => hframe₄ q hq⟩

/-- **A read** returns what is stored, or fails because the call on the file system failed. -/
theorem readChunk_ends {o : Outcome StorageError Bytes}
    (h : (readChunk root k.block k.name).Ends ChunkOp.Logged (w, []) o (w', faults)) :
    w'.tree = w.tree ∧ ((∃ data, (o = .ok data ∧ faults = []) ∧ stored root w k = some data) ∨
      ((o = .err (.blockNotFound k.block) ∧ faults = []) ∧ stored root w k = none) ∨
      ∃ e, o = .err (.ofFile e) ∧ faults = [e]) := by
  obtain ⟨r, t, ⟨rfl, hr⟩, h⟩ := ends_onFile_bind.mp h
  rw [resolve_chunkPath] at hr
  rcases r with (_ | message) | data
  · cases h.2
    refine ⟨rfl, .inr (.inl ⟨⟨h.1, rfl⟩, ?_⟩)⟩
    rw [stored, FileTree.fileAt, show w.tree.node (place root k) = none from hr]
  · cases h.2
    exact ⟨rfl, .inr (.inr ⟨.other message, h.1, rfl⟩)⟩
  · cases h.2
    exact ⟨rfl, .inl ⟨data, ⟨h.1, rfl⟩, FileTree.fileAt_eq_some.mpr hr⟩⟩

/-- **A deletion** removes the chunk, or fails because the call on the file system failed, and
changes no other file. -/
theorem deleteChunk_ends {o : Outcome StorageError Unit}
    (h : (deleteChunk root k.block k.name).Ends ChunkOp.Logged (w, []) o (w', faults)) :
    ((o = .ok () ∧ faults = []) ∧ stored root w' k = none ∨
      (∃ e, o = .err (.ofFile e) ∧ faults = [e]) ∧ stored root w' k = stored root w k) ∧
    ∀ q, q ≠ place root k → w'.tree.fileAt q = w.tree.fileAt q := by
  obtain ⟨r, t, hr, h⟩ := ends_onFile_bind.mp h
  have hframe : ∀ q, q ≠ place root k → t.fileAt q = w.tree.fileAt q := by
    intro q hq
    refine hr.frame ?_
    rw [FileOp.Touches, resolve_chunkPath]
    exact hq
  rcases hr with ⟨rfl, hremove⟩ | ⟨rfl, hnone, rfl⟩ | ⟨⟨m, rfl⟩, rfl⟩
  · cases h.2
    refine ⟨.inl ⟨⟨h.1, rfl⟩, ?_⟩, hframe⟩
    rw [stored, FileTree.fileAt, FileTree.node_removeFile hremove, resolve_chunkPath,
      Function.update_self]
  · cases h.2
    refine ⟨.inl ⟨⟨h.1, rfl⟩, ?_⟩, hframe⟩
    rw [stored, FileTree.fileAt, ← resolve_chunkPath, hnone]
  · cases h.2
    exact ⟨.inr ⟨⟨.other m, h.1, rfl⟩, rfl⟩, hframe⟩

theorem containerPlace_prefix_iff {c : ContainerId} :
    containerPlace root c <+: place root k ↔ k.block.container = c := by
  rw [place, chunkDir, containerPlace, containerPlace, List.append_assoc, List.append_assoc,
    List.prefix_append_right_inj, List.singleton_append, List.cons_prefix_cons, toString_inj,
    UInt64.toNat_inj]
  simp [eq_comm]

/-- **A deletion of a container** removes its chunks, or fails because the call on the file
system failed and has removed some of them, and changes no file of another container. -/
theorem deleteContainer_ends {c : ContainerId} {o : Outcome StorageError Unit}
    (h : (deleteContainer root c).Ends ChunkOp.Logged (w, []) o (w', faults)) :
    ((o = .ok () ∧ faults = []) ∧
        (∀ k : ChunkKey, k.block.container = c → stored root w' k = none) ∨
      (∃ e, o = .err (.ofFile e) ∧ faults = [e]) ∧
        ∀ k : ChunkKey, stored root w' k = none ∨ stored root w' k = stored root w k) ∧
    ∀ q, ¬containerPlace root c <+: q → w'.tree.fileAt q = w.tree.fileAt q := by
  obtain ⟨r, t, hr, h⟩ := ends_onFile_bind.mp h
  have hframe : ∀ q, ¬containerPlace root c <+: q → t.fileAt q = w.tree.fileAt q := by
    intro q hq
    refine hr.frame ?_
    rw [FileOp.Touches, resolve_containerDir]
    exact hq
  rcases hr with ⟨rfl, hremove⟩ | ⟨rfl, hnone, rfl⟩ | ⟨⟨m, rfl⟩, S, hS, hsub, rfl⟩
  · cases h.2
    refine ⟨.inl ⟨⟨h.1, rfl⟩, fun k hk => ?_⟩, hframe⟩
    rw [stored, FileTree.fileAt, FileTree.node_removeDirAll hremove, resolve_containerDir,
      if_pos (containerPlace_prefix_iff.mpr hk)]
  · cases h.2
    refine ⟨.inl ⟨⟨h.1, rfl⟩, fun k hk => ?_⟩, hframe⟩
    rw [resolve_containerDir] at hnone
    rw [stored, FileTree.fileAt,
      FileTree.node_eq_none_below hnone (containerPlace_prefix_iff.mpr hk)]
  · cases h.2
    refine ⟨.inr ⟨⟨.other m, h.1, rfl⟩, fun k => ?_⟩, hframe⟩
    by_cases hk : S (place root k) = true
    · refine .inl ?_
      simp [stored, FileTree.fileAt, FileTree.prune, hk]
    · exact .inr (FileTree.fileAt_congr (if_neg hk))

end Ends

/-! ### A disk of its own -/

/-- **Nothing but the store has put files on the disk**: where it makes directories there are no
files, and where it puts files there are no directories. -/
structure Clean (root : Path) (t : FileTree Bytes) : Prop where
  /-- The directories of the chunks, and those they are in. -/
  dir : ∀ c p, p <+: chunkDir root c → t.node p = none ∨ t.node p = some .dir
  /-- What is in them. -/
  file : ∀ c x, t.node (chunkDir root c ++ [x]) ≠ some .dir

/-- The place of a file in the directory of some container's chunks. -/
def IsFile (root : Path) (q : List String) : Prop := ∃ c x, q = chunkDir root c ++ [x]

/-- The calls on the file system that the store makes. -/
def MadeBy (root : Path) : chunkCalls.Op → Prop
  | .file (.createDirAll p) => ∃ c, p.resolve = chunkDir root c
  | .file (.write p _) => IsFile root p.resolve
  | .file (.rename a b) => IsFile root a.resolve ∧ IsFile root b.resolve
  | _ => True

section Clean

variable {root : Path} {t t' : FileTree Bytes} {w w' : Disk} {k : ChunkKey}

theorem not_prefix_chunkDir {c c' : ContainerId} {x : String} :
    ¬chunkDir root c ++ [x] <+: chunkDir root c' := by
  intro h
  have hle := h.length_le
  simp [chunkDir, containerPlace] at hle

/-- What the store may have done to a tree. -/
theorem Clean.of_node (h : Clean root t) (hnode : ∀ p, t'.node p = t.node p ∨ t'.node p = none ∨
    (t'.node p = some .dir ∧ ∃ c, p <+: chunkDir root c) ∨
    ∃ data, t'.node p = some (.file data) ∧ IsFile root p) : Clean root t' := by
  refine ⟨fun c p hp => ?_, fun c x hdir => ?_⟩
  · rcases hnode p with hp' | hp' | ⟨hp', -⟩ | ⟨data, -, c', x, rfl⟩
    · rw [hp']
      exact h.dir c p hp
    · exact .inl hp'
    · exact .inr hp'
    · exact absurd hp not_prefix_chunkDir
  · rcases hnode (chunkDir root c ++ [x]) with hp' | hp' | ⟨-, c', hpre⟩ | ⟨data, hp', -⟩
    · exact h.file c x (hp'.symm.trans hdir)
    · rw [hp'] at hdir
      cases hdir
    · exact not_prefix_chunkDir hpre
    · rw [hp'] at hdir
      cases hdir

/-- **The calls of the store keep the disk clean.** -/
theorem Clean.answers {op : chunkCalls.Op} {r : chunkCalls.Res op} (hop : MadeBy root op)
    (h : Clean root w.tree) (ha : ChunkOp.Answers w op r w') : Clean root w'.tree := by
  have hmake : ∀ {t' : FileTree Bytes} {q : List String}, (∃ c, q <+: chunkDir root c) →
      w.tree.createDirAll q = some t' → Clean root t' := by
    rintro t' q ⟨c, hq⟩ hmake
    refine h.of_node fun p => ?_
    rw [FileTree.node_createDirAll hmake]
    split
    · next hp => exact .inr (.inr (.inl ⟨rfl, c, hp.trans hq⟩))
    · exact .inl rfl
  have hset : ∀ {t t' : FileTree Bytes} {q : List String} {data : Bytes}, Clean root t →
      IsFile root q → t'.node = Function.update t.node q (some (.file data)) → Clean root t' := by
    intro t t' q data ht hq hnode
    refine ht.of_node fun p => ?_
    rw [hnode, Function.update_apply]
    split
    · next hp => exact .inr (.inr (.inr ⟨data, rfl, hp ▸ hq⟩))
    · exact .inl rfl
  have hdrop : ∀ {t' : FileTree Bytes} {q : List String},
      t'.node = Function.update w.tree.node q none → Clean root t' := by
    intro t' q hnode
    refine h.of_node fun p => ?_
    rw [hnode, Function.update_apply]
    split
    · exact .inr (.inl rfl)
    · exact .inl rfl
  cases op with
  | tempSeq => exact ha.2 ▸ h
  | processId => exact ha.2 ▸ h
  | file op =>
    obtain ⟨t', ha, rfl⟩ := ha
    cases op with
    | createDirAll p =>
      obtain ⟨c, hc⟩ := hop
      rcases ha with ⟨-, ha⟩ | ⟨-, rfl | ⟨q, hq, ha⟩⟩
      · exact hmake ⟨c, hc ▸ List.prefix_refl _⟩ ha
      · exact h
      · exact hmake ⟨c, hc ▸ hq⟩ ha
    | write p data =>
      rcases ha with ⟨-, ha⟩ | ⟨-, rfl | ⟨_, ha⟩⟩
      · exact hset h hop (FileTree.node_write ha)
      · exact h
      · exact hset h hop (FileTree.node_write ha)
    | rename a b =>
      rcases ha with ⟨-, ha⟩ | ⟨-, rfl⟩
      · obtain ⟨data, -, t₁, h₁, h₂⟩ := FileTree.cases_rename ha
        exact hset (hdrop (FileTree.node_removeFile h₁)) hop.2 (FileTree.node_write h₂)
      · exact h
    | read p =>
      obtain ⟨rfl, -⟩ := ha
      exact h
    | removeFile p =>
      rcases ha with ⟨-, ha⟩ | ⟨-, -, rfl⟩ | ⟨-, rfl⟩
      · exact hdrop (FileTree.node_removeFile ha)
      · exact h
      · exact h
    | removeDirAll p =>
      rcases ha with ⟨-, ha⟩ | ⟨-, -, rfl⟩ | ⟨-, S, hS, -, rfl⟩
      · refine h.of_node fun p => ?_
        rw [FileTree.node_removeDirAll ha]
        split
        · exact .inr (.inl rfl)
        · exact .inl rfl
      · exact h
      · refine h.of_node fun p => ?_
        unfold FileTree.prune
        dsimp only
        split
        · exact .inr (.inl rfl)
        · exact .inl rfl

theorem isFile_chunkPath (k : ChunkKey) : IsFile root (chunkPath root k.block k.name).resolve :=
  ⟨_, _, resolve_chunkPath root k⟩

theorem makes_writeChunk (root : Path) (k : ChunkKey) (data : Bytes) :
    (writeChunk root k.block k.name data).Makes (MadeBy root) := by
  have htemp : ∀ pid seq, IsFile root (tempPath (chunkPath root k.block k.name) pid seq).resolve :=
    fun pid seq => ⟨_, _, resolve_tempPath root k pid seq⟩
  unfold writeChunk
  dsimp only
  rw [parent_chunkPath]
  refine ⟨⟨_, resolve_chunks root _⟩, fun r => ?_⟩
  cases r with
  | error e => trivial
  | ok _ =>
    refine ⟨trivial, fun seq => ⟨trivial, fun pid => ⟨htemp pid seq, fun r => ?_⟩⟩⟩
    cases r with
    | error e => trivial
    | ok _ =>
      refine ⟨⟨htemp pid seq, isFile_chunkPath k⟩, fun r => ?_⟩
      cases r with
      | error e => exact ⟨trivial, fun _ => trivial⟩
      | ok _ => trivial

end Clean

end FileChunkStore

open FileChunkStore

/-! ### Runs -/

/-- A call of the chunk store with what it returned and the failures of its calls on the file
system, or a restart of the process. -/
inductive ChunkCall where
  /-- `write_chunk`. -/
  | write (k : ChunkKey) (data : Bytes) (o : Outcome StorageError Unit) (faults : List FileError)
  /-- `read_chunk`. -/
  | read (k : ChunkKey) (o : Outcome StorageError Bytes) (faults : List FileError)
  /-- `delete_chunk`. -/
  | delete (k : ChunkKey) (o : Outcome StorageError Unit) (faults : List FileError)
  /-- `delete_container`. -/
  | deleteContainer (c : ContainerId) (o : Outcome StorageError Unit) (faults : List FileError)
  /-- The process starts again. -/
  | restart

/-- The steps of the store on disk, with plain names. -/
inductive ChunkStep (root : Path) (w : Disk) : ChunkCall → Disk → Prop where
  /-- `write_chunk`. -/
  | write {k : ChunkKey} {data : Bytes} {o : Outcome StorageError Unit} {faults : List FileError}
      {w' : Disk}
      (h : (writeChunk root k.block k.name data).Ends ChunkOp.Logged (w, []) o (w', faults)) :
      ChunkStep root w (.write k data o faults) w'
  /-- `read_chunk`. -/
  | read {k : ChunkKey} {o : Outcome StorageError Bytes} {faults : List FileError} {w' : Disk}
      (h : (readChunk root k.block k.name).Ends ChunkOp.Logged (w, []) o (w', faults)) :
      ChunkStep root w (.read k o faults) w'
  /-- `delete_chunk`. -/
  | delete {k : ChunkKey} {o : Outcome StorageError Unit} {faults : List FileError} {w' : Disk}
      (h : (deleteChunk root k.block k.name).Ends ChunkOp.Logged (w, []) o (w', faults)) :
      ChunkStep root w (.delete k o faults) w'
  /-- `delete_container`. -/
  | deleteContainer {c : ContainerId} {o : Outcome StorageError Unit} {faults : List FileError}
      {w' : Disk}
      (h : (FileChunkStore.deleteContainer root c).Ends ChunkOp.Logged (w, []) o (w', faults)) :
      ChunkStep root w (.deleteContainer c o faults) w'
  /-- The process starts again, with another id. -/
  | restart (pid : UInt32) : ChunkStep root w .restart ⟨w.tree, 0, pid⟩

/-- **What a chunk store is for**: a map. A call fails exactly if one of its calls on the file
system fails, with the first of these failures. It then changes nothing, except that a failed
deletion of a container may have removed some of its chunks. -/
inductive MapStep (M : ChunkKey → Option Bytes) : ChunkCall → (ChunkKey → Option Bytes) → Prop where
  /-- A chunk is written. -/
  | written {k : ChunkKey} {data : Bytes} {M' : ChunkKey → Option Bytes} (hk : M' k = some data)
      (hother : ∀ k', k' ≠ k → M' k' = M k') : MapStep M (.write k data (.ok ()) []) M'
  /-- A write fails. -/
  | writeFailed {k : ChunkKey} {data : Bytes} {e : FileError} {more : List FileError} :
      MapStep M (.write k data (.err (.ofFile e)) (e :: more)) M
  /-- A chunk is read. -/
  | found {k : ChunkKey} {data : Bytes} (hk : M k = some data) : MapStep M (.read k (.ok data) []) M
  /-- No chunk is found. -/
  | absent {k : ChunkKey} (hk : M k = none) :
      MapStep M (.read k (.err (.blockNotFound k.block)) []) M
  /-- A read fails. -/
  | readFailed {k : ChunkKey} {e : FileError} : MapStep M (.read k (.err (.ofFile e)) [e]) M
  /-- A chunk is deleted. -/
  | deleted {k : ChunkKey} {M' : ChunkKey → Option Bytes} (hk : M' k = none)
      (hother : ∀ k', k' ≠ k → M' k' = M k') : MapStep M (.delete k (.ok ()) []) M'
  /-- A deletion fails. -/
  | deleteFailed {k : ChunkKey} {e : FileError} : MapStep M (.delete k (.err (.ofFile e)) [e]) M
  /-- The chunks of a container are deleted. -/
  | containerDeleted {c : ContainerId} {M' : ChunkKey → Option Bytes}
      (hc : ∀ k, k.block.container = c → M' k = none)
      (hother : ∀ k, k.block.container ≠ c → M' k = M k) :
      MapStep M (.deleteContainer c (.ok ()) []) M'
  /-- The deletion of a container fails. -/
  | containerFailed {c : ContainerId} {e : FileError} {M' : ChunkKey → Option Bytes}
      (hc : ∀ k, k.block.container = c → M' k = none ∨ M' k = M k)
      (hother : ∀ k, k.block.container ≠ c → M' k = M k) :
      MapStep M (.deleteContainer c (.err (.ofFile e)) [e]) M'
  /-- The process starts again. -/
  | restart : MapStep M .restart M

section MapStep

variable {M M' : ChunkKey → Option Bytes} {k : ChunkKey} {faults : List FileError}

/-! What a step of the map is, call by call: -/

theorem MapStep.cases_write {data : Bytes} {o : Outcome StorageError Unit}
    (h : MapStep M (.write k data o faults) M') :
    (o = .ok () ∧ M' k = some data ∧ ∀ k', k' ≠ k → M' k' = M k') ∨
      (∃ e more, o = .err (.ofFile e) ∧ faults = e :: more) ∧ M' = M := by
  cases h with
  | written hk hother => exact .inl ⟨rfl, hk, hother⟩
  | writeFailed => exact .inr ⟨⟨_, _, rfl, rfl⟩, rfl⟩

theorem MapStep.cases_read {o : Outcome StorageError Bytes} (h : MapStep M (.read k o faults) M') :
    M' = M ∧ ((∃ data, o = .ok data ∧ M k = some data) ∨
      (o = .err (.blockNotFound k.block) ∧ M k = none) ∨
      ∃ e, o = .err (.ofFile e) ∧ faults = [e]) := by
  cases h with
  | found hk => exact ⟨rfl, .inl ⟨_, rfl, hk⟩⟩
  | absent hk => exact ⟨rfl, .inr (.inl ⟨rfl, hk⟩)⟩
  | readFailed => exact ⟨rfl, .inr (.inr ⟨_, rfl, rfl⟩)⟩

theorem MapStep.cases_delete {o : Outcome StorageError Unit}
    (h : MapStep M (.delete k o faults) M') :
    (o = .ok () ∧ M' k = none ∧ ∀ k', k' ≠ k → M' k' = M k') ∨
      (∃ e, o = .err (.ofFile e) ∧ faults = [e]) ∧ M' = M := by
  cases h with
  | deleted hk hother => exact .inl ⟨rfl, hk, hother⟩
  | deleteFailed => exact .inr ⟨⟨_, rfl, rfl⟩, rfl⟩

theorem MapStep.cases_deleteContainer {c : ContainerId} {o : Outcome StorageError Unit}
    (h : MapStep M (.deleteContainer c o faults) M') :
    (∀ k, k.block.container ≠ c → M' k = M k) ∧
      ((o = .ok () ∧ ∀ k, k.block.container = c → M' k = none) ∨
        (∃ e, o = .err (.ofFile e) ∧ faults = [e]) ∧
          ∀ k, k.block.container = c → M' k = none ∨ M' k = M k) := by
  cases h with
  | containerDeleted hc hother => exact ⟨hother, .inl ⟨rfl, hc⟩⟩
  | containerFailed hc hother => exact ⟨hother, .inr ⟨⟨_, rfl, rfl⟩, hc⟩⟩

end MapStep

/-- The files a call may change: those in the chunk directory of its container, and for the
deletion of a container all its files. -/
def ChunkCall.Owns (root : Path) : ChunkCall → List String → Prop
  | .write k _ _ _, q => chunkDir root k.block.container <+: q
  | .delete k _ _, q => chunkDir root k.block.container <+: q
  | .deleteContainer c _ _, q => containerPlace root c <+: q
  | .read _ _ _, _ => False
  | .restart, _ => False

section Runs

variable {root : Path} {w w' : Disk} {call : ChunkCall}

/-- A map that is the same at a key and elsewhere. -/
theorem stored_eq_of {k : ChunkKey} (hk : stored root w' k = stored root w k)
    (hother : ∀ k', k' ≠ k → stored root w' k' = stored root w k') :
    stored root w' = stored root w := by
  funext k'
  by_cases hk' : k' = k
  · rw [hk', hk]
  · exact hother k' hk'

/-- **One call**: on the map, and on the files. -/
theorem ChunkStep.mapStep (h : ChunkStep root w call w') :
    MapStep (stored root w) call (stored root w') := by
  cases h with
  | @write k data o faults w' h =>
    obtain ⟨hk, pid, seq, hframe⟩ := writeChunk_ends h
    have hother : ∀ k', k' ≠ k → stored root w' k' = stored root w k' := fun k' hne =>
      hframe _ (mt place_inj.mp hne) (place_ne_tempPlace k' k pid seq)
    rcases hk with ⟨⟨rfl, rfl⟩, hk⟩ | ⟨⟨e, more, rfl, rfl⟩, hk⟩
    · exact .written hk hother
    · rw [stored_eq_of hk hother]
      exact .writeFailed
  | @read k o faults w' h =>
    obtain ⟨htree, hcases⟩ := readChunk_ends h
    have hsame : stored root w' = stored root w := by
      funext k'
      rw [stored, stored, htree]
    rw [hsame]
    rcases hcases with ⟨data, ⟨rfl, rfl⟩, hk⟩ | ⟨⟨rfl, rfl⟩, hk⟩ | ⟨e, rfl, rfl⟩
    · exact .found hk
    · exact .absent hk
    · exact .readFailed
  | @delete k o faults w' h =>
    obtain ⟨hk, hframe⟩ := deleteChunk_ends h
    have hother : ∀ k', k' ≠ k → stored root w' k' = stored root w k' := fun k' hne =>
      hframe _ (mt place_inj.mp hne)
    rcases hk with ⟨⟨rfl, rfl⟩, hk⟩ | ⟨⟨e, rfl, rfl⟩, hk⟩
    · exact .deleted hk hother
    · rw [stored_eq_of hk hother]
      exact .deleteFailed
  | @deleteContainer c o faults w' h =>
    obtain ⟨hc, hframe⟩ := deleteContainer_ends h
    have hother : ∀ k : ChunkKey, k.block.container ≠ c → stored root w' k = stored root w k :=
      fun k hne => hframe _ (mt containerPlace_prefix_iff.mp hne)
    rcases hc with ⟨⟨rfl, rfl⟩, hc⟩ | ⟨⟨e, rfl, rfl⟩, hc⟩
    · exact .containerDeleted hc hother
    · exact .containerFailed (fun k _ => hc k) hother
  | restart pid => exact .restart

theorem ChunkStep.owns (h : ChunkStep root w call w') {q : List String} (hq : ¬call.Owns root q) :
    w'.tree.fileAt q = w.tree.fileAt q := by
  cases h with
  | @write k data o faults w' h =>
    obtain ⟨-, pid, seq, hframe⟩ := writeChunk_ends h
    refine hframe q (fun heq => hq ?_) (fun heq => hq ?_)
    · rw [heq]
      exact List.prefix_append _ _
    · rw [heq, resolve_tempPath]
      exact List.prefix_append _ _
  | read h => rw [(readChunk_ends h).1]
  | delete h =>
    refine (deleteChunk_ends h).2 q fun heq => hq ?_
    rw [heq]
    exact List.prefix_append _ _
  | deleteContainer h => exact (deleteContainer_ends h).2 q hq
  | restart pid => rfl

end Runs

section Clean

variable {root : Path} {w w' : Disk} {call : ChunkCall}

/-- **The store keeps its disk clean.** -/
theorem ChunkStep.clean (h : ChunkStep root w call w') (hw : Clean root w.tree) :
    Clean root w'.tree := by
  have hrun : ∀ {α : Type} {p : ChunkM α} {o : Outcome StorageError α} {faults : List FileError},
      p.Ends ChunkOp.Logged (w, []) o (w', faults) → p.Makes (MadeBy root) → Clean root w'.tree :=
    fun hend hp => Prog.Ends.of_makes (F := fun w => Clean root w.tree)
      (fun _ _ _ _ hop hF ha => hF.answers hop ha) hp hend.of_logged hw
  cases h with
  | write h => exact hrun h (makes_writeChunk root _ _)
  | read h => exact hrun h ⟨trivial, fun r => by rcases r with (_ | _) | _ <;> trivial⟩
  | delete h => exact hrun h ⟨trivial, fun r => by rcases r with (_ | _) | _ <;> trivial⟩
  | deleteContainer h => exact hrun h ⟨trivial, fun r => by rcases r with (_ | _) | _ <;> trivial⟩
  | restart pid => exact hw

end Clean

/-! ### Calls that succeed -/

namespace FileChunkStore

/-- **A write whose way is free can succeed**, whatever the name: no file is where a directory
is needed, and no directory where the file or the temporary file goes. -/
theorem writeChunk_succeeds {root : Path} {b : BlockId} {name : String} (data : Bytes) {w : Disk}
    (dir : Path) (x y : String) (hparent : (chunkPath root b name).parent = some dir)
    (hpath : (chunkPath root b name).resolve = dir.resolve ++ [y])
    (htemp : (tempPath (chunkPath root b name) w.pid w.tempSeq).resolve = dir.resolve ++ [x])
    (hmake : w.tree.CanMake dir.resolve) (hx : w.tree.node (dir.resolve ++ [x]) ≠ some .dir)
    (hy : w.tree.node (dir.resolve ++ [y]) ≠ some .dir) :
    ∃ t, (writeChunk root b name data).Ends ChunkOp.Logged (w, []) (.ok ())
        (⟨t, w.tempSeq + 1, w.pid⟩, []) ∧
      t.node = Function.update (Function.update (fun q =>
        if q <+: dir.resolve then some .dir else w.tree.node q) (dir.resolve ++ [x]) none)
        (dir.resolve ++ [y]) (some (.file data)) := by
  have hlong : ∀ z : String, ¬dir.resolve ++ [z] <+: dir.resolve := fun z h => by
    have hle := h.length_le
    simp at hle
  obtain ⟨t₁, h₁⟩ := FileTree.exists_createDirAll hmake
  have hnode₁ : t₁.node = fun q => if q <+: dir.resolve then some .dir else w.tree.node q :=
    funext fun q => FileTree.node_createDirAll h₁
  have hcan : t₁.CanWrite (dir.resolve ++ [x]) := by
    refine ⟨List.append_ne_nil_of_right_ne_nil _ (List.cons_ne_nil x []), ?_, ?_⟩
    · rw [List.dropLast_concat, hnode₁]
      exact if_pos (List.prefix_refl _)
    · rw [hnode₁]
      exact fun h => hx ((if_neg (hlong x)).symm.trans h)
  obtain ⟨t₂, h₂⟩ := FileTree.exists_write hcan data
  have htemp₂ : t₂.node (dir.resolve ++ [x]) = some (.file data) := by
    rw [FileTree.node_write h₂, Function.update_self]
  have hy₂ : t₂.node (dir.resolve ++ [y]) ≠ some .dir := by
    rw [FileTree.node_write h₂, hnode₁, Function.update_apply]
    split
    · simp
    · exact fun h => hy ((if_neg (hlong y)).symm.trans h)
  obtain ⟨t₃, h₃⟩ := FileTree.exists_rename htemp₂ hy₂
  refine ⟨t₃, ?_, ?_⟩
  · unfold writeChunk
    dsimp only
    rw [hparent]
    rw [← htemp] at h₂
    rw [← htemp, ← hpath] at h₃
    refine ends_onFile_bind.mpr ⟨.ok (), t₁, .inl ⟨rfl, h₁⟩, ?_⟩
    refine ends_tempSeq_bind.mpr (ends_processId_bind.mpr ?_)
    refine ends_onFile_bind.mpr ⟨.ok (), t₂, .inl ⟨rfl, h₂⟩, ?_⟩
    exact ends_onFile_bind.mpr ⟨.ok (), t₃, .inl ⟨rfl, h₃⟩, rfl, rfl⟩
  · rw [FileTree.node_rename htemp₂ h₃, FileTree.node_write h₂, Function.update_idem, hnode₁]

/-- A file at the place of a chunk can be read. -/
theorem readChunk_succeeds {root : Path} {b : BlockId} {name : String} {data : Bytes} {w : Disk}
    (h : w.tree.node (chunkPath root b name).resolve = some (.file data)) :
    (readChunk root b name).Ends ChunkOp.Logged (w, []) (.ok data) (w, []) :=
  ends_onFile_bind.mpr ⟨.ok data, w.tree, ⟨rfl, h⟩, rfl, rfl⟩

section Succeeds

variable {root : Path} {w : Disk}

/-- **On a clean disk every call can succeed.** -/
theorem Clean.exists_write (h : Clean root w.tree) (k : ChunkKey) (data : Bytes) :
    ∃ w', ChunkStep root w (.write k data (.ok ()) []) w' := by
  have hdir : (Path.join (containerDir root k.block.container) "chunks").resolve =
      chunkDir root k.block.container := resolve_chunks root _
  have hpath : (chunkPath root k.block k.name).resolve =
      (Path.join (containerDir root k.block.container) "chunks").resolve ++
        [fileOf k.block k.name] := by
    rw [hdir, resolve_chunkPath, place]
  obtain ⟨t, hwrite, -⟩ := writeChunk_succeeds data _
    (fileOf k.block (k.name ++ tempSuffix w.pid w.tempSeq)) _ (parent_chunkPath root k) hpath
    (by rw [hdir, resolve_tempPath])
    (fun p hp => h.dir k.block.container p (hdir ▸ (List.mem_inits _ _).mp hp))
    (by rw [hdir]; exact h.file _ _) (by rw [hdir]; exact h.file _ _)
  exact ⟨_, .write hwrite⟩

theorem Clean.node_place (h : Clean root w.tree) (k : ChunkKey) :
    w.tree.node (place root k) = none ∨ ∃ data, w.tree.node (place root k) = some (.file data) := by
  have hfile := h.file k.block.container (fileOf k.block k.name)
  rcases hnode : w.tree.node (place root k) with _ | _ | data
  · exact .inl rfl
  · exact absurd hnode hfile
  · exact .inr ⟨data, rfl⟩

theorem found_of_stored {k : ChunkKey} {data : Bytes} (hk : stored root w k = some data) :
    ChunkStep root w (.read k (.ok data) []) w := by
  refine .read (readChunk_succeeds ?_)
  rw [resolve_chunkPath]
  exact FileTree.fileAt_eq_some.mp hk

theorem Clean.absent_of_stored (h : Clean root w.tree) {k : ChunkKey}
    (hk : stored root w k = none) :
    ChunkStep root w (.read k (.err (.blockNotFound k.block)) []) w := by
  rcases h.node_place k with hnode | ⟨data, hnode⟩
  · rw [← resolve_chunkPath] at hnode
    exact .read (ends_onFile_bind.mpr ⟨.error .notFound, w.tree, ⟨rfl, hnode⟩, rfl, rfl⟩)
  · rw [stored, FileTree.fileAt_eq_some.mpr hnode] at hk
    cases hk

theorem Clean.exists_delete (h : Clean root w.tree) (k : ChunkKey) :
    ∃ w', ChunkStep root w (.delete k (.ok ()) []) w' := by
  rcases h.node_place k with hnode | ⟨data, hnode⟩
  · rw [← resolve_chunkPath] at hnode
    exact ⟨w, .delete (ends_onFile_bind.mpr
      ⟨.error .notFound, w.tree, .inr (.inl ⟨rfl, hnode, rfl⟩), rfl, rfl⟩)⟩
  · rw [← resolve_chunkPath] at hnode
    obtain ⟨t, hremove⟩ := FileTree.exists_removeFile hnode
    exact ⟨_, .delete (ends_onFile_bind.mpr ⟨.ok (), t, .inl ⟨rfl, hremove⟩, rfl, rfl⟩)⟩

theorem Clean.exists_deleteContainer (h : Clean root w.tree) (c : ContainerId) :
    ∃ w', ChunkStep root w (.deleteContainer c (.ok ()) []) w' := by
  rcases h.dir c (containerDir root c).resolve (by
      rw [resolve_containerDir]
      exact List.prefix_append _ _) with hnode | hnode
  · exact ⟨w, .deleteContainer (ends_onFile_bind.mpr
      ⟨.error .notFound, w.tree, .inr (.inl ⟨rfl, hnode, rfl⟩), rfl, rfl⟩)⟩
  · exact ⟨_, .deleteContainer (ends_onFile_bind.mpr
      ⟨.ok (), _, .inl ⟨rfl, if_pos hnode⟩, rfl, rfl⟩)⟩

end Succeeds

end FileChunkStore

/-! ### The store as a map -/

/-- **With plain names the chunk store is a map**, and a run changes no file that does not
belong to one of its calls. -/
theorem fileChunkStore_isMap {root : Path} {w₀ w : Disk} {log : List ChunkCall}
    (h : Trace (ChunkStep root) w₀ log w) :
    Trace MapStep (stored root w₀) log (stored root w) ∧
      ∀ q, w.tree.fileAt q ≠ w₀.tree.fileAt q → ∃ call ∈ log, call.Owns root q := by
  constructor
  · have hsim : Trace MapStep (stored root w₀) (log.filterMap some) (stored root w) :=
      Trace.simulate (f := stored root) (g := some) (fun _ _ _ hs => hs.mapStep) h
    rwa [List.filterMap_some] at hsim
  · refine h.invariant (fun log w => ∀ q, w.tree.fileAt q ≠ w₀.tree.fileAt q →
      ∃ call ∈ log, call.Owns root q) (fun q hq => absurd rfl hq) ?_
    intro log w call w' ih hs q hq
    by_cases hown : call.Owns root q
    · exact ⟨call, by simp, hown⟩
    · rw [hs.owns hown] at hq
      obtain ⟨call', hmem, hown'⟩ := ih q hq
      exact ⟨call', List.mem_append_left _ hmem, hown'⟩

theorem clean_empty (root : Path) : Clean root FileTree.empty := by
  refine ⟨fun c p _ => ?_, fun c x h => ?_⟩
  · by_cases hp : p = []
    · exact .inr (if_pos hp)
    · exact .inl (if_neg hp)
  · rw [FileTree.empty] at h
    dsimp only at h
    rw [if_neg (List.append_ne_nil_of_right_ne_nil _ (List.cons_ne_nil x []))] at h
    cases h

/-- A store under `/data`. -/
def dataRoot : Path := [.normal "data"]

/-- An empty disk. -/
def emptyDisk : Disk := ⟨FileTree.empty, 0, 1⟩

theorem plainName_zero : PlainName "0" where
  slash := by decide
  temp base pid seq h := by
    have hdot : '.' ∈ (base ++ tempSuffix pid seq).toList := by simp [tempSuffix]
    rw [← h] at hdot
    revert hdot
    decide

/-- The chunk of a block that is written in one piece. -/
def onlyChunk (c : ContainerId) (l : LocalId) : ChunkKey := ⟨⟨c, l, 1⟩, "0", plainName_zero⟩

/-- Chunks of two containers are written, one of them is deleted, and so is one of the
containers. -/
def twoContainers : List ChunkCall :=
  [.write (onlyChunk 1 1) [5] (.ok ()) [], .write (onlyChunk 2 1) [6] (.ok ()) [],
    .write (onlyChunk 2 2) [7] (.ok ()) [], .delete (onlyChunk 2 1) (.ok ()) [],
    .deleteContainer 1 (.ok ()) [], .read (onlyChunk 2 2) (.ok [7]) [],
    .read (onlyChunk 1 1) (.err (.blockNotFound ⟨1, 1, 1⟩)) []]

theorem fileChunkStore_isMap_twoContainers : ∃ w,
    Trace (ChunkStep dataRoot) emptyDisk twoContainers w ∧
    Trace MapStep (stored dataRoot emptyDisk) twoContainers (stored dataRoot w) ∧
    (∀ q, w.tree.fileAt q ≠ emptyDisk.tree.fileAt q →
      ∃ call ∈ twoContainers, call.Owns dataRoot q) ∧
    stored dataRoot w (onlyChunk 2 2) = some [7] ∧ stored dataRoot w (onlyChunk 2 1) = none ∧
      stored dataRoot w (onlyChunk 1 1) = none := by
  have hclean : Clean dataRoot emptyDisk.tree := clean_empty dataRoot
  obtain ⟨w₁, s₁⟩ := hclean.exists_write (onlyChunk 1 1) [5]
  have hclean := s₁.clean hclean
  obtain ⟨w₂, s₂⟩ := hclean.exists_write (onlyChunk 2 1) [6]
  have hclean := s₂.clean hclean
  obtain ⟨w₃, s₃⟩ := hclean.exists_write (onlyChunk 2 2) [7]
  have hclean := s₃.clean hclean
  obtain ⟨w₄, s₄⟩ := hclean.exists_delete (onlyChunk 2 1)
  have hclean := s₄.clean hclean
  obtain ⟨w₅, s₅⟩ := hclean.exists_deleteContainer 1
  have hclean := s₅.clean hclean
  have hne : onlyChunk 2 2 ≠ onlyChunk 2 1 := fun h => by
    have hid := congrArg (fun k => k.block.localId) h
    revert hid
    decide
  obtain ⟨h₂₂, h₂₁, h₁₁⟩ : stored dataRoot w₅ (onlyChunk 2 2) = some [7] ∧
      stored dataRoot w₅ (onlyChunk 2 1) = none ∧ stored dataRoot w₅ (onlyChunk 1 1) = none := by
    cases s₃.mapStep with | written h₃ _
    cases s₄.mapStep with | deleted h₄ hother₄
    cases s₅.mapStep with | containerDeleted h₅ hother₅
    refine ⟨?_, ?_, h₅ _ rfl⟩
    · rw [hother₅ _ (by decide), hother₄ _ hne, h₃]
    · rw [hother₅ _ (by decide), h₄]
  have s₆ := found_of_stored h₂₂
  have s₇ := hclean.absent_of_stored h₁₁
  have htrace : Trace (ChunkStep dataRoot) emptyDisk twoContainers w₅ :=
    .cons s₁ (.cons s₂ (.cons s₃ (.cons s₄ (.cons s₅ (.cons s₆ (.cons s₇ .nil))))))
  obtain ⟨hmap, hown⟩ := fileChunkStore_isMap htrace
  exact ⟨w₅, htrace, hmap, hown, h₂₂, h₂₁, h₁₁⟩

/-- The first write to container 2, on an empty disk. -/
theorem exists_write_two : ∃ t,
    (writeChunk dataRoot ⟨2, 1, 1⟩ "0" [5]).Ends ChunkOp.Logged (emptyDisk, []) (.ok ())
      (⟨t, 1, 1⟩, []) ∧
      t.node = Function.update (Function.update (fun q =>
        if q <+: ["data", "2", "chunks"] then some .dir else FileTree.empty.node q)
        ["data", "2", "chunks", "1_1_0.tmp.1.0"] none)
        ["data", "2", "chunks", "1_1_0"] (some (.file [5])) :=
  writeChunk_succeeds [5] [.normal "data", .normal "2", .normal "chunks"]
    "1_1_0.tmp.1.0" "1_1_0" (by decide) (by decide) (by decide) (by decide)
    (by decide) (by decide)

/-- **With a slash in its name a chunk escapes its container**: a write to a chunk of
container 1 replaces a chunk of container 2. -/
theorem chunk_escapes : ∃ w₁ w₂,
    (writeChunk dataRoot ⟨2, 1, 1⟩ "0" [5]).Ends ChunkOp.Answers emptyDisk (.ok ()) w₁ ∧
    (readChunk dataRoot ⟨2, 1, 1⟩ "0").Ends ChunkOp.Answers w₁ (.ok [5]) w₁ ∧
    (writeChunk dataRoot ⟨1, 1, 1⟩ "/../../../2/chunks/1_1_0" [6]).Ends ChunkOp.Answers
      w₁ (.ok ()) w₂ ∧
    (readChunk dataRoot ⟨2, 1, 1⟩ "0").Ends ChunkOp.Answers w₂ (.ok [6]) w₂ := by
  obtain ⟨t, hwrite, hnode⟩ := exists_write_two
  -- the parent of the path still has its `..`, so it is in container 2
  have hescape : ∃ t', (writeChunk dataRoot ⟨1, 1, 1⟩ "/../../../2/chunks/1_1_0" [6]).Ends
      ChunkOp.Answers ⟨t, 1, 1⟩ (.ok ()) ⟨t', 2, 1⟩ ∧
      t'.node ["data", "2", "chunks", "1_1_0"] = some (.file [6]) := by
    obtain ⟨t', hwrite', hnode'⟩ := writeChunk_succeeds [6] (w := ⟨t, 1, 1⟩)
      (Path.join dataRoot "1/chunks/1_1_/../../../2/chunks") "1_1_0.tmp.1.1" "1_1_0"
      (show (chunkPath dataRoot ⟨1, 1, 1⟩ "/../../../2/chunks/1_1_0").parent = _ by decide)
      (by decide) (show Path.resolve (tempPath _ 1 1) = _ by decide)
      (by unfold FileTree.CanMake; rw [hnode]; decide) (by rw [hnode]; decide)
      (by rw [hnode]; decide)
    exact ⟨t', hwrite'.of_logged, hnode' ▸ Function.update_self _ _ _⟩
  obtain ⟨t', hwrite', hplace'⟩ := hescape
  refine ⟨⟨t, 1, 1⟩, ⟨t', 2, 1⟩, hwrite.of_logged, (readChunk_succeeds ?_).of_logged, hwrite',
    (readChunk_succeeds ?_).of_logged⟩
  · show t.node ["data", "2", "chunks", "1_1_0"] = _
    rw [hnode, Function.update_self]
  · exact hplace'

end OzoneRust
