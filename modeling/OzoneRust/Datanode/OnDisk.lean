import OzoneRust.Datanode.Stores
import OzoneRust.Storage.ChunkMap

/-!
# The stores of a datanode, with the chunks on disk

`OzoneRust.StoreOp.exec` has the chunks in a map, for every name. On disk they are files, and
`FileChunkStore` is a map for plain names only (`OzoneRust.PlainName`). Here a datanode has its
metadata and a disk (`OzoneRust.DiskNode`), and a call on the chunk store runs the program of
the file store to its end (`OzoneRust.StoreOp.OnDisk`).

With plain names the two fit: what a call answers on disk it can answer on the map
(`OzoneRust.StoreOp.OnDisk.answers`), it fails there only if it fails here, and on a disk of its
own the file store can do whatever the map does (`OzoneRust.DiskNode.Shows.exists_onDisk`). So
what is proved over the map, for all runs of programs with plain names, holds on disk
(`OzoneRust.Prog.Ends.onDisk`, and for threads side by side `OzoneRust.Pool.Step.onDisk`), and
what can happen over the map can happen on disk (`OzoneRust.Prog.Ends.realized`,
`OzoneRust.Pool.Step.realized`).
-/

namespace OzoneRust

open FileChunkStore

/-- The stores of a datanode: its metadata, and the disk with the chunks. -/
structure DiskNode where
  /-- The metadata. -/
  store : MetaStore
  /-- The disk. -/
  disk : Disk

/-- The chunk names in a call are plain. -/
def StoreOp.Plain : StoreOp → Prop
  | .readChunk _ name => PlainName name
  | .writeChunk _ name _ => PlainName name
  | .deleteChunk _ name => PlainName name
  | _ => True

/-- A call on the chunk store: its program runs to its end. It fails by itself if a call on the
file system does, and only the calls in `may` may do so. -/
def DiskNode.Runs {α : Type} (may : Prop) (n : DiskNode) (p : ChunkM α) (r : Except StorageError α)
    (n' : DiskNode) : Prop :=
  n'.store = n.store ∧ ∃ faults, p.Ends ChunkOp.Logged (n.disk, []) (.ofExcept id r)
    (n'.disk, faults) ∧ (faults ≠ [] → may)

/-- What a call can answer, and what it leaves, if the calls in `may` may fail. -/
def StoreOp.OnDisk (root : Path) (may : StoreOp → Prop) (n : DiskNode) :
    (op : StoreOp) → Except StorageError op.Val → DiskNode → Prop
  | .readChunk b name, r, n' =>
    n.Runs (may (.readChunk b name)) (FileChunkStore.readChunk root b name) r n'
  | .writeChunk b name data, r, n' =>
    n.Runs (may (.writeChunk b name data)) (FileChunkStore.writeChunk root b name data) r n'
  | .deleteChunk b name, r, n' =>
    n.Runs (may (.deleteChunk b name)) (FileChunkStore.deleteChunk root b name) r n'
  | .deleteChunks id, r, n' =>
    n.Runs (may (.deleteChunks id)) (FileChunkStore.deleteContainer root id) r n'
  -- the metadata, where no chunks matter
  | op, r, n' => n'.disk = n.disk ∧
    op.Answers may ⟨n.store, fun _ _ => none⟩ r ⟨n'.store, fun _ _ => none⟩

/-- **The datanode stands for stores with a map**: the same metadata, and the chunks with plain
names. -/
structure DiskNode.Shows (root : Path) (n : DiskNode) (t : Target) : Prop where
  /-- The metadata. -/
  store : t.store = n.store
  /-- The chunks. -/
  chunk : ∀ k : ChunkKey, t.chunks k.block k.name = stored root n.disk k
  /-- There are no others. -/
  plain : ∀ b name, t.chunks b name ≠ none → PlainName name

open Classical in
/-- The stores it stands for. -/
noncomputable def DiskNode.target (root : Path) (n : DiskNode) : Target :=
  ⟨n.store, fun b name => if h : PlainName name then stored root n.disk ⟨b, name, h⟩ else none⟩

theorem DiskNode.shows_target (root : Path) (n : DiskNode) : n.Shows root (n.target root) := by
  refine ⟨rfl, fun k => dif_pos k.plain, fun b name h => ?_⟩
  by_contra hname
  exact h (dif_neg hname)

theorem DiskNode.Shows.eq_target {root : Path} {n : DiskNode} {t : Target} (h : n.Shows root t) :
    t = n.target root := by
  obtain ⟨store, chunks⟩ := t
  obtain rfl : store = n.store := h.store
  refine congrArg (Target.mk n.store) (funext fun b => funext fun name => ?_)
  have htarget := n.shows_target root
  by_cases hname : PlainName name
  · exact (h.chunk ⟨b, name, hname⟩).trans (htarget.chunk ⟨b, name, hname⟩).symm
  · have hnone : chunks b name = none := by_contra fun hne => hname (h.plain b name hne)
    have hnone' : (n.target root).chunks b name = none :=
      by_contra fun hne => hname (htarget.plain b name hne)
    exact hnone.trans hnone'.symm

/-! ### One call -/

section Call

variable {root : Path} {may : StoreOp → Prop} {n n' : DiskNode} {t t' : Target} {op : StoreOp}
  {r : Except StorageError op.Val}

/-- A call that is about the metadata. -/
def StoreOp.OnMeta : StoreOp → Prop
  | .readChunk _ _ => False
  | .writeChunk _ _ _ => False
  | .deleteChunk _ _ => False
  | .deleteChunks _ => False
  | _ => True

theorem StoreOp.OnMeta.onDisk (hop : op.OnMeta) : op.OnDisk root may n r n' ↔ n'.disk = n.disk ∧
    op.Answers may ⟨n.store, fun _ _ => none⟩ r ⟨n'.store, fun _ _ => none⟩ := by
  cases op <;> first | exact hop.elim | exact Iff.rfl

theorem StoreOp.OnMeta.leaves (hop : op.OnMeta) : op.Leaves t t' ↔ t' = t := by
  cases op <;> first | exact hop.elim | exact Iff.rfl

/-- What a call on the metadata does has nothing to do with the chunks. -/
theorem StoreOp.OnMeta.exec_eq (hop : op.OnMeta) (store : MetaStore)
    (chunks chunks' : BlockId → String → Option Bytes) :
    (op.exec ⟨store, chunks⟩).1 = (op.exec ⟨store, chunks'⟩).1 ∧
      (op.exec ⟨store, chunks⟩).2 = ⟨(op.exec ⟨store, chunks'⟩).2.store, chunks⟩ := by
  have honMeta : ∀ {α : Type} (x : Except StorageError (α × MetaStore)),
      (Target.onMeta ⟨store, chunks⟩ x).1 = (Target.onMeta ⟨store, chunks'⟩ x).1 ∧
        (Target.onMeta ⟨store, chunks⟩ x).2 =
          ⟨(Target.onMeta ⟨store, chunks'⟩ x).2.store, chunks⟩ := by
    rintro α (e | ⟨a, store'⟩) <;> exact ⟨rfl, rfl⟩
  cases op with
  | readChunk b name => exact hop.elim
  | writeChunk b name data => exact hop.elim
  | deleteChunk b name => exact hop.elim
  | deleteChunks id => exact hop.elim
  | createContainer info => exact honMeta _
  | setContainerState id state => exact honMeta _
  | deleteContainer id => exact honMeta _
  | putBlock block => exact honMeta _
  | deleteBlock b => exact honMeta _
  | getContainer id => exact ⟨rfl, rfl⟩
  | listContainers => exact ⟨rfl, rfl⟩
  | getBlock b => exact ⟨rfl, rfl⟩
  | listBlocks id start limit => exact ⟨rfl, rfl⟩

/-- The metadata has changed, and the disk has not. -/
theorem DiskNode.Shows.of_meta (hR : n.Shows root t) (hdisk : n'.disk = n.disk) :
    n'.Shows root ⟨n'.store, t.chunks⟩ :=
  ⟨rfl, fun k => by rw [hR.chunk k, hdisk], hR.plain⟩

/-- The disk has changed, and the metadata has not. -/
theorem DiskNode.Shows.of_disk (hR : n.Shows root t) (hstore : n'.store = n.store)
    (chunks : BlockId → String → Option Bytes)
    (hchunk : ∀ k : ChunkKey, chunks k.block k.name = stored root n'.disk k)
    (hplain : ∀ b name, chunks b name ≠ none → PlainName name) :
    n'.Shows root { t with chunks := chunks } :=
  ⟨hR.store.trans hstore.symm, hchunk, hplain⟩

/-- The chunks have not changed. -/
theorem DiskNode.Shows.of_stored (hR : n.Shows root t) (hstore : n'.store = n.store)
    (hsame : stored root n'.disk = stored root n.disk) : n'.Shows root t :=
  hR.of_disk hstore t.chunks (fun k => by rw [hR.chunk k, hsame]) hR.plain

/-- One chunk is set, or removed. -/
theorem DiskNode.Shows.setChunk (hR : n.Shows root t) (hstore : n'.store = n.store) {k : ChunkKey}
    {data : Option Bytes} (hk : stored root n'.disk k = data)
    (hother : ∀ k', k' ≠ k → stored root n'.disk k' = stored root n.disk k') :
    n'.Shows root (t.setChunk k.block k.name data) := by
  refine hR.of_disk hstore (t.holdings.setChunk k.block k.name data).chunk (fun k' => ?_)
    fun b name h => ?_
  · by_cases hne : k' = k
    · rw [hne, Holdings.chunk_setChunk_self, hk]
    · rw [Holdings.chunk_setChunk_of_ne (mt ChunkKey.ext_iff.mpr hne), hother k' hne]
      exact hR.chunk k'
  · by_cases hsame : b = k.block ∧ name = k.name
    · exact hsame.2 ▸ k.plain
    · rw [Holdings.chunk_setChunk_of_ne hsame] at h
      exact hR.plain b name h

/-- The chunks of a container are gone. -/
theorem DiskNode.Shows.deleteChunks (hR : n.Shows root t) (hstore : n'.store = n.store)
    {id : ContainerId} (hin : ∀ k : ChunkKey, k.block.container = id → stored root n'.disk k = none)
    (hother : ∀ k : ChunkKey, k.block.container ≠ id →
      stored root n'.disk k = stored root n.disk k) : n'.Shows root (t.deleteChunks id) := by
  refine hR.of_disk hstore _ (fun k => ?_) fun b name h => ?_
  · by_cases hk : k.block.container = id
    · rw [if_pos hk, hin k hk]
    · rw [if_neg hk, hother k hk, hR.chunk k]
  · by_cases hb : b.container = id
    · rw [if_pos hb] at h
      exact absurd rfl h
    · rw [if_neg hb] at h
      exact hR.plain b name h

/-- The chunks of a container are gone, or some of them. -/
theorem DiskNode.Shows.exists_reduced (hR : n.Shows root t) {id : ContainerId}
    (hstore : n'.store = n.store)
    (hin : ∀ k : ChunkKey, k.block.container = id →
      stored root n'.disk k = none ∨ stored root n'.disk k = stored root n.disk k)
    (hother : ∀ k : ChunkKey, k.block.container ≠ id →
      stored root n'.disk k = stored root n.disk k) :
    ∃ t', (StoreOp.deleteChunks id).Leaves t t' ∧ n'.Shows root t' := by
  have htarget := n'.shows_target root
  refine ⟨n'.target root, ⟨hstore.trans hR.store.symm, fun b name => ?_⟩, htarget⟩
  by_cases hname : PlainName name
  · rw [show t.chunks b name = _ from hR.chunk ⟨b, name, hname⟩,
      show (n'.target root).chunks b name = _ from htarget.chunk ⟨b, name, hname⟩]
    by_cases hb : b.container = id
    · rcases hin ⟨b, name, hname⟩ hb with hnone | hsame
      · exact .inr ⟨hb, hnone⟩
      · exact .inl hsame
    · exact .inl (hother ⟨b, name, hname⟩ hb)
  · have hnone : t.chunks b name = none := by_contra fun hne => hname (hR.plain b name hne)
    have hnone' : (n'.target root).chunks b name = none :=
      by_contra fun hne => hname (htarget.plain b name hne)
    exact .inl (hnone'.trans hnone.symm)

/-- **What a call answers on disk, it can answer on the map.** -/
theorem StoreOp.OnDisk.answers (hop : op.Plain) (h : op.OnDisk root may n r n')
    (hR : n.Shows root t) : ∃ t', op.Answers may t r t' ∧ n'.Shows root t' := by
  by_cases hmeta : op.OnMeta
  · obtain ⟨hdisk, hans⟩ := hmeta.onDisk.mp h
    refine ⟨⟨n'.store, t.chunks⟩, ?_, hR.of_meta hdisk⟩
    obtain ⟨hr, ht⟩ := hmeta.exec_eq n.store t.chunks fun _ _ => none
    have htarget : t = ⟨n.store, t.chunks⟩ := by rw [← hR.store]
    rcases hans with ⟨rfl, ht'⟩ | ⟨hmay, herr, hleaves⟩
    · refine .inl ?_
      rw [htarget, hr, ht, ← ht']
      exact ⟨rfl, rfl⟩
    · refine .inr ⟨hmay, herr, hmeta.leaves.mpr ?_⟩
      rw [htarget, (Target.mk.inj (hmeta.leaves.mp hleaves)).1]
  · cases op with
    | readChunk b name =>
      obtain ⟨hstore, faults, hend, hmay⟩ := h
      obtain ⟨hM, hcases⟩ := (ChunkStep.read (k := ⟨b, name, hop⟩) hend).mapStep.cases_read
      have hk : t.chunks b name = _ := hR.chunk ⟨b, name, hop⟩
      refine ⟨t, ?_, hR.of_stored hstore hM⟩
      rcases hcases with ⟨data, ho, hdata⟩ | ⟨ho, hnone⟩ | ⟨e, ho, rfl⟩
      · refine .inl ?_
        rw [StoreOp.exec, hk, hdata]
        exact ⟨Outcome.eq_ok_of_ofExcept ho, rfl⟩
      · refine .inl ?_
        rw [StoreOp.exec, hk, hnone]
        exact ⟨Outcome.eq_error_of_ofExcept ho, rfl⟩
      · exact .inr ⟨hmay (List.cons_ne_nil _ _), ⟨_, Outcome.eq_error_of_ofExcept ho⟩, rfl⟩
    | writeChunk b name data =>
      obtain ⟨hstore, faults, hend, hmay⟩ := h
      rcases (ChunkStep.write (k := ⟨b, name, hop⟩) hend).mapStep.cases_write with
        ⟨ho, hk, hother⟩ | ⟨⟨e, more, ho, rfl⟩, hM⟩
      · exact ⟨_, .inl ⟨Outcome.eq_ok_of_ofExcept ho, rfl⟩, hR.setChunk hstore hk hother⟩
      · exact ⟨t, .inr ⟨hmay (List.cons_ne_nil _ _), ⟨_, Outcome.eq_error_of_ofExcept ho⟩, rfl⟩,
          hR.of_stored hstore hM⟩
    | deleteChunk b name =>
      obtain ⟨hstore, faults, hend, hmay⟩ := h
      rcases (ChunkStep.delete (k := ⟨b, name, hop⟩) hend).mapStep.cases_delete with
        ⟨ho, hk, hother⟩ | ⟨⟨e, ho, rfl⟩, hM⟩
      · exact ⟨_, .inl ⟨Outcome.eq_ok_of_ofExcept ho, rfl⟩, hR.setChunk hstore hk hother⟩
      · exact ⟨t, .inr ⟨hmay (List.cons_ne_nil _ _), ⟨_, Outcome.eq_error_of_ofExcept ho⟩, rfl⟩,
          hR.of_stored hstore hM⟩
    | deleteChunks id =>
      obtain ⟨hstore, faults, hend, hmay⟩ := h
      obtain ⟨hother, hcases⟩ := (ChunkStep.deleteContainer hend).mapStep.cases_deleteContainer
      rcases hcases with ⟨ho, hc⟩ | ⟨⟨e, ho, rfl⟩, hc⟩
      · exact ⟨_, .inl ⟨Outcome.eq_ok_of_ofExcept ho, rfl⟩, hR.deleteChunks hstore hc hother⟩
      · obtain ⟨t', hleaves, hR'⟩ := hR.exists_reduced hstore hc hother
        exact ⟨t', .inr ⟨hmay (List.cons_ne_nil _ _), ⟨_, Outcome.eq_error_of_ofExcept ho⟩,
          hleaves⟩, hR'⟩
    | _ => exact absurd trivial hmeta

theorem DiskNode.Runs.mono {α : Type} {p : ChunkM α} {x : Except StorageError α} {m m' : Prop}
    (himp : m → m') (h : n.Runs m p x n') : n.Runs m' p x n' :=
  let ⟨hstore, faults, hend, hmay⟩ := h
  ⟨hstore, faults, hend, himp ∘ hmay⟩

theorem StoreOp.OnDisk.mono {may' : StoreOp → Prop} (himp : ∀ op, may op → may' op)
    (h : op.OnDisk root may n r n') : op.OnDisk root may' n r n' := by
  cases op with
  | readChunk b name => exact DiskNode.Runs.mono (himp _) h
  | writeChunk b name data => exact DiskNode.Runs.mono (himp _) h
  | deleteChunk b name => exact DiskNode.Runs.mono (himp _) h
  | deleteChunks id => exact DiskNode.Runs.mono (himp _) h
  | _ => exact ⟨h.1, h.2.mono himp⟩

/-- **The calls keep the disk clean.** -/
theorem StoreOp.OnDisk.clean (hop : op.Plain) (h : op.OnDisk root may n r n')
    (hclean : Clean root n.disk.tree) : Clean root n'.disk.tree := by
  cases op with
  | readChunk b name =>
    obtain ⟨-, faults, hend, -⟩ := h
    exact (ChunkStep.read (k := ⟨b, name, hop⟩) hend).clean hclean
  | writeChunk b name data =>
    obtain ⟨-, faults, hend, -⟩ := h
    exact (ChunkStep.write (k := ⟨b, name, hop⟩) hend).clean hclean
  | deleteChunk b name =>
    obtain ⟨-, faults, hend, -⟩ := h
    exact (ChunkStep.delete (k := ⟨b, name, hop⟩) hend).clean hclean
  | deleteChunks id =>
    obtain ⟨-, faults, hend, -⟩ := h
    exact (ChunkStep.deleteContainer hend).clean hclean
  | _ => exact h.1 ▸ hclean

/-- On a disk of its own no call has to fail. -/
theorem StoreOp.exists_onDisk_never (hop : op.Plain) (hclean : Clean root n.disk.tree) :
    ∃ r n', op.OnDisk root StoreOp.never n r n' ∧ Clean root n'.disk.tree := by
  by_cases hmeta : op.OnMeta
  · refine ⟨_, ⟨(op.exec ⟨n.store, fun _ _ => none⟩).2.store, n.disk⟩,
      hmeta.onDisk.mpr ⟨rfl, .inl ⟨rfl, ?_⟩⟩, hclean⟩
    exact (hmeta.exec_eq n.store (fun _ _ => none) fun _ _ => none).2.symm
  · cases op with
    | readChunk b name =>
      cases hdata : stored root n.disk ⟨b, name, hop⟩ with
      | some data =>
        cases found_of_stored hdata with | read hend
        exact ⟨.ok data, n, ⟨rfl, [], hend, absurd rfl⟩, hclean⟩
      | none =>
        cases hclean.absent_of_stored hdata with | read hend
        exact ⟨.error (.blockNotFound b), n, ⟨rfl, [], hend, absurd rfl⟩, hclean⟩
    | writeChunk b name data =>
      obtain ⟨w', hstep⟩ := hclean.exists_write ⟨b, name, hop⟩ data
      have hclean' := hstep.clean hclean
      cases hstep with | write hend
      exact ⟨.ok (), ⟨n.store, w'⟩, ⟨rfl, [], hend, absurd rfl⟩, hclean'⟩
    | deleteChunk b name =>
      obtain ⟨w', hstep⟩ := hclean.exists_delete ⟨b, name, hop⟩
      have hclean' := hstep.clean hclean
      cases hstep with | delete hend
      exact ⟨.ok (), ⟨n.store, w'⟩, ⟨rfl, [], hend, absurd rfl⟩, hclean'⟩
    | deleteChunks id =>
      obtain ⟨w', hstep⟩ := hclean.exists_deleteContainer id
      have hclean' := hstep.clean hclean
      cases hstep with | deleteContainer hend
      exact ⟨.ok (), ⟨n.store, w'⟩, ⟨rfl, [], hend, absurd rfl⟩, hclean'⟩
    | _ => exact absurd trivial hmeta

/-- **What a call does on the map, it can do on a disk of its own**, unless it is a failure of the
chunk store. -/
theorem DiskNode.Shows.exists_onDisk {may' : StoreOp → Prop} (hop : op.Plain)
    (hclean : Clean root n.disk.tree) (hR : n.Shows root t)
    (hmay : may op → op.OnMeta ∧ may' op) (ha : op.Answers may t r t') :
    ∃ n', op.OnDisk root may' n r n' ∧ n'.Shows root t' ∧ Clean root n'.disk.tree := by
  rcases ha with ⟨rfl, rfl⟩ | ⟨hfails, herr, hleaves⟩
  · obtain ⟨r, n', hdisk, hclean'⟩ := StoreOp.exists_onDisk_never hop hclean
    obtain ⟨t', hans, hR'⟩ := hdisk.answers hop hR
    obtain ⟨rfl, rfl⟩ := StoreOp.answers_never.mp hans
    exact ⟨n', hdisk.mono fun _ => False.elim, hR', hclean'⟩
  · obtain ⟨hmeta, hmay'⟩ := hmay hfails
    obtain rfl := hmeta.leaves.mp hleaves
    exact ⟨n, hmeta.onDisk.mpr ⟨rfl, .inr ⟨hmay', herr, hmeta.leaves.mpr rfl⟩⟩, hR, hclean⟩

end Call

/-! ### Runs -/

/-- Threads on the stores of a datanode, with the chunks on disk. -/
def diskSystem {T : Type} (root : Path) (may : T → StoreOp → Prop) :
    System storeCalls T DiskNode where
  starts _ w w' := w' = w
  answers u := StoreOp.OnDisk root (may u)

section Runs

variable {root : Path} {ε α : Type} {n n' : DiskNode} {t t' : Target}

/-- **A run on disk is a run on the map.** -/
theorem Prog.Ends.onDisk {may : StoreOp → Prop} {p : Prog storeCalls ε α} {o : Outcome ε α}
    (hp : p.Makes StoreOp.Plain) (hR : n.Shows root t)
    (h : p.Ends (StoreOp.OnDisk root may) n o n') :
    ∃ t', p.Ends (StoreOp.Answers may) t o t' ∧ n'.Shows root t' :=
  Prog.Ends.related (R := fun n t => n.Shows root t) (fun _ _ _ _ _ hop hR ha => ha.answers hop hR)
    hp h hR

/-- **A run on the map is a run on disk**, if the chunk store does not fail. -/
theorem Prog.Ends.realized {may may' : StoreOp → Prop} {p : Prog storeCalls ε α} {o : Outcome ε α}
    (hp : p.Makes StoreOp.Plain) (hR : n.Shows root t) (hclean : Clean root n.disk.tree)
    (hmay : ∀ op, may op → op.OnMeta ∧ may' op) (h : p.Ends (StoreOp.Answers may) t o t') :
    ∃ n', p.Ends (StoreOp.OnDisk root may') n o n' ∧ n'.Shows root t' ∧
      Clean root n'.disk.tree := by
  have hstep : ∀ t n op r t', StoreOp.Plain op →
      (DiskNode.Shows root n t ∧ Clean root n.disk.tree) → StoreOp.Answers may t op r t' →
      ∃ n', StoreOp.OnDisk root may' n op r n' ∧ n'.Shows root t' ∧ Clean root n'.disk.tree :=
    fun _ _ op _ _ hop hR ha => hR.1.exists_onDisk hop hR.2 (hmay op) ha
  exact Prog.Ends.related hstep hp h ⟨hR, hclean⟩

variable {T : Type} [DecidableEq T] {prog : T → Prog storeCalls ε α}

/-- **A step of threads on disk is one on the map.** -/
theorem Pool.Step.onDisk {may : T → StoreOp → Prop} {P P' : Pool storeCalls ε α T DiskNode}
    (hprog : ∀ u, (prog u).Makes StoreOp.Plain) (hP : P.Makes StoreOp.Plain)
    (h : Pool.Step (diskSystem root may) prog P P') :
    P'.Makes StoreOp.Plain ∧ Pool.Step (storeSystem may) prog
      ⟨P.threads, P.world.target root⟩ ⟨P'.threads, P'.world.target root⟩ := by
  have hstart : ∀ u n t n', DiskNode.Shows root n t → (diskSystem root may).starts u n n' →
      ∃ t', (storeSystem may).starts u t t' ∧ n'.Shows root t' :=
    fun _ _ t _ hR hs => ⟨t, rfl, hs ▸ hR⟩
  have hcall : ∀ u n t op r n', StoreOp.Plain op → DiskNode.Shows root n t →
      (diskSystem root may).answers u n op r n' →
      ∃ t', (storeSystem may).answers u t op r t' ∧ n'.Shows root t' :=
    fun _ _ _ _ _ _ hop hR ha => StoreOp.OnDisk.answers hop ha hR
  obtain ⟨hP', t', hstep, hR'⟩ :=
    h.related hstart hcall hprog hP (P.world.shows_target root)
  exact ⟨hP', hR'.eq_target ▸ hstep⟩

/-- **A step of threads on the map is one on disk**, if the chunk store does not fail. -/
theorem Pool.Step.realized {may : T → StoreOp → Prop} {P P' : Pool storeCalls ε α T Target}
    (hprog : ∀ u, (prog u).Makes StoreOp.Plain) (hP : P.Makes StoreOp.Plain)
    (hR : n.Shows root P.world) (hclean : Clean root n.disk.tree)
    (hmay : ∀ u op, may u op → op.OnMeta) (h : Pool.Step (storeSystem may) prog P P') :
    P'.Makes StoreOp.Plain ∧ ∃ n', Pool.Step (diskSystem root may) prog ⟨P.threads, n⟩
      ⟨P'.threads, n'⟩ ∧ n'.Shows root P'.world ∧ Clean root n'.disk.tree := by
  have hstart : ∀ u t n t', (DiskNode.Shows root n t ∧ Clean root n.disk.tree) →
      (storeSystem may).starts u t t' →
      ∃ n', (diskSystem root may).starts u n n' ∧ n'.Shows root t' ∧ Clean root n'.disk.tree :=
    fun _ _ n _ hR hs => ⟨n, rfl, hs ▸ hR⟩
  have hcall : ∀ u t n op r t', StoreOp.Plain op →
      (DiskNode.Shows root n t ∧ Clean root n.disk.tree) → (storeSystem may).answers u t op r t' →
      ∃ n', (diskSystem root may).answers u n op r n' ∧ n'.Shows root t' ∧
        Clean root n'.disk.tree :=
    fun u _ _ op _ _ hop hR ha => hR.1.exists_onDisk hop hR.2 (fun h => ⟨hmay u op h, h⟩) ha
  exact h.related hstart hcall hprog hP ⟨hR, hclean⟩

/-- **A run of threads on disk is one on the map.** -/
theorem Pool.Reachable.onDisk {may : T → StoreOp → Prop} {P : Pool storeCalls ε α T DiskNode}
    (hprog : ∀ u, (prog u).Makes StoreOp.Plain)
    (h : Pool.Reachable (diskSystem root may) prog n P) :
    Pool.Reachable (storeSystem may) prog (n.target root) ⟨P.threads, P.world.target root⟩ := by
  have hall : P.Makes StoreOp.Plain ∧ Pool.Reachable (storeSystem may) prog (n.target root)
      ⟨P.threads, P.world.target root⟩ := by
    induction h with
    | refl => exact ⟨fun _ _ hp => (by cases hp), .refl⟩
    | tail _ hstep ih =>
      obtain ⟨hP, hstep'⟩ := hstep.onDisk hprog ih.1
      exact ⟨hP, ih.2.tail hstep'⟩
  exact hall.2

/-- **A run of threads on the map is one on disk**, if the chunk store does not fail. -/
theorem Pool.Reachable.realized {may : T → StoreOp → Prop} {P : Pool storeCalls ε α T Target}
    (hprog : ∀ u, (prog u).Makes StoreOp.Plain) (hR : n.Shows root t)
    (hclean : Clean root n.disk.tree) (hmay : ∀ u op, may u op → op.OnMeta)
    (h : Pool.Reachable (storeSystem may) prog t P) :
    ∃ n', Pool.Reachable (diskSystem root may) prog n ⟨P.threads, n'⟩ ∧ n'.Shows root P.world := by
  have hall : P.Makes StoreOp.Plain ∧ ∃ n', Pool.Reachable (diskSystem root may) prog n
      ⟨P.threads, n'⟩ ∧ n'.Shows root P.world ∧ Clean root n'.disk.tree := by
    induction h with
    | refl => exact ⟨fun _ _ hp => (by cases hp), n, .refl, hR, hclean⟩
    | tail _ hstep ih =>
      obtain ⟨hP, n', hrun, hR', hclean'⟩ := ih
      obtain ⟨hP', n₂, hstep', hR₂, hclean₂⟩ := hstep.realized hprog hP hR' hclean' hmay
      exact ⟨hP', n₂, hrun.tail hstep', hR₂, hclean₂⟩
  obtain ⟨-, n', hrun, hR', -⟩ := hall
  exact ⟨n', hrun, hR'⟩

end Runs

/-! ### Stores that exist -/

/-- A datanode that stores nothing. -/
def DiskNode.empty : DiskNode := ⟨.empty, emptyDisk⟩

/-- The stores after some calls. -/
def storesAfter (ops : List StoreOp) : Target := ops.foldl (fun t op => (op.exec t).2) .empty

theorem storesAfter_concat (ops : List StoreOp) (op : StoreOp) :
    storesAfter (ops ++ [op]) = (op.exec (storesAfter ops)).2 := by
  rw [storesAfter, List.foldl_append]
  rfl

/-- The answers in a run in which the metadata store refuses some calls. -/
def serveStores {T : Type} (refuses : T → StoreOp → Bool) (u : T) (w : Target)
    (op : storeCalls.Op) : Option (storeCalls.Res op × Target) :=
  if refuses u op then some (.error (.metaError "io"), w) else some (op.exec w)

theorem answers_serveStores {T : Type} {refuses : T → StoreOp → Bool} {may : T → StoreOp → Prop}
    (hmay : ∀ u op, refuses u op → may u op ∧ op.OnMeta) {u : T} {w w' : Target}
    {op : storeCalls.Op} {r : storeCalls.Res op} (h : serveStores refuses u w op = some (r, w')) :
    (storeSystem may).answers u w op r w' := by
  unfold serveStores at h
  split at h
  · next hop =>
    cases h
    exact .inr ⟨(hmay u op hop).1, ⟨_, rfl⟩, (hmay u op hop).2.leaves.mpr rfl⟩
  · have hexec := Option.some.inj h
    exact .inl ⟨(congrArg Prod.fst hexec).symm, (congrArg Prod.snd hexec).symm⟩

theorem DiskNode.shows_empty (root : Path) : DiskNode.empty.Shows root .empty := by
  have hnone : ∀ k, stored root DiskNode.empty.disk k = none := fun k => by
    rw [stored, FileTree.fileAt]
    have hnode : FileTree.empty.node (place root k) = (none : Option (FileNode Bytes)) :=
      if_neg (List.append_ne_nil_of_right_ne_nil _ (List.cons_ne_nil _ []))
    simp only [DiskNode.empty, emptyDisk, hnode]
  exact ⟨rfl, fun k => (hnone k).symm, fun _ _ h => absurd rfl h⟩

/-- **Stores that calls with plain names reach are on some disk.** -/
theorem exists_shows_storesAfter {root : Path} {ops : List StoreOp} (hops : ∀ op ∈ ops, op.Plain) :
    ∃ n : DiskNode, n.Shows root (storesAfter ops) ∧ Clean root n.disk.tree := by
  induction ops using List.reverseRecOn with
  | nil => exact ⟨.empty, DiskNode.shows_empty root, clean_empty root⟩
  | append_singleton ops op ih =>
    obtain ⟨n, hR, hclean⟩ := ih fun op hop => hops op (List.mem_append_left _ hop)
    obtain ⟨n', -, hR', hclean'⟩ := hR.exists_onDisk (hops op (by simp)) hclean
      (fun h : StoreOp.never op => (h.elim : op.OnMeta ∧ StoreOp.never op))
      (StoreOp.answers_exec StoreOp.never _ op)
    exact ⟨n', storesAfter_concat ops op ▸ hR', hclean'⟩

end OzoneRust
