import OzoneRust.Datanode.OnDisk
import OzoneRust.Datanode.Reconstruct
import OzoneRust.Datanode.Service

/-!
# Closed containers

A container that is closed is to be immutable. The metadata store sees to it for the records:
`put_block` looks at the state of the container. `write_chunk` does not, it only calls the chunk
store. So over any sequence of the two requests, from any state in which a container is closed,
the records of its blocks stay (`OzoneRust.Service.Sealed.serves`), but what is read of a recorded
chunk stays exactly if no request brings other bytes under its name
(`OzoneRust.Service.unchanged_iff`). One that does is accepted like any other
(`OzoneRust.closed_overwritten`).

This is so with the chunks in a map. With the chunks on disk it is so for plain names,
`OzoneRust.closed_immutable_iff`: a write under another name may hit the file of any chunk, and
the temporary file of a write may be one that a name like `0.tmp.1.1` stands for.
-/

namespace OzoneRust

namespace Service

/-! ### Requests that bring data -/

/-- A request that brings data: a chunk, or the record of a block. -/
inductive Incoming where
  /-- `write_chunk`. -/
  | chunk (stream : WriteStream)
  /-- `put_block`. -/
  | block (blockData : Option WireBlockData)

/-- What serves the request. -/
def Incoming.handler : Incoming → ServiceM ℕ
  | .chunk stream => writeChunk stream
  | .block blockData => putBlock blockData

/-- The chunk names in a request are plain. -/
def Incoming.Plain : Incoming → Prop
  | .chunk stream => ∀ b chunk data, acceptWrite stream = .ok (b, chunk, data) →
      PlainName chunk.chunkName
  | .block _ => True

section Requests

variable {W : Type} (answers : W → (op : StoreOp) → Except StorageError op.Val → W → Prop)

/-- Requests are served one after the other. -/
inductive Serves : List Incoming → W → W → Prop
  /-- There is none. -/
  | nil {w : W} : Serves [] w w
  /-- One is served, then the others. -/
  | cons {u : Incoming} {us : List Incoming} {w w₁ w' : W} {o : Outcome Status ℕ}
      (head : u.handler.Ends answers w o w₁) (tail : Serves us w₁ w') : Serves (u :: us) w w'

/-- A chunk of the container that is on record. -/
def Recorded (c : ContainerId) (store : MetaStore) (b : BlockId) (name : String) : Prop :=
  b.container = c ∧ ∃ bd, store.getBlock b = some bd ∧ ∃ chunk ∈ bd.chunks, chunk.chunkName = name

/-- The request is a read of the chunk. -/
def ReadChunkRequest.IsRead (req : ReadChunkRequest) (b : BlockId) (name : String) : Prop :=
  acceptBlock "block_id" req.blockId = .ok b ∧
    ∃ chunk, acceptChunk "chunk_info" req.chunkInfo = .ok chunk ∧ chunk.chunkName = name

/-- What `read_chunk` returns. -/
def Returns (w : W) (req : ReadChunkRequest) (o : Outcome Status (List (Bytes × Bool))) : Prop :=
  ∃ w', (readChunk req).Ends answers w o w'

/-- **The container is as it was**: the records of its blocks, and what is read of its recorded
chunks. -/
structure Unchanged (store : W → MetaStore) (c : ContainerId) (w w' : W) : Prop where
  /-- The records. -/
  block : ∀ b, b.container = c → (store w').getBlock b = (store w).getBlock b
  /-- The chunks. -/
  read : ∀ b name, Recorded c (store w) b name → ∀ req : ReadChunkRequest, req.IsRead b name →
    ∀ o, Returns answers w' req o ↔ Returns answers w req o

end Requests

/-- **The upload brings nothing new**: where it is accepted as bytes of a recorded chunk, these
are the bytes of the chunk. -/
def Incoming.Harmless (c : ContainerId) (t : Target) : Incoming → Prop
  | .chunk stream => ∀ b chunk data, acceptWrite stream = .ok (b, chunk, data) →
      Recorded c t.store b chunk.chunkName → t.chunks b chunk.chunkName = some data
  | .block _ => True

section Serve

variable {may : StoreOp → Prop} {c : ContainerId} {t₀ t t' : Target} {u : Incoming}
  {us : List Incoming} {o : Outcome Status ℕ}

theorem ends_accepted_bind {α : Type} {x : Except Status α} {f : α → ServiceM ℕ}
    (h : (accepted x >>= f).Ends (StoreOp.Answers may) t o t') :
    t' = t ∨ ∃ a, x = .ok a ∧ (f a).Ends (StoreOp.Answers may) t o t' := by
  cases x with
  | ok a => exact .inr ⟨a, rfl, h⟩
  | error e => exact .inl h.2

theorem ends_call_pure {op : StoreOp} {f : op.Val → ℕ}
    (h : (op.call .storage >>= fun a => (pure (f a) : ServiceM ℕ)).Ends (StoreOp.Answers may)
      t o t') : ∃ r, StoreOp.Answers may t op r t' := by
  obtain ⟨r, t₁, hans, hend⟩ := h
  refine ⟨r, ?_⟩
  cases r <;> exact hend.2 ▸ hans

/-- **What an upload does**: nothing, or it writes a chunk, or it puts a block. -/
theorem Incoming.cases_ends (h : u.handler.Ends (StoreOp.Answers may) t o t') :
    t' = t ∨
    (∃ stream b chunk data, u = .chunk stream ∧ acceptWrite stream = .ok (b, chunk, data) ∧
      ∃ r, StoreOp.Answers may t (.writeChunk b chunk.chunkName data) r t') ∨
    ∃ block r, StoreOp.Answers may t (.putBlock block) r t' := by
  cases u with
  | chunk stream =>
    rcases ends_accepted_bind h with ht | ⟨⟨b, chunk, data⟩, hacc, hend⟩
    · exact .inl ht
    · exact .inr (.inl ⟨stream, b, chunk, data, rfl, hacc, ends_call_pure hend⟩)
  | block blockData =>
    rcases ends_accepted_bind h with ht | ⟨block, -, r, t₁, hans, hend⟩
    · exact .inl ht
    · refine .inr (.inr ⟨block, r, ?_⟩)
      cases r <;> exact hend.2 ▸ hans

/-! ### Records -/

/-- The container is closed, and the records of its blocks are those of `t₀`. -/
structure Sealed (c : ContainerId) (t₀ t : Target) : Prop where
  /-- The container. -/
  closed : ∃ record, t.holdings.record c = some record ∧ record.info.state = .closed
  /-- The blocks. -/
  block : ∀ b, b.container = c → t.holdings.block b = t₀.holdings.block b

theorem state_eq_some {state : ContainerState} : t.state c = some state ↔
    ∃ record, t.holdings.record c = some record ∧ record.info.state = state := by
  simp [Target.state, MetaStore.getContainer, Target.holdings]

theorem sealed_refl (h : t.state c = some .closed) : Sealed c t t :=
  ⟨state_eq_some.mp h, fun _ _ => rfl⟩

/-- A call that leaves the records as they are. -/
theorem Sealed.of_eq (hs : Sealed c t₀ t) (hrecord : t'.holdings.record c = t.holdings.record c)
    (hblock : ∀ b, b.container = c → t'.holdings.block b = t.holdings.block b) : Sealed c t₀ t' :=
  ⟨hrecord ▸ hs.closed, fun b hb => (hblock b hb).trans (hs.block b hb)⟩

/-- A put leaves the records of a closed container. -/
theorem Sealed.put {block : BlockData} {r : Except StorageError ℕ} (hs : Sealed c t₀ t)
    (ha : StoreOp.Answers may t (.putBlock block) r t') : Sealed c t₀ t' := by
  rcases ha.holdings with hact | ⟨-, -, rfl | ⟨id, hop, -⟩⟩
  · by_cases hc : block.blockId.container = c
    · obtain ⟨record, hrecord, hclosed⟩ := hs.closed
      have hsame : (StoreOp.putBlock block).act t.holdings = t.holdings := by
        rw [StoreOp.act, hc, hrecord]
        exact if_neg (by rw [hclosed]; decide)
      rw [hsame] at hact
      exact hs.of_eq (by rw [hact]) fun b _ => by rw [hact]
    · have hoff := StoreOp.agreeOff_act (h := t.holdings)
        (show (StoreOp.putBlock block).About block.blockId.container from rfl)
      rw [← hact] at hoff
      exact hs.of_eq (hoff.record c (Ne.symm hc)) fun b hb => hoff.block b (hb ▸ Ne.symm hc)
  · exact hs
  · cases hop

theorem Sealed.write {b : BlockId} {name : String} {data : Bytes} {r : Except StorageError Unit}
    (hs : Sealed c t₀ t) (ha : StoreOp.Answers may t (.writeChunk b name data) r t') :
    Sealed c t₀ t' := by
  rcases ha.holdings with hact | ⟨-, -, rfl | ⟨id, hop, -⟩⟩
  · exact hs.of_eq (by rw [hact]; rfl) fun _ _ => by rw [hact]; rfl
  · exact hs
  · cases hop

theorem Sealed.step (hs : Sealed c t₀ t) (h : u.handler.Ends (StoreOp.Answers may) t o t') :
    Sealed c t₀ t' := by
  rcases u.cases_ends h with rfl | ⟨-, b, chunk, data, -, -, r, ha⟩ | ⟨block, r, ha⟩
  · exact hs
  · exact hs.write ha
  · exact hs.put ha

/-- **The records of a closed container stay.** -/
theorem Sealed.serves (hs : Sealed c t₀ t) (h : Serves (StoreOp.Answers may) us t t') :
    Sealed c t₀ t' := by
  induction h with
  | nil => exact hs
  | cons head _ ih => exact ih (hs.step head)

/-! ### Bytes -/

/-- The recorded chunks of `t₀` have the bytes they had. -/
def SameBytes (c : ContainerId) (t₀ t : Target) : Prop :=
  ∀ b name, Recorded c t₀.store b name → t.chunks b name = t₀.chunks b name

theorem SameBytes.step (hb : SameBytes c t₀ t) (hu : u.Harmless c t₀)
    (h : u.handler.Ends (StoreOp.Answers may) t o t') : SameBytes c t₀ t' := by
  rcases u.cases_ends h with rfl | ⟨stream, b, chunk, data, rfl, hacc, r, ha⟩ | ⟨block, r, ha⟩
  · exact hb
  · intro b' name hrec
    rcases ha.holdings with hact | ⟨-, -, rfl | ⟨id, hop, -⟩⟩
    · have hchunk : t'.chunks b' name = _ := congrArg (Holdings.chunk · b' name) hact
      rw [hchunk]
      by_cases hsame : b' = b ∧ name = chunk.chunkName
      · obtain ⟨rfl, rfl⟩ := hsame
        rw [hu b' chunk data hacc hrec]
        exact Holdings.chunk_setChunk_self
      · exact (Holdings.chunk_setChunk_of_ne hsame).trans (hb b' name hrec)
    · exact hb b' name hrec
    · cases hop
  · intro b' name hrec
    rcases ha.holdings with hact | ⟨-, -, rfl | ⟨id, hop, -⟩⟩
    · have hchunk : t'.holdings.chunk = t.holdings.chunk :=
        hact ▸ StoreOp.chunk_act_putBlock block
      exact (congrFun (congrFun hchunk b') name).trans (hb b' name hrec)
    · exact hb b' name hrec
    · cases hop

theorem SameBytes.serves (hb : SameBytes c t₀ t) (hus : ∀ u ∈ us, u.Harmless c t₀)
    (h : Serves (StoreOp.Answers may) us t t') : SameBytes c t₀ t' := by
  induction h with
  | nil => exact hb
  | cons head _ ih =>
    exact ih (hb.step (hus _ List.mem_cons_self) head) fun u hu => hus u (List.mem_cons_of_mem _ hu)

/-! ### Reads -/

/-- The calls of a read of a chunk. -/
def ReadsOf (b : BlockId) (name : String) (op : StoreOp) : Prop :=
  op = .readChunk b name ∨ op = .getBlock b

theorem makes_readChunk {req : ReadChunkRequest} {b : BlockId} {name : String}
    (hreq : req.IsRead b name) : (readChunk req).Makes (ReadsOf b name) := by
  obtain ⟨hblock, chunk, hchunk, rfl⟩ := hreq
  have hdigests : (expectedDigests b chunk).Makes (ReadsOf b chunk.chunkName) := by
    unfold expectedDigests
    split
    · trivial
    · exact makes_call_bind (.inr rfl) fun _ => trivial
  unfold readChunk
  rw [hblock, hchunk]
  refine makes_call_bind (.inl rfl) fun data => ?_
  cases req.verify with
  | false => trivial
  | true => exact hdigests.bind fun _ => Prog.Makes.bind trivial fun _ => trivial

/-- A call of a read gets the same answer wherever the chunk and the record are the same. -/
theorem ReadsOf.exec_eq {b : BlockId} {name : String} {op : StoreOp} (hop : ReadsOf b name op)
    (hchunk : t'.chunks b name = t.chunks b name)
    (hblock : t'.store.getBlock b = t.store.getBlock b) :
    (op.exec t').1 = (op.exec t).1 ∧ (op.exec t).2 = t := by
  rcases hop with rfl | rfl
  · simp only [StoreOp.exec, hchunk]
    split <;> exact ⟨rfl, rfl⟩
  · exact ⟨congrArg Except.ok hblock, rfl⟩

/-- What is read depends on the bytes of the chunk and the record of the block alone. -/
theorem Returns.of_eq {req : ReadChunkRequest} {b : BlockId} {name : String}
    (hreq : req.IsRead b name) (hchunk : t'.chunks b name = t.chunks b name)
    (hblock : t'.store.getBlock b = t.store.getBlock b) {o : Outcome Status (List (Bytes × Bool))}
    (h : Returns (StoreOp.Answers StoreOp.never) t req o) :
    Returns (StoreOp.Answers StoreOp.never) t' req o := by
  obtain ⟨t₁, hend⟩ := h
  -- the calls of a read leave the stores as they are, so the two runs stay side by side
  have hstep : ∀ w v op r w', ReadsOf b name op →
      (v.chunks b name = w.chunks b name ∧ v.store.getBlock b = w.store.getBlock b) →
      StoreOp.Answers StoreOp.never w op r w' → ∃ v', StoreOp.Answers StoreOp.never v op r v' ∧
        (v'.chunks b name = w'.chunks b name ∧ v'.store.getBlock b = w'.store.getBlock b) := by
    intro w v op r w' hop hR ha
    obtain ⟨rfl, rfl⟩ := ha.exec id
    obtain ⟨hsame, hstays⟩ := hop.exec_eq hR.1 hR.2
    rw [hstays]
    exact ⟨v, .inl ⟨hsame.symm, (hop.exec_eq rfl rfl).2.symm⟩, hR⟩
  obtain ⟨t₂, hend', -⟩ := Prog.Ends.related hstep (makes_readChunk hreq) hend ⟨hchunk, hblock⟩
  exact ⟨t₂, hend'⟩

/-- A read that checks nothing. -/
def plainRead (b : BlockId) (name : String) : ReadChunkRequest :=
  ⟨some b.toWire, some (ChunkInfo.toWire ⟨name, 0, 0, none⟩), false⟩

theorem isRead_plainRead (b : BlockId) (name : String) : (plainRead b name).IsRead b name :=
  ⟨congrArg converted (BlockId.ofWire_toWire b), _,
    congrArg converted (ChunkInfo.ofWire_toWire ⟨name, 0, 0, none⟩), rfl⟩

theorem readChunk_plainRead (b : BlockId) (name : String) :
    readChunk (plainRead b name) = (do
      let data ← (StoreOp.readChunk b name).call .storage
      return flagLast (frame readFrameBytes data)) := by
  have hblock : acceptBlock "block_id" (plainRead b name).blockId = .ok b :=
    congrArg converted (BlockId.ofWire_toWire b)
  have hchunk : acceptChunk "chunk_info" (plainRead b name).chunkInfo = .ok ⟨name, 0, 0, none⟩ :=
    congrArg converted (ChunkInfo.ofWire_toWire ⟨name, 0, 0, none⟩)
  unfold readChunk
  rw [hblock, hchunk]
  rfl

/-- What it returns. -/
theorem returns_plainRead {b : BlockId} {name : String} {data : Bytes} :
    Returns (StoreOp.Answers StoreOp.never) t (plainRead b name)
        (.ok (flagLast (frame readFrameBytes data))) ↔ t.chunks b name = some data := by
  unfold Returns
  rw [readChunk_plainRead]
  constructor
  · rintro ⟨t', r, t₁, ha, hend⟩
    obtain ⟨rfl, -⟩ := ha.exec id
    rw [StoreOp.exec] at hend
    cases hdata : t.chunks b name with
    | none =>
      rw [hdata] at hend
      cases hend.1
    | some data' =>
      rw [hdata] at hend
      have hframes := congrArg (collect []) (Outcome.ok.inj hend.1)
      rw [collect_flagLast, collect_flagLast, flatten_frame (by decide),
        flatten_frame (by decide)] at hframes
      exact congrArg some hframes.symm
  · intro hdata
    refine ⟨t, StoreOp.ends_call_bind (a := data) ?_ ⟨rfl, ?_⟩⟩
    · rw [StoreOp.exec, hdata]
    · rw [StoreOp.exec, hdata]

theorem exists_serves (may : StoreOp → Prop) : ∀ (us : List Incoming) (t : Target),
    ∃ t', Serves (StoreOp.Answers may) us t t'
  | [], t => ⟨t, .nil⟩
  | u :: us, t => by
    obtain ⟨o, t₁, hend⟩ := Prog.exists_ends
      (fun t op => ⟨_, _, StoreOp.answers_exec may t op⟩) u.handler t
    obtain ⟨t', hserves⟩ := exists_serves may us t₁
    exact ⟨t', .cons hend hserves⟩

/-- A write that is accepted is served, whatever the state of the container. -/
theorem ends_write (may : StoreOp → Prop) {stream : WriteStream} {b : BlockId} {chunk : ChunkInfo}
    {data : Bytes} (hacc : acceptWrite stream = .ok (b, chunk, data)) (t : Target) :
    (Incoming.chunk stream).handler.Ends (StoreOp.Answers may) t (.ok data.length)
      (t.setChunk b chunk.chunkName (some data)) := by
  have hprog : writeChunk stream = (do
      (StoreOp.writeChunk b chunk.chunkName data).call .storage
      return data.length) := by
    unfold writeChunk
    rw [hacc]
    rfl
  rw [Incoming.handler, hprog]
  exact StoreOp.ends_call_bind rfl ⟨rfl, rfl⟩

theorem Serves.append {us' : List Incoming} {t₁ : Target}
    (h : Serves (StoreOp.Answers may) us t t₁) (h' : Serves (StoreOp.Answers may) us' t₁ t') :
    Serves (StoreOp.Answers may) (us ++ us') t t' := by
  induction h with
  | nil => exact h'
  | cons head _ ih => exact .cons head (ih h')

/-- The container stays closed, and the records of its blocks stay. -/
theorem closed_of_serves (hclosed : t.state c = some .closed)
    (h : Serves (StoreOp.Answers may) us t t') : t'.state c = some .closed ∧
      ∀ b, b.container = c → t'.store.getBlock b = t.store.getBlock b := by
  have hsealed := (sealed_refl hclosed).serves h
  exact ⟨state_eq_some.mpr hsealed.closed, hsealed.block⟩

/-- **With the chunks in a map**, what is read of the recorded chunks of a closed container stays,
all through every run of a sequence of requests, exactly if each request that is accepted as
bytes of such a chunk brings the bytes that are there. -/
theorem unchanged_iff (may : StoreOp → Prop) (hclosed : t.state c = some .closed) :
    (∀ us', us' <+: us → ∀ t', Serves (StoreOp.Answers may) us' t t' →
      Unchanged (StoreOp.Answers StoreOp.never) Target.store c t t') ↔
      ∀ u ∈ us, u.Harmless c t := by
  have hsealed := sealed_refl hclosed
  refine ⟨fun h u hu => ?_, fun h us' hpre t' hserves => ?_⟩
  · -- what comes before the upload has left the chunk as it is, and so has the upload
    obtain ⟨before, after, rfl⟩ := List.append_of_mem hu
    cases u with
    | block => trivial
    | chunk stream =>
      intro b chunk data hacc hrec
      obtain ⟨t₁, hbefore⟩ := exists_serves may before t
      have hserves := hbefore.append (.cons (ends_write may hacc t₁) .nil)
      have hunchanged := h (before ++ [.chunk stream]) ⟨after, by simp⟩ _ hserves
      refine returns_plainRead.mp ((hunchanged.read b chunk.chunkName hrec _ (isRead_plainRead b _)
        _).mp (returns_plainRead.mpr ?_))
      exact Holdings.chunk_setChunk_self (h := t₁.holdings)
  · refine ⟨(hsealed.serves hserves).block, fun b name hrec req hreq o => ?_⟩
    have hbytes : SameBytes c t t' :=
      SameBytes.serves (fun _ _ _ => rfl) (fun u hu => h u (hpre.subset hu)) hserves
    have hblock := (hsealed.serves hserves).block b hrec.1
    exact ⟨.of_eq hreq (hbytes b name hrec).symm hblock.symm,
      .of_eq hreq (hbytes b name hrec) hblock⟩

end Serve

/-! ### On disk -/

section Disk

variable {root : Path} {may : StoreOp → Prop} {c : ContainerId} {n n' : DiskNode} {t t' : Target}
  {us : List Incoming}

theorem Incoming.Plain.makes {u : Incoming} (hu : u.Plain) : u.handler.Makes StoreOp.Plain := by
  cases u with
  | chunk stream => exact makes_writeChunk hu
  | block blockData => exact makes_putBlock fun _ _ => trivial

/-- What is served on disk is served on the map. -/
theorem Serves.onDisk (hus : ∀ u ∈ us, u.Plain) (h : Serves (StoreOp.OnDisk root may) us n n') :
    ∀ {t : Target}, n.Shows root t →
      ∃ t', Serves (StoreOp.Answers may) us t t' ∧ n'.Shows root t' := by
  induction h with
  | nil => exact fun hR => ⟨_, .nil, hR⟩
  | cons head _ ih =>
    intro t hR
    obtain ⟨t₁, head', hR₁⟩ := head.onDisk (hus _ List.mem_cons_self).makes hR
    obtain ⟨t', tail', hR'⟩ := ih (fun u hu => hus u (List.mem_cons_of_mem _ hu)) hR₁
    exact ⟨t', .cons head' tail', hR'⟩

/-- What is served on the map without failures can be served on disk. -/
theorem Serves.realized (may : StoreOp → Prop) (hus : ∀ u ∈ us, u.Plain)
    (h : Serves (StoreOp.Answers StoreOp.never) us t t') : ∀ {n : DiskNode}, n.Shows root t →
      FileChunkStore.Clean root n.disk.tree → ∃ n', Serves (StoreOp.OnDisk root may) us n n' ∧
        n'.Shows root t' ∧ FileChunkStore.Clean root n'.disk.tree := by
  induction h with
  | nil => exact fun hR hclean => ⟨_, .nil, hR, hclean⟩
  | cons head _ ih =>
    intro n hR hclean
    obtain ⟨n₁, head', hR₁, hclean₁⟩ :=
      head.realized (hus _ List.mem_cons_self).makes hR hclean fun _ => False.elim
    obtain ⟨n', tail', hR', hclean'⟩ :=
      ih (fun u hu => hus u (List.mem_cons_of_mem _ hu)) hR₁ hclean₁
    exact ⟨n', .cons head' tail', hR', hclean'⟩

theorem ReadsOf.plain {b : BlockId} {name : String} (hname : PlainName name) {op : StoreOp}
    (hop : ReadsOf b name op) : op.Plain := by
  rcases hop with rfl | rfl
  · exact hname
  · trivial

/-- A read of a chunk with a plain name returns on disk what it returns on the map. -/
theorem returns_onDisk_iff {req : ReadChunkRequest} {b : BlockId} {name : String}
    (hreq : req.IsRead b name) (hname : PlainName name) (hR : n.Shows root t)
    (hclean : FileChunkStore.Clean root n.disk.tree) {o : Outcome Status (List (Bytes × Bool))} :
    Returns (StoreOp.OnDisk root StoreOp.never) n req o ↔
      Returns (StoreOp.Answers StoreOp.never) t req o := by
  have hmakes : (readChunk req).Makes StoreOp.Plain :=
    (makes_readChunk hreq).mono fun _ => ReadsOf.plain hname
  constructor
  · rintro ⟨n', hend⟩
    obtain ⟨t', hend', -⟩ := hend.onDisk hmakes hR
    exact ⟨t', hend'⟩
  · rintro ⟨t', hend⟩
    obtain ⟨n', hend', -⟩ := hend.realized hmakes hR hclean fun _ => False.elim
    exact ⟨n', hend'⟩

/-- The disk stays clean. -/
theorem Serves.clean (hus : ∀ u ∈ us, u.Plain) (h : Serves (StoreOp.OnDisk root may) us n n') :
    FileChunkStore.Clean root n.disk.tree → FileChunkStore.Clean root n'.disk.tree := by
  induction h with
  | nil => exact id
  | cons head _ ih =>
    intro hclean
    refine ih (fun u hu => hus u (List.mem_cons_of_mem _ hu)) ?_
    exact Prog.Ends.of_makes (F := fun n : DiskNode => FileChunkStore.Clean root n.disk.tree)
      (fun _ _ _ _ hop hF ha => StoreOp.OnDisk.clean hop ha hF)
      (hus _ List.mem_cons_self).makes head hclean

/-- A container is as it was on disk exactly if it is so on the map. -/
theorem unchanged_onDisk_iff (hrecorded : ∀ b name, Recorded c n.store b name → PlainName name)
    (hR : n.Shows root t) (hclean : FileChunkStore.Clean root n.disk.tree) (hR' : n'.Shows root t')
    (hclean' : FileChunkStore.Clean root n'.disk.tree) :
    Unchanged (StoreOp.OnDisk root StoreOp.never) DiskNode.store c n n' ↔
      Unchanged (StoreOp.Answers StoreOp.never) Target.store c t t' := by
  have hread : ∀ {b name}, Recorded c n.store b name → ∀ {req : ReadChunkRequest},
      req.IsRead b name → ∀ o,
      ((Returns (StoreOp.OnDisk root StoreOp.never) n' req o ↔
        Returns (StoreOp.OnDisk root StoreOp.never) n req o) ↔
      (Returns (StoreOp.Answers StoreOp.never) t' req o ↔
        Returns (StoreOp.Answers StoreOp.never) t req o)) := by
    intro b name hrec req hreq o
    rw [returns_onDisk_iff hreq (hrecorded b name hrec) hR hclean,
      returns_onDisk_iff hreq (hrecorded b name hrec) hR' hclean']
  constructor
  · refine fun h => ⟨fun b hb => ?_, fun b name hrec req hreq o => ?_⟩
    · rw [hR.store, hR'.store]
      exact h.block b hb
    · rw [hR.store] at hrec
      exact (hread hrec hreq o).mp (h.read b name hrec req hreq o)
  · refine fun h => ⟨fun b hb => ?_, fun b name hrec req hreq o => ?_⟩
    · rw [← hR.store, ← hR'.store]
      exact h.block b hb
    · exact (hread hrec hreq o).mpr (h.read b name (hR.store.symm ▸ hrec) req hreq o)

end Disk

end Service

open Service FileChunkStore

/-- **A closed container stays as it is exactly if nobody writes to its chunks.** For every
datanode on which a container is closed, whose disk is its own and whose records of the container
have plain chunk names, every sequence of `write_chunk` and `put_block` requests with plain chunk
names and every failure of the stores, the container stays closed and so do the records of its
blocks. What is read of its recorded chunks stays, all through every run of the sequence, exactly
if each request that is accepted as bytes of such a chunk brings the bytes that are there. -/
theorem closed_immutable_iff {root : Path} {c : ContainerId} {n : DiskNode}
    (hclosed : (n.target root).state c = some .closed) (hclean : Clean root n.disk.tree)
    (hrecorded : ∀ b name, Recorded c n.store b name → PlainName name) (may : StoreOp → Prop)
    {us : List Incoming} (hus : ∀ u ∈ us, u.Plain) :
    (∀ n', Serves (StoreOp.OnDisk root may) us n n' →
      (n'.target root).state c = some .closed ∧
        ∀ b, b.container = c → n'.store.getBlock b = n.store.getBlock b) ∧
    ((∀ us', us' <+: us → ∀ n', Serves (StoreOp.OnDisk root may) us' n n' →
        Unchanged (StoreOp.OnDisk root StoreOp.never) DiskNode.store c n n') ↔
      ∀ u ∈ us, u.Harmless c (n.target root)) := by
  have hR := n.shows_target root
  have hsub : ∀ {us'}, us' <+: us → ∀ u ∈ us', u.Plain := fun hpre u hu => hus u (hpre.subset hu)
  refine ⟨fun n' h => ?_, ?_⟩
  · obtain ⟨t', h', hR'⟩ := h.onDisk hus hR
    obtain ⟨hstate, hblock⟩ := closed_of_serves hclosed h'
    have hstore : t'.store = (n'.target root).store := hR'.store
    refine ⟨?_, fun b hb => ?_⟩
    · rw [Target.state, ← hstore]
      exact hstate
    · rw [← hR'.store]
      exact hblock b hb
  · rw [← unchanged_iff StoreOp.never hclosed]
    constructor
    · intro h us' hpre t' hserves
      obtain ⟨n', hserves', hR', hclean'⟩ := hserves.realized may (hsub hpre) hR hclean
      exact (unchanged_onDisk_iff hrecorded hR hclean hR' hclean').mp (h us' hpre n' hserves')
    · intro h us' hpre n' hserves
      obtain ⟨t', hserves', hR'⟩ := hserves.onDisk (hsub hpre) hR
      -- a run with failures is harmless where the runs without are
      have hunchanged := (unchanged_iff may hclosed).mpr
        ((unchanged_iff StoreOp.never hclosed).mp h) us' hpre t' hserves'
      exact (unchanged_onDisk_iff hrecorded hR hclean hR'
        (hserves.clean (hsub hpre) hclean)).mpr hunchanged

/-- The block of a closed container. -/
def closedBlock : BlockData := ⟨⟨1, 1, 1⟩, [⟨"0", 0, 1, none⟩], []⟩

/-- A container gets one block of one byte, and is then closed. -/
def closedSteps : List StoreOp :=
  [.createContainer (.newOpen 1 ⟨3, 2, 1048576, .rs⟩), .writeChunk ⟨1, 1, 1⟩ "0" [5],
    .putBlock closedBlock, .setContainerState 1 .closed]

/-- The stores then. -/
def closedOne : Target := storesAfter closedSteps

theorem exists_closedOne : ∃ n : DiskNode, n.Shows dataRoot closedOne ∧
    Clean dataRoot n.disk.tree := by
  refine exists_shows_storesAfter fun op hop => ?_
  simp only [closedSteps, List.mem_cons, List.not_mem_nil, or_false] at hop
  rcases hop with rfl | rfl | rfl | rfl
  · trivial
  · exact plainName_zero
  · trivial
  · trivial

/-- Only one chunk is on record. -/
theorem recorded_closedOne {b : BlockId} {name : String} (h : Recorded 1 closedOne.store b name) :
    b = ⟨1, 1, 1⟩ ∧ name = "0" := by
  obtain ⟨-, bd, hbd, chunk, hchunk, rfl⟩ := h
  have hblocks : closedOne.holdings.block =
      Function.update (fun _ => none) ⟨1, 1, 1⟩ (some closedBlock) := by
    simp only [closedOne, storesAfter, closedSteps, List.foldl_cons, List.foldl_nil,
      StoreOp.holdings_exec]
    rfl
  have hget : closedOne.holdings.block b = some bd := hbd
  rw [hblocks, Function.update_apply] at hget
  split at hget
  · next hb =>
    obtain rfl := Option.some.inj hget
    obtain rfl := List.mem_singleton.mp hchunk
    exact ⟨hb, rfl⟩
  · cases hget

/-- A write of one byte. -/
def writeOne (b : BlockId) (byte : UInt8) : Incoming :=
  .chunk (whole (writeMessages b ⟨"0", 0, 1, none⟩ [byte]))

theorem acceptWrite_writeOne (b : BlockId) (byte : UInt8) :
    acceptWrite (whole (writeMessages b ⟨"0", 0, 1, none⟩ [byte])) =
      .ok (b, ⟨"0", 0, 1, none⟩, [byte]) :=
  acceptWrite_writeMessages rfl

theorem plain_writeOne (b : BlockId) (byte : UInt8) : (writeOne b byte).Plain := by
  intro b' chunk data hacc
  rw [acceptWrite_writeOne] at hacc
  cases hacc
  exact plainName_zero

/-- The byte that is there is written again, another block is put, and its byte is written. -/
def harmlessThree : List Incoming :=
  [writeOne ⟨1, 1, 1⟩ 5, .block (some (BlockData.toWire ⟨⟨1, 2, 1⟩, [], []⟩)),
    writeOne ⟨1, 2, 1⟩ 7]

/-- The theorem, for these requests. -/
theorem closed_immutable_iff_harmlessThree : ∃ n : DiskNode, n.Shows dataRoot closedOne ∧
    (n.target dataRoot).state 1 = some .closed ∧
    (∃ n', Serves (StoreOp.OnDisk dataRoot fun _ => True) harmlessThree n n') ∧
    (∀ n', Serves (StoreOp.OnDisk dataRoot fun _ => True) harmlessThree n n' →
      (n'.target dataRoot).state 1 = some .closed ∧
        ∀ b, b.container = 1 → n'.store.getBlock b = n.store.getBlock b) ∧
    ∀ us', us' <+: harmlessThree →
      ∀ n', Serves (StoreOp.OnDisk dataRoot fun _ => True) us' n n' →
        Unchanged (StoreOp.OnDisk dataRoot StoreOp.never) DiskNode.store 1 n n' := by
  obtain ⟨n, hR, hclean⟩ := exists_closedOne
  have hstate : (n.target dataRoot).state 1 = some .closed := by
    rw [Target.state, show (n.target dataRoot).store = closedOne.store from hR.store.symm]
    decide +kernel
  have hplain : ∀ u ∈ harmlessThree, u.Plain := by
    simp only [harmlessThree, List.forall_mem_cons]
    exact ⟨plain_writeOne _ _, trivial, plain_writeOne _ _, List.forall_mem_nil _⟩
  have hrecorded : ∀ b name, Recorded 1 n.store b name → b = ⟨1, 1, 1⟩ ∧ name = "0" :=
    fun b name hrec => recorded_closedOne (hR.store ▸ hrec)
  have hwrite : ∀ (b : BlockId) (byte : UInt8),
      (b = ⟨1, 1, 1⟩ → (n.target dataRoot).chunks b "0" = some [byte]) →
      (writeOne b byte).Harmless 1 (n.target dataRoot) := by
    intro b byte hbyte b' chunk data hacc hrec
    rw [acceptWrite_writeOne] at hacc
    cases hacc
    exact hbyte (hrecorded _ _ hrec).1
  obtain ⟨t', hserves⟩ := exists_serves StoreOp.never harmlessThree closedOne
  obtain ⟨n', hserves', -⟩ := hserves.realized (fun _ => True) hplain hR hclean
  obtain ⟨hrecords, hbytes⟩ := closed_immutable_iff hstate hclean
    (fun b name hrec => (hrecorded b name hrec).2 ▸ plainName_zero) (fun _ => True) hplain
  refine ⟨n, hR, hstate, ⟨n', hserves'⟩, hrecords, hbytes.mpr ?_⟩
  simp only [harmlessThree, List.forall_mem_cons]
  refine ⟨hwrite _ 5 fun _ => ?_, trivial, hwrite _ 7 fun hb => ?_, List.forall_mem_nil _⟩
  · have hstored := (n.shows_target dataRoot).chunk ⟨⟨1, 1, 1⟩, "0", plainName_zero⟩
    rw [← hR.chunk ⟨⟨1, 1, 1⟩, "0", plainName_zero⟩] at hstored
    exact hstored.trans (by decide +kernel)
  · exact absurd hb (by decide)

/-- **A closed container is written to.** The write is accepted, and what is read is another
byte. -/
theorem closed_overwritten : ∃ n n' : DiskNode, (n.target dataRoot).state 1 = some .closed ∧
    Recorded 1 n.store ⟨1, 1, 1⟩ "0" ∧
    Returns (StoreOp.OnDisk dataRoot StoreOp.never) n (plainRead ⟨1, 1, 1⟩ "0")
      (.ok [([5], true)]) ∧
    (writeOne ⟨1, 1, 1⟩ 6).handler.Ends (StoreOp.OnDisk dataRoot StoreOp.never) n (.ok 1) n' ∧
    Returns (StoreOp.OnDisk dataRoot StoreOp.never) n' (plainRead ⟨1, 1, 1⟩ "0")
      (.ok [([6], true)]) := by
  obtain ⟨n, hR, hclean⟩ := exists_closedOne
  obtain ⟨n', hend, hR', hclean'⟩ := Prog.Ends.realized (plain_writeOne _ _).makes hR hclean
    (fun _ => False.elim)
    (ends_write StoreOp.never (acceptWrite_writeOne ⟨1, 1, 1⟩ 6) closedOne)
  have hread : ∀ {m : DiskNode} {t : Target} {byte : UInt8}, m.Shows dataRoot t →
      Clean dataRoot m.disk.tree → t.chunks ⟨1, 1, 1⟩ "0" = some [byte] →
      Returns (StoreOp.OnDisk dataRoot StoreOp.never) m (plainRead ⟨1, 1, 1⟩ "0")
        (.ok (flagLast (frame readFrameBytes [byte]))) := fun hR hclean hbyte =>
    (returns_onDisk_iff (isRead_plainRead _ _) plainName_zero hR hclean).mpr
      (returns_plainRead.mpr hbyte)
  have hold : flagLast (frame readFrameBytes [5]) = [([5], true)] := by decide +kernel
  have hnew : flagLast (frame readFrameBytes [6]) = [([6], true)] := by decide +kernel
  rw [← hold, ← hnew]
  refine ⟨n, n', ?_, ?_, hread hR hclean (by decide +kernel), hend, hread hR' hclean' ?_⟩
  · rw [Target.state, show (n.target dataRoot).store = closedOne.store from hR.store.symm]
    decide +kernel
  · rw [← hR.store]
    exact ⟨rfl, closedBlock, by decide +kernel, _, List.mem_singleton_self _, rfl⟩
  · exact Holdings.chunk_setChunk_self (h := closedOne.holdings)

end OzoneRust
