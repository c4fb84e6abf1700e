import OzoneRust.Storage.ChunkStore
import OzoneRust.Storage.Listing
import OzoneRust.Storage.Refinement

/-!
# The scrubber

`scrub.rs`: a pass goes through the containers, the pages of their blocks and the chunks of
each block, reads every chunk that has digests and checks it against them. A chunk that is
gone, or does not fit its digests, is a request for a repair. Any other failure of a read ends
the pass with an error, and `run` sends what a pass has found only if the pass has not ended
so.

The three loops and the pages come to one loop over the chunks to check
(`OzoneRust.Scrubber.scrubOnce_eq`), as long as no block group has two slots here, so that the
listing ends (`OzoneRust.listBlocksStream_complete_iff`). Hence a pass that finds something
reports all there is to find exactly if no read fails otherwise
(`OzoneRust.Scrubber.scrub_complete_iff`).
-/

namespace OzoneRust

namespace Scrubber

/-! ### A pass -/

/-- `RepairRequest`: a shard that needs a repair. -/
structure RepairRequest where
  /-- The container. -/
  container : ContainerId
  /-- The block group. -/
  localId : LocalId
  /-- The slot. -/
  slot : UInt8
  /-- The configuration of the container. -/
  ec : EcReplicationConfig
  /-- The length of the group. -/
  blockGroupLen : UInt64
  deriving DecidableEq, Repr

/-- `ScrubReport`. -/
structure ScrubReport where
  /-- Chunks that are as they should be. -/
  clean : ℕ
  /-- Shards that are not. -/
  corrupt : List RepairRequest
  deriving DecidableEq, Repr

/-- What a read of the file of a chunk returns, by block and name. -/
abbrev Reads := BlockId → String → Except FileError Bytes

/-- `read_chunk`, with what the read of the file returns. -/
def readChunk (disk : Reads) (b : BlockId) (name : String) : Except StorageError Bytes :=
  match disk b name with
  | .ok data => .ok data
  | .error .notFound => .error (.blockNotFound b)
  | .error e => .error (.ofFile e)

/-- Whether a chunk needs a repair; an error that ends the pass is neither. -/
def isCorrupt (disk : Reads) (b : BlockId) (name : String) (cd : ChecksumData) :
    Except StorageError Bool :=
  match readChunk disk b name with
  | .ok bytes => .ok (Checksum.verify bytes cd matches .error _)
  | .error (.blockNotFound _) => .ok true
  | .error e => .error e

/-- The request for a shard. -/
def request (c : ContainerId) (ec : EcReplicationConfig) (bd : BlockData) : RepairRequest :=
  ⟨c, bd.blockId.localId, bd.blockId.replicaIndex, ec, bd.blockGroupLen.getD 0⟩

/-- One chunk. A chunk without digests is passed over. -/
def scrubChunk (disk : Reads) (c : ContainerId) (ec : EcReplicationConfig) (bd : BlockData)
    (report : ScrubReport) (chunk : ChunkInfo) : Except StorageError ScrubReport :=
  match chunk.checksumData with
  | none => .ok report
  | some cd => do
    if ← isCorrupt disk bd.blockId chunk.chunkName cd then
      return { report with corrupt := report.corrupt ++ [request c ec bd] }
    else return { report with clean := report.clean + 1 }

/-- One block. -/
def scrubBlock (disk : Reads) (c : ContainerId) (ec : EcReplicationConfig) (report : ScrubReport)
    (bd : BlockData) : Except StorageError ScrubReport :=
  bd.chunks.foldlM (scrubChunk disk c ec bd) report

/-- The page size. -/
def page : ℕ := 256

/-- The pages of a container from a local id on; `none` if they are more. -/
def scrubPages (s : MetaStore) (disk : Reads) (c : ContainerId) (ec : EcReplicationConfig) :
    ℕ → UInt64 → ScrubReport → Option (Except StorageError ScrubReport)
  | 0, _, _ => none
  | fuel + 1, start, report =>
    let pager := s.listBlocks c start page
    match pager.blocks.foldlM (scrubBlock disk c ec) report with
    | .error e => some (.error e)
    | .ok report =>
      match pager.nextLocalId with
      | some next => scrubPages s disk c ec fuel next report
      | none => some (.ok report)

/-- The containers of a list. Those without erasure coding are passed over. -/
def scrubContainers (s : MetaStore) (disk : Reads) (fuel : ℕ) :
    List ContainerInfo → ScrubReport → Option (Except StorageError ScrubReport)
  | [], report => some (.ok report)
  | c :: containers, report =>
    match c.ecConfig with
    | none => scrubContainers s disk fuel containers report
    | some ec =>
      match scrubPages s disk c.containerId ec fuel 0 report with
      | some (.ok report) => scrubContainers s disk fuel containers report
      | r => r

/-- `scrub_once`, with a bound for the pages of a container. -/
def scrubOnce (s : MetaStore) (disk : Reads) (fuel : ℕ) :
    Option (Except StorageError ScrubReport) :=
  scrubContainers s disk fuel s.listContainers ⟨0, []⟩

/-- What `run` sends after a pass. -/
def sends : Option (Except StorageError ScrubReport) → List RepairRequest
  | some (.ok report) => report.corrupt
  | _ => []

/-! ### One loop -/

/-- A chunk to check. -/
structure Item where
  /-- The block. -/
  block : BlockId
  /-- The name of the chunk. -/
  name : String
  /-- Its digests. -/
  digests : ChecksumData
  /-- What is sent if it needs a repair. -/
  request : RepairRequest

/-- The chunk of a block, if it has digests. -/
def item (c : ContainerId) (ec : EcReplicationConfig) (bd : BlockData) (chunk : ChunkInfo) :
    Option Item :=
  chunk.checksumData.map fun cd => ⟨bd.blockId, chunk.chunkName, cd, request c ec bd⟩

/-- The chunks of a container. -/
def containerItems (s : MetaStore) (c : ContainerInfo) : List Item :=
  c.ecConfig.elim [] fun ec =>
    (s.scan c.containerId).flatMap fun bd => bd.chunks.filterMap (item c.containerId ec bd)

/-- The chunks to check, in order. -/
def items (s : MetaStore) : List Item := s.listContainers.flatMap (containerItems s)

/-- One chunk to check. -/
def scrubItem (disk : Reads) (report : ScrubReport) (it : Item) :
    Except StorageError ScrubReport := do
  if ← isCorrupt disk it.block it.name it.digests then
    return { report with corrupt := report.corrupt ++ [it.request] }
  else return { report with clean := report.clean + 1 }

/-- A loop over the elements of lists, as loops in a loop. -/
theorem foldlM_flatMap {ε α β γ : Type} (f : β → α → Except ε β) (g : γ → List α) :
    ∀ (l : List γ) (b : β), (l.flatMap g).foldlM f b = l.foldlM (fun b x => (g x).foldlM f b) b
  | [], _ => rfl
  | x :: l, b => by
    rw [List.flatMap_cons, List.foldlM_append, List.foldlM_cons]
    exact congrArg _ (funext fun b' => foldlM_flatMap f g l b')

section Loops

variable {s : MetaStore} {disk : Reads} {c : ContainerId} {ec : EcReplicationConfig}

theorem scrubBlock_eq (report : ScrubReport) (bd : BlockData) :
    scrubBlock disk c ec report bd =
      (bd.chunks.filterMap (item c ec bd)).foldlM (scrubItem disk) report := by
  rw [scrubBlock, List.foldlM_filterMap]
  refine congrArg (fun f => bd.chunks.foldlM f report) ?_
  funext report chunk
  unfold scrubChunk item
  cases chunk.checksumData <;> rfl

/-- The pages are read one after the other, up to an error. -/
theorem scrubPages_eq : ∀ {fuel : ℕ} {start : UInt64} {blocks : List BlockData}
    (report : ScrubReport), s.listBlocksStream c page fuel start = some blocks →
    scrubPages s disk c ec fuel start report = some (blocks.foldlM (scrubBlock disk c ec) report)
  | 0, _, _, _, h => by cases h
  | fuel + 1, start, blocks, report, h => by
    rw [MetaStore.listBlocksStream] at h
    rw [scrubPages]
    cases hnext : (s.listBlocks c start page).nextLocalId with
    | none =>
      rw [hnext] at h
      cases h
      cases (s.listBlocks c start page).blocks.foldlM (scrubBlock disk c ec) report <;> rfl
    | some next =>
      rw [hnext] at h
      obtain ⟨rest, hrest, rfl⟩ := Option.map_eq_some_iff.mp h
      rw [List.foldlM_append]
      cases (s.listBlocks c start page).blocks.foldlM (scrubBlock disk c ec) report with
      | error e => rfl
      | ok report' => exact scrubPages_eq report' hrest

/-- The containers are gone through one after the other, up to an error. -/
theorem scrubContainers_eq {fuel : ℕ}
    (hlist : ∀ c, s.listBlocksStream c page fuel 0 = some (s.scan c)) :
    ∀ (containers : List ContainerInfo) (report : ScrubReport),
      scrubContainers s disk fuel containers report =
        some ((containers.flatMap (containerItems s)).foldlM (scrubItem disk) report)
  | [], _ => rfl
  | c :: containers, report => by
    rw [scrubContainers, List.flatMap_cons, List.foldlM_append]
    unfold containerItems
    cases c.ecConfig with
    | none => exact scrubContainers_eq hlist containers report
    | some ec =>
      dsimp only [Option.elim_some]
      rw [scrubPages_eq report (hlist c.containerId), foldlM_flatMap]
      simp only [← scrubBlock_eq]
      cases (s.scan c.containerId).foldlM (scrubBlock disk c.containerId ec) report with
      | error e => rfl
      | ok report' => exact scrubContainers_eq hlist containers report'

end Loops

/-- A block group has one slot here. -/
def OneSlot (s : MetaStore) : Prop :=
  ∀ c loc slot slot', (s.getBlock ⟨c, loc, slot⟩).isSome → (s.getBlock ⟨c, loc, slot'⟩).isSome →
    slot = slot'

/-- A datanode that holds one slot of all groups. -/
theorem oneSlot_of_forall {s : MetaStore} (hs : s.Keyed) (slot : UInt8)
    (h : ∀ x ∈ s.blocks.entries, x.2.blockId.replicaIndex = slot) : OneSlot s := by
  have hslot : ∀ b : BlockId, (s.getBlock b).isSome → b.replicaIndex = slot := by
    intro b hb
    obtain ⟨bd, hbd⟩ := Option.isSome_iff_exists.mp hb
    rw [← hs.blockId_eq hbd]
    exact h _ (SortedMap.get?_eq_some.mp hbd)
  intro c loc s₁ s₂ h₁ h₂
  exact (hslot ⟨c, loc, s₁⟩ h₁).trans (hslot ⟨c, loc, s₂⟩ h₂).symm

section Store

variable {s : MetaStore} (hs : s.InPlace) (hone : OneSlot s)

include hs hone

/-- Of two blocks, one before the other, the group is not the same. -/
theorem localId_ne_of_before {c : ContainerId} {a b : BlockData} (ha : a ∈ s.scan c)
    (hb : b ∈ s.scan c)
    (h : MetaStore.Before a b) : MetaStore.localIdOf a ≠ MetaStore.localIdOf b := by
  intro heq
  obtain ⟨hgeta, hca⟩ := (MetaStore.mem_scan hs.toKeyed).mp ha
  obtain ⟨hgetb, hcb⟩ := (MetaStore.mem_scan hs.toKeyed).mp hb
  obtain ⟨⟨ca, la, sa⟩, _, _⟩ := a
  obtain ⟨⟨cb, lb, sb⟩, _, _⟩ := b
  obtain rfl : ca = c := hca
  obtain rfl : cb = ca := hcb
  obtain rfl : la = lb := heq
  obtain rfl := hone cb la sa sb (Option.isSome_iff_exists.mpr ⟨_, hgeta⟩)
    (Option.isSome_iff_exists.mpr ⟨_, hgetb⟩)
  exact h.asymm h

/-- **The listing ends**: no two blocks of a page boundary are of one group. -/
theorem listBlocksStream_eq_scan {fuel : ℕ} (hfuel : s.blocks.entries.length < fuel)
    (c : ContainerId) : s.listBlocksStream c page fuel 0 = some (s.scan c) := by
  have hsorted := MetaStore.scan_pairwise hs.toKeyed (c := c)
  have hrest : Paging.rest MetaStore.localIdOf (s.scan c) 0 = s.scan c :=
    List.filter_eq_self.mpr fun bd _ => decide_eq_true (UInt64.zero_le)
  have hlen : (s.scan c).length ≤ s.blocks.entries.length := by
    rw [MetaStore.scan, List.length_map]
    exact List.length_filter_le _ _
  rw [MetaStore.listBlocksStream_eq, Paging.walk_of_aligned (hsorted.imp MetaStore.Before.le)
    (by decide) fuel 0 (by rw [hrest]; omega), hrest]
  rw [hrest]
  intro j a b ha hb heq
  obtain ⟨hi, rfl⟩ := List.getElem?_eq_some_iff.mp ha
  obtain ⟨hj, rfl⟩ := List.getElem?_eq_some_iff.mp hb
  refine localId_ne_of_before hs hone (List.getElem_mem hi) (List.getElem_mem hj) ?_ heq
  exact List.pairwise_iff_getElem.mp hsorted _ _ hi hj (by unfold page; omega)

/-- **A pass is one loop over the chunks to check.** -/
theorem scrubOnce_eq (disk : Reads) {fuel : ℕ} (hfuel : s.blocks.entries.length < fuel) :
    scrubOnce s disk fuel = some ((items s).foldlM (scrubItem disk) ⟨0, []⟩) :=
  scrubContainers_eq (listBlocksStream_eq_scan hs hone hfuel) _ _

end Store

/-! ### What a pass finds -/

/-- The chunk is gone, or does not fit its digests. -/
def NeedsRepair (disk : Reads) (b : BlockId) (name : String) (cd : ChecksumData) : Prop :=
  disk b name = .error .notFound ∨
    ∃ bytes, disk b name = .ok bytes ∧ Checksum.verify bytes cd ≠ .ok ()

/-- The read of the chunk fails, and not because it is gone. -/
def Unreadable (disk : Reads) (b : BlockId) (name : String) : Prop :=
  ∃ message, disk b name = .error (.other message)

theorem isCorrupt_cases (disk : Reads) (b : BlockId) (name : String) (cd : ChecksumData) :
    (Unreadable disk b name ∧ ∃ e, isCorrupt disk b name cd = .error e) ∨
    (¬Unreadable disk b name ∧ NeedsRepair disk b name cd ∧ isCorrupt disk b name cd = .ok true) ∨
    (¬Unreadable disk b name ∧ ¬NeedsRepair disk b name cd ∧
      isCorrupt disk b name cd = .ok false) := by
  unfold Unreadable NeedsRepair isCorrupt readChunk
  match disk b name with
  | .error (.other message) => exact .inl ⟨⟨message, rfl⟩, _, rfl⟩
  | .error .notFound => exact .inr (.inl ⟨by rintro ⟨_, ⟨⟩⟩, .inl rfl, rfl⟩)
  | .ok bytes =>
    dsimp only
    cases hverify : Checksum.verify bytes cd with
    | error e =>
      exact .inr (.inl ⟨by rintro ⟨_, ⟨⟩⟩, .inr ⟨bytes, rfl, by rw [hverify]; nofun⟩, rfl⟩)
    | ok u =>
      refine .inr (.inr ⟨by rintro ⟨_, ⟨⟩⟩, ?_, rfl⟩)
      rintro (h | ⟨bytes', h, hne⟩)
      · cases h
      · cases h
        exact hne hverify

section Items

variable {disk : Reads}

/-- **A pass without a failed read reports what needs a repair.** -/
theorem foldlM_scrubItem : ∀ {l : List Item} (report : ScrubReport),
    (∀ it ∈ l, ¬Unreadable disk it.block it.name) →
    ∃ report', l.foldlM (scrubItem disk) report = .ok report' ∧
      ∀ q, q ∈ report'.corrupt ↔ q ∈ report.corrupt ∨
        ∃ it ∈ l, NeedsRepair disk it.block it.name it.digests ∧ q = it.request
  | [], report, _ => ⟨report, rfl, by simp⟩
  | it :: l, report, h => by
    obtain ⟨hit, hl⟩ := List.forall_mem_cons.mp h
    obtain ⟨hun, -⟩ | ⟨-, hbad, heq⟩ | ⟨-, hgood, heq⟩ :=
      isCorrupt_cases disk it.block it.name it.digests
    · exact absurd hun hit
    · obtain ⟨report', hrun, hmem⟩ := foldlM_scrubItem
        { report with corrupt := report.corrupt ++ [it.request] } hl
      refine ⟨report', ?_, fun q => (hmem q).trans ?_⟩
      · rw [List.foldlM_cons, scrubItem, heq]
        exact hrun
      · simp [hbad, or_assoc]
    · obtain ⟨report', hrun, hmem⟩ := foldlM_scrubItem { report with clean := report.clean + 1 } hl
      refine ⟨report', ?_, fun q => (hmem q).trans ?_⟩
      · rw [List.foldlM_cons, scrubItem, heq]
        exact hrun
      · simp [hgood]

/-- **A failed read ends the pass.** -/
theorem foldlM_scrubItem_error {it : Item} (hit : Unreadable disk it.block it.name) :
    ∀ {l : List Item} (report : ScrubReport), it ∈ l →
      ∃ e, l.foldlM (scrubItem disk) report = .error e
  | it' :: l, report, hmem => by
    rw [List.foldlM_cons]
    cases hfirst : scrubItem disk report it' with
    | error e => exact ⟨e, rfl⟩
    | ok report' =>
      obtain rfl | hmem := List.mem_cons.mp hmem
      · obtain ⟨-, e, herr⟩ | ⟨hno, -⟩ | ⟨hno, -⟩ :=
          isCorrupt_cases disk it.block it.name it.digests
        · rw [scrubItem, herr] at hfirst
          cases hfirst
        · exact absurd hit hno
        · exact absurd hit hno
      · exact foldlM_scrubItem_error hit report' hmem

end Items

/-- A chunk with digests, of a block in a container with erasure coding. -/
def Recorded (s : MetaStore) (bd : BlockData) (chunk : ChunkInfo) (cd : ChecksumData)
    (ec : EcReplicationConfig) : Prop :=
  s.getBlock bd.blockId = some bd ∧ chunk ∈ bd.chunks ∧ chunk.checksumData = some cd ∧
    (s.getContainer bd.blockId.container).bind (·.ecConfig) = some ec

/-- A pass reports the shard: its request is sent, however many pages there may be. -/
def Reported (s : MetaStore) (disk : Reads) (q : RepairRequest) : Prop :=
  ∃ bound, ∀ fuel ≥ bound, q ∈ sends (scrubOnce s disk fuel)

theorem mem_listContainers {s : MetaStore} (hs : s.InPlace) {info : ContainerInfo} :
    info ∈ s.listContainers ↔ s.getContainer info.containerId = some info := by
  constructor
  · intro h
    obtain ⟨⟨k, record⟩, hmem, rfl⟩ := List.mem_map.mp h
    rw [hs.named k record hmem, ← SortedMap.get?_eq_some] at hmem
    exact congrArg (Option.map _) hmem
  · intro h
    obtain ⟨record, hget, rfl⟩ := Option.map_eq_some_iff.mp h
    exact List.mem_map.mpr ⟨_, SortedMap.get?_eq_some.mp hget, rfl⟩

theorem mem_items {s : MetaStore} (hs : s.InPlace) {it : Item} :
    it ∈ items s ↔ ∃ bd chunk cd ec, Recorded s bd chunk cd ec ∧
      it = ⟨bd.blockId, chunk.chunkName, cd, request bd.blockId.container ec bd⟩ := by
  constructor
  · intro h
    obtain ⟨info, hinfo, h⟩ := List.mem_flatMap.mp h
    rw [mem_listContainers hs] at hinfo
    unfold containerItems at h
    cases hec : info.ecConfig with
    | none =>
      rw [hec] at h
      cases h
    | some ec =>
      rw [hec] at h
      obtain ⟨bd, hbd, h⟩ := List.mem_flatMap.mp h
      obtain ⟨chunk, hchunk, h⟩ := List.mem_filterMap.mp h
      obtain ⟨cd, hcd, rfl⟩ := Option.map_eq_some_iff.mp h
      obtain ⟨hget, hc⟩ := (MetaStore.mem_scan hs.toKeyed).mp hbd
      rw [← hc] at hinfo ⊢
      refine ⟨bd, chunk, cd, ec, ⟨hget, hchunk, hcd, ?_⟩, rfl⟩
      rw [hinfo]
      exact hec
  · rintro ⟨bd, chunk, cd, ec, ⟨hget, hchunk, hcd, hec⟩, rfl⟩
    obtain ⟨info, hinfo, hec⟩ := Option.bind_eq_some_iff.mp hec
    obtain ⟨record, hrecord, rfl⟩ := Option.map_eq_some_iff.mp hinfo
    have hid := hs.containerId_eq hrecord
    refine List.mem_flatMap.mpr ⟨record.info, (mem_listContainers hs).mpr (hid.symm ▸ hinfo), ?_⟩
    rw [containerItems, hec, hid]
    refine List.mem_flatMap.mpr ⟨bd, (MetaStore.mem_scan hs.toKeyed).mpr ⟨hget, rfl⟩, ?_⟩
    exact List.mem_filterMap.mpr ⟨chunk, hchunk, Option.map_eq_some_iff.mpr ⟨cd, hcd, rfl⟩⟩

/-- Where a chunk is unreadable, nothing is reported. -/
theorem not_reported_of_unreadable {s : MetaStore} (hs : s.InPlace) (hone : OneSlot s)
    {disk : Reads}
    {bd : BlockData} {chunk : ChunkInfo} {cd : ChecksumData} {ec : EcReplicationConfig}
    (hrec : Recorded s bd chunk cd ec) (hun : Unreadable disk bd.blockId chunk.chunkName)
    (q : RepairRequest) : ¬Reported s disk q := by
  rintro ⟨bound, hsent⟩
  have hmem := (mem_items hs).mpr ⟨bd, chunk, cd, ec, hrec, rfl⟩
  obtain ⟨e, herr⟩ : ∃ e, (items s).foldlM (scrubItem disk) ⟨0, []⟩ = .error e :=
    foldlM_scrubItem_error hun _ hmem
  have hfuel : s.blocks.entries.length < max bound (s.blocks.entries.length + 1) :=
    Nat.lt_of_lt_of_le (Nat.lt_succ_self _) (Nat.le_max_right _ _)
  have hq := hsent _ (Nat.le_max_left bound (s.blocks.entries.length + 1))
  rw [scrubOnce_eq hs hone disk hfuel, herr] at hq
  cases hq

/-- **A pass reports every chunk that needs a repair exactly if, where there is one, no chunk is
unreadable.** -/
theorem scrub_complete_iff {s : MetaStore} (hs : s.InPlace) (hone : OneSlot s) (disk : Reads) :
    (∀ bd chunk cd ec, Recorded s bd chunk cd ec → NeedsRepair disk bd.blockId chunk.chunkName cd →
      Reported s disk (request bd.blockId.container ec bd)) ↔
    ((∃ bd chunk cd ec, Recorded s bd chunk cd ec ∧
      NeedsRepair disk bd.blockId chunk.chunkName cd) →
      ∀ bd chunk cd ec, Recorded s bd chunk cd ec →
        ¬Unreadable disk bd.blockId chunk.chunkName) := by
  constructor
  · rintro hall ⟨bd, chunk, cd, ec, hrec, hbad⟩ bd' chunk' cd' ec' hrec' hun
    exact not_reported_of_unreadable hs hone hrec' hun _ (hall bd chunk cd ec hrec hbad)
  · intro hcond bd chunk cd ec hrec hbad
    have hreadable := hcond ⟨bd, chunk, cd, ec, hrec, hbad⟩
    have hitems : ∀ it ∈ items s, ¬Unreadable disk it.block it.name := by
      intro it hit
      obtain ⟨bd', chunk', cd', ec', hrec', rfl⟩ := (mem_items hs).mp hit
      exact hreadable bd' chunk' cd' ec' hrec'
    obtain ⟨report, hrun, hmem⟩ := foldlM_scrubItem ⟨0, []⟩ hitems
    refine ⟨s.blocks.entries.length + 1, fun fuel hfuel => ?_⟩
    rw [scrubOnce_eq hs hone disk hfuel, hrun]
    refine (hmem _).mpr (.inr ⟨_, (mem_items hs).mpr ⟨bd, chunk, cd, ec, hrec, rfl⟩, hbad, rfl⟩)

/-! ### A chunk that is gone and one that cannot be read -/

/-- A block of the container `1` with an empty chunk. -/
def emptyBlock (loc : UInt64) : BlockData :=
  ⟨⟨1, loc, 1⟩, [⟨"0", 0, 0, some ⟨.crc32c, 1, []⟩⟩], []⟩

/-- The chunk of the block `7` is gone, the others cannot be read. -/
def failingDisk : Reads := fun b _ =>
  if b.localId = 7 then .error .notFound else .error (.other "EIO")

/-- A store with the blocks `7` and `8`. -/
theorem exists_twoBlocks : ∃ log s, Trace MetaStore.Step MetaStore.empty log s ∧
    OneSlot s ∧ Recorded s (emptyBlock 7) ⟨"0", 0, 0, some ⟨.crc32c, 1, []⟩⟩ ⟨.crc32c, 1, []⟩
      ⟨2, 1, 1, .rs⟩ ∧
    Recorded s (emptyBlock 8) ⟨"0", 0, 0, some ⟨.crc32c, 1, []⟩⟩ ⟨.crc32c, 1, []⟩
      ⟨2, 1, 1, .rs⟩ := by
  have h₁ := trace_snoc_ok .nil (.createContainer 1 ⟨2, 1, 1, .rs⟩) rfl (by decide)
  have h₂ := trace_snoc_ok h₁ (.putBlock (emptyBlock 7)) rfl (by decide)
  have h₃ := trace_snoc_ok h₂ (.putBlock (emptyBlock 8)) rfl (by decide)
  have htrace := h₃.mono fun _ _ _ h => h.1
  exact ⟨_, _, htrace, oneSlot_of_forall (MetaStore.keyed_of_trace htrace) 1 (by decide),
    ⟨rfl, by decide, rfl, rfl⟩, ⟨rfl, by decide, rfl, rfl⟩⟩

/-- The store with the two blocks. -/
theorem scrub_complete_iff_twoBlocks : ∃ s, s.InPlace ∧ OneSlot s ∧
    ((∀ bd chunk cd ec, Recorded s bd chunk cd ec →
        NeedsRepair failingDisk bd.blockId chunk.chunkName cd →
        Reported s failingDisk (request bd.blockId.container ec bd)) ↔
      ((∃ bd chunk cd ec, Recorded s bd chunk cd ec ∧
          NeedsRepair failingDisk bd.blockId chunk.chunkName cd) →
        ∀ bd chunk cd ec, Recorded s bd chunk cd ec →
          ¬Unreadable failingDisk bd.blockId chunk.chunkName)) := by
  obtain ⟨log, s, htrace, hone, -⟩ := exists_twoBlocks
  have hs := MetaStore.inPlace_of_trace htrace
  exact ⟨s, hs, hone, scrub_complete_iff hs hone failingDisk⟩

/-- **A chunk that is gone is not reported**: another cannot be read. -/
theorem missing_chunk_unreported : ∃ log s, Trace MetaStore.Step MetaStore.empty log s ∧ OneSlot s ∧
    Recorded s (emptyBlock 7) ⟨"0", 0, 0, some ⟨.crc32c, 1, []⟩⟩ ⟨.crc32c, 1, []⟩ ⟨2, 1, 1, .rs⟩ ∧
    NeedsRepair failingDisk (emptyBlock 7).blockId "0" ⟨.crc32c, 1, []⟩ ∧
    ¬Reported s failingDisk (request 1 ⟨2, 1, 1, .rs⟩ (emptyBlock 7)) := by
  obtain ⟨log, s, htrace, hone, hgone, hunread⟩ := exists_twoBlocks
  have hs := MetaStore.inPlace_of_trace htrace
  exact ⟨log, s, htrace, hone, hgone, .inl rfl,
    not_reported_of_unreadable hs hone hunread ⟨"EIO", rfl⟩ _⟩

end Scrubber

end OzoneRust
