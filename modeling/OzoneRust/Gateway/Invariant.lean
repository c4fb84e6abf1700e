import OzoneRust.Ec.Decode
import OzoneRust.Gateway.World

/-!
# What the gateway's calls keep in common

Any number of `put_object`, `get_object` and `delete_object` calls run side by side, one
request at a time, and fail anywhere. This file states what holds between any two requests
and what a single request may do, and proves that each kind of request fits.

The invariant is `OzoneRust.Consistency.Inv`: every commit that was applied is that of a
`put_object` on the same key, its locations are those of the segments of the body, in order,
and each slot of each group holds the shard of its segment or, once a `delete_object` of the
key has started, possibly nothing. The guarantee of a call is `OzoneRust.Consistency.Guar`:
it allocates groups to itself, writes only to groups of its own and only before its commit,
and otherwise only deletes from groups of committed keys whose deletion has started.

A `put_object` keeps `OzoneRust.Consistency.PutState`, which no other call can spoil
(`OzoneRust.Consistency.PutState.stable`); its commit turns that state into the invariant
for the new key (`OzoneRust.Consistency.Inv.commit`).
-/

namespace OzoneRust

namespace Consistency

open Layout RelyGuarantee

/-! ### Log -/

theorem commits_append (l l' : List Event) : commits (l ++ l') = commits l ++ commits l' :=
  List.filterMap_append ..

/-- A `delete_object` of the key has started. -/
def DeleteStarted (req : Tid → Request) (log : List Event) (key : KeyName) : Prop :=
  ∃ u, req u = .delete key ∧ Event.start u ∈ log

/-- No commit of call `t` was applied. -/
def Uncommitted (log : List Event) (t : Tid) : Prop := ∀ key locs, (t, key, locs) ∉ commits log

theorem DeleteStarted.append {req : Tid → Request} {log : List Event} {key : KeyName}
    (h : DeleteStarted req log key) (l : List Event) : DeleteStarted req (log ++ l) key := by
  obtain ⟨u, hu, hmem⟩ := h
  exact ⟨u, hu, List.mem_append_left _ hmem⟩

theorem tid_of_commit? {e : Event} {t : Tid} {key : KeyName} {locs : List KeyLocation}
    (h : e.commit? = some (t, key, locs)) : e.tid = t := by
  unfold Event.commit? at h
  split at h
  · simp only [Option.some.injEq, Prod.mk.injEq] at h
    exact h.1
  · cases h

/-- The events of other calls do not commit for `t`. -/
theorem Uncommitted.append {log : List Event} {t : Tid} (h : Uncommitted log t) {e : Event}
    (he : ∀ key locs, e.commit? ≠ some (t, key, locs)) : Uncommitted (log ++ [e]) t := by
  intro key locs hmem
  rw [commits_append, List.mem_append] at hmem
  rcases hmem with hmem | hmem
  · exact h key locs hmem
  · obtain ⟨e', he', hc⟩ := List.mem_filterMap.mp hmem
    rw [List.mem_singleton] at he'
    exact he key locs (he' ▸ hc)

/-! ### Invariant and guarantee -/

/-- The cell of slot `i + 1` of a group, where it is placed. -/
def slotCell (w : World) (place : Placement) (g : GroupId) (i : ℕ) : Cell :=
  w.cells (place.endpoint (UInt8.ofNat (i + 1))) (slotOf g (UInt8.ofNat (i + 1)))

/-- The shard of slot `i + 1` of a segment. -/
def slotShard (place : Placement) (seg : Bytes) (i : ℕ) : Bytes :=
  shard place.config.profile seg i

/-- The digests of this shard, as a put records them. -/
def slotDigests (place : Placement) (seg : Bytes) (i : ℕ) : ChecksumData :=
  ⟨.crc32c, place.config.ecChunkSize,
    (Blocks.chunks (Checksum.bpc place.config.ecChunkSize) (slotShard place seg i)).map
      fun window => Checksum.toBeBytes (Checksum.crc32c window)⟩

/-- Slot `i + 1` as a put leaves it. -/
def slotWritten (place : Placement) (seg : Bytes) (i : ℕ) : Cell :=
  ⟨some (slotShard place seg i), some (slotDigests place seg i)⟩

theorem verify_slotDigests (place : Placement) (seg : Bytes) (i : ℕ) :
    Checksum.verify (slotShard place seg i) (slotDigests place seg i) = .ok () := by
  have hcompute : Checksum.compute (slotShard place seg i) place.config.ecChunkSize .crc32c =
    .ok (slotDigests place seg i) := rfl
  exact Checksum.verify_compute hcompute

/-- A group that a lookup finds: it is allocated, and the location is one that the client reads. -/
structure LocatedGroup (w : World) (a : Alloc) (loc : KeyLocation) (seg : Bytes) : Prop where
  /-- The group is allocated. -/
  alloc : w.alloc loc.group = some a
  /-- The container id is one the client reads. -/
  containerId : ¬loc.containerId < 0
  /-- The local id is one the client reads. -/
  localId : ¬loc.localId < 0
  /-- The length is that of the segment. -/
  length : loc.length.toNat = seg.length

/-- A committed group: each slot holds its shard, or less once the key's deletion has
started. -/
structure SealedGroup (req : Tid → Request) (w : World) (t : Tid) (key : KeyName) (a : Alloc)
    (loc : KeyLocation) (seg : Bytes) : Prop where
  /-- The group is allocated. -/
  alloc : w.alloc loc.group = some a
  /-- It was allocated to call `t`. -/
  owner : a.owner = t
  /-- The container id is one the client reads. -/
  containerId : ¬loc.containerId < 0
  /-- The local id is one the client reads. -/
  localId : ¬loc.localId < 0
  /-- The length is that of the segment. -/
  length : loc.length.toNat = seg.length
  /-- What a slot holds is its shard. -/
  shard : ∀ i < a.place.total, (slotCell w a.place loc.group i).chunk = none ∨
    (slotCell w a.place loc.group i).chunk = some (slotShard a.place seg i)
  /-- What is recorded of a slot agrees with its shard. -/
  digests : ∀ i < a.place.total, ∀ cd, (slotCell w a.place loc.group i).digests = some cd →
    Checksum.verify (slotShard a.place seg i) cd = .ok ()
  /-- Without a deletion it is held. -/
  held : ∀ i < a.place.total, DeleteStarted req w.log key ∨
    slotCell w a.place loc.group i = slotWritten a.place seg i

theorem SealedGroup.located {req : Tid → Request} {w : World} {t : Tid} {key : KeyName} {a : Alloc}
    {loc : KeyLocation} {seg : Bytes} (h : SealedGroup req w t key a loc seg) :
    LocatedGroup w a loc seg :=
  ⟨h.alloc, h.containerId, h.localId, h.length⟩

theorem SealedGroup.sound {req : Tid → Request} {w : World} {t : Tid} {key : KeyName} {a : Alloc}
    {loc : KeyLocation} {seg : Bytes} (h : SealedGroup req w t key a loc seg) {i : ℕ}
    (hi : i < a.place.total) : (slotCell w a.place loc.group i).Sound := by
  intro data cd hdata hcd
  rcases h.shard i hi with hnone | hsome
  · cases hnone.symm.trans hdata
  · obtain rfl := Option.some.inj (hsome.symm.trans hdata)
    exact h.digests i hi cd hcd

/-- **The invariant**: what the applied commits, the keys and the slots have to do with each
other. -/
structure Inv (gw : Gateway) (req : Tid → Request) (w : World) : Prop where
  /-- A commit is that of a put, and its groups hold the segments of the body. -/
  sealed : ∀ t key locs, (t, key, locs) ∈ commits w.log → ∃ body metadata tags,
    req t = .put key body metadata tags ∧ (locs.map KeyLocation.group).Nodup ∧
    List.Forall₂ (fun loc seg => ∃ a, SealedGroup req w t key a loc seg) locs
      (Blocks.chunks gw.blockGroupSize body.bytes)
  /-- A key has the locations of its last commit. -/
  current : ∀ key rec, w.keys key = some rec →
    ∃ t, lastCommit w.log key = some (t, key, rec.locations)
  /-- Without a deletion a committed key stays. -/
  kept : ∀ key c, lastCommit w.log key = some c →
    DeleteStarted req w.log key ∨ ∃ rec, w.keys key = some rec

/-- **The guarantee** of call `t`. -/
structure Guar (req : Tid → Request) (t : Tid) (w w' : World) : Prop where
  /-- One event, its own. -/
  log : ∃ e, w'.log = w.log ++ [e] ∧ e.tid = t
  /-- Groups stay allocated. -/
  alloc : ∀ g a, w.alloc g = some a → w'.alloc g = some a
  /-- New groups are its own. -/
  fresh : ∀ g a, w'.alloc g = some a → w.alloc g = some a ∨ a.owner = t
  /-- It writes to its own groups before its commit, and deletes from groups of committed
  keys whose deletion has started. -/
  cells : ∀ ep b, w'.cells ep b = w.cells ep b ∨
    ((∃ a, w.alloc b.group = some a ∧ a.owner = t) ∧ Uncommitted w.log t) ∨
    ((w.cells ep b).Reduced (w'.cells ep b) ∧ ∃ a key locs, w.alloc b.group = some a ∧
      (a.owner, key, locs) ∈ commits w.log ∧ DeleteStarted req w.log key)

section Steps

variable {gw : Gateway} {req : Tid → Request} {t u : Tid} {w w' : World}

/-- A committed group stays one, whatever a call does within its guarantee. -/
theorem SealedGroup.step (hI : Inv gw req w) (hG : Guar req u w w') {key : KeyName}
    {locs : List KeyLocation} (hc : (t, key, locs) ∈ commits w.log) {a : Alloc}
    {loc : KeyLocation} {seg : Bytes} (h : SealedGroup req w t key a loc seg) :
    SealedGroup req w' t key a loc seg := by
  obtain ⟨e, hlog, -⟩ := hG.log
  have hkeep : ∀ i, slotCell w' a.place loc.group i = slotCell w a.place loc.group i ∨
      (slotCell w a.place loc.group i).Reduced (slotCell w' a.place loc.group i) ∧
        DeleteStarted req w.log key := by
    intro i
    rcases hG.cells _ _ with heq | ⟨⟨a', ha', howner⟩, hun⟩ | ⟨hred, a', key', locs', ha', hc', hd⟩
    · exact .inl heq
    · -- the writer has not committed, the owner of this group has
      obtain rfl : a = a' := Option.some.inj (h.alloc.symm.trans ha')
      exact absurd hc ((h.owner.symm.trans howner) ▸ hun key locs)
    · obtain rfl : a = a' := Option.some.inj (h.alloc.symm.trans ha')
      rw [h.owner] at hc'
      obtain ⟨_, _, _, hreq, -⟩ := hI.sealed t key locs hc
      obtain ⟨_, _, _, hreq', -⟩ := hI.sealed t key' locs' hc'
      rw [hreq] at hreq'
      cases hreq'
      exact .inr ⟨hred, hd⟩
  refine ⟨hG.alloc _ _ h.alloc, h.owner, h.containerId, h.localId, h.length, ?_, ?_, ?_⟩
  · intro i hi
    rcases hkeep i with heq | ⟨⟨hred | hred, -⟩, -⟩
    · rw [heq]
      exact h.shard i hi
    · rw [hred]
      exact h.shard i hi
    · exact .inl hred
  · intro i hi
    rcases hkeep i with heq | ⟨hred, -⟩
    · rw [heq]
      exact h.digests i hi
    · intro cd hcd
      rcases hred.2 with hdigests | hdigests
      · exact h.digests i hi cd (hdigests ▸ hcd)
      · cases hdigests.symm.trans hcd
  · intro i hi
    rw [hlog]
    rcases hkeep i with heq | ⟨-, hd⟩
    · rw [heq]
      exact (h.held i hi).imp_left fun hd => hd.append _
    · exact .inl (hd.append _)

/-- **A step that commits nothing keeps the invariant.** -/
theorem Inv.step (hI : Inv gw req w) (hG : Guar req u w w')
    (hcommits : commits w'.log = commits w.log)
    (hkeys : ∀ key, w'.keys key = w.keys key ∨
      w'.keys key = none ∧ DeleteStarted req w.log key) : Inv gw req w' := by
  obtain ⟨e, hlog, -⟩ := hG.log
  refine ⟨?_, ?_, ?_⟩
  · intro t key locs hc
    rw [hcommits] at hc
    obtain ⟨body, metadata, tags, hreq, hnd, hsealed⟩ := hI.sealed t key locs hc
    exact ⟨body, metadata, tags, hreq, hnd,
      hsealed.imp fun loc seg ⟨a, ha⟩ => ⟨a, ha.step hI hG hc⟩⟩
  · intro key rec hrec
    rcases hkeys key with heq | ⟨hnone, -⟩
    · rw [lastCommit, hcommits]
      exact hI.current key rec (heq ▸ hrec)
    · rw [hnone] at hrec
      cases hrec
  · intro key c hc
    rw [lastCommit, hcommits] at hc
    rw [hlog]
    rcases hkeys key with heq | ⟨-, hd⟩
    · rw [heq]
      exact (hI.kept key c hc).imp_left fun hd => hd.append _
    · exact .inl (hd.append _)

theorem commits_append_of_none {log : List Event} {e : Event} (he : e.commit? = none) :
    commits (log ++ [e]) = commits log := by
  simp [commits, he]

/-- An event that leaves the services alone. -/
theorem Guar.logged {e : Event} (he : e.tid = t) : Guar req t w (w.logged e) :=
  ⟨⟨e, rfl, he⟩, fun _ _ h => h, fun _ _ h => .inl h, fun _ _ => .inl rfl⟩

theorem Inv.logged (hI : Inv gw req w) {e : Event} (hc : e.commit? = none) (he : e.tid = t) :
    Inv gw req (w.logged e) ∧ Guar req t w (w.logged e) :=
  ⟨hI.step (Guar.logged he) (commits_append_of_none hc) fun _ => .inl rfl, Guar.logged he⟩

theorem alloc_allocate {grants : List (KeyLocation × Placement)} (hgrants : Grants w t grants)
    {x : KeyLocation × Placement} (hx : x ∈ grants) :
    (w.allocate t grants).alloc x.1.group = some ⟨t, x.2⟩ := by
  have hfind : grants.find? (fun y => y.1.group = x.1.group) = some x :=
    Lists.find?_key_of_mem hgrants.nodup hx
  simp only [World.allocate, hfind]

theorem alloc_allocate_of_some {grants : List (KeyLocation × Placement)}
    (hgrants : Grants w t grants) {g : GroupId} {a : Alloc} (ha : w.alloc g = some a) :
    (w.allocate t grants).alloc g = some a := by
  have hnone : grants.find? (fun x => x.1.group = g) = none := by
    refine List.find?_eq_none.mpr fun x hx hg => ?_
    have hfresh := hgrants.fresh x hx
    rw [of_decide_eq_true hg, ha] at hfresh
    cases hfresh
  simp only [World.allocate, hnone, ha]

theorem alloc_allocate_cases {grants : List (KeyLocation × Placement)} {g : GroupId} {a : Alloc}
    (ha : (w.allocate t grants).alloc g = some a) :
    w.alloc g = some a ∨ ∃ x ∈ grants, a = ⟨t, x.2⟩ := by
  simp only [World.allocate] at ha
  split at ha
  case h_1 x hx => exact .inr ⟨x, List.mem_of_find?_eq_some hx, (Option.some.inj ha).symm⟩
  case h_2 => exact .inl ha

/-- Groups are allocated to the call. -/
theorem Inv.allocate (hI : Inv gw req w) {e : Event} (hc : e.commit? = none) (he : e.tid = t)
    {grants : List (KeyLocation × Placement)} (hgrants : Grants w t grants) :
    Inv gw req ((w.allocate t grants).logged e) ∧
      Guar req t w ((w.allocate t grants).logged e) := by
  have hG : Guar req t w ((w.allocate t grants).logged e) := by
    refine ⟨⟨e, rfl, he⟩, ?_, ?_, fun _ _ => .inl rfl⟩
    · exact fun g a ha => alloc_allocate_of_some hgrants ha
    · intro g a ha
      rcases alloc_allocate_cases ha with ha | ⟨x, -, rfl⟩
      · exact .inl ha
      · exact .inr rfl
  exact ⟨hI.step hG (commits_append_of_none hc) fun _ => .inl rfl, hG⟩

/-- The call writes to a group of its own. -/
theorem Inv.setCell (hI : Inv gw req w) {e : Event} (hc : e.commit? = none) (he : e.tid = t)
    {ep : String} {b : BlockId} (hown : ∃ a, w.alloc b.group = some a ∧ a.owner = t)
    (hun : Uncommitted w.log t) (c : Cell) :
    Inv gw req ((w.setCell ep b c).logged e) ∧ Guar req t w ((w.setCell ep b c).logged e) := by
  have hG : Guar req t w ((w.setCell ep b c).logged e) := by
    refine ⟨⟨e, rfl, he⟩, fun _ _ h => h, fun _ _ h => .inl h, fun ep' b' => ?_⟩
    by_cases hb : b' = b
    · exact .inr (.inl ⟨hb ▸ hown, hun⟩)
    · exact .inl (w.cells_setCell_of_ne c fun h => hb h.2)
  exact ⟨hI.step hG (commits_append_of_none hc) fun _ => .inl rfl, hG⟩

/-- The call deletes from a group of a committed key whose deletion has started. -/
theorem Inv.reduceCell (hI : Inv gw req w) {e : Event} (hc : e.commit? = none) (he : e.tid = t)
    {ep : String} {b : BlockId} {a : Alloc} {key : KeyName} {locs : List KeyLocation}
    (ha : w.alloc b.group = some a) (hcom : (a.owner, key, locs) ∈ commits w.log)
    (hd : DeleteStarted req w.log key) {c : Cell} (hred : (w.cells ep b).Reduced c) :
    Inv gw req ((w.setCell ep b c).logged e) ∧ Guar req t w ((w.setCell ep b c).logged e) := by
  have hG : Guar req t w ((w.setCell ep b c).logged e) := by
    refine ⟨⟨e, rfl, he⟩, fun _ _ h => h, fun _ _ h => .inl h, fun ep' b' => ?_⟩
    by_cases hslot : ep' = ep ∧ b' = b
    · obtain ⟨rfl, rfl⟩ := hslot
      refine .inr (.inr ⟨?_, a, key, locs, ha, hcom, hd⟩)
      rw [World.logged, World.cells_setCell_self]
      exact hred
    · exact .inl (w.cells_setCell_of_ne c hslot)
  exact ⟨hI.step hG (commits_append_of_none hc) fun _ => .inl rfl, hG⟩

/-- A key whose deletion has started is removed. -/
theorem Inv.removeKey (hI : Inv gw req w) {e : Event} (hc : e.commit? = none) (he : e.tid = t)
    {key : KeyName} (hd : DeleteStarted req w.log key) :
    Inv gw req ((w.setKey key none).logged e) ∧ Guar req t w ((w.setKey key none).logged e) := by
  have hG : Guar req t w ((w.setKey key none).logged e) :=
    ⟨⟨e, rfl, he⟩, fun _ _ h => h, fun _ _ h => .inl h, fun _ _ => .inl rfl⟩
  refine ⟨hI.step hG (commits_append_of_none hc) fun key' => ?_, hG⟩
  simp only [World.logged, World.setKey]
  by_cases hk : key' = key
  · rw [hk, Function.update_self]
    exact .inr ⟨rfl, hd⟩
  · rw [Function.update_of_ne hk]
    exact .inl rfl

end Steps

/-! ### What a put keeps -/

/-- A block that is allocated to call `t`. -/
structure Holds (w : World) (t : Tid) (a : Alloc) (block : BlockLocation) : Prop where
  /-- Its group is allocated. -/
  alloc : w.alloc block.group = some a
  /-- To call `t`. -/
  owner : a.owner = t
  /-- With this configuration. -/
  ec : block.ec = a.place.config
  /-- And these members. -/
  members : block.members.Perm a.place.slotList
  /-- The container id fits the wire. -/
  containerId : ¬block.containerId.toInt64 < 0
  /-- The local id fits the wire. -/
  localId : ¬block.localId.toInt64 < 0

/-- A block all of whose slots hold the shards of a segment. -/
structure Written (w : World) (t : Tid) (a : Alloc) (block : BlockLocation) (seg : Bytes) : Prop
    extends Holds w t a block where
  /-- The length is that of the segment. -/
  length : block.length.toNat = seg.length
  /-- The shards are held. -/
  held : ∀ i < a.place.total,
    slotCell w a.place block.group i = slotWritten a.place seg i

/-- **What a put keeps** while it writes: the blocks it still has in advance, and the blocks
it has written, with their segments. -/
structure PutState (t : Tid) (ec : Option EcReplicationConfig) (pre written : List BlockLocation)
    (segs : List Bytes) (w : World) : Prop where
  /-- It has not committed. -/
  uncommitted : Uncommitted w.log t
  /-- All its groups carry one configuration. -/
  config : ∀ c, ec = some c → ∀ g a, w.alloc g = some a → a.owner = t → a.place.config = c
  /-- And one of them is there. -/
  used : ∀ c, ec = some c → ∃ g a, w.alloc g = some a ∧ a.owner = t ∧ a.place.config = c
  /-- The blocks in advance are its own. -/
  preHeld : ∀ block ∈ pre, ∃ a, Holds w t a block
  /-- The written blocks hold their segments. -/
  writtenHeld : List.Forall₂ (fun block seg => ∃ a, Written w t a block seg) written segs
  /-- No group twice. -/
  nodup : ((pre ++ written).map BlockLocation.group).Nodup

section Put

variable {gw : Gateway} {req : Tid → Request} {t : Tid} {w w' : World}

/-- From `w` to `w'`, groups stay allocated, and the cells of the groups of `t` outside
`except` are untouched. -/
structure Frame (t : Tid) (except : GroupId → Prop) (w w' : World) : Prop where
  /-- Groups stay allocated. -/
  alloc : ∀ g a, w.alloc g = some a → w'.alloc g = some a
  /-- Cells are untouched. -/
  cells : ∀ ep b a, w.alloc b.group = some a → a.owner = t → ¬except b.group →
    w'.cells ep b = w.cells ep b

theorem Holds.frame {except : GroupId → Prop} (hF : Frame t except w w') {a : Alloc}
    {block : BlockLocation} (h : Holds w t a block) : Holds w' t a block :=
  { h with alloc := hF.alloc _ _ h.alloc }

theorem Frame.slotCell {except : GroupId → Prop} (hF : Frame t except w w') {a : Alloc}
    {g : GroupId} (ha : w.alloc g = some a) (howner : a.owner = t) (hg : ¬except g) (i : ℕ) :
    slotCell w' a.place g i = slotCell w a.place g i :=
  hF.cells _ _ a ha howner hg

theorem Written.frame {except : GroupId → Prop} (hF : Frame t except w w') {a : Alloc}
    {block : BlockLocation} {seg : Bytes} (h : Written w t a block seg)
    (hg : ¬except block.group) : Written w' t a block seg :=
  { h.toHolds.frame hF with
    length := h.length
    held := fun i hi => (hF.slotCell h.alloc h.owner hg i).trans (h.held i hi) }

/-- Other calls leave the groups of a put alone until it commits. -/
theorem frame_of_guar {u : Tid} (hu : u ≠ t) (hG : Guar req u w w') (hun : Uncommitted w.log t) :
    Frame t (fun _ => False) w w' where
  alloc := hG.alloc
  cells ep b a ha howner _ := by
    rcases hG.cells ep b with heq | ⟨⟨a', ha', howner'⟩, -⟩ | ⟨-, a', key, locs, ha', hc, -⟩
    · exact heq
    · obtain rfl : a = a' := Option.some.inj (ha.symm.trans ha')
      exact absurd (howner'.symm.trans howner) hu
    · obtain rfl : a = a' := Option.some.inj (ha.symm.trans ha')
      exact absurd (howner ▸ hc) (hun key locs)

/-- The state of a put depends on its own groups only. -/
theorem PutState.frame {ec : Option EcReplicationConfig} {pre written : List BlockLocation}
    {segs : List Bytes} (h : PutState t ec pre written segs w) {except : GroupId → Prop}
    (hF : Frame t except w w') (hun : Uncommitted w'.log t)
    (hfresh : ∀ g a, w'.alloc g = some a → w.alloc g = some a ∨ a.owner ≠ t)
    (hexcept : ∀ block ∈ written, ¬except block.group) :
    PutState t ec pre written segs w' where
  uncommitted := hun
  config c hc g a ha howner :=
    (hfresh g a ha).elim (fun ha => h.config c hc g a ha howner) fun hne => absurd howner hne
  used c hc := by
    obtain ⟨g, a, ha, hrest⟩ := h.used c hc
    exact ⟨g, a, hF.alloc g a ha, hrest⟩
  preHeld block hb := (h.preHeld block hb).imp fun _ ha => ha.frame hF
  writtenHeld := by
    have hall := h.writtenHeld
    clear h
    induction hall with
    | nil => exact .nil
    | cons hb _ ih =>
      obtain ⟨a, ha⟩ := hb
      exact .cons ⟨a, ha.frame hF (hexcept _ (by simp))⟩
        (ih fun block hb => hexcept _ (by simp [hb]))
  nodup := h.nodup

theorem uncommitted_of_guar {u : Tid} (hu : u ≠ t) (hG : Guar req u w w')
    (hun : Uncommitted w.log t) : Uncommitted w'.log t := by
  obtain ⟨e, hlog, he⟩ := hG.log
  rw [hlog]
  exact hun.append fun key locs hc => hu (he.symm.trans (tid_of_commit? hc))

/-- The services, the invariant and the guarantee together. -/
def rg (gw : Gateway) (req : Tid → Request) : RelyGuarantee gatewayCalls Tid World :=
  ⟨gatewaySystem, Inv gw req, Guar req⟩

/-- A call that leaves the services alone. -/
theorem safe_quiet {op : GatewayOp} {α : Type} {Q : Outcome GatewayError α → World → Prop}
    {next : gatewayCalls.Res op → GwM α} (hop : ∀ w r served w', Answers t w op r served w' →
      w' = w ∧ (Event.answer t op r served).commit? = none)
    (F : World → Prop) (hF : (rg gw req).Stable t F) (hw : F w)
    (hnext : ∀ w r served, F w → (Event.answer t op r served).commit? = none →
      (rg gw req).Safe t Q (next r) (w.logged (.answer t op r served))) :
    (rg gw req).Safe t Q (.call op next) w := by
  refine Safe.call F hF hw fun w₁ hF₁ hI r w₂ hans => ?_
  obtain ⟨served, w', hans, rfl⟩ := hans
  obtain ⟨rfl, hc⟩ := hop _ _ _ _ hans
  obtain ⟨hI', hG⟩ := hI.logged hc rfl
  exact ⟨hI', hG, hnext _ _ _ hF₁ hc⟩

/-- **No other call can spoil the state of a put.** -/
theorem PutState.stable (ec : Option EcReplicationConfig) (pre written : List BlockLocation)
    (segs : List Bytes) : (rg gw req).Stable t (PutState t ec pre written segs) := by
  rintro w w' ⟨-, -, u, hu, hG⟩ h
  refine h.frame (frame_of_guar hu hG h.uncommitted) (uncommitted_of_guar hu hG h.uncommitted)
    (fun g a ha => (hG.fresh g a ha).imp_right fun hau hat => hu (hau.symm.trans hat))
    fun _ _ => not_false

/-- The state of a put, from one of its own steps. -/
theorem PutState.own {ec : Option EcReplicationConfig} {pre written : List BlockLocation}
    {segs : List Bytes} (h : PutState t ec pre written segs w) {e : Event}
    (he : e.commit? = none) (hlog : w'.log = w.log ++ [e]) (halloc : w'.alloc = w.alloc)
    (except : GroupId → Prop) (hcells : ∀ ep b, ¬except b.group → w'.cells ep b = w.cells ep b)
    (hexcept : ∀ block ∈ written, ¬except block.group) : PutState t ec pre written segs w' := by
  refine h.frame ⟨fun g a ha => halloc ▸ ha, fun ep b _ _ _ hb => hcells ep b hb⟩ ?_
    (fun g a ha => .inl (halloc ▸ ha)) hexcept
  rw [hlog]
  exact h.uncommitted.append fun _ _ hc => by rw [he] at hc; cases hc

/-! ### Allocation -/

/-- More groups are allocated to a put. -/
theorem PutState.allocate {ec : Option EcReplicationConfig} {pre written : List BlockLocation}
    {segs : List Bytes} (h : PutState t ec pre written segs w)
    {grants : List (KeyLocation × Placement)} (hgrants : Grants w t grants) {e : Event}
    (he : e.commit? = none) :
    PutState t ec pre written segs ((w.allocate t grants).logged e) := by
  have hF : Frame t (fun _ => False) w ((w.allocate t grants).logged e) :=
    ⟨fun g a ha => alloc_allocate_of_some hgrants ha, fun _ _ _ _ _ _ => rfl⟩
  refine ⟨?_, ?_, ?_, fun block hb => (h.preHeld block hb).imp fun _ ha => ha.frame hF,
    h.writtenHeld.imp fun _ _ ⟨a, ha⟩ => ⟨a, ha.frame hF not_false⟩, h.nodup⟩
  · exact h.uncommitted.append fun _ _ hc => by rw [he] at hc; cases hc
  · intro c hc g a ha howner
    rcases alloc_allocate_cases ha with ha | ⟨x, hx, rfl⟩
    · exact h.config c hc g a ha howner
    · obtain ⟨g', a', ha', howner', rfl⟩ := h.used c hc
      exact ((hgrants.config x hx).2 g' a' ha' howner').symm
  · intro c hc
    obtain ⟨g, a, ha, hrest⟩ := h.used c hc
    exact ⟨g, a, hF.alloc g a ha, hrest⟩

/-! ### The commit -/

theorem lastCommit_append_of_ne {log : List Event} {e : Event} {key key' : KeyName}
    {locs : List KeyLocation} (he : e.commit? = some (t, key, locs)) (hne : key' ≠ key) :
    lastCommit (log ++ [e]) key' = lastCommit log key' := by
  simp [lastCommit, commits, he, hne.symm]

theorem lastCommit_append_self {log : List Event} {e : Event} {key : KeyName}
    {locs : List KeyLocation} (he : e.commit? = some (t, key, locs)) :
    lastCommit (log ++ [e]) key = some (t, key, locs) := by
  simp [lastCommit, commits, he]

theorem group_blockToKeyLocation (block : BlockLocation) :
    (blockToKeyLocation block).group = block.group := by
  simp [KeyLocation.group, blockToKeyLocation, BlockLocation.group]

theorem Written.sealed {a : Alloc} {block : BlockLocation} {seg : Bytes}
    (h : Written w t a block seg) (hcells : w'.cells = w.cells) (halloc : w'.alloc = w.alloc)
    (key : KeyName) : SealedGroup req w' t key a (blockToKeyLocation block) seg := by
  have hgroup := group_blockToKeyLocation block
  have hcell : ∀ i, slotCell w' a.place block.group i = slotCell w a.place block.group i :=
    fun i => by unfold slotCell; rw [hcells]
  refine ⟨?_, h.owner, h.containerId, h.localId, h.length, ?_, ?_, ?_⟩
  · rw [hgroup, halloc]
    exact h.alloc
  · intro i hi
    rw [hgroup, hcell, h.held i hi]
    exact .inr rfl
  · intro i hi
    rw [hgroup, hcell, h.held i hi]
    rintro _ ⟨⟩
    exact verify_slotDigests a.place seg i
  · intro i hi
    rw [hgroup, hcell, h.held i hi]
    exact .inr rfl

/-- **The commit of a put** that has written all segments of its body. -/
theorem Inv.commit (hI : Inv gw req w) {key : KeyName} {body : Buffer}
    {metadata tags : List (String × String)} (hreq : req t = .put key body metadata tags)
    {ec : Option EcReplicationConfig} {pre written : List BlockLocation}
    (h : PutState t ec pre written (Blocks.chunks gw.blockGroupSize body.bytes) w) {e : Event}
    (he : e.commit? = some (t, key, written.map blockToKeyLocation)) {size : UInt64}
    {md : List (String × Option String)} :
    Inv gw req ((w.setKey key (some ⟨written.map blockToKeyLocation, size, md⟩)).logged e) ∧
      Guar req t w ((w.setKey key (some ⟨written.map blockToKeyLocation, size, md⟩)).logged e) := by
  have hG : Guar req t w
      ((w.setKey key (some ⟨written.map blockToKeyLocation, size, md⟩)).logged e) :=
    ⟨⟨e, rfl, tid_of_commit? he⟩, fun _ _ h => h, fun _ _ h => .inl h, fun _ _ => .inl rfl⟩
  refine ⟨⟨?_, ?_, ?_⟩, hG⟩
  · intro u key' locs hc
    rw [World.logged, commits_append, List.mem_append] at hc
    rcases hc with hc | hc
    · obtain ⟨body', md', tags', hreq', hnd, hsealed⟩ := hI.sealed u key' locs hc
      exact ⟨body', md', tags', hreq', hnd,
        hsealed.imp fun loc seg ⟨a, ha⟩ => ⟨a, ha.step hI hG hc⟩⟩
    · simp only [commits, List.filterMap_cons, he, List.filterMap_nil, List.mem_singleton,
        Prod.mk.injEq] at hc
      obtain ⟨rfl, rfl, rfl⟩ := hc
      refine ⟨body, metadata, tags, hreq, ?_, ?_⟩
      · have hnd := h.nodup
        rw [List.map_append] at hnd
        rw [List.map_map, show KeyLocation.group ∘ blockToKeyLocation = BlockLocation.group from
          funext group_blockToKeyLocation]
        exact hnd.of_append_right
      · rw [List.forall₂_map_left_iff]
        exact h.writtenHeld.imp fun block seg ⟨a, ha⟩ => ⟨a, ha.sealed (by rfl) (by rfl) _⟩
  · intro key' rec hrec
    simp only [World.logged, World.setKey] at hrec ⊢
    by_cases hk : key' = key
    · subst hk
      rw [Function.update_self] at hrec
      cases hrec
      exact ⟨t, lastCommit_append_self he⟩
    · rw [Function.update_of_ne hk] at hrec
      rw [lastCommit_append_of_ne he hk]
      exact hI.current key' rec hrec
  · intro key' c hc
    simp only [World.logged, World.setKey] at hc ⊢
    by_cases hk : key' = key
    · subst hk
      rw [Function.update_self]
      exact .inr ⟨_, rfl⟩
    · rw [lastCommit_append_of_ne he hk] at hc
      rw [Function.update_of_ne hk]
      exact (hI.kept key' c hc).imp_left fun hd => hd.append _

end Put

end Consistency

end OzoneRust
