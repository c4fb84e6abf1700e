import OzoneRust.Gateway.Invariant

/-!
# `put_object` among other calls

The programs of `put_object`, one function at a time, each from the state it is called in to
the state it leaves, with any other calls in between: `OzoneRust.Consistency.writeSlot_safe`
for one slot, `OzoneRust.Consistency.writeBlockGroup_safe` for one group,
`OzoneRust.Consistency.allocateAndWrite_safe` for the body, and
`OzoneRust.Consistency.putObject_safe` up to the commit. Nothing is asked of a put that
fails: what it leaves behind belongs to groups no commit names.
-/

namespace OzoneRust

namespace Consistency

open Layout RelyGuarantee

section Put

variable {gw : Gateway} {req : Tid → Request} {t : Tid} {w : World}

/-! ### One slot -/

/-- The state of a put while it writes a block: the first `n` slots hold their shards. -/
structure Writing (t : Tid) (ec : Option EcReplicationConfig) (pre written : List BlockLocation)
    (segs : List Bytes) (a : Alloc) (block : BlockLocation) (seg : Bytes) (n : ℕ) (w : World) :
    Prop where
  /-- The state around it. -/
  state : PutState t ec pre written segs w
  /-- The block is its own. -/
  holds : Holds w t a block
  /-- And is no other of its blocks. -/
  notMem : block.group ∉ (pre ++ written).map BlockLocation.group
  /-- The first slots are written. -/
  held : ∀ i < n, slotCell w a.place block.group i = slotWritten a.place seg i

variable {ec : Option EcReplicationConfig} {pre written : List BlockLocation} {segs : List Bytes}
  {a : Alloc} {block : BlockLocation} {seg : Bytes} {n : ℕ}

theorem Writing.frame {w' : World} (h : Writing t ec pre written segs a block seg n w)
    (hF : Frame t (fun _ => False) w w') (hstate : PutState t ec pre written segs w') :
    Writing t ec pre written segs a block seg n w' :=
  ⟨hstate, h.holds.frame hF, h.notMem, fun i hi =>
    (hF.slotCell h.holds.alloc h.holds.owner not_false i).trans (h.held i hi)⟩

/-- The state of a put while it writes is its own business. -/
theorem Writing.stable : (rg gw req).Stable t (Writing t ec pre written segs a block seg n) := by
  rintro w w' h hw
  have hstate := PutState.stable ec pre written segs w w' h hw.state
  obtain ⟨-, -, u, hu, hG⟩ := h
  exact hw.frame (frame_of_guar hu hG hw.state.uncommitted) hstate

theorem slotChunk_stable {x : Option Bytes} : (rg gw req).Stable t fun w =>
    Writing t ec pre written segs a block seg n w ∧
      (slotCell w a.place block.group n).chunk = x := by
  rintro w w' h ⟨hw, hx⟩
  refine ⟨Writing.stable w w' h hw, ?_⟩
  obtain ⟨-, -, u, hu, hG⟩ := h
  rw [(frame_of_guar hu hG hw.state.uncommitted).slotCell hw.holds.alloc hw.holds.owner
    not_false]
  exact hx

theorem Writing.logged (h : Writing t ec pre written segs a block seg n w) {e : Event}
    (he : e.commit? = none) : Writing t ec pre written segs a block seg n (w.logged e) :=
  h.frame ⟨fun _ _ h => h, fun _ _ _ _ _ _ => rfl⟩
    (h.state.own he rfl rfl (fun _ => False) (fun _ _ _ => rfl) fun _ _ => not_false)

theorem Writing.succ (h : Writing t ec pre written segs a block seg n w)
    (hcell : slotCell w a.place block.group n = slotWritten a.place seg n) :
    Writing t ec pre written segs a block seg (n + 1) w := by
  refine { h with held := fun i hi => ?_ }
  rcases Nat.lt_succ_iff_lt_or_eq.mp hi with hlt | rfl
  · exact h.held i hlt
  · exact hcell

/-- The world after the cell of slot `n + 1` of a group is set. -/
def setSlot (w : World) (place : Placement) (g : GroupId) (n : ℕ) (c : Cell) : World :=
  w.setCell (place.endpoint (UInt8.ofNat (n + 1))) (slotOf g (UInt8.ofNat (n + 1))) c

theorem slotCell_setSlot_self (place : Placement) (g : GroupId) (c : Cell) :
    slotCell (setSlot w place g n c) place g n = c := by
  simp [slotCell, setSlot, World.setCell]

theorem slotCell_setSlot_of_ne {place : Placement} {i : ℕ} (hi : i < place.total)
    (hn : n < place.total) (hne : i ≠ n) (g : GroupId) (c : Cell) :
    slotCell (setSlot w place g n c) place g i = slotCell w place g i := by
  have hle := place.total_le
  have hslot := slotOf_ne (g := g) (Nat.lt_of_lt_of_le hi hle) (Nat.lt_of_lt_of_le hn hle) hne
  simp only [slotCell, setSlot, World.setCell]
  by_cases hep : place.endpoint (UInt8.ofNat (i + 1)) = place.endpoint (UInt8.ofNat (n + 1))
  · rw [hep, Function.update_self, Function.update_of_ne hslot]
  · rw [Function.update_of_ne hep]

/-- The put sets the cell of slot `n + 1` of the block it writes. -/
theorem Writing.setSlot (h : Writing t ec pre written segs a block seg n w)
    (hn : n < a.place.total) {e : Event} (he : e.commit? = none) (c : Cell) :
    Writing t ec pre written segs a block seg n ((setSlot w a.place block.group n c).logged e) := by
  refine ⟨h.state.own he rfl rfl (· = block.group) ?_ ?_, { h.holds with }, h.notMem, ?_⟩
  · intro ep b hb
    have hne : b ≠ slotOf block.group (UInt8.ofNat (n + 1)) := fun hb' => hb (hb' ▸ rfl)
    simp only [World.logged, Consistency.setSlot, World.setCell]
    by_cases hep : ep = a.place.endpoint (UInt8.ofNat (n + 1))
    · rw [hep, Function.update_self, Function.update_of_ne hne]
    · rw [Function.update_of_ne hep]
  · intro block' hblock' hg
    exact h.notMem (List.mem_map.mpr ⟨block', List.mem_append_right _ hblock', hg⟩)
  · intro i hi
    exact (slotCell_setSlot_of_ne (hi.trans hn) hn (Nat.ne_of_lt hi) _ _).trans (h.held i hi)

theorem Inv.setSlot (hI : Inv gw req w) (hw : Writing t ec pre written segs a block seg n w)
    {e : Event} (hc : e.commit? = none) (he : e.tid = t) (c : Cell) :
    Inv gw req ((Consistency.setSlot w a.place block.group n c).logged e) ∧
      Guar req t w ((Consistency.setSlot w a.place block.group n c).logged e) := by
  have hown : ∃ a', w.alloc (slotOf block.group (UInt8.ofNat (n + 1))).group = some a' ∧
    a'.owner = t := ⟨a, hw.holds.alloc, hw.holds.owner⟩
  exact hI.setCell hc he hown hw.state.uncommitted c

theorem index_shards {place : Placement} (hn : n < place.total) (seg : Bytes) :
    (if n + 1 ≤ place.config.data.toNat then
      Outcome.index (encode place.config.profile seg).data (n + 1 - 1)
    else Outcome.index (encode place.config.profile seg).parity
      (n + 1 - 1 - place.config.data.toNat) : Outcome GatewayError Bytes) =
      .ok (slotShard place seg n) := by
  unfold Placement.total at hn
  rw [Nat.add_sub_cancel]
  split
  case isTrue h => exact Outcome.index_map_range (by exact h) _
  case isFalse h =>
    have hsub : place.config.profile.data + (n - place.config.data.toNat) = n := by
      simp only [EcReplicationConfig.profile]
      omega
    have hlt : n - place.config.data.toNat < place.config.profile.parity := by
      simp only [EcReplicationConfig.profile]
      omega
    rw [encode, Outcome.index_map_range hlt, hsub]
    rfl

/-- The chunk of a shard, with its digests. -/
def slotChunk (place : Placement) (seg : Bytes) (n : ℕ) : ChunkInfo :=
  Gateway.shardChunk (slotShard place seg n) (slotDigests place seg n)

/-- The end of `writeSlot`: the chunk is written and the block recorded. -/
def writeShard (place : Placement) (block : BlockLocation) (seg : Bytes) (n : ℕ) : GwM Unit := do
  let ep := place.endpoint (UInt8.ofNat (n + 1))
  let blockSlot := slotOf block.group (UInt8.ofNat (n + 1))
  okOr .dn (← Prog.perform (C := gatewayCalls)
    (.writeChunk ep blockSlot (slotChunk place seg n) (slotShard place seg n)))
  let bd := { BlockData.new blockSlot with chunks := [slotChunk place seg n] }
  okOr .dn (← Prog.perform (C := gatewayCalls)
    (.putBlock ep (bd.setBlockGroupLen (UInt64.ofNat seg.length)) true))

theorem writeShard_safe (hn : n < a.place.total)
    (hw : Writing t ec pre written segs a block seg n w) :
    (rg gw req).Safe t (ends fun _ => Writing t ec pre written segs a block seg (n + 1))
      (writeShard a.place block seg n) w := by
  refine Safe.call _ Writing.stable hw fun w₁ hw₁ hI r w₂ hans => ?_
  obtain ⟨served, w', ⟨c, rfl, hr⟩, rfl⟩ := hans
  refine and_assoc.mp ⟨Inv.setSlot hI hw₁ (by rfl) (by rfl) _, ?_⟩
  rcases r with err | _
  · trivial
  obtain rfl := hr rfl
  refine Safe.call _ slotChunk_stable ⟨hw₁.setSlot hn rfl _, congrArg Cell.chunk
    (slotCell_setSlot_self a.place block.group _)⟩ fun w₃ hw₃ hI r w₄ hans => ?_
  obtain ⟨hw₃, hchunk⟩ := hw₃
  obtain ⟨served, w', ⟨c, rfl, hr⟩, rfl⟩ := hans
  refine and_assoc.mp ⟨Inv.setSlot hI hw₃ (by rfl) (by rfl) _, ?_⟩
  rcases r with err | _
  · trivial
  obtain rfl := hr rfl
  refine (hw₃.setSlot hn (by rfl) _).succ ?_
  exact (slotCell_setSlot_self a.place block.group _).trans
    (congrArg (fun x => (⟨x, some (slotDigests a.place seg n)⟩ : Cell)) hchunk)

/-- **One slot is written.** -/
theorem writeSlot_safe (hn : n < a.place.total)
    (hw : Writing t ec pre written segs a block seg n w) :
    (rg gw req).Safe t (ends fun _ => Writing t ec pre written segs a block seg (n + 1))
      (Gateway.writeSlot block a.place.config seg.length (encode a.place.config.profile seg)
        (n + 1)) w := by
  unfold Gateway.writeSlot
  dsimp only
  rw [index_shards hn, endpointForSlot_eq hw.holds.members hn]
  refine safe_quiet (fun _ _ _ _ h => ⟨h, rfl⟩) _ Writing.stable hw fun w r _ hw he => ?_
  rcases r with err | _
  · trivial
  refine safe_quiet (fun _ _ _ _ h => ⟨h, rfl⟩) _ Writing.stable (hw.logged he)
    fun w r _ hw he => ?_
  -- an answer `ALREADY_EXISTS` is as good as success
  rcases r with (_ | err) | _
  · exact writeShard_safe hn (hw.logged he)
  · trivial
  · exact writeShard_safe hn (hw.logged he)

/-! ### One group -/

/-- All slots are written: the block joins the written ones. -/
theorem Writing.done (hw : Writing t ec pre written segs a block seg a.place.total w)
    (hseg : seg.length ≤ maxLen) : PutState t ec pre
      (written ++ [{ block with length := UInt64.ofNat seg.length }]) (segs ++ [seg]) w := by
  have hlen : (UInt64.ofNat seg.length).toNat = seg.length :=
    UInt64.toNat_ofNat_of_lt' (by unfold maxLen at hseg; exact Nat.lt_of_le_of_lt hseg (by decide))
  refine { hw.state with writtenHeld := ?_, nodup := ?_ }
  · exact List.rel_append hw.state.writtenHeld
      (.cons ⟨a, { hw.holds with length := hlen, held := hw.held }⟩ .nil)
  · rw [← List.append_assoc, List.map_append, List.nodup_append]
    refine ⟨hw.state.nodup, by simp, ?_⟩
    intro g hg g' hg' hgg
    rw [List.map_singleton, List.mem_singleton] at hg'
    exact hw.notMem (hg' ▸ hgg ▸ hg)

/-- **One group is written.** -/
theorem writeBlockGroup_safe (hI : gw.isal.Correct) (hseg : seg.length ≤ maxLen)
    (hw : Writing t ec pre written segs a block seg 0 w) :
    (rg gw req).Safe t (ends fun b => PutState t ec pre (written ++ [b]) (segs ++ [seg]))
      (gw.writeBlockGroup block a.place.config seg) w := by
  unfold Gateway.writeBlockGroup
  rw [encodeObject_eq hI a.place.valid hseg, Outcome.mapErr_ok, Prog.lift_ok_bind]
  refine Safe.bind_ends (I := fun _ => Writing t ec pre written segs a block seg a.place.total)
    ?_ fun _ w hw => hw.done hseg
  exact Safe.foldlM_count (fun n _ => Writing t ec pre written segs a block seg n)
    (fun n hn _ w hw => (writeSlot_safe hn hw).mono fun _ _ => through_of_ends)
    (fun _ _ hw => hw) hw

/-! ### The body -/

/-- A block read from the location of a group that is allocated to the call. -/
theorem Holds.of_isRead {loc : KeyLocation} {place : Placement}
    (ha : w.alloc loc.group = some ⟨t, place⟩) (h : block.IsRead loc place)
    (hc : ¬loc.containerId < 0) (hl : ¬loc.localId < 0) : Holds w t ⟨t, place⟩ block where
  alloc := h.group ▸ ha
  owner := rfl
  ec := h.ec
  members := h.members
  containerId := by rw [h.containerId, Int64.toInt64_toUInt64]; exact hc
  localId := by rw [h.localId, Int64.toInt64_toUInt64]; exact hl

/-- A fresh group is none of the put's groups. -/
theorem PutState.group_ne_of_fresh (h : PutState t ec pre written segs w) {g : GroupId}
    (hg : w.alloc g = none) : g ∉ (pre ++ written).map BlockLocation.group := by
  intro hmem
  obtain ⟨block, hb, rfl⟩ := List.mem_map.mp hmem
  rcases List.mem_append.mp hb with hb | hb
  · obtain ⟨a, ha⟩ := h.preHeld block hb
    rw [ha.alloc] at hg
    cases hg
  · obtain ⟨seg, -, a, ha⟩ := Lists.exists_of_forall₂ h.writtenHeld hb
    rw [ha.alloc] at hg
    cases hg

/-- The next block in advance, about to be written. -/
theorem PutState.next (h : PutState t ec (block :: pre) written segs w) (seg : Bytes) :
    ∃ a, Writing t ec pre written segs a block seg 0 w := by
  obtain ⟨a, ha⟩ := h.preHeld block (by simp)
  have hnd := h.nodup
  rw [List.cons_append, List.map_cons, List.nodup_cons] at hnd
  refine ⟨a, { h with preHeld := fun b hb => h.preHeld b (by simp [hb]), nodup := hnd.2 }, ha,
    hnd.1, fun i hi => absurd hi (Nat.not_lt_zero i)⟩

/-- Groups are allocated to a put and become blocks in advance. -/
theorem PutState.allocated (h : PutState t ec [] written segs w)
    {grants : List (KeyLocation × Placement)} (hgrants : Grants w t grants) {e : Event}
    (he : e.commit? = none) {blocks : List BlockLocation}
    (hblocks : List.Forall₂ (fun loc block => keyLocationToBlock loc = .ok block)
      (grants.map (·.1)) blocks) :
    PutState t ec blocks written segs ((w.allocate t grants).logged e) := by
  have hread : List.Forall₂ (fun x block => block.IsRead x.1 x.2 ∧ ¬x.1.containerId < 0 ∧
      ¬x.1.localId < 0) grants blocks := by
    rw [List.forall₂_map_left_iff] at hblocks
    exact (List.forall₂_and_left _ _ |>.mpr ⟨hgrants.presents, hblocks⟩).imp
      fun x block hx => BlockLocation.IsRead.of_eq_ok hx.1 hx.2
  have hgroups : blocks.map BlockLocation.group = grants.map (·.1.group) := by
    clear hblocks hgrants
    induction hread with
    | nil => rfl
    | cons hx _ ih => rw [List.map_cons, List.map_cons, ih, hx.1.group]
  have hst := h.allocate hgrants he
  refine { hst with preHeld := ?_, nodup := ?_ }
  · intro block hb
    obtain ⟨x, hx, hread, hc, hl⟩ := Lists.exists_of_forall₂ hread.flip hb
    exact ⟨_, .of_isRead (alloc_allocate hgrants hx) hread hc hl⟩
  · rw [List.map_append, hgroups]
    refine List.nodup_append.mpr ⟨hgrants.nodup, hst.nodup, ?_⟩
    rintro g hg _ hg' rfl
    obtain ⟨x, hx, rfl⟩ := List.mem_map.mp hg
    exact h.group_ne_of_fresh (hgrants.fresh x hx) hg'

theorem allocateBlock_safe {key : KeyName} {clientId : UInt64}
    (hw : PutState t ec [] written segs w) :
    (rg gw req).Safe t (ends fun block => PutState t ec [block] written segs)
      (OmClient.allocateBlock key clientId) w := by
  refine Safe.call _ (PutState.stable ec [] written segs) hw fun w₁ hw₁ hI r w₂ hans => ?_
  obtain ⟨served, w', hans, rfl⟩ := hans
  cases served with
  | false =>
    obtain ⟨rfl, err, rfl⟩ := hans
    exact and_assoc.mp ⟨hI.logged rfl rfl, trivial⟩
  | true =>
    obtain ⟨x, hgrants, rfl, hr⟩ := hans
    refine and_assoc.mp ⟨hI.allocate (by rfl) (by rfl) hgrants, ?_⟩
    rcases r with err | _ | loc
    · trivial
    · trivial
    obtain rfl := hr loc rfl
    show (rg gw req).Safe t _ (Prog.lift (keyLocationToBlock x.1)) _
    cases hblock : keyLocationToBlock x.1 with
    | ok block => exact hw₁.allocated hgrants rfl (.cons hblock .nil)
    | err e => trivial
    | panic => trivial

/-- **One segment is written.** -/
theorem writeSegment_safe (hI : gw.isal.Correct) {key : KeyName} {clientId : UInt64}
    (hseg : seg.length ≤ maxLen) (hw : PutState t ec pre written segs w) :
    (rg gw req).Safe t (ends fun acc => PutState t ec acc.1 acc.2 (segs ++ [seg]))
      (gw.writeSegment key clientId ec (pre, written) seg) w := by
  unfold Gateway.writeSegment
  refine Safe.bind_ends (I := fun (b : BlockLocation × List BlockLocation) =>
    PutState t ec (b.1 :: b.2) written segs) ?_ ?_
  · cases pre with
    | cons block rest => exact hw
    | nil => exact Safe.bind_ends (allocateBlock_safe hw).mapErr_ends fun block w hw => hw
  · rintro ⟨block, rest⟩ w hw
    cases ec with
    | none => trivial
    | some c =>
      obtain ⟨a, hw⟩ := hw.next seg
      obtain rfl := hw.state.config c rfl _ a hw.holds.alloc hw.holds.owner
      exact Safe.bind_ends (writeBlockGroup_safe hI hseg hw) fun b w hw => hw

/-- The configuration of the first block in advance is that of all groups of the put. -/
theorem PutState.withConfig (h : PutState t none pre [] [] w)
    (hone : ∀ g a g' a', w.alloc g = some a → a.owner = t → w.alloc g' = some a' → a'.owner = t →
      a.place.config = a'.place.config) :
    PutState t (pre.head?.map (·.ec)) pre [] [] w := by
  cases pre with
  | nil => exact h
  | cons block rest =>
    obtain ⟨a, ha⟩ := h.preHeld block (by simp)
    refine { h with config := ?_, used := ?_ }
    · rintro c ⟨⟩ g a' ha' howner'
      exact (hone g a' _ a ha' howner' ha.alloc ha.owner).trans ha.ec.symm
    · rintro c ⟨⟩
      exact ⟨_, a, ha.alloc, ha.owner, ha.ec.symm⟩

/-- **The key is opened.** -/
theorem createKey_safe {key : KeyName} {multipart : Option (String × UInt32)} {size : UInt64}
    (hw : PutState t none [] [] [] w) (hfree : ∀ g a, w.alloc g = some a → a.owner ≠ t) :
    (rg gw req).Safe t
      (ends fun opened => PutState t (opened.blocks.head?.map (·.ec)) opened.blocks [] [])
      (OmClient.createKey key multipart size) w := by
  have hstable : (rg gw req).Stable t fun w => PutState t none [] [] [] w ∧
      ∀ g a, w.alloc g = some a → a.owner ≠ t := by
    rintro w w' h ⟨hw, hfree⟩
    refine ⟨PutState.stable none [] [] [] w w' h hw, fun g a ha => ?_⟩
    obtain ⟨-, -, u, hu, hG⟩ := h
    rcases hG.fresh g a ha with ha | hau
    · exact hfree g a ha
    · exact fun hat => hu (hau.symm.trans hat)
  refine Safe.call _ hstable ⟨hw, hfree⟩ fun w₁ ⟨hw₁, hfree₁⟩ hI r w₂ hans => ?_
  obtain ⟨served, w', hans, rfl⟩ := hans
  cases served with
  | false =>
    obtain ⟨rfl, err, rfl⟩ := hans
    exact and_assoc.mp ⟨hI.logged rfl rfl, trivial⟩
  | true =>
    obtain ⟨grants, hgrants, rfl, hr⟩ := hans
    refine and_assoc.mp ⟨hI.allocate (by rfl) (by rfl) hgrants, ?_⟩
    rcases r with err | ⟨_ | id, _ | info⟩
    · trivial
    · trivial
    · trivial
    · trivial
    have hlocs := hr _ rfl info rfl
    show (rg gw req).Safe t _ (Prog.lift (blocksOfKeyInfo info) >>= _) _
    rw [blocksOfKeyInfo_eq, hlocs]
    cases hblocks : (grants.map (·.1)).mapM keyLocationToBlock with
    | err e => trivial
    | panic => trivial
    | ok blocks =>
      refine (hw₁.allocated hgrants rfl (Outcome.forall₂_of_mapM_eq_ok hblocks)).withConfig ?_
      intro g a g' a' ha howner ha' howner'
      rcases alloc_allocate_cases ha with ha | ⟨x, hx, rfl⟩
      · exact absurd howner (hfree₁ g a ha)
      rcases alloc_allocate_cases ha' with ha' | ⟨x', hx', rfl⟩
      · exact absurd howner' (hfree₁ g' a' ha')
      · exact (hgrants.config x' hx').1 x hx

/-- **The body is written**, one block per segment. -/
theorem allocateAndWrite_safe (hI : gw.isal.Correct) {key : KeyName} {body : Buffer}
    {multipart : Option (String × UInt32)} (hw : PutState t none [] [] [] w)
    (hfree : ∀ g a, w.alloc g = some a → a.owner ≠ t) :
    (rg gw req).Safe t (ends fun out w => ∃ ec pre,
        PutState t ec pre out.1 (Blocks.chunks gw.blockGroupSize body.bytes) w)
      (gw.allocateAndWrite key body.bytes multipart) w := by
  unfold Gateway.allocateAndWrite
  refine Safe.bind_ends (createKey_safe hw hfree).mapErr_ends fun opened w hw => ?_
  refine Safe.bind_ends (I := fun acc => PutState t (opened.blocks.head?.map (·.ec)) acc.1 acc.2
    (Blocks.chunks gw.blockGroupSize body.bytes)) ?_ fun acc w hw => ⟨_, _, hw⟩
  -- `segs` are the segments written so far, `rest` those to come
  refine Safe.foldlM (fun rest acc w => ∃ segs,
    Blocks.chunks gw.blockGroupSize body.bytes = segs ++ rest ∧
      PutState t (opened.blocks.head?.map (·.ec)) acc.1 acc.2 segs w) ?_ ?_ ⟨[], rfl, hw⟩
  · rintro seg rest ⟨pre, written⟩ w ⟨segs, hsegs, hw⟩
    have hmem : seg ∈ Blocks.chunks gw.blockGroupSize body.bytes := by rw [hsegs]; simp
    have hseg : seg.length ≤ maxLen :=
      (Blocks.length_le_of_mem_chunks hmem).trans body.length_le
    refine (writeSegment_safe hI hseg hw).mono fun o w ho => ?_
    cases o with
    | ok acc => exact ⟨segs ++ [seg], by rw [hsegs]; simp, ho⟩
    | err e => trivial
    | panic => trivial
  · rintro acc w ⟨segs, hsegs, hw⟩
    rw [List.append_nil] at hsegs
    exact hsegs ▸ hw

/-! ### The call -/

/-- **`put_object` among other calls**: it keeps the invariant and its guarantee. -/
theorem putObject_safe (hI : gw.isal.Correct) {key : KeyName} {body : Buffer}
    {metadata tags : List (String × String)} (hreq : req t = .put key body metadata tags)
    (hw : PutState t none [] [] [] w) (hfree : ∀ g a, w.alloc g = some a → a.owner ≠ t) :
    (rg gw req).Safe t (ends fun _ _ => True) (gw.putObject key body.bytes metadata tags) w := by
  unfold Gateway.putObject
  refine Safe.bind_ends (allocateAndWrite_safe hI hw hfree) ?_
  rintro ⟨blocks, clientId⟩ w ⟨ec, pre, hw⟩
  refine Safe.bind_ends (I := fun _ _ => True) ?_ fun _ _ _ => trivial
  refine Safe.mapErr_ends (Safe.call _ (PutState.stable ec pre blocks _) hw
    fun w₁ hw₁ hI r w₂ hans => ?_)
  obtain ⟨served, w', hans, rfl⟩ := hans
  cases served with
  | false =>
    obtain ⟨rfl, err, rfl⟩ := hans
    exact and_assoc.mp ⟨hI.logged rfl rfl, trivial⟩
  | true =>
    obtain rfl := hans
    refine and_assoc.mp ⟨hI.commit hreq hw₁ rfl, ?_⟩
    cases r <;> trivial

end Put

end Consistency

end OzoneRust
