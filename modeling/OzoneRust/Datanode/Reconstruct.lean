import OzoneRust.Datanode.Rebuild
import OzoneRust.Storage.Counters

/-!
# What a reconstruction leaves behind

`reconstruct_from_survivors` as a whole. Into an open container it rebuilds in place; where
the container is absent it creates it, rebuilds, and closes it
(`OzoneRust.reconstruct_existing`, `OzoneRust.reconstruct_created`).

That a container closed this way holds a shard for every group the survivors list is another
matter: a group of which too few shards could be read is passed over without an error, and
the container is closed as long as some other group was rebuilt.
`OzoneRust.closed_complete_iff` says exactly when that happens.
-/

namespace OzoneRust

open MetaStore

/-- The state of a container at the target. -/
def Target.state (t : Target) (c : ContainerId) : Option ContainerState :=
  (t.store.getContainer c).map (·.state)

section Run

variable {isal : IsaL} {F : LocalFaults} {net : String → Peer} {input : ReconstructInput}
  {t : Target}

theorem isOpen_iff {c : ContainerId} : t.IsOpen c ↔ t.state c = some .open := by
  unfold Target.IsOpen Target.state getContainer
  cases t.store.containers.get? (containerKey c) <;> simp

theorem state_eq_none {c : ContainerId} :
    t.state c = none ↔ t.store.containers.get? (containerKey c) = none := by
  simp [Target.state, getContainer]

/-! ### Before the rebuild -/

theorem provision_existing (hget : F.getContainer = none)
    (ht : t.state input.container = some .open) : provision F input t = .ok .existing t := by
  obtain ⟨ci, hci, hopen⟩ := Option.map_eq_some_iff.mp ht
  unfold provision
  rw [hget]
  refine (RepairM.bind_ok rfl).trans ((RepairM.bind_ok rfl).trans ?_)
  rw [hci]
  dsimp only
  rw [hopen]
  rfl

theorem provision_created (hget : F.getContainer = none) (hcreate : F.createContainer = none)
    (ht : t.state input.container = none) :
    ∃ store, provision F input t = .ok .created ⟨store, t.chunks⟩ ∧
      (⟨store, t.chunks⟩ : Target).IsOpen input.container ∧ store.blocks = t.store.blocks := by
  have habsent := state_eq_none.mp ht
  have hstore : t.store.createContainer (.newOpen input.container input.ec) =
      .ok ((), ⟨t.store.containers.insert (containerKey input.container)
        ⟨.newOpen input.container input.ec, 0⟩, t.store.blocks⟩) := by
    unfold createContainer
    rw [show (ContainerInfo.newOpen input.container input.ec).containerId =
      input.container from rfl, habsent]
  refine ⟨⟨t.store.containers.insert (containerKey input.container)
    ⟨.newOpen input.container input.ec, 0⟩, t.store.blocks⟩, ?_,
    ⟨_, SortedMap.get?_insert_self, rfl⟩, rfl⟩
  unfold provision
  rw [hget, hcreate]
  refine (RepairM.bind_ok rfl).trans ((RepairM.bind_ok rfl).trans ?_)
  rw [getContainer, habsent]
  exact (RepairM.bind_ok rfl).trans (RepairM.bind_ok (RepairM.onStore_ok hstore))

/-! ### After the rebuild -/

theorem finishCreated_eq (hset : F.setContainerState = none) {rebuilt : List UInt64}
    (hne : rebuilt ≠ []) (ht : t.IsOpen input.container) :
    ∃ store, finishCreated F input rebuilt t = .ok rebuilt ⟨store, t.chunks⟩ ∧
      (⟨store, t.chunks⟩ : Target).state input.container = some .closed ∧
      store.blocks = t.store.blocks := by
  obtain ⟨record, hrecord, -⟩ := ht
  have hstore : t.store.setContainerState input.container .closed =
      .ok ((), ⟨t.store.containers.insert (containerKey input.container)
        ⟨{ record.info with state := .closed }, record.bcsi⟩, t.store.blocks⟩) := by
    unfold setContainerState
    rw [hrecord]
  refine ⟨⟨t.store.containers.insert (containerKey input.container)
    ⟨{ record.info with state := .closed }, record.bcsi⟩, t.store.blocks⟩, ?_, ?_, rfl⟩
  · unfold finishCreated
    rw [if_neg hne, hset]
    exact (RepairM.bind_ok rfl).trans (RepairM.bind_ok (RepairM.onStore_ok hstore))
  · rw [Target.state, getContainer, SortedMap.get?_insert_self]
    rfl

/-! ### The whole -/

/-- **In place**: an open container is rebuilt and stays open. -/
theorem reconstruct_existing (hget : F.getContainer = none)
    (ht : t.state input.container = some .open)
    (hne : (enumerate net input).shards.entries ≠ [])
    (hok : ∀ g ∈ attempted input (enumerate net input),
      GroupOk isal F input (enumerate net input) g) :
    ∃ t', reconstructFromSurvivors isal F net input t =
        .ok (attempted input (enumerate net input)) t' ∧
      Wrote input.container (rebuiltSlot isal input (enumerate net input))
        (RebuiltOf input (attempted input (enumerate net input))) t t' := by
  obtain ⟨t', hrun, hwrote⟩ := rebuildGroups_ok hok (isOpen_iff.mpr ht)
  refine ⟨t', ?_, hwrote⟩
  unfold reconstructFromSurvivors
  rw [if_neg hne]
  exact (RepairM.bind_ok (provision_existing hget ht)).trans hrun

/-- **From nothing**: an absent container is created, rebuilt and closed. -/
theorem reconstruct_created (hget : F.getContainer = none) (hcreate : F.createContainer = none)
    (hset : F.setContainerState = none) (ht : t.state input.container = none)
    (hne : attempted input (enumerate net input) ≠ [])
    (hok : ∀ g ∈ attempted input (enumerate net input),
      GroupOk isal F input (enumerate net input) g) :
    ∃ t', reconstructFromSurvivors isal F net input t =
        .ok (attempted input (enumerate net input)) t' ∧
      t'.state input.container = some .closed ∧
      (∀ id, RebuiltOf input (attempted input (enumerate net input)) id →
        t'.Stores id (rebuiltSlot isal input (enumerate net input) id)) ∧
      ∀ id, ¬RebuiltOf input (attempted input (enumerate net input)) id →
        t'.store.getBlock id = t.store.getBlock id := by
  obtain ⟨store, hprov, hopen, hblocks⟩ := provision_created hget hcreate ht
  obtain ⟨t₁, hrun, hwrote⟩ := rebuildGroups_ok hok hopen
  obtain ⟨store', hfinish, hclosed, hblocks'⟩ := finishCreated_eq hset hne hwrote.isOpen
  refine ⟨⟨store', t₁.chunks⟩, ?_, hclosed, fun id hid => ?_, fun id hid => ?_⟩
  · have hentries : (enumerate net input).shards.entries ≠ [] :=
      fun h => hne (by simp [attempted, h])
    have helse : orElse (rebuildGroups isal F input (enumerate net input))
        (rollbackCreated F input.container) ⟨store, t.chunks⟩ =
          .ok (attempted input (enumerate net input)) t₁ := by
      unfold orElse
      rw [hrun]
    unfold reconstructFromSurvivors
    rw [if_neg hentries]
    exact (RepairM.bind_ok hprov).trans ((RepairM.bind_ok helse).trans hfinish)
  · obtain ⟨hchunk, hblock⟩ := hwrote.new id hid
    exact ⟨hchunk, by rw [getBlock, hblocks']; exact hblock⟩
  · rw [getBlock, hblocks']
    refine (hwrote.old id hid).2.trans ?_
    rw [getBlock, hblocks]
    rfl

/-! ### When an absent container ends closed -/

/-- The run gets to close the container: no local call that it needs fails, some group was
read often enough, and every such group can be rebuilt. -/
structure Closes (isal : IsaL) (F : LocalFaults) (net : String → Peer) (input : ReconstructInput) :
    Prop where
  /-- `get_container`. -/
  getContainer : F.getContainer = none
  /-- `create_container`. -/
  createContainer : F.createContainer = none
  /-- `set_container_state`. -/
  setContainerState : F.setContainerState = none
  /-- Some group is rebuilt. -/
  some_group : attempted input (enumerate net input) ≠ []
  /-- No group fails. -/
  group_ok : ∀ g ∈ attempted input (enumerate net input),
    GroupOk isal F input (enumerate net input) g

/-- A rollback deletes the container or leaves its record as it is. -/
theorem rollbackCreated_state (c : ContainerId) :
    ∃ t', rollbackCreated F c t = .ok () t' ∧ (t'.state c = none ∨ t'.state c = t.state c) := by
  refine ⟨_, rfl, ?_⟩
  cases hdel : F.deleteContainer <;> cases F.deleteChunks
  case none.none | none.some => exact .inl (state_eq_none.mpr SortedMap.get?_erase_self)
  case some.none | some.some => exact .inr rfl

/-- A group that is rebuilt has a length. -/
theorem exists_length_of_attempted {g : UInt64} (hg : g ∈ attempted input (enumerate net input)) :
    ∃ len, (enumerate net input).lengths.get? g = some len := by
  obtain ⟨view, hview, -⟩ := mem_attempted.mp hg
  obtain ⟨⟨f, hf, rfl, -⟩, -⟩ := mem_enumerate_shards.mp (SortedMap.get?_eq_some.mp hview)
  obtain ⟨len, hlen, -⟩ := enumerate_lengths hf
  exact ⟨len, hlen⟩

theorem provision_absent {p : Provision} {t₁ : Target} (ht : t.state input.container = none)
    (h : provision F input t = .ok p t₁) :
    F.getContainer = none ∧ F.createContainer = none ∧ p = .created ∧
      t₁.IsOpen input.container := by
  have hrun := h
  unfold provision at hrun
  obtain ⟨_, t₂, hfault, hrest⟩ := RepairM.bind_eq_ok.mp hrun
  obtain ⟨hget, rfl⟩ := RepairM.fault_eq_ok hfault
  obtain ⟨_, _, hself, hmatch⟩ := RepairM.bind_eq_ok.mp hrest
  cases hself
  rw [getContainer, state_eq_none.mp ht] at hmatch
  obtain ⟨_, _, hfault', -⟩ := RepairM.bind_eq_ok.mp hmatch
  obtain ⟨hcreate, -⟩ := RepairM.fault_eq_ok hfault'
  obtain ⟨store, hprov, hopen, -⟩ := provision_created hget hcreate ht
  rw [hprov] at h
  cases h
  exact ⟨hget, hcreate, rfl, hopen⟩

theorem orElse_eq_ok {α : Type} {x : RepairM α} {cleanup : RepairM Unit} {a : α} {t' : Target}
    (h : orElse x cleanup t = .ok a t') : x t = .ok a t' := by
  unfold orElse at h
  split at h
  · split at h <;> cases h
  · exact h

section OrElse

variable {α : Type} {x : RepairM α} {cleanup : RepairM Unit} {t₁ t₂ : Target}

theorem orElse_of_ok {a : α} (h : x t = .ok a t₁) : orElse x cleanup t = .ok a t₁ := by
  unfold orElse
  rw [h]

theorem orElse_of_err {e : RepairError} (h : x t = .error (.err e) t₁)
    (hclean : cleanup t₁ = .ok () t₂) : orElse x cleanup t = .error (.err e) t₂ := by
  unfold orElse
  rw [h]
  dsimp only
  rw [hclean]

theorem orElse_of_panic (h : x t = .error .panic t₁) : orElse x cleanup t = .error .panic t₁ := by
  unfold orElse
  rw [h]

end OrElse

/-- **An absent container ends closed only in one way.** -/
theorem closes_of_closed (ht : t.state input.container = none) {ids : List UInt64} {t' : Target}
    (hrun : reconstructFromSurvivors isal F net input t = .ok ids t')
    (hclosed : t'.state input.container = some .closed) : Closes isal F net input := by
  unfold reconstructFromSurvivors at hrun
  split at hrun
  case isTrue =>
    cases hrun
    rw [ht] at hclosed
    cases hclosed
  case isFalse =>
    obtain ⟨p, t₁, hprov, hrun⟩ := RepairM.bind_eq_ok.mp hrun
    obtain ⟨hget, hcreate, rfl, hopen⟩ := provision_absent ht hprov
    obtain ⟨rebuilt, t₂, hrebuild, hfinish⟩ := RepairM.bind_eq_ok.mp hrun
    have hrebuild := orElse_eq_ok hrebuild
    have hok : ∀ g ∈ attempted input (enumerate net input),
        GroupOk isal F input (enumerate net input) g := by
      intro g hg
      by_contra hnot
      obtain ⟨len, hlen⟩ := exists_length_of_attempted hg
      obtain ⟨a, t₃, herr⟩ := rebuildGroups_fails hg hlen hnot t₁
      rw [herr] at hrebuild
      cases hrebuild
    obtain ⟨t₃, hrebuild', hwrote⟩ := rebuildGroups_ok hok hopen
    rw [hrebuild'] at hrebuild
    cases hrebuild
    unfold finishCreated at hfinish
    split at hfinish
    case isTrue hnil =>
      -- a rollback never closes
      obtain ⟨_, t₄, hroll, hret⟩ := RepairM.bind_eq_ok.mp hfinish
      obtain ⟨t₅, hroll', hstate⟩ := rollbackCreated_state (F := F) (t := t₂) input.container
      rw [hroll'] at hroll
      cases hroll
      cases hret
      rw [hclosed, isOpen_iff.mp hwrote.isOpen] at hstate
      rcases hstate with hstate | hstate <;> cases hstate
    case isFalse hne =>
      obtain ⟨_, _, hset, -⟩ := RepairM.bind_eq_ok.mp hfinish
      exact ⟨hget, hcreate, (RepairM.fault_eq_ok hset).1, hne, hok⟩

/-- The target has the rebuilt shard, bytes and record, of every missing slot of every group
the survivors list. -/
def Complete (isal : IsaL) (net : String → Peer) (input : ReconstructInput) (t : Target) : Prop :=
  ∀ f ∈ findings net input, ∀ slot ∈ input.missingSlots, input.InRange slot →
    ∃ len encoded shard,
      (enumerate net input).encoded? isal input f.group = some (len, encoded) ∧
      encodedSlot input.ec.data.toNat encoded slot = .ok shard ∧
      t.Stores ⟨input.container, f.group, slot⟩
        (shard, rebuiltBlock input ⟨input.container, f.group, slot⟩ len shard)

/-- A slot of a group that was rebuilt is stored as it should be. -/
theorem stored_of_attempted
    (hok : ∀ g ∈ attempted input (enumerate net input),
      GroupOk isal F input (enumerate net input) g)
    (hnew : ∀ id, RebuiltOf input (attempted input (enumerate net input)) id →
      t.Stores id (rebuiltSlot isal input (enumerate net input) id))
    {g : UInt64} (hg : g ∈ attempted input (enumerate net input)) {slot : UInt8}
    (hslot : slot ∈ input.missingSlots) (hrange : input.InRange slot) :
    ∃ len encoded shard, (enumerate net input).encoded? isal input g = some (len, encoded) ∧
      encodedSlot input.ec.data.toNat encoded slot = .ok shard ∧
      t.Stores ⟨input.container, g, slot⟩
        (shard, rebuiltBlock input ⟨input.container, g, slot⟩ len shard) := by
  obtain ⟨len, encoded, hencoded, hslots⟩ := hok g hg
  obtain ⟨shard, hshard, -⟩ := hslots slot hslot hrange
  have hstored := hnew ⟨input.container, g, slot⟩ ⟨rfl, hg, hslot, hrange⟩
  rw [rebuiltSlot_eq hencoded hshard] at hstored
  exact ⟨len, encoded, shard, hencoded, hshard, hstored⟩

end Run

/-- **When closed means complete**: exactly when a run that gets to close the container has
rebuilt every group the survivors list, unless there is no slot to rebuild. -/
theorem closed_complete_iff {isal : IsaL} {F : LocalFaults} {net : String → Peer}
    {input : ReconstructInput} {t : Target} {log : List MetaCall}
    (hstore : Trace MetaStore.Step MetaStore.empty log t.store)
    (ht : t.state input.container = none) :
    (∀ ids t', reconstructFromSurvivors isal F net input t = .ok ids t' →
      t'.state input.container = some .closed → Complete isal net input t') ↔
    (Closes isal F net input → (∃ slot ∈ input.missingSlots, input.InRange slot) →
      ∀ f ∈ findings net input, f.group ∈ attempted input (enumerate net input)) := by
  constructor
  · rintro hcomplete hcloses ⟨slot, hslot, hrange⟩ f hf
    obtain ⟨t', hrun, hclosed, -, hold⟩ := reconstruct_created hcloses.getContainer
      hcloses.createContainer hcloses.setContainerState ht hcloses.some_group hcloses.group_ok
    obtain ⟨_, _, _, -, -, -, hblock⟩ := hcomplete _ t' hrun hclosed f hf slot hslot hrange
    have hnone : t.store.getBlock ⟨input.container, f.group, slot⟩ = none :=
      (keyed_of_trace hstore).getBlock_eq_none (state_eq_none.mp ht)
    by_contra hnot
    rw [hold ⟨input.container, f.group, slot⟩ fun hid => hnot hid.2.1, hnone] at hblock
    cases hblock
  · intro hall ids t' hrun hclosed f hf slot hslot hrange
    have hcloses := closes_of_closed ht hrun hclosed
    have hg := hall hcloses ⟨slot, hslot, hrange⟩ f hf
    obtain ⟨t₁, hrun₁, -, hnew, -⟩ := reconstruct_created hcloses.getContainer
      hcloses.createContainer hcloses.setContainerState ht hcloses.some_group hcloses.group_ok
    rw [hrun₁] at hrun
    cases hrun
    exact stored_of_attempted hcloses.group_ok hnew hg hslot hrange

/-! ### Two survivors -/

/-- The parity slot of two data slots and one parity slot is lost. -/
def lostParity : ReconstructInput := ⟨1, ⟨2, 1, 1, .rs⟩, [3], [(1, "a"), (2, "b")]⟩

/-- Two survivors that list the same groups of two bytes. The second can only read its shard
of the group `7`. -/
def twoSurvivors (groups : List UInt64) (endpoint : String) : Peer where
  listBlocks _ := some (groups.map fun g => (BlockData.new ⟨1, g, 1⟩).setBlockGroupLen 2)
  readChunk id := if endpoint = "a" then some [5] else if id.localId = 7 then some [6] else none

/-- The two survivors and an empty target. -/
theorem closed_complete_iff_twoSurvivors :
    (∀ ids t', reconstructFromSurvivors IsaL.reference .none (twoSurvivors [7, 8]) lostParity
        .empty = .ok ids t' → t'.state lostParity.container = some .closed →
      Complete IsaL.reference (twoSurvivors [7, 8]) lostParity t') ↔
    (Closes IsaL.reference .none (twoSurvivors [7, 8]) lostParity →
      (∃ slot ∈ lostParity.missingSlots, lostParity.InRange slot) →
      ∀ f ∈ findings (twoSurvivors [7, 8]) lostParity,
        f.group ∈ attempted lostParity (enumerate (twoSurvivors [7, 8]) lostParity)) :=
  closed_complete_iff .nil rfl

theorem lostParity_valid : lostParity.ec.profile.Valid :=
  ⟨⟨by decide, by decide, by decide, by decide, by decide, by decide⟩, by decide⟩

/-- The group `7` can be rebuilt. -/
theorem groupOk_lostParity :
    GroupOk IsaL.reference .none lostParity (enumerate (twoSurvivors [7, 8]) lostParity) 7 := by
  have hview : Layout.IsView lostParity.ec.profile [5, 6] [some [5], some [6], none] := by
    refine ⟨rfl, fun idx b hb => .inl ?_⟩
    match idx with
    | 0 | 1 => cases hb; rfl
    | 2 | _ + 3 => cases hb
  have hdec : decodeObject IsaL.reference lostParity.ec.profile 2 [some [5], some [6], none] =
      .ok [5, 6] := by
    refine (decodeObject_eq IsaL.reference_correct lostParity_valid (by decide) hview).trans ?_
    exact if_pos (Layout.le_length_present_of_missing_eq_nil (by decide))
  have henc : encodeObject IsaL.reference lostParity.ec.profile [5, 6] =
      .ok (Layout.encode lostParity.ec.profile [5, 6]) :=
    encodeObject_eq IsaL.reference_correct lostParity_valid (by decide)
  refine ⟨2, _, encoded?_eq_some.mpr ⟨_, _, rfl, rfl, hdec, henc⟩, fun slot hslot hrange => ?_⟩
  obtain rfl : slot = 3 := List.mem_singleton.mp hslot
  exact ⟨_, rfl, rfl, rfl⟩

/-- **A container is closed without the shard of a group**: the survivors list the groups `7`
and `8`, and one of the two shards of the group `8` cannot be read. -/
theorem closed_half_built :
    (∃ f ∈ findings (twoSurvivors [7, 8]) lostParity, f.group = 8) ∧
    3 ∈ lostParity.missingSlots ∧ lostParity.InRange 3 ∧
    ∃ t', reconstructFromSurvivors IsaL.reference .none (twoSurvivors [7, 8]) lostParity
        .empty = .ok [7] t' ∧
      t'.state lostParity.container = some .closed ∧
      t'.store.getBlock ⟨lostParity.container, 8, 3⟩ = none := by
  have hok : ∀ g ∈ attempted lostParity (enumerate (twoSurvivors [7, 8]) lostParity),
      GroupOk IsaL.reference .none lostParity (enumerate (twoSurvivors [7, 8]) lostParity) g := by
    intro g hg
    obtain rfl : g = 7 := List.mem_singleton.mp hg
    exact groupOk_lostParity
  have habsent : Target.empty.state lostParity.container = none := rfl
  have hne : attempted lostParity (enumerate (twoSurvivors [7, 8]) lostParity) ≠ [] := by decide
  obtain ⟨t', hrun, hclosed, -, hold⟩ := reconstruct_created rfl rfl rfl habsent hne hok
  refine ⟨⟨⟨8, 1, 2, some [5]⟩, by decide, rfl⟩, by decide, by decide, t', hrun, hclosed, ?_⟩
  exact hold ⟨lostParity.container, 8, 3⟩ fun hid => absurd hid.2.1 (by decide)

end OzoneRust
