import OzoneRust.Datanode.Reconstruct

/-!
# Survivors that agree

If the survivors agree on an object for each group they list (`OzoneRust.Survivable`), then
what was read of a group is a view of its object, enough of it to decode, and the shards
that come out are those `encode_object` makes of it. So the target holds every missing shard
afterwards, with a record that fits it, and doing it again changes nothing
(`OzoneRust.reconstructFromSurvivors_restores`). Nothing is asked of survivors that list
other lengths, as long as the least is right, or of reads of another length.
-/

namespace OzoneRust

/-- The shard of a slot of an object, as `encode_object` makes it. -/
def objectShard (isal : IsaL) (P : Profile) (X : Bytes) (slot : UInt8) : Outcome EcError Bytes := do
  let encoded ← encodeObject isal P X
  encodedSlot P.data encoded slot

/-- **The survivors agree** on an object for each group they list: the least length they
report is its length, what is read is its shard or has another length, and enough slots
give their shard. -/
structure Survivable (isal : IsaL) (net : String → Peer) (input : ReconstructInput)
    (X : UInt64 → Buffer) : Prop where
  /-- The least length is that of the object. -/
  length : ∀ f ∈ findings net input,
    IsLeast {n | ∃ f' ∈ findings net input, f'.group = f.group ∧ f'.len.toNat = n}
      (X f.group).bytes.length
  /-- What is read is the shard, or has another length. -/
  read : ∀ f ∈ findings net input, ∀ b shard, f.read = some b →
    objectShard isal input.ec.profile (X f.group).bytes f.slot = .ok shard →
      b = shard ∨ b.length ≠ shard.length
  /-- Enough slots give their shard. -/
  enough : ∀ f ∈ findings net input, ∃ slots : List UInt8, slots.Nodup ∧
    input.ec.data.toNat ≤ slots.length ∧ ∀ slot ∈ slots, ∃ f' ∈ findings net input,
      f'.group = f.group ∧ f'.slot = slot ∧ ∃ b, f'.read = some b ∧
        objectShard isal input.ec.profile (X f.group).bytes slot = .ok b

section Agree

open Layout

variable {isal : IsaL} {net : String → Peer} {input : ReconstructInput} {X : UInt64 → Buffer}

theorem encodedSlot_encode {P : Profile} {Y : Bytes} {slot : UInt8} (h0 : slot ≠ 0)
    (hle : slot.toNat ≤ P.data + P.parity) :
    encodedSlot P.data (encode P Y) slot = .ok (shard P Y (slot.toNat - 1)) := by
  have hpos : slot.toNat ≠ 0 := fun h => h0 (UInt8.toNat_inj.mp h)
  unfold encodedSlot
  split
  case isTrue h => exact Outcome.index_map_range (by omega) _
  case isFalse h =>
    have hsub : P.data + (slot.toNat - 1 - P.data) = slot.toNat - 1 := by omega
    rw [encode, Outcome.index_map_range (by omega), hsub]

theorem objectShard_eq (hI : isal.Correct) (hP : input.ec.profile.Valid) (Y : Buffer)
    {slot : UInt8} (hslot : input.InRange slot) :
    objectShard isal input.ec.profile Y.bytes slot =
      .ok (shard input.ec.profile Y.bytes (slot.toNat - 1)) := by
  unfold objectShard
  rw [encodeObject_eq hI hP Y.length_le, Outcome.ok_bind]
  exact encodedSlot_encode hslot.1 hslot.2

theorem inRange_of_mem_findings {f : Finding} (hf : f ∈ findings net input) :
    input.InRange f.slot :=
  ⟨(slot_of_mem_findings hf).1, (slot_of_mem_findings hf).2.1⟩

variable (hI : isal.Correct) (hP : input.ec.profile.Valid) (hX : Survivable isal net input X)

include hI hP hX

/-- What was read of a group is a view of its object. -/
theorem Survivable.isView (g : UInt64) :
    IsView input.ec.profile (X g).bytes (groupView input.total (findings net input) g) := by
  refine ⟨by simp [groupView, ReconstructInput.total, EcReplicationConfig.profile], ?_⟩
  intro idx b hb
  have hidx : idx < input.total := by
    have hlt := (List.getElem?_eq_some_iff.mp hb).1
    simpa [groupView] using hlt
  have hlast : lastRead (findings net input) g (idx + 1) = some b := by
    simpa [groupView, hidx] using hb
  obtain ⟨f', hf', hg, hs, hread⟩ := exists_of_lastRead hlast
  have hshard := objectShard_eq hI hP (X f'.group) (inRange_of_mem_findings hf')
  have hcases := hX.read f' hf' b _ hread hshard
  rw [hs, Nat.add_sub_cancel, hg] at hcases
  exact hcases

variable (hslots : (input.sources.map Prod.fst).Nodup)

include hslots

/-- Enough slots of a group carry their shard. -/
theorem Survivable.le_present {f : Finding} (hf : f ∈ findings net input) :
    input.ec.data.toNat ≤ (Layout.present input.ec.profile (X f.group).bytes
      (groupView input.total (findings net input) f.group)).length := by
  obtain ⟨slots, hnd, hle, hall⟩ := hX.enough f hf
  have hsub : slots.map (fun s => s.toNat - 1) ⊆ Layout.present input.ec.profile (X f.group).bytes
      (groupView input.total (findings net input) f.group) := by
    intro i hi
    obtain ⟨slot, hslot, rfl⟩ := List.mem_map.mp hi
    obtain ⟨f', hf', hg, rfl, b, hread, hb⟩ := hall slot hslot
    have hrange := inRange_of_mem_findings hf'
    have hpos : f'.slot.toNat ≠ 0 := fun h => hrange.1 (UInt8.toNat_inj.mp h)
    have hlt : f'.slot.toNat - 1 < input.total := by have := hrange.2; omega
    rw [objectShard_eq hI hP _ hrange, Outcome.ok.injEq] at hb
    refine mem_present.mpr ⟨hlt, ?_⟩
    have hlast := lastRead_eq_of_nodup hslots hf' hread
    rw [hg] at hlast
    have hsucc : f'.slot.toNat - 1 + 1 = f'.slot.toNat := by omega
    simp [Carries, groupView, List.getD_eq_getElem?_getD, hlt, hsucc, hlast, hb]
  have hnd' : (slots.map fun s => s.toNat - 1).Nodup := by
    refine hnd.map_on fun s hs s' hs' heq => ?_
    obtain ⟨f₁, hf₁, -, rfl, -⟩ := hall s hs
    obtain ⟨f₂, hf₂, -, rfl, -⟩ := hall s' hs'
    have h₁ : f₁.slot.toNat ≠ 0 := fun h => (slot_of_mem_findings hf₁).1 (UInt8.toNat_inj.mp h)
    have h₂ : f₂.slot.toNat ≠ 0 := fun h => (slot_of_mem_findings hf₂).1 (UInt8.toNat_inj.mp h)
    exact UInt8.toNat_inj.mp (by omega)
  calc input.ec.data.toNat ≤ slots.length := hle
    _ = (slots.map fun s => s.toNat - 1).length := (List.length_map _).symm
    _ ≤ _ := (hnd'.subperm hsub).length_le

/-- Every listed group is rebuilt. -/
theorem Survivable.group_attempted {f : Finding} (hf : f ∈ findings net input) :
    f.group ∈ attempted input (enumerate net input) := by
  have hpresent := hX.le_present hI hP hslots hf
  have hcount : (Layout.present input.ec.profile (X f.group).bytes
      (groupView input.total (findings net input) f.group)).length ≤
      (groupView input.total (findings net input) f.group).countP Option.isSome := by
    rw [Layout.present, ← List.countP_eq_length_filter, groupView, List.countP_map]
    refine List.countP_mono_left fun i hi hc => ?_
    have hlt : i < input.total := List.mem_range.mp hi
    have hsome := of_decide_eq_true hc
    simp only [Carries, List.getD_eq_getElem?_getD, List.getElem?_map, List.getElem?_range hlt,
      Option.map_some, Option.getD_some] at hsome
    rw [Function.comp_apply, hsome]
    rfl
  have hread : WasRead (findings net input) f.group := by
    obtain ⟨slots, -, hle, hall⟩ := hX.enough f hf
    obtain ⟨slot, hslot⟩ := List.exists_mem_of_length_pos (hP.data_pos.trans hle)
    obtain ⟨f', hf', hg, -, b, hb, -⟩ := hall slot hslot
    exact ⟨f', hf', hg, by simp [hb]⟩
  exact mem_attempted.mpr ⟨_, by rw [enumerate_shards, if_pos hread], hpresent.trans hcount⟩

/-- **The shards of a listed group are those of its object.** -/
theorem Survivable.encoded?_eq {f : Finding} (hf : f ∈ findings net input) :
    ∃ len : UInt64, len.toNat = (X f.group).bytes.length ∧
      (enumerate net input).encoded? isal input f.group =
        some (len, encode input.ec.profile (X f.group).bytes) := by
  obtain ⟨view, hview, -⟩ := mem_attempted.mp (hX.group_attempted hI hP hslots hf)
  obtain ⟨len, hlen, ⟨f₀, hf₀, hg₀, rfl⟩, hleast⟩ := enumerate_lengths hf
  have heq : f₀.len.toNat = (X f.group).bytes.length := by
    obtain ⟨⟨f₁, hf₁, hg₁, hn⟩, hlow⟩ := hX.length f hf
    refine le_antisymm ?_ (hlow ⟨f₀, hf₀, hg₀, rfl⟩)
    rw [← hn]
    exact UInt64.le_iff_toNat_le.mp (hleast ⟨f₁, hf₁, hg₁, rfl⟩)
  obtain rfl : view = groupView input.total (findings net input) f.group := by
    rw [enumerate_shards] at hview
    split at hview
    · exact (Option.some.inj hview).symm
    · cases hview
  refine ⟨f₀.len, heq, encoded?_eq_some.mpr ⟨_, (X f.group).bytes, hlen, hview, ?_, ?_⟩⟩
  · rw [heq, decodeObject_eq hI hP (X f.group).length_le (hX.isView hI hP f.group)]
    exact if_pos (hX.le_present hI hP hslots hf)
  · exact encodeObject_eq hI hP (X f.group).length_le

/-- Without local failures, every listed group can be rebuilt. -/
theorem Survivable.groupOk {g : UInt64} (hg : g ∈ attempted input (enumerate net input)) :
    GroupOk isal .none input (enumerate net input) g := by
  obtain ⟨view, hview, -⟩ := mem_attempted.mp hg
  obtain ⟨⟨f, hf, rfl, -⟩, -⟩ := mem_enumerate_shards.mp (SortedMap.get?_eq_some.mp hview)
  obtain ⟨len, -, hencoded⟩ := hX.encoded?_eq hI hP hslots hf
  exact ⟨len, _, hencoded, fun slot _ hrange =>
    ⟨_, encodedSlot_encode (P := input.ec.profile) hrange.1 hrange.2, rfl, rfl⟩⟩

end Agree

/-! ### What the target holds -/

/-- **The target holds a shard**: its bytes, a record whose one chunk has its length and its
digests and which has the length of the group, and a verified read returns it. -/
structure Target.Holds (t : Target) (ec : EcReplicationConfig) (id : BlockId) (shard : Bytes)
    (len : ℕ) : Prop where
  /-- The bytes. -/
  bytes : t.chunks id "0" = some shard
  /-- The record. -/
  record : ∃ bd chunk cd groupLen, t.store.getBlock id = some bd ∧ bd.chunks = [chunk] ∧
    chunk.chunkName = "0" ∧ chunk.len.toNat = shard.length ∧ chunk.checksumData = some cd ∧
    Checksum.compute shard ec.ecChunkSize .crc32c = .ok cd ∧
    bd.blockGroupLen = some groupLen ∧ groupLen.toNat = len
  /-- A verified read. -/
  read : t.readVerified id = .ok shard

theorem Target.Stores.holds {t : Target} {input : ReconstructInput} {id : BlockId} {shard : Bytes}
    {len : UInt64} (h : t.Stores id (shard, rebuiltBlock input id len shard))
    (hlen : shard.length < 2 ^ 64) : t.Holds input.ec id shard len.toNat where
  bytes := h.1
  record := ⟨_, _, _, _, h.2, rfl, rfl, UInt64.toNat_ofNat_of_lt' hlen, rfl,
    compute_rebuiltDigests input shard, BlockData.blockGroupLen_setBlockGroupLen _ _, rfl⟩
  read := by
    have hexpected : ((t.store.getBlock id).bind fun bd =>
        (bd.chunks.find? fun c => c.chunkName = "0").bind (·.checksumData)) =
          some (rebuiltDigests input shard) := by
      rw [h.2]
      rfl
    unfold readVerified
    rw [h.1]
    dsimp only
    rw [hexpected]
    dsimp only
    rw [Checksum.verify_compute (compute_rebuiltDigests input shard)]

/-- **A reconstruction restores what is missing**, whether the container is absent or open,
and doing it again in an open container changes nothing. -/
theorem reconstructFromSurvivors_restores {isal : IsaL} (hI : isal.Correct)
    {input : ReconstructInput} (hP : input.ec.profile.Valid)
    (hslots : (input.sources.map Prod.fst).Nodup) {net : String → Peer} {X : UInt64 → Buffer}
    (hX : Survivable isal net input X) {t : Target}
    (ht : t.state input.container = none ∨ t.state input.container = some .open) :
    ∃ ids t', reconstructFromSurvivors isal .none net input t = .ok ids t' ∧
      (∀ f ∈ findings net input, ∀ slot ∈ input.missingSlots, input.InRange slot →
        ∃ shard, objectShard isal input.ec.profile (X f.group).bytes slot = .ok shard ∧
          t'.Holds input.ec ⟨input.container, f.group, slot⟩ shard (X f.group).bytes.length) ∧
      (t.state input.container = some .open → t'.state input.container = some .open ∧
        ∃ t'', reconstructFromSurvivors isal .none net input t' = .ok ids t'' ∧
          t''.chunks = t'.chunks ∧ t''.store.blocks = t'.store.blocks ∧
          t''.state input.container = some .open) := by
  have hok : ∀ g ∈ attempted input (enumerate net input),
      GroupOk isal .none input (enumerate net input) g :=
    fun g hg => hX.groupOk hI hP hslots hg
  -- what is stored for a missing slot is the shard of the object
  have hholds : ∀ t' : Target, (∀ id, RebuiltOf input (attempted input (enumerate net input)) id →
        t'.Stores id (rebuiltSlot isal input (enumerate net input) id)) →
      ∀ f ∈ findings net input, ∀ slot ∈ input.missingSlots, input.InRange slot →
        ∃ shard, objectShard isal input.ec.profile (X f.group).bytes slot = .ok shard ∧
          t'.Holds input.ec ⟨input.container, f.group, slot⟩ shard (X f.group).bytes.length := by
    intro t' hstores f hf slot hslot hrange
    obtain ⟨len, hlen, hencoded⟩ := hX.encoded?_eq hI hP hslots hf
    have hshard := encodedSlot_encode (P := input.ec.profile) (Y := (X f.group).bytes)
      hrange.1 hrange.2
    have hstored := hstores ⟨input.container, f.group, slot⟩
      ⟨rfl, hX.group_attempted hI hP hslots hf, hslot, hrange⟩
    rw [rebuiltSlot_eq hencoded hshard] at hstored
    refine ⟨_, objectShard_eq hI hP _ hrange, ?_⟩
    rw [← hlen]
    exact hstored.holds (Layout.length_shard_lt hP.fits (X f.group).length_le _)
  by_cases hne : (enumerate net input).shards.entries = []
  · have hrun : ∀ t, reconstructFromSurvivors isal .none net input t = .ok [] t := by
      intro t
      unfold reconstructFromSurvivors
      rw [if_pos hne]
      rfl
    refine ⟨[], t, hrun t, fun f hf => ?_, fun hopen => ⟨hopen, t, hrun t, rfl, rfl, hopen⟩⟩
    have hmem := hX.group_attempted hI hP hslots hf
    simp [attempted, hne] at hmem
  · rcases ht with habsent | hopen
    · have hattempted : attempted input (enumerate net input) ≠ [] := by
        obtain ⟨⟨g, view⟩, hgroup⟩ := List.exists_mem_of_ne_nil _ hne
        obtain ⟨⟨f, hf, -, -⟩, -⟩ := mem_enumerate_shards.mp hgroup
        exact List.ne_nil_of_mem (hX.group_attempted hI hP hslots hf)
      obtain ⟨t', hrun, -, hstores, -⟩ :=
        reconstruct_created rfl rfl rfl habsent hattempted hok
      exact ⟨_, t', hrun, hholds t' hstores, fun hopen => by simp [habsent] at hopen⟩
    · obtain ⟨t', hrun, hwrote⟩ := reconstruct_existing rfl hopen hne hok
      have hopen' := isOpen_iff.mp hwrote.isOpen
      obtain ⟨t'', hrun', hwrote'⟩ := reconstruct_existing rfl hopen' hne hok
      obtain ⟨hchunks, hblocks⟩ := hwrote'.same hwrote.new
      exact ⟨_, t', hrun, hholds t' hwrote.new, fun _ => ⟨hopen', t'', hrun', hchunks, hblocks,
        isOpen_iff.mp hwrote'.isOpen⟩⟩

/-- Two survivors of a group of two bytes. -/
theorem survivable_twoSurvivors :
    Survivable IsaL.reference (twoSurvivors [7]) lostParity fun _ => ⟨[5, 6], by decide⟩ := by
  have hmem : ∀ f, f ∈ findings (twoSurvivors [7]) lostParity ↔
      f = ⟨7, 1, 2, some [5]⟩ ∨ f = ⟨7, 2, 2, some [6]⟩ := by
    intro f
    rw [show findings (twoSurvivors [7]) lostParity =
      [⟨7, 1, 2, some [5]⟩, ⟨7, 2, 2, some [6]⟩] from rfl]
    simp
  have hfirst : objectShard IsaL.reference lostParity.ec.profile [5, 6] 1 = .ok [5] :=
    (objectShard_eq IsaL.reference_correct lostParity_valid ⟨[5, 6], by decide⟩
      (show lostParity.InRange 1 by decide)).trans (congrArg Outcome.ok (by decide))
  have hsecond : objectShard IsaL.reference lostParity.ec.profile [5, 6] 2 = .ok [6] :=
    (objectShard_eq IsaL.reference_correct lostParity_valid ⟨[5, 6], by decide⟩
      (show lostParity.InRange 2 by decide)).trans (congrArg Outcome.ok (by decide))
  refine ⟨fun f hf => ⟨⟨_, (hmem _).mpr (.inl rfl), ?_, rfl⟩, ?_⟩,
    fun f hf b shard hread hshard => .inl ?_, fun f hf => ⟨[1, 2], by decide, by decide, ?_⟩⟩
  · rcases (hmem f).mp hf with rfl | rfl <;> rfl
  · rintro n ⟨f', hf', -, rfl⟩
    rcases (hmem f').mp hf' with rfl | rfl <;> exact le_rfl
  · rcases (hmem f).mp hf with rfl | rfl
    · cases hread
      exact Outcome.ok.inj (hfirst.symm.trans hshard)
    · cases hread
      exact Outcome.ok.inj (hsecond.symm.trans hshard)
  · have hg : f.group = 7 := by rcases (hmem f).mp hf with rfl | rfl <;> rfl
    intro slot hslot
    rcases List.mem_pair.mp hslot with rfl | rfl
    · exact ⟨_, (hmem _).mpr (.inl rfl), hg.symm, rfl, _, rfl, hfirst⟩
    · exact ⟨_, (hmem _).mpr (.inr rfl), hg.symm, rfl, _, rfl, hsecond⟩

/-- A target with the container, open and empty. -/
def openTarget : Target :=
  ⟨{ MetaStore.empty with
      containers := MetaStore.empty.containers.insert
        (MetaStore.containerKey lostParity.container)
        ⟨.newOpen lostParity.container lostParity.ec, 0⟩ }, fun _ _ => none⟩

/-- The lost shard comes back, into an open container, and comes back again. -/
theorem reconstructFromSurvivors_restores_openTarget :
    openTarget.state lostParity.container = some .open ∧ ∃ ids t' t'',
      reconstructFromSurvivors IsaL.reference .none (twoSurvivors [7]) lostParity openTarget =
        .ok ids t' ∧
      (∃ shard, objectShard IsaL.reference lostParity.ec.profile [5, 6] 3 = .ok shard ∧
        t'.Holds lostParity.ec ⟨lostParity.container, 7, 3⟩ shard 2) ∧
      reconstructFromSurvivors IsaL.reference .none (twoSurvivors [7]) lostParity t' =
        .ok ids t'' ∧
      t''.chunks = t'.chunks ∧ t''.store.blocks = t'.store.blocks ∧
      t''.state lostParity.container = some .open := by
  have hopen : openTarget.state lostParity.container = some .open := by decide +kernel
  obtain ⟨ids, t', hrun, hholds, hagain⟩ := reconstructFromSurvivors_restores
    IsaL.reference_correct lostParity_valid (by decide) survivable_twoSurvivors (.inr hopen)
  obtain ⟨-, t'', hrun', hchunks, hblocks, hstate⟩ := hagain hopen
  have hmem : (⟨7, 1, 2, some [5]⟩ : Finding) ∈ findings (twoSurvivors [7]) lostParity := by
    decide
  exact ⟨hopen, ids, t', t'', hrun, hholds _ hmem 3 (by decide) (by decide), hrun', hchunks,
    hblocks, hstate⟩

end OzoneRust
