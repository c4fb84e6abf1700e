import OzoneRust.Datanode.RepairCalls
import OzoneRust.Datanode.Restore
import OzoneRust.Ec.Lengths

/-!
# Groups that get in each other's way

A container has many block groups, and the loop of `rebuild_groups` takes them in the order of
their local ids. A group of which too few shards were read is passed over. A group of which
enough were read, but too few of the length the decoder asks for, is an error that ends the
loop, and the groups after it are not rebuilt. So a group that could be rebuilt is, exactly if
no group before it is of that kind (`OzoneRust.groups_independent_iff`).

What decides about a group is what was read of it: `OzoneRust.Intact` counts the shards
of the right length, `OzoneRust.Torn` says that there are enough shards and too few of those.
-/

namespace OzoneRust

/-! ### Loops that stop -/

/-- The loop comes to an element: all before it are as they should be. -/
def Comes {α : Type} (ok : α → Prop) (l : List α) (x : α) : Prop :=
  ∃ l₁ l₂, l = l₁ ++ x :: l₂ ∧ ∀ y ∈ l₁, ok y

section Comes

variable {α : Type} {ok : α → Prop} {l : List α} {x y : α}

theorem comes_cons : Comes ok (x :: l) y ↔ y = x ∨ ok x ∧ Comes ok l y := by
  constructor
  · rintro ⟨_ | ⟨z, l₁⟩, l₂, heq, hok⟩
    · exact .inl (List.cons.inj heq).1.symm
    · obtain ⟨rfl, rfl⟩ := List.cons.inj heq
      exact .inr ⟨hok x List.mem_cons_self, l₁, l₂, rfl,
        fun z hz => hok z (List.mem_cons_of_mem x hz)⟩
  · rintro (rfl | ⟨hx, l₁, l₂, rfl, hok⟩)
    · exact ⟨[], l, rfl, List.forall_mem_nil _⟩
    · exact ⟨x :: l₁, l₂, rfl, List.forall_mem_cons.mpr ⟨hx, hok⟩⟩

/-- In a sorted list, those before an element are those below it. -/
theorem comes_iff {κ : Type} [LinearOrder κ] {key : α → κ}
    (hsorted : (l.map key).Pairwise (· < ·)) :
    Comes ok l x ↔ x ∈ l ∧ ∀ y ∈ l, key y < key x → ok y := by
  rw [List.pairwise_map] at hsorted
  constructor
  · rintro ⟨l₁, l₂, rfl, hok⟩
    refine ⟨List.mem_append_right _ List.mem_cons_self, fun y hy hlt => ?_⟩
    obtain ⟨-, hright, -⟩ := List.pairwise_append.mp hsorted
    rcases List.mem_append.mp hy with hy | hy
    · exact hok y hy
    · rcases List.mem_cons.mp hy with rfl | hy
      · exact absurd hlt (lt_irrefl _)
      · exact absurd hlt ((List.pairwise_cons.mp hright).1 y hy).not_gt
  · rintro ⟨hx, hok⟩
    obtain ⟨l₁, l₂, rfl⟩ := List.append_of_mem hx
    refine ⟨l₁, l₂, rfl, fun y hy => hok y (List.mem_append_left _ hy) ?_⟩
    exact (List.pairwise_append.mp hsorted).2.2 y hy x List.mem_cons_self

end Comes

/-- **A loop whose turns have effects, or fail and have none**: it has those of the turns it
comes to. -/
theorem foldlM_wrote_until {c : ContainerId} {V : BlockId → Bytes × BlockData} {α β : Type}
    {f : β → α → RepairM β} {ok : α → Prop} {T : α → BlockId → Prop} : ∀ {l : List α},
    (∀ x ∈ l, ok x → ∀ b t, t.IsOpen c → ∃ b' t', f b x t = .ok b' t' ∧ Wrote c V (T x) t t') →
    (∀ x ∈ l, ¬ok x → ∀ b t, t.IsOpen c → ∃ a, f b x t = .error a t) →
    ∀ (b : β) {t : Target}, t.IsOpen c →
      Wrote c V (fun id => ∃ x, Comes ok l x ∧ ok x ∧ T x id) t (Repair.leaves (l.foldlM f b t))
  | [], _, _, b, t, ht => by
    refine (Wrote.refl ht).congr fun id => iff_of_false not_false ?_
    rintro ⟨x, ⟨l₁, l₂, heq, -⟩, -⟩
    exact absurd heq (by simp)
  | x :: l, hstep, hfail, b, t, ht => by
    rw [List.foldlM_cons]
    by_cases hx : ok x
    · obtain ⟨b', t₁, hrun, hwrote⟩ := hstep x List.mem_cons_self hx b t ht
      have hrest := foldlM_wrote_until (fun y hy => hstep y (List.mem_cons_of_mem x hy))
        (fun y hy => hfail y (List.mem_cons_of_mem x hy)) b' hwrote.isOpen
      rw [RepairM.bind_ok hrun]
      refine (hwrote.trans hrest).congr fun id => ?_
      simp only [comes_cons]
      constructor
      · rintro (hid | ⟨y, hy, hoky, hid⟩)
        · exact ⟨x, .inl rfl, hx, hid⟩
        · exact ⟨y, .inr ⟨hx, hy⟩, hoky, hid⟩
      · rintro ⟨y, rfl | ⟨-, hy⟩, hoky, hid⟩
        · exact .inl hid
        · exact .inr ⟨y, hy, hoky, hid⟩
    · obtain ⟨a, herr⟩ := hfail x List.mem_cons_self hx b t ht
      rw [RepairM.bind_error herr]
      refine (Wrote.refl ht).congr fun id => iff_of_false not_false ?_
      simp only [comes_cons]
      rintro ⟨y, rfl | ⟨hok, -⟩, hoky, -⟩
      · exact hx hoky
      · exact hx hok

/-! ### Groups -/

section Groups

variable (net : String → Peer) (input : ReconstructInput)

/-- The least length that is reported of a group. -/
def IsLength (g len : UInt64) : Prop :=
  IsLeast {n | ∃ f ∈ findings net input, f.group = g ∧ f.len = n} len

/-- How many slots of a group gave a shard of the right length. -/
def usableOf (g len : UInt64) : ℕ :=
  usable input.ec.profile len.toNat (groupView input.total (findings net input) g)

/-- The group can be rebuilt: enough slots gave a shard of the right length. -/
def Intact (g : UInt64) : Prop :=
  ∃ len, IsLength net input g len ∧ input.ec.data.toNat ≤ usableOf net input g len

/-- The group is torn: enough slots gave a shard, and too few of them one of the right
length. -/
def Torn (g : UInt64) : Prop :=
  ∃ len, IsLength net input g len ∧
    input.Enough (groupView input.total (findings net input) g) ∧
    usableOf net input g len < input.ec.data.toNat

/-- The slot of a group is rebuilt: its shard is that of the object decoded from what was read,
and its record goes with it. -/
def HoldsRebuilt (isal : IsaL) (g : UInt64) (slot : UInt8) (t : Target) : Prop :=
  ∃ len encoded shard, (enumerate net input).encoded? isal input g = some (len, encoded) ∧
    encodedSlot input.ec.data.toNat encoded slot = .ok shard ∧
    t.Stores ⟨input.container, g, slot⟩
      (shard, rebuiltBlock input ⟨input.container, g, slot⟩ len shard)

end Groups

/-- The loop goes on after a group. -/
def GoesOn (isal : IsaL) (net : String → Peer) (input : ReconstructInput)
    (x : UInt64 × List (Option Bytes)) : Prop :=
  input.Enough x.2 → GroupOk isal .none input (enumerate net input) x.1

/-- The blocks of the groups the loop rebuilds before it stops. -/
def RebuiltInTime (isal : IsaL) (net : String → Peer) (input : ReconstructInput) (id : BlockId) :
    Prop :=
  ∃ x, Comes (GoesOn isal net input) (enumerate net input).shards.entries x ∧
    GoesOn isal net input x ∧ input.Enough x.2 ∧ RebuiltOf input [x.1] id

section Independence

variable {isal : IsaL} {net : String → Peer} {input : ReconstructInput} {g len : UInt64}

theorem usable_le_countP (P : Profile) (n : ℕ) (view : List (Option Bytes)) :
    usable P n view ≤ view.countP Option.isSome := by
  have hcount : view.countP Option.isSome = view.zipIdx.countP fun slot => slot.1.isSome := by
    conv_lhs => rw [← List.zipIdx_map_fst 0 view, List.countP_map]
    rfl
  rw [hcount]
  refine List.countP_mono_left fun slot _ h => ?_
  obtain ⟨slot, idx⟩ := slot
  cases slot with
  | none => cases h
  | some b => rfl

theorem enough_of_usable (h : input.ec.data.toNat ≤ usableOf net input g len) :
    input.Enough (groupView input.total (findings net input) g) :=
  h.trans (usable_le_countP _ _ _)

/-- A group with enough shards is one of the loop. -/
theorem mem_entries_of_enough (hdata : 1 ≤ input.ec.data.toNat)
    (h : input.Enough (groupView input.total (findings net input) g)) :
    (g, groupView input.total (findings net input) g) ∈ (enumerate net input).shards.entries := by
  refine mem_enumerate_shards.mpr ⟨?_, rfl⟩
  by_contra hno
  have hempty : groupView input.total (findings net input) g = List.replicate input.total none := by
    refine groupView_eq_replicate fun f hf hg => ?_
    by_contra hne
    exact hno ⟨f, hf, hg, hne⟩
  unfold ReconstructInput.Enough at h
  rw [hempty, List.countP_replicate] at h
  simp at h
  omega

/-- The length the loop has for a group that was read is the least. -/
theorem lengths_of_wasRead (h : WasRead (findings net input) g) :
    ∃ len, (enumerate net input).lengths.get? g = some len ∧ IsLength net input g len := by
  obtain ⟨f, hf, rfl, -⟩ := h
  exact enumerate_lengths hf

/-- An open container without a block. -/
theorem exists_empty_open (input : ReconstructInput) (id : BlockId) :
    ∃ t : Target, t.state input.container = some .open ∧ t.store.getBlock id = none := by
  refine ⟨⟨⟨SortedMap.empty.insert (MetaStore.containerKey input.container)
    ⟨.newOpen input.container input.ec, 0⟩, .empty⟩, fun _ _ => none⟩, ?_, rfl⟩
  simp [Target.state, MetaStore.getContainer, ContainerInfo.newOpen]

/-- Only a profile the coder accepts has encoded shards. -/
theorem inRange_of_encodeObject {X : Bytes} {encoded : EncodedShards}
    (h : encodeObject isal input.ec.profile X = .ok encoded) : input.ec.profile.InRange := by
  unfold encodeObject at h
  split at h
  · cases h
  case isFalse hzero =>
    obtain ⟨_, -, h⟩ := Outcome.bind_eq_ok.mp h
    obtain ⟨enc, henc, -⟩ := Outcome.bind_eq_ok.mp h
    have henc := Outcome.mapErr_eq_ok.mp henc
    obtain ⟨_, hvalid, -⟩ := Outcome.bind_eq_ok.mp henc
    unfold EcConfig.validate at hvalid
    split at hvalid
    · cases hvalid
    case isFalse hcfg =>
      have hdata : input.ec.profile.cfg.data = input.ec.profile.data := rfl
      have hparity : input.ec.profile.cfg.parity = input.ec.profile.parity := rfl
      have hlt : input.ec.profile.chunkSize < 2 ^ 32 := input.ec.ecChunkSize.toNat_lt
      constructor <;> omega

variable (hI : isal.Correct) (hcell : input.ec.ecChunkSize.toNat < 2 ^ 31)
  (hbuf : ∀ g len, IsLength net input g len →
    input.ec.data.toNat ≤ usableOf net input g len → len.toNat ≤ Layout.maxLen)

include hI hcell hbuf

/-- **Which groups are rebuilt when the loop comes to them.** -/
theorem groupOk_iff (h : WasRead (findings net input) g) (hlen : IsLength net input g len) :
    GroupOk isal .none input (enumerate net input) g ↔
      input.ec.profile.InRange ∧ input.ec.data.toNat ≤ usableOf net input g len := by
  obtain ⟨len', hget, hlen'⟩ := lengths_of_wasRead h
  obtain rfl : len' = len := hlen'.unique hlen
  have hview : (enumerate net input).shards.get? g =
      some (groupView input.total (findings net input) g) := by
    rw [enumerate_shards, if_pos h]
  constructor
  · rintro ⟨len'', encoded, hencoded, -⟩
    obtain ⟨view, object, hget', hview', hdec, henc⟩ := encoded?_eq_some.mp hencoded
    rw [hget] at hget'
    rw [hview] at hview'
    cases hget'
    cases hview'
    exact ⟨inRange_of_encodeObject henc, le_usable_of_decodeObject hdec⟩
  · rintro ⟨hrange, husable⟩
    have hP : input.ec.profile.Valid := ⟨hrange, hcell⟩
    have hle := hbuf g len' hlen husable
    have hcount : (groupView input.total (findings net input) g).length =
        input.ec.profile.data + input.ec.profile.parity := by
      rw [groupView, List.length_map, List.length_range]
      rfl
    obtain ⟨X, hdec, hX⟩ := exists_decodeObject hI hP hle hcount husable
    have henc := encodeObject_eq hI hP (hX.trans_le hle)
    refine ⟨len', _, encoded?_eq_some.mpr ⟨_, X, hget, hview, hdec, henc⟩, fun slot _ hslot => ?_⟩
    have hle : slot.toNat ≤ input.ec.profile.data + input.ec.profile.parity := hslot.2
    exact ⟨_, encodedSlot_encode hslot.1 hle, rfl, rfl⟩

/-- A turn that fails writes nothing. -/
theorem rebuildGroup_error (h : WasRead (findings net input) g)
    (henough : input.Enough (groupView input.total (findings net input) g))
    (hnot : ¬GroupOk isal .none input (enumerate net input) g) (rebuilt : List UInt64)
    (t : Target) : ∃ a, rebuildGroup isal .none input (enumerate net input).lengths rebuilt
      (g, groupView input.total (findings net input) g) t = .error a t := by
  obtain ⟨len, hget, hlen⟩ := lengths_of_wasRead h
  unfold rebuildGroup
  rw [hget]
  dsimp only
  rw [if_neg (not_lt.mpr henough)]
  cases hdec : decodeObject isal input.ec.profile len.toNat
      (groupView input.total (findings net input) g) with
  | err e => exact ⟨_, RepairM.bind_error rfl⟩
  | panic => exact ⟨_, RepairM.bind_error rfl⟩
  | ok object =>
    rw [RepairM.bind_ok (show RepairM.ofOutcome RepairError.ec (.ok object) t =
      .ok object t from rfl)]
    cases henc : encodeObject isal input.ec.profile object with
    | err e => exact ⟨_, RepairM.bind_error rfl⟩
    | panic => exact ⟨_, RepairM.bind_error rfl⟩
    | ok encoded =>
      refine absurd ((groupOk_iff hI hcell hbuf h hlen).mpr ⟨?_, ?_⟩) hnot
      · exact inRange_of_encodeObject henc
      · exact le_usable_of_decodeObject hdec

/-- **What a reconstruction leaves in an open container**: the groups are rebuilt that the loop
comes to. -/
theorem reconstruct_wrote {t : Target} (ht : t.state input.container = some .open) :
    Wrote input.container (rebuiltSlot isal input (enumerate net input))
      (RebuiltInTime isal net input) t
      (Repair.leaves (reconstructFromSurvivors isal .none net input t)) := by
  have hopen := isOpen_iff.mpr ht
  have hleaves : Repair.leaves (reconstructFromSurvivors isal .none net input t) =
      Repair.leaves (rebuildGroups isal .none input (enumerate net input) t) := by
    unfold reconstructFromSurvivors
    by_cases hnil : (enumerate net input).shards.entries = []
    · rw [if_pos hnil, rebuildGroups, hnil]
      rfl
    · rw [if_neg hnil, RepairM.bind_ok (provision_existing rfl ht)]
  rw [hleaves]
  refine foldlM_wrote_until (fun x hx hok acc t ht => ?_) (fun x hx hno acc t ht => ?_) [] hopen
  · by_cases henough : input.Enough x.2
    · obtain ⟨t', hrun, hwrote⟩ := rebuildGroup_ok (SortedMap.get?_eq_some.mpr hx) henough
        (hok henough) acc ht
      exact ⟨_, t', hrun, hwrote.congr fun id => by simp [henough]⟩
    · exact ⟨acc, t, rebuildGroup_skip henough acc t,
        (Wrote.refl ht).congr fun id => by simp [henough]⟩
  · obtain ⟨g, view⟩ := x
    obtain ⟨hread, rfl⟩ := mem_enumerate_shards.mp hx
    obtain ⟨henough, hnot⟩ := Classical.not_imp.mp hno
    exact rebuildGroup_error hI hcell hbuf hread henough hnot acc t

omit hI hcell hbuf in
/-- A group is rebuilt in time exactly if it and those below it are not torn. -/
theorem rebuiltInTime_iff {slot : UInt8} (hslot : slot ∈ input.missingSlots)
    (hrange : input.InRange slot) (hdata : 1 ≤ input.ec.data.toNat) :
    RebuiltInTime isal net input ⟨input.container, g, slot⟩ ↔
      input.Enough (groupView input.total (findings net input) g) ∧
      ∀ g' ≤ g, input.Enough (groupView input.total (findings net input) g') →
        GroupOk isal .none input (enumerate net input) g' := by
  unfold RebuiltInTime
  simp only [comes_iff (enumerate net input).shards.sorted]
  constructor
  · rintro ⟨⟨g₁, view⟩, ⟨hmem, hbelow⟩, hgoes, henough, -, hg, -⟩
    obtain ⟨-, rfl⟩ := mem_enumerate_shards.mp hmem
    obtain rfl : g = g₁ := List.mem_singleton.mp hg
    refine ⟨henough, fun g' hle henough' => ?_⟩
    obtain rfl | hlt := hle.eq_or_lt
    · exact hgoes henough'
    · exact hbelow _ (mem_entries_of_enough hdata henough') hlt henough'
  · rintro ⟨henough, hok⟩
    refine ⟨_, ⟨mem_entries_of_enough hdata henough, ?_⟩, hok g le_rfl, henough, rfl,
      List.mem_singleton_self g, hslot, hrange⟩
    rintro ⟨g', view⟩ hmem hlt henough'
    obtain ⟨-, rfl⟩ := mem_enumerate_shards.mp hmem
    exact hok g' hlt.le henough'

/-- A group that is rebuilt into an empty container comes after no torn one. -/
theorem not_torn_of_holdsRebuilt {t : Target} (ht : t.state input.container = some .open)
    {slot : UInt8}
    (hnone : t.store.getBlock ⟨input.container, g, slot⟩ = none) (hslot : slot ∈ input.missingSlots)
    (hrange : input.InRange slot) (h : HoldsRebuilt net input isal g slot
      (Repair.leaves (reconstructFromSurvivors isal .none net input t))) :
    input.ec.profile.InRange ∧ ∀ g' < g, ¬Torn net input g' := by
  obtain ⟨len, encoded, _, hencoded, -, -, hstored⟩ := h
  obtain ⟨_, _, _, _, -, henc⟩ := encoded?_eq_some.mp hencoded
  have hP := inRange_of_encodeObject henc
  have htime : RebuiltInTime isal net input ⟨input.container, g, slot⟩ := by
    by_contra hnot
    have hold := ((reconstruct_wrote hI hcell hbuf ht).old _ hnot).2
    rw [hold, hnone] at hstored
    cases hstored
  obtain ⟨-, hok⟩ := (rebuiltInTime_iff hslot hrange hP.data_pos).mp htime
  refine ⟨hP, ?_⟩
  rintro g' hlt ⟨len', hlen', henough, hfew⟩
  obtain ⟨hread, -⟩ := mem_enumerate_shards.mp (mem_entries_of_enough hP.data_pos henough)
  have husable := ((groupOk_iff hI hcell hbuf hread hlen').mp (hok g' hlt.le henough)).2
  exact absurd husable (Nat.not_le.mpr hfew)

/-- **Every group that can be rebuilt is, in every open container, exactly if none comes after
a torn one** and the coder accepts the profile; or if no slot is to be rebuilt. -/
theorem groups_independent_iff :
    (∀ t : Target, t.state input.container = some .open → ∀ g, Intact net input g →
      ∀ slot ∈ input.missingSlots, input.InRange slot → HoldsRebuilt net input isal g slot
        (Repair.leaves (reconstructFromSurvivors isal .none net input t))) ↔
    ((∃ slot ∈ input.missingSlots, input.InRange slot) → ∀ g, Intact net input g →
      input.ec.profile.InRange ∧ ∀ g' < g, ¬Torn net input g') := by
  constructor
  · rintro hall ⟨slot, hslot, hrange⟩ g hg
    obtain ⟨t, ht, hnone⟩ := exists_empty_open input ⟨input.container, g, slot⟩
    exact not_torn_of_holdsRebuilt hI hcell hbuf ht hnone hslot hrange
      (hall t ht g hg slot hslot hrange)
  · intro hcond t ht g hg slot hslot hrange
    obtain ⟨hP, htorn⟩ := hcond ⟨slot, hslot, hrange⟩ g hg
    obtain ⟨len, hlen, husable⟩ := hg
    have hok : ∀ g' ≤ g, input.Enough (groupView input.total (findings net input) g') →
        GroupOk isal .none input (enumerate net input) g' := by
      intro g' hle henough
      obtain ⟨hread, -⟩ := mem_enumerate_shards.mp (mem_entries_of_enough hP.data_pos henough)
      obtain ⟨len', -, hlen'⟩ := lengths_of_wasRead hread
      refine (groupOk_iff hI hcell hbuf hread hlen').mpr ⟨hP, ?_⟩
      obtain rfl | hlt := hle.eq_or_lt
      · rwa [hlen'.unique hlen]
      · by_contra hfew
        exact htorn g' hlt ⟨len', hlen', henough, Nat.not_le.mp hfew⟩
    have henough := enough_of_usable husable
    have htime := (rebuiltInTime_iff hslot hrange hP.data_pos).mpr ⟨henough, hok⟩
    have hstored := (reconstruct_wrote hI hcell hbuf ht).new _ htime
    obtain ⟨len', encoded, hencoded, hslots⟩ := hok g le_rfl henough
    obtain ⟨shard, hshard, -⟩ := hslots slot hslot hrange
    rw [rebuiltSlot_eq hencoded hshard] at hstored
    exact ⟨len', encoded, shard, hencoded, hshard, hstored⟩

end Independence

/-! ### A torn group and a whole one -/

/-- Two survivors that list the groups `7` and `8` of two bytes. The second has a shard of the
group `7` that is a byte too long. -/
def tornSurvivors (endpoint : String) : Peer where
  listBlocks _ := some ([7, 8].map fun g => (BlockData.new ⟨1, g, 1⟩).setBlockGroupLen 2)
  readChunk id :=
    if endpoint = "a" then some [5] else if id.localId = 7 then some [6, 6] else some [6]

theorem isLength_tornSurvivors {g len : UInt64} (h : IsLength tornSurvivors lostParity g len) :
    len = 2 := by
  have hall : ∀ f ∈ findings tornSurvivors lostParity, f.len = 2 := by decide
  obtain ⟨f, hf, -, rfl⟩ := h.1
  exact hall f hf

theorem maxLen_tornSurvivors (g len : UInt64) (h : IsLength tornSurvivors lostParity g len)
    (_ : lostParity.ec.data.toNat ≤ usableOf tornSurvivors lostParity g len) :
    len.toNat ≤ Layout.maxLen := by
  rw [isLength_tornSurvivors h]
  decide

/-- The two survivors. -/
theorem groups_independent_iff_tornSurvivors :
    (∀ t : Target, t.state lostParity.container = some .open →
      ∀ g, Intact tornSurvivors lostParity g → ∀ slot ∈ lostParity.missingSlots,
      lostParity.InRange slot → HoldsRebuilt tornSurvivors lostParity IsaL.reference g slot
        (Repair.leaves (reconstructFromSurvivors IsaL.reference .none tornSurvivors lostParity
          t))) ↔
    ((∃ slot ∈ lostParity.missingSlots, lostParity.InRange slot) →
      ∀ g, Intact tornSurvivors lostParity g →
        lostParity.ec.profile.InRange ∧ ∀ g' < g, ¬Torn tornSurvivors lostParity g') :=
  groups_independent_iff IsaL.reference_correct (by decide) maxLen_tornSurvivors

/-- **A group that could be rebuilt is not**: the group `8` comes after the torn group `7`. -/
theorem torn_group_stops_rebuild :
    Torn tornSurvivors lostParity 7 ∧ Intact tornSurvivors lostParity 8 ∧
    3 ∈ lostParity.missingSlots ∧ lostParity.InRange 3 ∧
    ∃ t : Target, t.state lostParity.container = some .open ∧
      ¬HoldsRebuilt tornSurvivors lostParity IsaL.reference 8 3
        (Repair.leaves (reconstructFromSurvivors IsaL.reference .none tornSurvivors lostParity
          t)) := by
  have hall : ∀ f ∈ findings tornSurvivors lostParity, f.len = 2 := by decide
  have hlength : ∀ g, (∃ f ∈ findings tornSurvivors lostParity, f.group = g ∧ f.len = 2) →
      IsLength tornSurvivors lostParity g 2 := by
    refine fun g hg => ⟨hg, ?_⟩
    rintro n ⟨f, hf, -, rfl⟩
    exact (hall f hf).ge
  have htorn : Torn tornSurvivors lostParity 7 :=
    ⟨2, hlength 7 (by decide), by decide, by decide⟩
  obtain ⟨t, ht, hnone⟩ := exists_empty_open lostParity ⟨lostParity.container, 8, 3⟩
  refine ⟨htorn, ⟨2, hlength 8 (by decide), by decide⟩, by decide, by decide, t, ht, fun h => ?_⟩
  have hnot := (not_torn_of_holdsRebuilt IsaL.reference_correct
    (by decide) maxLen_tornSurvivors ht hnone (by decide) (by decide) h).2
  exact hnot 7 (by decide) htorn

end OzoneRust
