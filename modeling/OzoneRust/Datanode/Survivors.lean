import Mathlib.Order.Bounds.Basic
import OzoneRust.Datanode.Repair

/-!
# What the survivors told

The two nested loops over survivors and their blocks are one loop over what they found
(`OzoneRust.findings`): for each block a reachable survivor lists with a positive group
length, the length and the outcome of a verified read of the survivor's own slot. After the
loop, a group has the least of its lengths (`OzoneRust.enumerate_lengths`), and per slot the
last shard that was read (`OzoneRust.enumerate_shards`).
-/

namespace OzoneRust

/-- A block a survivor lists with a positive group length, and what reading it gave. -/
structure Finding where
  /-- The group, by its local id. -/
  group : UInt64
  /-- The slot of the survivor. -/
  slot : UInt8
  /-- The length of the group. -/
  len : UInt64
  /-- The shard, if the read succeeded. -/
  read : Option Bytes
  deriving DecidableEq, Repr

/-- What one listed block gives. -/
def blockFinding (input : ReconstructInput) (slot : UInt8) (peer : Peer) (bd : BlockData) :
    Option Finding :=
  match bd.blockGroupLen with
  | none => none
  | some len =>
    if len = 0 then none
    else some ⟨bd.blockId.localId, slot, len,
      peer.readChunk ⟨input.container, bd.blockId.localId, slot⟩⟩

/-- What one survivor gives. -/
def sourceFindings (net : String → Peer) (input : ReconstructInput) (src : UInt8 × String) :
    List Finding :=
  if input.skips src.1 then []
  else
    match (net src.2).listBlocks input.container with
    | none => []
    | some blocks => blocks.filterMap (blockFinding input src.1 (net src.2))

/-- What all survivors give. -/
def findings (net : String → Peer) (input : ReconstructInput) : List Finding :=
  input.sources.flatMap (sourceFindings net input)

/-- The last shard read of a slot of a group. -/
def lastRead (fs : List Finding) (g : UInt64) (slot : ℕ) : Option Bytes :=
  ((fs.filter fun f => f.group = g ∧ f.slot.toNat = slot).filterMap (·.read)).getLast?

/-- The shards of a group, slot by slot. -/
def groupView (total : ℕ) (fs : List Finding) (g : UInt64) : List (Option Bytes) :=
  (List.range total).map fun i => lastRead fs g (i + 1)

/-! ### One loop -/

/-- One finding is added to the enumeration. -/
def absorb (total : ℕ) (acc : Enumeration) (f : Finding) : Enumeration where
  shards := match f.read with
    | none => acc.shards
    | some bytes => acc.shards.insert f.group
        (((acc.shards.get? f.group).getD (List.replicate total none)).set (f.slot.toNat - 1)
          (some bytes))
  lengths := acc.lengths.insert f.group (match acc.lengths.get? f.group with
    | some m => min m f.len
    | none => f.len)

variable {net : String → Peer} {input : ReconstructInput}

theorem enumerateBlock_eq (slot : UInt8) (peer : Peer) (acc : Enumeration) (bd : BlockData) :
    enumerateBlock input slot peer acc bd =
      ((blockFinding input slot peer bd).map (absorb input.total acc)).getD acc := by
  unfold enumerateBlock blockFinding
  dsimp only
  cases bd.blockGroupLen with
  | none => rfl
  | some len =>
    dsimp only
    split
    · rfl
    · rw [Option.map_some, Option.getD_some, absorb]
      cases peer.readChunk ⟨input.container, bd.blockId.localId, slot⟩ <;> rfl

theorem enumerateSource_eq (acc : Enumeration) (src : UInt8 × String) :
    enumerateSource net input acc src =
      (sourceFindings net input src).foldl (absorb input.total) acc := by
  unfold enumerateSource sourceFindings
  split
  · rfl
  · cases (net src.2).listBlocks input.container with
    | none => rfl
    | some blocks =>
      dsimp only
      rw [List.foldl_filterMap]
      refine congrFun (congrFun (congrArg _ ?_) acc) blocks
      funext acc bd
      rw [enumerateBlock_eq]
      cases blockFinding input src.1 (net src.2) bd <;> rfl

/-- **The loops over survivors and blocks are one loop over what they found.** -/
theorem enumerate_eq :
    enumerate net input = (findings net input).foldl (absorb input.total) ⟨.empty, .empty⟩ := by
  unfold enumerate findings
  rw [List.foldl_flatMap]
  refine congrFun (congrFun (congrArg _ ?_) _) _
  funext acc src
  exact enumerateSource_eq acc src

/-! ### What the loop has gathered -/

section Absorb

variable {total : ℕ} {fs : List Finding} {f : Finding} {g : UInt64} {i : ℕ}

theorem lastRead_append_of_none (h : f.read = none) :
    lastRead (fs ++ [f]) g i = lastRead fs g i := by
  simp only [lastRead, List.filter_append, List.filterMap_append]
  by_cases hf : f.group = g ∧ f.slot.toNat = i <;> simp [hf, h]

theorem lastRead_append_of_ne (h : ¬(f.group = g ∧ f.slot.toNat = i)) :
    lastRead (fs ++ [f]) g i = lastRead fs g i := by
  simp [lastRead, List.filter_append, h]

theorem lastRead_append_self {bytes : Bytes} (h : f.read = some bytes) :
    lastRead (fs ++ [f]) f.group f.slot.toNat = some bytes := by
  simp [lastRead, List.filter_append, h]

theorem groupView_append_of_none (h : f.read = none) :
    groupView total (fs ++ [f]) g = groupView total fs g :=
  List.map_congr_left fun _ _ => lastRead_append_of_none h

theorem groupView_append_of_ne (h : f.group ≠ g) :
    groupView total (fs ++ [f]) g = groupView total fs g :=
  List.map_congr_left fun _ _ => lastRead_append_of_ne fun hf => h hf.1

theorem groupView_append_self {bytes : Bytes} (h : f.read = some bytes) (hslot : f.slot ≠ 0) :
    groupView total (fs ++ [f]) f.group =
      (groupView total fs f.group).set (f.slot.toNat - 1) (some bytes) := by
  have hpos : 0 < f.slot.toNat := by
    rw [Nat.pos_iff_ne_zero]
    exact fun h0 => hslot (UInt8.toNat_inj.mp h0)
  refine List.ext_getElem (by simp [groupView]) fun i hi _ => ?_
  have hi' : i < total := by simpa [groupView] using hi
  rw [List.getElem_set]
  simp only [groupView, List.getElem_map, List.getElem_range]
  split
  case isTrue heq =>
    have hslot : i + 1 = f.slot.toNat := by omega
    rw [hslot]
    exact lastRead_append_self h
  case isFalse hne => exact lastRead_append_of_ne fun hf => hne (by omega)

/-- A group of which nothing was read has an empty view. -/
theorem groupView_eq_replicate (h : ∀ f ∈ fs, f.group = g → f.read = none) :
    groupView total fs g = List.replicate total none := by
  rw [List.eq_replicate_iff]
  refine ⟨by simp [groupView], fun v hv => ?_⟩
  obtain ⟨i, -, rfl⟩ := List.mem_map.mp hv
  rw [lastRead, List.getLast?_eq_none_iff, List.filterMap_eq_nil_iff]
  intro f hf
  rw [List.mem_filter, decide_eq_true_eq] at hf
  exact h f hf.1 hf.2.1

/-- **The shards**: a group of which something was read has its view. -/
theorem absorb_shards (hslots : ∀ f ∈ fs, f.slot ≠ 0) (g : UInt64) :
    (fs.foldl (absorb total) ⟨.empty, .empty⟩).shards.get? g =
      if ∃ f ∈ fs, f.group = g ∧ f.read ≠ none then some (groupView total fs g) else none := by
  induction fs using List.reverseRecOn with
  | nil => simp
  | append_singleton fs f ih =>
    have ih := ih fun f hf => hslots f (List.mem_append_left _ hf)
    have hex : (∃ f' ∈ fs ++ [f], f'.group = g ∧ f'.read ≠ none) ↔
        (∃ f' ∈ fs, f'.group = g ∧ f'.read ≠ none) ∨ f.group = g ∧ f.read ≠ none := by
      simp [or_and_right, exists_or]
    rw [List.foldl_append, List.foldl_cons, List.foldl_nil, absorb]
    simp only [hex]
    cases hread : f.read with
    | none => simp [ih, groupView_append_of_none hread]
    | some bytes =>
      dsimp only
      by_cases hg : f.group = g
      · subst hg
        -- a group without reads so far starts from the empty view
        have hold : ((fs.foldl (absorb total) ⟨.empty, .empty⟩).shards.get? f.group).getD
            (List.replicate total none) = groupView total fs f.group := by
          rw [ih]
          split
          case isTrue => rfl
          case isFalse hno =>
            refine (groupView_eq_replicate fun f' hf' hg => ?_).symm
            by_contra hne
            exact hno ⟨f', hf', hg, hne⟩
        rw [SortedMap.get?_insert_self, hold, if_pos (.inr ⟨rfl, by simp⟩),
          groupView_append_self hread (hslots f (by simp))]
      · rw [SortedMap.get?_insert_of_ne (Ne.symm hg), ih, groupView_append_of_ne hg]
        simp [hg]

/-- **The lengths**: a group has the least of its lengths. -/
theorem absorb_lengths (g : UInt64) : match
    (fs.foldl (absorb total) ⟨.empty, .empty⟩).lengths.get? g with
      | none => ∀ f ∈ fs, f.group ≠ g
      | some m => IsLeast {n | ∃ f ∈ fs, f.group = g ∧ f.len = n} m := by
  induction fs using List.reverseRecOn with
  | nil => simp
  | append_singleton fs f ih =>
    rw [List.foldl_append, List.foldl_cons, List.foldl_nil, absorb]
    dsimp only
    by_cases hg : f.group = g
    · subst hg
      have hset : {n | ∃ f' ∈ fs ++ [f], f'.group = f.group ∧ f'.len = n} =
          {n | ∃ f' ∈ fs, f'.group = f.group ∧ f'.len = n} ∪ {f.len} := by
        ext n
        simp [or_and_right, exists_or, or_comm, eq_comm]
      rw [SortedMap.get?_insert_self, hset]
      cases hget : (fs.foldl (absorb total) ⟨.empty, .empty⟩).lengths.get? f.group with
      | none =>
        rw [hget] at ih
        have hempty : {n | ∃ f' ∈ fs, f'.group = f.group ∧ f'.len = n} = ∅ := by
          ext n
          simpa using fun f' hf' hg => absurd hg (ih f' hf')
        rw [hempty, Set.empty_union]
        exact isLeast_singleton
      | some m =>
        rw [hget] at ih
        exact ih.union isLeast_singleton
    · have hset : {n | ∃ f' ∈ fs ++ [f], f'.group = g ∧ f'.len = n} =
          {n | ∃ f' ∈ fs, f'.group = g ∧ f'.len = n} := by
        ext n
        simp [or_and_right, exists_or, hg]
      rw [SortedMap.get?_insert_of_ne (Ne.symm hg)]
      cases hget : (fs.foldl (absorb total) ⟨.empty, .empty⟩).lengths.get? g with
      | none =>
        rw [hget] at ih
        intro f' hf'
        rcases List.mem_append.mp hf' with hf' | hf'
        · exact ih f' hf'
        · rw [List.mem_singleton.mp hf']
          exact hg
      | some m =>
        rw [hget] at ih
        rw [hset]
        exact ih

end Absorb

/-! ### The enumeration -/

/-- **Where a finding comes from.** -/
theorem mem_findings {f : Finding} : f ∈ findings net input ↔ ∃ src ∈ input.sources,
    input.skips src.1 = false ∧ ∃ blocks, (net src.2).listBlocks input.container = some blocks ∧
      ∃ bd ∈ blocks, ∃ len, bd.blockGroupLen = some len ∧ len ≠ 0 ∧
        f = ⟨bd.blockId.localId, src.1, len,
          (net src.2).readChunk ⟨input.container, bd.blockId.localId, src.1⟩⟩ := by
  constructor
  · intro hf
    obtain ⟨src, hsrc, hf⟩ := List.mem_flatMap.mp hf
    unfold sourceFindings at hf
    split at hf
    case isTrue => cases hf
    case isFalse hskip =>
      split at hf
      case h_1 => cases hf
      case h_2 blocks hblocks =>
        obtain ⟨bd, hbd, hf⟩ := List.mem_filterMap.mp hf
        unfold blockFinding at hf
        split at hf
        case h_1 => cases hf
        case h_2 len hlen =>
          split at hf
          case isTrue => cases hf
          case isFalse hne =>
            cases hf
            exact ⟨src, hsrc, Bool.eq_false_iff.mpr hskip, blocks, hblocks, bd, hbd, len, hlen,
              hne, rfl⟩
  · rintro ⟨src, hsrc, hskip, blocks, hblocks, bd, hbd, len, hlen, hne, rfl⟩
    refine List.mem_flatMap.mpr ⟨src, hsrc, ?_⟩
    rw [sourceFindings, hskip, if_neg Bool.false_ne_true, hblocks]
    refine List.mem_filterMap.mpr ⟨bd, hbd, ?_⟩
    rw [blockFinding, hlen]
    exact if_neg hne

/-- Every finding is about a slot of the group that is not missing. -/
theorem slot_of_mem_findings {f : Finding} (hf : f ∈ findings net input) :
    f.slot ≠ 0 ∧ f.slot.toNat ≤ input.total ∧ f.slot ∉ input.missingSlots := by
  obtain ⟨src, -, hskip, _, _, _, _, _, _, _, rfl⟩ := mem_findings.mp hf
  have hnot := of_decide_eq_false hskip
  rw [not_or, not_or, not_lt] at hnot
  exact hnot

/-- Where the survivors have distinct slots, a slot of a group has one read. -/
theorem read_eq_of_nodup (hslots : (input.sources.map Prod.fst).Nodup) {f f' : Finding}
    (hf : f ∈ findings net input) (hf' : f' ∈ findings net input) (hg : f.group = f'.group)
    (hs : f.slot = f'.slot) : f.read = f'.read := by
  obtain ⟨src, hsrc, _, _, _, bd, _, _, _, _, rfl⟩ := mem_findings.mp hf
  obtain ⟨src', hsrc', _, _, _, bd', _, _, _, _, rfl⟩ := mem_findings.mp hf'
  obtain rfl : src = src' := List.inj_on_of_nodup_map hslots hsrc hsrc' hs
  dsimp only at hg ⊢
  rw [hg]

theorem exists_of_lastRead {fs : List Finding} {g : UInt64} {i : ℕ} {b : Bytes}
    (h : lastRead fs g i = some b) :
    ∃ f ∈ fs, f.group = g ∧ f.slot.toNat = i ∧ f.read = some b := by
  obtain ⟨f, hf, hread⟩ := List.mem_filterMap.mp (List.mem_of_getLast? h)
  rw [List.mem_filter, decide_eq_true_eq] at hf
  exact ⟨f, hf.1, hf.2.1, hf.2.2, hread⟩

/-- Then the last read is the one. -/
theorem lastRead_eq_of_nodup (hslots : (input.sources.map Prod.fst).Nodup) {f : Finding}
    (hf : f ∈ findings net input) {b : Bytes} (hread : f.read = some b) :
    lastRead (findings net input) f.group f.slot.toNat = some b := by
  cases hlast : lastRead (findings net input) f.group f.slot.toNat with
  | none =>
    rw [lastRead, List.getLast?_eq_none_iff, List.filterMap_eq_nil_iff] at hlast
    have hnone := hlast f (List.mem_filter.mpr ⟨hf, by simp⟩)
    rw [hread] at hnone
    cases hnone
  | some b' =>
    obtain ⟨f', hf', hg, hs, hread'⟩ := exists_of_lastRead hlast
    rw [← hread', ← hread]
    exact read_eq_of_nodup hslots hf' hf hg (UInt8.toNat_inj.mp hs)

/-- Something of the group was read. -/
def WasRead (fs : List Finding) (g : UInt64) : Prop := ∃ f ∈ fs, f.group = g ∧ f.read ≠ none

instance (fs : List Finding) (g : UInt64) : Decidable (WasRead fs g) :=
  inferInstanceAs (Decidable (∃ f ∈ fs, _))

theorem enumerate_shards (g : UInt64) :
    (enumerate net input).shards.get? g =
      if WasRead (findings net input) g then some (groupView input.total (findings net input) g)
      else none := by
  rw [enumerate_eq]
  exact absorb_shards (fun _ hf => (slot_of_mem_findings hf).1) g

theorem enumerate_lengths {f : Finding} (hf : f ∈ findings net input) :
    ∃ m, (enumerate net input).lengths.get? f.group = some m ∧
      IsLeast {n | ∃ f' ∈ findings net input, f'.group = f.group ∧ f'.len = n} m := by
  have h : match (enumerate net input).lengths.get? f.group with
      | none => ∀ f' ∈ findings net input, f'.group ≠ f.group
      | some m => IsLeast {n | ∃ f' ∈ findings net input, f'.group = f.group ∧ f'.len = n} m := by
    rw [enumerate_eq]
    exact absorb_lengths f.group
  cases hget : (enumerate net input).lengths.get? f.group with
  | none =>
    rw [hget] at h
    exact absurd rfl (h f hf)
  | some m =>
    rw [hget] at h
    exact ⟨m, rfl, h⟩

/-- The groups of the loop over the shards. -/
theorem mem_enumerate_shards {g : UInt64} {view : List (Option Bytes)} :
    (g, view) ∈ (enumerate net input).shards.entries ↔
      WasRead (findings net input) g ∧ view = groupView input.total (findings net input) g := by
  rw [← SortedMap.get?_eq_some, enumerate_shards]
  split
  case isTrue h => simp [h, eq_comm]
  case isFalse h => simp [h]

end OzoneRust
