import Mathlib.Data.List.Sort
import OzoneRust.Lib.Paging
import OzoneRust.Storage.Counters

/-!
# Listing the blocks of a container

`list_blocks` returns the blocks of a container from a local id on, up to a limit, and the
local id to go on from. The datanode's stream, its client and the scrubber call it again and
again until there is nothing to go on from (`OzoneRust.MetaStore.listBlocksStream`).

The keys of the blocks ascend by local id and then by slot, but the cursor is a local id
alone. So a reader who is cut off between two slots of one block starts again at the first
of them: it sees some blocks twice, and if a page holds nothing else it never ends.
`OzoneRust.listBlocksStream_complete_iff` says when reading to the end gives every block
once: exactly when no page ends between two slots of one block.
-/

namespace OzoneRust

namespace MetaStore

/-- The loop of the readers of `list_blocks`: page after page, from the local id the one
before gave. -/
def listBlocksStream (s : MetaStore) (container : ContainerId) (limit : ℕ) :
    ℕ → UInt64 → Option (List BlockData)
  | 0, _ => none
  | fuel + 1, start =>
    let page := s.listBlocks container start limit
    match page.nextLocalId with
    | none => some page.blocks
    | some n => (listBlocksStream s container limit fuel n).map (page.blocks ++ ·)

/-- The local id of a block. -/
def localIdOf (bd : BlockData) : UInt64 := bd.blockId.localId

/-- Ascending by local id, then by slot. -/
def Before (a b : BlockData) : Prop :=
  a.blockId.localId < b.blockId.localId ∨
    a.blockId.localId = b.blockId.localId ∧ a.blockId.replicaIndex < b.blockId.replicaIndex

variable {s : MetaStore} {c : ContainerId} {start : UInt64} {limit : ℕ}

/-! ### One page -/

theorem listLoop_eq : ∀ (l out : List BlockData), out.length ≤ limit →
    listLoop start limit l out =
      ⟨out ++ (Paging.rest localIdOf l start).take (limit - out.length),
        ((Paging.rest localIdOf l start)[limit - out.length]?).map localIdOf⟩
  | [], out, _ => by simp [listLoop, Paging.rest]
  | bd :: l, out, hle => by
    rw [listLoop]
    by_cases hlt : bd.blockId.localId < start
    · rw [if_pos hlt, Paging.rest_cons_of_lt (show localIdOf bd < start from hlt)]
      exact listLoop_eq l out hle
    · rw [if_neg hlt, Paging.rest_cons_of_le (show start ≤ localIdOf bd from not_lt.mp hlt)]
      by_cases hfull : limit ≤ out.length
      · rw [if_pos hfull, Nat.sub_eq_zero_of_le hfull]
        simp [localIdOf]
      · have hsub : limit - out.length = limit - (out ++ [bd]).length + 1 := by
          rw [List.length_append, List.length_singleton]
          omega
        rw [if_neg hfull, listLoop_eq l (out ++ [bd]) (by simp; omega), hsub]
        simp

theorem listBlocks_eq : s.listBlocks c start limit =
    ⟨Paging.page localIdOf limit (s.scan c) start,
      Paging.next localIdOf limit (s.scan c) start⟩ := by
  rw [listBlocks, listLoop_eq _ _ (Nat.zero_le _)]
  rfl

theorem listBlocksStream_eq : ∀ (fuel : ℕ) (start : UInt64),
    s.listBlocksStream c limit fuel start = Paging.walk localIdOf limit (s.scan c) fuel start
  | 0, _ => rfl
  | fuel + 1, start => by
    rw [listBlocksStream, Paging.walk, listBlocks_eq]
    dsimp only
    cases Paging.next localIdOf limit (s.scan c) start with
    | none => rfl
    | some n =>
      dsimp only
      rw [listBlocksStream_eq fuel n]

/-! ### The blocks in order -/

theorem mem_scan (h : Keyed s) {bd : BlockData} :
    bd ∈ s.scan c ↔ s.getBlock bd.blockId = some bd ∧ bd.blockId.container = c := by
  simp only [scan, List.mem_map, List.mem_filter, Prod.exists, exists_eq_right]
  constructor
  · rintro ⟨k, hmem, hprefix⟩
    obtain rfl := h.key k bd hmem
    exact ⟨SortedMap.get?_eq_some.mpr hmem, isPrefixOf_blockKey.mp hprefix⟩
  · rintro ⟨hget, hc⟩
    exact ⟨_, SortedMap.get?_eq_some.mp hget, isPrefixOf_blockKey.mpr hc⟩

theorem scan_pairwise (h : Keyed s) : (s.scan c).Pairwise Before := by
  have hkeys := List.pairwise_map.mp s.blocks.sorted
  rw [scan, List.pairwise_map]
  refine (hkeys.sublist List.filter_sublist).imp_of_mem fun {a b} ha hb hlt => ?_
  obtain ⟨ha, hpa⟩ := List.mem_filter.mp ha
  obtain ⟨hb, hpb⟩ := List.mem_filter.mp hb
  rw [h.key a.1 a.2 ha, isPrefixOf_blockKey] at hpa
  rw [h.key b.1 b.2 hb, isPrefixOf_blockKey] at hpb
  rw [h.key a.1 a.2 ha, h.key b.1 b.2 hb] at hlt
  exact (blockKey_lt_blockKey (hpa.trans hpb.symm)).mp hlt

theorem Before.le {a b : BlockData} (h : Before a b) : localIdOf a ≤ localIdOf b := by
  rcases h with h | ⟨h, -⟩
  · exact le_of_lt h
  · exact le_of_eq h

theorem Before.asymm {a b : BlockData} (h : Before a b) : ¬Before b a := by
  rintro (h' | ⟨h', hslot'⟩) <;> rcases h with h | ⟨h, hslot⟩
  · exact lt_asymm h h'
  · exact ne_of_lt h' h.symm
  · exact ne_of_lt h h'.symm
  · exact lt_asymm hslot hslot'

theorem nodup_of_pairwise_before {l : List BlockData} (h : l.Pairwise Before) : l.Nodup :=
  h.imp fun hab heq => by
    subst heq
    exact hab.asymm hab

/-! ### The whole listing -/

/-- **A complete listing**: every stored block of the container from a local id on, once, in
ascending order. -/
structure Lists (s : MetaStore) (c : ContainerId) (start : UInt64) (out : List BlockData) :
    Prop where
  /-- In ascending order, so none twice. -/
  sorted : out.Pairwise Before
  /-- The stored blocks and no others. -/
  mem : ∀ bd, bd ∈ out ↔
    s.getBlock bd.blockId = some bd ∧ bd.blockId.container = c ∧ start ≤ bd.blockId.localId

theorem lists_iff (h : Keyed s) {out : List BlockData} :
    s.Lists c start out ↔ out = Paging.rest localIdOf (s.scan c) start := by
  have hmem : ∀ bd, bd ∈ Paging.rest localIdOf (s.scan c) start ↔
      s.getBlock bd.blockId = some bd ∧ bd.blockId.container = c ∧ start ≤ bd.blockId.localId := by
    intro bd
    rw [Paging.rest, List.mem_filter, mem_scan h, and_assoc, decide_eq_true_eq]
    rfl
  have hsorted : (Paging.rest localIdOf (s.scan c) start).Pairwise Before :=
    (scan_pairwise h).sublist List.filter_sublist
  constructor
  · intro hout
    refine List.Perm.eq_of_pairwise (fun a b _ _ hab hba => absurd hba hab.asymm) hout.sorted
      hsorted ?_
    rw [List.perm_ext_iff_of_nodup (nodup_of_pairwise_before hout.sorted)
      (nodup_of_pairwise_before hsorted)]
    exact fun bd => (hout.mem bd).trans (hmem bd).symm
  · rintro rfl
    exact ⟨hsorted, hmem⟩

end MetaStore

open MetaStore

/-- **When a listing is complete**: reading page after page ends and gives every stored block
of the container from the start on, once and in ascending order, exactly when no page
boundary falls between two slots of one block. -/
theorem listBlocksStream_complete_iff {log : List MetaCall} {s : MetaStore}
    (hs : Trace MetaStore.Step MetaStore.empty log s) {c : ContainerId} {start : UInt64} {limit : ℕ}
    (hlimit : 1 ≤ limit) :
    (∃ fuel out, s.listBlocksStream c limit fuel start = some out ∧ s.Lists c start out) ↔
      ∀ j a b, ((s.scan c).filter fun bd => start ≤ bd.blockId.localId)[(j + 1) * limit - 1]? =
        some a →
        ((s.scan c).filter fun bd => start ≤ bd.blockId.localId)[(j + 1) * limit]? = some b →
        a.blockId.localId ≠ b.blockId.localId := by
  have hkeyed := keyed_of_trace hs
  have hpairwise := scan_pairwise hkeyed (c := c)
  have hwalk := Paging.walk_eq_some_iff (c := start) (hpairwise.imp Before.le) hlimit
    (nodup_of_pairwise_before hpairwise)
  refine Iff.trans ?_ hwalk
  constructor
  · rintro ⟨fuel, out, hstream, hlists⟩
    rw [listBlocksStream_eq, (lists_iff hkeyed).mp hlists] at hstream
    exact ⟨fuel, hstream⟩
  · rintro ⟨fuel, hwalk⟩
    refine ⟨fuel, _, ?_, (lists_iff hkeyed).mpr rfl⟩
    rw [listBlocksStream_eq]
    exact hwalk

/-! ### Two slots of one block -/

/-- A block of the container `1`. -/
def slotOfSeven (slot : UInt8) : BlockData := ⟨⟨1, 7, slot⟩, [], []⟩

/-- A store in which a container has two slots of one block. -/
theorem exists_twoSlots : ∃ log s, Trace MetaStore.Step MetaStore.empty log s ∧
    s.scan 1 = [slotOfSeven 1, slotOfSeven 2] := by
  have h₁ := trace_snoc_ok .nil (.createContainer 1 ⟨2, 1, 1, .rs⟩) rfl (by decide)
  have h₂ := trace_snoc_ok h₁ (.putBlock (slotOfSeven 1)) rfl (by decide)
  have h₃ := trace_snoc_ok h₂ (.putBlock (slotOfSeven 2)) rfl (by decide)
  exact ⟨_, _, h₃.mono fun _ _ _ h => h.1, rfl⟩

/-- The store with the two slots, read one block at a time. -/
theorem listBlocksStream_complete_iff_twoSlots : ∃ log s,
    Trace MetaStore.Step MetaStore.empty log s ∧ s.scan 1 = [slotOfSeven 1, slotOfSeven 2] ∧
    ((∃ fuel out, s.listBlocksStream 1 1 fuel 0 = some out ∧ s.Lists 1 0 out) ↔
      ∀ j a b, ((s.scan 1).filter fun bd => 0 ≤ bd.blockId.localId)[(j + 1) * 1 - 1]? = some a →
        ((s.scan 1).filter fun bd => 0 ≤ bd.blockId.localId)[(j + 1) * 1]? = some b →
        a.blockId.localId ≠ b.blockId.localId) := by
  obtain ⟨log, s, htrace, hscan⟩ := exists_twoSlots
  exact ⟨log, s, htrace, hscan, listBlocksStream_complete_iff htrace (Nat.le_refl 1)⟩

/-- **A listing that never ends**: read one block at a time, the first of the two slots comes
again and again. -/
theorem listing_never_ends : ∃ log s, Trace MetaStore.Step MetaStore.empty log s ∧
    s.scan 1 = [slotOfSeven 1, slotOfSeven 2] ∧
    ∀ fuel, s.listBlocksStream 1 1 fuel 0 = none := by
  obtain ⟨log, s, htrace, hscan⟩ := exists_twoSlots
  have hpage : ∀ start ≤ 7, s.listBlocks 1 start 1 = ⟨[slotOfSeven 1], some 7⟩ := by
    intro start hstart
    have hlt : ¬(7 < start) := not_lt.mpr hstart
    simp [MetaStore.listBlocks, hscan, MetaStore.listLoop, slotOfSeven, hlt]
  have hloop : ∀ fuel, ∀ start ≤ 7, s.listBlocksStream 1 1 fuel start = none := by
    intro fuel
    induction fuel with
    | zero => exact fun _ _ => rfl
    | succ fuel ih =>
      intro start hstart
      rw [listBlocksStream, hpage start hstart]
      dsimp only
      rw [ih 7 le_rfl]
      rfl
  exact ⟨log, s, htrace, hscan, fun fuel => hloop fuel 0 (by decide)⟩

end OzoneRust
