import Mathlib.Algebra.BigOperators.Group.List.Basic
import OzoneRust.Storage.MetaStore

/-!
# The counters of a container

Whatever calls are made on the metadata store, in whatever order and with whatever
failures, a container record counts the blocks that are stored and the bytes they take, and
the numbers `put_block` returns for a container are `1, 2, 3, …`:
`OzoneRust.metaStore_counters`.

The counters are kept by addition and saturating subtraction alone, so what carries the
proof is a tally (`OzoneRust.MetaStore.Tally`): the counters of a record are the length and
the sum of a list of blocks, up to the order of the list. Putting a block adds it to the
list, over the block of the same key if there is one; deleting takes one out; and the sum
of what is left is never less than nothing.
-/

namespace OzoneRust

/-! ### Lengths -/

/-- The sum of the chunk lengths of a block, without wrapping. -/
def BlockData.exactLen (bd : BlockData) : ℕ := (bd.chunks.map fun c => c.len.toNat).sum

theorem foldl_add_toNat : ∀ (l : List UInt64) (a : UInt64),
    a.toNat + (l.map UInt64.toNat).sum < 2 ^ 64 →
    (l.foldl (· + ·) a).toNat = a.toNat + (l.map UInt64.toNat).sum
  | [], a, _ => by simp
  | b :: l, a, h => by
    rw [List.map_cons, List.sum_cons] at h ⊢
    have hadd : (a + b).toNat = a.toNat + b.toNat := by
      rw [UInt64.toNat_add, Nat.mod_eq_of_lt (by omega)]
    rw [List.foldl_cons, foldl_add_toNat l (a + b) (by omega), hadd]
    omega

/-- A length that fits does not wrap. -/
theorem BlockData.len_toNat {bd : BlockData} (h : bd.exactLen < 2 ^ 64) :
    bd.len.toNat = bd.exactLen := by
  have hmap : (bd.chunks.map (·.len)).map UInt64.toNat = bd.chunks.map fun c => c.len.toNat := by
    simp
  unfold exactLen at h
  rw [len, foldl_add_toNat _ _ (by rw [hmap]; simpa using h), hmap]
  exact Nat.zero_add _

namespace MetaStore

theorem satSub_toNat {a b : UInt64} : (satSub a b).toNat = a.toNat - b.toNat := by
  unfold satSub
  split
  case isTrue h => exact UInt64.toNat_sub_of_le a b h
  case isFalse h =>
    rw [UInt64.le_iff_toNat_le] at h
    rw [Nat.sub_eq_zero_of_le (by omega)]
    rfl

/-! ### Tallies -/

/-- The bytes of some blocks. -/
def bytesOf (l : List BlockData) : ℕ := (l.map BlockData.exactLen).sum

/-- The counters are those of a list of blocks. -/
structure Tally (l : List BlockData) (info : ContainerInfo) : Prop where
  /-- The number of blocks. -/
  count : info.blockCount = l.length
  /-- Their bytes. -/
  used : info.usedBytes.toNat = bytesOf l

variable {l l' : List BlockData} {info : ContainerInfo} {prev bd : BlockData}

theorem bytesOf_perm (h : l.Perm l') : bytesOf l = bytesOf l' := (h.map _).sum_eq

theorem bytesOf_cons : bytesOf (bd :: l) = bd.exactLen + bytesOf l := by
  simp [bytesOf]

theorem Tally.perm (h : Tally l info) (hl : l.Perm l') : Tally l' info :=
  ⟨h.count.trans hl.length_eq, h.used.trans (bytesOf_perm hl)⟩

/-- A block that is tallied takes no more than all of them. -/
theorem Tally.len_le (h : Tally (prev :: l) info) :
    prev.len.toNat = prev.exactLen ∧ prev.exactLen + bytesOf l = info.usedBytes.toNat := by
  have hused := h.used
  rw [bytesOf_cons] at hused
  have hlt := info.usedBytes.toNat_lt
  exact ⟨BlockData.len_toNat (by omega), hused.symm⟩

/-- A new block is put. -/
theorem Tally.countPut_none (h : Tally l info) (hfits : bytesOf (bd :: l) < 2 ^ 64) :
    Tally (bd :: l) (countPut info none bd.len) := by
  rw [bytesOf_cons] at hfits
  have hlen : bd.len.toNat = bd.exactLen := BlockData.len_toNat (by omega)
  have hused := h.used
  refine ⟨congrArg Nat.succ h.count, ?_⟩
  simp only [countPut]
  rw [bytesOf_cons, UInt64.toNat_add, Nat.mod_eq_of_lt (by omega)]
  omega

/-- A block is put over another. -/
theorem Tally.countPut_some (h : Tally (prev :: l) info) (hfits : bytesOf (bd :: l) < 2 ^ 64) :
    Tally (bd :: l) (countPut info (some prev) bd.len) := by
  obtain ⟨hprev, hused⟩ := h.len_le
  rw [bytesOf_cons] at hfits
  have hlen : bd.len.toNat = bd.exactLen := BlockData.len_toNat (by omega)
  have hsub := satSub_toNat (a := info.usedBytes) (b := prev.len)
  refine ⟨h.count, ?_⟩
  simp only [countPut]
  rw [bytesOf_cons, UInt64.toNat_add, Nat.mod_eq_of_lt (by omega)]
  omega

/-- A block is deleted. -/
theorem Tally.countDelete (h : Tally (prev :: l) info) : Tally l (countDelete info prev) := by
  obtain ⟨hprev, hused⟩ := h.len_le
  have hsub := satSub_toNat (a := info.usedBytes) (b := prev.len)
  have hcount := h.count
  rw [List.length_cons] at hcount
  refine ⟨?_, ?_⟩
  · simp only [MetaStore.countDelete]
    omega
  · simp only [MetaStore.countDelete]
    omega

/-! ### The blocks of a container -/

/-- The stored blocks of a container. -/
def blocksIn (m : SortedMap Bytes BlockData) (id : ContainerId) : List BlockData :=
  (m.entries.map Prod.snd).filter fun bd => bd.blockId.container = id

section BlocksIn

variable {m : SortedMap Bytes BlockData} {k : Bytes} {id : ContainerId}

/-- One entry more. -/
theorem blocksIn_of_perm {m' : SortedMap Bytes BlockData} (id : ContainerId)
    (h : m'.entries.Perm ((k, bd) :: m.entries)) :
    (blocksIn m' id).Perm
      (if bd.blockId.container = id then bd :: blocksIn m id else blocksIn m id) := by
  refine ((h.map Prod.snd).filter _).trans (.of_eq ?_)
  rw [List.map_cons, List.filter_cons]
  simp only [decide_eq_true_eq]
  rfl

theorem blocksIn_erase_of_none (h : m.get? k = none) :
    blocksIn (m.erase k) id = blocksIn m id := by
  rw [blocksIn, SortedMap.erase_entries_of_none h, blocksIn]

theorem mem_blocksIn :
    bd ∈ blocksIn m id ↔ (∃ k, (k, bd) ∈ m.entries) ∧ bd.blockId.container = id := by
  simp [blocksIn]

end BlocksIn

end MetaStore

/-! ### Runs -/

/-- The mutating calls of the store. -/
inductive MetaOp where
  /-- `create_container`, of `ContainerInfo::new_open`. -/
  | createContainer (id : ContainerId) (ec : EcReplicationConfig)
  /-- `set_container_state`. -/
  | setContainerState (id : ContainerId) (state : ContainerState)
  /-- `put_block`. -/
  | putBlock (block : BlockData)
  /-- `delete_block`. -/
  | deleteBlock (id : BlockId)
  /-- `delete_container`. -/
  | deleteContainer (id : ContainerId)

/-- What a call returns. -/
inductive MetaReply where
  /-- Nothing. -/
  | done
  /-- The commit sequence number. -/
  | bcsi (n : ℕ)

/-- What a call does. -/
def MetaOp.run (s : MetaStore) : MetaOp → Except StorageError (MetaReply × MetaStore)
  | .createContainer id ec => (s.createContainer (.newOpen id ec)).map fun r => (.done, r.2)
  | .setContainerState id state => (s.setContainerState id state).map fun r => (.done, r.2)
  | .putBlock block => (s.putBlock block).map fun r => (.bcsi r.1, r.2)
  | .deleteBlock id => (s.deleteBlock id).map fun r => (.done, r.2)
  | .deleteContainer id => (s.deleteContainer id).map fun r => (.done, r.2)

/-- A call and its result. -/
structure MetaCall where
  /-- The call. -/
  op : MetaOp
  /-- The result. -/
  result : Except StorageError MetaReply

namespace MetaStore

/-- One call: it returns, it fails, or the key–value store fails under it. -/
inductive Step (s : MetaStore) : MetaCall → MetaStore → Prop where
  /-- The call returns. -/
  | ok {op : MetaOp} {r : MetaReply} {s' : MetaStore} (h : op.run s = .ok (r, s')) :
      Step s ⟨op, .ok r⟩ s'
  /-- The call fails. -/
  | error {op : MetaOp} {e : StorageError} (h : op.run s = .error e) : Step s ⟨op, .error e⟩ s
  /-- The key–value store fails. -/
  | backend (op : MetaOp) (message : String) : Step s ⟨op, .error (.metaError message)⟩ s

/-- The bytes of every container fit a `u64`. -/
def Fits (s : MetaStore) : Prop := ∀ id, bytesOf (blocksIn s.blocks id) < 2 ^ 64

/-- What `put_block` has returned for a container since its record was last created or
deleted. -/
def returned (id : ContainerId) (log : List MetaCall) : List ℕ :=
  log.foldl (fun acc call => match call with
    | ⟨.createContainer id' _, .ok _⟩ => if id' = id then [] else acc
    | ⟨.deleteContainer id', .ok _⟩ => if id' = id then [] else acc
    | ⟨.putBlock bd, .ok (.bcsi n)⟩ => if bd.blockId.container = id then acc ++ [n] else acc
    | _ => acc) []

/-- What a call that returns has done, one case per path through it. -/
inductive Effect (s : MetaStore) : MetaOp → MetaReply → MetaStore → Prop where
  /-- A container is created. -/
  | created (id : ContainerId) (ec : EcReplicationConfig)
      (hc : s.containers.get? (containerKey id) = none) :
      Effect s (.createContainer id ec) .done
        ⟨s.containers.insert (containerKey id) ⟨.newOpen id ec, 0⟩, s.blocks⟩
  /-- The state of a container is set. -/
  | stateSet (id : ContainerId) (state : ContainerState) (record : StoredContainer)
      (hc : s.containers.get? (containerKey id) = some record) :
      Effect s (.setContainerState id state) .done
        ⟨s.containers.insert (containerKey id) ⟨{ record.info with state := state }, record.bcsi⟩,
          s.blocks⟩
  /-- A block is put. -/
  | put (bd : BlockData) (record : StoredContainer)
      (hc : s.containers.get? (containerKey bd.blockId.container) = some record) :
      Effect s (.putBlock bd) (.bcsi (record.bcsi + 1))
        ⟨s.containers.insert (containerKey bd.blockId.container)
          ⟨countPut record.info (s.blocks.get? (blockKey bd.blockId)) bd.len, record.bcsi + 1⟩,
          s.blocks.insert (blockKey bd.blockId) bd⟩
  /-- There is no block to delete. -/
  | absent (id : BlockId) (hb : s.blocks.get? (blockKey id) = none) :
      Effect s (.deleteBlock id) .done s
  /-- A block is deleted whose container has no record. -/
  | orphan (id : BlockId) (prev : BlockData) (hb : s.blocks.get? (blockKey id) = some prev)
      (hc : s.containers.get? (containerKey id.container) = none) :
      Effect s (.deleteBlock id) .done ⟨s.containers, s.blocks.erase (blockKey id)⟩
  /-- A block is deleted. -/
  | deleted (id : BlockId) (prev : BlockData) (record : StoredContainer)
      (hb : s.blocks.get? (blockKey id) = some prev)
      (hc : s.containers.get? (containerKey id.container) = some record) :
      Effect s (.deleteBlock id) .done
        ⟨s.containers.insert (containerKey id.container)
          ⟨countDelete record.info prev, record.bcsi⟩, s.blocks.erase (blockKey id)⟩
  /-- A container is deleted. -/
  | containerDeleted (id : ContainerId) :
      Effect s (.deleteContainer id) .done ⟨s.containers.erase (containerKey id),
        s.blocks.filterKeys fun k => ¬(containerKey id).isPrefixOf k⟩

theorem effect_of_run {s s' : MetaStore} {op : MetaOp} {r : MetaReply}
    (h : op.run s = .ok (r, s')) : Effect s op r s' := by
  cases op with
  | createContainer id ec =>
    simp only [MetaOp.run, createContainer] at h
    split at h
    · cases h
    · cases h
      exact .created id ec ‹_›
  | setContainerState id state =>
    simp only [MetaOp.run, setContainerState] at h
    split at h
    · cases h
    · cases h
      exact .stateSet id state _ ‹_›
  | putBlock bd =>
    simp only [MetaOp.run, putBlock] at h
    split at h
    · cases h
    · split at h
      · cases h
      · cases h
        exact .put bd _ ‹_›
  | deleteBlock id =>
    simp only [MetaOp.run, deleteBlock] at h
    split at h
    · cases h
      exact .absent id ‹_›
    · split at h
      · cases h
        exact .orphan id _ ‹_› ‹_›
      · cases h
        exact .deleted id _ _ ‹_› ‹_›
  | deleteContainer id =>
    cases h
    exact .containerDeleted id

/-! ### Where the blocks are -/

/-- Every block is stored under its own key, and its container has a record. -/
structure Keyed (s : MetaStore) : Prop where
  /-- The key is that of the block. -/
  key : ∀ k bd, (k, bd) ∈ s.blocks.entries → k = blockKey bd.blockId
  /-- The container has a record. -/
  owner : ∀ k bd, (k, bd) ∈ s.blocks.entries →
    ∃ record, s.containers.get? (containerKey bd.blockId.container) = some record

section Keyed

variable {s : MetaStore} {op : MetaOp} {r : MetaReply} {s' : MetaStore}

theorem exists_get?_insert {m : SortedMap Bytes StoredContainer} {k k' : Bytes}
    {v : StoredContainer} (h : ∃ record, m.get? k' = some record) :
    ∃ record, (m.insert k v).get? k' = some record := by
  by_cases hk : k' = k
  · exact ⟨v, hk ▸ SortedMap.get?_insert_self⟩
  · rw [SortedMap.get?_insert_of_ne hk]
    exact h

/-- **Every call that returns keeps the blocks under their keys.** -/
theorem Keyed.effect (h : Keyed s) (he : Effect s op r s') : Keyed s' := by
  cases he with
  | created id ec hc => exact ⟨h.key, fun k bd hb => exists_get?_insert (h.owner k bd hb)⟩
  | stateSet id state record hc =>
    exact ⟨h.key, fun k bd hb => exists_get?_insert (h.owner k bd hb)⟩
  | put bd record hc =>
    refine ⟨fun k b hb => ?_, fun k b hb => ?_⟩ <;>
      rcases SortedMap.mem_insert.mp hb with heq | ⟨hb, -⟩
    · cases heq
      rfl
    · exact h.key k b hb
    · cases heq
      exact ⟨_, SortedMap.get?_insert_self⟩
    · exact exists_get?_insert (h.owner k b hb)
  | absent id hb => exact h
  | orphan id prev hb hc =>
    exact ⟨fun k bd hb => h.key k bd (SortedMap.mem_erase.mp hb).1,
      fun k bd hb => h.owner k bd (SortedMap.mem_erase.mp hb).1⟩
  | deleted id prev record hb hc =>
    exact ⟨fun k bd hb => h.key k bd (SortedMap.mem_erase.mp hb).1,
      fun k bd hb => exists_get?_insert (h.owner k bd (SortedMap.mem_erase.mp hb).1)⟩
  | containerDeleted id =>
    refine ⟨fun k bd hb => h.key k bd (SortedMap.mem_filterKeys.mp hb).1, fun k bd hb => ?_⟩
    obtain ⟨hb, hk⟩ := SortedMap.mem_filterKeys.mp hb
    have hne : bd.blockId.container ≠ id := by
      rw [h.key k bd hb, decide_eq_true_eq, isPrefixOf_blockKey] at hk
      exact hk
    rw [SortedMap.get?_erase_of_ne (mt containerKey_inj.mp hne)]
    exact h.owner k bd hb

theorem Keyed.step (h : Keyed s) {call : MetaCall} (hs : Step s call s') : Keyed s' := by
  cases hs with
  | ok hrun => exact h.effect (effect_of_run hrun)
  | error => exact h
  | backend => exact h

theorem keyed_empty : Keyed empty := ⟨by rintro _ _ ⟨⟩, by rintro _ _ ⟨⟩⟩

/-- The block under a key is the one asked for. -/
theorem Keyed.blockId_eq (h : Keyed s) {id : BlockId} {bd : BlockData}
    (hb : s.blocks.get? (blockKey id) = some bd) : bd.blockId = id :=
  (blockKey_inj.mp (h.key _ _ (SortedMap.get?_eq_some.mp hb))).symm

/-- A container without a record has no blocks. -/
theorem Keyed.blocksIn_eq_nil (h : Keyed s) {id : ContainerId}
    (hc : s.containers.get? (containerKey id) = none) : blocksIn s.blocks id = [] := by
  refine List.eq_nil_iff_forall_not_mem.mpr fun bd hbd => ?_
  obtain ⟨⟨k, hk⟩, rfl⟩ := mem_blocksIn.mp hbd
  obtain ⟨record, hrecord⟩ := h.owner k bd hk
  rw [hc] at hrecord
  cases hrecord

theorem Keyed.getBlock_eq_none (h : Keyed s) {id : BlockId}
    (hc : s.containers.get? (containerKey id.container) = none) : s.getBlock id = none := by
  by_contra hne
  obtain ⟨bd, hbd⟩ := Option.ne_none_iff_exists'.mp hne
  obtain ⟨record, hrecord⟩ := h.owner _ bd (SortedMap.get?_eq_some.mp hbd)
  rw [h.blockId_eq hbd, hc] at hrecord
  cases hrecord

/-- After every run the blocks are under their keys. -/
theorem keyed_of_trace {log : List MetaCall} (h : Trace Step empty log s) : Keyed s :=
  h.invariant (fun _ => Keyed) keyed_empty fun _ _ _ _ hI hs => hI.step hs

end Keyed

/-! ### What the counters count -/

/-- **The invariant**: the records tally the blocks, and their sequence numbers count the
puts. -/
structure Counted (log : List MetaCall) (s : MetaStore) : Prop extends Keyed s where
  /-- The counters are those of the stored blocks. -/
  tally : ∀ id record, s.containers.get? (containerKey id) = some record →
    Tally (blocksIn s.blocks id) record.info
  /-- A container without a record has had no puts. -/
  unborn : ∀ id, s.containers.get? (containerKey id) = none → returned id log = []
  /-- The puts were numbered from one. -/
  numbered : ∀ id record, s.containers.get? (containerKey id) = some record →
    returned id log = (List.range record.bcsi).map (· + 1)

section Counted

variable {s s' : MetaStore} {op : MetaOp} {r : MetaReply} {log : List MetaCall}

/-- The tally of the container a block is put into. -/
theorem Keyed.tally_put (h : Keyed s) {record : StoredContainer}
    (ht : Tally (blocksIn s.blocks bd.blockId.container) record.info)
    (hfits : bytesOf (blocksIn (s.blocks.insert (blockKey bd.blockId) bd)
      bd.blockId.container) < 2 ^ 64) :
    Tally (blocksIn (s.blocks.insert (blockKey bd.blockId) bd) bd.blockId.container)
      (countPut record.info (s.blocks.get? (blockKey bd.blockId)) bd.len) := by
  have hnew := blocksIn_of_perm bd.blockId.container
    (SortedMap.perm_insert (m := s.blocks) (k := blockKey bd.blockId) (v := bd))
  rw [if_pos rfl] at hnew
  rw [bytesOf_perm hnew] at hfits
  cases hprev : s.blocks.get? (blockKey bd.blockId) with
  | none =>
    rw [← blocksIn_erase_of_none hprev] at ht
    exact (ht.countPut_none hfits).perm hnew.symm
  | some prev =>
    have hold := blocksIn_of_perm bd.blockId.container (SortedMap.perm_cons_erase hprev)
    rw [if_pos (congrArg BlockId.container (h.blockId_eq hprev))] at hold
    exact ((ht.perm hold).countPut_some hfits).perm hnew.symm

/-- The tally of the container a block is deleted from. -/
theorem Keyed.tally_delete (h : Keyed s) {id : BlockId} {prev : BlockData}
    (hprev : s.blocks.get? (blockKey id) = some prev) {record : StoredContainer}
    (ht : Tally (blocksIn s.blocks id.container) record.info) :
    Tally (blocksIn (s.blocks.erase (blockKey id)) id.container)
      (countDelete record.info prev) := by
  have hold := blocksIn_of_perm id.container (SortedMap.perm_cons_erase hprev)
  rw [if_pos (congrArg BlockId.container (h.blockId_eq hprev))] at hold
  exact (ht.perm hold).countDelete

/-- Deleting a block leaves the other containers alone. -/
theorem Keyed.blocksIn_erase (h : Keyed s) {id : BlockId} {c : ContainerId}
    (hc : id.container ≠ c) :
    (blocksIn (s.blocks.erase (blockKey id)) c).Perm (blocksIn s.blocks c) := by
  cases hprev : s.blocks.get? (blockKey id) with
  | none => rw [blocksIn_erase_of_none hprev]
  | some prev =>
    have hold := blocksIn_of_perm c (SortedMap.perm_cons_erase hprev)
    rw [if_neg ((congrArg BlockId.container (h.blockId_eq hprev)).trans_ne hc)] at hold
    exact hold.symm

/-- Putting a block leaves the other containers alone. -/
theorem Keyed.blocksIn_insert (h : Keyed s) {c : ContainerId} (hc : bd.blockId.container ≠ c) :
    (blocksIn (s.blocks.insert (blockKey bd.blockId) bd) c).Perm (blocksIn s.blocks c) := by
  have hnew := blocksIn_of_perm c
    (SortedMap.perm_insert (m := s.blocks) (k := blockKey bd.blockId) (v := bd))
  rw [if_neg hc] at hnew
  exact hnew.trans (h.blocksIn_erase hc)

/-- So does deleting a container. -/
theorem Keyed.blocksIn_filterKeys (h : Keyed s) {id c : ContainerId} (hc : c ≠ id) :
    blocksIn (s.blocks.filterKeys fun k => ¬(containerKey id).isPrefixOf k) c =
      blocksIn s.blocks c := by
  unfold blocksIn SortedMap.filterKeys
  rw [List.filter_map, List.filter_map, List.filter_filter]
  congr 1
  refine List.filter_congr fun e he => ?_
  rw [h.key e.1 e.2 he, Bool.and_eq_left_iff_imp, Function.comp_apply, decide_eq_true_eq,
    decide_eq_true_eq, isPrefixOf_blockKey]
  exact fun hec => hec.trans_ne hc

theorem returned_append (id : ContainerId) (call : MetaCall) :
    returned id (log ++ [call]) = match call with
      | ⟨.createContainer id' _, .ok _⟩ => if id' = id then [] else returned id log
      | ⟨.deleteContainer id', .ok _⟩ => if id' = id then [] else returned id log
      | ⟨.putBlock bd, .ok (.bcsi n)⟩ =>
        if bd.blockId.container = id then returned id log ++ [n] else returned id log
      | _ => returned id log := by
  rw [returned, List.foldl_append]
  rfl

/-- A call that touches the record of one container: the invariant for the others. -/
theorem Counted.of_touch (h : Counted log s) (hkeyed : Keyed s') {call : MetaCall}
    {c : ContainerId}
    (hget : ∀ id, id ≠ c → s'.containers.get? (containerKey id) =
      s.containers.get? (containerKey id))
    (hblocks : ∀ id, id ≠ c → (blocksIn s'.blocks id).Perm (blocksIn s.blocks id))
    (hreturned : ∀ id, id ≠ c → returned id (log ++ [call]) = returned id log)
    (htally : ∀ record, s'.containers.get? (containerKey c) = some record →
      Tally (blocksIn s'.blocks c) record.info)
    (hunborn : s'.containers.get? (containerKey c) = none → returned c (log ++ [call]) = [])
    (hnumbered : ∀ record, s'.containers.get? (containerKey c) = some record →
      returned c (log ++ [call]) = (List.range record.bcsi).map (· + 1)) :
    Counted (log ++ [call]) s' := by
  refine { hkeyed with tally := ?_, unborn := ?_, numbered := ?_ }
  · intro id record hrecord
    by_cases hid : id = c
    · subst hid
      exact htally record hrecord
    · rw [hget id hid] at hrecord
      exact (h.tally id record hrecord).perm (hblocks id hid).symm
  · intro id hnone
    by_cases hid : id = c
    · subst hid
      exact hunborn hnone
    · rw [hget id hid] at hnone
      rw [hreturned id hid]
      exact h.unborn id hnone
  · intro id record hrecord
    by_cases hid : id = c
    · subst hid
      exact hnumbered record hrecord
    · rw [hget id hid] at hrecord
      rw [hreturned id hid]
      exact h.numbered id record hrecord

/-- A call that sets the record of one container. -/
theorem Counted.of_insert (h : Counted log s) {blocks : SortedMap Bytes BlockData}
    {c : ContainerId} {record : StoredContainer}
    (hkeyed : Keyed ⟨s.containers.insert (containerKey c) record, blocks⟩) {call : MetaCall}
    (hblocks : ∀ id, id ≠ c → (blocksIn blocks id).Perm (blocksIn s.blocks id))
    (hreturned : ∀ id, id ≠ c → returned id (log ++ [call]) = returned id log)
    (htally : Tally (blocksIn blocks c) record.info)
    (hnumbered : returned c (log ++ [call]) = (List.range record.bcsi).map (· + 1)) :
    Counted (log ++ [call]) ⟨s.containers.insert (containerKey c) record, blocks⟩ := by
  have hself : ∀ record', (s.containers.insert (containerKey c) record).get? (containerKey c) =
      some record' → record' = record := by
    intro record' hget
    rw [SortedMap.get?_insert_self, Option.some.injEq] at hget
    exact hget.symm
  refine h.of_touch hkeyed (c := c) (fun id hid => ?_) hblocks hreturned ?_ ?_ ?_
  · exact SortedMap.get?_insert_of_ne (mt containerKey_inj.mp hid)
  · intro record' hget
    rw [hself record' hget]
    exact htally
  · intro hnone
    rw [SortedMap.get?_insert_self] at hnone
    cases hnone
  · intro record' hget
    rw [hself record' hget]
    exact hnumbered

/-- **Every call that returns keeps the counters.** -/
theorem Counted.effect (h : Counted log s) (hfits : s'.Fits) (he : Effect s op r s') :
    Counted (log ++ [⟨op, .ok r⟩]) s' := by
  have hkeyed := h.toKeyed.effect he
  cases he with
  | created id ec hc =>
    refine h.of_insert hkeyed (fun _ _ => .refl _) (fun c hne => ?_) ?_ ?_
    · rw [returned_append]
      exact if_neg hne.symm
    · rw [h.blocksIn_eq_nil hc]
      exact ⟨rfl, rfl⟩
    · rw [returned_append]
      exact if_pos rfl
  | stateSet id state record hc =>
    refine h.of_insert hkeyed (fun _ _ => .refl _) (fun c hne => ?_) ?_ ?_
    · rw [returned_append]
    · exact ⟨(h.tally id record hc).count, (h.tally id record hc).used⟩
    · rw [returned_append]
      exact h.numbered id record hc
  | put bd record hc =>
    refine h.of_insert hkeyed (fun c hne => h.blocksIn_insert hne.symm) (fun c hne => ?_) ?_ ?_
    · rw [returned_append]
      exact if_neg hne.symm
    · exact h.tally_put (h.tally _ record hc) (hfits _)
    · rw [returned_append]
      dsimp only
      rw [if_pos rfl, h.numbered _ record hc, List.range_succ, List.map_append]
      rfl
  | absent id hb =>
    refine { h with unborn := fun c hnone => ?_, numbered := fun c record hrecord => ?_ }
    · rw [returned_append]
      exact h.unborn c hnone
    · rw [returned_append]
      exact h.numbered c record hrecord
  | orphan id prev hb hc =>
    -- a stored block has a container record
    obtain ⟨record, hrecord⟩ := h.owner _ _ (SortedMap.get?_eq_some.mp hb)
    rw [h.blockId_eq hb, hc] at hrecord
    cases hrecord
  | deleted id prev record hb hc =>
    refine h.of_insert hkeyed (fun c hne => h.blocksIn_erase hne.symm) (fun c hne => ?_) ?_ ?_
    · rw [returned_append]
    · exact h.tally_delete hb (h.tally _ record hc)
    · rw [returned_append]
      exact h.numbered _ record hc
  | containerDeleted id =>
    refine h.of_touch hkeyed (c := id) (fun c hne => ?_) (fun c hne => ?_)
      (fun c hne => ?_) ?_ ?_ ?_
    · exact SortedMap.get?_erase_of_ne (mt containerKey_inj.mp hne)
    · exact .of_eq (h.blocksIn_filterKeys hne)
    · rw [returned_append]
      exact if_neg hne.symm
    · intro record hget
      rw [SortedMap.get?_erase_self] at hget
      cases hget
    · intro _
      rw [returned_append]
      exact if_pos rfl
    · intro record hget
      rw [SortedMap.get?_erase_self] at hget
      cases hget

theorem returned_append_error (id : ContainerId) (op : MetaOp) (e : StorageError) :
    returned id (log ++ [⟨op, .error e⟩]) = returned id log := by
  rw [returned_append]
  cases op <;> rfl

theorem Counted.step (h : Counted log s) {call : MetaCall} (hs : Step s call s')
    (hfits : s'.Fits) : Counted (log ++ [call]) s' := by
  have hfailed : ∀ op e, Counted (log ++ [⟨op, .error e⟩]) s := fun op e =>
    { h with
      unborn := fun c hnone => (returned_append_error c op e).trans (h.unborn c hnone)
      numbered := fun c record hrecord =>
        (returned_append_error c op e).trans (h.numbered c record hrecord) }
  cases hs with
  | ok hrun => exact h.effect hfits (effect_of_run hrun)
  | error => exact hfailed _ _
  | backend => exact hfailed _ _

theorem counted_empty : Counted [] empty :=
  { keyed_empty with
    tally := by rintro _ _ ⟨⟩
    unborn := fun _ _ => rfl
    numbered := by rintro _ _ ⟨⟩ }

end Counted

end MetaStore

open MetaStore

/-- **The counters of the metadata store are right after every run** in which the bytes of
every container fit a `u64`: each stored block is under its own key and its container has a
record; the record counts the stored blocks and their bytes, so that no subtraction
saturates; and the numbers returned for a container since it was created are
`1, 2, 3, …`. -/
theorem metaStore_counters {log : List MetaCall} {s : MetaStore}
    (h : Trace (fun s call s' => MetaStore.Step s call s' ∧ s'.Fits) MetaStore.empty log s) :
    (∀ k bd, (k, bd) ∈ s.blocks.entries → k = blockKey bd.blockId ∧
      ∃ record, s.containers.get? (containerKey bd.blockId.container) = some record) ∧
    (∀ id record, s.containers.get? (containerKey id) = some record →
      record.info.blockCount = (blocksIn s.blocks id).length ∧
      record.info.usedBytes.toNat = ((blocksIn s.blocks id).map fun bd => bd.len.toNat).sum ∧
      ∀ bd ∈ blocksIn s.blocks id, bd.len.toNat = bd.exactLen ∧
        bd.len ≤ record.info.usedBytes ∧ 1 ≤ record.info.blockCount) ∧
    ∀ id, returned id log = (List.range (returned id log).length).map (· + 1) := by
  have hcounted : Counted log s :=
    h.invariant Counted counted_empty fun _ _ _ _ hI hs => hI.step hs.1 hs.2
  refine ⟨fun k bd hb => ⟨hcounted.key k bd hb, hcounted.owner k bd hb⟩, ?_, ?_⟩
  · intro id record hrecord
    have ht := hcounted.tally id record hrecord
    have hmem : ∀ bd ∈ blocksIn s.blocks id, bd.len.toNat = bd.exactLen ∧
        bd.len ≤ record.info.usedBytes ∧ 1 ≤ record.info.blockCount := by
      intro bd hbd
      have ht' := ht.perm (List.perm_cons_erase hbd)
      obtain ⟨hlen, hused⟩ := ht'.len_le
      refine ⟨hlen, UInt64.le_iff_toNat_le.mpr (by omega), ?_⟩
      rw [ht'.count]
      exact Nat.succ_le_succ (Nat.zero_le _)
    refine ⟨ht.count, ?_, hmem⟩
    rw [ht.used, bytesOf]
    exact congrArg List.sum (List.map_congr_left fun bd hbd => (hmem bd hbd).1.symm)
  · intro id
    cases hget : s.containers.get? (containerKey id) with
    | none => rw [hcounted.unborn id hget]; rfl
    | some record => rw [hcounted.numbered id record hget]; simp

/-- One call more that returns, in a store whose blocks all fit. -/
theorem trace_snoc_ok {log : List MetaCall} {s s' : MetaStore}
    (h : Trace (fun s call s' => MetaStore.Step s call s' ∧ s'.Fits) MetaStore.empty log s)
    (op : MetaOp) {r : MetaReply} (hrun : op.run s = .ok (r, s'))
    (hfits : bytesOf (s'.blocks.entries.map Prod.snd) < 2 ^ 64) :
    Trace (fun s call s' => MetaStore.Step s call s' ∧ s'.Fits) MetaStore.empty
      (log ++ [⟨op, .ok r⟩]) s' := by
  refine h.snoc ⟨.ok hrun, fun _ => Nat.lt_of_le_of_lt ?_ hfits⟩
  exact List.Sublist.sum_le_sum (List.filter_sublist.map _) (by simp)

/-- A container is created and a block is put twice. -/
theorem metaStore_counters_two_puts : ∃ log s,
    Trace (fun s call s' => MetaStore.Step s call s' ∧ s'.Fits) MetaStore.empty log s ∧
    returned 1 log = [1, 2] ∧
    (∀ k bd, (k, bd) ∈ s.blocks.entries → k = blockKey bd.blockId ∧
      ∃ record, s.containers.get? (containerKey bd.blockId.container) = some record) ∧
    (∀ id record, s.containers.get? (containerKey id) = some record →
      record.info.blockCount = (blocksIn s.blocks id).length ∧
      record.info.usedBytes.toNat = ((blocksIn s.blocks id).map fun bd => bd.len.toNat).sum ∧
      ∀ bd ∈ blocksIn s.blocks id, bd.len.toNat = bd.exactLen ∧
        bd.len ≤ record.info.usedBytes ∧ 1 ≤ record.info.blockCount) ∧
    ∀ id, returned id log = (List.range (returned id log).length).map (· + 1) := by
  have h₁ := trace_snoc_ok .nil (.createContainer 1 ⟨1, 1, 1, .rs⟩) rfl (by decide)
  have h₂ := trace_snoc_ok h₁ (.putBlock ⟨⟨1, 2, 1⟩, [⟨"0", 0, 5, none⟩], []⟩) rfl (by decide)
  have h₃ := trace_snoc_ok h₂ (.putBlock ⟨⟨1, 2, 1⟩, [⟨"0", 0, 3, none⟩], []⟩) rfl (by decide)
  exact ⟨_, _, h₃, rfl, metaStore_counters h₃⟩

end OzoneRust
