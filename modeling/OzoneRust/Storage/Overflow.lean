import OzoneRust.Datanode.Messages
import OzoneRust.Lib.Outcome
import OzoneRust.Storage.Counters

/-!
# Overflow in the metadata store

The lengths of chunks come from the wire, and nothing bounds them: two chunks of one block can be
longer together than a `u64` can say. In a build with overflow checks the sum panics, under the
write lock, and a lock that was held by a panic is poisoned: every later call that takes it fails
(`OzoneRust.Guarded`). In a build without them the sum wraps, and the counters are wrong
(`OzoneRust.MetaStore.putBlock`).

The calls are written once more with every addition checked. As long as the additions fit
(`OzoneRust.MetaStore.AddsFit`), the two builds do the same and the counters are right; the first
call whose additions do not fit panics. `OzoneRust.additions_fit` puts this together over whole
runs, in which the key–value store may fail at any point (`OzoneRust.Fault`).
-/

namespace OzoneRust

/-- Where a call of the key–value store fails. -/
inductive Fault where
  /-- On the way to a container record. -/
  | containers
  /-- On the way to a block record. -/
  | blocks
  /-- When the batch is committed. -/
  | commit
  deriving DecidableEq, Repr

/-- A call of the metadata store, and what fails under it. -/
structure MetaRequest where
  /-- The call. -/
  op : MetaOp
  /-- Where the key–value store fails, if it does. -/
  fault : Option Fault

/-- What a call fails with if the key–value store does. -/
def backendFailed : StorageError := .metaError "backend"

/-! ### The code, with its additions checked -/

/-- `BlockData::len`. -/
def BlockData.lenChecked (bd : BlockData) : Outcome StorageError ℕ :=
  bd.chunks.foldlM (fun acc c => Outcome.add acc c.len.toNat) 0

namespace MetaStore

/-- The counters after a block of `newLen` bytes is put where a block may have been. -/
def countPutChecked (info : ContainerInfo) (prev : Option BlockData) (newLen : ℕ) :
    Outcome StorageError ContainerInfo :=
  match prev with
  | some prev => do
    let prevLen ← prev.lenChecked
    let used ← Outcome.add (info.usedBytes.toNat - prevLen) newLen
    return { info with usedBytes := UInt64.ofNat used }
  | none => do
    let count ← Outcome.add info.blockCount 1
    let used ← Outcome.add info.usedBytes.toNat newLen
    return { info with blockCount := count, usedBytes := UInt64.ofNat used }

/-- `put_block`. -/
def putBlockChecked (s : MetaStore) (block : BlockData) (fault : Option Fault) :
    Outcome StorageError (ℕ × MetaStore) :=
  let cid := block.blockId.container
  if fault = some .containers then .err backendFailed
  else
    match s.containers.get? (containerKey cid) with
    | none => .err (.containerNotFound cid)
    | some record =>
      if !record.info.state.isWritable then .err (.containerNotOpen cid record.info.state)
      else do
        let newLen ← block.lenChecked
        if fault = some .blocks then .err backendFailed
        else
          let info ← countPutChecked record.info (s.blocks.get? (blockKey block.blockId)) newLen
          let bcsi ← Outcome.add record.bcsi 1
          if fault = some .commit then .err backendFailed
          else
            return (bcsi, ⟨s.containers.insert (containerKey cid) ⟨info, bcsi⟩,
              s.blocks.insert (blockKey block.blockId) block⟩)

/-- `delete_block`. -/
def deleteBlockChecked (s : MetaStore) (id : BlockId) (fault : Option Fault) :
    Outcome StorageError (Unit × MetaStore) :=
  if fault = some .blocks then .err backendFailed
  else
    match s.blocks.get? (blockKey id) with
    | none => .ok ((), s)
    | some existing => do
      let blocks := s.blocks.erase (blockKey id)
      if fault = some .containers then .err backendFailed
      else
        match s.containers.get? (containerKey id.container) with
        | none =>
          if fault = some .commit then .err backendFailed else .ok ((), { s with blocks := blocks })
        | some record =>
          let len ← existing.lenChecked
          let info := { record.info with
            blockCount := record.info.blockCount - 1
            usedBytes := UInt64.ofNat (record.info.usedBytes.toNat - len) }
          if fault = some .commit then .err backendFailed
          else
            return ((), ⟨s.containers.insert (containerKey id.container) ⟨info, record.bcsi⟩,
              blocks⟩)

end MetaStore

/-- What a call does under the lock. The other calls add nothing. -/
def MetaRequest.checked (s : MetaStore) (req : MetaRequest) :
    Outcome StorageError (MetaReply × MetaStore) :=
  match req.op with
  | .putBlock block => do
    let r ← s.putBlockChecked block req.fault
    return (.bcsi r.1, r.2)
  | .deleteBlock id => do
    let r ← s.deleteBlockChecked id req.fault
    return (.done, r.2)
  | op => if req.fault = none then .ofExcept id (op.run s) else .err backendFailed

/-- **The store and its write lock.** -/
structure Guarded where
  /-- The two partitions. -/
  store : MetaStore
  /-- A call has panicked while it held the lock. -/
  poisoned : Bool

namespace Guarded

/-- What a call returns if its task panics. -/
def joinFailed : StorageError := .metaError "metadata task join failed"

/-- A call: it takes the lock, and panics if the lock is poisoned. -/
def call (g : Guarded) (req : MetaRequest) : Except StorageError MetaReply × Guarded :=
  if g.poisoned then (.error joinFailed, g)
  else
    match req.checked g.store with
    | .ok (r, s) => (.ok r, ⟨s, false⟩)
    | .err e => (.error e, g)
    | .panic => (.error joinFailed, ⟨g.store, true⟩)

/-- The store after some calls. -/
def run (reqs : List MetaRequest) : Guarded :=
  reqs.foldl (fun g req => (g.call req).2) ⟨MetaStore.empty, false⟩

end Guarded

/-- The store after a call, in a build without overflow checks. -/
def MetaRequest.unchecked (s : MetaStore) (req : MetaRequest) : MetaStore :=
  if req.fault = none then
    match req.op.run s with
    | .ok r => r.2
    | .error _ => s
  else s

/-- The store after some calls, in a build without overflow checks. -/
def MetaStore.run (reqs : List MetaRequest) : MetaStore :=
  reqs.foldl MetaRequest.unchecked MetaStore.empty

/-! ### When the additions fit -/

theorem foldlM_add : ∀ (l : List ChunkInfo) {acc : ℕ}, acc < 2 ^ 64 →
    l.foldlM (fun acc c => Outcome.add acc c.len.toNat) acc =
      if acc + (l.map fun c => c.len.toNat).sum < 2 ^ 64 then
        (.ok (acc + (l.map fun c => c.len.toNat).sum) : Outcome StorageError ℕ)
      else .panic
  | [], acc, h => (if_pos h).symm
  | c :: l, acc, h => by
    rw [List.foldlM_cons, List.map_cons, List.sum_cons, ← Nat.add_assoc]
    by_cases hlt : acc + c.len.toNat < 2 ^ 64
    · rw [Outcome.add, if_pos hlt, Outcome.ok_bind, foldlM_add l hlt]
    · rw [Outcome.add, if_neg hlt, Outcome.panic_bind, if_neg (by omega)]

/-- The sum of the lengths panics exactly if it does not fit. -/
theorem BlockData.lenChecked_eq (bd : BlockData) :
    bd.lenChecked = if bd.exactLen < 2 ^ 64 then .ok bd.exactLen else .panic := by
  have h := @foldlM_add bd.chunks 0 (by decide)
  rw [Nat.zero_add] at h
  exact h

namespace MetaStore

/-- The blocks of a container after one is put into it. -/
def blocksAfter (s : MetaStore) (bd : BlockData) : List BlockData :=
  blocksIn (s.blocks.insert (blockKey bd.blockId) bd) bd.blockId.container

/-- **The additions a call makes fit**: those of a `put_block` that finds its container open. What
fails before an addition is made does not count. -/
def AddsFit (s : MetaStore) (req : MetaRequest) : Prop :=
  match req.op with
  | .putBlock bd => ∀ record,
    s.containers.get? (containerKey bd.blockId.container) = some record →
    record.info.state.isWritable = true → req.fault ≠ some .containers →
    bd.exactLen < 2 ^ 64 ∧ (req.fault ≠ some .blocks →
      bytesOf (s.blocksAfter bd) < 2 ^ 64 ∧ record.bcsi + 1 < 2 ^ 64 ∧
        (s.blocks.get? (blockKey bd.blockId) = none → record.info.blockCount + 1 < 2 ^ 64))
  | _ => True

section Sound

variable {s : MetaStore} {log : List MetaCall} {bd : BlockData} {record : StoredContainer}

/-- One addition, checked. -/
theorem add_exactLen (a : UInt64) (bd : BlockData) :
    (Outcome.add a.toNat bd.exactLen : Outcome StorageError ℕ) =
      if bd.exactLen + a.toNat < 2 ^ 64 then .ok (a + bd.len).toNat else .panic := by
  rw [Outcome.add, Nat.add_comm]
  by_cases h : bd.exactLen + a.toNat < 2 ^ 64
  · rw [if_pos h, if_pos h, UInt64.toNat_add, BlockData.len_toNat (by omega),
      Nat.mod_eq_of_lt (by omega), Nat.add_comm]
  · rw [if_neg h, if_neg h]

/-- The counters after a put, checked. -/
theorem countPutChecked_eq (h : Counted log s)
    (hc : s.containers.get? (containerKey bd.blockId.container) = some record) :
    countPutChecked record.info (s.blocks.get? (blockKey bd.blockId)) bd.exactLen =
      if bytesOf (s.blocksAfter bd) < 2 ^ 64 ∧
          (s.blocks.get? (blockKey bd.blockId) = none → record.info.blockCount + 1 < 2 ^ 64) then
        .ok (countPut record.info (s.blocks.get? (blockKey bd.blockId)) bd.len)
      else .panic := by
  have ht := h.tally _ record hc
  have hnew := bytesOf_perm (blocksIn_of_perm bd.blockId.container
    (SortedMap.perm_insert (m := s.blocks) (k := blockKey bd.blockId) (v := bd)))
  rw [if_pos rfl, bytesOf_cons] at hnew
  rw [blocksAfter, hnew]
  cases hprev : s.blocks.get? (blockKey bd.blockId) with
  | none =>
    rw [blocksIn_erase_of_none hprev, ← ht.used]
    rw [countPutChecked, add_exactLen, Outcome.add]
    by_cases hcount : record.info.blockCount + 1 < 2 ^ 64
    · rw [if_pos hcount, Outcome.ok_bind]
      by_cases hused : bd.exactLen + record.info.usedBytes.toNat < 2 ^ 64
      · rw [if_pos hused, if_pos ⟨hused, fun _ => hcount⟩, Outcome.ok_bind, UInt64.ofNat_toNat]
        rfl
      · rw [if_neg hused, if_neg fun h => hused h.1, Outcome.panic_bind]
    · rw [if_neg hcount, Outcome.panic_bind]
      exact (if_neg fun h => hcount (h.2 rfl)).symm
  | some prev =>
    have hold := blocksIn_of_perm bd.blockId.container (SortedMap.perm_cons_erase hprev)
    rw [if_pos (congrArg BlockId.container (h.blockId_eq hprev))] at hold
    obtain ⟨hlen, hused⟩ := (ht.perm hold).len_le
    have hlt := record.info.usedBytes.toNat_lt
    have hsub : record.info.usedBytes.toNat - prev.exactLen =
        (satSub record.info.usedBytes prev.len).toNat := by rw [satSub_toNat, hlen]
    have hrest : bytesOf (blocksIn (s.blocks.erase (blockKey bd.blockId)) bd.blockId.container) =
        (satSub record.info.usedBytes prev.len).toNat := by omega
    rw [countPutChecked, BlockData.lenChecked_eq, if_pos (by omega), Outcome.ok_bind, hsub,
      add_exactLen, hrest]
    by_cases hfits : bd.exactLen + (satSub record.info.usedBytes prev.len).toNat < 2 ^ 64
    · rw [if_pos hfits, if_pos ⟨hfits, fun h => by cases h⟩, Outcome.ok_bind, UInt64.ofNat_toNat]
      rfl
    · rw [if_neg hfits, if_neg fun h => hfits h.1, Outcome.panic_bind]

theorem unchecked_of_fault {req : MetaRequest} (h : req.fault ≠ none) : req.unchecked s = s :=
  if_neg h

theorem unchecked_of_error {req : MetaRequest} {e : StorageError} (h : req.op.run s = .error e) :
    req.unchecked s = s := by
  unfold MetaRequest.unchecked
  rw [h, ite_self]

theorem unchecked_of_ok {req : MetaRequest} {r : MetaReply × MetaStore} (hfault : req.fault = none)
    (h : req.op.run s = .ok r) : req.unchecked s = r.2 := by
  unfold MetaRequest.unchecked
  rw [h, if_pos hfault]

/-- A call did what it does without checks. -/
def Agrees (s : MetaStore) (req : MetaRequest) : Outcome StorageError (MetaReply × MetaStore) → Prop
  | .ok r => r.2 = req.unchecked s
  | .err _ => req.unchecked s = s
  | .panic => False

/-- A put: the two builds agree if its additions fit, and it panics otherwise. -/
theorem checked_putBlock (h : Counted log s) (fault : Option Fault) :
    (AddsFit s ⟨.putBlock bd, fault⟩ ∧
        Agrees s ⟨.putBlock bd, fault⟩ (MetaRequest.checked s ⟨.putBlock bd, fault⟩)) ∨
      ¬AddsFit s ⟨.putBlock bd, fault⟩ ∧ MetaRequest.checked s ⟨.putBlock bd, fault⟩ = .panic := by
  simp only [MetaRequest.checked, putBlockChecked]
  by_cases hfault : fault = some .containers
  · rw [if_pos hfault]
    refine .inl ⟨fun _ _ _ hne => absurd hfault hne, unchecked_of_fault ?_⟩
    rw [hfault]
    exact Option.some_ne_none _
  rw [if_neg hfault]
  cases hc : s.containers.get? (containerKey bd.blockId.container) with
  | none =>
    refine .inl ⟨fun record hr => ?_,
      unchecked_of_error (e := .containerNotFound bd.blockId.container) ?_⟩
    · cases hc.symm.trans hr
    · simp only [MetaOp.run, putBlock, hc]
      rfl
  | some record =>
    cases hw : record.info.state.isWritable with
    | false =>
      simp only [hw, Bool.not_false, if_true]
      refine .inl ⟨fun record' hr hw' => ?_, unchecked_of_error
        (e := .containerNotOpen bd.blockId.container record.info.state) ?_⟩
      · cases hc.symm.trans hr
        cases hw.symm.trans hw'
      · simp only [MetaOp.run, putBlock, hc, hw]
        rfl
    | true =>
      -- the fit of a put that gets this far, whose container is the one found
      have hfit : AddsFit s ⟨.putBlock bd, fault⟩ ↔ bd.exactLen < 2 ^ 64 ∧ (fault ≠ some .blocks →
          bytesOf (s.blocksAfter bd) < 2 ^ 64 ∧ record.bcsi + 1 < 2 ^ 64 ∧
            (s.blocks.get? (blockKey bd.blockId) = none →
              record.info.blockCount + 1 < 2 ^ 64)) := by
        refine ⟨fun hfit => hfit record hc hw hfault, fun hfit record' hr _ _ => ?_⟩
        cases hc.symm.trans hr
        exact hfit
      rw [hfit]
      simp only [hw, Bool.not_true, Bool.false_eq_true, if_false, BlockData.lenChecked_eq]
      by_cases hlen : bd.exactLen < 2 ^ 64
      case neg =>
        rw [if_neg hlen]
        exact .inr ⟨fun hfit => hlen hfit.1, rfl⟩
      rw [if_pos hlen, Outcome.ok_bind]
      by_cases hblocks : fault = some .blocks
      · rw [if_pos hblocks]
        refine .inl ⟨⟨hlen, fun hne => absurd hblocks hne⟩, unchecked_of_fault ?_⟩
        rw [hblocks]
        exact Option.some_ne_none _
      rw [if_neg hblocks, countPutChecked_eq h hc, Outcome.add]
      by_cases hadd : bytesOf (s.blocksAfter bd) < 2 ^ 64 ∧
          (s.blocks.get? (blockKey bd.blockId) = none → record.info.blockCount + 1 < 2 ^ 64)
      case neg =>
        rw [if_neg hadd]
        exact .inr ⟨fun hfit => hadd ⟨(hfit.2 hblocks).1, (hfit.2 hblocks).2.2⟩, rfl⟩
      rw [if_pos hadd, Outcome.ok_bind]
      by_cases hbcsi : record.bcsi + 1 < 2 ^ 64
      case neg =>
        rw [if_neg hbcsi]
        exact .inr ⟨fun hfit => hbcsi (hfit.2 hblocks).2.1, rfl⟩
      rw [if_pos hbcsi, Outcome.ok_bind]
      refine .inl ⟨⟨hlen, fun _ => ⟨hadd.1, hbcsi, hadd.2⟩⟩, ?_⟩
      by_cases hcommit : fault = some .commit
      · rw [if_pos hcommit]
        refine unchecked_of_fault ?_
        rw [hcommit]
        exact Option.some_ne_none _
      · rw [if_neg hcommit]
        have hnone : fault = none := by
          rcases fault with _ | _ | _ | _
          · rfl
          · exact absurd rfl hfault
          · exact absurd rfl hblocks
          · exact absurd rfl hcommit
        refine (unchecked_of_ok hnone ?_).symm
        simp only [MetaOp.run, putBlock, hc, hw]
        rfl

/-- A deletion adds up the lengths of a block that is stored, and these fit. -/
theorem checked_deleteBlock (h : Counted log s) (id : BlockId) (fault : Option Fault) :
    Agrees s ⟨.deleteBlock id, fault⟩ (MetaRequest.checked s ⟨.deleteBlock id, fault⟩) := by
  simp only [MetaRequest.checked, deleteBlockChecked]
  by_cases hblocks : fault = some .blocks
  · rw [if_pos hblocks]
    refine unchecked_of_fault ?_
    rw [hblocks]
    exact Option.some_ne_none _
  rw [if_neg hblocks]
  cases hprev : s.blocks.get? (blockKey id) with
  | none =>
    have hrun : (MetaOp.deleteBlock id).run s = .ok (.done, s) := by
      simp only [MetaOp.run, deleteBlock, hprev]
      rfl
    by_cases hfault : fault = none
    · exact (unchecked_of_ok hfault hrun).symm
    · exact (unchecked_of_fault hfault).symm
  | some prev =>
    dsimp only
    by_cases hcontainers : fault = some .containers
    · rw [if_pos hcontainers]
      refine unchecked_of_fault ?_
      rw [hcontainers]
      exact Option.some_ne_none _
    rw [if_neg hcontainers]
    obtain ⟨record, hc⟩ := h.owner _ _ (SortedMap.get?_eq_some.mp hprev)
    rw [h.blockId_eq hprev] at hc
    have hold := blocksIn_of_perm id.container (SortedMap.perm_cons_erase hprev)
    rw [if_pos (congrArg BlockId.container (h.blockId_eq hprev))] at hold
    obtain ⟨hlen, hused⟩ := ((h.tally _ record hc).perm hold).len_le
    have hlt := record.info.usedBytes.toNat_lt
    simp only [hc, BlockData.lenChecked_eq]
    rw [if_pos (by omega), Outcome.ok_bind]
    by_cases hcommit : fault = some .commit
    · rw [if_pos hcommit]
      refine unchecked_of_fault ?_
      rw [hcommit]
      exact Option.some_ne_none _
    · rw [if_neg hcommit]
      have hnone : fault = none := by
        rcases fault with _ | _ | _ | _
        · rfl
        · exact absurd rfl hcontainers
        · exact absurd rfl hblocks
        · exact absurd rfl hcommit
      have hsub : UInt64.ofNat (record.info.usedBytes.toNat - prev.exactLen) =
          satSub record.info.usedBytes prev.len := by
        rw [← hlen, ← satSub_toNat, UInt64.ofNat_toNat]
      rw [hsub]
      refine (unchecked_of_ok hnone ?_).symm
      simp only [MetaOp.run, deleteBlock, hprev, hc]
      rfl

/-- **A call agrees with the build without checks if its additions fit, and panics otherwise.** -/
theorem checked_cases (h : Counted log s) (req : MetaRequest) :
    (AddsFit s req ∧ Agrees s req (req.checked s)) ∨ ¬AddsFit s req ∧ req.checked s = .panic := by
  obtain ⟨op, fault⟩ := req
  have hother : ∀ x : Except StorageError (MetaReply × MetaStore), op.run s = x →
      Agrees s ⟨op, fault⟩ (if fault = none then .ofExcept id x else .err backendFailed) := by
    rintro (e | r) hrun <;> by_cases hfault : fault = none
    · rw [if_pos hfault]
      exact unchecked_of_error hrun
    · rw [if_neg hfault]
      exact unchecked_of_fault hfault
    · rw [if_pos hfault]
      exact (unchecked_of_ok hfault hrun).symm
    · rw [if_neg hfault]
      exact unchecked_of_fault hfault
  cases op with
  | putBlock bd => exact checked_putBlock h fault
  | deleteBlock id => exact .inl ⟨trivial, checked_deleteBlock h id fault⟩
  | createContainer id ec => exact .inl ⟨trivial, hother _ rfl⟩
  | setContainerState id state => exact .inl ⟨trivial, hother _ rfl⟩
  | deleteContainer id => exact .inl ⟨trivial, hother _ rfl⟩

/-! ### Runs -/

theorem bytesOf_le {m m' : SortedMap Bytes BlockData} (h : m'.entries.Sublist m.entries)
    (id : ContainerId) : bytesOf (blocksIn m' id) ≤ bytesOf (blocksIn m id) :=
  (((h.map Prod.snd).filter _).map BlockData.exactLen).sum_le_sum fun _ _ => Nat.zero_le _

theorem Counted.fits (h : Counted log s) : s.Fits := by
  intro id
  cases hc : s.containers.get? (containerKey id) with
  | none =>
    rw [h.blocksIn_eq_nil hc]
    exact Nat.two_pow_pos 64
  | some record =>
    rw [← (h.tally id record hc).used]
    exact record.info.usedBytes.toNat_lt

/-- Only a put can make the bytes of a container too many. -/
theorem Effect.fits {op : MetaOp} {r : MetaReply} {s' : MetaStore} (he : Effect s op r s')
    (h : Counted log s) (hput : ∀ bd, op = .putBlock bd → bytesOf (s.blocksAfter bd) < 2 ^ 64) :
    s'.Fits := by
  intro c
  have hfits := h.fits c
  cases he with
  | created | stateSet | absent => exact hfits
  | put bd record hc =>
    by_cases hcontainer : bd.blockId.container = c
    · rw [← hcontainer]
      exact hput bd rfl
    · exact (bytesOf_perm (h.blocksIn_insert hcontainer)).trans_lt hfits
  | orphan | deleted => exact (bytesOf_le List.filter_sublist c).trans_lt hfits
  | containerDeleted id => exact (bytesOf_le List.filter_sublist c).trans_lt hfits

theorem isWritable_of_run {x : MetaReply × MetaStore} (h : (MetaOp.putBlock bd).run s = .ok x) :
    ∃ record, s.containers.get? (containerKey bd.blockId.container) = some record ∧
      record.info.state.isWritable = true := by
  simp only [MetaOp.run, putBlock] at h
  split at h
  · cases h
  · next record hc =>
    split at h
    · cases h
    · next hw => exact ⟨record, hc, by simpa using hw⟩

/-- The counters stay right while the additions fit. -/
theorem Counted.unchecked (h : Counted log s) {req : MetaRequest} (hfits : AddsFit s req) :
    ∃ log', Counted log' (req.unchecked s) := by
  unfold MetaRequest.unchecked
  by_cases hfault : req.fault = none
  · rw [if_pos hfault]
    cases hrun : req.op.run s with
    | error e => exact ⟨log, h⟩
    | ok r =>
      obtain ⟨r, s'⟩ := r
      have he := effect_of_run hrun
      refine ⟨_, h.effect (he.fits h fun bd hop => ?_) he⟩
      obtain ⟨op, fault⟩ := req
      subst hop hfault
      obtain ⟨record, hc, hw⟩ := isWritable_of_run hrun
      exact ((hfits record hc hw nofun).2 nofun).1
  · rw [if_neg hfault]
    exact ⟨log, h⟩

end Sound

end MetaStore

namespace Guarded

open MetaStore

/-- **Every call of a run makes additions that fit**, in the store it finds. -/
def AllFit (reqs : List MetaRequest) : Prop :=
  ∀ before req after, reqs = before ++ req :: after → AddsFit (run before).store req

/-- The lock is not poisoned, and the bytes in use are those of the blocks on record. -/
def Exact (g : Guarded) : Prop :=
  g.poisoned = false ∧ ∀ id record, g.store.containers.get? (containerKey id) = some record →
    record.info.usedBytes.toNat = bytesOf (blocksIn g.store.blocks id)

theorem run_append (reqs : List MetaRequest) (req : MetaRequest) :
    run (reqs ++ [req]) = ((run reqs).call req).2 := List.foldl_concat ..

theorem allFit_append {reqs : List MetaRequest} {req : MetaRequest} :
    AllFit (reqs ++ [req]) ↔ AllFit reqs ∧ AddsFit (run reqs).store req := by
  constructor
  · intro h
    refine ⟨fun before req' after heq => h before req' (after ++ [req]) ?_, h reqs req [] rfl⟩
    rw [heq, List.append_assoc, List.cons_append]
  · rintro ⟨hreqs, hreq⟩ before req' after heq
    rcases List.eq_nil_or_concat after with rfl | ⟨after, last, rfl⟩
    · obtain ⟨rfl, hlast⟩ := List.append_inj' heq rfl
      cases hlast
      exact hreq
    · rw [List.concat_eq_append, ← List.cons_append, ← List.append_assoc] at heq
      exact hreqs before req' after (List.append_inj' heq rfl).1

/-- A poisoned lock stays so, and every call fails. -/
theorem call_of_poisoned {g : Guarded} (h : g.poisoned = true) (req : MetaRequest) :
    g.call req = (.error joinFailed, g) := if_pos h

/-- **A run, step by step**: as long as the additions fit, the two builds have the same store and
its counters are right; from the first that does not fit on, the lock is poisoned. -/
theorem run_cases (reqs : List MetaRequest) :
    (AllFit reqs ∧ run reqs = ⟨MetaStore.run reqs, false⟩ ∧
        ∃ log, Counted log (MetaStore.run reqs)) ∨
      ¬AllFit reqs ∧ (run reqs).poisoned = true := by
  induction reqs using List.reverseRecOn with
  | nil =>
    refine .inl ⟨fun before req after h => ?_, rfl, [], counted_empty⟩
    simp at h
  | append_singleton reqs req ih =>
    rw [run_append, allFit_append]
    rcases ih with ⟨hfits, hrun, log, hcounted⟩ | ⟨hnot, hpoisoned⟩
    · have hnext : MetaStore.run (reqs ++ [req]) = req.unchecked (MetaStore.run reqs) :=
        List.foldl_concat ..
      rw [hrun, hnext]
      dsimp only
      rcases checked_cases hcounted req with ⟨hfit, hagrees⟩ | ⟨hnot, hpanic⟩
      · refine .inl ⟨⟨hfits, hfit⟩, ?_, hcounted.unchecked hfit⟩
        unfold call
        rw [if_neg (by simp)]
        cases hres : req.checked (MetaStore.run reqs) with
        | ok r =>
          rw [hres] at hagrees
          exact congrArg (Guarded.mk · false) hagrees
        | err e =>
          rw [hres] at hagrees
          exact congrArg (Guarded.mk · false) hagrees.symm
        | panic =>
          rw [hres] at hagrees
          exact hagrees.elim
      · refine .inr ⟨fun h => hnot h.2, ?_⟩
        simp only [call, hpanic]
        rfl
    · refine .inr ⟨fun h => hnot h.1, ?_⟩
      rw [call_of_poisoned hpoisoned]
      exact hpoisoned

end Guarded

open Guarded in
/-- **The additions of the metadata store fit exactly if the lengths do.** For every run: the lock
is not poisoned and the bytes in use are those on record, exactly if every `put_block` that finds
its container open brings a block whose lengths, together with those recorded in the container, fit
a `u64` (and the two counters that go up by one do). Then the build without overflow checks has
the same store; otherwise the lock is poisoned, and every later call that takes it fails. -/
theorem additions_fit (reqs : List MetaRequest) :
    ((run reqs).Exact ↔ AllFit reqs) ∧
    (AllFit reqs → MetaStore.run reqs = (run reqs).store) ∧
    (¬AllFit reqs → ∀ req, ∃ e, ((run reqs).call req).1 = .error e) := by
  rcases run_cases reqs with ⟨hfits, hrun, log, hcounted⟩ | ⟨hnot, hpoisoned⟩
  · refine ⟨iff_of_true ?_ hfits, fun _ => by rw [hrun], fun hnot => absurd hfits hnot⟩
    rw [hrun]
    exact ⟨rfl, fun id record hc => (hcounted.tally id record hc).used⟩
  · refine ⟨iff_of_false (fun h => ?_) hnot, fun h => absurd h hnot, fun _ req => ?_⟩
    · cases hpoisoned.symm.trans h.1
    · exact ⟨_, congrArg Prod.fst (call_of_poisoned hpoisoned req)⟩

/-- A block of two chunks, each as long as a `u64` can say. -/
def longBlock : BlockData := ⟨⟨1, 1, 1⟩, [⟨"0", 0, 0xFFFFFFFFFFFFFFFF, none⟩,
  ⟨"1", 0, 0xFFFFFFFFFFFFFFFF, none⟩], []⟩

/-- The container of the block is created, and the block is put. -/
def longRun : List MetaRequest :=
  [⟨.createContainer 1 ⟨3, 2, 1048576, .rs⟩, none⟩, ⟨.putBlock longBlock, none⟩]

/-- **Two chunks are enough.** The conversion from the wire takes the block; the put poisons the
lock, and another container cannot be created; without checks the bytes in use are not those on
record. -/
theorem additions_overflow :
    BlockData.ofWire ⟨some ⟨1, 1, 1⟩, [⟨"0", 0, 0xFFFFFFFFFFFFFFFF, none⟩,
      ⟨"1", 0, 0xFFFFFFFFFFFFFFFF, none⟩], []⟩ = .ok longBlock ∧
    (Guarded.run longRun).poisoned = true ∧
    ((Guarded.run longRun).call ⟨.createContainer 2 ⟨3, 2, 1048576, .rs⟩, none⟩).1 =
      .error Guarded.joinFailed ∧
    ((MetaStore.run longRun).getContainer 1).map (·.usedBytes.toNat) = some (2 ^ 64 - 2) ∧
    MetaStore.bytesOf (MetaStore.blocksIn (MetaStore.run longRun).blocks 1) = 2 ^ 65 - 2 := by
  have hpoisoned : (Guarded.run longRun).poisoned = true := by decide +kernel
  refine ⟨by decide +kernel, hpoisoned, ?_, by decide +kernel, by decide +kernel⟩
  rw [Guarded.call_of_poisoned hpoisoned]

end OzoneRust
