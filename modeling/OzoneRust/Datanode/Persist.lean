import Mathlib.Algebra.BigOperators.Group.Finset.Piecewise
import OzoneRust.Datanode.RepairCalls
import OzoneRust.Datanode.Restore
import OzoneRust.Datanode.Service
import OzoneRust.Storage.Counters

/-!
# Repairs side by side

`reconstruct_and_persist` rebuilds the missing slots of one block group, whose length it is
told: it reads what the peers have, decodes, encodes again and stores each missing shard, the
bytes before the record. Nothing keeps two repairs of one group apart, and each may have seen
other survivors.

What they have in common is what they write. It is a plan (`OzoneRust.Plan`): for each of
finitely many blocks of a container the bytes and the record, both functions of the object
alone. Threads that only make calls of a plan (`OzoneRust.Plan.Follows`) can come between each
other in any way: what one of them has written stays (`OzoneRust.Plan.Kept`), and the counters
of the container depend only on which records are there by now (`OzoneRust.Plan.Tallied`).
That is one step (`OzoneRust.Plan.Tallied.step`), and the rest is the rely and guarantee of
`OzoneRust.RelyGuarantee`.

So once one repair has come to its end, every verified read that starts gets the shard, and the
counters are those of one repair alone: `OzoneRust.repairs_idempotent`. The bytes in use are so
only as long as they fit: a put over a record subtracts its length, and stops at zero, so
where the sum has passed `2 ^ 64` a second put of the same block does not leave it
(`OzoneRust.used_bytes_drift`).
-/

namespace OzoneRust

/-! ### Plans -/

/-- **What writers agree on**: for finitely many blocks of a container, bytes and records. -/
@[ext] structure Plan where
  /-- The container. -/
  container : ContainerId
  /-- The blocks. -/
  blocks : Finset BlockId
  /-- Their bytes. -/
  shard : BlockId → Bytes
  /-- Their records. -/
  record : BlockId → BlockData
  /-- The blocks are in the container. -/
  container_eq : ∀ b ∈ blocks, b.container = container
  /-- A record is that of its block. -/
  blockId_record : ∀ b, (record b).blockId = b

namespace Plan

/-- The calls of a thread that only writes what the plan says. -/
def Follows (p : Plan) : StoreOp → Prop
  | .getContainer _ => True
  | .getBlock _ => True
  | .readChunk _ _ => True
  | .writeChunk b name data => b ∈ p.blocks ∧ name = "0" ∧ data = p.shard b
  | .putBlock block => ∃ b ∈ p.blocks, block = p.record b
  | _ => False

/-- A number of each record, added up over the blocks of the plan. -/
def total (p : Plan) (f : BlockData → ℕ) (h : Holdings) : ℕ :=
  ∑ b ∈ p.blocks, (h.block b).elim 0 f

/-- There is room for what the plan adds: the bytes in use cover the records it replaces, and
with what its records are longer than those they still fit a `u64`. -/
def Room (p : Plan) (h₀ : Holdings) (r₀ : StoredContainer) : Prop :=
  p.total (·.len.toNat) h₀ ≤ r₀.info.usedBytes.toNat ∧
    r₀.info.usedBytes.toNat + ∑ b ∈ p.blocks,
      ((p.record b).len.toNat - (h₀.block b).elim 0 (·.len.toNat)) < 2 ^ 64

/-- **Some of the plan is done**: each block has its old record or its new one, and the
counters have changed by the difference. -/
structure Tallied (p : Plan) (h₀ : Holdings) (r₀ : StoredContainer) (h : Holdings) : Prop where
  /-- The records. -/
  block : ∀ b ∈ p.blocks, h.block b = h₀.block b ∨ h.block b = some (p.record b)
  /-- The container. -/
  record : ∃ r, h.record p.container = some r ∧ r.info.state = .open ∧
    r.info.blockCount + p.total (fun _ => 1) h₀ =
      r₀.info.blockCount + p.total (fun _ => 1) h ∧
    (p.Room h₀ r₀ → r.info.usedBytes.toNat + p.total (·.len.toNat) h₀ =
      r₀.info.usedBytes.toNat + p.total (·.len.toNat) h)

/-- What is there of the plan stays. -/
def Kept (p : Plan) (t t' : Target) : Prop :=
  ∀ b ∈ p.blocks, (t.chunks b "0" = some (p.shard b) → t'.chunks b "0" = some (p.shard b)) ∧
    (t.store.getBlock b = some (p.record b) → t'.store.getBlock b = some (p.record b))

section Step

variable {p : Plan} {h₀ h : Holdings} {r₀ : StoredContainer} {t t' : Target} {op : StoreOp}
  {may : StoreOp → Prop} {r : Except StorageError op.Val} {f : BlockData → ℕ} {b : BlockId}

theorem Tallied.refl (hrecord : h₀.record p.container = some r₀) (hopen : r₀.info.state = .open) :
    p.Tallied h₀ r₀ h₀ :=
  ⟨fun _ _ => .inl rfl, r₀, hrecord, hopen, rfl, fun _ => rfl⟩

theorem Kept.refl (p : Plan) (t : Target) : p.Kept t t := fun _ _ => ⟨id, id⟩

/-- One record is put. -/
theorem total_put (hb : b ∈ p.blocks) {h' : Holdings} {bd : BlockData}
    (hblock : h'.block = Function.update h.block b (some bd)) :
    p.total f h' + (h.block b).elim 0 f = p.total f h + f bd := by
  have hupdate : ∀ x, (h'.block x).elim 0 f =
      Function.update (fun x => (h.block x).elim 0 f) b (f bd) x := by
    intro x
    rw [hblock]
    by_cases hx : x = b
    · rw [hx, Function.update_self, Function.update_self]
      rfl
    · rw [Function.update_of_ne hx, Function.update_of_ne hx]
  unfold total
  rw [Finset.sum_congr rfl fun x _ => hupdate x, Finset.sum_update_of_mem hb,
    Finset.sdiff_singleton_eq_erase, ← Finset.add_sum_erase p.blocks _ hb]
  omega

theorem elim_le_total (hb : b ∈ p.blocks) : (h.block b).elim 0 f ≤ p.total f h :=
  Finset.single_le_sum (f := fun b => (h.block b).elim 0 f) (fun _ _ => Nat.zero_le _) hb

/-- The records there are take no more than the old ones, and what the new ones are longer. -/
theorem total_le (hblock : ∀ b ∈ p.blocks, h.block b = h₀.block b ∨ h.block b = some (p.record b)) :
    p.total f h ≤
      p.total f h₀ + ∑ b ∈ p.blocks, (f (p.record b) - (h₀.block b).elim 0 f) := by
  unfold total
  rw [← Finset.sum_add_distrib]
  refine Finset.sum_le_sum fun b hb => ?_
  rcases hblock b hb with heq | heq
  · rw [heq]
    exact Nat.le_add_right _ _
  · rw [heq]
    exact le_add_tsub

open MetaStore in
theorem blockCount_countPut (info : ContainerInfo) (prev : Option BlockData) (len : UInt64) :
    (countPut info prev len).blockCount + prev.elim 0 (fun _ => 1) = info.blockCount + 1 := by
  cases prev <;> rfl

open MetaStore in
theorem usedBytes_countPut {info : ContainerInfo} {prev : Option BlockData} {len : UInt64}
    (hle : prev.elim 0 (·.len.toNat) ≤ info.usedBytes.toNat)
    (hlt : info.usedBytes.toNat - prev.elim 0 (·.len.toNat) + len.toNat < 2 ^ 64) :
    (countPut info prev len).usedBytes.toNat + prev.elim 0 (·.len.toNat) =
      info.usedBytes.toNat + len.toNat := by
  cases prev with
  | none =>
    simp only [countPut, Option.elim_none, Nat.sub_zero] at hlt ⊢
    rw [UInt64.toNat_add, Nat.mod_eq_of_lt hlt, Nat.add_zero]
  | some prev =>
    simp only [countPut, Option.elim_some] at hle hlt ⊢
    rw [UInt64.toNat_add, satSub_toNat, Nat.mod_eq_of_lt hlt]
    omega

/-- **One put of the plan.** -/
theorem Tallied.put (hI : p.Tallied h₀ r₀ h) (hb : b ∈ p.blocks) :
    p.Tallied h₀ r₀ ((StoreOp.putBlock (p.record b)).act h) ∧
      ((StoreOp.putBlock (p.record b)).act h).block =
        Function.update h.block b (some (p.record b)) ∧
      ((StoreOp.putBlock (p.record b)).act h).chunk = h.chunk := by
  obtain ⟨hblock, record, hrecord, hopen, hcount, hused⟩ := hI
  have hrecordAt : h.record (p.record b).blockId.container = some record := by
    rw [p.blockId_record, p.container_eq b hb]
    exact hrecord
  have hact := StoreOp.act_putBlock hrecordAt hopen
  rw [p.blockId_record, p.container_eq b hb] at hact
  generalize (StoreOp.putBlock (p.record b)).act h = h' at hact ⊢
  have hblock' : h'.block = Function.update h.block b (some (p.record b)) := by rw [hact]; rfl
  have hrecord' := (congrArg (Holdings.record · p.container) hact).trans (Function.update_self ..)
  have heach : ∀ b' ∈ p.blocks, h'.block b' = h₀.block b' ∨ h'.block b' = some (p.record b') := by
    intro b' hb'
    rw [hblock']
    by_cases heq : b' = b
    · rw [heq]
      exact .inr (Function.update_self ..)
    · rw [Function.update_of_ne heq]
      exact hblock b' hb'
  refine ⟨⟨heach, _, hrecord', (countPut_state ..).trans hopen, ?_, fun hroom => ?_⟩, hblock',
    by rw [hact]; rfl⟩
  · have hput := total_put (f := fun _ => 1) hb hblock'
    have hcountPut := blockCount_countPut record.info (h.block b) (p.record b).len
    dsimp only at hput ⊢
    omega
  · -- the bytes in use cover every record that is there, so nothing saturates
    have hput := total_put (f := (·.len.toNat)) hb hblock'
    have hle := elim_le_total (f := (·.len.toNat)) (h := h) hb
    have hnew := total_le (f := (·.len.toNat)) heach
    have hsum := hused hroom
    obtain ⟨hcover, hfits⟩ := hroom
    dsimp only at hput hle hnew hsum hcover hfits ⊢
    have hcountPut := @usedBytes_countPut record.info (h.block b) (p.record b).len (by omega)
      (by omega)
    omega

/-- **One call of the plan**, wherever it comes: the counters stay right, and what was there of
the plan is still there. -/
theorem Tallied.step (hI : p.Tallied h₀ r₀ t.holdings) (hop : p.Follows op)
    (ha : StoreOp.Answers may t op r t') : p.Tallied h₀ r₀ t'.holdings ∧ p.Kept t t' := by
  rcases StoreOp.Answers.holdings ha with hact | ⟨-, -, rfl | ⟨id, rfl, -⟩⟩
  · have hkept : ∀ {h' : Holdings}, t'.holdings = h' →
        (∀ b ∈ p.blocks, t.holdings.chunk b "0" = some (p.shard b) →
          h'.chunk b "0" = some (p.shard b)) →
        (∀ b ∈ p.blocks, t.holdings.block b = some (p.record b) →
          h'.block b = some (p.record b)) → p.Kept t t' := by
      rintro _ rfl hchunk hblock b hb
      exact ⟨hchunk b hb, hblock b hb⟩
    cases op with
    | getContainer c => exact ⟨hact ▸ hI, hkept hact (fun _ _ => id) fun _ _ => id⟩
    | getBlock b => exact ⟨hact ▸ hI, hkept hact (fun _ _ => id) fun _ _ => id⟩
    | readChunk b name => exact ⟨hact ▸ hI, hkept hact (fun _ _ => id) fun _ _ => id⟩
    | writeChunk b name data =>
      obtain ⟨hb, rfl, rfl⟩ := hop
      refine ⟨hact ▸ ⟨hI.block, hI.record⟩, hkept hact (fun b' _ hb' => ?_) fun _ _ => id⟩
      by_cases heq : b' = b
      · rw [heq]
        simp [StoreOp.act, Holdings.setChunk]
      · exact (congrFun (Function.update_of_ne heq _ _) _).trans hb'
    | putBlock block =>
      obtain ⟨b, hb, rfl⟩ := hop
      obtain ⟨htallied, hblock, hchunk⟩ := hI.put hb
      refine ⟨hact ▸ htallied, hkept hact (fun b' _ hb' => by rw [hchunk]; exact hb') ?_⟩
      intro b' _ hb'
      rw [hblock]
      by_cases heq : b' = b
      · rw [heq, Function.update_self]
      · rwa [Function.update_of_ne heq]
    | _ => exact hop.elim
  · exact ⟨hI, .refl p _⟩
  · exact hop.elim

end Step

/-! ### Threads that follow a plan -/

/-- The block has its bytes and its record. -/
def Has (p : Plan) (b : BlockId) (t : Target) : Prop := t.Stores b (p.shard b, p.record b)

/-- The plan is done. -/
def Done (p : Plan) (t : Target) : Prop := ∀ b ∈ p.blocks, p.Has b t

/-- Every thread follows the plan. -/
def rely {T : Type} (p : Plan) (may : T → StoreOp → Prop) (h₀ : Holdings) (r₀ : StoredContainer) :
    RelyGuarantee storeCalls T Target where
  sys := storeSystem may
  Inv w := p.Tallied h₀ r₀ w.holdings
  Guar _ := p.Kept

section Threads

open RelyGuarantee

variable {p : Plan} {h₀ : Holdings} {r₀ : StoredContainer} {T : Type} {may : T → StoreOp → Prop}
  {u : T} {ε α : Type} {Q : Outcome ε α → Target → Prop} {w : Target} {b : BlockId}

theorem Kept.has {w' : Target} (hkept : p.Kept w w') (hb : b ∈ p.blocks) (h : p.Has b w) :
    p.Has b w' :=
  ⟨(hkept b hb).1 h.1, (hkept b hb).2 h.2⟩

theorem Kept.done {w' : Target} (hkept : p.Kept w w') (h : p.Done w) : p.Done w' :=
  fun b hb => hkept.has hb (h b hb)

theorem stable_of_kept {F : Target → Prop} (hF : ∀ w w', p.Kept w w' → F w → F w') :
    (p.rely may h₀ r₀).Stable u F :=
  fun w w' ⟨_, _, _, _, hG⟩ => hF w w' hG

/-- **One call of a thread.** It fails, or does its work in a world where the facts `F`
hold, which the threads keep. -/
theorem safe_call {f : StorageError → ε} {op : StoreOp} {k : op.Val → Prog storeCalls ε α}
    (F : Target → Prop) (hF : ∀ w w', p.Kept w w' → F w → F w') (hw : F w) (hop : p.Follows op)
    (herr : ∀ e w, may u op → Q (.err (f e)) w)
    (hok : ∀ w, F w → p.Tallied h₀ r₀ w.holdings → F (op.exec w).2 →
      ∃ a, (op.exec w).1 = .ok a ∧ (p.rely may h₀ r₀).Safe u Q (k a) (op.exec w).2) :
    (p.rely may h₀ r₀).Safe u Q (op.call f >>= k) w := by
  refine Safe.call F (stable_of_kept hF) hw fun w₁ hw₁ hI r w₂ ha => ?_
  obtain ⟨hI', hkept⟩ := hI.step hop ha
  refine ⟨hI', hkept, ?_⟩
  rcases ha with ⟨rfl, rfl⟩ | ⟨hmay, ⟨e, rfl⟩, -⟩
  · obtain ⟨a, ha, hsafe⟩ := hok w₁ hw₁ hI (hF w₁ _ hkept hw₁)
    rw [ha]
    exact hsafe
  · exact herr e w₂ hmay

/-- A thread that follows the plan keeps it. -/
theorem safe_of_makes {prog : Prog storeCalls ε α} (h : prog.Makes p.Follows) :
    (p.rely may h₀ r₀).Safe u (fun _ _ => True) prog w :=
  Safe.of_makes (F := fun _ => True) (fun _ _ _ _ => trivial)
    (fun _ _ _ _ hop _ hI ha => ⟨(hI.step hop ha).1, (hI.step hop ha).2, trivial⟩) h trivial

end Threads

end Plan

/-! ### The repair of one group -/

/-- `RepairInput`: what a repair of one block group is asked for. -/
structure RepairInput extends ReconstructInput where
  /-- The group. -/
  localId : UInt64
  /-- Its length. -/
  blockGroupLen : UInt64

/-- The block of a slot. -/
def RepairInput.blockOf (input : RepairInput) (slot : UInt8) : BlockId :=
  ⟨input.container, input.localId, slot⟩

namespace Repair

/-- One peer is asked for its shard, unless its slot is no slot or one to be rebuilt. -/
def gatherFrom (net : String → Peer) (input : RepairInput) (bufs : List (Option Bytes))
    (src : UInt8 × String) : List (Option Bytes) :=
  if input.skips src.1 then bufs
  else
    match (net src.2).readChunk (input.blockOf src.1) with
    | none => bufs
    | some b => bufs.set (src.1.toNat - 1) (some b)

/-- The shards that were read. -/
def gather (net : String → Peer) (input : RepairInput) : List (Option Bytes) :=
  input.sources.foldl (gatherFrom net input) (List.replicate input.total none)

/-- The container has to be there and to accept writes. -/
def requireWritable (input : RepairInput) : Option ContainerInfo → RepairP Unit
  | some ci =>
    if ci.state.isWritable then pure ()
    else .done (.err (.containerNotWritable input.container ci.state))
  | none => .done (.err (.containerAbsent input.container))

/-- One missing slot: its bytes, then its block record. -/
def persistShard (input : RepairInput) (encoded : EncodedShards) (repaired : List UInt8)
    (slot : UInt8) : RepairP (List UInt8) :=
  if slot = 0 ∨ input.total < slot.toNat then pure repaired
  else do
    let shard ← Prog.lift ((encodedSlot input.ec.data.toNat encoded slot).mapErr .ec)
    let cd ← Prog.lift (.ofExcept .checksum (Checksum.compute shard input.ec.ecChunkSize .crc32c))
    (StoreOp.writeChunk (input.blockOf slot) "0" shard).call .storage
    let bd := { BlockData.new (input.blockOf slot) with chunks := [rebuiltChunk shard cd] }
    let _ ← (StoreOp.putBlock (bd.setBlockGroupLen input.blockGroupLen)).call .storage
    return repaired ++ [slot]

/-- What follows the check of the container. -/
def persistFrom (isal : IsaL) (input : RepairInput) (views : List (Option Bytes)) :
    RepairP (List UInt8) :=
  if views.countP Option.isSome < input.ec.data.toNat then
    .done (.err (.notEnoughShards (views.countP Option.isSome) input.ec.data.toNat))
  else do
    let object ← Prog.lift
      ((decodeObject isal input.ec.profile input.blockGroupLen.toNat views).mapErr .ec)
    let encoded ← Prog.lift ((encodeObject isal input.ec.profile object).mapErr .ec)
    input.missingSlots.foldlM (persistShard input encoded) []

/-- `reconstruct_and_persist`: the slots repaired. -/
def reconstructAndPersist (isal : IsaL) (net : String → Peer) (input : RepairInput) :
    RepairP (List UInt8) := do
  requireWritable input (← (StoreOp.getContainer input.container).call .storage)
  persistFrom isal input (gather net input)

/-! ### What a repair writes -/

/-- **The survivors a repair sees**: the shards of an object, or none, or bytes of another
length, and enough of the first. -/
structure Sees (isal : IsaL) (net : String → Peer) (input : RepairInput) (X : Buffer) : Prop where
  /-- The group has the length of the object. -/
  length_eq : input.blockGroupLen.toNat = X.bytes.length
  /-- What was read. -/
  view : ∃ encoded, encodeObject isal input.ec.profile X.bytes = .ok encoded ∧
    encoded.IsView (gather net input) ∧ input.ec.data.toNat ≤ encoded.carried (gather net input)

/-- The missing slots the group has. -/
def missing (input : RepairInput) : List UInt8 :=
  input.missingSlots.filter fun slot => input.InRange slot

/-- **What every repair of a group writes.** -/
def planOf (input : RepairInput) (X : Bytes) : Plan where
  container := input.container
  blocks := ((missing input).map input.blockOf).toFinset
  shard b := Layout.shard input.ec.profile X (b.replicaIndex.toNat - 1)
  record b := rebuiltBlock input.toReconstructInput b input.blockGroupLen
    (Layout.shard input.ec.profile X (b.replicaIndex.toNat - 1))
  container_eq b hb := by
    obtain ⟨slot, -, rfl⟩ := List.mem_map.mp (List.mem_toFinset.mp hb)
    rfl
  blockId_record _ := rfl

section Writes

variable {isal : IsaL} {net : String → Peer} {input : RepairInput} {X : Buffer} {slot : UInt8}

theorem mem_missing : slot ∈ missing input ↔ slot ∈ input.missingSlots ∧ input.InRange slot := by
  simp [missing]

theorem blockOf_mem (hslot : slot ∈ missing input) :
    input.blockOf slot ∈ (planOf input X.bytes).blocks :=
  List.mem_toFinset.mpr (List.mem_map_of_mem hslot)

/-- What is done for one slot. -/
theorem persistShard_eq (hrange : input.InRange slot) (repaired : List UInt8) :
    persistShard input (Layout.encode input.ec.profile X.bytes) repaired slot = (do
      (StoreOp.writeChunk (input.blockOf slot) "0"
        ((planOf input X.bytes).shard (input.blockOf slot))).call .storage
      let _ ← (StoreOp.putBlock ((planOf input X.bytes).record (input.blockOf slot))).call .storage
      return repaired ++ [slot]) := by
  have hshard : encodedSlot input.ec.data.toNat (Layout.encode input.ec.profile X.bytes) slot =
      .ok ((planOf input X.bytes).shard (input.blockOf slot)) :=
    encodedSlot_encode (P := input.ec.profile) hrange.1 hrange.2
  unfold persistShard
  rw [if_neg (by rw [not_or, not_lt]; exact hrange), hshard]
  rfl

theorem persistShard_of_not (hrange : ¬input.InRange slot) (encoded : EncodedShards)
    (repaired : List UInt8) : persistShard input encoded repaired slot = pure repaired := by
  unfold persistShard
  refine if_pos ?_
  by_contra hnot
  rw [not_or, not_lt] at hnot
  exact hrange hnot

/-- **Every repair that sees enough writes the shards of the object**, whatever it saw. -/
theorem persistFrom_eq (hI : isal.Correct) (hP : input.ec.profile.Valid)
    (hsees : Sees isal net input X) : persistFrom isal input (gather net input) =
      input.missingSlots.foldlM
        (persistShard input (Layout.encode input.ec.profile X.bytes)) [] := by
  obtain ⟨hlen, encoded, hencoded, hview, hcarried⟩ := hsees
  rw [encodeObject_eq hI hP X.length_le, Outcome.ok.injEq] at hencoded
  subst hencoded
  have hdecode : decodeObject isal input.ec.profile input.blockGroupLen.toNat (gather net input) =
      .ok X.bytes := by
    rw [hlen, decodeObject_eq hI hP X.length_le (.of_encode hview), if_pos]
    rwa [← Layout.carried_encode]
  unfold persistFrom
  rw [if_neg (not_lt.mpr (hcarried.trans hview.carried_le)), hdecode, Outcome.mapErr_ok]
  refine (Prog.lift_ok_bind _ _).trans ?_
  rw [encodeObject_eq hI hP X.length_le, Outcome.mapErr_ok]
  exact Prog.lift_ok_bind _ _

end Writes

/-! ### A repair among others -/

section Safe

open RelyGuarantee

variable {isal : IsaL} {net : String → Peer} {input : RepairInput} {X : Buffer} {h₀ : Holdings}
  {r₀ : StoredContainer} {T : Type} {may : T → StoreOp → Prop} {u : T} {w : Target}

/-- How a repair ends: with everything stored, or because a call failed. -/
def Ended (input : RepairInput) (X : Buffer) (may : StoreOp → Prop)
    (o : Outcome RepairError (List UInt8)) (w : Target) : Prop :=
  o = .ok (missing input) ∧ (planOf input X.bytes).Done w ∨
    (∃ op, may op) ∧ ∃ e, o = .err (.storage e)

/-- What holds in the loop over the missing slots: those behind it are stored. -/
structure Reached (input : RepairInput) (X : Buffer) (l repaired : List UInt8) (w : Target) :
    Prop where
  /-- The slots behind and those to come are all of them. -/
  slots : repaired ++ l.filter (fun slot => input.InRange slot) = missing input
  /-- The slots behind are stored. -/
  has : ∀ slot ∈ repaired, (planOf input X.bytes).Has (input.blockOf slot) w

theorem Reached.mem_missing {l repaired : List UInt8} (h : Reached input X l repaired w)
    {slot : UInt8} (hslot : slot ∈ repaired) : slot ∈ missing input :=
  h.slots ▸ List.mem_append_left _ hslot

theorem Reached.kept {l repaired : List UInt8} {w' : Target} (h : Reached input X l repaired w)
    (hkept : (planOf input X.bytes).Kept w w') : Reached input X l repaired w' :=
  ⟨h.slots, fun slot hslot => hkept.has (blockOf_mem (h.mem_missing hslot)) (h.has slot hslot)⟩

theorem Reached.done {repaired : List UInt8} (h : Reached input X [] repaired w) :
    repaired = missing input ∧ (planOf input X.bytes).Done w := by
  have hall : repaired = missing input := by simpa using h.slots
  refine ⟨hall, fun b hb => ?_⟩
  obtain ⟨slot, hslot, rfl⟩ := List.mem_map.mp (List.mem_toFinset.mp hb)
  exact h.has slot (hall ▸ hslot)

/-- One slot, whatever the others do. -/
theorem safe_persistShard {slot : UInt8} {l repaired : List UInt8}
    (h : Reached input X (slot :: l) repaired w) :
    ((planOf input X.bytes).rely may h₀ r₀).Safe u
      (through (Reached input X l) (Ended input X (may u)))
      (persistShard input (Layout.encode input.ec.profile X.bytes) repaired slot) w := by
  by_cases hrange : input.InRange slot
  case neg =>
    rw [persistShard_of_not hrange]
    refine ⟨?_, h.has⟩
    have hslots := h.slots
    rwa [List.filter_cons_of_neg (by simpa using hrange)] at hslots
  have hslots : repaired ++ slot :: l.filter (fun slot => input.InRange slot) = missing input := by
    have hslots := h.slots
    rwa [List.filter_cons_of_pos (by simpa using hrange)] at hslots
  have hb : input.blockOf slot ∈ (planOf input X.bytes).blocks :=
    blockOf_mem (hslots ▸ by simp)
  rw [persistShard_eq hrange]
  -- the bytes
  refine Plan.safe_call (Reached input X (slot :: l) repaired) (fun _ _ hk hr => hr.kept hk) h
    ⟨hb, rfl, rfl⟩ (fun e _ hmay => .inr ⟨⟨_, hmay⟩, e, rfl⟩) fun w₁ _ _ hr₁ => ⟨(), rfl, ?_⟩
  have hbytes : ((StoreOp.writeChunk (input.blockOf slot) "0"
      ((planOf input X.bytes).shard (input.blockOf slot))).exec w₁).2.chunks
        (input.blockOf slot) "0" = some ((planOf input X.bytes).shard (input.blockOf slot)) := by
    simp [StoreOp.exec, Target.setChunk]
  -- the record; the bytes are still there when it comes
  refine Plan.safe_call (fun w => Reached input X (slot :: l) repaired w ∧
      w.chunks (input.blockOf slot) "0" = some ((planOf input X.bytes).shard (input.blockOf slot)))
    (fun _ _ hk hr => ⟨hr.1.kept hk, (hk _ hb).1 hr.2⟩) ⟨hr₁, hbytes⟩ ⟨_, hb, rfl⟩
    (fun e _ hmay => .inr ⟨⟨_, hmay⟩, e, rfl⟩) fun w₂ _ hI hr₂ => ?_
  obtain ⟨hr₂, hbytes₂⟩ := hr₂
  obtain ⟨-, hblock, -⟩ := hI.put hb
  obtain ⟨-, record, hrecord, hopen, -⟩ := hI
  obtain ⟨n, store, hput, -⟩ := putBlock_of_isOpen
    ((planOf input X.bytes).record (input.blockOf slot)) (t := w₂) ⟨record, hrecord, hopen⟩
  refine ⟨n, ?_, ?_, ?_⟩
  · rw [StoreOp.exec, hput]
    rfl
  · rw [List.append_assoc]
    exact hslots
  · intro s hs
    rcases List.mem_append.mp hs with hs | hs
    · exact hr₂.has s hs
    · rw [List.mem_singleton.mp hs]
      refine ⟨hbytes₂, ?_⟩
      have hget := congrArg (Holdings.block · (input.blockOf slot)) (StoreOp.holdings_exec w₂
        (.putBlock ((planOf input X.bytes).record (input.blockOf slot))))
      exact hget.trans ((congrFun hblock _).trans (Function.update_self ..))

/-- **A repair, whatever the others do.** -/
theorem safe_reconstructAndPersist (hisal : isal.Correct) (hP : input.ec.profile.Valid)
    (hsees : Sees isal net input X) :
    ((planOf input X.bytes).rely may h₀ r₀).Safe u (Ended input X (may u))
      (reconstructAndPersist isal net input) w := by
  unfold reconstructAndPersist
  refine Plan.safe_call (fun _ => True) (fun _ _ _ => id) trivial trivial
    (fun e _ hmay => .inr ⟨⟨_, hmay⟩, e, rfl⟩) fun w₁ _ hI _ => ?_
  obtain ⟨-, record, hrecord, hopen, -⟩ := hI
  have hget : w₁.store.getContainer input.container = some record.info :=
    congrArg (Option.map StoredContainer.info) hrecord
  refine ⟨some record.info, congrArg Except.ok hget, ?_⟩
  have hwritable : requireWritable input (some record.info) = pure () :=
    if_pos (by rw [hopen]; rfl)
  rw [hwritable, persistFrom_eq hisal hP hsees]
  refine Safe.foldlM (Reached input X) (fun _ _ _ _ => safe_persistShard)
    (fun repaired w hr => ?_) ⟨rfl, by simp⟩
  obtain ⟨rfl, hdone⟩ := hr.done
  exact .inl ⟨rfl, hdone⟩

/-! ### Reads of what was repaired -/

/-- A read of a chunk that is to match the digests on record. -/
def verifiedRead (b : BlockId) (chunk : ChunkInfo) : Service.ReadChunkRequest :=
  ⟨some b.toWire, some chunk.toWire, true⟩

theorem readChunk_verifiedRead {b : BlockId} {chunk : ChunkInfo} (hname : chunk.chunkName = "0")
    (hdigests : chunk.checksumData = none) :
    Service.readChunk (verifiedRead b chunk) = (do
      let data ← (StoreOp.readChunk b "0").call .storage
      let bd ← (StoreOp.getBlock b).call .storage
      Service.accepted (Service.verified data ((bd.bind fun bd =>
        bd.chunks.find? fun c => c.chunkName = "0").bind (·.checksumData)))
      return Service.flagLast (Service.frame Service.readFrameBytes data)) := by
  have hblock : Service.acceptBlock "block_id" (verifiedRead b chunk).blockId = .ok b :=
    congrArg Service.converted (BlockId.ofWire_toWire b)
  have hchunk : Service.acceptChunk "chunk_info" (verifiedRead b chunk).chunkInfo = .ok chunk :=
    congrArg Service.converted (ChunkInfo.ofWire_toWire chunk)
  unfold Service.readChunk
  rw [hblock, hchunk]
  refine (Prog.lift_ok_bind b _).trans ((Prog.lift_ok_bind chunk _).trans ?_)
  unfold Service.expectedDigests
  rw [hname, hdigests]
  exact congrArg _ (funext fun data => Prog.bind_assoc _ _ _)

theorem follows_readChunk {p : Plan} {b : BlockId} {chunk : ChunkInfo}
    (hname : chunk.chunkName = "0") (hdigests : chunk.checksumData = none) :
    (Service.readChunk (verifiedRead b chunk)).Makes p.Follows := by
  rw [readChunk_verifiedRead hname hdigests]
  exact makes_call_bind trivial fun data => makes_call_bind trivial fun bd =>
    Prog.Makes.bind trivial fun _ => trivial

/-- **A verified read gets the shard**, if the repair is done when it starts. -/
theorem safe_readChunk {slot : UInt8} {chunk : ChunkInfo} (hslot : slot ∈ missing input)
    (hname : chunk.chunkName = "0") (hdigests : chunk.checksumData = none)
    (hnever : ∀ op, ¬may u op) (hdone : (planOf input X.bytes).Done w) :
    ((planOf input X.bytes).rely may h₀ r₀).Safe u
      (fun o _ => ∃ frames, o = .ok frames ∧
        Service.collect [] frames = Layout.shard input.ec.profile X.bytes (slot.toNat - 1))
      (Service.readChunk (verifiedRead (input.blockOf slot) chunk)) w := by
  have hb := blockOf_mem (X := X) hslot
  rw [readChunk_verifiedRead hname hdigests]
  -- the bytes
  refine Plan.safe_call (planOf input X.bytes).Done (fun _ _ hk => hk.done) hdone trivial
    (fun _ _ hmay => absurd hmay (hnever _)) fun w₁ hdone₁ _ _ =>
      ⟨Layout.shard input.ec.profile X.bytes (slot.toNat - 1), ?_, ?_⟩
  · have hchunk := (hdone₁ _ hb).1
    rw [StoreOp.exec, hchunk]
    rfl
  · -- the digests on record
    refine Plan.safe_call (planOf input X.bytes).Done (fun _ _ hk => hk.done) ?_ trivial
      (fun _ _ hmay => absurd hmay (hnever _)) fun w₂ hdone₂ _ _ =>
        ⟨_, congrArg Except.ok (hdone₂ _ hb).2, ?_⟩
    · have hchunk := (hdone₁ _ hb).1
      rw [StoreOp.exec, hchunk]
      exact hdone₁
    · have hverified : Service.verified (Layout.shard input.ec.profile X.bytes (slot.toNat - 1))
          (some (rebuiltDigests input.toReconstructInput
            (Layout.shard input.ec.profile X.bytes (slot.toNat - 1)))) = .ok () := by
        rw [Service.verified, Checksum.verify_compute (compute_rebuiltDigests _ _)]
      change RelyGuarantee.Safe _ _ _ (Service.accepted (Service.verified _
        (some (rebuiltDigests input.toReconstructInput
          (Layout.shard input.ec.profile X.bytes (slot.toNat - 1))))) >>= fun _ => pure _) _
      rw [hverified]
      refine ⟨_, rfl, ?_⟩
      rw [Service.collect_flagLast, List.nil_append, Service.flatten_frame (by decide)]

end Safe

/-! ### Repairs and reads side by side -/

/-- The repairs, and verified reads. -/
def sideBySide {ι κ : Type} (isal : IsaL) (net : ι → String → Peer) (inputs : ι → RepairInput)
    (reads : κ → Service.ReadChunkRequest) :
    ι ⊕ κ → Prog storeCalls (RepairError ⊕ Status) (List UInt8 ⊕ List (Bytes × Bool))
  | .inl i => (reconstructAndPersist isal (net i) (inputs i)).mapOutcome .left
  | .inr j => (Service.readChunk (reads j)).mapOutcome .right

/-- The stores under them: calls of the repairs may fail. -/
def sharedStores {ι κ : Type} (may : ι → StoreOp → Prop) : System storeCalls (ι ⊕ κ) Target :=
  storeSystem (Sum.elim may fun _ _ => False)

/-- Two repairs of one group: the same configuration and the same missing slots. They may ask
other peers. -/
structure Alike (input' input : RepairInput) : Prop where
  /-- The container. -/
  container : input'.container = input.container
  /-- Its configuration. -/
  ec : input'.ec = input.ec
  /-- The group. -/
  localId : input'.localId = input.localId
  /-- Its length. -/
  blockGroupLen : input'.blockGroupLen = input.blockGroupLen
  /-- The slots to rebuild. -/
  missingSlots : ∀ slot, slot ∈ input'.missingSlots ↔ slot ∈ input.missingSlots

theorem Alike.refl (input : RepairInput) : Alike input input := ⟨rfl, rfl, rfl, rfl, fun _ => .rfl⟩

theorem Alike.planOf_eq {input' input : RepairInput} (h : Alike input' input) (X : Bytes) :
    planOf input' X = planOf input X := by
  obtain ⟨⟨c', ec', slots', sources'⟩, loc', len'⟩ := input'
  obtain ⟨⟨c, ec, slots, sources⟩, loc, len⟩ := input
  obtain ⟨hc, hec, hloc, hlen, hslots⟩ := h
  dsimp only at hc hec hloc hlen hslots
  subst hc hec hloc hlen
  have hblocks : (planOf ⟨⟨c', ec', slots', sources'⟩, loc', len'⟩ X).blocks =
      (planOf ⟨⟨c', ec', slots, sources⟩, loc', len'⟩ X).blocks := by
    ext b
    simp only [planOf, List.mem_toFinset, List.mem_map, mem_missing, hslots]
    rfl
  exact Plan.ext rfl hblocks rfl rfl

end Repair

namespace Plan

variable {p : Plan} {h₀ h h' : Holdings} {r₀ r r' : StoredContainer}

theorem total_of_done {f : BlockData → ℕ} {t : Target} (hdone : p.Done t) :
    p.total f t.holdings = ∑ b ∈ p.blocks, f (p.record b) :=
  Finset.sum_congr rfl fun b hb => by rw [show t.holdings.block b = _ from (hdone b hb).2]; rfl

/-- Once the plan is done, the counters do not depend on how. -/
theorem Tallied.counters {t t' : Target} (hI : p.Tallied h₀ r₀ t.holdings)
    (hI' : p.Tallied h₀ r₀ t'.holdings) (hdone : p.Done t) (hdone' : p.Done t') :
    ∃ info info', t.store.getContainer p.container = some info ∧
      t'.store.getContainer p.container = some info' ∧ info.blockCount = info'.blockCount ∧
      (p.Room h₀ r₀ → info.usedBytes = info'.usedBytes) := by
  obtain ⟨-, r, hrecord, -, hcount, hused⟩ := hI
  obtain ⟨-, r', hrecord', -, hcount', hused'⟩ := hI'
  rw [total_of_done hdone] at hcount hused
  rw [total_of_done hdone'] at hcount' hused'
  refine ⟨r.info, r'.info, congrArg (Option.map StoredContainer.info) hrecord,
    congrArg (Option.map StoredContainer.info) hrecord', by omega, fun hroom => ?_⟩
  have hsum := hused hroom
  have hsum' := hused' hroom
  exact UInt64.toNat_inj.mp (by omega)

end Plan

open Repair RelyGuarantee

section Concurrent

variable {ι κ : Type} {isal : IsaL} {X : Buffer}
  {input : RepairInput} {net : ι → String → Peer} {inputs : ι → RepairInput}
  {may : ι → StoreOp → Prop} {slots : κ → UInt8} {chunks : κ → ChunkInfo} {w₀ : Target}

/-- What the threads rely on. -/
def sharedRely (may : ι → StoreOp → Prop) (plan : Plan) (h₀ : Holdings) (r₀ : StoredContainer) :
    RelyGuarantee storeCalls (ι ⊕ κ) Target :=
  plan.rely (Sum.elim may fun _ _ => False) h₀ r₀

/-- What the threads come to: the repairs to their ends, and a read among `late` to the shard. -/
def ComesTo (X : Buffer) (input : RepairInput) (inputs : ι → RepairInput)
    (may : ι → StoreOp → Prop) (slots : κ → UInt8) (late : κ → Prop) :
    ι ⊕ κ → Outcome (RepairError ⊕ Status) (List UInt8 ⊕ List (Bytes × Bool)) → Target → Prop
  | .inl i, o, w => ∃ o', o = o'.left ∧ Ended (inputs i) X (may i) o' w
  | .inr j, o, _ => late j → ∃ frames, o = .ok (.inr frames) ∧
      Service.collect [] frames = Layout.shard input.ec.profile X.bytes ((slots j).toNat - 1)

/-- What the threads find when they start: a read among `late`, that the repair is done. -/
def Finds (ι : Type) (plan : Plan) (late : κ → Prop) : ι ⊕ κ → Target → Prop
  | .inl _, _ => True
  | .inr j, w => late j → plan.Done w

variable {h₀ : Holdings} {r₀ : StoredContainer} {late : κ → Prop}

theorem stable_comesTo (halike : ∀ i, Alike (inputs i) input) (t : ι ⊕ κ)
    (o : Outcome (RepairError ⊕ Status) (List UInt8 ⊕ List (Bytes × Bool))) :
    (sharedRely may (planOf input X.bytes) h₀ r₀).Stable t
      (ComesTo X input inputs may slots late t o) := by
  cases t with
  | inr j => exact fun w w' _ => id
  | inl i =>
    refine Plan.stable_of_kept fun w w' hkept hended => ?_
    obtain ⟨o', ho, hended⟩ := hended
    refine ⟨o', ho, hended.imp_left fun hok => ⟨hok.1, ?_⟩⟩
    have hdone := hok.2
    rw [(halike i).planOf_eq] at hdone ⊢
    exact hkept.done hdone

theorem stable_finds (plan : Plan) (t : ι ⊕ κ) :
    (sharedRely may plan h₀ r₀).Stable t (Finds ι plan late t) := by
  cases t with
  | inl i => exact fun w w' _ => id
  | inr j => exact Plan.stable_of_kept fun w w' hkept hdone hlate => hkept.done (hdone hlate)

/-- Every thread is safe from where it starts. -/
theorem safe_sideBySide (hisal : isal.Correct) (hvalid : input.ec.profile.Valid)
    (halike : ∀ i, Alike (inputs i) input) (hsees : ∀ i, Sees isal (net i) (inputs i) X)
    (hslots : ∀ j, slots j ∈ missing input)
    (hchunks : ∀ j, (chunks j).chunkName = "0" ∧ (chunks j).checksumData = none)
    (t : ι ⊕ κ) {w : Target} (hfinds : Finds ι (planOf input X.bytes) late t w) :
    (sharedRely may (planOf input X.bytes) h₀ r₀).Safe t (ComesTo X input inputs may slots late t)
      (sideBySide isal net inputs
        (fun j => verifiedRead (input.blockOf (slots j)) (chunks j)) t) w := by
  cases t with
  | inl i =>
    have hsafe : (sharedRely may (planOf (inputs i) X.bytes) h₀ r₀).Safe (.inl i : ι ⊕ κ)
        (Ended (inputs i) X (may i)) (reconstructAndPersist isal (net i) (inputs i)) w :=
      safe_reconstructAndPersist hisal ((halike i).ec ▸ hvalid) (hsees i)
    rw [(halike i).planOf_eq] at hsafe
    exact Safe.mapOutcome (fun o w ho => ⟨o, rfl, ho⟩) hsafe
  | inr j =>
    obtain ⟨hname, hdigests⟩ := hchunks j
    by_cases hlate : late j
    · refine Safe.mapOutcome (fun o _ ho _ => ?_)
        (safe_readChunk (hslots j) hname hdigests (fun _ => id) (hfinds hlate))
      obtain ⟨frames, rfl, hframes⟩ := ho
      exact ⟨frames, rfl, hframes⟩
    · exact Safe.mapOutcome (fun _ _ _ h => absurd h hlate)
        (Plan.safe_of_makes (follows_readChunk hname hdigests))

/-- A repair alone, none of whose calls fails. -/
theorem ends_alone {net : String → Peer} {input' : RepairInput} (hisal : isal.Correct)
    (hvalid : input.ec.profile.Valid) (halike : Alike input' input)
    (hsees : Sees isal net input' X) (hrecord : w₀.holdings.record input.container = some r₀)
    (hopen : r₀.info.state = .open) {o : Outcome RepairError (List UInt8)} {w₁ : Target}
    (h : (reconstructAndPersist isal net input').Ends (StoreOp.Answers StoreOp.never) w₀ o w₁) :
    o = .ok (missing input') ∧ (planOf input X.bytes).Done w₁ ∧
      (planOf input X.bytes).Tallied w₀.holdings r₀ w₁.holdings := by
  have hsafe : ((planOf input' X.bytes).rely (fun _ : Unit => StoreOp.never) w₀.holdings r₀).Safe ()
      (Ended input' X StoreOp.never) (reconstructAndPersist isal net input') w₀ :=
    safe_reconstructAndPersist hisal (halike.ec ▸ hvalid) hsees
  rw [halike.planOf_eq] at hsafe
  have hinv : (planOf input X.bytes).Tallied w₀.holdings r₀ w₀.holdings := .refl hrecord hopen
  obtain ⟨hI, ⟨ho, hdone⟩ | ⟨⟨_, hmay⟩, -⟩⟩ := hsafe.of_ends hinv h
  · exact ⟨ho, halike.planOf_eq X.bytes ▸ hdone, hI⟩
  · exact hmay.elim

variable [DecidableEq ι] [DecidableEq κ]

/-- **Repairs of one group are one repair.** Any number of repairs of a group of an object, each
with its own view of the survivors, and any number of verified reads take their calls in any
order, and calls of the repairs may fail. Each repair would come to its end alone. A repair that
ends has stored every missing slot, or one of its calls has failed. Once one has stored them,
every verified read that starts gets the shard of `encode_object`, and the number of blocks
is that of one repair alone. So are the bytes in use, if there is room for them. -/
theorem repairs_idempotent (hisal : isal.Correct) (hvalid : input.ec.profile.Valid)
    (halike : ∀ i, Alike (inputs i) input) (hsees : ∀ i, Sees isal (net i) (inputs i) X)
    (hslots : ∀ j, slots j ∈ missing input)
    (hchunks : ∀ j, (chunks j).chunkName = "0" ∧ (chunks j).checksumData = none)
    {r₀ : StoredContainer} (hrecord : w₀.holdings.record input.container = some r₀)
    (hopen : r₀.info.state = .open) :
    (∀ i, ∃ w₁, (reconstructAndPersist isal (net i) (inputs i)).Ends
      (StoreOp.Answers StoreOp.never) w₀ (.ok (missing (inputs i))) w₁) ∧
    ∀ P, Pool.Reachable (sharedStores may) (sideBySide isal net inputs
        fun j => verifiedRead (input.blockOf (slots j)) (chunks j)) w₀ P →
      (∀ i o, P.threads (.inl i) = some (.done o) → o = .ok (.inl (missing (inputs i))) ∨
        (∃ op, may i op) ∧ ∃ e, o = .err (.inl (.storage e))) ∧
      ∀ i repaired, P.threads (.inl i) = some (.done (.ok (.inl repaired))) →
        (∀ i' o w₁, (reconstructAndPersist isal (net i') (inputs i')).Ends
            (StoreOp.Answers StoreOp.never) w₀ o w₁ →
          ∃ info info₁, P.world.store.getContainer input.container = some info ∧
            w₁.store.getContainer input.container = some info₁ ∧
            info.blockCount = info₁.blockCount ∧
            ((planOf input X.bytes).Room w₀.holdings r₀ → info.usedBytes = info₁.usedBytes)) ∧
        ∀ P', Relation.ReflTransGen (Pool.Step (sharedStores may) (sideBySide isal net inputs
            fun j => verifiedRead (input.blockOf (slots j)) (chunks j))) P P' →
          ∀ j o, P.threads (.inr j) = none → P'.threads (.inr j) = some (.done o) →
            ∃ frames, o = .ok (.inr frames) ∧
              objectShard isal input.ec.profile X.bytes (slots j) =
                .ok (Service.collect [] frames) := by
  have hsafe : ∀ (late : κ → Prop) t w, Finds ι (planOf input X.bytes) late t w →
      (sharedRely may (planOf input X.bytes) w₀.holdings r₀).Safe t
        (ComesTo X input inputs may slots late t) (sideBySide isal net inputs
          (fun j => verifiedRead (input.blockOf (slots j)) (chunks j)) t) w :=
    fun late t w => safe_sideBySide hisal hvalid halike hsees hslots hchunks t
  have hsteps : ∀ (late : κ → Prop) P P', (sharedRely may (planOf input X.bytes) w₀.holdings
      r₀).AllSafe (ComesTo X input inputs may slots late) (Finds ι (planOf input X.bytes) late) P →
      Relation.ReflTransGen (Pool.Step (sharedStores may) (sideBySide isal net inputs
        fun j => verifiedRead (input.blockOf (slots j)) (chunks j))) P P' →
      (sharedRely may (planOf input X.bytes) w₀.holdings r₀).AllSafe
        (ComesTo X input inputs may slots late) (Finds ι (planOf input X.bytes) late) P' := by
    refine fun late P P' => AllSafe.steps (stable_finds _) (fun t w w' hI hfinds hstart => ?_)
      (stable_comesTo halike)
    obtain rfl : w' = w := hstart
    exact ⟨hI, .refl _ _, hsafe late t _ hfinds⟩
  refine ⟨fun i => ?_, fun P hP => ?_⟩
  · obtain ⟨o, w₁, hends⟩ := Prog.exists_ends
      (fun w op => ⟨_, _, StoreOp.answers_exec StoreOp.never w op⟩)
      (reconstructAndPersist isal (net i) (inputs i)) w₀
    obtain ⟨rfl, -⟩ := ends_alone hisal hvalid (halike i) (hsees i) hrecord hopen hends
    exact ⟨w₁, hends⟩
  -- before a repair has ended, nothing is said of the reads
  have hinv : (planOf input X.bytes).Tallied w₀.holdings r₀ w₀.holdings := .refl hrecord hopen
  have hall := hsteps (fun _ => False) ⟨fun _ => none, w₀⟩ P ⟨hinv, ?_, fun t p hp => nomatch hp⟩ hP
  swap
  · rintro (i | j) -
    · trivial
    · exact False.elim
  have hended : ∀ i o, P.threads (.inl i) = some (.done o) →
      ∃ o', o = o'.left ∧ Ended (inputs i) X (may i) o' P.world :=
    fun i o hi => hall.safe (.inl i) _ hi
  refine ⟨fun i o hi => ?_, fun i repaired hi => ?_⟩
  · obtain ⟨o', rfl, ⟨rfl, -⟩ | ⟨hmay, e, rfl⟩⟩ := hended i o hi
    · exact .inl rfl
    · exact .inr ⟨hmay, e, rfl⟩
  have hdone : (planOf input X.bytes).Done P.world := by
    obtain ⟨o', ho, ⟨-, hdone⟩ | ⟨-, e, rfl⟩⟩ := hended i _ hi
    · exact (halike i).planOf_eq X.bytes ▸ hdone
    · cases ho
  refine ⟨fun i' o w₁ hends => ?_, fun P' hPP' j o hnone hj => ?_⟩
  · obtain ⟨-, hdone₁, hI₁⟩ := ends_alone hisal hvalid (halike i') (hsees i') hrecord hopen hends
    exact hall.inv.counters hI₁ hdone hdone₁
  · -- the reads that have not started find the repair done
    have hall' := hsteps (fun j => P.threads (.inr j) = none) P P' ⟨hall.inv, ?_, ?_⟩ hPP'
    · obtain ⟨frames, rfl, hframes⟩ := hall'.safe (.inr j) _ hj hnone
      refine ⟨frames, rfl, ?_⟩
      rw [hframes]
      exact objectShard_eq hisal hvalid X (mem_missing.mp (hslots j)).2
    · rintro (i | j) -
      · trivial
      · exact fun _ => hdone
    · rintro (i | j) p hp
      · exact hall.safe (.inl i) p hp
      · refine (hall.safe (.inr j) p hp).mono fun o w _ hlate => ?_
        cases hp.symm.trans hlate

end Concurrent

/-! ### One group of two bytes -/

/-- The parity shard of the group `7`, of two bytes, is missing. -/
def lostGroup : RepairInput := { lostParity with localId := 7, blockGroupLen := 2 }

/-- The two survivors have the shards of `[5, 6]`. -/
theorem sees_lostGroup :
    Sees IsaL.reference (twoSurvivors [7]) lostGroup ⟨[5, 6], by decide⟩ := by
  have hview : gather (twoSurvivors [7]) lostGroup = [some [5], some [6], none] := by decide
  refine ⟨rfl, _, encodeObject_eq IsaL.reference_correct lostParity_valid (by decide), ?_, ?_⟩
  · rw [hview]
    refine ⟨rfl, fun idx b s hb hs => .inl ?_⟩
    rw [Layout.slots_encode] at hs
    obtain ⟨-, rfl⟩ := List.getElem?_eq_some_iff.mp hs
    rw [List.getElem_map, List.getElem_range]
    match idx with
    | 0 | 1 => cases hb; rfl
    | 2 | _ + 3 => cases hb
  · rw [hview, Layout.carried_encode]
    have hmissing : Layout.missing lostGroup.ec.profile [5, 6] [some [5], some [6], none] = [] := by
      decide
    exact Layout.le_length_present_of_missing_eq_nil hmissing

/-- The container of the group, and nothing in it. -/
def opened : Target := ((StoreOp.createContainer (.newOpen 1 lostGroup.ec)).exec .empty).2

/-- Two repairs and a read. -/
theorem repairs_idempotent_lostGroup :
    ∃ w₁, (reconstructAndPersist IsaL.reference (twoSurvivors [7]) lostGroup).Ends
        (StoreOp.Answers StoreOp.never) opened (.ok [3]) w₁ ∧
      ∀ P, Pool.Reachable (sharedStores fun (_ : Bool) _ => True)
          (sideBySide IsaL.reference (fun _ => twoSurvivors [7]) (fun _ => lostGroup)
            fun (_ : Unit) => verifiedRead (lostGroup.blockOf 3) ⟨"0", 0, 0, none⟩) opened P →
        ∀ i repaired, P.threads (.inl i) = some (.done (.ok (.inl repaired))) →
          ∃ info info₁, P.world.store.getContainer 1 = some info ∧
            w₁.store.getContainer 1 = some info₁ ∧ info.blockCount = info₁.blockCount ∧
            info.usedBytes = info₁.usedBytes := by
  have hrecord : opened.holdings.record lostGroup.container =
      some ⟨.newOpen 1 lostGroup.ec, 0⟩ := by decide +kernel
  have hroom : (planOf lostGroup [5, 6]).Room opened.holdings ⟨.newOpen 1 lostGroup.ec, 0⟩ :=
    ⟨by decide +kernel, by decide +kernel⟩
  obtain ⟨halone, hrun⟩ := @repairs_idempotent Bool Unit IsaL.reference
    ⟨[5, 6], by decide⟩ lostGroup
    (fun _ => twoSurvivors [7]) (fun _ => lostGroup) (fun _ _ => True) (fun _ => 3)
    (fun _ => ⟨"0", 0, 0, none⟩) opened _ _ IsaL.reference_correct lostParity_valid
    (fun _ => Alike.refl _) (fun _ => sees_lostGroup) (fun _ => by decide) (fun _ => ⟨rfl, rfl⟩)
    _ hrecord rfl
  obtain ⟨w₁, hends⟩ := halone true
  refine ⟨w₁, hends, fun P hP i repaired hi => ?_⟩
  obtain ⟨info, info₁, hinfo, hinfo₁, hcount, hused⟩ :=
    ((hrun P hP).2 i repaired hi).1 true _ _ hends
  exact ⟨info, info₁, hinfo, hinfo₁, hcount, hused hroom⟩

/-! ### Where the bytes in use drift -/

/-- A block as long as a `u64` can say. -/
def fullBlock : BlockData := ⟨⟨1, 9, 1⟩, [⟨"0", 0, 0xFFFFFFFFFFFFFFFF, none⟩], []⟩

/-- The container of the group, with that block. -/
def crowded : Target := ((StoreOp.putBlock fullBlock).exec opened).2

/-- What a repair of the group leaves. -/
def repairOf (w : Target) : Target :=
  ((StoreOp.putBlock ((planOf lostGroup [5, 6]).record (lostGroup.blockOf 3))).exec
    ((StoreOp.writeChunk (lostGroup.blockOf 3) "0"
      ((planOf lostGroup [5, 6]).shard (lostGroup.blockOf 3))).exec w).2).2

theorem ends_repairOf {w : Target} (hopen : w.IsOpen 1) :
    (reconstructAndPersist IsaL.reference (twoSurvivors [7]) lostGroup).Ends
      (StoreOp.Answers StoreOp.never) w (.ok [3]) (repairOf w) := by
  have hopen₁ := hopen
  obtain ⟨record, hrecord, hstate⟩ := hopen
  have hwritable : requireWritable lostGroup (some record.info) = pure () :=
    if_pos (by rw [hstate]; rfl)
  have hget : w.store.getContainer 1 = some record.info :=
    congrArg (Option.map StoredContainer.info) hrecord
  refine StoreOp.ends_call_bind (congrArg Except.ok hget) ?_
  rw [hwritable, persistFrom_eq IsaL.reference_correct lostParity_valid sees_lostGroup]
  change (persistShard lostGroup (Layout.encode lostGroup.ec.profile [5, 6]) [] 3 >>= pure).Ends
    _ w _ _
  have hshard : persistShard lostGroup (Layout.encode lostGroup.ec.profile [5, 6]) [] 3 = _ :=
    persistShard_eq (X := ⟨[5, 6], by decide⟩) (by decide) []
  rw [hshard]
  refine Prog.Ends.bind ?_ ⟨rfl, rfl⟩
  obtain ⟨n, store, hput, -⟩ := putBlock_of_isOpen
    ((planOf lostGroup [5, 6]).record (lostGroup.blockOf 3)) (t := w) hopen₁
  exact StoreOp.ends_call_bind rfl (StoreOp.ends_call_bind
    (congrArg (Prod.fst ∘ Target.onMeta _) hput) ⟨rfl, rfl⟩)

/-- Two repairs of the group. -/
def twoRepairs :
    Bool ⊕ Empty → Prog storeCalls (RepairError ⊕ Status) (List UInt8 ⊕ List (Bytes × Bool)) :=
  sideBySide IsaL.reference (fun _ => twoSurvivors [7]) (fun _ => lostGroup) fun j => j.elim

/-- **Two repairs do not count as one.** The container has a block as long as a `u64` can say,
which the datanode takes; one repair brings the bytes in use to zero, and the second takes the
length of the shard off, which stops at zero, and adds it again. -/
theorem used_bytes_drift :
    ∃ P, Pool.Reachable (sharedStores fun _ => StoreOp.never) twoRepairs crowded P ∧
      (∀ i, P.threads (.inl i) = some (.done (.ok (.inl [3])))) ∧
      (P.world.store.getContainer 1).map (·.usedBytes) = some 1 ∧
      ∃ w₁, (reconstructAndPersist IsaL.reference (twoSurvivors [7]) lostGroup).Ends
          (StoreOp.Answers StoreOp.never) crowded (.ok [3]) w₁ ∧
        (w₁.store.getContainer 1).map (·.usedBytes) = some 0 := by
  have hopen : crowded.IsOpen 1 := ⟨_, rfl, rfl⟩
  have hopen₁ : (repairOf crowded).IsOpen 1 := ⟨_, rfl, rfl⟩
  have hends : ∀ {w : Target}, w.IsOpen 1 → ∀ i : Bool, (twoRepairs (.inl i)).Ends
      (StoreOp.Answers StoreOp.never) w (.ok (.inl [3])) (repairOf w) :=
    fun hopen _ => (ends_repairOf hopen).mapOutcome
  have hstep : ∀ (threads : Bool ⊕ Empty → Option _) (w : Target) (i : Bool),
      threads (.inl i) = none → w.IsOpen 1 → Relation.ReflTransGen
        (Pool.Step (sharedStores fun _ => StoreOp.never) twoRepairs) ⟨threads, w⟩
        ⟨Function.update threads (.inl i) (some (.done (.ok (.inl [3])))), repairOf w⟩ :=
    fun threads w i hnone hopen => Pool.steps_of_start hnone rfl (hends hopen i)
  refine ⟨_, (hstep _ crowded false rfl hopen).trans (hstep _ _ true rfl hopen₁), ?_,
    by decide +kernel, _, ends_repairOf hopen, by decide +kernel⟩
  rintro (_ | _) <;> rfl

end OzoneRust
