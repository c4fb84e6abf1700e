import OzoneRust.Datanode.Survivors
import OzoneRust.Ec.Decode

/-!
# What a rebuild writes

A rebuild writes, for one group after the other, the shards of the missing slots. What it
writes for a block is a function of the block alone, given what the survivors told
(`OzoneRust.rebuiltSlot`), so the effect of any part of the loop is a set of blocks that now
hold what they should, while all others are as before (`OzoneRust.Wrote`); writing over what
is already there changes nothing.

`OzoneRust.rebuildGroups_ok` and `OzoneRust.rebuildGroups_fails` say what the loop does: it
rebuilds the groups of which enough shards were read and passes over the others, and it
fails if one of the former cannot be decoded or stored.
-/

namespace OzoneRust

namespace RepairM

variable {α β : Type} {x : RepairM α} {f : α → RepairM β} {t t' : Target}

theorem bind_ok {a : α} (h : x t = .ok a t') : (x >>= f) t = f a t' := by
  simp only [bind, EStateM.bind, h]

theorem bind_error {e : Abort} (h : x t = .error e t') : (x >>= f) t = .error e t' := by
  simp only [bind, EStateM.bind, h]

theorem bind_eq_ok {b : β} :
    (x >>= f) t = .ok b t' ↔ ∃ a t₁, x t = .ok a t₁ ∧ f a t₁ = .ok b t' := by
  constructor
  · intro h
    cases hx : x t with
    | ok a t₁ => exact ⟨a, t₁, rfl, (bind_ok hx).symm.trans h⟩
    | error e t₁ =>
      rw [bind_error hx] at h
      cases h
  · rintro ⟨a, t₁, hx, hf⟩
    exact (bind_ok hx).trans hf

theorem fault_eq_ok {o : Option StorageError} {u : Unit} (h : fault o t = .ok u t') :
    o = none ∧ t' = t := by
  cases o with
  | none => exact ⟨rfl, (EStateM.Result.ok.inj h).2.symm⟩
  | some e => cases h

theorem onStore_ok {f : MetaStore → Except StorageError (α × MetaStore)} {a : α}
    {store : MetaStore} (h : f t.store = .ok (a, store)) :
    onStore f t = .ok a { t with store := store } := by
  unfold onStore
  refine (bind_ok rfl).trans ?_
  rw [h]
  rfl

theorem onStore_error {f : MetaStore → Except StorageError (α × MetaStore)} {e : StorageError}
    (h : f t.store = .error e) : onStore f t = .error (.err (.storage e)) t := by
  unfold onStore
  refine (bind_ok rfl).trans ?_
  rw [h]
  rfl

end RepairM

/-! ### Effects -/

/-- The container has a record and is open. -/
def Target.IsOpen (t : Target) (c : ContainerId) : Prop :=
  ∃ record, t.store.containers.get? (MetaStore.containerKey c) = some record ∧
    record.info.state = .open

/-- A block holds a shard and a record. -/
def Target.Stores (t : Target) (id : BlockId) (v : Bytes × BlockData) : Prop :=
  t.chunks id "0" = some v.1 ∧ t.store.getBlock id = some v.2

/-- **The effect of a rebuild**, or of a part of it: the blocks in `S` hold what `V` says,
the others are as before, and the container is open. -/
structure Wrote (c : ContainerId) (V : BlockId → Bytes × BlockData) (S : BlockId → Prop)
    (t t' : Target) : Prop where
  /-- The container is open. -/
  isOpen : t'.IsOpen c
  /-- What was written. -/
  new : ∀ id, S id → t'.Stores id (V id)
  /-- What was not. -/
  old : ∀ id, ¬S id → t'.chunks id = t.chunks id ∧ t'.store.getBlock id = t.store.getBlock id
  /-- Nothing changes where all is there already. -/
  same : (∀ id, S id → t.Stores id (V id)) → t'.chunks = t.chunks ∧ t'.store.blocks = t.store.blocks

section Wrote

variable {c : ContainerId} {V : BlockId → Bytes × BlockData} {S S' : BlockId → Prop}
  {t t' t'' : Target}

theorem Wrote.refl (h : t.IsOpen c) : Wrote c V (fun _ => False) t t :=
  ⟨h, fun _ hf => hf.elim, fun _ _ => ⟨rfl, rfl⟩, fun _ => ⟨rfl, rfl⟩⟩

/-- One effect after another. -/
theorem Wrote.trans (h : Wrote c V S t t') (h' : Wrote c V S' t' t'') :
    Wrote c V (fun id => S id ∨ S' id) t t'' := by
  have hkeep : ∀ id v, t'.Stores id v → ¬S' id → t''.Stores id v := by
    intro id v hv hnot
    obtain ⟨hchunks, hblock⟩ := h'.old id hnot
    exact ⟨hchunks ▸ hv.1, hblock.trans hv.2⟩
  refine ⟨h'.isOpen, fun id hid => ?_, fun id hid => ?_, fun hall => ?_⟩
  · by_cases hS' : S' id
    · exact h'.new id hS'
    · exact hkeep id _ (h.new id (hid.resolve_right hS')) hS'
  · rw [not_or] at hid
    obtain ⟨hchunks, hblock⟩ := h.old id hid.1
    obtain ⟨hchunks', hblock'⟩ := h'.old id hid.2
    exact ⟨hchunks'.trans hchunks, hblock'.trans hblock⟩
  · obtain ⟨hchunks, hblocks⟩ := h.same fun id hid => hall id (.inl hid)
    have hstill : ∀ id, S' id → t'.Stores id (V id) := by
      intro id hid
      obtain ⟨hc, hb⟩ := hall id (.inr hid)
      exact ⟨hchunks ▸ hc, by rw [MetaStore.getBlock, hblocks]; exact hb⟩
    obtain ⟨hchunks', hblocks'⟩ := h'.same hstill
    exact ⟨hchunks'.trans hchunks, hblocks'.trans hblocks⟩

theorem Wrote.congr (h : Wrote c V S t t') (hS : ∀ id, S id ↔ S' id) : Wrote c V S' t t' := by
  obtain rfl : S = S' := funext fun id => propext (hS id)
  exact h

/-- **A loop whose turns have effects has them all.** -/
theorem foldlM_wrote {α β : Type} {f : β → α → RepairM β} {next : β → α → β}
    {T : α → BlockId → Prop} : ∀ {l : List α},
    (∀ x ∈ l, ∀ b t, t.IsOpen c → ∃ t', f b x t = .ok (next b x) t' ∧ Wrote c V (T x) t t') →
    ∀ (b : β) {t : Target}, t.IsOpen c → ∃ t', l.foldlM f b t = .ok (l.foldl next b) t' ∧
      Wrote c V (fun id => ∃ x ∈ l, T x id) t t'
  | [], _, b, t, ht => ⟨t, rfl, (Wrote.refl ht).congr fun id => by simp⟩
  | x :: l, hstep, b, t, ht => by
    obtain ⟨t₁, h₁, hw₁⟩ := hstep x (by simp) b t ht
    obtain ⟨t₂, h₂, hw₂⟩ :=
      foldlM_wrote (l := l) (fun y hy => hstep y (by simp [hy])) (next b x) hw₁.isOpen
    refine ⟨t₂, ?_, (hw₁.trans hw₂).congr fun id => by simp⟩
    rw [List.foldlM_cons, RepairM.bind_ok h₁]
    exact h₂

/-- A loop with a turn that fails from every state fails. -/
theorem foldlM_fails {α β : Type} {f : β → α → RepairM β} {x : α}
    (hx : ∀ b t, ∃ e t', f b x t = .error e t') : ∀ {l : List α}, x ∈ l → ∀ (b : β) (t : Target),
    ∃ e t', l.foldlM f b t = .error e t'
  | y :: l, hmem, b, t => by
    rw [List.foldlM_cons]
    cases hy : f b y t with
    | error e t' => exact ⟨e, t', RepairM.bind_error hy⟩
    | ok b' t' =>
      rw [RepairM.bind_ok hy]
      rcases List.mem_cons.mp hmem with rfl | hmem
      · obtain ⟨e, t'', herr⟩ := hx b t
        rw [hy] at herr
        cases herr
      · exact foldlM_fails hx hmem b' t'

end Wrote

/-! ### One slot -/

/-- The digests of a rebuilt shard. -/
def rebuiltDigests (input : ReconstructInput) (shard : Bytes) : ChecksumData :=
  ⟨.crc32c, input.ec.ecChunkSize,
    (Blocks.chunks (Checksum.bpc input.ec.ecChunkSize) shard).map fun window =>
      Checksum.toBeBytes (Checksum.crc32c window)⟩

theorem compute_rebuiltDigests (input : ReconstructInput) (shard : Bytes) :
    Checksum.compute shard input.ec.ecChunkSize .crc32c = .ok (rebuiltDigests input shard) := rfl

/-- The record of a rebuilt block. -/
def rebuiltBlock (input : ReconstructInput) (id : BlockId) (len : UInt64) (shard : Bytes) :
    BlockData :=
  { BlockData.new id with
    chunks := [rebuiltChunk shard (rebuiltDigests input shard)] }.setBlockGroupLen len

/-- The slot is one of the group's. -/
def ReconstructInput.InRange (input : ReconstructInput) (slot : UInt8) : Prop :=
  slot ≠ 0 ∧ slot.toNat ≤ input.total

instance (input : ReconstructInput) (slot : UInt8) : Decidable (input.InRange slot) :=
  inferInstanceAs (Decidable (_ ∧ _))

/-- A slot can be stored: it is passed over, or its shard is there and no local call fails. -/
def SlotOk (F : LocalFaults) (input : ReconstructInput) (loc : UInt64) (encoded : EncodedShards)
    (slot : UInt8) : Prop :=
  input.InRange slot → ∃ shard, encodedSlot input.ec.data.toNat encoded slot = .ok shard ∧
    F.writeChunk ⟨input.container, loc, slot⟩ = none ∧
    F.putBlock ⟨input.container, loc, slot⟩ = none

theorem putBlock_of_isOpen {t : Target} (bd : BlockData) (h : t.IsOpen bd.blockId.container) :
    ∃ n store, t.store.putBlock bd = .ok (n, store) ∧
      (⟨store, t.chunks⟩ : Target).IsOpen bd.blockId.container ∧
      store.blocks = t.store.blocks.insert (MetaStore.blockKey bd.blockId) bd := by
  obtain ⟨record, hrecord, hopen⟩ := h
  unfold MetaStore.putBlock
  dsimp only
  rw [hrecord]
  dsimp only
  rw [hopen]
  refine ⟨_, _, rfl, ⟨_, SortedMap.get?_insert_self, ?_⟩, rfl⟩
  rw [← hopen]
  cases t.store.blocks.get? (MetaStore.blockKey bd.blockId) <;> rfl

section Slot

variable {F : LocalFaults} {input : ReconstructInput} {loc len : UInt64} {encoded : EncodedShards}
  {slot : UInt8} {V : BlockId → Bytes × BlockData}

/-- A block and its bytes are written. -/
theorem wrote_put {t : Target} {c : ContainerId} {id : BlockId} {shard : Bytes} {bd : BlockData}
    {store : MetaStore} (hV : V id = (shard, bd))
    (hopen : (⟨store, t.chunks⟩ : Target).IsOpen c)
    (hblocks : store.blocks = t.store.blocks.insert (MetaStore.blockKey id) bd) :
    Wrote c V (· = id) t ⟨store, Function.update t.chunks id
      (Function.update (t.chunks id) "0" (some shard))⟩ := by
  refine ⟨hopen, ?_, fun id' hne => ⟨Function.update_of_ne hne _ _, ?_⟩, fun hall => ?_⟩
  · rintro _ rfl
    rw [hV]
    refine ⟨?_, ?_⟩
    · simp
    · rw [MetaStore.getBlock, hblocks, SortedMap.get?_insert_self]
  · rw [MetaStore.getBlock, hblocks, SortedMap.get?_insert_of_ne (mt MetaStore.blockKey_inj.mp hne)]
    rfl
  · obtain ⟨hchunk, hblock⟩ := hall id rfl
    rw [hV] at hchunk hblock
    refine ⟨?_, ?_⟩
    · rw [← hchunk, Function.update_eq_self, Function.update_eq_self]
    · rw [hblocks]
      exact SortedMap.insert_eq_self hblock

/-- The local calls for a slot whose shard is there. -/
theorem persistSlot_eq (hrange : input.InRange slot) {shard : Bytes}
    (hshard : encodedSlot input.ec.data.toNat encoded slot = .ok shard) (t : Target) :
    persistSlot F input loc len encoded slot t = (do
      RepairM.fault (F.writeChunk ⟨input.container, loc, slot⟩)
      RepairM.writeChunk ⟨input.container, loc, slot⟩ "0" shard
      RepairM.fault (F.putBlock ⟨input.container, loc, slot⟩)
      let _ ← RepairM.onStore fun s =>
        s.putBlock (rebuiltBlock input ⟨input.container, loc, slot⟩ len shard)
      pure () : RepairM Unit) t := by
  unfold persistSlot
  rw [if_neg (by rw [not_or, not_lt]; exact hrange), hshard]
  refine (RepairM.bind_ok rfl).trans ?_
  rw [compute_rebuiltDigests]
  rfl

/-- **A slot that can be stored is.** -/
theorem persistSlot_ok (hok : SlotOk F input loc encoded slot)
    (hV : ∀ shard, encodedSlot input.ec.data.toNat encoded slot = .ok shard →
      V ⟨input.container, loc, slot⟩ =
        (shard, rebuiltBlock input ⟨input.container, loc, slot⟩ len shard))
    {t : Target} (ht : t.IsOpen input.container) :
    ∃ t', persistSlot F input loc len encoded slot t = .ok () t' ∧
      Wrote input.container V
        (fun id => input.InRange slot ∧ id = ⟨input.container, loc, slot⟩) t t' := by
  by_cases hrange : input.InRange slot
  · obtain ⟨shard, hshard, hwrite, hput⟩ := hok hrange
    obtain ⟨n, store, hstore, hopen, hblocks⟩ := putBlock_of_isOpen
      (rebuiltBlock input ⟨input.container, loc, slot⟩ len shard) ht
    refine ⟨_, ?_, (wrote_put (hV shard hshard) hopen hblocks).congr fun id => by simp [hrange]⟩
    rw [persistSlot_eq hrange hshard, hwrite, hput]
    refine (RepairM.bind_ok rfl).trans
      ((RepairM.bind_ok rfl).trans ((RepairM.bind_ok rfl).trans ?_))
    exact RepairM.bind_ok (RepairM.onStore_ok hstore)
  · refine ⟨t, ?_, (Wrote.refl ht).congr fun id => by simp [hrange]⟩
    unfold persistSlot
    rw [if_pos]
    · rfl
    · by_contra hnot
      rw [not_or, not_lt] at hnot
      exact hrange hnot

/-- A slot that cannot be stored stops the rebuild. -/
theorem persistSlot_fails (hnot : ¬SlotOk F input loc encoded slot) (t : Target) :
    ∃ e t', persistSlot F input loc len encoded slot t = .error e t' := by
  unfold SlotOk at hnot
  rw [Classical.not_imp] at hnot
  obtain ⟨hrange, hnot⟩ := hnot
  cases hshard : encodedSlot input.ec.data.toNat encoded slot with
  | err e =>
    unfold persistSlot
    rw [if_neg (by rw [not_or, not_lt]; exact hrange), hshard]
    exact ⟨_, _, RepairM.bind_error rfl⟩
  | panic =>
    unfold persistSlot
    rw [if_neg (by rw [not_or, not_lt]; exact hrange), hshard]
    exact ⟨_, _, RepairM.bind_error rfl⟩
  | ok shard =>
    rw [persistSlot_eq hrange hshard]
    cases hwrite : F.writeChunk ⟨input.container, loc, slot⟩ with
    | some e => exact ⟨_, _, RepairM.bind_error rfl⟩
    | none =>
      cases hput : F.putBlock ⟨input.container, loc, slot⟩ with
      | some e =>
        exact ⟨_, _, (RepairM.bind_ok rfl).trans ((RepairM.bind_ok rfl).trans
          (RepairM.bind_error rfl))⟩
      | none => exact absurd ⟨shard, hshard, hwrite, hput⟩ hnot

end Slot

/-! ### The groups -/

/-- The shards of a group, decoded and encoded again. -/
def recode (isal : IsaL) (P : Profile) (len : UInt64) (view : List (Option Bytes)) :
    Outcome EcError EncodedShards := do
  let object ← decodeObject isal P len.toNat view
  encodeObject isal P object

/-- The shards of a group as they are rebuilt from what the survivors told. -/
def Enumeration.encoded? (e : Enumeration) (isal : IsaL) (input : ReconstructInput) (g : UInt64) :
    Option (UInt64 × EncodedShards) :=
  match e.lengths.get? g, e.shards.get? g with
  | some len, some view =>
    match recode isal input.ec.profile len view with
    | .ok encoded => some (len, encoded)
    | _ => none
  | _, _ => none

/-- What a rebuild writes for a block. -/
def rebuiltSlot (isal : IsaL) (input : ReconstructInput) (e : Enumeration) (id : BlockId) :
    Bytes × BlockData :=
  match e.encoded? isal input id.localId with
  | some (len, encoded) =>
    match encodedSlot input.ec.data.toNat encoded id.replicaIndex with
    | .ok shard => (shard, rebuiltBlock input id len shard)
    | _ => ([], .new id)
  | none => ([], .new id)

/-- Enough shards of the group were read to rebuild it. -/
def ReconstructInput.Enough (input : ReconstructInput) (view : List (Option Bytes)) : Prop :=
  input.ec.data.toNat ≤ view.countP Option.isSome

instance (input : ReconstructInput) (view : List (Option Bytes)) : Decidable (input.Enough view) :=
  inferInstanceAs (Decidable (_ ≤ _))

/-- The groups of which enough shards were read, in order. -/
def attempted (input : ReconstructInput) (e : Enumeration) : List UInt64 :=
  (e.shards.entries.filter fun x => input.Enough x.2).map Prod.fst

/-- The group can be rebuilt: it decodes, and each missing slot can be stored. -/
def GroupOk (isal : IsaL) (F : LocalFaults) (input : ReconstructInput) (e : Enumeration)
    (g : UInt64) : Prop :=
  ∃ len encoded, e.encoded? isal input g = some (len, encoded) ∧
    ∀ slot ∈ input.missingSlots, SlotOk F input g encoded slot

/-- The blocks a rebuild of some groups writes. -/
def RebuiltOf (input : ReconstructInput) (groups : List UInt64) (id : BlockId) : Prop :=
  id.container = input.container ∧ id.localId ∈ groups ∧ id.replicaIndex ∈ input.missingSlots ∧
    input.InRange id.replicaIndex

section Groups

variable {isal : IsaL} {F : LocalFaults} {input : ReconstructInput} {e : Enumeration} {g : UInt64}
  {view : List (Option Bytes)}

theorem encoded?_eq_some {len : UInt64} {encoded : EncodedShards} :
    e.encoded? isal input g = some (len, encoded) ↔ ∃ view object,
      e.lengths.get? g = some len ∧ e.shards.get? g = some view ∧
      decodeObject isal input.ec.profile len.toNat view = .ok object ∧
      encodeObject isal input.ec.profile object = .ok encoded := by
  unfold Enumeration.encoded? recode
  constructor
  · intro h
    split at h
    case h_1 len' view hlen hview =>
      split at h
      case h_1 encoded' hrecode =>
        obtain ⟨object, hdec, henc⟩ := Outcome.bind_eq_ok.mp hrecode
        cases h
        exact ⟨view, object, hlen, hview, hdec, henc⟩
      case h_2 => cases h
    case h_2 => cases h
  · rintro ⟨view, object, hlen, hview, hdec, henc⟩
    rw [hlen, hview]
    dsimp only
    rw [hdec, Outcome.ok_bind, henc]

theorem rebuildGroup_skip (hnot : ¬input.Enough view) (rebuilt : List UInt64) (t : Target) :
    rebuildGroup isal F input e.lengths rebuilt (g, view) t = .ok rebuilt t := by
  unfold rebuildGroup
  cases e.lengths.get? g with
  | none => rfl
  | some len =>
    dsimp only
    rw [if_pos (not_le.mp hnot)]
    rfl

theorem rebuiltSlot_eq {len : UInt64} {encoded : EncodedShards}
    (hencoded : e.encoded? isal input g = some (len, encoded)) {slot : UInt8} {shard : Bytes}
    (hshard : encodedSlot input.ec.data.toNat encoded slot = .ok shard) :
    rebuiltSlot isal input e ⟨input.container, g, slot⟩ =
      (shard, rebuiltBlock input ⟨input.container, g, slot⟩ len shard) := by
  unfold rebuiltSlot
  dsimp only
  rw [hencoded]
  dsimp only
  rw [hshard]

/-- **A group that can be rebuilt is.** -/
theorem rebuildGroup_ok (hview : e.shards.get? g = some view) (henough : input.Enough view)
    (hok : GroupOk isal F input e g) (rebuilt : List UInt64) {t : Target}
    (ht : t.IsOpen input.container) :
    ∃ t', rebuildGroup isal F input e.lengths rebuilt (g, view) t = .ok (rebuilt ++ [g]) t' ∧
      Wrote input.container (rebuiltSlot isal input e) (RebuiltOf input [g]) t t' := by
  obtain ⟨len, encoded, hencoded, hslots⟩ := hok
  obtain ⟨view', object, hlen, hview', hdec, henc⟩ := encoded?_eq_some.mp hencoded
  obtain rfl : view = view' := Option.some.inj (hview.symm.trans hview')
  have hstep : ∀ slot ∈ input.missingSlots, ∀ (u : Unit) (t : Target), t.IsOpen input.container →
      ∃ t', persistSlot F input g len encoded slot t = .ok u t' ∧
        Wrote input.container (rebuiltSlot isal input e)
          (fun id => input.InRange slot ∧ id = ⟨input.container, g, slot⟩) t t' :=
    fun slot hslot _ t ht =>
      persistSlot_ok (hslots slot hslot) (fun shard hshard => rebuiltSlot_eq hencoded hshard) ht
  obtain ⟨t', hrun, hwrote⟩ := foldlM_wrote hstep () ht
  refine ⟨t', ?_, hwrote.congr fun id => ?_⟩
  · unfold rebuildGroup
    rw [hlen]
    dsimp only
    rw [if_neg (not_lt.mpr henough), hdec]
    refine (RepairM.bind_ok rfl).trans ?_
    rw [henc]
    exact (RepairM.bind_ok rfl).trans (RepairM.bind_ok hrun)
  · constructor
    · rintro ⟨slot, hslot, hrange, rfl⟩
      exact ⟨rfl, List.mem_singleton_self g, hslot, hrange⟩
    · rintro ⟨hc, hg, hslot, hrange⟩
      refine ⟨id.replicaIndex, hslot, hrange, ?_⟩
      rw [← hc, ← List.mem_singleton.mp hg]

/-- A group that cannot be rebuilt stops the rebuild. -/
theorem rebuildGroup_fails (hview : e.shards.get? g = some view) {len : UInt64}
    (hlen : e.lengths.get? g = some len) (henough : input.Enough view)
    (hnot : ¬GroupOk isal F input e g) (rebuilt : List UInt64) (t : Target) :
    ∃ a t', rebuildGroup isal F input e.lengths rebuilt (g, view) t = .error a t' := by
  unfold rebuildGroup
  rw [hlen]
  dsimp only
  rw [if_neg (not_lt.mpr henough)]
  cases hdec : decodeObject isal input.ec.profile len.toNat view with
  | err _ => exact ⟨_, _, RepairM.bind_error rfl⟩
  | panic => exact ⟨_, _, RepairM.bind_error rfl⟩
  | ok object =>
    rw [RepairM.bind_ok (show RepairM.ofOutcome RepairError.ec (.ok object) t =
      .ok object t from rfl)]
    cases henc : encodeObject isal input.ec.profile object with
    | err _ => exact ⟨_, _, RepairM.bind_error rfl⟩
    | panic => exact ⟨_, _, RepairM.bind_error rfl⟩
    | ok encoded =>
      have hencoded := encoded?_eq_some.mpr ⟨view, object, hlen, hview, hdec, henc⟩
      have hslot : ∃ slot ∈ input.missingSlots, ¬SlotOk F input g encoded slot := by
        by_contra hall
        refine hnot ⟨len, encoded, hencoded, fun slot hslot => ?_⟩
        by_contra hbad
        exact hall ⟨slot, hslot, hbad⟩
      obtain ⟨slot, hmem, hbad⟩ := hslot
      obtain ⟨a, t', herr⟩ := foldlM_fails
        (f := fun _ => persistSlot F input g len encoded)
        (fun (_ : Unit) t => persistSlot_fails hbad t) hmem () t
      exact ⟨a, t', (RepairM.bind_ok rfl).trans (RepairM.bind_error herr)⟩

theorem mem_attempted : g ∈ attempted input e ↔ ∃ view, e.shards.get? g = some view ∧
    input.Enough view := by
  simp [attempted, SortedMap.get?_eq_some]

theorem foldl_attempted : ∀ (l : List (UInt64 × List (Option Bytes))) (acc : List UInt64),
    l.foldl (fun acc x => if input.Enough x.2 then acc ++ [x.1] else acc) acc =
      acc ++ (l.filter fun x => input.Enough x.2).map Prod.fst
  | [], acc => by simp
  | x :: l, acc => by
    rw [List.foldl_cons, foldl_attempted l, List.filter_cons]
    by_cases h : input.Enough x.2 <;> simp [h]

/-- **The rebuild**: the groups of which enough shards were read. -/
theorem rebuildGroups_ok (hok : ∀ g ∈ attempted input e, GroupOk isal F input e g) {t : Target}
    (ht : t.IsOpen input.container) :
    ∃ t', rebuildGroups isal F input e t = .ok (attempted input e) t' ∧
      Wrote input.container (rebuiltSlot isal input e)
        (RebuiltOf input (attempted input e)) t t' := by
  have hstep : ∀ x ∈ e.shards.entries, ∀ acc t, t.IsOpen input.container →
      ∃ t', rebuildGroup isal F input e.lengths acc x t =
          .ok (if input.Enough x.2 then acc ++ [x.1] else acc) t' ∧
        Wrote input.container (rebuiltSlot isal input e)
          (fun id => input.Enough x.2 ∧ RebuiltOf input [x.1] id) t t' := by
    intro x hx acc t ht
    have hview := SortedMap.get?_eq_some.mpr hx
    by_cases henough : input.Enough x.2
    · obtain ⟨t', hrun, hwrote⟩ := rebuildGroup_ok hview henough
        (hok x.1 (mem_attempted.mpr ⟨x.2, hview, henough⟩)) acc ht
      exact ⟨t', by rw [if_pos henough]; exact hrun, hwrote.congr fun id => by simp [henough]⟩
    · exact ⟨t, by rw [if_neg henough]; exact rebuildGroup_skip henough acc t,
        (Wrote.refl ht).congr fun id => by simp [henough]⟩
  obtain ⟨t', hrun, hwrote⟩ := foldlM_wrote hstep [] ht
  refine ⟨t', ?_, hwrote.congr fun id => ?_⟩
  · rw [rebuildGroups, hrun, foldl_attempted]
    rfl
  · constructor
    · rintro ⟨x, hx, henough, hc, hg, hrest⟩
      refine ⟨hc, ?_, hrest⟩
      rw [List.mem_singleton.mp hg]
      exact mem_attempted.mpr ⟨x.2, SortedMap.get?_eq_some.mpr hx, henough⟩
    · rintro ⟨hc, hg, hrest⟩
      obtain ⟨view, hview, henough⟩ := mem_attempted.mp hg
      exact ⟨(id.localId, view), SortedMap.get?_eq_some.mp hview, henough, hc,
        List.mem_singleton_self _, hrest⟩

theorem rebuildGroups_fails (hg : g ∈ attempted input e) {len : UInt64}
    (hlen : e.lengths.get? g = some len) (hnot : ¬GroupOk isal F input e g) (t : Target) :
    ∃ a t', rebuildGroups isal F input e t = .error a t' := by
  obtain ⟨view, hview, henough⟩ := mem_attempted.mp hg
  exact foldlM_fails (x := (g, view)) (fun b t => rebuildGroup_fails hview hlen henough hnot b t)
    (SortedMap.get?_eq_some.mp hview) [] t

end Groups

end OzoneRust
