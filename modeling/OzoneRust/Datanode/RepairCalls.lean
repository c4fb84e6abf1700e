import OzoneRust.Datanode.Reconstruct
import OzoneRust.Datanode.Stores

/-!
# Repair, call by call

`reconstruct_from_survivors` again, now as a program over the single calls it makes on the
local stores. `OzoneRust.reconstructFromSurvivors` says what it does when nobody else is
around and a fault is one of a block; here any call may fail, at any place, and the calls of
others may come between. What the survivors told is known before the first local call, so it
is the same in both.

The two agree: every run of the former is a run of the program
(`OzoneRust.Repair.simulates_reconstruct`).
-/

namespace OzoneRust

namespace Repair

/-- A computation of the repair. -/
abbrev RepairP := Prog storeCalls RepairError

/-! ### The program -/

/-- `rollback_created`: both deletions are tried, and no failure is surfaced. -/
def rollbackCreated (id : ContainerId) : RepairP Unit := do
  let _ ← Prog.perform (C := storeCalls) (.deleteContainer id)
  let _ ← Prog.perform (C := storeCalls) (.deleteChunks id)

/-- One missing slot of a group: its bytes, then its block record. -/
def persistSlot (input : ReconstructInput) (loc len : UInt64) (encoded : EncodedShards)
    (slot : UInt8) : RepairP Unit :=
  if slot = 0 ∨ input.total < slot.toNat then pure ()
  else do
    let shard ← Prog.lift ((encodedSlot input.ec.data.toNat encoded slot).mapErr .ec)
    let cd ← Prog.lift (.ofExcept .checksum (Checksum.compute shard input.ec.ecChunkSize .crc32c))
    let id : BlockId := ⟨input.container, loc, slot⟩
    (StoreOp.writeChunk id "0" shard).call .storage
    let bd := { BlockData.new id with chunks := [rebuiltChunk shard cd] }
    let _ ← (StoreOp.putBlock (bd.setBlockGroupLen len)).call .storage

/-- One group of `rebuild_groups`, with the groups rebuilt so far. -/
def rebuildGroup (isal : IsaL) (input : ReconstructInput) (lengths : SortedMap UInt64 UInt64)
    (rebuilt : List UInt64) (group : UInt64 × List (Option Bytes)) : RepairP (List UInt64) :=
  match lengths.get? group.1 with
  | none => pure rebuilt
  | some len =>
    if group.2.countP Option.isSome < input.ec.data.toNat then pure rebuilt
    else do
      let object ← Prog.lift ((decodeObject isal input.ec.profile len.toNat group.2).mapErr .ec)
      let encoded ← Prog.lift ((encodeObject isal input.ec.profile object).mapErr .ec)
      input.missingSlots.foldlM (fun _ => persistSlot input group.1 len encoded) ()
      return rebuilt ++ [group.1]

/-- `rebuild_groups`. -/
def rebuildGroups (isal : IsaL) (input : ReconstructInput) (e : Enumeration) :
    RepairP (List UInt64) :=
  e.shards.entries.foldlM (rebuildGroup isal input e.lengths) []

/-- What is done with the container found at the target: it is used, or created. -/
def provisionFound (input : ReconstructInput) : Option ContainerInfo → RepairP Provision
  | some ci =>
    if ci.state = .closed then return .finished
    else if ci.state.isWritable then return .existing
    else .done (.err (.containerNotWritable input.container ci.state))
  | none => do
    (StoreOp.createContainer (.newOpen input.container input.ec)).call .storage
    return .created

/-- The target container is found or created. -/
def provision (input : ReconstructInput) : RepairP Provision := do
  provisionFound input (← (StoreOp.getContainer input.container).call .storage)

/-- The end of a rebuild into a container that was created: it is closed, or taken back if it
is empty. -/
def finishCreated (input : ReconstructInput) (rebuilt : List UInt64) : RepairP (List UInt64) :=
  if rebuilt = [] then do
    rollbackCreated input.container
    return []
  else do
    (StoreOp.setContainerState input.container .closed).call .storage
    return rebuilt

/-- The rebuild into a container that was created: it is taken back on an error. -/
def rebuildCreated (isal : IsaL) (input : ReconstructInput) (e : Enumeration) :
    RepairP (List UInt64) := do
  match ← (rebuildGroups isal input e).attempt with
  | .ok rebuilt => finishCreated input rebuilt
  | .error err => do
    rollbackCreated input.container
    .done (.err err)

/-- What follows the enumeration of the survivors. -/
def reconstructFrom (isal : IsaL) (input : ReconstructInput) (e : Enumeration) :
    RepairP (List UInt64) :=
  if e.shards.entries = [] then pure []
  else do
    match ← provision input with
    | .finished => return []
    | .existing => rebuildGroups isal input e
    | .created => rebuildCreated isal input e

/-- `reconstruct_from_survivors`: the groups rebuilt. -/
def reconstructFromSurvivors (isal : IsaL) (net : String → Peer) (input : ReconstructInput) :
    RepairP (List UInt64) :=
  reconstructFrom isal input (enumerate net input)

/-! ### Agreement -/

/-- The calls that fail. -/
def fails (F : LocalFaults) : StoreOp → Option StorageError
  | .getContainer _ => F.getContainer
  | .createContainer _ => F.createContainer
  | .setContainerState _ _ => F.setContainerState
  | .deleteContainer _ => F.deleteContainer
  | .deleteChunks _ => F.deleteChunks
  | .writeChunk b _ _ => F.writeChunk b
  | .putBlock block => F.putBlock block.blockId
  | _ => none

/-- The calls may fail that do. -/
def mayFail (F : LocalFaults) (op : StoreOp) : Prop := (fails F op).isSome

/-- How a run of the repair ends. -/
def ending {α : Type} : EStateM.Result Abort Target α → Outcome RepairError α
  | .ok a _ => .ok a
  | .error (.err e) _ => .err e
  | .error .panic _ => .panic

/-- The stores a run of the repair leaves. -/
def leaves {α : Type} : EStateM.Result Abort Target α → Target
  | .ok _ t => t
  | .error _ t => t

/-- The program has the run that the computation is. -/
def Simulates {α : Type} (F : LocalFaults) (x : RepairM α) (p : RepairP α) : Prop :=
  ∀ t, p.Ends (StoreOp.Answers (mayFail F)) t (ending (x t)) (leaves (x t))

section Simulates

variable {F : LocalFaults} {α β σ : Type} {x : RepairM α} {p : RepairP α} {isal : IsaL}
  {input : ReconstructInput}

theorem Simulates.pure (a : α) : Simulates F (pure a) (pure a) := fun _ => ⟨rfl, rfl⟩

theorem Simulates.bind (hx : Simulates F x p) {f : α → RepairM β} {g : α → RepairP β}
    (hf : ∀ a, Simulates F (f a) (g a)) : Simulates F (x >>= f) (p >>= g) := by
  intro t
  have hp := hx t
  cases hrun : x t with
  | ok a t₁ =>
    rw [hrun] at hp
    rw [RepairM.bind_ok hrun]
    exact hp.bind (hf a t₁)
  | error abort t₁ =>
    rw [hrun] at hp
    rw [RepairM.bind_error hrun]
    cases abort with
    | err e => exact hp.bind_err
    | panic => exact hp.bind_panic

theorem Simulates.foldlM {f : σ → β → RepairM σ} {g : σ → β → RepairP σ}
    (h : ∀ s b, Simulates F (f s b) (g s b)) :
    ∀ (l : List β) (s : σ), Simulates F (l.foldlM f s) (l.foldlM g s)
  | [], s => .pure s
  | b :: l, s => by
    rw [List.foldlM_cons, List.foldlM_cons]
    exact (h s b).bind fun s => Simulates.foldlM h l s

theorem Simulates.lift {ε : Type} (f : ε → RepairError) (o : Outcome ε α) :
    Simulates F (RepairM.ofOutcome f o) (Prog.lift (o.mapErr f)) := by
  cases o <;> exact fun _ => ⟨rfl, rfl⟩

theorem Simulates.throw (e : RepairError) :
    Simulates F (throw (.err e) : RepairM α) (.done (.err e)) := fun _ => ⟨rfl, rfl⟩

theorem Simulates.ite {P : Prop} [Decidable P] {y : RepairM α} {q : RepairP α}
    (hx : Simulates F x p) (hy : Simulates F y q) :
    Simulates F (if P then x else y) (if P then p else q) := by
  split
  · exact hx
  · exact hy

/-- A call that fails or does its work on the metadata. -/
theorem Simulates.call (op : StoreOp) (f : MetaStore → Except StorageError (op.Val × MetaStore))
    (hexec : ∀ t, op.exec t = t.onMeta (f t.store)) (hleaves : ∀ t, op.Leaves t t)
    {k : op.Val → RepairM β} {g : op.Val → RepairP β} (hk : ∀ a, Simulates F (k a) (g a)) :
    Simulates F (do RepairM.fault (fails F op); k (← RepairM.onStore f))
      (op.call .storage >>= g) := by
  rw [← bind_assoc]
  refine Simulates.bind (fun t => ?_) hk
  cases hfault : fails F op with
  | some e =>
    exact ⟨.error e, t, .inr ⟨by rw [mayFail, hfault]; rfl, ⟨e, rfl⟩, hleaves t⟩, rfl, rfl⟩
  | none =>
    rw [RepairM.bind_ok (x := RepairM.fault none) rfl]
    refine ⟨(op.exec t).1, (op.exec t).2, .inl ⟨rfl, rfl⟩, ?_⟩
    rw [hexec t]
    cases hf : f t.store with
    | error e =>
      rw [RepairM.onStore_error hf]
      exact ⟨rfl, rfl⟩
    | ok a =>
      rw [RepairM.onStore_ok hf]
      exact ⟨rfl, rfl⟩

theorem simulates_writeChunk (b : BlockId) (data : Bytes) {x : RepairM β} {p : RepairP β}
    (hx : Simulates F x p) :
    Simulates F (do RepairM.fault (F.writeChunk b); RepairM.writeChunk b "0" data; x)
      (do (StoreOp.writeChunk b "0" data).call .storage; p) := by
  rw [← bind_assoc]
  refine Simulates.bind (fun t => ?_) fun _ => hx
  cases hfault : F.writeChunk b with
  | some e =>
    exact ⟨.error e, t, .inr ⟨by rw [mayFail, fails, hfault]; rfl, ⟨e, rfl⟩, rfl⟩, rfl, rfl⟩
  | none => exact ⟨.ok (), t.setChunk b "0" (some data), .inl ⟨rfl, rfl⟩, rfl, rfl⟩

/-- A call that fails and leaves all as it is, or does its work. -/
theorem answers_fails (op : StoreOp) {t : Target} (hleaves : op.Leaves t t) :
    ∃ r, StoreOp.Answers (mayFail F) t op r (if (fails F op).isSome then t else (op.exec t).2) := by
  cases hfault : fails F op with
  | some e => exact ⟨.error e, .inr ⟨by rw [mayFail, hfault]; rfl, ⟨e, rfl⟩, hleaves⟩⟩
  | none => exact ⟨_, .inl ⟨rfl, rfl⟩⟩

theorem simulates_rollbackCreated (id : ContainerId) :
    Simulates F (OzoneRust.rollbackCreated F id) (rollbackCreated id) := by
  intro t
  obtain ⟨r, hr⟩ := answers_fails (F := F) (.deleteContainer id) (t := t) rfl
  obtain ⟨r', hr'⟩ := answers_fails (F := F) (.deleteChunks id) ⟨rfl, fun _ _ => .inl rfl⟩
  refine ⟨r, _, hr, r', _, hr', rfl, ?_⟩
  clear hr hr'
  obtain ⟨-, -, -, deleteContainer, deleteChunks, -, -⟩ := F
  cases deleteContainer <;> cases deleteChunks <;> rfl

theorem simulates_persistSlot (loc len : UInt64) (encoded : EncodedShards) (slot : UInt8) :
    Simulates F (OzoneRust.persistSlot F input loc len encoded slot)
      (persistSlot input loc len encoded slot) := by
  unfold OzoneRust.persistSlot persistSlot
  refine .ite (.pure ()) ((Simulates.lift .ec _).bind fun shard => ?_)
  rw [compute_rebuiltDigests]
  exact simulates_writeChunk _ shard (Simulates.call
    (.putBlock (rebuiltBlock input ⟨input.container, loc, slot⟩ len shard))
    (fun s => s.putBlock (rebuiltBlock input ⟨input.container, loc, slot⟩ len shard))
    (fun _ => rfl) (fun _ => rfl) fun _ => .pure ())

theorem simulates_rebuildGroup (lengths : SortedMap UInt64 UInt64) (rebuilt : List UInt64)
    (group : UInt64 × List (Option Bytes)) :
    Simulates F (OzoneRust.rebuildGroup isal F input lengths rebuilt group)
      (rebuildGroup isal input lengths rebuilt group) := by
  unfold OzoneRust.rebuildGroup rebuildGroup
  cases lengths.get? group.1 with
  | none => exact .pure rebuilt
  | some len =>
    refine .ite (.pure rebuilt) ((Simulates.lift .ec _).bind fun object =>
      (Simulates.lift .ec _).bind fun encoded => ?_)
    exact (Simulates.foldlM
      (fun _ slot => simulates_persistSlot group.1 len encoded slot) _ ()).bind fun _ => .pure _

theorem simulates_rebuildGroups (e : Enumeration) :
    Simulates F (OzoneRust.rebuildGroups isal F input e) (rebuildGroups isal input e) :=
  Simulates.foldlM (fun rebuilt group => simulates_rebuildGroup e.lengths rebuilt group) _ []

theorem simulates_provision : Simulates F (OzoneRust.provision F input) (provision input) := by
  intro t
  unfold OzoneRust.provision
  cases hfault : F.getContainer with
  | some e =>
    exact ⟨.error e, t, .inr ⟨by rw [mayFail, fails, hfault]; rfl, ⟨e, rfl⟩, rfl⟩, rfl, rfl⟩
  | none =>
    rw [RepairM.bind_ok (x := RepairM.fault none) rfl, RepairM.bind_ok (x := get) rfl]
    refine ⟨.ok (t.store.getContainer input.container), t, .inl ⟨rfl, rfl⟩, ?_⟩
    cases t.store.getContainer input.container with
    | some ci => exact (Simulates.ite (.pure _) (.ite (.pure _) (.throw _))) t
    | none =>
      exact Simulates.call (.createContainer (.newOpen input.container input.ec))
        (fun s => s.createContainer (.newOpen input.container input.ec)) (fun _ => rfl)
        (fun _ => rfl) (fun _ => .pure _) t

theorem simulates_finishCreated (rebuilt : List UInt64) :
    Simulates F (OzoneRust.finishCreated F input rebuilt) (finishCreated input rebuilt) := by
  refine .ite ((simulates_rollbackCreated _).bind fun _ => .pure _) ?_
  exact Simulates.call (.setContainerState input.container .closed)
    (fun s => s.setContainerState input.container .closed) (fun _ => rfl) (fun _ => rfl)
    fun _ => .pure _

theorem simulates_rebuildCreated (e : Enumeration) :
    Simulates F (do
      let rebuilt ← orElse (OzoneRust.rebuildGroups isal F input e)
        (OzoneRust.rollbackCreated F input.container)
      OzoneRust.finishCreated F input rebuilt) (rebuildCreated isal input e) := by
  intro t
  have hrebuild : (rebuildGroups isal input e).attempt.Ends (StoreOp.Answers (mayFail F)) t
      (Outcome.attempt (ending (OzoneRust.rebuildGroups isal F input e t)) : Outcome RepairError _)
      (leaves (OzoneRust.rebuildGroups isal F input e t)) := (simulates_rebuildGroups e t).attempt
  cases hrun : OzoneRust.rebuildGroups isal F input e t with
  | ok rebuilt t₁ =>
    rw [hrun] at hrebuild
    rw [RepairM.bind_ok (orElse_of_ok hrun)]
    exact hrebuild.bind (simulates_finishCreated rebuilt t₁)
  | error abort t₁ =>
    rw [hrun] at hrebuild
    cases abort with
    | err err =>
      obtain ⟨t₂, hroll, -⟩ := rollbackCreated_state (F := F) (t := t₁) input.container
      have hends := simulates_rollbackCreated (F := F) input.container t₁
      rw [hroll] at hends
      rw [RepairM.bind_error (orElse_of_err hrun hroll)]
      exact hrebuild.bind (hends.bind ⟨rfl, rfl⟩)
    | panic =>
      rw [RepairM.bind_error (orElse_of_panic hrun)]
      exact hrebuild.bind_panic

/-- **Every run of the repair is a run of the program.** -/
theorem simulates_reconstruct (net : String → Peer) :
    Simulates F (OzoneRust.reconstructFromSurvivors isal F net input)
      (reconstructFromSurvivors isal net input) := by
  refine .ite (.pure []) (simulates_provision.bind fun found => ?_)
  cases found with
  | finished => exact .pure []
  | existing => exact simulates_rebuildGroups _
  | created => exact simulates_rebuildCreated _

/-- A run of the repair without failures is a run of the program, whatever may fail. -/
theorem Simulates.ends_none {x : RepairM α} {p : RepairP α} (h : Simulates .none x p)
    (may : StoreOp → Prop) {t : Target} :
    p.Ends (StoreOp.Answers may) t (ending (x t)) (leaves (x t)) :=
  (h t).mono fun _ _ _ _ ha =>
    StoreOp.Answers.mono (fun op hfail => by cases op <;> cases hfail) ha

/-- Without failures, the program does what the repair does. -/
theorem ends_never (isal : IsaL) (net : String → Peer) (input : ReconstructInput) (t : Target) :
    (reconstructFromSurvivors isal net input).Ends (StoreOp.Answers StoreOp.never) t
      (ending (OzoneRust.reconstructFromSurvivors isal .none net input t))
      (leaves (OzoneRust.reconstructFromSurvivors isal .none net input t)) :=
  (simulates_reconstruct net).ends_none StoreOp.never

end Simulates

end Repair

end OzoneRust
