import OzoneRust.Datanode.OnDisk
import OzoneRust.Datanode.RepairCalls
import OzoneRust.Ec.Reference

/-!
# What a failed reconstruction leaves

A reconstruction can fail at any of its calls, and what it leaves depends on who made the
container. `OzoneRust.reconstruct_fault_atomic` says it for every run, wherever it fails:

* no other container is touched, ever;
* a container that was open before is open afterwards, and only the blocks that were to be
  rebuilt can differ;
* of a container that was absent nothing is left if the rebuild fails and the two deletions
  of the rollback do not; and it does fail if one of its calls does
  (`OzoneRust.Repair.Strict`, `OzoneRust.StoreOp.Flagged`) or a group cannot be rebuilt.

The argument is by the calls a program makes (`OzoneRust.Prog.Makes`): a rebuild only writes
chunks and records of missing slots (`OzoneRust.Repair.makes_rebuildGroups`), and a
reconstruction only makes calls about its container (`OzoneRust.Repair.makes_reconstruct`).
-/

namespace OzoneRust

/-- A step of the rebuild that can fail: a chunk is written or a block put. -/
def StoreOp.IsRebuildStep : StoreOp → Prop
  | .writeChunk _ _ _ => True
  | .putBlock _ => True
  | _ => False

/-- The answers of the stores, with a flag that is set where such a step fails. -/
def StoreOp.Flagged (may : StoreOp → Prop) (s : Target × Bool) (op : StoreOp)
    (r : Except StorageError op.Val) (s' : Target × Bool) : Prop :=
  op.Answers may s.1 r s'.1 ∧ (s'.2 = true ↔ s.2 = true ∨ op.IsRebuildStep ∧ ∃ e, r = .error e)

section Flagged

variable {ε α : Type} {may : StoreOp → Prop}

theorem StoreOp.ends_of_flagged {o : Outcome ε α} {s' : Target × Bool} :
    ∀ {p : Prog storeCalls ε α} {s : Target × Bool}, p.Ends (StoreOp.Flagged may) s o s' →
      p.Ends (StoreOp.Answers may) s.1 o s'.1
  | .done _, _, ⟨ho, hs⟩ => ⟨ho, congrArg Prod.fst hs⟩
  | .call _ _, _, ⟨r, s₁, hans, h⟩ => ⟨r, s₁.1, hans.1, ends_of_flagged h⟩

/-- Other calls leave the flag. -/
theorem StoreOp.flag_of_makes {p : Prog storeCalls ε α} {o : Outcome ε α} {s s' : Target × Bool}
    (hp : p.Makes fun op : StoreOp => ¬op.IsRebuildStep) (h : p.Ends (StoreOp.Flagged may) s o s') :
    s'.2 = s.2 := by
  refine Prog.Ends.of_makes (F := fun s₁ : Target × Bool => s₁.2 = s.2) ?_ hp h rfl
  rintro s₁ op r s₂ hop hflag ⟨-, hiff⟩
  rw [← hflag, Bool.eq_iff_iff, hiff]
  exact or_iff_left fun hstep => hop hstep.1

end Flagged

namespace Repair

/-! ### Programs that stop at the first error -/

/-- A call that fails ends the program with an error. -/
def Strict {ε α : Type} : Prog storeCalls ε α → Prop
  | .done _ => True
  | .call _ next => (∀ e, ∃ e', next (.error e) = .done (.err e')) ∧ ∀ r, Strict (next r)

section Strict

variable {ε α β σ : Type}

theorem Strict.bind {f : α → Prog storeCalls ε β} : ∀ {p : Prog storeCalls ε α}, Strict p →
    (∀ a, Strict (f a)) → Strict (p >>= f)
  | .done (.ok a), _, hf => hf a
  | .done (.err _), _, _ => trivial
  | .done .panic, _, _ => trivial
  | .call _ next, hp, hf => by
    refine ⟨fun e => ?_, fun r => (hp.2 r).bind hf⟩
    obtain ⟨e', he'⟩ := hp.1 e
    exact ⟨e', congrArg (Prog.bind · f) he'⟩

theorem strict_call (f : StorageError → ε) (op : StoreOp) : Strict (op.call f) :=
  ⟨fun e => ⟨f e, rfl⟩, fun _ => trivial⟩

theorem strict_foldlM {f : σ → β → Prog storeCalls ε σ} (hf : ∀ s b, Strict (f s b)) :
    ∀ (l : List β) (s : σ), Strict (l.foldlM f s)
  | [], _ => trivial
  | b :: l, s => by
    rw [List.foldlM_cons]
    exact (hf s b).bind fun s => strict_foldlM hf l s

/-- A strict program that returns has met no failure. -/
theorem Strict.ends_never {may : StoreOp → Prop} {a : α} {t' : Target} :
    ∀ {p : Prog storeCalls ε α} {t : Target}, Strict p →
    p.Ends (StoreOp.Answers may) t (.ok a) t' →
    p.Ends (StoreOp.Answers StoreOp.never) t (.ok a) t'
  | .done _, _, _, h => h
  | .call op next, t, hp, ⟨r, t₁, ha, h⟩ => by
    rcases ha with hexec | ⟨-, ⟨e, rfl⟩, -⟩
    · exact ⟨r, t₁, .inl hexec, (hp.2 r).ends_never h⟩
    · obtain ⟨e', he'⟩ := hp.1 e
      rw [he'] at h
      cases h.1

/-- A strict program in which a step fails ends with an error. -/
theorem Strict.err_of_flag {may : StoreOp → Prop} {o : Outcome ε α} {t' : Target} :
    ∀ {p : Prog storeCalls ε α} {t : Target}, Strict p →
    p.Ends (StoreOp.Flagged may) (t, false) o (t', true) → ∃ e, o = .err e
  | .done _, _, _, h => by cases h.2
  | .call op next, t, hp, ⟨r, ⟨t₁, flag⟩, hans, h⟩ => by
    have hflag := hans.2
    rcases r with e | a
    · obtain ⟨e', he'⟩ := hp.1 e
      rw [he'] at h
      exact ⟨e', h.1⟩
    · have hnone : flag = false := by
        rw [← Bool.not_eq_true, hflag]
        rintro (hset | ⟨-, _, hr⟩)
        · cases hset
        · cases hr
      subst hnone
      exact (hp.2 _).err_of_flag h

theorem strict_rebuildGroups {isal : IsaL} {input : ReconstructInput} {e : Enumeration} :
    Strict (rebuildGroups isal input e) := by
  refine strict_foldlM (fun rebuilt group => ?_) _ _
  unfold rebuildGroup
  split
  · trivial
  · split
    · trivial
    · refine Strict.bind trivial fun object => Strict.bind trivial fun encoded => ?_
      refine Strict.bind (strict_foldlM (fun _ slot => ?_) _ _) fun _ => trivial
      unfold persistSlot
      split
      · trivial
      · refine Strict.bind trivial fun shard => Strict.bind trivial fun cd => ?_
        exact (strict_call _ _).bind fun _ => (strict_call _ _).bind fun _ => trivial

theorem strict_provision {input : ReconstructInput} : Strict (provision input) := by
  refine (strict_call _ _).bind fun found => ?_
  cases found with
  | some ci =>
    rw [provisionFound]
    split
    · trivial
    · split <;> trivial
  | none => exact (strict_call _ _).bind fun _ => trivial

end Strict

/-! ### The calls of a reconstruction -/

/-- A block the reconstruction may write: a missing slot of a group of which a shard was
read. -/
def IsMissing (input : ReconstructInput) (e : Enumeration) (b : BlockId) : Prop :=
  b.container = input.container ∧ b.localId ∈ e.shards.entries.map Prod.fst ∧
    b.replicaIndex ∈ input.missingSlots

/-- A block the reconstruction writes: such a block, with a slot the group has. -/
def IsRebuilt (input : ReconstructInput) (e : Enumeration) (b : BlockId) : Prop :=
  IsMissing input e b ∧ input.InRange b.replicaIndex

/-- The calls of a rebuild. -/
def Rebuilds (input : ReconstructInput) (e : Enumeration) : StoreOp → Prop
  | .writeChunk b name _ => name = "0" ∧ IsRebuilt input e b
  | .putBlock block => IsRebuilt input e block.blockId
  | _ => False

section Calls

variable {isal : IsaL} {input : ReconstructInput} {e : Enumeration}

theorem makes_persistSlot {loc len : UInt64} {encoded : EncodedShards} {slot : UInt8}
    (hloc : loc ∈ e.shards.entries.map Prod.fst) (hslot : slot ∈ input.missingSlots) :
    (persistSlot input loc len encoded slot).Makes (Rebuilds input e) := by
  unfold persistSlot
  split
  · trivial
  · rename_i hrange
    rw [not_or, not_lt] at hrange
    refine Prog.Makes.bind trivial fun shard => Prog.Makes.bind trivial fun cd => ?_
    exact makes_call_bind (by exact ⟨rfl, ⟨rfl, hloc, hslot⟩, hrange⟩) fun _ =>
      makes_call_bind (by exact ⟨⟨rfl, hloc, hslot⟩, hrange⟩) fun _ => trivial

theorem makes_rebuildGroups : (rebuildGroups isal input e).Makes (Rebuilds input e) := by
  refine Prog.makes_foldlM (fun group hgroup rebuilt => ?_) []
  unfold rebuildGroup
  split
  · trivial
  · split
    · trivial
    · refine Prog.Makes.bind trivial fun object => Prog.Makes.bind trivial fun encoded => ?_
      refine Prog.Makes.bind ?_ fun _ => trivial
      exact Prog.makes_foldlM
        (fun slot hslot _ => makes_persistSlot (List.mem_map_of_mem hgroup) hslot) ()

/-- A call about a container that looks at the metadata only, and whose chunk has a plain name. -/
def Repairs (c : ContainerId) (op : StoreOp) : Prop := op.About c ∧ op.MetaOnly ∧ op.Plain

theorem repairs_of_rebuilds {op : StoreOp} (h : Rebuilds input e op) :
    Repairs input.container op := by
  cases op with
  | writeChunk b name data =>
    have hplain : PlainName name := h.1 ▸ plainName_zero
    exact ⟨congrArg some h.2.1.1, trivial, hplain⟩
  | putBlock block => exact ⟨congrArg some h.1.1, trivial, trivial⟩
  | _ => exact h.elim

theorem makes_rollbackCreated (c : ContainerId) : (rollbackCreated c).Makes (Repairs c) :=
  ⟨⟨rfl, trivial, trivial⟩, fun _ => ⟨⟨rfl, trivial, trivial⟩, fun _ => trivial⟩⟩

theorem makes_provision : (provision input).Makes (Repairs input.container) := by
  refine makes_call_bind (by exact ⟨rfl, trivial, trivial⟩) fun found => ?_
  cases found with
  | some ci =>
    rw [provisionFound]
    split
    · trivial
    · split <;> trivial
  | none => exact makes_call_bind (by exact ⟨rfl, trivial, trivial⟩) fun _ => trivial

theorem makes_rebuildCreated : (rebuildCreated isal input e).Makes (Repairs input.container) := by
  refine (makes_rebuildGroups.mono fun _ => repairs_of_rebuilds).attempt.bind fun result => ?_
  cases result with
  | error err => exact (makes_rollbackCreated _).bind fun _ => trivial
  | ok rebuilt =>
    dsimp only
    unfold finishCreated
    split
    · exact (makes_rollbackCreated _).bind fun _ => trivial
    · exact makes_call_bind (by exact ⟨rfl, trivial, trivial⟩) fun _ => trivial

/-- **A reconstruction only makes calls about its container**, reads no chunk, and names its
chunks plainly. -/
theorem makes_reconstruct (net : String → Peer) :
    (reconstructFromSurvivors isal net input).Makes (Repairs input.container) := by
  unfold reconstructFromSurvivors reconstructFrom
  split
  · trivial
  · refine makes_provision.bind fun found => ?_
    cases found with
    | finished => trivial
    | existing => exact makes_rebuildGroups.mono fun _ => repairs_of_rebuilds
    | created => exact makes_rebuildCreated

end Calls

/-! ### The rebuild -/

/-- What a rebuild in a container may have done: the container is open as before, and only
blocks that were to be rebuilt differ. -/
structure Healed (input : ReconstructInput) (e : Enumeration) (h h' : Holdings) : Prop where
  /-- The container is open. -/
  isOpen : ∃ record, h'.record input.container = some record ∧ record.info.state = .open
  /-- The records. -/
  block : ∀ b, ¬IsMissing input e b → h'.block b = h.block b
  /-- The chunks. -/
  chunk : ∀ b, ¬IsMissing input e b → h'.chunk b = h.chunk b

section Rebuild

variable {isal : IsaL} {input : ReconstructInput} {e : Enumeration} {may : StoreOp → Prop}
  {t t' : Target}

theorem Healed.act {h₀ h : Holdings} {op : StoreOp} (hop : Rebuilds input e op)
    (hh : Healed input e h₀ h) : Healed input e h₀ (op.act h) := by
  cases op with
  | writeChunk b name data =>
    refine ⟨hh.isOpen, hh.block, fun b' hb' => ?_⟩
    have hne : b' ≠ b := fun heq => hb' (heq ▸ hop.2.1)
    exact (Function.update_of_ne hne _ _).trans (hh.chunk b' hb')
  | putBlock block =>
    obtain ⟨record, hrecord, hopen⟩ := hh.isOpen
    rw [← hop.1.1] at hrecord
    rw [StoreOp.act_putBlock hrecord hopen]
    refine ⟨?_, fun b hb => ?_, hh.chunk⟩
    · rw [← hop.1.1]
      exact ⟨_, Function.update_self .., (countPut_state ..).trans hopen⟩
    · have hne : b ≠ block.blockId := fun heq => hb (heq ▸ hop.1)
      exact (Function.update_of_ne hne _ _).trans (hh.block b hb)
  | _ => exact hop.elim

/-- **Wherever a rebuild stops**, it has only written what was to be rebuilt. -/
theorem healed_of_ends {o : Outcome RepairError (List UInt64)} {h₀ : Holdings}
    (h : (rebuildGroups isal input e).Ends (StoreOp.Answers may) t o t')
    (hh : Healed input e h₀ t.holdings) : Healed input e h₀ t'.holdings := by
  refine Prog.Ends.of_makes (F := fun t => Healed input e h₀ t.holdings) ?_ makes_rebuildGroups h hh
  intro t op r t' hop hh ha
  rcases StoreOp.Answers.holdings ha with hact | ⟨-, -, rfl | ⟨id, rfl, -⟩⟩
  · rw [hact]
    exact hh.act hop
  · exact hh
  · exact hop.elim

end Rebuild

/-! ### The parts of a run -/

section Parts

variable {isal : IsaL} {input : ReconstructInput} {e : Enumeration} {may : StoreOp → Prop}
  {t t' : Target}

/-- The holdings after the container was created. -/
def created (input : ReconstructInput) (h : Holdings) : Holdings :=
  h.setRecord input.container (some ⟨.newOpen input.container input.ec, 0⟩)

theorem healed_created (h : Holdings) : Healed input e h (created input h) :=
  ⟨⟨_, Function.update_self .., rfl⟩, fun _ _ => rfl, fun _ _ => rfl⟩

theorem healed_refl (hopen : t.state input.container = some .open) :
    Healed input e t.holdings t.holdings :=
  ⟨isOpen_iff.mpr hopen, fun _ _ => rfl, fun _ _ => rfl⟩

/-- **What is found or created**, and why not. -/
theorem provision_ends {o : Outcome RepairError Provision}
    (h : (provision input).Ends (StoreOp.Answers may) t o t') :
    (∃ err, o = .err err ∧ t' = t ∧ (may (.getContainer input.container) ∨
        may (.createContainer (.newOpen input.container input.ec)) ∨
        t.state input.container ≠ none)) ∨
    (o = .ok .finished ∧ t' = t ∧ t.state input.container = some .closed) ∨
    (o = .ok .existing ∧ t' = t ∧ t.state input.container = some .open) ∨
    (o = .ok .created ∧ t.state input.container = none ∧
      t'.holdings = created input t.holdings) := by
  obtain ⟨found, t₁, hfound, h⟩ := h
  rcases hfound with ⟨rfl, rfl⟩ | ⟨hmay, ⟨err, rfl⟩, rfl⟩
  · have hp : (provisionFound input (t₁.store.getContainer input.container)).Ends
        (StoreOp.Answers may) t₁ o t' := h
    rw [Target.state]
    cases hci : t₁.store.getContainer input.container with
    | some ci =>
      rw [hci, provisionFound] at hp
      split at hp
      case isTrue hclosed => exact .inr (.inl ⟨hp.1, hp.2, congrArg some hclosed⟩)
      case isFalse =>
        split at hp
        case isTrue hopen =>
          have hopen : ci.state = .open := by
            cases hstate : ci.state <;> rw [hstate] at hopen <;> first | rfl | cases hopen
          exact .inr (.inr (.inl ⟨hp.1, hp.2, congrArg some hopen⟩))
        case isFalse => exact .inl ⟨_, hp.1, hp.2, .inr (.inr (by simp))⟩
    | none =>
      have habsent : t₁.holdings.record input.container = none := Option.map_eq_none_iff.mp hci
      rw [hci] at hp
      obtain ⟨r, t₂, ⟨hr, ht₂⟩ | ⟨hmay, ⟨err, rfl⟩, rfl⟩, hp⟩ := hp
      · rw [StoreOp.exec_createContainer habsent] at hr
        rw [hr] at hp
        refine .inr (.inr (.inr ⟨hp.1, rfl, ?_⟩))
        rw [hp.2, ht₂, StoreOp.holdings_exec, StoreOp.act_createContainer habsent]
        rfl
      · exact .inl ⟨_, hp.1, hp.2, .inr (.inl hmay)⟩
  · exact .inl ⟨_, h.1, h.2, .inl hmay⟩

/-- **What a rollback leaves** where its deletions may not fail. -/
theorem rollbackCreated_ends {c : ContainerId} {o : Outcome RepairError Unit}
    (h : (rollbackCreated c).Ends (StoreOp.Answers may) t o t')
    (hcontainer : ¬may (.deleteContainer c)) (hchunks : ¬may (.deleteChunks c)) :
    o = .ok () ∧ t'.holdings = (t.holdings.dropContainer c).dropChunks c := by
  obtain ⟨r, t₁, h₁, r', t₂, h₂, ho, ht'⟩ := h
  refine ⟨ho, ?_⟩
  rw [ht', (h₂.exec hchunks).2, StoreOp.holdings_exec, (h₁.exec hcontainer).2,
    StoreOp.holdings_exec]
  rfl

/-- A container that was rebuilt is closed, where that call may not fail. -/
theorem finishCreated_ends {rebuilt : List UInt64} {o : Outcome RepairError (List UInt64)}
    (h : (finishCreated input rebuilt).Ends (StoreOp.Answers may) t o t')
    (hset : ¬may (.setContainerState input.container .closed)) {record : StoredContainer}
    (hrecord : t.holdings.record input.container = some record) : o = .ok rebuilt := by
  unfold finishCreated at h
  split at h
  case isTrue hnil =>
    obtain ⟨_, _, _, _, _, _, ho, -⟩ := h
    rw [ho, hnil]
  case isFalse =>
    obtain ⟨r, t₁, h₁, h⟩ := h
    rw [(h₁.exec hset).1, StoreOp.exec_setContainerState hrecord] at h
    exact h.1

/-! ### The whole -/

variable {net : String → Peer} {o : Outcome RepairError (List UInt64)}

theorem agreeOff_of_ends
    (h : (reconstructFromSurvivors isal net input).Ends (StoreOp.Answers may) t o t') :
    Holdings.AgreeOff input.container t.holdings t'.holdings := by
  refine Prog.Ends.of_makes
    (F := fun t₁ : Target => Holdings.AgreeOff input.container t.holdings t₁.holdings) ?_
    (makes_reconstruct net) h .refl
  intro t₁ op r t₂ hop hagree ha
  exact hagree.trans (StoreOp.Answers.agreeOff ha hop.1)

theorem healed_of_open (hopen : t.state input.container = some .open)
    (h : (reconstructFromSurvivors isal net input).Ends (StoreOp.Answers may) t o t') :
    Healed input (enumerate net input) t.holdings t'.holdings := by
  have hrefl : Healed input (enumerate net input) t.holdings t.holdings := healed_refl hopen
  unfold reconstructFromSurvivors reconstructFrom at h
  split at h
  case isTrue => exact h.2 ▸ hrefl
  case isFalse =>
    rcases Prog.Ends.cases_bind h with ⟨found, t₁, hfound, h⟩ | ⟨err, -, hfound⟩ | ⟨-, hfound⟩
    · rcases provision_ends hfound with ⟨_, ho, -⟩ | ⟨-, -, hclosed⟩ | ⟨ho, rfl, -⟩ |
        ⟨-, habsent, -⟩
      · cases ho
      · cases hopen.symm.trans hclosed
      · cases ho
        exact healed_of_ends h hrefl
      · cases hopen.symm.trans habsent
    · rcases provision_ends hfound with ⟨_, -, rfl, -⟩ | ⟨ho, -⟩ | ⟨ho, -⟩ | ⟨ho, -⟩
      · exact hrefl
      all_goals cases ho
    · rcases provision_ends hfound with ⟨_, ho, -⟩ | ⟨ho, -⟩ | ⟨ho, -⟩ | ⟨ho, -⟩
      all_goals cases ho

/-- A rebuild into a container that was created, where only steps of the rebuild may fail:
if it fails, the container is taken back. -/
theorem rebuildCreated_err {h₀ : Holdings} (hh : Healed input e h₀ t.holdings)
    (hset : ¬may (.setContainerState input.container .closed))
    (hcontainer : ¬may (.deleteContainer input.container))
    (hchunks : ¬may (.deleteChunks input.container)) {err : RepairError}
    (h : (rebuildCreated isal input e).Ends (StoreOp.Answers may) t (.err err) t') :
    ∃ h₁ : Holdings,
      t'.holdings = (h₁.dropContainer input.container).dropChunks input.container := by
  rcases Prog.Ends.cases_bind h with ⟨result, t₁, hresult, h⟩ | ⟨_, -, hresult⟩ | ⟨ho, -⟩
  · rcases hresult.cases_attempt with ⟨rebuilt, hok, hrebuild⟩ | ⟨_, hok, -⟩ | ⟨hok, -⟩
    · cases hok
      obtain ⟨record, hrecord, -⟩ := (healed_of_ends hrebuild hh).isOpen
      cases finishCreated_ends h hset hrecord
    · cases hok
      rcases Prog.Ends.cases_bind h with ⟨_, t₂, hroll, h⟩ | ⟨_, -, hroll⟩ | ⟨ho, -⟩
      · exact ⟨t₁.holdings, h.2 ▸ (rollbackCreated_ends hroll hcontainer hchunks).2⟩
      · cases (rollbackCreated_ends hroll hcontainer hchunks).1
      · cases ho
    · cases hok
  · rcases hresult.cases_attempt with ⟨_, hok, -⟩ | ⟨_, hok, -⟩ | ⟨hok, -⟩
    all_goals cases hok
  · cases ho

theorem provision_noStep : (provision input).Makes fun op : StoreOp => ¬op.IsRebuildStep := by
  refine makes_call_bind (fun h => h) fun found => ?_
  cases found with
  | some ci =>
    rw [provisionFound]
    split
    · trivial
    · split <;> trivial
  | none => exact makes_call_bind (fun h => h) fun _ => trivial

theorem finishCreated_noStep (rebuilt : List UInt64) :
    (finishCreated input rebuilt).Makes fun op : StoreOp => ¬op.IsRebuildStep := by
  unfold finishCreated
  split
  · exact ⟨fun h => h, fun _ => ⟨fun h => h, fun _ => trivial⟩⟩
  · exact makes_call_bind (fun h => h) fun _ => trivial

/-- **Of a container that was absent nothing is left** if a step of the rebuild fails. -/
theorem dropped_of_absent (habsent : t.state input.container = none)
    (hmay : ∀ op, may op → op.IsRebuildStep) {err : RepairError}
    (h : (reconstructFromSurvivors isal net input).Ends (StoreOp.Answers may) t (.err err) t') :
    ∃ h₁ : Holdings,
      t'.holdings = (h₁.dropContainer input.container).dropChunks input.container := by
  unfold reconstructFromSurvivors reconstructFrom at h
  split at h
  case isTrue => cases h.1
  case isFalse =>
    rcases Prog.Ends.cases_bind h with ⟨found, t₁, hfound, h⟩ | ⟨_, -, hfound⟩ | ⟨ho, -⟩
    · rcases provision_ends hfound with ⟨_, ho, -⟩ | ⟨-, -, hclosed⟩ | ⟨-, -, hopen⟩ | ⟨ho, -, ht₁⟩
      · cases ho
      · cases habsent.symm.trans hclosed
      · cases habsent.symm.trans hopen
      · cases ho
        have hh : Healed input (enumerate net input) t.holdings t₁.holdings :=
          ht₁ ▸ healed_created _
        exact rebuildCreated_err hh (hmay _) (hmay _) (hmay _) h
    · rcases provision_ends hfound with ⟨_, -, -, hget | hcreate | hsome⟩ | ⟨ho, -⟩ | ⟨ho, -⟩ |
        ⟨ho, -⟩
      · exact (hmay _ hget).elim
      · exact (hmay _ hcreate).elim
      · exact absurd habsent hsome
      all_goals cases ho
    · cases ho

/-- **A run in which a step fails** ends with an error. -/
theorem err_of_flag
    (h : (reconstructFromSurvivors isal net input).Ends (StoreOp.Flagged may) (t, false) o
      (t', true)) (hpanic : o ≠ .panic) : ∃ err, o = .err err := by
  unfold reconstructFromSurvivors reconstructFrom at h
  split at h
  case isTrue => cases h.2
  case isFalse =>
    rcases Prog.Ends.cases_bind h with ⟨found, ⟨t₁, flag⟩, hfound, h⟩ | ⟨err, rfl, -⟩ | ⟨rfl, -⟩
    · obtain rfl : flag = false := StoreOp.flag_of_makes provision_noStep hfound
      cases found with
      | finished => cases h.2
      | existing => exact strict_rebuildGroups.err_of_flag h
      | created =>
        rcases Prog.Ends.cases_bind h with ⟨result, ⟨t₂, flag⟩, hresult, h⟩ | ⟨err, rfl, -⟩ |
          ⟨rfl, -⟩
        · rcases hresult.cases_attempt with ⟨rebuilt, hok, hrebuild⟩ | ⟨err, hok, -⟩ | ⟨hok, -⟩
          · cases hok
            obtain rfl : flag = true :=
              (StoreOp.flag_of_makes (finishCreated_noStep rebuilt) h).symm
            obtain ⟨_, ⟨⟩⟩ := strict_rebuildGroups.err_of_flag hrebuild
          · cases hok
            rcases Prog.Ends.cases_bind h with ⟨_, _, -, h⟩ | ⟨err, rfl, -⟩ | ⟨rfl, -⟩
            · exact ⟨err, h.1⟩
            · exact ⟨err, rfl⟩
            · exact absurd rfl hpanic
          · cases hok
        · exact ⟨err, rfl⟩
        · exact absurd rfl hpanic
    · exact ⟨err, rfl⟩
    · exact absurd rfl hpanic

/-- **A run that returns** has rebuilt every group it has tried to. -/
theorem groupOk_of_ends {ids : List UInt64} (habsent : t.state input.container = none)
    (h : (reconstructFromSurvivors isal net input).Ends (StoreOp.Answers may) t (.ok ids) t')
    {g : UInt64} (hg : g ∈ attempted input (enumerate net input)) :
    GroupOk isal .none input (enumerate net input) g := by
  by_contra hnot
  obtain ⟨len, hlen⟩ := exists_length_of_attempted hg
  unfold reconstructFromSurvivors reconstructFrom at h
  split at h
  case isTrue hentries =>
    obtain ⟨view, hview, -⟩ := mem_attempted.mp hg
    have hmem := SortedMap.get?_eq_some.mp hview
    rw [hentries] at hmem
    cases hmem
  case isFalse =>
    rcases Prog.Ends.cases_bind h with ⟨found, t₁, hfound, h⟩ | ⟨_, ⟨⟩, -⟩ | ⟨⟨⟩, -⟩
    rcases provision_ends hfound with ⟨_, ho, -⟩ | ⟨-, -, hclosed⟩ | ⟨-, -, hopen⟩ | ⟨ho, -, -⟩
    · cases ho
    · cases habsent.symm.trans hclosed
    · cases habsent.symm.trans hopen
    · cases ho
      rcases Prog.Ends.cases_bind h with ⟨result, t₂, hresult, h⟩ | ⟨_, ⟨⟩, -⟩ | ⟨⟨⟩, -⟩
      rcases hresult.cases_attempt with ⟨rebuilt, hok, hrebuild⟩ | ⟨_, hok, -⟩ | ⟨hok, -⟩
      · obtain ⟨a, t₃, herr⟩ := rebuildGroups_fails (F := .none) hg hlen hnot t₁
        have hsim : Simulates .none (OzoneRust.rebuildGroups isal .none input (enumerate net input))
            (rebuildGroups isal input (enumerate net input)) := simulates_rebuildGroups _
        have hrun := hsim.ends_none StoreOp.never (t := t₁)
        have hends := (StoreOp.ends_unique (strict_rebuildGroups.ends_never hrebuild) hrun).1
        rw [herr] at hends
        cases a <;> cases hends
      · cases hok
        rcases Prog.Ends.cases_bind h with ⟨_, _, -, h⟩ | ⟨_, ⟨⟩, -⟩ | ⟨⟨⟩, -⟩
        cases h.1
      · cases hok

end Parts

end Repair

open Repair

/-- **What a reconstruction leaves, wherever it fails.** No other container changes. A
container that was open stays open, and only missing slots of groups the survivors told of can
differ. Of a container that was absent nothing is left if a chunk cannot be written, a block not be
put or a group not be rebuilt, or if there is any other error; and then there is an error. -/
theorem reconstruct_fault_atomic {isal : IsaL} {net : String → Peer} {input : ReconstructInput}
    {may : StoreOp → Prop} {t t' : Target} {o : Outcome RepairError (List UInt64)}
    (h : (Repair.reconstructFromSurvivors isal net input).Ends (StoreOp.Answers may) t o t') :
    ((∀ c, c ≠ input.container → t'.store.getContainer c = t.store.getContainer c) ∧
      ∀ b, b.container ≠ input.container →
        t'.store.getBlock b = t.store.getBlock b ∧ t'.chunks b = t.chunks b) ∧
    (t.state input.container = some .open →
      t'.state input.container = some .open ∧
      ∀ b, ¬IsMissing input (enumerate net input) b →
        t'.store.getBlock b = t.store.getBlock b ∧ t'.chunks b = t.chunks b) ∧
    (t.state input.container = none → (∀ op, may op → op.IsRebuildStep) → o ≠ .panic →
      (Repair.reconstructFromSurvivors isal net input).Ends (StoreOp.Flagged may) (t, false) o
          (t', true) ∨
        (∃ g ∈ attempted input (enumerate net input),
          ¬GroupOk isal .none input (enumerate net input) g) ∨
        (∃ err, o = .err err) →
      (∃ err, o = .err err) ∧ t'.store.getContainer input.container = none ∧
      ∀ b, b.container = input.container →
        t'.store.getBlock b = none ∧ ∀ name, t'.chunks b name = none) := by
  refine ⟨⟨fun c hc => ?_, fun b hb => ?_⟩, fun hopen => ⟨?_, fun b hb => ?_⟩, ?_⟩
  · exact congrArg (Option.map (·.info)) ((agreeOff_of_ends h).record c hc)
  · exact ⟨(agreeOff_of_ends h).block b hb, (agreeOff_of_ends h).chunk b hb⟩
  · exact isOpen_iff.mp (healed_of_open hopen h).isOpen
  · exact ⟨(healed_of_open hopen h).block b hb, (healed_of_open hopen h).chunk b hb⟩
  · intro habsent hmay hpanic hfailed
    have herr : ∃ err, o = .err err := by
      rcases hfailed with hflag | ⟨g, hg, hnot⟩ | herr
      · exact err_of_flag hflag hpanic
      · cases o with
        | ok ids => exact absurd (groupOk_of_ends habsent h hg) hnot
        | err err => exact ⟨err, rfl⟩
        | panic => exact absurd rfl hpanic
      · exact herr
    obtain ⟨err, rfl⟩ := herr
    obtain ⟨h₁, hdropped⟩ := dropped_of_absent habsent hmay h
    have hrecord : t'.holdings.record input.container = none := by
      rw [hdropped]
      exact Function.update_self ..
    refine ⟨⟨err, rfl⟩, Option.map_eq_none_iff.mpr hrecord, fun b hb => ⟨?_, fun name => ?_⟩⟩
    · exact (congrArg (·.block b) hdropped).trans (if_pos hb)
    · exact (congrArg (·.chunk b name) hdropped).trans (congrFun (if_pos hb) name)

/-! ### A chunk that cannot be written -/

set_option maxRecDepth 2000 in
/-- The container is created, the chunk of the lost shard cannot be written, and both deletions of
the rollback are made. -/
theorem exists_failedWrite : ∃ t,
    (Repair.reconstructFromSurvivors IsaL.reference (twoSurvivors [7]) lostParity).Ends
      (StoreOp.Flagged StoreOp.IsRebuildStep) (.empty, false) (.err (.storage (.io "")))
      (t, true) := by
  have hcall {s : Target × Bool} {op : StoreOp} (hop : ¬op.IsRebuildStep) :
      StoreOp.Flagged StoreOp.IsRebuildStep s op (op.exec s.1).1 ((op.exec s.1).2, s.2) :=
    ⟨.inl ⟨rfl, rfl⟩, (or_iff_left fun h => hop h.1).symm⟩
  exact ⟨_, .ok none, (_, false), hcall id, .ok (), (_, false), hcall id,
    .error (.io ""), (_, true), ⟨.inr ⟨trivial, ⟨_, rfl⟩, rfl⟩, by simp [StoreOp.IsRebuildStep]⟩,
    .ok (), (_, true), hcall id, .ok (), (_, true), hcall id, rfl, rfl⟩

/-- The container that was created for the lost shard is gone. -/
theorem reconstruct_fault_atomic_failedWrite : ∃ t',
    (Repair.reconstructFromSurvivors IsaL.reference (twoSurvivors [7]) lostParity).Ends
      (StoreOp.Flagged StoreOp.IsRebuildStep) (.empty, false) (.err (.storage (.io "")))
      (t', true) ∧
    t'.store.getContainer lostParity.container = none ∧
    ∀ b, b.container = lostParity.container →
      t'.store.getBlock b = none ∧ ∀ name, t'.chunks b name = none := by
  obtain ⟨t', hrun⟩ := exists_failedWrite
  exact ⟨t', hrun, ((reconstruct_fault_atomic (StoreOp.ends_of_flagged hrun)).2.2 rfl
    (fun _ hop => hop) (by rintro ⟨⟩) (.inl hrun)).2⟩

end OzoneRust
