import OzoneRust.Datanode.Atomicity
import OzoneRust.Datanode.Restore

/-!
# Delivering a reconstruct command again

The manager repeats a reconstruct command until it sees the replica, so a datanode executes
it again on whatever the failures of the deliveries before have left. Each delivery decides
by the state of the container: absent, it is created and at the end closed; closed, there is
nothing to do; open, it is taken for a live replica, rebuilt in place, and never closed.

From an absent container a delivery leads to one of three stages
(`OzoneRust.Repair.Stage`): the container is absent again, though some of its chunks may be
left; it is closed and as a single delivery without failures leaves it; or it is open. The
first two are absorbed by the next delivery. The last is not: an open container stays open
whatever is delivered. It comes about when the rebuild is done and the close fails, or when
the rebuild fails and the rollback cannot delete the record.

So a last delivery without failures converges if and only if it does not find the container
open (`OzoneRust.redelivery_converges_iff`).
-/

namespace OzoneRust

namespace Repair

/-! ### Groups that can be rebuilt -/

/-- Every group the survivors tell of can be rebuilt: enough shards of it were read, they
decode, and the missing slots are among the shards. -/
structure Recoverable (isal : IsaL) (net : String → Peer) (input : ReconstructInput) : Prop where
  /-- Enough shards. -/
  enough : ∀ f ∈ findings net input, f.group ∈ attempted input (enumerate net input)
  /-- They decode. -/
  ok : ∀ g ∈ attempted input (enumerate net input),
    GroupOk isal .none input (enumerate net input) g

section Recoverable

variable {isal : IsaL} {net : String → Peer} {input : ReconstructInput}

/-- Survivors that agree on an object for each group can be recovered from. -/
theorem recoverable_of_survivable (hI : isal.Correct) (hP : input.ec.profile.Valid)
    {X : UInt64 → Buffer} (hX : Survivable isal net input X)
    (hslots : (input.sources.map Prod.fst).Nodup) : Recoverable isal net input :=
  ⟨fun _ hf => hX.group_attempted hI hP hslots hf, fun _ hg => hX.groupOk hI hP hslots hg⟩

theorem attempted_of_shard {g : UInt64} (hrec : Recoverable isal net input)
    (hg : g ∈ (enumerate net input).shards.entries.map Prod.fst) :
    g ∈ attempted input (enumerate net input) := by
  obtain ⟨⟨_, view⟩, hmem, rfl⟩ := List.mem_map.mp hg
  obtain ⟨⟨f, hf, rfl, -⟩, -⟩ := mem_enumerate_shards.mp hmem
  exact hrec.enough f hf

/-- What is to be rebuilt is what a delivery without failures rebuilds. -/
theorem isRebuilt_iff (hrec : Recoverable isal net input) {b : BlockId} :
    IsRebuilt input (enumerate net input) b ↔
      RebuiltOf input (attempted input (enumerate net input)) b := by
  constructor
  · rintro ⟨⟨hc, hg, hslot⟩, hrange⟩
    exact ⟨hc, attempted_of_shard hrec hg, hslot, hrange⟩
  · rintro ⟨hc, hg, hslot, hrange⟩
    obtain ⟨view, hview, -⟩ := mem_attempted.mp hg
    exact ⟨⟨hc, List.mem_map_of_mem (SortedMap.get?_eq_some.mp hview), hslot⟩, hrange⟩

theorem noPanic_rebuildGroups (hrec : Recoverable isal net input) :
    (rebuildGroups isal input (enumerate net input)).NoPanic := by
  refine Prog.noPanic_foldlM (fun group hgroup rebuilt => ?_) []
  unfold rebuildGroup
  cases hlen : (enumerate net input).lengths.get? group.1 with
  | none => exact nofun
  | some len =>
    dsimp only
    split
    · exact nofun
    · have hg := attempted_of_shard hrec (List.mem_map_of_mem hgroup)
      obtain ⟨len', encoded, hencoded, hslots⟩ := hrec.ok _ hg
      obtain ⟨view, object, hlen', hview, hdec, henc⟩ := encoded?_eq_some.mp hencoded
      obtain rfl := Option.some.inj (hlen.symm.trans hlen')
      obtain rfl := Option.some.inj ((SortedMap.get?_eq_some.mpr hgroup).symm.trans hview)
      rw [hdec, Outcome.mapErr_ok, Prog.lift_ok_bind, henc, Outcome.mapErr_ok, Prog.lift_ok_bind]
      refine (Prog.noPanic_foldlM (fun slot hslot _ => ?_) ()).bind fun _ => nofun
      unfold persistSlot
      split
      · exact nofun
      · rename_i hrange
        rw [not_or, not_lt] at hrange
        obtain ⟨shard, hshard, -⟩ := hslots slot hslot hrange
        rw [hshard, Outcome.mapErr_ok, Prog.lift_ok_bind, compute_rebuiltDigests]
        rintro (_ | _) (_ | _) <;> exact nofun

end Recoverable

/-! ### Stages -/

/-- The chunks of the container a delivery can have removed or left. -/
def Left (input : ReconstructInput) (e : Enumeration) (h₀ h : Holdings) : Prop :=
  ∀ b name, h.chunk b name = h₀.chunk b name ∨
    b.container = input.container ∧ (h.chunk b name = none ∨ name = "0" ∧ IsRebuilt input e b)

/-- The container is absent again. -/
structure Vacant (input : ReconstructInput) (e : Enumeration) (h₀ h : Holdings) : Prop where
  /-- The containers are as before. -/
  record : h.record = h₀.record
  /-- The blocks are as before. -/
  block : h.block = h₀.block
  /-- Chunks may be left. -/
  left : Left input e h₀ h

/-- The container is as one delivery without failures leaves it. -/
structure Finished (isal : IsaL) (input : ReconstructInput) (e : Enumeration)
    (h₀ h₁ h : Holdings) : Prop where
  /-- The containers. -/
  record : h.record = h₁.record
  /-- The blocks. -/
  block : h.block = h₁.block
  /-- Other chunks may be left. -/
  left : Left input e h₀ h
  /-- The rebuilt shards. -/
  stored : ∀ b, IsRebuilt input e b → h.chunk b "0" = some (rebuiltSlot isal input e b).1

/-- **Where the deliveries have got to.** -/
inductive Stage (isal : IsaL) (input : ReconstructInput) (e : Enumeration) (may : StoreOp → Prop)
    (h₀ h₁ : Holdings) (t : Target) : Prop where
  /-- The container is absent again. -/
  | vacant (h : Vacant input e h₀ t.holdings)
  /-- The container is open, since one of two calls may fail. -/
  | isOpen (hopen : t.state input.container = some .open)
      (hmay : may (.setContainerState input.container .closed) ∨
        may (.deleteContainer input.container))
  /-- The container is finished. -/
  | finished (h : Finished isal input e h₀ h₁ t.holdings)

section Stages

variable {isal : IsaL} {input : ReconstructInput} {e : Enumeration} {may : StoreOp → Prop}
  {h₀ h₁ h h' : Holdings} {t t' : Target}

theorem state_eq (c : ContainerId) :
    t.state c = (t.holdings.record c).map fun record => record.info.state :=
  Option.map_map ..

theorem Left.trans (hleft : Left input e h₀ h) (hleft' : Left input e h h') :
    Left input e h₀ h' := by
  intro b name
  rcases hleft' b name with heq | hin
  · rcases hleft b name with heq₀ | ⟨hc, hnone | hrebuilt⟩
    · exact .inl (heq.trans heq₀)
    · exact .inr ⟨hc, .inl (heq.trans hnone)⟩
    · exact .inr ⟨hc, .inr hrebuilt⟩
  · exact .inr hin

theorem Left.of_chunk (heq : h'.chunk = h.chunk) : Left input e h h' := fun b name =>
  .inl (congrFun (congrFun heq b) name)

theorem Left.outside (hleft : Left input e h₀ h) {b : BlockId} (hb : b.container ≠ input.container)
    (name : String) : h.chunk b name = h₀.chunk b name :=
  (hleft b name).resolve_right fun hin => hb hin.1

theorem left_of_ends {o : Outcome RepairError (List UInt64)}
    (hrun : (rebuildGroups isal input e).Ends (StoreOp.Answers may) t o t') :
    Left input e t.holdings t'.holdings := by
  refine Prog.Ends.of_makes (F := fun t₁ : Target => Left input e t.holdings t₁.holdings) ?_
    makes_rebuildGroups hrun (.of_chunk rfl)
  intro t₁ op r t₂ hop hleft ha
  refine hleft.trans ?_
  rcases StoreOp.Answers.holdings ha with hact | ⟨-, -, rfl | ⟨id, rfl, -⟩⟩
  · rw [hact]
    cases op with
    | writeChunk b name data =>
      intro b' name'
      by_cases hb : b' = b
      · subst hb
        by_cases hname : name' = name
        · exact .inr ⟨hop.2.1.1, .inr ⟨hname.trans hop.1, hop.2⟩⟩
        · refine .inl ((congrFun (Function.update_self ..) name').trans ?_)
          exact Function.update_of_ne hname _ _
      · exact .inl (congrFun (Function.update_of_ne hb _ _) name')
    | putBlock block =>
      rw [StoreOp.act]
      split
      · exact .of_chunk rfl
      · split <;> exact .of_chunk rfl
    | _ => exact hop.elim
  · exact .of_chunk rfl
  · exact hop.elim

theorem agreeOff_of_rebuild {o : Outcome RepairError (List UInt64)}
    (hrun : (rebuildGroups isal input e).Ends (StoreOp.Answers may) t o t') :
    Holdings.AgreeOff input.container t.holdings t'.holdings := by
  refine Prog.Ends.of_makes
    (F := fun t₁ : Target => Holdings.AgreeOff input.container t.holdings t₁.holdings) ?_
    makes_rebuildGroups hrun .refl
  intro t₁ op r t₂ hop hagree ha
  exact hagree.trans (StoreOp.Answers.agreeOff ha (repairs_of_rebuilds hop).1)

/-- What is there after a rebuild into a container that was created, wherever it stopped. -/
theorem after_rebuild {o : Outcome RepairError (List UInt64)}
    (hv : Vacant input e h₀ h) (ht : t.holdings = created input h)
    (hrun : (rebuildGroups isal input e).Ends (StoreOp.Answers may) t o t') :
    t'.state input.container = some .open ∧ Holdings.AgreeOff input.container h₀ t'.holdings ∧
      Left input e h₀ t'.holdings := by
  refine ⟨isOpen_iff.mp (healed_of_ends hrun (ht ▸ healed_created h)).isOpen, ?_, ?_⟩
  · have hbefore : Holdings.AgreeOff input.container h₀ t.holdings := by
      rw [ht]
      refine ⟨fun c hc => ?_, fun b _ => congrFun hv.block b,
        fun b hb => funext (hv.left.outside hb)⟩
      exact (Function.update_of_ne hc _ _).trans (congrFun hv.record c)
    exact hbefore.trans (agreeOff_of_rebuild hrun)
  · refine (hv.left.trans (.of_chunk ?_)).trans (left_of_ends hrun)
    rw [ht]
    rfl

/-- The second deletion of a rollback takes chunks, all or some. -/
theorem deleteChunks_answers {r : Except StorageError Unit}
    (ha : StoreOp.Answers may t (.deleteChunks input.container) r t') :
    t'.holdings.record = t.holdings.record ∧ t'.holdings.block = t.holdings.block ∧
      Left input e t.holdings t'.holdings := by
  rcases ha.holdings with hact | ⟨-, -, rfl | ⟨id, hid, hred⟩⟩
  · rw [hact]
    refine ⟨rfl, rfl, fun b name => ?_⟩
    by_cases hb : b.container = input.container
    · exact .inr ⟨hb, .inl (congrFun (if_pos hb) name)⟩
    · exact .inl (congrFun (if_neg hb) name)
  · exact ⟨rfl, rfl, .of_chunk rfl⟩
  · cases hid
    exact ⟨hred.record, hred.block, fun b name => (hred.chunk b name).imp_right fun hin =>
      ⟨hin.1, .inl hin.2⟩⟩

/-- **A rollback** leads to an absent container, or leaves an open one where the record cannot
be deleted. -/
theorem stage_of_rollback {o : Outcome RepairError Unit}
    (hrecord₀ : h₀.record input.container = none)
    (hblock₀ : ∀ b, b.container = input.container → h₀.block b = none)
    (hopen : t.state input.container = some .open)
    (hagree : Holdings.AgreeOff input.container h₀ t.holdings)
    (hleft : Left input e h₀ t.holdings)
    (hrun : (rollbackCreated input.container).Ends (StoreOp.Answers may) t o t') :
    Stage isal input e may h₀ h₁ t' := by
  obtain ⟨r, t₁, ha₁, r', t₂, ha₂, -, rfl⟩ := hrun
  obtain ⟨hrecord₂, hblock₂, hleft₂⟩ := deleteChunks_answers (e := e) ha₂
  rcases ha₁.holdings with hact | ⟨hmay, -, rfl | ⟨_, hid, -⟩⟩
  · refine .vacant ⟨hrecord₂.trans (funext fun c => ?_), hblock₂.trans (funext fun b => ?_), ?_⟩
    · rw [hact]
      by_cases hc : c = input.container
      · subst hc
        exact (Function.update_self ..).trans hrecord₀.symm
      · exact (Function.update_of_ne hc _ _).trans (hagree.record c hc)
    · rw [hact]
      by_cases hb : b.container = input.container
      · exact (if_pos hb).trans (hblock₀ b hb).symm
      · exact (if_neg hb).trans (hagree.block b hb)
    · refine (hleft.trans (.of_chunk ?_)).trans hleft₂
      rw [hact]
      rfl
  · exact .isOpen (by rw [state_eq, hrecord₂, ← state_eq]; exact hopen) (.inr hmay)
  · cases hid

end Stages

/-! ### Deliveries -/

/-- A delivery of the command, in which the calls in `may` may fail. -/
def Delivers (isal : IsaL) (net : String → Peer) (input : ReconstructInput)
    (may : StoreOp → Prop) (t t' : Target) : Prop :=
  ∃ o, (reconstructFromSurvivors isal net input).Ends (StoreOp.Answers may) t o t'

section Deliveries

variable {isal : IsaL} {net : String → Peer} {input : ReconstructInput} {may : StoreOp → Prop}
  {t₀ t₁ t t' : Target} {o o₁ : Outcome RepairError (List UInt64)}

/-- **Without failures**, an absent container is created, rebuilt and closed. -/
theorem ends_never_absent (hrec : Recoverable isal net input)
    (hne : attempted input (enumerate net input) ≠ []) (habsent : t.state input.container = none)
    (hrun : (reconstructFromSurvivors isal net input).Ends (StoreOp.Answers StoreOp.never) t o t') :
    t'.state input.container = some .closed ∧
    (∀ id, RebuiltOf input (attempted input (enumerate net input)) id →
      t'.Stores id (rebuiltSlot isal input (enumerate net input) id)) ∧
    ∀ id, ¬RebuiltOf input (attempted input (enumerate net input)) id →
      t'.store.getBlock id = t.store.getBlock id := by
  obtain ⟨t'', hx, hfacts⟩ := reconstruct_created (F := .none) rfl rfl rfl habsent hne hrec.ok
  have hends := ends_never isal net input t
  rw [hx] at hends
  rw [(StoreOp.ends_unique hrun hends).2]
  exact hfacts

/-- A command without groups does nothing. -/
theorem delivers_nil (hentries : (enumerate net input).shards.entries = [])
    (hd : Delivers isal net input may t t') : t' = t := by
  obtain ⟨o, hrun⟩ := hd
  unfold reconstructFromSurvivors reconstructFrom at hrun
  rw [if_pos hentries] at hrun
  exact hrun.2

/-- A closed container is left alone. -/
theorem delivers_closed (hclosed : t.state input.container = some .closed)
    (hd : Delivers isal net input may t t') : t' = t := by
  obtain ⟨o, hrun⟩ := hd
  unfold reconstructFromSurvivors reconstructFrom at hrun
  split at hrun
  case isTrue => exact hrun.2
  case isFalse =>
    rcases Prog.Ends.cases_bind hrun with ⟨found, t₂, hfound, hrun⟩ | ⟨_, -, hfound⟩ | ⟨-, hfound⟩
    · rcases provision_ends hfound with ⟨_, ho, -⟩ | ⟨ho, rfl, -⟩ | ⟨-, -, hopen⟩ | ⟨-, habsent, -⟩
      · cases ho
      · cases ho
        exact hrun.2
      · cases hclosed.symm.trans hopen
      · cases hclosed.symm.trans habsent
    · rcases provision_ends hfound with ⟨_, -, rfl, -⟩ | ⟨ho, -⟩ | ⟨ho, -⟩ | ⟨ho, -⟩
      · rfl
      all_goals cases ho
    · rcases provision_ends hfound with ⟨_, ho, -⟩ | ⟨ho, -⟩ | ⟨ho, -⟩ | ⟨ho, -⟩
      all_goals cases ho

theorem attempted_ne_nil (hrec : Recoverable isal net input)
    (hentries : (enumerate net input).shards.entries ≠ []) :
    attempted input (enumerate net input) ≠ [] := by
  obtain ⟨entry, hentry⟩ := List.exists_mem_of_ne_nil _ hentries
  exact List.ne_nil_of_mem (attempted_of_shard hrec (List.mem_map_of_mem hentry))

/-- A delivery without failures, wherever it starts from, leaves the same container. -/
theorem finished_of_ends (hrec : Recoverable isal net input)
    (hentries : (enumerate net input).shards.entries ≠ [])
    (habsent : t.state input.container = none)
    (hfree : (reconstructFromSurvivors isal net input).Ends (StoreOp.Answers StoreOp.never)
      t₀ o₁ t₁)
    (hv : Vacant input (enumerate net input) t₀.holdings t.holdings)
    (hleft : Left input (enumerate net input) t₀.holdings t'.holdings)
    (hrun : (reconstructFromSurvivors isal net input).Ends (StoreOp.Answers StoreOp.never) t o t') :
    Finished isal input (enumerate net input) t₀.holdings t₁.holdings t'.holdings := by
  have hagree : Holdings.AgreeOn (fun _ _ => False) t.holdings t₀.holdings :=
    ⟨hv.record.symm, hv.block.symm, fun _ _ => False.elim⟩
  obtain ⟨v, hv', hagree'⟩ := StoreOp.ends_agreeOn
    ((makes_reconstruct net).mono fun _ hop => hop.2.1) hrun hagree
  obtain rfl := (StoreOp.ends_unique hfree hv').2
  obtain ⟨-, hstores, -⟩ := ends_never_absent hrec (attempted_ne_nil hrec hentries) habsent hrun
  exact ⟨hagree'.record.symm, hagree'.block.symm, hleft,
    fun b hb => (hstores b ((isRebuilt_iff hrec).mp hb)).1⟩

/-- A delivery, from its parts. -/
theorem ends_of_parts {t₂ t₃ : Target} {rebuilt : List UInt64} {record : StoredContainer}
    (hentries : (enumerate net input).shards.entries ≠ [])
    (hfound : (provision input).Ends (StoreOp.Answers may) t (.ok .created) t₂)
    (hrebuild : (rebuildGroups isal input (enumerate net input)).Ends (StoreOp.Answers may) t₂
      (.ok rebuilt) t₃)
    (hne : rebuilt ≠ []) (hrecord : t₃.holdings.record input.container = some record) :
    (reconstructFromSurvivors isal net input).Ends (StoreOp.Answers may) t (.ok rebuilt)
      ((StoreOp.setContainerState input.container .closed).exec t₃).2 := by
  have hfinish : (finishCreated input rebuilt).Ends (StoreOp.Answers may) t₃ (.ok rebuilt)
      ((StoreOp.setContainerState input.container .closed).exec t₃).2 := by
    unfold finishCreated
    rw [if_neg hne]
    refine ⟨_, _, .inl ⟨rfl, rfl⟩, ?_⟩
    rw [StoreOp.exec_setContainerState hrecord]
    exact ⟨rfl, rfl⟩
  unfold reconstructFromSurvivors reconstructFrom
  rw [if_neg hentries]
  exact hfound.bind (hrebuild.attempt.bind hfinish)

variable (hrec : Recoverable isal net input) (habsent₀ : t₀.state input.container = none)
  (hblock₀ : ∀ b, b.container = input.container → t₀.store.getBlock b = none)
  (hfree : (reconstructFromSurvivors isal net input).Ends (StoreOp.Answers StoreOp.never) t₀ o₁ t₁)

include hrec habsent₀ hblock₀ hfree

/-- A delivery that has created the container. -/
theorem stage_of_created {t₂ : Target}
    (hentries : (enumerate net input).shards.entries ≠ [])
    (hv : Vacant input (enumerate net input) t₀.holdings t.holdings)
    (habsent : t.state input.container = none)
    (hfound : (provision input).Ends (StoreOp.Answers may) t (.ok .created) t₂)
    (ht₂ : t₂.holdings = created input t.holdings)
    (hrun : (rebuildCreated isal input (enumerate net input)).Ends (StoreOp.Answers may) t₂ o t') :
    Stage isal input (enumerate net input) may t₀.holdings t₁.holdings t' := by
  have hrecord₀ : t₀.holdings.record input.container = none := state_eq_none.mp habsent₀
  rcases Prog.Ends.cases_bind hrun with ⟨result, t₃, hresult, hrun⟩ | ⟨_, -, hresult⟩ | ⟨-, hresult⟩
  · rcases hresult.cases_attempt with ⟨rebuilt, hok, hrebuild⟩ | ⟨err, hok, hrebuild⟩ | ⟨hok, -⟩
    · cases hok
      obtain ⟨hopen, hagree, hleft⟩ := after_rebuild hv ht₂ hrebuild
      have hfinish : (finishCreated input rebuilt).Ends (StoreOp.Answers may) t₃ o t' := hrun
      unfold finishCreated at hfinish
      split at hfinish
      case isTrue =>
        rcases Prog.Ends.cases_bind hfinish with ⟨_, _, hroll, -, rfl⟩ | ⟨_, -, hroll⟩ | ⟨-, hroll⟩
        all_goals exact stage_of_rollback hrecord₀ hblock₀ hopen hagree hleft hroll
      case isFalse hne =>
        obtain ⟨r, t₄, ha, hfinish⟩ := hfinish
        rcases ha with ⟨rfl, rfl⟩ | ⟨hmay, ⟨_, rfl⟩, rfl⟩
        · -- every call has succeeded, so this was a delivery without failures
          obtain ⟨record, hrecord, -⟩ := isOpen_iff.mpr hopen
          rw [StoreOp.exec_setContainerState hrecord] at hfinish
          obtain ⟨-, rfl⟩ := hfinish
          have hwhole := ends_of_parts hentries (strict_provision.ends_never hfound)
            (strict_rebuildGroups.ends_never hrebuild) hne hrecord
          refine .finished (finished_of_ends hrec hentries habsent hfree hv ?_ hwhole)
          refine hleft.trans (.of_chunk ?_)
          rw [StoreOp.holdings_exec, StoreOp.act]
          split <;> rfl
        · obtain ⟨-, rfl⟩ := hfinish
          exact .isOpen hopen (.inl hmay)
    · cases hok
      obtain ⟨hopen, hagree, hleft⟩ := after_rebuild hv ht₂ hrebuild
      rcases Prog.Ends.cases_bind hrun with ⟨_, _, hroll, -, rfl⟩ | ⟨_, -, hroll⟩ | ⟨-, hroll⟩
      all_goals exact stage_of_rollback hrecord₀ hblock₀ hopen hagree hleft hroll
    · cases hok
  · rcases hresult.cases_attempt with ⟨_, hok, -⟩ | ⟨_, hok, -⟩ | ⟨hok, -⟩
    all_goals cases hok
  · rcases hresult.cases_attempt with ⟨_, hok, -⟩ | ⟨_, hok, -⟩ | ⟨-, hpanic⟩
    · cases hok
    · cases hok
    · exact ((noPanic_rebuildGroups hrec).not_ends hpanic).elim

/-- A delivery that finds the container absent. -/
theorem stage_of_vacant (hv : Vacant input (enumerate net input) t₀.holdings t.holdings)
    (hd : Delivers isal net input may t t') :
    Stage isal input (enumerate net input) may t₀.holdings t₁.holdings t' := by
  obtain ⟨o, hrun⟩ := hd
  have habsent : t.state input.container = none := by
    rw [state_eq, hv.record, ← state_eq]
    exact habsent₀
  unfold reconstructFromSurvivors reconstructFrom at hrun
  split at hrun
  case isTrue => exact .vacant (hrun.2 ▸ hv)
  case isFalse hentries =>
    rcases Prog.Ends.cases_bind hrun with ⟨found, t₂, hfound, hrun⟩ | ⟨_, -, hfound⟩ | ⟨-, hfound⟩
    · rcases provision_ends hfound with ⟨_, ho, -⟩ | ⟨-, -, hclosed⟩ | ⟨-, -, hopen⟩ | ⟨ho, -, ht₂⟩
      · cases ho
      · cases habsent.symm.trans hclosed
      · cases habsent.symm.trans hopen
      · cases ho
        exact stage_of_created hrec habsent₀ hblock₀ hfree hentries hv habsent hfound ht₂ hrun
    · rcases provision_ends hfound with ⟨_, -, rfl, -⟩ | ⟨ho, -⟩ | ⟨ho, -⟩ | ⟨ho, -⟩
      · exact .vacant hv
      all_goals cases ho
    · rcases provision_ends hfound with ⟨_, ho, -⟩ | ⟨ho, -⟩ | ⟨ho, -⟩ | ⟨ho, -⟩
      all_goals cases ho

/-- **One more delivery.** -/
theorem Stage.deliver
    (hs : Stage isal input (enumerate net input) may t₀.holdings t₁.holdings t)
    (hd : Delivers isal net input may t t') :
    Stage isal input (enumerate net input) may t₀.holdings t₁.holdings t' := by
  cases hs with
  | vacant hv => exact stage_of_vacant hrec habsent₀ hblock₀ hfree hv hd
  | isOpen hopen hmay =>
    obtain ⟨o, hrun⟩ := hd
    exact .isOpen (isOpen_iff.mp (healed_of_open hopen hrun).isOpen) hmay
  | finished hf =>
    by_cases hentries : (enumerate net input).shards.entries = []
    · exact .finished (delivers_nil hentries hd ▸ hf)
    · have hclosed : t.state input.container = some .closed := by
        rw [state_eq, hf.record, ← state_eq]
        exact (ends_never_absent hrec (attempted_ne_nil hrec hentries) habsent₀ hfree).1
      exact .finished (delivers_closed hclosed hd ▸ hf)

/-- **Any number of deliveries.** -/
theorem stage_of_deliveries
    (hd : Relation.ReflTransGen (Delivers isal net input may) t₀ t) :
    Stage isal input (enumerate net input) may t₀.holdings t₁.holdings t := by
  induction hd with
  | refl => exact .vacant ⟨rfl, rfl, .of_chunk rfl⟩
  | tail _ hd ih => exact ih.deliver hrec habsent₀ hblock₀ hfree hd

end Deliveries

end Repair

/-! ### Convergence -/

open Repair

/-- The target is as another delivery has left it: the same containers, blocks and recorded
chunks, and, where no chunk of the container was there before, the same chunks altogether. -/
structure Converged (c : ContainerId) (t₀ t t' : Target) : Prop where
  /-- The containers. -/
  record : t.holdings.record = t'.holdings.record
  /-- The blocks. -/
  block : t.holdings.block = t'.holdings.block
  /-- The chunks of the blocks. -/
  recorded : ∀ b bd, t'.store.getBlock b = some bd → ∀ ci ∈ bd.chunks,
    t.chunks b ci.chunkName = t'.chunks b ci.chunkName
  /-- All chunks. -/
  chunk : (∀ b name, b.container = c → t₀.chunks b name = none) → t.chunks = t'.chunks

section Converges

variable {isal : IsaL} {net : String → Peer} {input : ReconstructInput} {may : StoreOp → Prop}
  {t₀ t₁ t t' : Target} {o o₁ : Outcome RepairError (List UInt64)}

theorem rebuiltSlot_chunks (e : Enumeration) (b : BlockId) :
    ∀ ci ∈ (rebuiltSlot isal input e b).2.chunks, ci.chunkName = "0" := by
  intro ci hci
  unfold rebuiltSlot at hci
  split at hci
  · split at hci
    · obtain rfl := List.mem_singleton.mp hci
      rfl
    · cases hci
  · cases hci

/-- Two finished targets are alike. -/
theorem converged_of_finished {e : Enumeration} {h₁ : Holdings}
    (hf : Finished isal input e t₀.holdings h₁ t.holdings)
    (hf' : Finished isal input e t₀.holdings h₁ t'.holdings)
    (hblocks : ∀ b bd, t'.store.getBlock b = some bd → b.container = input.container →
      IsRebuilt input e b ∧ bd = (rebuiltSlot isal input e b).2) :
    Converged input.container t₀ t t' := by
  refine ⟨hf.record.trans hf'.record.symm, hf.block.trans hf'.block.symm, ?_, ?_⟩
  · intro b bd hbd ci hci
    by_cases hb : b.container = input.container
    · obtain ⟨hrebuilt, rfl⟩ := hblocks b bd hbd hb
      rw [rebuiltSlot_chunks e b ci hci]
      exact (hf.stored b hrebuilt).trans (hf'.stored b hrebuilt).symm
    · exact (hf.left.outside hb _).trans (hf'.left.outside hb _).symm
  · intro hfresh
    have hchunk : ∀ {t : Target}, Finished isal input e t₀.holdings h₁ t.holdings → ∀ b name,
        b.container = input.container → ¬(name = "0" ∧ IsRebuilt input e b) →
        t.chunks b name = none := by
      intro t hf b name hb hnot
      rcases hf.left b name with hsame | ⟨-, hnone | hrebuilt⟩
      · exact hsame.trans (hfresh b name hb)
      · exact hnone
      · exact absurd hrebuilt hnot
    funext b name
    by_cases hb : b.container = input.container
    · by_cases hrebuilt : name = "0" ∧ IsRebuilt input e b
      · rw [hrebuilt.1]
        exact (hf.stored b hrebuilt.2).trans (hf'.stored b hrebuilt.2).symm
      · rw [hchunk hf b name hb hrebuilt, hchunk hf' b name hb hrebuilt]
    · exact (hf.left.outside hb name).trans (hf'.left.outside hb name).symm

theorem Converged.refl (c : ContainerId) (t₀ t : Target) : Converged c t₀ t t :=
  ⟨rfl, rfl, fun _ _ _ _ _ => rfl, fun _ => rfl⟩

/-- What closes the container finishes it. -/
theorem finished_of_closed (habsent₀ : t₀.state input.container = none)
    (hs : Stage isal input (enumerate net input) may t₀.holdings t₁.holdings t)
    (hclosed : t.state input.container = some .closed) :
    Finished isal input (enumerate net input) t₀.holdings t₁.holdings t.holdings := by
  cases hs with
  | vacant hv =>
    rw [state_eq, hv.record, ← state_eq, habsent₀] at hclosed
    cases hclosed
  | isOpen hopen => cases hclosed.symm.trans hopen
  | finished hf => exact hf

variable (hrec : Recoverable isal net input) (habsent₀ : t₀.state input.container = none)
  (hblock₀ : ∀ b, b.container = input.container → t₀.store.getBlock b = none)
  (hfree : (Repair.reconstructFromSurvivors isal net input).Ends
    (StoreOp.Answers StoreOp.never) t₀ o₁ t₁)

include hrec habsent₀ hfree

/-- A delivery without failures closes the container, or there was nothing to do. -/
theorem state_of_free : t₁.state input.container = some .closed ∨ t₁ = t₀ := by
  by_cases hentries : (enumerate net input).shards.entries = []
  · exact .inr (delivers_nil hentries ⟨o₁, hfree⟩)
  · exact .inl (ends_never_absent hrec (attempted_ne_nil hrec hentries) habsent₀ hfree).1

include hblock₀

/-- **The last delivery**, where it has something to do and does not find the container open. -/
theorem converged_of_ends (hentries : (enumerate net input).shards.entries ≠ [])
    (hs : Stage isal input (enumerate net input) may t₀.holdings t₁.holdings t)
    (hopen : t.state input.container ≠ some .open)
    (hlast : (Repair.reconstructFromSurvivors isal net input).Ends
      (StoreOp.Answers StoreOp.never) t o t') : Converged input.container t₀ t' t₁ := by
  have hne := attempted_ne_nil hrec hentries
  obtain ⟨hclosed₁, hnew, hold⟩ := ends_never_absent hrec hne habsent₀ hfree
  have hdeliver : Delivers isal net input may t t' :=
    ⟨o, hlast.mono fun _ _ _ _ ha => StoreOp.Answers.mono (fun _ => False.elim) ha⟩
  have hs' := hs.deliver hrec habsent₀ hblock₀ hfree hdeliver
  have hclosed' : t'.state input.container = some .closed := by
    cases hs with
    | vacant hv =>
      have habsent : t.state input.container = none := by
        rw [state_eq, hv.record, ← state_eq]
        exact habsent₀
      exact (ends_never_absent hrec hne habsent hlast).1
    | isOpen hopen' => exact absurd hopen' hopen
    | finished hf =>
      have hclosed : t.state input.container = some .closed := by
        rw [state_eq, hf.record, ← state_eq]
        exact hclosed₁
      rw [delivers_closed hclosed hdeliver]
      exact hclosed
  have hs₁ : Stage isal input (enumerate net input) StoreOp.never t₀.holdings t₁.holdings t₁ :=
    stage_of_vacant hrec habsent₀ hblock₀ hfree ⟨rfl, rfl, .of_chunk rfl⟩ ⟨o₁, hfree⟩
  refine converged_of_finished (finished_of_closed habsent₀ hs' hclosed')
    (finished_of_closed habsent₀ hs₁ hclosed₁) ?_
  -- the blocks of the container are those that were rebuilt
  intro b bd hbd hb
  by_cases hrebuilt : RebuiltOf input (attempted input (enumerate net input)) b
  · exact ⟨(isRebuilt_iff hrec).mpr hrebuilt, Option.some.inj (hbd.symm.trans (hnew b hrebuilt).2)⟩
  · rw [hold b hrebuilt, hblock₀ b hb] at hbd
    cases hbd

end Converges

/-- **When a last delivery converges**: after any deliveries of a command whose groups can all
be rebuilt, with failures anywhere, a delivery without failures leaves the target as a single
one would have, if and only if it does not find the container open. It never does where the
close and the deletion of the record in a rollback do not fail. -/
theorem redelivery_converges_iff {isal : IsaL} {net : String → Peer} {input : ReconstructInput}
    {may : StoreOp → Prop} {t₀ t₁ t t' : Target} {o o₁ : Outcome RepairError (List UInt64)}
    (hrec : Recoverable isal net input) (habsent₀ : t₀.state input.container = none)
    (hblock₀ : ∀ b, b.container = input.container → t₀.store.getBlock b = none)
    (hd : Relation.ReflTransGen (Delivers isal net input may) t₀ t)
    (hlast : (Repair.reconstructFromSurvivors isal net input).Ends
      (StoreOp.Answers StoreOp.never) t o t')
    (hfree : (Repair.reconstructFromSurvivors isal net input).Ends
      (StoreOp.Answers StoreOp.never) t₀ o₁ t₁) :
    (findings net input ≠ [] →
      t₁.state input.container = some .closed ∧ Complete isal net input t₁) ∧
    (Converged input.container t₀ t' t₁ ↔ t.state input.container ≠ some .open) ∧
    (¬may (.setContainerState input.container .closed) →
      ¬may (.deleteContainer input.container) → t.state input.container ≠ some .open) := by
  have hs := stage_of_deliveries hrec habsent₀ hblock₀ hfree hd
  have hfreeState : t₁.state input.container ≠ some .open := by
    rcases state_of_free hrec habsent₀ hfree with hclosed | rfl
    · rw [hclosed]
      simp
    · rw [habsent₀]
      simp
  refine ⟨fun hfindings => ?_, ⟨fun hconv hopen => ?_, fun hopen => ?_⟩, fun hset hdel => ?_⟩
  · obtain ⟨f, hf⟩ := List.exists_mem_of_ne_nil _ hfindings
    obtain ⟨hclosed, hnew, -⟩ :=
      ends_never_absent hrec (List.ne_nil_of_mem (hrec.enough f hf)) habsent₀ hfree
    exact ⟨hclosed, fun f hf slot hslot hrange =>
      stored_of_attempted hrec.ok hnew (hrec.enough f hf) hslot hrange⟩
  · have hopen' := isOpen_iff.mp (healed_of_open hopen hlast).isOpen
    rw [state_eq, hconv.record, ← state_eq] at hopen'
    exact hfreeState hopen'
  · by_cases hentries : (enumerate net input).shards.entries = []
    · -- nothing has happened at all
      have ht : t = t₀ := by
        clear hlast hs hopen
        induction hd with
        | refl => rfl
        | tail _ hd ih => exact (delivers_nil hentries hd).trans ih
      rw [delivers_nil hentries ⟨o, hlast⟩, ht, delivers_nil hentries ⟨o₁, hfree⟩]
      exact .refl ..
    · exact converged_of_ends hrec habsent₀ hblock₀ hfree hentries hs hopen hlast
  · cases hs with
    | vacant hv =>
      rw [state_eq, hv.record, ← state_eq, habsent₀]
      simp
    | isOpen _ hmay => exact absurd hmay (not_or.mpr ⟨hset, hdel⟩)
    | finished hf =>
      rw [state_eq, hf.record, ← state_eq]
      exact hfreeState

/-! ### A close that fails -/

/-- **An open container is what a failed close leaves.** -/
theorem delivers_open {isal : IsaL} {net : String → Peer} {input : ReconstructInput}
    {may : StoreOp → Prop} {t : Target} (hrec : Recoverable isal net input)
    (hentries : (enumerate net input).shards.entries ≠ [])
    (habsent : t.state input.container = none)
    (hmay : may (.setContainerState input.container .closed)) :
    ∃ t', Delivers isal net input may t t' ∧ t'.state input.container = some .open := by
  obtain ⟨store, hprov, hopen, -⟩ := provision_created (F := .none) rfl rfl habsent
  obtain ⟨t₃, hrebuild, hwrote⟩ := rebuildGroups_ok hrec.ok hopen
  have hprov' : (Repair.provision input).Ends (StoreOp.Answers may) t _ _ :=
    simulates_provision.ends_none may
  have hrebuild' : (Repair.rebuildGroups isal input (enumerate net input)).Ends
      (StoreOp.Answers may) ⟨store, t.chunks⟩ _ _ :=
    (simulates_rebuildGroups (enumerate net input)).ends_none may
  rw [hprov] at hprov'
  rw [hrebuild] at hrebuild'
  have hfinish : (Repair.finishCreated input (attempted input (enumerate net input))).Ends
      (StoreOp.Answers may) t₃ (.err (.storage (.metaError ""))) t₃ := by
    unfold Repair.finishCreated
    rw [if_neg (attempted_ne_nil hrec hentries)]
    exact ⟨.error (.metaError ""), t₃, .inr ⟨hmay, ⟨_, rfl⟩, rfl⟩, rfl, rfl⟩
  refine ⟨t₃, ⟨.err (.storage (.metaError "")), ?_⟩, isOpen_iff.mp hwrote.isOpen⟩
  unfold Repair.reconstructFromSurvivors reconstructFrom
  rw [if_neg hentries]
  exact hprov'.bind (hrebuild'.attempt.bind hfinish)

theorem recoverable_twoSurvivors : Recoverable IsaL.reference (twoSurvivors [7]) lostParity :=
  recoverable_of_survivable IsaL.reference_correct lostParity_valid survivable_twoSurvivors
    (by decide)

/-- Two deliveries, into a target that stores nothing. In the first a chunk cannot be written; the
second leaves what it would have left alone. -/
theorem redelivery_converges_iff_failedWrite : ∃ t t' t₁ o o₁,
    (Repair.reconstructFromSurvivors IsaL.reference (twoSurvivors [7]) lostParity).Ends
      (StoreOp.Flagged StoreOp.IsRebuildStep) (.empty, false) (.err (.storage (.io ""))) (t, true) ∧
    (Repair.reconstructFromSurvivors IsaL.reference (twoSurvivors [7]) lostParity).Ends
      (StoreOp.Answers StoreOp.never) t o t' ∧
    (Repair.reconstructFromSurvivors IsaL.reference (twoSurvivors [7]) lostParity).Ends
      (StoreOp.Answers StoreOp.never) .empty o₁ t₁ ∧
    t₁.state lostParity.container = some .closed ∧
    Complete IsaL.reference (twoSurvivors [7]) lostParity t₁ ∧
    Converged lostParity.container .empty t' t₁ := by
  obtain ⟨t, hfailed⟩ := exists_failedWrite
  have hd : Delivers IsaL.reference (twoSurvivors [7]) lostParity StoreOp.IsRebuildStep .empty t :=
    ⟨_, StoreOp.ends_of_flagged hfailed⟩
  have hlast := ends_never IsaL.reference (twoSurvivors [7]) lostParity t
  have hfree := ends_never IsaL.reference (twoSurvivors [7]) lostParity .empty
  obtain ⟨hcomplete, hiff, hnotOpen⟩ := redelivery_converges_iff recoverable_twoSurvivors rfl
    (fun _ _ => rfl) (.single hd) hlast hfree
  obtain ⟨hclosed, hall⟩ := hcomplete (by decide)
  exact ⟨t, _, _, _, _, hfailed, hlast, hfree, hclosed, hall,
    hiff.mpr (hnotOpen (fun h => h) fun h => h)⟩

/-- **The close is not retried**: the first delivery rebuilds the container and cannot close
it; the second, without failures, leaves it open. A single delivery without failures would
have closed it. -/
theorem close_not_retried : ∃ t t' t₁ o o₁,
    Recoverable IsaL.reference (twoSurvivors [7]) lostParity ∧
    Delivers IsaL.reference (twoSurvivors [7]) lostParity
      (· = .setContainerState lostParity.container .closed) .empty t ∧
    (Repair.reconstructFromSurvivors IsaL.reference (twoSurvivors [7]) lostParity).Ends
      (StoreOp.Answers StoreOp.never) t o t' ∧
    (Repair.reconstructFromSurvivors IsaL.reference (twoSurvivors [7]) lostParity).Ends
      (StoreOp.Answers StoreOp.never) .empty o₁ t₁ ∧
    t₁.state lostParity.container = some .closed ∧
    t'.state lostParity.container = some .open := by
  have hentries : (enumerate (twoSurvivors [7]) lostParity).shards.entries ≠ [] := by decide
  obtain ⟨t, hd, hopen⟩ : ∃ t, Delivers IsaL.reference (twoSurvivors [7]) lostParity
      (· = .setContainerState lostParity.container .closed) .empty t ∧
      t.state lostParity.container = some .open :=
    delivers_open recoverable_twoSurvivors hentries rfl rfl
  have hlast := ends_never IsaL.reference (twoSurvivors [7]) lostParity t
  have hfree := ends_never IsaL.reference (twoSurvivors [7]) lostParity .empty
  refine ⟨t, _, _, _, _, recoverable_twoSurvivors, hd, hlast, hfree, ?_, ?_⟩
  · exact (ends_never_absent recoverable_twoSurvivors
      (attempted_ne_nil recoverable_twoSurvivors hentries) rfl hfree).1
  · exact isOpen_iff.mp (healed_of_open hopen hlast).isOpen

end OzoneRust
