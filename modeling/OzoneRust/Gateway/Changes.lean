import OzoneRust.Gateway.World

/-!
# What changes a key

Of all requests of the gateway only three change a key: the commit, the completion of a multipart
upload and the deletion (`OzoneRust.Changes.changes?`). What the loops that write, read and delete
blocks ask for is said once (`OzoneRust.Changes.Writes`, `OzoneRust.Changes.Fetches`,
`OzoneRust.Changes.Deletes`): all of it is quiet, and quiet programs leave the keys as they are
(`OzoneRust.Changes.keys_of_quiet_ends`).

The locations a put commits are those of blocks it has read from answers of the manager, so their
ids are not negative (`OzoneRust.Changes.putObject_commitsNonNeg`) and a later lookup can read them
(`OzoneRust.Changes.exists_blocksOfKeyInfo`).
-/

namespace OzoneRust

namespace Changes

/-- What a request changes, if it is served: a key is there afterwards, or not. -/
def changes? : GatewayOp → Option (KeyName × Bool)
  | .commitKey key _ _ _ _ => some (key, true)
  | .completeMultipart key _ _ => some (key, true)
  | .deleteKey key => some (key, false)
  | _ => none

/-- A request that changes no key. -/
def Quiet (op : gatewayCalls.Op) : Prop := changes? op = none

/-- A request that leaves a key as it is. -/
def Spares (key : KeyName) (op : gatewayCalls.Op) : Prop := ∀ b, changes? op ≠ some (key, b)

theorem Quiet.spares {op : gatewayCalls.Op} (h : Quiet op) (key : KeyName) : Spares key op := by
  intro b hb
  cases h.symm.trans hb

/-- What an event changes. -/
def eventChanges? : Event → Option (KeyName × Bool)
  | .answer _ op _ true => changes? op
  | _ => none

section Steps

variable {t : Tid} {w w' : World} {op : GatewayOp} {r : gatewayCalls.Res op} {served : Bool}

/-- Requests do not touch the log. -/
theorem log_of_answers (h : Answers t w op r served w') : w'.log = w.log := by
  cases op <;> cases served <;> simp only [Answers] at h
  case createKey.true =>
    obtain ⟨grants, -, rfl, -⟩ := h
    rfl
  case allocateBlock.true =>
    obtain ⟨x, -, rfl, -⟩ := h
    rfl
  case completeMultipart.true =>
    obtain ⟨rec, hash, rfl, -⟩ := h
    rfl
  case commitKey.true | deleteKey.true =>
    rw [h]
    rfl
  case writeChunk.false | writeChunk.true | putBlock.false | putBlock.true | deleteBlock.false
    | deleteBlock.true =>
    obtain ⟨c, rfl, -⟩ := h
    rfl
  all_goals first | rw [h] | rw [h.1]

/-- A request that spares a key leaves it as it is. -/
theorem keys_of_spares {key : KeyName} (hop : Spares key op) (h : Answers t w op r served w') :
    w'.keys key = w.keys key := by
  have hset : ∀ name rec, (∃ b, changes? op = some (name, b)) →
      (w.setKey name rec).keys key = w.keys key := by
    rintro name rec ⟨b, hb⟩
    refine Function.update_of_ne ?_ ..
    rintro rfl
    exact hop b hb
  cases op <;> cases served <;> simp only [Answers] at h
  case createKey.true =>
    obtain ⟨grants, -, rfl, -⟩ := h
    rfl
  case allocateBlock.true =>
    obtain ⟨x, -, rfl, -⟩ := h
    rfl
  case completeMultipart.true =>
    obtain ⟨rec, hash, rfl, -⟩ := h
    exact hset _ _ ⟨_, rfl⟩
  case commitKey.true | deleteKey.true =>
    rw [h]
    exact hset _ _ ⟨_, rfl⟩
  case writeChunk.false | writeChunk.true | putBlock.false | putBlock.true | deleteBlock.false
    | deleteBlock.true =>
    obtain ⟨c, rfl, -⟩ := h
    rfl
  all_goals first | rw [h] | rw [h.1]

/-- A quiet request leaves the keys as they are. -/
theorem keys_of_quiet (hop : Quiet op) (h : Answers t w op r served w') : w'.keys = w.keys :=
  funext fun key => keys_of_spares (hop.spares key) h

/-- A program that spares a key, alone, leaves it as it is. -/
theorem keys_of_ends {α : Type} {key : KeyName} {p : GwM α} (hp : p.Makes (Spares key))
    {o : Outcome GatewayError α} (h : p.Ends (gatewaySystem.answers t) w o w') :
    w'.keys key = w.keys key := by
  refine Prog.Ends.of_makes (F := fun w₁ => w₁.keys key = w.keys key) ?_ hp h rfl
  rintro w₁ op r _ hop hkeys ⟨served, w₂, hans, rfl⟩
  exact (keys_of_spares hop hans).trans hkeys

/-- A quiet program, alone, leaves the keys as they are. -/
theorem keys_of_quiet_ends {α : Type} {p : GwM α} (hp : p.Makes Quiet)
    {o : Outcome GatewayError α} (h : p.Ends (gatewaySystem.answers t) w o w') : w'.keys = w.keys :=
  funext fun key => keys_of_ends (hp.mono fun _ hop => hop.spares key) h

end Steps

theorem eventChanges?_of_quiet {op : GatewayOp} (h : Quiet op) (t : Tid)
    (r : gatewayCalls.Res op) (served : Bool) : eventChanges? (.answer t op r served) = none := by
  cases served with
  | false => rfl
  | true => exact h

/-! ### What the programs ask for -/

theorem makes_okOr {P : gatewayCalls.Op → Prop} {ε ε' α : Type} (f : ε → ε') :
    ∀ x : Except ε α, (okOr f x).Makes P
  | .ok _ => trivial
  | .error _ => trivial

theorem makes_present {P : gatewayCalls.Op → Prop} {α : Type} (field : String) :
    ∀ x : Option α, (present field x).Makes P
  | some _ => trivial
  | none => trivial

theorem makes_request {P : gatewayCalls.Op → Prop} {ε : Type} {op : GatewayOp} (h : P op) :
    (Prog.perform (C := gatewayCalls) op : Prog gatewayCalls ε _).Makes P :=
  Prog.makes_perform h

/-- A request of `allocate_and_write`. The chunk of a slot has one name. -/
def Writes : gatewayCalls.Op → Prop
  | .createKey .. => True
  | .allocateBlock .. => True
  | .dial _ => True
  | .createContainer .. => True
  | .writeChunk _ _ chunk _ => chunk.chunkName = "0"
  | .putBlock .. => True
  | _ => False

/-- A request of the loop of `get_object`. -/
def Fetches : gatewayCalls.Op → Prop
  | .dial _ => True
  | .readChunk .. => True
  | _ => False

/-- A request of the loop of `delete_object` over some blocks. -/
def Deletes (blocks : List BlockLocation) : gatewayCalls.Op → Prop
  | .dial _ => True
  | .deleteBlock _ b => ∃ block ∈ blocks, b.group = block.group
  | _ => False

theorem writeSlot_writes (block : BlockLocation) (ec : EcReplicationConfig) (segmentLen : ℕ)
    (shards : EncodedShards) (slot : ℕ) :
    (Gateway.writeSlot block ec segmentLen shards slot).Makes Writes := by
  refine Prog.Makes.bind trivial fun shard => (makes_okOr _ _).bind fun endpoint => ?_
  refine (makes_request (by trivial)).bind fun _ => (makes_okOr _ _).bind fun _ => ?_
  have hend : ∀ (b : BlockId) (cd : ChecksumData) (bd : BlockData), (do
      okOr .dn (← Prog.perform (C := gatewayCalls)
        (.writeChunk endpoint b (Gateway.shardChunk shard cd) shard))
      okOr .dn (← Prog.perform (C := gatewayCalls) (.putBlock endpoint bd true)) :
        GwM Unit).Makes Writes := by
    intro b cd bd
    refine (makes_request (by rfl)).bind fun _ => (makes_okOr _ _).bind fun _ => ?_
    exact (makes_request (by trivial)).bind fun _ => makes_okOr _ _
  refine (makes_request (by trivial)).bind fun created => ?_
  rcases created with (_ | _) | _
  · exact (makes_okOr _ _).bind fun _ => hend _ _ _
  · exact Prog.Makes.bind trivial fun _ => (makes_okOr _ _).bind fun _ => hend _ _ _
  · exact (makes_okOr _ _).bind fun _ => hend _ _ _

theorem allocateAndWrite_writes (gw : Gateway) (key : KeyName) (body : Bytes)
    (multipart : Option (String × UInt32)) :
    (gw.allocateAndWrite key body multipart).Makes Writes := by
  have hopen : (OmClient.createKey key multipart (UInt64.ofNat body.length)).Makes Writes := by
    refine (makes_request (by trivial)).bind fun _ => (makes_okOr _ _).bind fun _ => ?_
    refine (makes_present _ _).bind fun _ => (makes_present _ _).bind fun _ => ?_
    exact Prog.Makes.bind trivial fun _ => trivial
  have hblock : ∀ clientId, (OmClient.allocateBlock key clientId).Makes Writes := fun clientId =>
    (makes_request (by trivial)).bind fun _ => (makes_okOr _ _).bind fun _ =>
      (makes_present _ _).bind fun _ => trivial
  refine hopen.mapErr.bind fun opened => Prog.Makes.bind ?_ fun _ => trivial
  refine Prog.makes_foldlM (fun segment _ acc => Prog.Makes.bind ?_ ?_) _
  · rcases acc.1 with _ | ⟨b, rest⟩
    · exact (hblock _).mapErr.bind fun _ => trivial
    · trivial
  · rintro ⟨block, preAllocated⟩
    generalize opened.blocks.head?.map (·.ec) = found
    rcases found with _ | ec
    · trivial
    · refine Prog.Makes.bind ?_ fun _ => trivial
      refine Prog.Makes.bind trivial fun shards => Prog.Makes.bind ?_ fun _ => trivial
      exact Prog.makes_foldlM (fun slot _ _ => writeSlot_writes block ec _ shards slot) _

theorem readBlocks_fetches (gw : Gateway) (blocks : List BlockLocation) :
    (gw.readBlocks blocks).Makes Fetches := by
  refine Prog.makes_foldlM (fun block _ _ => ?_) _
  refine Prog.Makes.bind ?_ fun _ => trivial
  refine Prog.Makes.bind trivial fun total => Prog.Makes.bind ?_ fun _ => trivial
  refine Prog.makes_foldlM (fun slot _ _ => ?_) _
  refine Prog.Makes.bind ?_ fun _ => trivial
  unfold Gateway.readSlot
  rcases endpointForSlot block (UInt8.ofNat slot) with _ | endpoint
  · trivial
  · refine (makes_request (by trivial)).bind fun dialled => ?_
    rcases dialled with _ | _
    · trivial
    · refine (makes_request (by trivial)).bind fun bytes => ?_
      rcases bytes with _ | _ <;> trivial

theorem deleteBlocks_deletes (blocks : List BlockLocation) :
    (Gateway.deleteBlocks blocks).Makes (Deletes blocks) := by
  refine Prog.makes_foldlM (fun block hb _ => ?_) _
  refine Prog.Makes.bind trivial fun total => Prog.makes_foldlM (fun slot _ _ => ?_) _
  unfold Gateway.deleteSlot
  rcases endpointForSlot block (UInt8.ofNat slot) with _ | endpoint
  · trivial
  · refine (makes_request (by trivial)).bind fun dialled => ?_
    rcases dialled with _ | _
    · trivial
    · exact (makes_request ⟨block, hb, rfl⟩).bind fun _ => trivial

theorem Quiet.of_writes : ∀ op, Writes op → Quiet op
  | .createKey .., _ => rfl
  | .allocateBlock .., _ => rfl
  | .dial _, _ => rfl
  | .createContainer .., _ => rfl
  | .writeChunk .., _ => rfl
  | .putBlock .., _ => rfl

theorem Quiet.of_fetches : ∀ op, Fetches op → Quiet op
  | .dial _, _ => rfl
  | .readChunk .., _ => rfl

theorem Quiet.of_deletes {blocks : List BlockLocation} : ∀ op, Deletes blocks op → Quiet op
  | .dial _, _ => rfl
  | .deleteBlock .., _ => rfl

theorem getKeyInfo_quiet (key : KeyName) : (OmClient.getKeyInfo key).Makes Quiet := by
  refine (makes_request (by rfl)).bind fun _ => (makes_okOr _ _).bind fun _ => ?_
  exact (makes_present _ _).bind fun _ => Prog.Makes.bind trivial fun _ => trivial

theorem allocateAndWrite_quiet (gw : Gateway) (key : KeyName) (body : Bytes)
    (multipart : Option (String × UInt32)) :
    (gw.allocateAndWrite key body multipart).Makes Quiet :=
  (allocateAndWrite_writes gw key body multipart).mono Quiet.of_writes

theorem getObject_quiet (gw : Gateway) (key : KeyName) : (gw.getObject key).Makes Quiet := by
  refine (getKeyInfo_quiet key).mapErr.bind fun info => Prog.Makes.bind ?_ fun _ => trivial
  exact (readBlocks_fetches gw info.blocks).mono Quiet.of_fetches

/-! ### What is committed can be read -/

/-- The ids are not negative, as `key_location_to_block` asks for. -/
def NonNeg (loc : KeyLocation) : Prop := ¬loc.containerId < 0 ∧ ¬loc.localId < 0

/-- A request that commits only such locations, and completes no upload. -/
def CommitsNonNeg : gatewayCalls.Op → Prop
  | .commitKey _ _ locations _ _ => ∀ loc ∈ locations, NonNeg loc
  | .completeMultipart _ _ _ => False
  | _ => True

theorem Quiet.commitsNonNeg {op : gatewayCalls.Op} (h : Quiet op) : CommitsNonNeg op := by
  cases op with
  | commitKey key clientId locations size metadata => cases h
  | completeMultipart key uploadId parts => cases h
  | _ => trivial

/-- The location of a block can be read if the block was read from one. -/
theorem nonNeg_of_keyLocationToBlock {loc : KeyLocation} {block : BlockLocation}
    (h : keyLocationToBlock loc = .ok block) : NonNeg (blockToKeyLocation block) := by
  unfold keyLocationToBlock at h
  split at h
  · cases h
  split at h
  · cases h
  rename_i hc hl
  split at h
  · cases h
  split at h
  · cases h
  obtain ⟨ec, -, h⟩ := Outcome.bind_eq_ok.mp h
  split at h
  · cases h
  obtain ⟨members, -, h⟩ := Outcome.bind_eq_ok.mp h
  cases h
  rw [NonNeg, blockToKeyLocation, Int64.toInt64_toUInt64, Int64.toInt64_toUInt64]
  exact ⟨hc, hl⟩

theorem nonNeg_of_blocksOfKeyInfo {info : KeyInfo} {blocks : List BlockLocation}
    (h : blocksOfKeyInfo info = .ok blocks) : ∀ b ∈ blocks, NonNeg (blockToKeyLocation b) := by
  rw [blocksOfKeyInfo_eq] at h
  intro b hb
  obtain ⟨loc, -, hloc⟩ := Lists.exists_of_forall₂ (Outcome.forall₂_of_mapM_eq_ok h).flip hb
  exact nonNeg_of_keyLocationToBlock hloc

theorem createKey_returns (key : KeyName) (multipart : Option (String × UInt32)) (size : UInt64) :
    (OmClient.createKey key multipart size).Returns
      fun opened => ∀ b ∈ opened.blocks, NonNeg (blockToKeyLocation b) := by
  refine (Prog.returns_true _).bind fun _ _ => (Prog.returns_true _).bind fun _ _ => ?_
  refine (Prog.returns_true _).bind fun _ _ => (Prog.returns_true _).bind fun info _ => ?_
  exact (Prog.returns_lift fun _ => nonNeg_of_blocksOfKeyInfo).bind fun blocks h => h

theorem allocateBlock_returns (key : KeyName) (clientId : UInt64) :
    (OmClient.allocateBlock key clientId).Returns fun b => NonNeg (blockToKeyLocation b) := by
  refine (Prog.returns_true _).bind fun _ _ => (Prog.returns_true _).bind fun _ _ => ?_
  exact (Prog.returns_true _).bind fun _ _ => Prog.returns_lift fun _ =>
    nonNeg_of_keyLocationToBlock

theorem writeSegment_returns (gw : Gateway) (key : KeyName) (clientId : UInt64)
    (ec : Option EcReplicationConfig) (segment : Bytes)
    (acc : List BlockLocation × List BlockLocation)
    (hacc : ∀ b ∈ acc.1 ++ acc.2, NonNeg (blockToKeyLocation b)) :
    (gw.writeSegment key clientId ec acc segment).Returns
      fun acc => ∀ b ∈ acc.1 ++ acc.2, NonNeg (blockToKeyLocation b) := by
  obtain ⟨left, written⟩ := acc
  have hleft : ∀ b ∈ left, NonNeg (blockToKeyLocation b) := fun b hb =>
    hacc b (List.mem_append_left _ hb)
  have hwritten : ∀ b ∈ written, NonNeg (blockToKeyLocation b) := fun b hb =>
    hacc b (List.mem_append_right _ hb)
  have htake : (Gateway.takeBlock key clientId left).Returns fun x =>
      NonNeg (blockToKeyLocation x.1) ∧ ∀ b ∈ x.2, NonNeg (blockToKeyLocation b) := by
    cases left with
    | nil => exact (allocateBlock_returns key clientId).mapErr.bind fun b hb => ⟨hb, by simp⟩
    | cons b rest =>
      exact ⟨hleft b List.mem_cons_self, fun b' hb' => hleft b' (List.mem_cons_of_mem b hb')⟩
  refine htake.bind ?_
  rintro ⟨block, rest⟩ ⟨hblock, hrest⟩
  cases ec with
  | none => trivial
  | some ec =>
    have hgroup : (gw.writeBlockGroup block ec segment).Returns
        fun b => NonNeg (blockToKeyLocation b) :=
      (Prog.returns_true _).bind fun _ _ => (Prog.returns_true _).bind fun _ _ => hblock
    refine hgroup.bind fun b hb b' hb' => ?_
    rcases List.mem_append.mp hb' with hb' | hb'
    · exact hrest b' hb'
    · rcases List.mem_append.mp hb' with hb' | hb'
      · exact hwritten b' hb'
      · exact List.mem_singleton.mp hb' ▸ hb

theorem allocateAndWrite_returns (gw : Gateway) (key : KeyName) (body : Bytes)
    (multipart : Option (String × UInt32)) :
    (gw.allocateAndWrite key body multipart).Returns
      fun x => ∀ b ∈ x.1, NonNeg (blockToKeyLocation b) := by
  refine (createKey_returns key multipart _).mapErr.bind fun opened hopened => ?_
  refine Prog.Returns.bind (Prog.returns_foldlM (fun segment acc hacc =>
    writeSegment_returns gw key _ _ segment acc hacc) (by simpa using hopened)) ?_
  exact fun acc hacc b hb => hacc b (List.mem_append_right _ hb)

/-- **A put commits locations that can be read.** -/
theorem putObject_commitsNonNeg (gw : Gateway) (key : KeyName) (body : Bytes)
    (metadata tags : List (String × String)) :
    (gw.putObject key body metadata tags).Makes CommitsNonNeg := by
  refine ((allocateAndWrite_quiet gw key body none).mono fun _ h => h.commitsNonNeg).bind_returns
    (allocateAndWrite_returns gw key body none) fun x hx => ?_
  refine Prog.Makes.bind (Prog.Makes.mapErr ?_) fun _ => trivial
  refine Prog.Makes.bind (Prog.makes_perform fun loc hloc => ?_) fun _ => makes_okOr _ _
  obtain ⟨b, hb, rfl⟩ := List.mem_map.mp hloc
  exact hx b hb

theorem deleteObject_commitsNonNeg (key : KeyName) :
    (Gateway.deleteObject key).Makes CommitsNonNeg := by
  refine Prog.Makes.bind ((getKeyInfo_quiet key).mono fun _ h => Quiet.commitsNonNeg h).attempt
    fun found => ?_
  have hend : ((OmClient.deleteKey key).mapErr GatewayError.ofOm).Makes CommitsNonNeg :=
    Prog.Makes.mapErr ((Prog.makes_perform (by trivial)).bind fun _ => makes_okOr _ _)
  rcases found with _ | info
  · exact hend
  · exact ((deleteBlocks_deletes info.blocks).mono fun op h =>
      (Quiet.of_deletes op h).commitsNonNeg).bind fun _ => hend

/-- **A lookup can read what was committed.** -/
theorem exists_blocksOfKeyInfo {w : World} {info : KeyInfo} {committed : List KeyLocation}
    (hlooks : List.Forall₂ (LooksUp w) (info.keyLocationList.getLast?.getD []) committed)
    (hnonNeg : ∀ loc ∈ committed, NonNeg loc) : ∃ blocks, blocksOfKeyInfo info = .ok blocks := by
  rw [blocksOfKeyInfo_eq]
  generalize info.keyLocationList.getLast?.getD [] = locs at hlooks
  induction hlooks with
  | nil => exact ⟨[], rfl⟩
  | @cons loc com locs committed hloc _ ih =>
    obtain ⟨a, -, hpresents⟩ := hloc.presents
    obtain ⟨hc, hl⟩ := hnonNeg com List.mem_cons_self
    obtain ⟨block, hblock, -⟩ := keyLocationToBlock_presents hpresents (hloc.containerId ▸ hc)
      (hloc.localId ▸ hl)
    obtain ⟨blocks, hblocks⟩ := ih fun loc hloc => hnonNeg loc (List.mem_cons_of_mem com hloc)
    refine ⟨block :: blocks, ?_⟩
    rw [List.mapM_cons, hblock, Outcome.ok_bind, hblocks]
    rfl

end Changes

end OzoneRust
