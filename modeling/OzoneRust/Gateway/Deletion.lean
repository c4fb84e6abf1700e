import OzoneRust.Gateway.Changes
import OzoneRust.Gateway.Consistency

/-!
# A deletion that fails

`delete_object` looks the key up, deletes the blocks of its groups on the datanodes, one slot after
the other, passing over every failure, and only then asks the manager to delete the key. If that
last call fails, the caller is told so, and the key is still there. The blocks are not.

What a later `get_object` finds is therefore decided by which calls of the deletion took effect: it
returns the object exactly if the call to the manager did not, and the calls to the datanodes left
`k` shards of every group (`OzoneRust.failed_delete_iff`). With every datanode up and the manager
down for the last call, nothing is left to read (`OzoneRust.failed_delete_loses`).

The services are those of `OzoneRust.Answers`: during the deletion any call may fail, whether it
takes effect or not (`OzoneRust.Deletion.faulty`), and the calls and what each did are recorded
(`OzoneRust.Deletion.recorded`); during the get every call is served
(`OzoneRust.Deletion.healthy`). The objects are those that puts commit, in every run
(`OzoneRust.Deletion.committedObject_of_reachable`), and some of their slots may be lost already.
-/

namespace OzoneRust

namespace Deletion

open Layout Consistency RelyGuarantee

/-! ### Services -/

/-- Any call may fail, and a call that fails may have taken effect. -/
def faulty (t : Tid) (w : World) (op : GatewayOp) (r : gatewayCalls.Res op) (w' : World) : Prop :=
  ∃ served, Answers t w op r served w'

/-- A call of a deletion, as it went. -/
structure CallRecord where
  /-- The call. -/
  op : GatewayOp
  /-- It found the key, or reached the datanode. -/
  ok : Bool
  /-- It took effect: what it was to delete was there and is gone. -/
  effective : Bool
  deriving DecidableEq

/-- A lookup has found the key, or a dial has reached the datanode. -/
def succeeded : (op : GatewayOp) → gatewayCalls.Res op → Bool
  | .getKeyInfo _, .ok (some _) => true
  | .dial _, .ok _ => true
  | _, _ => false

/-- A call has deleted what it was to delete. -/
def tookEffect (w : World) : GatewayOp → World → Bool
  | .deleteBlock ep b, w' => (w.cells ep b).chunk.isSome && (w'.cells ep b).chunk.isNone
  | .deleteKey key, w' => (w.keys key).isSome && (w'.keys key).isNone
  | _, _ => false

/-- The services, and a record of the calls. -/
def recorded (t : Tid) : World × List CallRecord → (op : gatewayCalls.Op) → gatewayCalls.Res op →
    World × List CallRecord → Prop :=
  Prog.logged (faulty t) fun w op r w' => [⟨op, succeeded op r, tookEffect w op w'⟩]

/-- A dial succeeds. -/
def Dialled : (op : GatewayOp) → gatewayCalls.Res op → Prop
  | .dial _, r => r = .ok ()
  | _, _ => True

/-- Every call is served, and every datanode can be dialled. -/
def healthy (t : Tid) (w : World) (op : GatewayOp) (r : gatewayCalls.Res op) (w' : World) : Prop :=
  Answers t w op r true w' ∧ Dialled op r

/-! ### Objects -/

/-- A group of an object: what its slots still have is the shards of a segment. -/
structure HeldGroup (w : World) (a : Alloc) (loc : KeyLocation) (seg : Bytes) : Prop
    extends LocatedGroup w a loc seg where
  /-- The segment is one that a buffer can hold. -/
  fits : seg.length ≤ maxLen
  /-- The slots. -/
  shard : ∀ i < a.place.total, (slotCell w a.place loc.group i).chunk = none ∨
    (slotCell w a.place loc.group i).chunk = some (slotShard a.place seg i)
  /-- What is recorded of a slot agrees with it. -/
  sound : ∀ i < a.place.total, (slotCell w a.place loc.group i).Sound

/-- **A committed object**: a key whose groups hold the segments of a body. -/
structure CommittedObject (w : World) (key : KeyName) (rec : KeyRecord) (segs : List Bytes) :
    Prop where
  /-- The key. -/
  key : w.keys key = some rec
  /-- The groups. -/
  groups : List.Forall₂ (fun loc seg => ∃ a, HeldGroup w a loc seg) rec.locations segs

/-- `k` slots of the group have their shard. -/
def Enough (w : World) (loc : KeyLocation) : Prop :=
  ∀ a, w.alloc loc.group = some a → a.place.config.data.toNat ≤
    (List.range a.place.total).countP fun i => (slotCell w a.place loc.group i).chunk.isSome

/-- What the slots of a group have. -/
def views (w : World) (a : Alloc) (loc : KeyLocation) : List (Option Bytes) :=
  (List.range a.place.total).map fun i => (slotCell w a.place loc.group i).chunk

section Get

variable {gw : Gateway} {t : Tid} {w w' : World} {key : KeyName} {a : Alloc}
  {block : BlockLocation} {loc : KeyLocation} {seg : Bytes} {n : ℕ}

/-! ### A get while all services are healthy -/

/-- A read that is served returns what the slot has. -/
theorem answers_readChunk {ep : String} {b : BlockId} {chunk : ChunkInfo} {verify : Bool}
    {r : Except DnClientError Bytes} :
    Answers t w (.readChunk ep b chunk verify) r true w' ↔ w' = w ∧
      ((∃ data, (w.cells ep b).read verify = some data ∧ r = .ok data) ∨
        (w.cells ep b).read verify = none ∧ ∃ e, r = .error e) := by
  unfold Answers
  refine and_congr_right fun _ => ?_
  split
  case h_1 data hcell =>
    simp only [hcell, Option.some.injEq, exists_eq_left', reduceCtorEq, false_and, or_false]
    exact Iff.rfl
  case h_2 hcell =>
    simp only [hcell, reduceCtorEq, false_and, exists_false, true_and, false_or]
    exact Iff.rfl

/-- One slot is read. -/
theorem readSlot_always (hheld : HeldGroup w a loc seg) (hreads : ReadsAs w a block loc seg)
    (hn : n < a.place.total) :
    (Gateway.readSlot block (n + 1)).Always (healthy t)
      (fun o w₁ => w₁ = w ∧ o = .ok (slotCell w a.place loc.group n).chunk) w := by
  have hslot : (⟨block.containerId, block.localId, UInt8.ofNat (n + 1)⟩ : BlockId) =
      slotOf loc.group (UInt8.ofNat (n + 1)) := by rw [← hreads.group]; rfl
  unfold Gateway.readSlot
  rw [endpointForSlot_eq hreads.members hn, hslot]
  refine ⟨⟨.ok (), w, rfl, rfl⟩, fun r w₁ hans => ?_⟩
  obtain ⟨rfl, rfl⟩ := hans
  have hread : (slotCell w₁ a.place loc.group n).read true = _ :=
    Cell.read_eq (hheld.sound n hn) true
  refine ⟨?_, fun r w₂ hans => ?_⟩
  · cases hchunk : (slotCell w₁ a.place loc.group n).chunk with
    | some data => exact ⟨.ok data, w₁,
        answers_readChunk.mpr ⟨rfl, .inl ⟨data, hread.trans hchunk, rfl⟩⟩, trivial⟩
    | none => exact ⟨.error .alreadyExists, w₁,
        answers_readChunk.mpr ⟨rfl, .inr ⟨hread.trans hchunk, _, rfl⟩⟩, trivial⟩
  · obtain ⟨rfl, ⟨data, hdata, rfl⟩ | ⟨hnone, e, rfl⟩⟩ := answers_readChunk.mp hans.1
    · exact ⟨rfl, congrArg Outcome.ok (hdata.symm.trans hread)⟩
    · exact ⟨rfl, congrArg Outcome.ok (hnone.symm.trans hread)⟩

/-- The slots of a group are read, one after the other. -/
theorem readSlots_always (hheld : HeldGroup w a loc seg) (hreads : ReadsAs w a block loc seg) :
    (((List.range a.place.total).map (· + 1)).foldlM
      (fun acc slot => do return acc ++ [← Gateway.readSlot block slot]) [] :
        GwM (List (Option Bytes))).Always (healthy t)
      (fun o w₁ => w₁ = w ∧ o = .ok (views w a loc)) w := by
  refine Prog.Always.foldlM (fun l acc w₁ => w₁ = w ∧ ∃ read,
    read ++ l = (List.range a.place.total).map (· + 1) ∧
      acc = read.map fun slot => (slotCell w a.place loc.group (slot - 1)).chunk) ?_ ?_
    ⟨rfl, [], rfl, rfl⟩
  · rintro slot l acc w₁ ⟨rfl, read, hread, rfl⟩
    have hmem : slot ∈ (List.range a.place.total).map (· + 1) := hread ▸ by simp
    obtain ⟨n, hn, rfl⟩ := List.mem_map.mp hmem
    have hslot := readSlot_always (t := t) hheld hreads (List.mem_range.mp hn)
    refine Prog.Always.bind (I := fun v w₂ => w₂ = w₁ ∧ v = (slotCell w₁ a.place loc.group n).chunk)
      (fun v w₂ hv => ?_) (hslot.mono fun o w₂ ho => ?_)
    · obtain ⟨rfl, rfl⟩ := hv
      exact ⟨rfl, read ++ [n + 1], by simpa using hread, by simp⟩
    · obtain ⟨rfl, rfl⟩ := ho
      exact ⟨rfl, rfl⟩
  · rintro acc w₁ ⟨rfl, read, hread, rfl⟩
    rw [List.append_nil] at hread
    rw [hread, List.map_map]
    exact ⟨rfl, rfl⟩

/-- What a slot has is its shard. -/
theorem HeldGroup.chunk_eq (h : HeldGroup w a loc seg) (hn : n < a.place.total) {b : Bytes}
    (hb : (slotCell w a.place loc.group n).chunk = some b) : b = slotShard a.place seg n := by
  have hshard := h.shard n hn
  rw [hb] at hshard
  simpa using hshard

theorem views_getElem? (hn : n < a.place.total) :
    (views w a loc)[n]? = some (slotCell w a.place loc.group n).chunk := by
  simp [views, hn]

theorem HeldGroup.isView (h : HeldGroup w a loc seg) :
    IsView a.place.config.profile seg (views w a loc) := by
  refine ⟨by simp [views]; rfl, fun idx b hb => .inl ?_⟩
  have hlt : idx < a.place.total := by
    have hlen := (List.getElem?_eq_some_iff.mp hb).1
    simpa [views] using hlen
  rw [views_getElem? hlt, Option.some.injEq] at hb
  exact h.chunk_eq hlt hb

/-- As many slots carry their shard as have one. -/
theorem HeldGroup.length_present (h : HeldGroup w a loc seg) :
    (Layout.present a.place.config.profile seg (views w a loc)).length =
      (List.range a.place.total).countP fun i => (slotCell w a.place loc.group i).chunk.isSome := by
  rw [Layout.present, ← List.countP_eq_length_filter]
  refine List.countP_congr fun i hi => ?_
  have hlt : i < a.place.total := List.mem_range.mp hi
  rw [decide_eq_true_eq, Carries, List.getD_eq_getElem?_getD, views_getElem? hlt, Option.getD_some]
  constructor
  · intro hchunk
    rw [hchunk]
    rfl
  · intro hsome
    obtain ⟨b, hb⟩ := Option.isSome_iff_exists.mp hsome
    rw [hb, h.chunk_eq hlt hb]
    rfl

/-- **One group is read**: its segment, or an error. -/
theorem readBlockGroup_always (hisal : gw.isal.Correct) (hheld : HeldGroup w a loc seg)
    (hreads : ReadsAs w a block loc seg) :
    (gw.readBlockGroup block).Always (healthy t) (fun o w₁ => w₁ = w ∧
      (Enough w loc ∧ o = .ok seg ∨ ¬Enough w loc ∧ ∃ e, o = .err e)) w := by
  have htotal : block.ec.profile.total = .ok a.place.total := by
    have hle := a.place.total_le
    unfold Placement.total at hle
    rw [hreads.ec]
    exact Outcome.add_eq (by simp only [EcReplicationConfig.profile]; omega)
  have henough : Enough w loc ↔ a.place.config.profile.data ≤
      (Layout.present a.place.config.profile seg (views w a loc)).length := by
    rw [hheld.length_present]
    refine ⟨fun h => h a hheld.alloc, fun h a' ha' => ?_⟩
    obtain rfl : a = a' := Option.some.inj (hheld.alloc.symm.trans ha')
    exact h
  unfold Gateway.readBlockGroup
  dsimp only
  rw [htotal, Outcome.mapErr_ok, Prog.lift_ok_bind, hreads.ec, hreads.length]
  refine Prog.Always.bind (I := fun read w₁ => w₁ = w ∧ read = views w a loc) ?_
    ((readSlots_always hheld hreads).mono ?_)
  · rintro read w₁ ⟨rfl, rfl⟩
    rw [decodeObject_eq hisal a.place.valid hheld.fits hheld.isView]
    refine ⟨rfl, ?_⟩
    split
    case isTrue hle => exact .inl ⟨henough.mpr hle, rfl⟩
    case isFalse hnot => exact .inr ⟨mt henough.mp hnot, _, rfl⟩
  · rintro o w₁ ⟨rfl, rfl⟩
    exact ⟨rfl, rfl⟩

/-- **The groups are read**, up to the first that has too little left. -/
theorem readGroups_always (hisal : gw.isal.Correct) {blocks : List BlockLocation}
    {pairs : List (KeyLocation × Bytes)}
    (hall : List.Forall₂ (fun block p => ∃ a, HeldGroup w a p.1 p.2 ∧ ReadsAs w a block p.1 p.2)
      blocks pairs) :
    (gw.readBlocks blocks).Always (healthy t) (fun o w₁ => w₁ = w ∧
      ((∀ p ∈ pairs, Enough w p.1) ∧ o = .ok (pairs.map Prod.snd).flatten ∨
        ¬(∀ p ∈ pairs, Enough w p.1) ∧ ∃ e, o = .err e)) w := by
  refine Prog.Always.foldlM (fun l out w₁ => w₁ = w ∧ ∃ before after, before ++ after = pairs ∧
    List.Forall₂ (fun block p => ∃ a, HeldGroup w a p.1 p.2 ∧ ReadsAs w a block p.1 p.2) l after ∧
      (∀ p ∈ before, Enough w p.1) ∧ out = (before.map Prod.snd).flatten) ?_ ?_
    ⟨rfl, [], pairs, rfl, hall, by simp, rfl⟩
  · rintro block l out w₁ ⟨rfl, before, after, rfl, hrest, hbefore, rfl⟩
    obtain _ | ⟨⟨a, hheld, hreads⟩, hrest⟩ := hrest
    rename_i p after
    refine Prog.Always.bind (I := fun bytes w₂ => w₂ = w₁ ∧ Enough w₁ p.1 ∧ bytes = p.2) ?_
      ((readBlockGroup_always hisal hheld hreads).mono ?_)
    · rintro bytes w₂ ⟨rfl, henough, rfl⟩
      refine ⟨rfl, before ++ [p], after, by simp, hrest, ?_, by simp⟩
      intro q hq
      rcases List.mem_append.mp hq with hq | hq
      · exact hbefore q hq
      · exact List.mem_singleton.mp hq ▸ henough
    · rintro o w₂ ⟨rfl, ⟨henough, rfl⟩ | ⟨hnot, e, rfl⟩⟩
      · exact ⟨rfl, henough, rfl⟩
      · exact ⟨rfl, .inr ⟨fun h => hnot (h p (by simp)), e, rfl⟩⟩
  · rintro out w₁ ⟨rfl, before, after, rfl, hrest, hbefore, rfl⟩
    cases hrest
    rw [List.append_nil]
    exact ⟨rfl, .inl ⟨hbefore, rfl⟩⟩

/-- The locations of a committed object can be looked up. -/
theorem exists_looksUp {locs : List KeyLocation} {segs : List Bytes}
    (hall : List.Forall₂ (fun loc seg => ∃ a, HeldGroup w a loc seg) locs segs) :
    ∃ found, List.Forall₂ (LooksUp w) found locs := by
  induction hall with
  | nil => exact ⟨[], .nil⟩
  | @cons loc seg locs segs hgroup _ ih =>
    obtain ⟨a, ha⟩ := hgroup
    obtain ⟨found, hfound⟩ := ih
    have hzip : (a.place.members.map Prod.fst).zip (a.place.members.map Prod.snd) =
        a.place.members := by
      rw [List.zip_map', List.map_id']
    refine ⟨{ loc with pipeline := some ⟨a.place.members.map Prod.fst, some a.place.ecProto,
      a.place.members.map Prod.snd⟩ } :: found, .cons ⟨rfl, rfl, rfl, rfl, a, ha.alloc, _, rfl, rfl,
        by simp, .of_eq hzip⟩ hfound⟩

/-- What a lookup that is served is answered. -/
theorem answers_getKeyInfo {rec : KeyRecord} (hkey : w.keys key = some rec)
    {r : gatewayCalls.Res (.getKeyInfo key)} :
    Answers t w (.getKeyInfo key) r true w' ↔ w' = w ∧ ∃ info, r = .ok (some info) ∧
      info.dataSize = rec.size ∧ info.metadata = rec.metadata ∧
      List.Forall₂ (LooksUp w) (info.keyLocationList.getLast?.getD []) rec.locations := by
  simp only [Answers, hkey]

/-- **A get of a committed object**, all services being healthy. -/
theorem getObject_always (gw : Gateway) (t : Tid) (hisal : gw.isal.Correct) {rec : KeyRecord}
    {segs : List Bytes} (hobj : CommittedObject w key rec segs) :
    (gw.getObject key).Always (healthy t) (fun o _ =>
      (∀ loc ∈ rec.locations, Enough w loc) ∧ (∃ reply, o = .ok reply ∧ reply.body = segs.flatten) ∨
        ¬(∀ loc ∈ rec.locations, Enough w loc) ∧ ∃ e, o = .err e) w := by
  unfold Gateway.getObject OmClient.getKeyInfo
  refine ⟨?_, fun r w₁ hans => ?_⟩
  · obtain ⟨found, hfound⟩ := exists_looksUp hobj.groups
    exact ⟨.ok (some ⟨rec.size, rec.metadata, 0, [found]⟩), w,
      (answers_getKeyInfo hobj.key).mpr ⟨rfl, _, rfl, rfl, rfl, hfound⟩, trivial⟩
  · obtain ⟨rfl, info, rfl, -, -, hlooks⟩ := (answers_getKeyInfo hobj.key).mp hans.1
    obtain ⟨blocks, hblocks, hreads⟩ := exists_blocks hlooks
      (hobj.groups.imp fun _ _ ⟨a, ha⟩ => ⟨a, ha.toLocatedGroup⟩)
    rw [← blocksOfKeyInfo_eq] at hblocks
    have hheld : ∀ p ∈ rec.locations.zip segs, ∃ a, HeldGroup w₁ a p.1 p.2 :=
      fun p hp => List.forall₂_zip hobj.groups hp
    have hpairs : List.Forall₂ (fun block p => ∃ a, HeldGroup w₁ a p.1 p.2 ∧
        ReadsAs w₁ a block p.1 p.2) blocks (rec.locations.zip segs) := by
      refine ((List.forall₂_and_left _ _).mpr ⟨hheld, hreads.flip⟩).flip.imp fun block p h => ?_
      obtain ⟨⟨a, ha⟩, a', ha'⟩ := h
      obtain rfl : a = a' := Option.some.inj (ha.alloc.symm.trans ha'.alloc)
      exact ⟨a, ha, ha'⟩
    have hlength := hobj.groups.length_eq
    have hfst : (rec.locations.zip segs).map Prod.fst = rec.locations :=
      List.map_fst_zip hlength.le
    have hall : (∀ p ∈ rec.locations.zip segs, Enough w₁ p.1) ↔
        ∀ loc ∈ rec.locations, Enough w₁ loc := by
      conv_rhs => rw [← hfst]
      simp only [List.mem_map, forall_exists_index, and_imp, forall_apply_eq_imp_iff₂]
    show Prog.Always _ _ (((Prog.lift (blocksOfKeyInfo info) >>= _ : OmM KeyMeta).mapErr
      GatewayError.ofOm) >>= _) _
    rw [hblocks]
    refine Prog.Always.bind (I := fun out _ => (∀ loc ∈ rec.locations, Enough w₁ loc) ∧
      out = segs.flatten) ?_ ((readGroups_always hisal hpairs).mono ?_)
    · rintro out w₂ ⟨henough, rfl⟩
      exact .inl ⟨henough, _, rfl, rfl⟩
    · rw [hall, List.map_snd_zip hlength.ge]
      rintro o w₂ ⟨rfl, ⟨henough, rfl⟩ | ⟨hnot, e, rfl⟩⟩
      · exact ⟨henough, rfl⟩
      · exact .inr ⟨hnot, e, rfl⟩

/-- A get of a key that is not there. -/
theorem getObject_always_of_none (gw : Gateway) (t : Tid) (hkey : w.keys key = none) :
    (gw.getObject key).Always (healthy t) (fun o _ => o = .err .noSuchKey) w := by
  unfold Gateway.getObject OmClient.getKeyInfo
  refine ⟨⟨.error .notFound, w, ?_, trivial⟩, fun r w₁ hans => ?_⟩
  · simp only [Answers, hkey]
    exact ⟨trivial, rfl⟩
  · have hr : r = .error .notFound := by
      have hans := hans.1
      simp only [Answers, hkey] at hans
      exact hans.2
    rw [hr]
    rfl

end Get

/-! ### What a deletion leaves -/

section Delete

variable {t : Tid} {w w' w'' : World} {key : KeyName} {rec : KeyRecord} {segs : List Bytes}

/-- The calls of a deletion. -/
def Deletes (key : KeyName) : GatewayOp → Prop
  | .getKeyInfo _ => True
  | .dial _ => True
  | .deleteBlock _ _ => True
  | .deleteKey key' => key' = key
  | _ => False

/-- A call has erased the chunk of a slot. -/
def erased (calls : List CallRecord) (ep : String) (b : BlockId) : Bool :=
  calls.any fun c => c.op = .deleteBlock ep b && c.effective

/-- A call has removed the key. -/
def removed (calls : List CallRecord) (key : KeyName) : Bool :=
  calls.any fun c => c.op = .deleteKey key && c.effective

/-- **What the calls have taken**: what they erased and removed, and nothing else. -/
structure Taken (w : World) (v : World × List CallRecord) : Prop where
  /-- The groups stay allocated. -/
  alloc : v.1.alloc = w.alloc
  /-- What is recorded of a slot goes on agreeing with it. -/
  sound : ∀ ep b, (w.cells ep b).Sound → (v.1.cells ep b).Sound
  /-- The keys. -/
  keys : ∀ key, v.1.keys key = if removed v.2 key then none else w.keys key
  /-- The chunks. -/
  chunk : ∀ ep b, (v.1.cells ep b).chunk =
    if erased v.2 ep b then none else (w.cells ep b).chunk

theorem Taken.refl : Taken w (w, []) := ⟨rfl, fun _ _ h => h, fun _ => rfl, fun _ _ => rfl⟩

variable {v v' : World × List CallRecord}

theorem erased_append {calls : List CallRecord} {c : CallRecord} {ep : String} {b : BlockId} :
    erased (calls ++ [c]) ep b =
      (erased calls ep b || decide (c.op = .deleteBlock ep b) && c.effective) := by
  simp [erased]

theorem removed_append {calls : List CallRecord} {c : CallRecord} :
    removed (calls ++ [c]) key =
      (removed calls key || decide (c.op = .deleteKey key) && c.effective) := by
  simp [removed]

/-- A call that deletes nothing takes nothing. -/
theorem Taken.quiet (h : Taken w v) {op : GatewayOp} {ok : Bool} :
    Taken w (v.1, v.2 ++ [⟨op, ok, false⟩]) := by
  refine ⟨h.alloc, h.sound, fun key => ?_, fun ep b => ?_⟩
  · simpa [removed_append] using h.keys key
  · simpa [erased_append] using h.chunk ep b

/-- A slot after a call to delete it. -/
theorem Taken.deleteBlock (h : Taken w v) {ep : String} {b : BlockId} {c : Cell} {ok : Bool}
    (hreduced : (v.1.cells ep b).Reduced c) :
    Taken w (v.1.setCell ep b c, v.2 ++ [⟨.deleteBlock ep b, ok,
      tookEffect v.1 (.deleteBlock ep b) (v.1.setCell ep b c)⟩]) := by
  refine ⟨h.alloc, fun ep' b' hsound => ?_, fun key => ?_, fun ep' b' => ?_⟩
  · by_cases hslot : ep' = ep ∧ b' = b
    · obtain ⟨rfl, rfl⟩ := hslot
      rw [World.cells_setCell_self]
      exact (h.sound _ _ hsound).reduced hreduced
    · rw [World.cells_setCell_of_ne _ _ hslot]
      exact h.sound _ _ hsound
  · have hold : (v.1.setCell ep b c).keys key = _ := h.keys key
    simpa [removed_append] using hold
  by_cases hslot : ep' = ep ∧ b' = b
  · obtain ⟨rfl, rfl⟩ := hslot
    rw [erased_append, World.cells_setCell_self, tookEffect, World.cells_setCell_self]
    have hold := h.chunk ep' b'
    -- the call erases the chunk, or the chunk is what it was
    rcases hreduced.1 with heq | hnone
    · rw [heq, hold]
      cases erased v.2 ep' b' <;> cases (w.cells ep' b').chunk <;> simp
    · rw [hnone]
      cases hchunk : (v.1.cells ep' b').chunk with
      | some data => simp
      | none =>
        rw [hchunk] at hold
        simpa using hold
  · have hne : GatewayOp.deleteBlock ep b ≠ .deleteBlock ep' b' := by
      rintro ⟨⟩
      exact hslot ⟨rfl, rfl⟩
    rw [World.cells_setCell_of_ne _ _ hslot, erased_append]
    simpa [hne] using h.chunk ep' b'

/-- The key after a call to delete it. -/
theorem Taken.deleteKey (h : Taken w v) {key : KeyName} {ok : Bool} {w₁ : World}
    (hw : w₁ = v.1 ∨ w₁ = v.1.setKey key none) :
    Taken w (w₁, v.2 ++ [⟨.deleteKey key, ok, tookEffect v.1 (.deleteKey key) w₁⟩]) := by
  have hchunk : ∀ ep b, (v.1.cells ep b).chunk =
      if erased (v.2 ++ [⟨.deleteKey key, ok, tookEffect v.1 (.deleteKey key) w₁⟩]) ep b then none
      else (w.cells ep b).chunk := by
    intro ep b
    simpa [erased_append] using h.chunk ep b
  rcases hw with rfl | rfl
  · refine ⟨h.alloc, h.sound, fun key' => ?_, hchunk⟩
    rw [removed_append, tookEffect]
    have hold := h.keys key'
    cases hkey : v.1.keys key <;> simpa using hold
  · refine ⟨h.alloc, h.sound, fun key' => ?_, hchunk⟩
    rw [removed_append, tookEffect]
    have hold := h.keys key'
    by_cases hkey : key' = key
    · subst hkey
      simp only [World.setKey, Function.update_self] at hold ⊢
      cases hfound : v.1.keys key' with
      | some rec => simp
      | none =>
        rw [hfound] at hold
        simpa using hold
    · simp only [World.setKey, Function.update_of_ne hkey] at hold ⊢
      simpa [Ne.symm hkey] using hold

/-- **One call of a deletion.** -/
theorem Taken.step {op : GatewayOp} {r : gatewayCalls.Res op} (hop : Deletes key op)
    (h : Taken w v) (hstep : recorded t v op r v') : Taken w v' := by
  obtain ⟨w₁, calls⟩ := v'
  obtain ⟨⟨served, hans : Answers t v.1 op r served w₁⟩, hcalls⟩ := hstep
  obtain rfl : calls = v.2 ++ [⟨op, succeeded op r, tookEffect v.1 op w₁⟩] := hcalls
  cases op with
  | getKeyInfo _ =>
    obtain rfl : w₁ = v.1 := by cases served <;> exact hans.1
    exact h.quiet
  | dial _ =>
    obtain rfl : w₁ = v.1 := hans
    exact h.quiet
  | deleteBlock ep b =>
    obtain ⟨c, rfl : w₁ = _, hreduced⟩ := hans
    exact h.deleteBlock hreduced
  | deleteKey key' =>
    refine h.deleteKey ?_
    cases served with
    | false => exact .inl hans.1
    | true => exact .inr hans
  | _ => exact hop.elim

theorem makes_deleteSlot (block : BlockLocation) (slot : ℕ) :
    (Gateway.deleteSlot block slot).Makes (Deletes key) := by
  unfold Gateway.deleteSlot
  cases endpointForSlot block (UInt8.ofNat slot) with
  | error _ => trivial
  | ok endpoint =>
    refine (Prog.makes_perform trivial).bind fun dialled => ?_
    cases dialled with
    | error _ => trivial
    | ok _ => exact (Prog.makes_perform trivial).bind fun _ => trivial

theorem makes_deleteObject : (Gateway.deleteObject key).Makes (Deletes key) := by
  have hlookup : (OmClient.getKeyInfo key).Makes (Deletes key) := by
    refine (Prog.makes_perform trivial).bind fun _ => (Changes.makes_okOr _ _).bind fun _ => ?_
    exact (Changes.makes_present _ _).bind fun _ => Prog.Makes.bind trivial fun _ => trivial
  have hdelete : ((OmClient.deleteKey key).mapErr GatewayError.ofOm).Makes (Deletes key) :=
    Prog.Makes.mapErr (Prog.Makes.bind (Prog.makes_perform (by rfl)) fun _ =>
      Changes.makes_okOr _ _)
  unfold Gateway.deleteObject
  refine hlookup.attempt.bind fun found => ?_
  cases found with
  | error _ => exact hdelete
  | ok info =>
    refine Prog.Makes.bind (Prog.makes_foldlM (fun block _ _ => ?_) _) fun _ => hdelete
    exact Prog.Makes.bind trivial fun total =>
      Prog.makes_foldlM (fun slot _ _ => makes_deleteSlot block slot) _

/-- **A deletion takes what its calls take, and nothing else.** -/
theorem Taken.of_ends {o : Outcome GatewayError Unit}
    (h : (Gateway.deleteObject key).Ends (recorded t) (w, []) o v) : Taken w v :=
  Prog.Ends.of_makes (fun _ _ _ _ hop h₁ hstep => h₁.step hop hstep) makes_deleteObject h .refl

/-- What is left of an object still is one, but for the key. -/
theorem HeldGroup.taken {a : Alloc} {loc : KeyLocation} {seg : Bytes} (h : HeldGroup w a loc seg)
    (htaken : Taken w v) : HeldGroup v.1 a loc seg where
  alloc := by rw [htaken.alloc, h.alloc]
  containerId := h.containerId
  localId := h.localId
  length := h.length
  fits := h.fits
  shard i hi := by
    have hshard := h.shard i hi
    unfold slotCell at hshard ⊢
    rw [htaken.chunk]
    split
    · exact .inl rfl
    · exact hshard
  sound i hi := htaken.sound _ _ (h.sound i hi)

theorem CommittedObject.taken (h : CommittedObject w key rec segs) (htaken : Taken w v)
    (hkey : v.1.keys key = some rec) : CommittedObject v.1 key rec segs :=
  ⟨hkey, h.groups.imp fun _ _ ⟨a, ha⟩ => ⟨a, ha.taken htaken⟩⟩

/-- **The calls of a deletion left enough of a group**: `k` of its slots had their shard, and no
call has erased it. -/
def Left (w : World) (calls : List CallRecord) (loc : KeyLocation) : Prop :=
  ∀ a, w.alloc loc.group = some a → a.place.config.data.toNat ≤
    (List.range a.place.total).countP fun i =>
      (slotCell w a.place loc.group i).chunk.isSome &&
        !erased calls (a.place.endpoint (UInt8.ofNat (i + 1)))
          (slotOf loc.group (UInt8.ofNat (i + 1)))

theorem Taken.enough_iff (h : Taken w v) (loc : KeyLocation) :
    Enough v.1 loc ↔ Left w v.2 loc := by
  unfold Enough Left
  rw [h.alloc]
  refine forall₂_congr fun a _ => ?_
  have hcount : ∀ i, (slotCell v.1 a.place loc.group i).chunk.isSome =
      ((slotCell w a.place loc.group i).chunk.isSome &&
        !erased v.2 (a.place.endpoint (UInt8.ofNat (i + 1)))
          (slotOf loc.group (UInt8.ofNat (i + 1)))) := by
    intro i
    unfold slotCell
    rw [h.chunk]
    split
    case isTrue herased =>
      rw [herased, Bool.not_true, Bool.and_false]
      rfl
    case isFalse hkept =>
      rw [Bool.not_eq_true] at hkept
      rw [hkept, Bool.not_false, Bool.and_true]
  simp only [hcount]

/-! ### What a deletion asks for -/

/-- A slot was asked to delete its block, or its datanode could not be dialled. -/
def Asked (calls : List CallRecord) (place : Placement) (g : GroupId) (i : ℕ) : Prop :=
  ⟨.dial (place.endpoint (UInt8.ofNat (i + 1))), false, false⟩ ∈ calls ∨
    ∃ c ∈ calls, c.op = .deleteBlock (place.endpoint (UInt8.ofNat (i + 1)))
      (slotOf g (UInt8.ofNat (i + 1)))

variable {a : Alloc} {block : BlockLocation} {loc : KeyLocation} {seg : Bytes} {n : ℕ}

theorem Asked.mono {calls calls' : List CallRecord} {place : Placement} {g : GroupId}
    (h : Asked calls place g n) (hsub : calls ⊆ calls') : Asked calls' place g n :=
  h.imp (@hsub _) fun ⟨c, hc, hop⟩ => ⟨c, hsub hc, hop⟩

/-- A call is answered as the services answer it. -/
theorem recorded_of_faulty {op : GatewayOp} {r : gatewayCalls.Res op}
    (h : faulty t v.1 op r w') :
    recorded t v op r (w', v.2 ++ [⟨op, succeeded op r, tookEffect v.1 op w'⟩]) :=
  ⟨h, rfl⟩

/-- The record grows. -/
theorem recorded_calls {op : GatewayOp} {r : gatewayCalls.Res op} (h : recorded t v op r v') :
    v'.2 = v.2 ++ [⟨op, succeeded op r, tookEffect v.1 op v'.1⟩] := h.2

/-- **One slot.** -/
theorem deleteSlot_always (hreads : ReadsAs w a block loc seg) (hn : n < a.place.total)
    (v : World × List CallRecord) :
    (Gateway.deleteSlot block (n + 1)).Always (recorded t)
      (fun o v' => o = .ok () ∧ v.2 ⊆ v'.2 ∧ Asked v'.2 a.place loc.group n) v := by
  have hslot : (⟨block.containerId, block.localId, UInt8.ofNat (n + 1)⟩ : BlockId) =
      slotOf loc.group (UInt8.ofNat (n + 1)) := by rw [← hreads.group]; rfl
  unfold Gateway.deleteSlot
  rw [endpointForSlot_eq hreads.members hn, hslot]
  refine ⟨⟨.ok (), _, recorded_of_faulty ⟨true, rfl⟩⟩, fun r v₁ hdial => ?_⟩
  have hcalls := recorded_calls hdial
  cases r with
  | error e => exact ⟨rfl, by simp [hcalls], .inl (by simp [hcalls, succeeded, tookEffect])⟩
  | ok _ =>
    refine ⟨⟨.ok (), _, recorded_of_faulty ⟨true, v₁.1.cells _ _, rfl, .inl rfl, .inl rfl⟩⟩,
      fun r v₂ hdelete => ?_⟩
    have hcalls₂ := recorded_calls hdelete
    have hmem : _ ∈ v₂.2 := hcalls₂ ▸ List.mem_append_right _ (List.mem_singleton_self _)
    exact ⟨rfl, by simp [hcalls₂, hcalls], .inr ⟨_, hmem, rfl⟩⟩

/-- **One group.** -/
theorem deleteSlots_always (hreads : ReadsAs w a block loc seg) (v : World × List CallRecord) :
    (((List.range a.place.total).map (· + 1)).foldlM
      (fun _ slot => Gateway.deleteSlot block slot) () : GwM Unit).Always (recorded t)
      (fun o v' => o = .ok () ∧ v.2 ⊆ v'.2 ∧
        ∀ i < a.place.total, Asked v'.2 a.place loc.group i) v := by
  refine Prog.Always.foldlM (fun l _ v₁ => v.2 ⊆ v₁.2 ∧ ∃ visited,
    visited ++ l = (List.range a.place.total).map (· + 1) ∧
      ∀ i, i + 1 ∈ visited → Asked v₁.2 a.place loc.group i) ?_ ?_
    ⟨List.Subset.refl _, [], rfl, by simp⟩
  · rintro slot l _ v₁ ⟨hsub, visited, hvisited, hasked⟩
    have hmem : slot ∈ (List.range a.place.total).map (· + 1) := hvisited ▸ by simp
    obtain ⟨n, hn, rfl⟩ := List.mem_map.mp hmem
    refine (deleteSlot_always hreads (List.mem_range.mp hn) v₁).mono fun o v₂ ho => ?_
    obtain ⟨rfl, hsub₂, hslot⟩ := ho
    refine ⟨List.Subset.trans hsub hsub₂, visited ++ [n + 1], by simpa using hvisited,
      fun i hi => ?_⟩
    rcases List.mem_append.mp hi with hi | hi
    · exact (hasked i hi).mono hsub₂
    · obtain rfl : i = n := by simpa using hi
      exact hslot
  · rintro _ v₁ ⟨hsub, visited, hvisited, hasked⟩
    rw [List.append_nil] at hvisited
    exact ⟨rfl, hsub, fun i hi => hasked i (hvisited ▸ by simpa using hi)⟩

/-- Every slot of a group was asked. -/
def AskedAll (w : World) (calls : List CallRecord) (loc : KeyLocation) : Prop :=
  ∀ a, w.alloc loc.group = some a → ∀ i < a.place.total, Asked calls a.place loc.group i

/-- **All groups.** -/
theorem deleteGroups_always {blocks : List BlockLocation} {pairs : List (KeyLocation × Bytes)}
    (hall : List.Forall₂ (fun block p => ∃ a, ReadsAs w a block p.1 p.2) blocks pairs)
    (v : World × List CallRecord) :
    (Gateway.deleteBlocks blocks).Always (recorded t)
      (fun o v' => o = .ok () ∧ ∀ p ∈ pairs, AskedAll w v'.2 p.1) v := by
  refine Prog.Always.foldlM (fun l _ v₁ => ∃ before after, before ++ after = pairs ∧
    List.Forall₂ (fun block p => ∃ a, ReadsAs w a block p.1 p.2) l after ∧
      ∀ p ∈ before, AskedAll w v₁.2 p.1) ?_ ?_ ⟨[], pairs, rfl, hall, by simp⟩
  · rintro block l _ v₁ ⟨before, after, rfl, hrest, hbefore⟩
    obtain _ | ⟨⟨a, hreads⟩, hrest⟩ := hrest
    rename_i p after
    have htotal : Gateway.deleteTotal block.ec = .ok a.place.total := by
      have hle := a.place.total_le
      unfold Placement.total at hle
      rw [hreads.ec, Gateway.deleteTotal, if_pos (by omega)]
      rfl
    rw [htotal, Prog.lift_ok_bind]
    refine (deleteSlots_always hreads v₁).mono fun o v₂ ho => ?_
    obtain ⟨rfl, hsub, hslots⟩ := ho
    refine ⟨before ++ [p], after, by simp, hrest, fun q hq => ?_⟩
    rcases List.mem_append.mp hq with hq | hq
    · exact fun a' ha' i hi => (hbefore q hq a' ha' i hi).mono hsub
    · obtain rfl := List.mem_singleton.mp hq
      intro a' ha'
      obtain rfl : a = a' := Option.some.inj (hreads.alloc.symm.trans ha')
      exact hslots
  · rintro _ v₁ ⟨before, after, rfl, hrest, hbefore⟩
    cases hrest
    exact ⟨rfl, by simpa using hbefore⟩

/-- **A deletion that has found the key asks every slot of the object.** -/
theorem deleteObject_always (hobj : CommittedObject w key rec segs) :
    (Gateway.deleteObject key).Always (recorded t) (fun _ v =>
      ⟨.getKeyInfo key, true, false⟩ ∈ v.2 → ∀ loc ∈ rec.locations, AskedAll w v.2 loc)
      (w, []) := by
  -- the last call asks nothing of a slot
  have hlast : ∀ v : World × List CallRecord,
      (⟨.getKeyInfo key, true, false⟩ ∈ v.2 → ∀ loc ∈ rec.locations, AskedAll w v.2 loc) →
      ((OmClient.deleteKey key).mapErr GatewayError.ofOm).Always (recorded t) (fun _ v =>
        ⟨.getKeyInfo key, true, false⟩ ∈ v.2 → ∀ loc ∈ rec.locations, AskedAll w v.2 loc) v := by
    intro v hv
    refine ⟨⟨.error .notFound, _, recorded_of_faulty ⟨false, rfl, _, rfl⟩⟩,
      fun r v₁ hdelete => ?_⟩
    have hcalls := recorded_calls hdelete
    have hv₁ : ⟨.getKeyInfo key, true, false⟩ ∈ v₁.2 →
        ∀ loc ∈ rec.locations, AskedAll w v₁.2 loc := by
      intro hfound loc hloc a' ha' i hi
      have hfound' : ⟨.getKeyInfo key, true, false⟩ ∈ v.2 := by simpa [hcalls] using hfound
      exact (hv hfound' loc hloc a' ha' i hi).mono (by simp [hcalls])
    cases r <;> exact hv₁
  unfold Gateway.deleteObject OmClient.getKeyInfo
  refine ⟨⟨.error .notFound, _, recorded_of_faulty ⟨false, rfl, .inl ⟨_, rfl⟩⟩⟩,
    fun r v₁ hlookup => ?_⟩
  have hcalls := recorded_calls hlookup
  obtain ⟨served, hans⟩ := hlookup.1
  cases served with
  | false =>
    have hnot : ⟨.getKeyInfo key, true, false⟩ ∉ v₁.2 := by
      obtain ⟨-, ⟨e, rfl⟩ | rfl⟩ := hans <;> simp [hcalls, succeeded]
    obtain ⟨-, ⟨e, rfl⟩ | rfl⟩ := hans <;> exact hlast v₁ fun h => absurd h hnot
  | true =>
    obtain ⟨hw, info, rfl, -, -, hlooks⟩ := (answers_getKeyInfo hobj.key).mp hans
    obtain ⟨blocks, hblocks, hreads⟩ := exists_blocks hlooks
      (hobj.groups.imp fun _ _ ⟨a, ha⟩ => ⟨a, ha.toLocatedGroup⟩)
    rw [← blocksOfKeyInfo_eq] at hblocks
    show Prog.Always _ _ ((Prog.lift (blocksOfKeyInfo info) >>= _ : OmM KeyMeta).attempt >>= _) _
    rw [hblocks]
    change Prog.Always _ _ (Gateway.deleteBlocks blocks >>= fun _ =>
      (OmClient.deleteKey key).mapErr GatewayError.ofOm) _
    refine Prog.Always.bind (I := fun _ v => ∀ loc ∈ rec.locations, AskedAll w v.2 loc) ?_
      ((deleteGroups_always hreads v₁).mono fun o v₂ ho => ?_)
    · exact fun _ v₂ hall => hlast v₂ fun _ => hall
    · obtain ⟨rfl, hpairs⟩ := ho
      have hfst : (rec.locations.zip segs).map Prod.fst = rec.locations :=
        List.map_fst_zip hobj.groups.length_eq.le
      intro loc hloc
      rw [← hfst] at hloc
      obtain ⟨p, hp, rfl⟩ := List.mem_map.mp hloc
      exact hpairs p hp

end Delete

/-- **What a put has committed is an object**, in every run of puts, gets and deletes. -/
theorem committedObject_of_reachable {gw : Gateway} (hisal : gw.isal.Correct)
    {req : Tid → Request} {P : Pool gatewayCalls GatewayError Reply Tid World}
    (hP : Pool.Reachable gatewaySystem (fun t => (req t).run gw) World.empty P) {key : KeyName}
    {rec : KeyRecord} (hkey : P.world.keys key = some rec) :
    ∃ u body metadata tags, req u = .put key body metadata tags ∧
      CommittedObject P.world key rec (Blocks.chunks gw.blockGroupSize body.bytes) := by
  have hI := (allSafe_of_reachable hisal hP).inv
  obtain ⟨u, hlast⟩ := hI.current key rec hkey
  obtain ⟨body, metadata, tags, hreq, -, hall⟩ :=
    hI.sealed u key _ (List.mem_of_mem_filter (List.mem_of_getLast? hlast))
  have hfits : ∀ seg ∈ Blocks.chunks gw.blockGroupSize body.bytes, seg.length ≤ maxLen :=
    fun seg hseg => (Blocks.length_le_of_mem_chunks hseg).trans body.length_le
  refine ⟨u, body, metadata, tags, hreq, hkey, ?_⟩
  refine ((List.forall₂_and_left _ _).mpr ⟨hfits, hall.flip⟩).flip.imp fun loc seg h => ?_
  obtain ⟨hfit, a, hsealed⟩ := h
  exact ⟨a, hsealed.located, hfit, hsealed.shard, fun _ hi => hsealed.sound hi⟩

end Deletion

open Deletion Placement in
/-- **A failed deletion is harmless exactly if its calls left enough.** For every committed object,
every way the calls of a `delete_object` that fails are answered, and a later `get_object` while all
services are healthy: the get comes to its end, and it returns the bytes of the object exactly if
no call of the deletion has removed the key, and in each group `k` of the slots that had their shard
were erased by no call. If the deletion found the key, each slot was asked to delete its block,
unless its datanode could not be dialled. -/
theorem failed_delete_iff (gw : Gateway) (hisal : gw.isal.Correct) {t u : Tid} {w w' : World}
    {key : KeyName} {rec : KeyRecord} {segs : List Bytes} (hobj : CommittedObject w key rec segs)
    {e : GatewayError} {calls : List CallRecord}
    (hdelete : (Gateway.deleteObject key).Ends (recorded t) (w, []) (.err e) (w', calls)) :
    (⟨.getKeyInfo key, true, false⟩ ∈ calls → ∀ loc ∈ rec.locations, AskedAll w calls loc) ∧
    (∃ o w'', (gw.getObject key).Ends (healthy u) w' o w'') ∧
    ((∀ o w'', (gw.getObject key).Ends (healthy u) w' o w'' →
        ∃ reply, o = .ok reply ∧ reply.body = segs.flatten) ↔
      removed calls key = false ∧ ∀ loc ∈ rec.locations, Left w calls loc) := by
  have htaken : Taken w (w', calls) := .of_ends hdelete
  refine ⟨(deleteObject_always hobj).of_ends hdelete, ?_⟩
  have hkey := htaken.keys key
  cases hremoved : removed calls key with
  | false =>
    rw [hremoved, if_neg (by simp), hobj.key] at hkey
    have hget := getObject_always gw u hisal (hobj.taken htaken hkey)
    simp only [htaken.enough_iff] at hget
    obtain ⟨o, w'', hend, ho⟩ := hget.exists_ends
    refine ⟨⟨o, w'', hend⟩, fun h => ⟨rfl, ?_⟩, fun h o w'' hend => ?_⟩
    · rcases ho with ⟨hleft, -⟩ | ⟨-, e, rfl⟩
      · exact hleft
      · obtain ⟨reply, hreply, -⟩ := h _ _ hend
        cases hreply
    · rcases hget.of_ends hend with ⟨-, hok⟩ | ⟨hnot, -⟩
      · exact hok
      · exact absurd h.2 hnot
  | true =>
    rw [hremoved, if_pos rfl] at hkey
    have hget := getObject_always_of_none gw u hkey
    obtain ⟨o, w'', hend, rfl⟩ := hget.exists_ends
    refine ⟨⟨_, w'', hend⟩, fun h => ?_, fun h => by cases h.1⟩
    obtain ⟨reply, hreply, -⟩ := h _ _ hend
    cases hreply

/-! ### One object of one byte -/

namespace Deletion

open Consistency Placement

/-- The key of the object. -/
def oneKey : KeyName := ⟨"b", "k"⟩

/-- An object of one byte. -/
def oneObject : World where
  alloc g := if g = (1, 1) then some ⟨0, mirror⟩ else none
  keys key := if key = oneKey then some ⟨[⟨1, 1, 0, 1, none⟩], 1, []⟩ else none
  cells _ b := slotWritten mirror [5] (b.replicaIndex.toNat - 1)
  log := []

theorem committed_oneObject :
    CommittedObject oneObject oneKey ⟨[⟨1, 1, 0, 1, none⟩], 1, []⟩ [[5]] := by
  refine ⟨rfl, .cons ⟨⟨0, mirror⟩, ⟨rfl, by decide, by decide, rfl⟩, by decide, ?_, ?_⟩ .nil⟩
  · intro i hi
    right
    have hlt : i < 2 := hi
    have hindex : (UInt8.ofNat (i + 1)).toNat - 1 = i := by
      rw [UInt8.toNat_ofNat']
      omega
    change some (slotShard mirror [5] ((UInt8.ofNat (i + 1)).toNat - 1)) = _
    rw [hindex]
  · rintro i - _ _ ⟨⟩ ⟨⟩
    exact verify_slotDigests mirror [5] _

/-- What the lookup of the object is answered. -/
def oneInfo : KeyInfo := ⟨1, [], 0, [[mirrorLocation 1]]⟩

theorem answers_oneInfo :
    Answers 0 oneObject (.getKeyInfo oneKey) (.ok (some oneInfo)) true oneObject :=
  (answers_getKeyInfo rfl).mpr ⟨rfl, oneInfo, rfl, rfl, rfl,
    .cons ⟨rfl, rfl, rfl, rfl, ⟨0, mirror⟩, rfl, presents_mirrorLocation⟩ .nil⟩

/-- The object after both of its blocks have been deleted. -/
def emptied : World :=
  (oneObject.setCell "http://a:1" ⟨1, 1, 1⟩ ⟨none, none⟩).setCell "http://b:1" ⟨1, 1, 2⟩
    ⟨none, none⟩

/-- The calls of a deletion that reaches both datanodes. -/
def emptying : List CallRecord :=
  [⟨.getKeyInfo oneKey, true, false⟩, ⟨.dial "http://a:1", true, false⟩,
    ⟨.deleteBlock "http://a:1" ⟨1, 1, 1⟩, false, true⟩, ⟨.dial "http://b:1", true, false⟩,
    ⟨.deleteBlock "http://b:1" ⟨1, 1, 2⟩, false, true⟩, ⟨.deleteKey oneKey, false, false⟩]

/-- Both datanodes do as they are told, and the manager cannot be reached for the last call. -/
theorem ends_emptied : (Gateway.deleteObject oneKey).Ends (recorded 0) (oneObject, [])
    (.err (.om (.rpc "unavailable"))) (emptied, emptying) := by
  refine ⟨.ok (some oneInfo), _, recorded_of_faulty ⟨true, answers_oneInfo⟩, ?_⟩
  refine ⟨.ok (), _, recorded_of_faulty ⟨true, rfl⟩, ?_⟩
  refine ⟨.ok (), _, recorded_of_faulty ⟨true, ⟨none, none⟩, rfl, .inr rfl, .inr rfl⟩, ?_⟩
  refine ⟨.ok (), _, recorded_of_faulty ⟨true, rfl⟩, ?_⟩
  refine ⟨.ok (), _, recorded_of_faulty ⟨true, ⟨none, none⟩, rfl, .inr rfl, .inr rfl⟩, ?_⟩
  exact ⟨.error (.rpc "unavailable"), _, recorded_of_faulty ⟨false, rfl, _, rfl⟩, rfl, rfl⟩

/-- The object after the block of its first slot has been deleted. -/
def halved : World := oneObject.setCell "http://a:1" ⟨1, 1, 1⟩ ⟨none, none⟩

/-- The calls of a deletion that reaches the first datanode only. -/
def halving : List CallRecord :=
  [⟨.getKeyInfo oneKey, true, false⟩, ⟨.dial "http://a:1", true, false⟩,
    ⟨.deleteBlock "http://a:1" ⟨1, 1, 1⟩, false, true⟩, ⟨.dial "http://b:1", false, false⟩,
    ⟨.deleteKey oneKey, false, false⟩]

/-- The first datanode deletes the block and its answer is lost, the second cannot be dialled, and
the manager cannot be reached for the last call. -/
theorem ends_halved : (Gateway.deleteObject oneKey).Ends (recorded 0) (oneObject, [])
    (.err (.om (.rpc "unavailable"))) (halved, halving) := by
  refine ⟨.ok (some oneInfo), _, recorded_of_faulty ⟨true, answers_oneInfo⟩, ?_⟩
  refine ⟨.ok (), _, recorded_of_faulty ⟨true, rfl⟩, ?_⟩
  refine ⟨.error .alreadyExists, _,
    recorded_of_faulty ⟨false, ⟨none, none⟩, rfl, .inr rfl, .inr rfl⟩, ?_⟩
  refine ⟨.error "refused", _, recorded_of_faulty ⟨false, rfl⟩, ?_⟩
  exact ⟨.error (.rpc "unavailable"), _, recorded_of_faulty ⟨false, rfl, _, rfl⟩, rfl, rfl⟩

end Deletion

open Deletion Placement in
/-- A deletion that has erased one of two shards: the object is read from the other. -/
theorem failed_delete_iff_halved :
    ((⟨.deleteBlock "http://a:1" ⟨1, 1, 1⟩, false, true⟩ : CallRecord) ∈ halving ∧
      ∀ loc ∈ [(⟨1, 1, 0, 1, none⟩ : KeyLocation)], AskedAll oneObject halving loc) ∧
    (∃ o w'', (Gateway.reference.getObject oneKey).Ends (healthy 1) halved o w'') ∧
    ∀ o w'', (Gateway.reference.getObject oneKey).Ends (healthy 1) halved o w'' →
      ∃ reply, o = .ok reply ∧ reply.body = [5] := by
  obtain ⟨hasked, hend, hiff⟩ := failed_delete_iff (u := 1) Gateway.reference
    IsaL.reference_correct committed_oneObject ends_halved
  refine ⟨⟨by decide, hasked (by decide)⟩, hend, hiff.mpr ⟨by decide, ?_⟩⟩
  intro loc hloc a ha
  obtain rfl := List.mem_singleton.mp hloc
  obtain rfl : ⟨0, mirror⟩ = a := Option.some.inj ha
  decide

open Deletion Placement in
/-- **The object is lost though its deletion has failed.** -/
theorem failed_delete_loses :
    CommittedObject oneObject oneKey ⟨[⟨1, 1, 0, 1, none⟩], 1, []⟩ [[5]] ∧
    ∃ w' calls, (Gateway.deleteObject oneKey).Ends (recorded 0) (oneObject, [])
        (.err (.om (.rpc "unavailable"))) (w', calls) ∧
      ∃ o w'', (Gateway.reference.getObject oneKey).Ends (healthy 1) w' o w'' ∧
        ∃ e, o = .err e := by
  refine ⟨committed_oneObject, emptied, emptying, ends_emptied, ?_⟩
  have hleft : CommittedObject emptied oneKey ⟨[⟨1, 1, 0, 1, none⟩], 1, []⟩ [[5]] :=
    committed_oneObject.taken (.of_ends ends_emptied) rfl
  obtain ⟨o, w'', hend, ⟨henough, -⟩ | ⟨-, e, rfl⟩⟩ := (getObject_always Gateway.reference 1
    IsaL.reference_correct hleft).exists_ends
  · exact absurd (henough _ (List.mem_singleton_self _) ⟨0, mirror⟩ rfl) (by decide)
  · exact ⟨_, w'', hend, e, rfl⟩

end OzoneRust
