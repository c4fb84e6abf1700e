import OzoneRust.Ec.Reference
import OzoneRust.Gateway.Backend

/-!
# The services around the gateway

What the Ozone Manager and the datanodes may answer to the gateway's calls, and what the
calls do to them. The manager is not in the repository, so what it does is an assumption, made
as weak as the properties allow. The datanodes are, and `OzoneRust.Gateway.Cluster` has the
gateway run on their handlers; here they are as much of them as a slot shows:

* a call may fail, and a failed call may nevertheless have taken effect: the last argument of
  `OzoneRust.Answers`, whether the call was served, is not visible to the caller;
* a block group is allocated once and never again, for one placement, and all groups
  allocated to one open key carry one configuration (`OzoneRust.Grants`);
* a commit replaces the key at once, and a lookup answers with the committed locations, the
  members of each pipeline in any order;
* the completion of a multipart upload replaces the key at once, with an ETag of its own as the
  only one in the metadata;
* a write that fails leaves anything in its slot, and a delete leaves any part of it;
* a read fails, returns what the slot stores, unless this does not agree with the digests on
  record for it, or returns bytes of another length.

The world keeps a log of all answers. `OzoneRust.lastCommit` reads off it the commit that
was applied to a key last.
-/

namespace OzoneRust

/-! ### The world -/

/-- A block group: a block without its slot. -/
abbrev GroupId := ContainerId × LocalId

/-- The group of a location. -/
def KeyLocation.group (loc : KeyLocation) : GroupId :=
  (loc.containerId.toUInt64, loc.localId.toUInt64)

/-- The group of a block of the gateway. -/
def BlockLocation.group (block : BlockLocation) : GroupId := (block.containerId, block.localId)

theorem BlockLocation.IsRead.group {block : BlockLocation} {loc : KeyLocation} {place : Placement}
    (h : block.IsRead loc place) : block.group = loc.group := by
  rw [BlockLocation.group, KeyLocation.group, h.containerId, h.localId]

/-- The group of a block on a datanode. -/
def BlockId.group (b : BlockId) : GroupId := (b.container, b.localId)

/-- The slot of a group. -/
def slotOf (g : GroupId) (slot : UInt8) : BlockId := ⟨g.1, g.2, slot⟩

theorem slotOf_ne {g : GroupId} {i n : ℕ} (hi : i < 64) (hn : n < 64) (hne : i ≠ n) :
    slotOf g (UInt8.ofNat (i + 1)) ≠ slotOf g (UInt8.ofNat (n + 1)) := by
  intro h
  have hnat := congrArg (fun b : BlockId => b.replicaIndex.toNat) h
  simp only [slotOf, UInt8.toNat_ofNat'] at hnat
  omega

/-- The concurrent calls of the gateway, by number. -/
abbrev Tid := ℕ

/-- An allocated group: the call it was allocated to, and where it is placed. -/
structure Alloc where
  /-- The call. -/
  owner : Tid
  /-- The placement. -/
  place : Placement

/-- A committed key. -/
structure KeyRecord where
  /-- The locations. -/
  locations : List KeyLocation
  /-- The size. -/
  size : UInt64
  /-- The metadata. -/
  metadata : List (String × Option String)

/-- A slot on a datanode: the bytes of its chunk, and the digests of the chunk that its block has
on record. -/
@[ext] structure Cell where
  /-- The bytes. -/
  chunk : Option Bytes
  /-- The digests, if there are any. -/
  digests : Option ChecksumData

/-- The digests that a block has for the one chunk of its slot. -/
def slotDigests? (bd : BlockData) : Option ChecksumData :=
  (bd.chunks.find? fun c => c.chunkName = "0").bind (·.checksumData)

/-- What a read gives: a chunk that does not agree with its digests is refused, if the read is to
verify it. -/
def Cell.read (c : Cell) (verify : Bool) : Option Bytes :=
  match c.chunk, c.digests with
  | some data, some cd =>
    if verify = false ∨ Checksum.verify data cd = .ok () then some data else none
  | chunk, _ => chunk

/-- The chunk agrees with its digests. -/
def Cell.Sound (c : Cell) : Prop :=
  ∀ data cd, c.chunk = some data → c.digests = some cd → Checksum.verify data cd = .ok ()

theorem Cell.read_eq {c : Cell} (h : c.Sound) (verify : Bool) : c.read verify = c.chunk := by
  unfold Cell.read
  split
  case h_1 data cd hchunk hdigests =>
    rw [if_pos (.inr (h data cd hchunk hdigests)), hchunk]
  case h_2 => rfl

/-- What happened: a call of the gateway started, or one of its requests was answered. -/
inductive Event where
  /-- Call `t` started. -/
  | start (t : Tid)
  /-- A request of call `t` was answered; `served` says whether the service acted on it. -/
  | answer (t : Tid) (op : GatewayOp) (r : gatewayCalls.Res op) (served : Bool)

/-- The call an event belongs to. -/
def Event.tid : Event → Tid
  | .start t => t
  | .answer t _ _ _ => t

/-- The services, and the log of what happened. -/
structure World where
  /-- The allocated groups. -/
  alloc : GroupId → Option Alloc
  /-- The committed keys. -/
  keys : KeyName → Option KeyRecord
  /-- The slots on the datanodes. -/
  cells : String → BlockId → Cell
  /-- The log, oldest first. -/
  log : List Event

/-- No key, no block, nothing stored. -/
def World.empty : World := ⟨fun _ => none, fun _ => none, fun _ _ => ⟨none, none⟩, []⟩

namespace World

/-- The world with another key record. -/
def setKey (w : World) (key : KeyName) (rec : Option KeyRecord) : World :=
  { w with keys := Function.update w.keys key rec }

/-- The world with another cell. -/
def setCell (w : World) (ep : String) (b : BlockId) (c : Cell) : World :=
  { w with cells := Function.update w.cells ep (Function.update (w.cells ep) b c) }

theorem cells_setCell_self (w : World) (ep : String) (b : BlockId) (c : Cell) :
    (w.setCell ep b c).cells ep b = c := by
  simp [setCell]

theorem cells_setCell_of_ne (w : World) {ep ep' : String} {b b' : BlockId} (c : Cell)
    (h : ¬(ep' = ep ∧ b' = b)) : (w.setCell ep b c).cells ep' b' = w.cells ep' b' := by
  simp only [setCell]
  by_cases hep : ep' = ep
  · rw [hep, Function.update_self, Function.update_of_ne fun hb => h ⟨hep, hb⟩]
  · rw [Function.update_of_ne hep]

/-- The world in which the groups of some locations are allocated to call `t`. -/
def allocate (w : World) (t : Tid) (grants : List (KeyLocation × Placement)) : World :=
  { w with
    alloc := fun g => match grants.find? fun x => x.1.group = g with
      | some x => some ⟨t, x.2⟩
      | none => w.alloc g }

/-- The world with one more event. -/
def logged (w : World) (e : Event) : World := { w with log := w.log ++ [e] }

end World

/-! ### Answers -/

/-- Groups the manager may allocate to call `t`. -/
structure Grants (w : World) (t : Tid) (grants : List (KeyLocation × Placement)) : Prop where
  /-- No group twice. -/
  nodup : (grants.map (·.1.group)).Nodup
  /-- No group that was allocated before. -/
  fresh : ∀ x ∈ grants, w.alloc x.1.group = none
  /-- Each location carries its placement. -/
  presents : ∀ x ∈ grants, x.1.Presents x.2
  /-- One configuration. -/
  config : ∀ x ∈ grants, (∀ y ∈ grants, y.2.config = x.2.config) ∧
    ∀ g a, w.alloc g = some a → a.owner = t → a.place.config = x.2.config

/-- A location in the answer to a lookup: the committed one, with the placement of its
group. -/
structure LooksUp (w : World) (loc committed : KeyLocation) : Prop where
  /-- The container. -/
  containerId : loc.containerId = committed.containerId
  /-- The block within it. -/
  localId : loc.localId = committed.localId
  /-- The offset. -/
  offset : loc.offset = committed.offset
  /-- The length. -/
  length : loc.length = committed.length
  /-- The placement. -/
  presents : ∃ a, w.alloc committed.group = some a ∧ loc.Presents a.place

/-- What deleting may leave of a cell. -/
def Cell.Reduced (c c' : Cell) : Prop :=
  (c'.chunk = c.chunk ∨ c'.chunk = none) ∧ (c'.digests = c.digests ∨ c'.digests = none)

theorem Cell.Sound.reduced {c c' : Cell} (h : c.Sound) (hred : c.Reduced c') : c'.Sound := by
  obtain ⟨hchunk, hdigests⟩ := hred
  intro data cd hdata hcd
  rcases hchunk with hchunk | hchunk
  · rcases hdigests with hdigests | hdigests
    · exact h data cd (hchunk ▸ hdata) (hdigests ▸ hcd)
    · cases hdigests.symm.trans hcd
  · cases hchunk.symm.trans hdata

/-- **What a call of `t` may be answered, and what it does.** -/
def Answers (t : Tid) (w : World) : (op : GatewayOp) → gatewayCalls.Res op → Bool → World → Prop
  | .createKey _ _ _, r, true, w' => ∃ grants, Grants w t grants ∧ w' = w.allocate t grants ∧
      ∀ resp, r = .ok resp → ∀ info, resp.keyInfo = some info →
        info.keyLocationList.getLast?.getD [] = grants.map (·.1)
  | .createKey _ _ _, r, false, w' => w' = w ∧ ∃ e, r = .error e
  | .allocateBlock _ _, r, true, w' => ∃ x, Grants w t [x] ∧ w' = w.allocate t [x] ∧
      ∀ loc, r = .ok (some loc) → loc = x.1
  | .allocateBlock _ _, r, false, w' => w' = w ∧ ∃ e, r = .error e
  | .commitKey key _ locations size metadata, _, true, w' =>
      w' = w.setKey key (some ⟨locations, size, metadata⟩)
  | .commitKey _ _ _ _ _, r, false, w' => w' = w ∧ ∃ e, r = .error e
  | .getKeyInfo key, r, true, w' => w' = w ∧ match w.keys key with
      | none => r = .error .notFound
      | some rec => ∃ info, r = .ok (some info) ∧ info.dataSize = rec.size ∧
          info.metadata = rec.metadata ∧
          List.Forall₂ (LooksUp w) (info.keyLocationList.getLast?.getD []) rec.locations
  | .getKeyInfo _, r, false, w' => w' = w ∧ ((∃ e, r = .error e) ∨ r = .ok none)
  | .deleteKey key, _, true, w' => w' = w.setKey key none
  | .deleteKey _, r, false, w' => w' = w ∧ ∃ e, r = .error e
  | .completeMultipart key _ parts, r, true, w' => ∃ rec hash,
      w' = w.setKey key (some rec) ∧
        (rec.metadata.filter fun kv => kv.1 = "ETAG") =
          [("ETAG", some (hash ++ "-" ++ toString parts.length))] ∧
        ∀ etag, r = .ok (some (some etag)) → etag = hash ++ "-" ++ toString parts.length
  | .completeMultipart _ _ _, r, false, w' => w' = w ∧ ∃ e, r = .error e
  | .dial _, _, _, w' => w' = w
  | .createContainer _ _ _, _, _, w' => w' = w
  | .writeChunk ep b _ data, r, _, w' => ∃ c,
      w' = w.setCell ep b { w.cells ep b with chunk := c } ∧ (r = .ok () → c = some data)
  | .putBlock ep bd _, r, _, w' => ∃ c,
      w' = w.setCell ep bd.blockId { w.cells ep bd.blockId with digests := c } ∧
        (r = .ok () → c = slotDigests? bd)
  | .readChunk ep b _ verify, r, true, w' => w' = w ∧ match (w.cells ep b).read verify with
      | some data => r = .ok data
      | none => ∃ e, r = .error e
  | .readChunk ep b _ _, r, false, w' => w' = w ∧ ((∃ e, r = .error e) ∨
      ∃ data stored, r = .ok data ∧ (w.cells ep b).chunk = some stored ∧
        data.length ≠ stored.length)
  | .deleteBlock ep b, _, _, w' => ∃ c, w' = w.setCell ep b c ∧ (w.cells ep b).Reduced c

/-- A read that is served gives what the slot has. -/
theorem answers_read {t : Tid} {w : World} {ep : String} {b : BlockId} {chunk : ChunkInfo}
    {verify : Bool} {data : Bytes} (h : (w.cells ep b).read verify = some data) :
    Answers t w (.readChunk ep b chunk verify) (.ok data) true w := by
  simp only [Answers, h, true_and]
  rfl

/-- The services as a system: every start and every answer is logged. -/
def gatewaySystem : System gatewayCalls Tid World where
  starts t w w' := w' = w.logged (.start t)
  answers t w op r w' :=
    ∃ served w₁, Answers t w op r served w₁ ∧ w' = w₁.logged (.answer t op r served)

/-- A run goes on with an answer. -/
theorem reachable_answer {ρ : Type} {prog : Tid → GwM ρ} {w₀ : World}
    {P : Pool gatewayCalls GatewayError ρ Tid World}
    (hP : Pool.Reachable gatewaySystem prog w₀ P) (t : Tid) (op : GatewayOp)
    {next : gatewayCalls.Res op → GwM ρ} (ht : P.threads t = some (.call op next))
    (r : gatewayCalls.Res op) (served : Bool) {w : World} (h : Answers t P.world op r served w) :
    Pool.Reachable gatewaySystem prog w₀
      ⟨Function.update P.threads t (some (next r)), w.logged (.answer t op r served)⟩ :=
  hP.tail (.call ht ⟨served, w, h, rfl⟩)

/-- A gateway for runs on fixed inputs. -/
def Gateway.reference : Gateway := ⟨IsaL.reference, 1, Nat.one_pos, fun _ => "", id⟩

namespace Placement

/-- Two datanodes, one data and one parity shard. -/
def mirror : Placement where
  ecProto := ⟨1, 1, "rs", 1⟩
  config := ⟨1, 1, 1, .rs⟩
  members := [(⟨"a", [⟨"REPLICATION", 1⟩]⟩, 1), (⟨"b", [⟨"REPLICATION", 1⟩]⟩, 2)]
  config_eq := by decide
  valid := ⟨⟨by decide, by decide, by decide, by decide, by decide, by decide⟩, by decide⟩
  slots := by decide
  ports := by decide

/-- A group on these datanodes, with a segment of this length. -/
def mirrorLocation (length : UInt64) : KeyLocation :=
  ⟨1, 1, 0, length, some ⟨mirror.members.map Prod.fst, some mirror.ecProto,
    mirror.members.map Prod.snd⟩⟩

theorem presents_mirrorLocation {length : UInt64} : (mirrorLocation length).Presents mirror :=
  ⟨_, rfl, rfl, rfl, .refl _⟩

/-- The first group of all may be this one. -/
theorem grants_mirror {w : World} {t : Tid} {length : UInt64} (h : ∀ g, w.alloc g = none) :
    Grants w t [(mirrorLocation length, mirror)] where
  nodup := by simp
  fresh x _ := h _
  presents := by simpa using presents_mirrorLocation
  config x hx := by
    obtain rfl := List.mem_singleton.mp hx
    exact ⟨by simp, fun g a ha => by cases (h g).symm.trans ha⟩

end Placement

/-! ### The log -/

/-- The commit an event applies: who, which key, which locations. -/
def Event.commit? : Event → Option (Tid × KeyName × List KeyLocation)
  | .answer t (.commitKey key _ locations _ _) _ true => some (t, key, locations)
  | _ => none

/-- The commits applied so far, oldest first. -/
def commits (log : List Event) : List (Tid × KeyName × List KeyLocation) :=
  log.filterMap Event.commit?

/-- The commit applied to a key last. -/
def lastCommit (log : List Event) (key : KeyName) : Option (Tid × KeyName × List KeyLocation) :=
  ((commits log).filter fun c => c.2.1 = key).getLast?

/-! ### Requests -/

/-- A call of the gateway. -/
inductive Request where
  /-- `put_object`. -/
  | put (key : KeyName) (body : Buffer) (metadata tags : List (String × String))
  /-- `get_object`. -/
  | get (key : KeyName)
  /-- `delete_object`. -/
  | delete (key : KeyName)

/-- What a call returns. -/
inductive Reply where
  /-- The ETag. -/
  | put (etag : String)
  /-- The object. -/
  | get (reply : Gateway.GetReply)
  /-- Nothing. -/
  | delete

/-- The program of a call. -/
def Request.run (gw : Gateway) : Request → GwM Reply
  | .put key body metadata tags => do return .put (← gw.putObject key body.bytes metadata tags)
  | .get key => do return .get (← gw.getObject key)
  | .delete key => do
    Gateway.deleteObject key
    return .delete

end OzoneRust
