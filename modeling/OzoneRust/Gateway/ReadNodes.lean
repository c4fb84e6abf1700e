import OzoneRust.Gateway.EndToEnd

/-!
# Reads on the datanodes

A read is not one step on a datanode: the handler reads the chunk, then the record, and whether the
client gets the chunk is only known at the end, when it may be gone already. So a `get_object` is
followed here call by call. What is read is the shard at the call that reads it, whatever happens to
the slot after (`OzoneRust.EndToEnd.Gathered.eq_shard`), and the digests on record agree with it
whenever the record is read (`OzoneRust.EndToEnd.Gathered.verified`). So a slot is read unless a
dial, a request or a call on a store has failed, which the log shows
(`OzoneRust.ClusterWorld.attempts`); the rest is as in `OzoneRust.Consistency`, slot by slot
(`OzoneRust.EndToEnd.readSlot_safe`), group by group (`OzoneRust.EndToEnd.readBlockGroup_safe`)
and object by object (`OzoneRust.EndToEnd.getObject_safe`).
-/

namespace OzoneRust

/-! ### What the log says -/

/-- What the gateway sees of a log. -/
def seenLog (log : List ClusterEvent) : List MultipartEvent := log.filterMap ClusterEvent.seen?

/-- A call on a store has succeeded, and the answer has come back. -/
def cameBack {α : Type} : Except String (Except StorageError α) → Bool
  | .ok (.ok _) => true
  | _ => false

/-- How call `t` fared at a slot: the datanode could not be dialled, the request could not be sent,
the chunk could not be read, or the record could be read or not. -/
def ClusterEvent.attempt? (t : Tid) : ClusterEvent → Option Bool
  | .service u (.object (.dial _)) (.error _) _ => if u = t then some false else none
  | .send u (.readChunk _ _ _ _) (.error _) => if u = t then some false else none
  | .store u (.readChunk _ _ _ _) _ (.readChunk _ _) r =>
    if u = t ∧ cameBack r = false then some false else none
  | .store u (.readChunk _ _ _ _) _ (.getBlock _) r => if u = t then some (cameBack r) else none
  | _ => none

/-- How call `t` fared at the slots it went to, one after the other. -/
def ClusterWorld.attempts (w : ClusterWorld) (t : Tid) : List Bool :=
  (w.log.filterMap (ClusterEvent.attempt? t)).reverse

namespace EndToEnd

open Pieces Consistency RelyGuarantee Layout

/-- The request for slot `i + 1` of a group. -/
def slotRead (place : Placement) (g : GroupId) (i : ℕ) : GatewayOp :=
  .readChunk (place.endpoint (UInt8.ofNat (i + 1))) (slotOf g (UInt8.ofNat (i + 1)))
    Gateway.readRequest true

/-- What carries out a request of the operations on whole objects. -/
def handleObject {ε : Type} (op : gatewayCalls.Op) : Prog clusterCalls ε (gatewayCalls.Res op) :=
  handle (.object op)

theorem interpret_object {ε α : Type} (p : Prog gatewayCalls ε α) :
    (p.embed objectCalls).interpret handle = p.interpret handleObject :=
  (Prog.interpret_embed p).trans
    (congrArg (fun h => p.interpret h) (funext fun op => Prog.bind_done (handleObject op)))

section Read

variable {gw : Gateway} {req : Tid → MultipartRequest} {w w' : ClusterWorld} {t : ℕ}

/-- What no step spoils where the pieces are seen is kept by every call. -/
theorem CGuar.keeps {F : World → Prop} (hF : ∀ v a b, Guar (viewed req) v a b → F a → F b) {u : ℕ}
    (hG : CGuar gw req u w w') (h : F (view req w.services)) : F (view req w'.services) := by
  rcases hG.seen with heq | ⟨-, -, hG⟩
  · rw [heq]
    exact h
  · have hsteps := hG.seen
    generalize view req w'.services = b at hsteps ⊢
    induction hsteps with
    | refl => exact h
    | tail _ hstep ih =>
      obtain ⟨-, -, v, -, hguar⟩ := hstep
      exact hF v _ _ hguar ih

theorem CGuar.alloc {u : ℕ} (hG : CGuar gw req u w w') (g : GroupId) (a : Alloc)
    (h : w.alloc g = some a) : w'.alloc g = some a := by
  have hkept := hG.keeps (F := fun v => v.alloc g = some ⟨2 * a.owner, a.place⟩)
    (fun _ _ _ hG h => hG.alloc _ _ h) (alloc_view (w := w.services) h)
  obtain ⟨a', ha', heq⟩ := exists_alloc_of_view hkept
  injection heq with howner hplace
  obtain rfl : a = a' := by
    cases a
    cases a'
    simp only [Alloc.mk.injEq] at hplace howner ⊢
    exact ⟨Nat.eq_of_mul_eq_mul_left Nat.two_pos howner, hplace⟩
  exact ha'

/-! ### Attempts -/

theorem attempts_cons {e : ClusterEvent} (hlog : w'.log = e :: w.log) :
    w'.attempts t = w.attempts t ++ (e.attempt? t).toList := by
  rw [ClusterWorld.attempts, hlog, List.filterMap_cons]
  cases e.attempt? t <;> simp [ClusterWorld.attempts]

/-- The attempts of a call are its own. -/
theorem attempt?_of_ne {e : ClusterEvent} (h : e.tid ≠ t) : e.attempt? t = none := by
  cases e with
  | start u => rfl
  | service u op r served =>
    have hne : u ≠ t := h
    cases op with
    | object op =>
      cases op with
      | dial ep =>
        cases r with
        | error err => exact if_neg hne
        | ok _ => rfl
      | _ => rfl
    | _ => rfl
  | send u greq r =>
    have hne : u ≠ t := h
    cases greq with
    | readChunk ep b chunk verify =>
      cases r with
      | error message => exact if_neg hne
      | ok _ => rfl
    | _ => rfl
  | store u greq ep sop r =>
    have hne : u ≠ t := h
    cases greq with
    | readChunk ep b chunk verify =>
      cases sop with
      | readChunk b name => exact if_neg fun h => hne h.1
      | getBlock b => exact if_neg hne
      | _ => rfl
    | _ => rfl

theorem attempts_of_ne {u : ℕ} (hu : u ≠ t) (hG : CGuar gw req u w w') :
    w'.attempts t = w.attempts t := by
  obtain ⟨e, hlog, he⟩ := hG.log
  rw [attempts_cons hlog, attempt?_of_ne (he.symm ▸ hu), Option.toList_none, List.append_nil]

/-! ### One slot -/

variable {key : KeyName}

/-- The state of a get that has read the first `n` slots of a group, and `m` slots before. -/
structure Gathered (L : Lookup gw (viewed req) (2 * t) key) (a : Alloc) (block : BlockLocation)
    (loc : KeyLocation) (seg : Bytes) (m n : ℕ) (views : List (Option Bytes)) (w : ClusterWorld) :
    Prop where
  /-- The lookup is in the log. -/
  logged : L.Logged (view req w.services)
  /-- The group is one of the lookup's. -/
  pair : (loc, seg) ∈ L.pairs
  /-- The block is the one looked up. -/
  reads : ReadsAs (view req w.services) a block loc seg
  /-- The views. -/
  gathers : Gathers a.place seg (w.attempts t) False m n views

variable {L : Lookup gw (viewed req) (2 * t) key} {a : Alloc}
  {block : BlockLocation} {loc : KeyLocation} {seg : Bytes} {m n : ℕ} {views : List (Option Bytes)}

/-- A step that is no attempt changes nothing. -/
theorem Gathered.of_guar (h : Gathered L a block loc seg m n views w) {u : ℕ}
    (hG : CGuar gw req u w w') (htried : w'.attempts t = w.attempts t) :
    Gathered L a block loc seg m n views w' where
  logged := hG.keeps (fun _ _ _ hG h => h.append hG.log.choose_spec.1) h.logged
  pair := h.pair
  reads := hG.keeps (F := fun a' => ReadsAs a' a block loc seg)
    (fun _ _ _ hG h => h.of_guar hG) h.reads
  gathers := htried ▸ h.gathers

theorem Gathered.stable : (crg gw req).Stable t (Gathered L a block loc seg m n views) := by
  rintro w w' ⟨-, -, u, hu, hG⟩ h
  exact h.of_guar hG (attempts_of_ne hu hG)

/-- **An attempt at slot `n + 1`**, and the view it gives. -/
theorem Gathered.snoc (h : Gathered L a block loc seg m n views w) {ok : Bool}
    (hG : CGuar gw req t w w') (htried : w'.attempts t = w.attempts t ++ [ok]) {v : Option Bytes}
    (hview : ∀ b, v = some b → b = slotShard a.place seg n)
    (hkept : ok = false ∨ v = some (slotShard a.place seg n)) :
    Gathered L a block loc seg m (n + 1) (views ++ [v]) w' where
  logged := hG.keeps (fun _ _ _ hG h => h.append hG.log.choose_spec.1) h.logged
  pair := h.pair
  reads := hG.keeps (F := fun a' => ReadsAs a' a block loc seg)
    (fun _ _ _ hG h => h.of_guar hG) h.reads
  gathers := htried ▸ h.gathers.snoc (fun b hb => .inl (hview b hb)) (hkept.imp_right .inr)

/-! ### What the datanode does -/

/-- The handler of a read of the gateway. -/
theorem readChunk_eq (b : BlockId) :
    Service.readChunk ⟨some b.toWire, some Gateway.readRequest.toWire, true⟩ =
      ((StoreOp.readChunk b "0").call .storage >>= fun data =>
        (StoreOp.getBlock b).call .storage >>= fun rec =>
          Service.accepted (Service.verified data (rec.bind slotDigests?)) >>= fun _ =>
            .done (.ok (Service.flagLast (Service.frame Service.readFrameBytes data)))) := by
  have hblock : Service.acceptBlock "block_id" (some b.toWire) = .ok b :=
    congrArg Service.converted b.ofWire_toWire
  have hchunk : Service.acceptChunk "chunk_info" (some Gateway.readRequest.toWire) =
      .ok Gateway.readRequest := congrArg Service.converted (Gateway.readRequest).ofWire_toWire
  unfold Service.readChunk
  rw [hblock, hchunk]
  have hdigests : Service.expectedDigests b Gateway.readRequest =
      (StoreOp.getBlock b).call .storage >>= fun rec => pure (rec.bind slotDigests?) :=
    congrArg ((StoreOp.getBlock b).call Status.storage >>= ·)
      (funext fun rec => congrArg pure (Option.bind_assoc ..))
  refine congrArg ((StoreOp.readChunk b "0").call Status.storage >>= ·) (funext fun data => ?_)
  show Service.expectedDigests b Gateway.readRequest >>= _ = _
  rw [hdigests]
  exact Prog.bind_assoc _ _ _

/-- A call that changes no slot, and of which nothing is seen. -/
theorem unseen_keeps (sop : StoreOp) {greq : GatewayOp} {ep : String}
    (hseen : ∀ r, (ClusterEvent.store t greq ep sop r).seen? = none)
    (hsop : AtSlot sop) (hslot : slot? sop = none)
    (hI : MInv gw req w.services) {r : Except String (Except StorageError sop.Val)}
    (hans : clusterSystem.answers t w (.store greq ep sop) r w') :
    (MInv gw req w'.services ∧ CGuar gw req t w w') ∧
      w'.log = .store t greq ep sop r :: w.log := by
  rcases hans with ⟨r₀, node, hans, -, rfl⟩ | ⟨-, rfl⟩
  · have hsame := services_setNode_same (cell_answers_none hsop hslot hans)
    exact ⟨guar_unseen hI rfl rfl ((services_logged_none (hseen r)).trans hsame), rfl⟩
  · exact ⟨guar_unseen hI rfl rfl (services_logged_none (hseen r)), rfl⟩

/-- A call that succeeds does what it does. -/
theorem exec_of_answers {sop : StoreOp} {greq : GatewayOp} {ep : String} {v : sop.Val}
    (hans : clusterSystem.answers t w (.store greq ep sop) (.ok (.ok v)) w') :
    (sop.exec (w.nodes ep)).1 = .ok v := by
  rcases hans with ⟨r₀, node, ⟨rfl, -⟩ | ⟨-, ⟨e, rfl⟩, -⟩, hr | ⟨_, ⟨⟩⟩, -⟩ | ⟨⟨_, ⟨⟩⟩, -⟩
  · exact (Except.ok.inj hr).symm
  · cases hr

theorem chunk_of_exec {b : BlockId} {name : String} {node : Target} {data : Bytes}
    (h : ((StoreOp.readChunk b name).exec node).1 = .ok data) : node.chunks b name = some data := by
  cases hchunk : node.chunks b name with
  | none => simp [StoreOp.exec, hchunk] at h
  | some data' => simpa [StoreOp.exec, hchunk] using h

/-- What a slot that has been looked up gives is its shard. -/
theorem Gathered.eq_shard (h : Gathered L a block loc seg m n views w)
    (hI : MInv gw req w.services) {i : ℕ} (hi : i < a.place.total) {data : Bytes}
    (hdata : (w.nodes (a.place.endpoint (UInt8.ofNat (i + 1)))).chunks
      (slotOf loc.group (UInt8.ofNat (i + 1))) "0" = some data) :
    data = slotShard a.place seg i := by
  obtain ⟨a', ha'⟩ := h.logged.sealed hI.seen h.pair
  obtain rfl : a = a' := Option.some.inj (h.reads.alloc.symm.trans ha'.alloc)
  rcases ha'.shard i hi with hnone | hsome
  · cases hdata.symm.trans hnone
  · exact Option.some.inj (hdata.symm.trans hsome)

/-- The record of a slot that has been looked up agrees with its shard. -/
theorem Gathered.verified (h : Gathered L a block loc seg m n views w)
    (hI : MInv gw req w.services) {i : ℕ} (hi : i < a.place.total) {rec : Option BlockData}
    (hrec : (w.nodes (a.place.endpoint (UInt8.ofNat (i + 1)))).store.getBlock
      (slotOf loc.group (UInt8.ofNat (i + 1))) = rec) :
    Service.verified (slotShard a.place seg i) (rec.bind slotDigests?) = .ok () := by
  obtain ⟨a', ha'⟩ := h.logged.sealed hI.seen h.pair
  obtain rfl : a = a' := Option.some.inj (h.reads.alloc.symm.trans ha'.alloc)
  have hagrees := ha'.digests i hi
  cases hcd : rec.bind slotDigests? with
  | none => rfl
  | some cd =>
    have hverify := hagrees cd ((congrArg (Option.bind · slotDigests?) hrec).trans hcd)
    rw [Service.verified, hverify]

/-- The rest of a read once the chunk is read: the record is read and the digests are checked. -/
theorem record_safe {ε β : Type} {Q : Outcome ε β → ClusterWorld → Prop}
    (hn : n < a.place.total) (hw : Gathered L a block loc seg m n views w) :
    (crg gw req).Safe t (through (fun frames => Gathered L a block loc seg m (n + 1)
        (views ++ [(frames.map (Service.collect [])).toOption])) Q)
      (serve (slotRead a.place loc.group n) (a.place.endpoint (UInt8.ofNat (n + 1)))
        ((StoreOp.getBlock (slotOf loc.group (UInt8.ofNat (n + 1)))).call .storage >>= fun rec =>
          Service.accepted (Service.verified (slotShard a.place seg n) (rec.bind slotDigests?)) >>=
            fun _ => .done (.ok (Service.flagLast
              (Service.frame Service.readFrameBytes (slotShard a.place seg n)))))) w := by
  refine Safe.call _ Gathered.stable hw fun w₁ hw₁ hI r w₂ hans => ?_
  obtain ⟨⟨hI₂, hG⟩, hlog⟩ := unseen_keeps (.getBlock _) (fun _ => rfl) trivial rfl hI hans
  refine ⟨hI₂, hG, ?_⟩
  have htried : w₂.attempts t = w₁.attempts t ++ [cameBack r] :=
    (attempts_cons hlog).trans (congrArg (w₁.attempts t ++ Option.toList ·) (if_pos rfl))
  rcases r with message | e | rec
  · exact hw₁.snoc hG htried (v := none) (by simp) (.inl rfl)
  · exact hw₁.snoc hG htried (v := none) (by simp) (.inl rfl)
  have hrec : (w₁.nodes (a.place.endpoint (UInt8.ofNat (n + 1)))).store.getBlock
      (slotOf loc.group (UInt8.ofNat (n + 1))) = rec := Except.ok.inj (exec_of_answers hans)
  show (crg gw req).Safe t _ (serve _ _ (Service.accepted
    (Service.verified (slotShard a.place seg n) (rec.bind slotDigests?)) >>= _)) _
  rw [hw₁.verified hI hn hrec]
  have hview : ((Except.ok (Service.flagLast (Service.frame Service.readFrameBytes
      (slotShard a.place seg n))) : Except DnClientError _).map (Service.collect [])).toOption =
      some (slotShard a.place seg n) := by
    simp only [Except.map, Except.toOption]
    rw [Service.collect_flagLast, Service.flatten_frame (by decide), List.nil_append]
  refine hw₁.snoc hG htried ?_ (.inr hview)
  exact fun _ h => Option.some.inj (h.symm.trans hview)

/-- A read of slot `n + 1` is asked for. -/
theorem request_safe {ε β : Type} {Q : Outcome ε β → ClusterWorld → Prop}
    (hn : n < a.place.total) (hw : Gathered L a block loc seg m n views w) :
    (crg gw req).Safe t (through (fun frames => Gathered L a block loc seg m (n + 1)
        (views ++ [(frames.map (Service.collect [])).toOption])) Q)
      (request (slotRead a.place loc.group n) (a.place.endpoint (UInt8.ofNat (n + 1)))
        (Service.readChunk ⟨some (slotOf loc.group (UInt8.ofNat (n + 1))).toWire,
          some Gateway.readRequest.toWire, true⟩)) w := by
  refine Safe.call _ Gathered.stable hw fun w₁ hw₁ hI r w₂ hans => ?_
  obtain rfl := hans
  have hsame : (w₁.logged (.send t (slotRead a.place loc.group n) r)).services = w₁.services :=
    services_logged_none rfl
  obtain ⟨hI₂, hG⟩ := guar_unseen hI rfl rfl hsame
  refine ⟨hI₂, hG, ?_⟩
  rcases r with message | _
  · have htried : (w₁.logged (.send t (slotRead a.place loc.group n) (.error message))).attempts t =
        w₁.attempts t ++ [false] :=
      (attempts_cons rfl).trans (congrArg (w₁.attempts t ++ Option.toList ·) (if_pos rfl))
    exact hw₁.snoc hG htried (v := none) (by simp) (.inl rfl)
  have hsent := hw₁.of_guar hG ((attempts_cons rfl).trans (List.append_nil _))
  show (crg gw req).Safe t _ (serve _ _ (Service.readChunk _)) _
  rw [readChunk_eq]
  -- the chunk is read
  refine Safe.call _ Gathered.stable hsent fun w₁ hw₁ hI r w₂ hans => ?_
  obtain ⟨⟨hI₂, hG⟩, hlog⟩ := unseen_keeps (.readChunk _ _) (fun _ => rfl) trivial rfl hI hans
  refine ⟨hI₂, hG, ?_⟩
  have htried := attempts_cons (t := t) hlog
  rcases r with message | e | data
  · rw [slotRead, ClusterEvent.attempt?, if_pos ⟨rfl, rfl⟩] at htried
    exact hw₁.snoc hG htried (v := none) (by simp) (.inl rfl)
  · rw [slotRead, ClusterEvent.attempt?, if_pos ⟨rfl, rfl⟩] at htried
    exact hw₁.snoc hG htried (v := none) (by simp) (.inl rfl)
  · obtain rfl : data = slotShard a.place seg n :=
      hw₁.eq_shard hI hn (chunk_of_exec (exec_of_answers hans))
    rw [slotRead, ClusterEvent.attempt?, if_neg (by simp [cameBack]), Option.toList_none,
      List.append_nil] at htried
    exact record_safe hn (hw₁.of_guar hG htried)

/-- A datanode is dialled. -/
theorem dial_keeps (hI : MInv gw req w.services) {ep : String}
    {r : gatewayCalls.Res (.dial ep)}
    (hans : clusterSystem.answers t w (.service (.object (.dial ep))) r w') :
    (MInv gw req w'.services ∧ CGuar gw req t w w') ∧
      ∃ served, w'.log = .service t (.object (.dial ep)) r served :: w.log := by
  obtain ⟨served, m, hans, rfl⟩ := hans
  have hseen := services_setManager (by trivial) hans
  obtain ⟨_, rfl, rfl⟩ := hans
  refine ⟨guar_seen hI rfl rfl ?_, served, rfl⟩
  rw [hseen]
  exact hI.logged rfl ⟨rfl, rfl⟩ rfl rfl rfl (.of_eq rfl) (.of_eq rfl)

/-- **One slot is read** on its datanode. It never fails: what does not come back stays absent. -/
theorem readSlot_safe {β : Type} {Q : Outcome GatewayError β → ClusterWorld → Prop}
    (hn : n < a.place.total) (hw : Gathered L a block loc seg m n views w) :
    (crg gw req).Safe t
      (through (fun v => Gathered L a block loc seg m (n + 1) (views ++ [v])) Q)
      ((Gateway.readSlot block (n + 1)).interpret handleObject) w := by
  have hslot : (⟨block.containerId, block.localId, UInt8.ofNat (n + 1)⟩ : BlockId) =
      slotOf loc.group (UInt8.ofNat (n + 1)) := by rw [← hw.reads.group]; rfl
  unfold Gateway.readSlot
  rw [endpointForSlot_eq hw.reads.members hn]
  refine Safe.call _ Gathered.stable hw fun w₁ hw₁ hI r w₂ hans => ?_
  obtain ⟨⟨hI₂, hG⟩, served, hlog⟩ := dial_keeps hI hans
  refine ⟨hI₂, hG, ?_⟩
  have htried := attempts_cons (t := t) hlog
  rcases r with err | _
  · rw [ClusterEvent.attempt?, if_pos rfl] at htried
    exact hw₁.snoc hG htried (v := none) (by simp) (.inl rfl)
  have hdialled := hw₁.of_guar hG (htried.trans (List.append_nil _))
  dsimp only
  rw [hslot]
  -- what the client makes of the frames is what the slot gives
  show (crg gw req).Safe t _ ((request (slotRead a.place loc.group n) _ _ >>= fun frames =>
    (.done (.ok (frames.map (Service.collect []))) :
      Prog clusterCalls GatewayError (Except DnClientError Bytes))) >>= _) _
  refine Safe.bind (I := fun bytes => Gathered L a block loc seg m (n + 1)
    (views ++ [bytes.toOption])) ?_ (Safe.bind ?_ (request_safe hn hdialled))
  · intro bytes w hw
    cases bytes <;> exact hw
  · exact fun frames w hw => hw

/-! ### One group -/

/-- **One group is read**: its segment, or an error that enough readable slots exclude. -/
theorem readBlockGroup_safe (hisal : gw.isal.Correct) (hseg : seg.length ≤ maxLen)
    (hw : Gathered L a block loc seg m 0 [] w) :
    (crg gw req).Safe t
      (fun o w => (∃ views, Gathered L a block loc seg m a.place.total views w) ∧ (o = .ok seg ∨
        (∀ bytes, o ≠ .ok bytes) ∧ ¬ReadableAt (w.attempts t) a.place m))
      ((gw.readBlockGroup block).interpret handleObject) w := by
  have htotal : block.ec.profile.total = .ok a.place.total := by
    have hle := a.place.total_le
    unfold Placement.total at hle
    rw [hw.reads.ec]
    exact Outcome.add_eq (by simp only [EcReplicationConfig.profile]; omega)
  unfold Gateway.readBlockGroup
  dsimp only
  rw [htotal, Outcome.mapErr_ok, Prog.lift_ok_bind, hw.reads.ec, hw.reads.length,
    Prog.interpret_bind, Prog.interpret_foldlM]
  refine Safe.bind (I := fun views => Gathered L a block loc seg m a.place.total views) ?_ ?_
  · intro views w hw
    rw [decodeObject_eq hisal a.place.valid hseg hw.gathers.isView]
    refine ⟨⟨views, hw⟩, ?_⟩
    split
    case isTrue => exact .inl rfl
    case isFalse hlt =>
      exact .inr ⟨by rintro _ ⟨⟩, fun hread => hlt (hw.gathers.le_present id hread)⟩
  · refine Safe.foldlM_count (fun n views => Gathered L a block loc seg m n views) ?_ ?_ hw
    · intro n hn views w hw
      rw [Prog.interpret_bind]
      refine Safe.bind (I := fun v => Gathered L a block loc seg m (n + 1) (views ++ [v])) ?_
        (readSlot_safe hn hw)
      exact fun v w hw => hw
    · exact fun _ _ hw => hw

/-! ### The object -/

/-- Where a group is placed. -/
theorem placeOf_of_reads (h : ReadsAs (view req w.services) a block loc seg) :
    w.services.objects.placeOf loc.group = some a.place := by
  have hplace : (view req w.services).placeOf loc.group = some a.place := World.placeOf_eq h.alloc
  rwa [placeOf_view] at hplace

theorem placeOf_of_cguar {u : ℕ} (hG : CGuar gw req u w w') (g : GroupId) (p : Placement)
    (h : w.services.objects.placeOf g = some p) : w'.services.objects.placeOf g = some p := by
  obtain ⟨a, ha, rfl⟩ := Option.map_eq_some_iff.mp h
  exact World.placeOf_eq (hG.alloc g a ha)

/-- **The items are read**, one after the other. -/
theorem readItems_safe (hisal : gw.isal.Correct) {blocks : List BlockLocation}
    {items : List (Item gw (viewed req) (2 * t))}
    (hw : ReadsItems blocks items (view req w.services)) (hnone : w.attempts t = []) :
    (crg gw req).Safe t (fun o w => o = .ok (items.map Item.seg).flatten ∨
        (∀ bytes, o ≠ .ok bytes) ∧
          ¬ReadableGroups w.services.objects.placeOf (w.attempts t) 0 (items.map Item.loc))
      ((gw.readBlocks blocks).interpret handleObject) w := by
  rw [Gateway.readBlocks, Prog.interpret_foldlM]
  have hspans : Spans w.services.objects.placeOf
      (List.map Item.loc ([] : List (Item gw (viewed req) (2 * t)))) (w.attempts t).length :=
    congrArg List.length hnone
  refine Safe.foldlM (fun rest out w => ∃ old new, items = old ++ new ∧
    out = (old.map Item.seg).flatten ∧
    Spans w.services.objects.placeOf (old.map Item.loc) (w.attempts t).length ∧
    ReadsItems rest new (view req w.services)) ?_ ?_ ⟨[], items, rfl, rfl, hspans, hw⟩
  · rintro block rest out w ⟨old, _, rfl, rfl, hspans, hreads, hlogged⟩
    rcases hreads with _ | @⟨_, x, _, new, ⟨a, ha⟩, hrest⟩
    have hstart : Gathered x.lookup a block x.loc x.seg (w.attempts t).length 0 [] w :=
      ⟨hlogged x List.mem_cons_self, x.pair, ha, .start⟩
    rw [Prog.interpret_bind]
    refine Safe.bind (I := fun bytes w => (Spans w.services.objects.placeOf
      ((old ++ [x]).map Item.loc) (w.attempts t).length ∧
      ReadsItems rest new (view req w.services)) ∧ bytes = x.seg) ?_ ?_
    · rintro bytes w ⟨hw, rfl⟩
      exact ⟨old ++ [x], new, by simp, by simp, hw⟩
    -- the other groups are not touched by the reads of this one
    have hothers {u : ℕ} {w₁ w₂ : ClusterWorld} (hG : CGuar gw req u w₁ w₂)
        (h : Spans w₁.services.objects.placeOf (old.map Item.loc) (w.attempts t).length ∧
          ReadsItems rest new (view req w₁.services)) :
        Spans w₂.services.objects.placeOf (old.map Item.loc) (w.attempts t).length ∧
          ReadsItems rest new (view req w₂.services) :=
      ⟨h.1.mono (placeOf_of_cguar hG), hG.keeps (fun _ _ _ hG h => h.of_guar hG) h.2⟩
    refine Safe.mono ?_ (Safe.frame (fun _ _ _ => hothers)
      ⟨hspans, hrest, fun y hy => hlogged y (List.mem_cons_of_mem x hy)⟩
      (readBlockGroup_safe hisal (x.lookup.length_le_of_mem x.pair) hstart))
    rintro o w₁ ⟨⟨⟨views, hgathered⟩, rfl | ⟨hne, hwhy⟩⟩, hspans, hrest⟩
    · refine ⟨⟨?_, hrest⟩, rfl⟩
      rw [hgathered.gathers.length_tried, List.map_append]
      exact hspans.snoc (placeOf_of_reads hgathered.reads)
    · have hfails : ¬ReadableGroups w₁.services.objects.placeOf (w₁.attempts t) 0
          ((old ++ x :: new).map Item.loc) := by
        intro hall
        rw [List.map_append] at hall
        have hat := ReadableGroups.at (placeOf_of_reads hgathered.reads) hall hspans
        rw [Nat.zero_add] at hat
        exact hwhy hat
      cases o with
      | ok bytes => exact absurd rfl (hne bytes)
      | err e => exact .inr ⟨by rintro _ ⟨⟩, hfails⟩
      | panic => exact .inr ⟨by rintro _ ⟨⟩, hfails⟩
  · rintro out w ⟨old, _, rfl, rfl, -, ⟨⟩, -⟩
    exact .inl (by simp)

/-- **What a get that has ended shows.** -/
def ShowsPublished (req : Tid → MultipartRequest) (t : ℕ) (key : KeyName)
    (o : Outcome GatewayError Gateway.GetReply) (w : ClusterWorld) : Prop :=
  ∃ after r served before,
    w.log = after ++ .service t (.object (.getKeyInfo key)) r served :: before ∧
    (∀ reply, o = .ok reply → ∃ ps bodies, published (seenLog before) key = some ps ∧
      List.Forall₂ (fun p body => (req p.call).body? = some body) ps bodies ∧
        reply.body = bodies.flatMap Buffer.bytes) ∧
    (served = true → ∀ ps, published (seenLog before) key = some ps →
      DeleteSeen req w.services.log key ∨
        (ReadableGroups w.services.objects.placeOf (w.attempts t) 0 (ps.flatMap (·.locations)) →
          ∃ reply, o = .ok reply))

theorem deleteSeen_of_guar {u : ℕ} (hG : CGuar gw req u w w')
    (h : DeleteSeen req w.services.log key) : DeleteSeen req w'.services.log key := by
  rcases hG.seen with heq | ⟨-, -, hG⟩
  · exact heq ▸ h
  · obtain ⟨e, hlog, -⟩ := hG.log
    exact hlog ▸ h.cons

theorem ShowsPublished.stable (o : Outcome GatewayError Gateway.GetReply) :
    (crg gw req).Stable t (ShowsPublished req t key o) := by
  rintro w w' ⟨-, -, u, hu, hG⟩ ⟨after, r, served, before, hlog, hbody, hok⟩
  obtain ⟨e, hlog', -⟩ := hG.log
  refine ⟨e :: after, r, served, before, by rw [hlog', hlog]; rfl, hbody, ?_⟩
  intro hserved ps hps
  refine (hok hserved ps hps).imp (deleteSeen_of_guar hG) fun hans hread => hans ?_
  rw [attempts_of_ne hu hG, ← List.append_nil (w.attempts t)] at hread
  exact hread.of_append (placeOf_of_cguar hG)

/-- What a lookup is answered, and what is seen of it. -/
theorem lookup_keeps (hI : MInv gw req w.services) {r : gatewayCalls.Res (.getKeyInfo key)}
    (hans : clusterSystem.answers t w (.service (.object (.getKeyInfo key))) r w') :
    ∃ served, (∃ m, MultipartAnswers t w.services (.object (.getKeyInfo key)) r served m) ∧
      w'.services = w.services.logged (.answer t (.object (.getKeyInfo key)) r served) ∧
      w'.log = .service t (.object (.getKeyInfo key)) r served :: w.log ∧
      MInv gw req w'.services ∧ CGuar gw req t w w' := by
  obtain ⟨served, m, hans, rfl⟩ := hans
  have hseen := services_setManager (by trivial) hans
  obtain ⟨rfl, hI', hG⟩ := hI.lookup hans
  exact ⟨served, ⟨_, hans⟩, hseen, rfl, guar_seen hI rfl rfl (hseen ▸ ⟨hI', hG⟩)⟩

/-- A get that fails because its lookup did not find the key. -/
theorem showsPublished_of_lookup (hI : MInv gw req w.services)
    {r : gatewayCalls.Res (.getKeyInfo key)} {served : Bool}
    (hlog : w'.log = .service t (.object (.getKeyInfo key)) r served :: w.log)
    (hG : CGuar gw req t w w') (hnone : served = true → w.keys key = none)
    {o : Outcome GatewayError Gateway.GetReply} (ho : ∀ reply, o ≠ .ok reply) :
    ShowsPublished req t key o w' := by
  refine ⟨[], r, served, w.log, hlog, fun reply h => absurd h (ho reply), fun hserved ps hps => ?_⟩
  rcases hI.kept key ps hps with hdel | ⟨rec, hrec⟩
  · exact .inl (deleteSeen_of_guar hG hdel)
  · cases (hnone hserved).symm.trans hrec

/-- A get whose lookup found the key, and that has ended. -/
theorem showsPublished_of_read {ps : List Piece} {items : List (Item gw (viewed req) (2 * t))}
    {bodies : List Buffer} {w₀ : MultipartWorld} (hitems : ItemsOf gw req t ps w₀ items bodies)
    {before after : List ClusterEvent} (hps : published (seenLog before) key = some ps)
    {r : gatewayCalls.Res (.getKeyInfo key)}
    (hlog : w.log = after ++ .service t (.object (.getKeyInfo key)) r true :: before)
    {o : Outcome GatewayError Gateway.GetReply}
    (ho : (∃ reply, o = .ok reply ∧ reply.body = bodies.flatMap Buffer.bytes) ∨
      (∀ reply, o ≠ .ok reply) ∧
        ¬ReadableGroups w.services.objects.placeOf (w.attempts t) 0 (items.map Item.loc)) :
    ShowsPublished req t key o w := by
  refine ⟨after, r, true, before, hlog, fun reply h => ?_, fun _ ps' hps' => .inr fun hread => ?_⟩
  · obtain ⟨reply', rfl, hbody⟩ := ho.resolve_right fun hne => hne.1 reply h
    cases h
    exact ⟨ps, bodies, hps, hitems.bodies, hbody⟩
  · cases hps.symm.trans hps'
    rcases ho with ⟨reply, hreply, -⟩ | ⟨-, hnot⟩
    · exact ⟨reply, hreply⟩
    · exact absurd (hitems.locs ▸ hread) hnot

/-- **`get_object` on the datanodes.** -/
theorem getObject_safe (hisal : gw.isal.Correct) (h : w.attempts t = []) :
    (crg gw req).Safe t (ShowsPublished req t key) ((gw.getObject key).interpret handleObject)
      w := by
  unfold Gateway.getObject OmClient.getKeyInfo
  have hstable : (crg gw req).Stable t fun w => w.attempts t = [] := by
    rintro w w' ⟨-, -, u, hu, hG⟩ h
    exact (attempts_of_ne hu hG).trans h
  refine Safe.call _ hstable h fun w₁ hw₁ hI r w₂ hans => ?_
  obtain ⟨served, ⟨m, hans⟩, hseen, hlog, hI', hG⟩ := lookup_keeps hI hans
  refine ⟨hI', hG, ?_⟩
  obtain ⟨_, hans, -⟩ := hans
  cases served with
  | false =>
    obtain ⟨-, ⟨err, rfl⟩ | rfl⟩ := hans
    · exact showsPublished_of_lookup hI hlog hG (by simp) (by rintro _ ⟨⟩)
    · exact showsPublished_of_lookup hI hlog hG (by simp) (by rintro _ ⟨⟩)
  | true =>
    obtain ⟨-, hr⟩ := hans
    split at hr
    case h_1 hnone =>
      subst hr
      exact showsPublished_of_lookup hI hlog hG (fun _ => hnone) (by rintro _ ⟨⟩)
    case h_2 rec hrec =>
      obtain ⟨info, rfl, -, -, hlooks⟩ := hr
      obtain ⟨ps, items, bodies, blocks, hps, hitems, hblocks, hreads⟩ :=
        exists_blocks_of_lookup hI hrec hlooks hseen hI'
      have hnone : w₂.attempts t = [] := (attempts_cons hlog).trans (by rw [hw₁]; rfl)
      have hkeeps : ∀ u w w', CGuar gw req u w w' →
          (∃ after, w.log = after ++
            .service t (.object (.getKeyInfo key)) (.ok (some info)) true :: w₁.log) →
          ∃ after, w'.log = after ++
            .service t (.object (.getKeyInfo key)) (.ok (some info)) true :: w₁.log := by
        rintro u w w' hG ⟨after, h⟩
        obtain ⟨e, hlog, -⟩ := hG.log
        exact ⟨e :: after, by rw [hlog, h]; rfl⟩
      have hread := (readItems_safe hisal hreads hnone).frame hkeeps ⟨[], hlog⟩
      show (crg gw req).Safe t _ ((((Prog.lift (blocksOfKeyInfo info) >>= _ :
        OmM KeyMeta).mapErr GatewayError.ofOm) >>= _).interpret handleObject) _
      rw [hblocks]
      show (crg gw req).Safe t _ ((gw.readBlocks blocks >>= fun out =>
        (pure ⟨out, _, _, _⟩ : GwM Gateway.GetReply)).interpret handleObject) _
      rw [Prog.interpret_bind]
      refine Safe.bind (I := fun out w => out = bodies.flatMap Buffer.bytes ∧ ∃ after,
        w.log = after ++ .service t (.object (.getKeyInfo key)) (.ok (some info)) true :: w₁.log)
        ?_ (hread.mono ?_)
      · rintro _ w ⟨rfl, after, hlog⟩
        exact showsPublished_of_read hitems hps hlog (.inl ⟨_, rfl, rfl⟩)
      · rintro o w ⟨ho | ⟨hne, hfails⟩, after, hlog⟩
        · subst ho
          exact ⟨hitems.segs, after, hlog⟩
        · cases o with
          | ok bytes => exact absurd rfl (hne bytes)
          | err e => exact showsPublished_of_read hitems hps hlog (.inr ⟨by rintro _ ⟨⟩, hfails⟩)
          | panic => exact showsPublished_of_read hitems hps hlog (.inr ⟨by rintro _ ⟨⟩, hfails⟩)

end Read

end EndToEnd

end OzoneRust
