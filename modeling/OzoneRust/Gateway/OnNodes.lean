import OzoneRust.Gateway.ReadNodes

/-!
# All calls on the datanodes

The handler of a deletion makes any number of calls, one for each chunk on record. All that is asked
of them is that the deletion of the object has started, so one lemma about a single call
(`OzoneRust.EndToEnd.deletesOn_keeps`) is enough for the whole loop of a `delete_object`.

With it all calls of the gateway are safe on the datanodes (`OzoneRust.EndToEnd.runOn_safe`), and
`OzoneRust.runOn_getObject_eq_published` is what this says of a `get_object`.
-/

namespace OzoneRust

namespace EndToEnd

open Pieces Consistency RelyGuarantee

open Changes (Deletes deleteBlocks_deletes makes_okOr makes_request)

section Calls

variable {gw : Gateway} {req : Tid → MultipartRequest} {w w' : ClusterWorld} {t : ℕ}
  {key : KeyName}

/-! ### Deleting -/

/-- A call that carries out a request of the loop of `delete_object` over some blocks. -/
def DeletesOn (blocks : List BlockLocation) : clusterCalls.Op → Prop
  | .service (.object (.dial _)) => True
  | .send (.deleteBlock _ _) => True
  | .store (.deleteBlock _ _) _ (.getBlock _) => True
  | .store (.deleteBlock _ _) _ (.deleteChunk b _) => ∃ block ∈ blocks, b.group = block.group
  | .store (.deleteBlock _ _) _ (.deleteBlock b) => ∃ block ∈ blocks, b.group = block.group
  | _ => False

theorem makes_serve {ε α : Type} {P : clusterCalls.Op → Prop} {greq : GatewayOp} {ep : String} :
    ∀ {handler : Service.ServiceM α}, handler.Makes (fun sop => P (.store greq ep sop)) →
      (serve greq ep handler : Prog clusterCalls ε (Except DnClientError α)).Makes P
  | .done (.ok _), _ => trivial
  | .done (.err _), _ => trivial
  | .done .panic, _ => trivial
  | .call op next, h => by
    refine ⟨h.1, fun r => ?_⟩
    rcases r with message | r
    · trivial
    · exact makes_serve (h.2 r)

theorem handleObject_deletes {ε : Type} {blocks : List BlockLocation} :
    ∀ op, Deletes blocks op →
      (handleObject op : Prog clusterCalls ε (gatewayCalls.Res op)).Makes (DeletesOn blocks)
  | .dial _, _ => Prog.makes_perform trivial
  | .deleteBlock ep b, hb => by
    refine ⟨trivial, fun r => ?_⟩
    rcases r with message | _
    · trivial
    refine makes_serve ?_
    have hblock : Service.acceptBlock "block_id" (some b.toWire) = .ok b :=
      congrArg Service.converted b.ofWire_toWire
    unfold Service.deleteBlock
    rw [hblock]
    refine makes_call_bind trivial fun found => ?_
    have hend : ((StoreOp.deleteBlock b).call Status.storage).Makes
        fun sop => DeletesOn blocks (.store (.deleteBlock ep b) ep sop) :=
      ⟨hb, fun _ => trivial⟩
    rcases found with _ | bd
    · exact hend
    · refine Prog.Makes.bind (Prog.makes_foldlM (fun ci _ _ => ?_) _) fun _ => hend
      exact ⟨hb, fun _ => trivial⟩

theorem reduced_deleteChunk (b : BlockId) (name : String) (h : Holdings) :
    (h.cell b).Reduced (((StoreOp.deleteChunk b name).act h).cell b) := by
  by_cases hname : name = "0"
  · subst hname
    exact ⟨.inr Holdings.chunk_setChunk_self, .inl rfl⟩
  · exact ⟨.inl (Holdings.chunk_setChunk_of_ne fun h => hname h.2.symm), .inl rfl⟩

theorem reduced_deleteBlock (b : BlockId) (h : Holdings) :
    (h.cell b).Reduced (((StoreOp.deleteBlock b).act h).cell b) := by
  have hsame : (h.cell b).Reduced (h.cell b) := ⟨.inl rfl, .inl rfl⟩
  have hnone (h : Holdings) : ((h.setBlock b none).cell b).digests = none := by
    simp only [Holdings.cell, Holdings.setBlock, Function.update_self, Option.bind_none]
  rw [StoreOp.act]
  split
  · exact hsame
  · split
    · exact ⟨.inl rfl, .inr (hnone _)⟩
    · exact ⟨.inl rfl, .inr (hnone _)⟩

/-- Something of a group whose deletion has started is deleted, or may have been. -/
theorem delete_keeps {blocks : List BlockLocation} {greq : GatewayOp} {ep : String} {sop : StoreOp}
    {b : BlockId} (hb : ∃ block ∈ blocks, b.group = block.group) (hsop : AtSlot sop)
    (hslot : slot? sop = some b) (hred : ∀ h : Holdings, (h.cell b).Reduced ((sop.act h).cell b))
    (hseen : ∀ r, (ClusterEvent.store t greq ep sop r).seen? = some (.start t))
    (hw : DeletingItems gw (viewed req) (2 * t) blocks (view req w.services))
    (hI : MInv gw req w.services) {r : Except String (Except StorageError sop.Val)}
    (hans : clusterSystem.answers t w (.store greq ep sop) r w') :
    MInv gw req w'.services ∧ CGuar gw req t w w' := by
  have heffect : ∃ node : Target,
      (∀ b', b' ≠ b → node.holdings.cell b' = (w.nodes ep).holdings.cell b') ∧
      ((w.nodes ep).holdings.cell b).Reduced (node.holdings.cell b) ∧
      w' = (w.setNode ep node).logged (.store t greq ep sop r) := by
    rcases hans with ⟨r₀, node, hans, -, rfl⟩ | ⟨-, rfl⟩
    · obtain ⟨hothers, hact | ⟨-, rfl⟩⟩ := cell_answers hsop hans
      · refine ⟨node, fun b' hb' => hothers b' ?_, hact ▸ hred _, rfl⟩
        exact fun h => hb' (Option.some.inj (h.symm.trans hslot))
      · exact ⟨w.nodes ep, fun _ _ => rfl, ⟨.inl rfl, .inl rfl⟩, rfl⟩
    · exact ⟨w.nodes ep, fun _ _ => rfl, ⟨.inl rfl, .inl rfl⟩, by simp [ClusterWorld.setNode]⟩
  obtain ⟨node, hother, hself, rfl⟩ := heffect
  obtain ⟨block, hblock, hgroup⟩ := hb
  obtain ⟨key, L, hL⟩ := hw block hblock
  obtain ⟨a, ha, howner⟩ := hL.owned
  have hview : view req ((w.setNode ep node).logged (.store t greq ep sop r)).services =
      ((view req w.services).setCell ep b (node.holdings.cell b)).logged (.start (2 * t)) := by
    rw [services_logged_some (hseen r), services_setNode hother, view_logged rfl]
    rfl
  obtain ⟨hI', hG⟩ := hI.seen.reduceCell (t := 2 * t) (e := .start (2 * t)) rfl rfl
    (hgroup ▸ ha) (howner ▸ hL.logged.mem_commits) hL.started hself
  rw [← hview] at hI' hG
  have hlog : ((w.setNode ep node).logged (.store t greq ep sop r)).services.log =
      .start t :: w.services.log :=
    congrArg MultipartWorld.log (services_logged_some (hseen r))
  have hup : ((w.setNode ep node).logged (.store t greq ep sop r)).services.uploads =
      w.services.uploads := rfl
  exact guar_seen hI rfl rfl ⟨hI.quiet hlog ⟨rfl, rfl⟩ (.of_eq hup) (.of_eq rfl) hI',
    ⟨_, hlog, rfl⟩, .single ⟨hI.seen, hI', _, .inl rfl, hG⟩⟩

/-- **A call of a deletion** keeps what it should. -/
theorem deletesOn_keeps {blocks : List BlockLocation} {op : clusterCalls.Op}
    {r : clusterCalls.Res op} (hop : DeletesOn blocks op)
    (hw : DeletingItems gw (viewed req) (2 * t) blocks (view req w.services))
    (hI : MInv gw req w.services) (hans : clusterSystem.answers t w op r w') :
    MInv gw req w'.services ∧ CGuar gw req t w w' := by
  cases op with
  | service op =>
    cases op with
    | object op =>
      cases op <;> try exact hop.elim
      exact (dial_keeps hI hans).1
    | _ => exact hop.elim
  | send greq =>
    cases greq <;> try exact hop.elim
    obtain rfl := hans
    exact guar_unseen hI rfl rfl (services_logged_none rfl)
  | store greq ep sop =>
    cases greq <;> try exact hop.elim
    cases sop <;> try exact hop.elim
    case getBlock b =>
      exact (unseen_keeps (.getBlock b) (fun _ => rfl) trivial rfl hI hans).1
    case deleteBlock b =>
      exact delete_keeps hop (by trivial) rfl (reduced_deleteBlock b) (fun _ => rfl) hw hI hans
    case deleteChunk b name =>
      exact delete_keeps hop (by trivial) rfl (reduced_deleteChunk b name) (fun _ => rfl) hw hI hans

/-- **The blocks are deleted** on their datanodes. -/
theorem deleteItems_safe {blocks : List BlockLocation}
    (hw : DeletingItems gw (viewed req) (2 * t) blocks (view req w.services)) :
    (crg gw req).Safe t
      (fun _ w => DeletingItems gw (viewed req) (2 * t) blocks (view req w.services))
      ((Gateway.deleteBlocks blocks).interpret handleObject) w := by
  have hkeeps : ∀ u w w', CGuar gw req u w w' →
      DeletingItems gw (viewed req) (2 * t) blocks (view req w.services) →
      DeletingItems gw (viewed req) (2 * t) blocks (view req w'.services) :=
    fun _ _ _ hG h => hG.keeps (fun _ _ _ hG h => h.of_guar hG) h
  refine Safe.of_makes (P := DeletesOn blocks) ?_ ?_
    ((deleteBlocks_deletes blocks).interpret handleObject_deletes) hw
  · rintro w w' ⟨-, -, u, -, hG⟩ hw
    exact hkeeps u w w' hG hw
  · intro w op r w' hop hw hI hans
    obtain ⟨hI', hG⟩ := deletesOn_keeps hop hw hI hans
    exact ⟨hI', hG, hkeeps t w w' hG hw⟩

/-- The key is deleted. -/
theorem deleteKey_safe (hdel : deletes key (req t) = true) :
    (crg gw req).Safe t (fun _ _ => True)
      (((OmClient.deleteKey key).mapErr GatewayError.ofOm).interpret handleObject) w := by
  have hcarried : (((OmClient.deleteKey key).mapErr GatewayError.ofOm).embed objectCalls).Makes
      Carried :=
    Prog.Makes.embed (P := fun op => Carried (.object op)) (fun _ h => h)
      (Prog.Makes.mapErr ((makes_request (by trivial)).bind fun _ => makes_okOr _ _))
  rw [← interpret_object]
  refine ((carries gw req).safe ?_ hcarried (Pieces.deleteKey_safe (w := w.services) hdel)).mono
    fun _ _ _ => trivial
  intro o w w' _ _
  cases o <;> trivial

/-- **`delete_object` on the datanodes.** -/
theorem deleteObject_safe (hdel : deletes key (req t) = true) :
    (crg gw req).Safe t (fun _ _ => True) ((Gateway.deleteObject key).interpret handleObject)
      w := by
  unfold Gateway.deleteObject OmClient.getKeyInfo
  refine Safe.call (fun _ => True) (fun _ _ _ _ => trivial) trivial fun w₁ _ hI r w₂ hans => ?_
  obtain ⟨served, ⟨m, hans⟩, hseen, -, hI', hG⟩ := lookup_keeps hI hans
  refine ⟨hI', hG, ?_⟩
  rcases r with err | _ | info
  · exact deleteKey_safe hdel
  · exact deleteKey_safe hdel
  · obtain ⟨_, hans, heq⟩ := hans
    cases served with
    | false => obtain ⟨-, ⟨_, h⟩ | h⟩ := hans <;> cases h
    | true =>
      obtain ⟨rfl, hr⟩ := hans
      split at hr
      case h_1 => cases hr
      case h_2 rec hrec =>
        obtain ⟨_, ⟨⟩, -, -, hlooks⟩ := hr
        obtain ⟨ps, items, bodies, blocks, hps, hitems, hblocks, hreads⟩ :=
          exists_blocks_of_lookup hI hrec hlooks hseen hI'
        have hdelete := deletingItems hI' hdel hseen hps hitems hreads
        show (crg gw req).Safe t _ ((((Prog.lift (blocksOfKeyInfo info) >>= _ :
          OmM KeyMeta).attempt) >>= _).interpret handleObject) _
        rw [hblocks]
        show (crg gw req).Safe t _ ((Gateway.deleteBlocks blocks >>= fun _ =>
          (OmClient.deleteKey key).mapErr GatewayError.ofOm).interpret handleObject) _
        rw [Prog.interpret_bind]
        refine Safe.bind (I := fun _ _ => True) (fun _ _ _ => deleteKey_safe hdel) ?_
        refine (deleteItems_safe hdelete).mono fun o w _ => ?_
        cases o <;> trivial

/-! ### All calls -/

/-- What a call that has ended shows: of a `get_object`, `OzoneRust.EndToEnd.ShowsPublished`. -/
def EndedOn (req : Tid → MultipartRequest) (t : ℕ) (o : Outcome GatewayError MultipartReply)
    (w : ClusterWorld) : Prop :=
  ∀ key, req t = .get key → ∃ o', o = MultipartReply.object <$> o' ∧ ShowsPublished req t key o' w

theorem EndedOn.stable (o : Outcome GatewayError MultipartReply) :
    (crg gw req).Stable t (EndedOn req t o) := by
  intro w w' hother h key hreq
  obtain ⟨o', ho, hget⟩ := h key hreq
  exact ⟨o', ho, ShowsPublished.stable o' w w' hother hget⟩

/-- A call that has not started has left nothing. -/
structure IdleOn (req : Tid → MultipartRequest) (t : ℕ) (w : ClusterWorld) : Prop where
  /-- The gateway sees nothing of it. -/
  seen : Idle req t w.services
  /-- It has gone to no slot. -/
  attempts : w.attempts t = []

theorem IdleOn.stable : (crg gw req).Stable t (IdleOn req t) := by
  intro w w' hother h
  refine ⟨(carries gw req).stable (F := Idle req t)
    ((pieceView gw req).stable (t := t) Consistency.Idle.stable) w w' hother h.seen, ?_⟩
  obtain ⟨-, -, u, hu, hG⟩ := hother
  exact (attempts_of_ne hu hG).trans h.attempts

/-- **Every call of the gateway is safe** on its datanodes. -/
theorem runOn_safe (hisal : gw.isal.Correct) (h : IdleOn req t w) :
    (crg gw req).Safe t (EndedOn req t) ((req t).runOn gw) (w.logged (.start t)) := by
  have hother : ∀ {p : Prog clusterCalls GatewayError MultipartReply} {w : ClusterWorld},
      (∀ key, req t ≠ .get key) → (crg gw req).Safe t (fun _ _ => True) p w →
      (crg gw req).Safe t (EndedOn req t) p w :=
    fun hget hp => hp.mono fun _ _ _ key hreq => absurd hreq (hget key)
  by_cases hget : ∃ key, req t = .get key
  · obtain ⟨key, hreq⟩ := hget
    have hnone : (w.logged (.start t)).attempts t = [] := h.attempts
    rw [MultipartRequest.runOn, hreq, MultipartRequest.run, Prog.interpret_bind, interpret_object]
    refine Safe.bind (I := fun reply => ShowsPublished req t key (.ok reply)) ?_
      ((getObject_safe hisal hnone).mono fun o w ho => ?_)
    · intro reply w hw key' hreq'
      cases hreq.symm.trans hreq'
      exact ⟨.ok reply, rfl, hw⟩
    · cases o with
      | ok reply => exact ho
      | err e =>
        intro key' hreq'
        cases hreq.symm.trans hreq'
        exact ⟨.err e, rfl, ho⟩
      | panic =>
        intro key' hreq'
        cases hreq.symm.trans hreq'
        exact ⟨.panic, rfl, ho⟩
  · rw [not_exists] at hget
    refine hother hget ?_
    by_cases hdelete : ∃ key, req t = .delete key
    · obtain ⟨key, hreq⟩ := hdelete
      have hdel : deletes key (req t) = true := by simp [hreq, deletes]
      rw [MultipartRequest.runOn, hreq, MultipartRequest.run, Prog.interpret_bind, interpret_object]
      refine Safe.bind (I := fun _ _ => True) ?_ ((deleteObject_safe hdel).mono fun o w _ => ?_)
      · exact fun _ _ _ => trivial
      · cases o <;> trivial
    · exact runOn_safe_of_carried hisal hget (not_exists.mp hdelete) h.seen

theorem minv_empty_cluster (gw : Gateway) (req : Tid → MultipartRequest) :
    MInv gw req ClusterWorld.empty.services where
  seen :=
    { sealed := fun _ _ _ h => by cases h
      current := fun _ _ h => by cases h
      kept := fun _ _ h => by cases h }
  once := List.nodup_nil
  honest _ he := by cases he
  closed _ he := by cases he
  stored _ _ h := by cases h
  current _ _ h := by cases h
  kept _ _ h := by cases h

/-- What holds in whatever way the calls and the handlers are interleaved. -/
theorem allSafe_of_reachable (hisal : gw.isal.Correct)
    {P : Pool clusterCalls GatewayError MultipartReply Tid ClusterWorld}
    (hP : Pool.Reachable clusterSystem (fun t => (req t).runOn gw) ClusterWorld.empty P) :
    (crg gw req).AllSafe (EndedOn req) (IdleOn req) P := by
  refine (crg gw req).safe_of_reachable (EndedOn req) (minv_empty_cluster gw req)
    (fun t => ⟨⟨by rintro _ ⟨⟩, by rintro _ _ ⟨⟩⟩, rfl⟩) (fun t => IdleOn.stable) ?_
    (fun _ => EndedOn.stable) hP
  rintro t w _ hI hidle rfl
  have hstart : (w.logged (.start t)).services = w.services.logged (.start t) :=
    services_logged_some rfl
  refine and_assoc.mp ⟨guar_seen hI rfl rfl ?_, runOn_safe hisal hidle⟩
  rw [hstart]
  exact hI.logged rfl ⟨rfl, rfl⟩ rfl rfl rfl (.of_eq rfl) (.of_eq rfl)

end Calls

/-- What is seen of an event is of the same call. -/
theorem tid_of_seen {e : ClusterEvent} {e' : MultipartEvent} (h : e.seen? = some e') :
    e'.tid = e.tid := by
  cases e with
  | start t =>
    cases h
    rfl
  | service t op r served =>
    cases h
    rfl
  | send t greq r =>
    cases greq <;> first | (obtain ⟨_, -, rfl⟩ := Option.map_eq_some_iff.mp h; rfl) | cases h
  | store t greq ep sop r =>
    cases greq
    case deleteBlock =>
      cases sop <;> first | (cases h; rfl) | cases h
    all_goals first | (cases h; rfl) | cases h

end EndToEnd

/-! ### The theorem -/

open EndToEnd Pieces

/-- **A `get_object` returns what was published last before its lookup, on the datanodes of the
repository.** Any number of calls of the gateway to put, get and delete objects and to initiate,
fill, complete and abort multipart uploads. Every request to a datanode is handled there by the
handler for it, one call on the stores at a time, all interleaved; any call on a store may fail, any
connection may break before, within and after a handler, and any request to the manager may fail. A
get that has ended has made its lookup, at some place of the log. If it returns, the object is that
of the last `put_object` commit or completed upload of the key before that place, and the body is
put together of the bodies of its pieces, in order. And the get does return if the lookup was
served, something was published under the key, no `delete_object` of the key has done anything and
`k` slots of each group are readable: at these no dial, no request and no call on the stores that
the get made has failed. -/
theorem runOn_getObject_eq_published (gw : Gateway) (hisal : gw.isal.Correct)
    (req : Tid → MultipartRequest)
    {P : Pool clusterCalls GatewayError MultipartReply Tid ClusterWorld}
    (hP : Pool.Reachable clusterSystem (fun t => (req t).runOn gw) ClusterWorld.empty P)
    {t : Tid} {key : KeyName} (hreq : req t = .get key)
    {o : Outcome GatewayError MultipartReply} (ht : P.threads t = some (.done o)) :
    ∃ after r served before,
      P.world.log = after ++ .service t (.object (.getKeyInfo key)) r served :: before ∧
      (∀ reply, o = .ok reply → ∃ ps bodies got, published (seenLog before) key = some ps ∧
        List.Forall₂ (fun p body => (req p.call).body? = some body) ps bodies ∧
          reply = .object got ∧ got.body = bodies.flatMap Buffer.bytes) ∧
      (served = true → ∀ ps, published (seenLog before) key = some ps →
        (∀ e ∈ P.world.log, deletes key (req e.tid) = false) →
        ReadableGroups P.world.services.objects.placeOf (P.world.attempts t) 0
          (ps.flatMap (·.locations)) → ∃ got, o = .ok (.object got)) := by
  have hall := EndToEnd.allSafe_of_reachable hisal hP
  obtain ⟨o', rfl, after, r, served, before, hlog, hbody, hok⟩ := hall.safe t _ ht key hreq
  refine ⟨after, r, served, before, hlog, ?_, ?_⟩
  · intro reply ho
    cases o' with
    | ok got =>
      obtain ⟨ps, bodies, hps, hbodies, hgot⟩ := hbody got rfl
      cases ho
      exact ⟨ps, bodies, got, hps, hbodies, rfl, hgot⟩
    | err e => cases ho
    | panic => cases ho
  · intro hserved ps hps hdel hread
    have hnot : ¬DeleteSeen req P.world.services.log key := by
      rintro ⟨e', he', hdel'⟩
      obtain ⟨e, he, hseen⟩ := List.mem_filterMap.mp he'
      rw [tid_of_seen hseen, hdel e he] at hdel'
      cases hdel'
    obtain ⟨got, rfl⟩ := (hok hserved ps hps).resolve_left hnot hread
    exact ⟨got, rfl⟩

/-- A run goes on with an answer of the manager. -/
theorem reachable_service {ρ : Type} {prog : Tid → Prog clusterCalls GatewayError ρ}
    {w₀ : ClusterWorld} {P : Pool clusterCalls GatewayError ρ Tid ClusterWorld}
    (hP : Pool.Reachable clusterSystem prog w₀ P) (t : Tid) (op : MultipartOp)
    {next : multipartCalls.Res op → Prog clusterCalls GatewayError ρ}
    (ht : P.threads t = some (.call (C := clusterCalls) (.service op) next))
    (r : multipartCalls.Res op) (served : Bool) {m : MultipartWorld}
    (h : MultipartAnswers t P.world.services op r served m) :
    Pool.Reachable clusterSystem prog w₀ ⟨Function.update P.threads t (some (next r)),
      (P.world.setManager m).logged (.service t op r served)⟩ :=
  hP.tail (.call ht ⟨served, m, h, rfl⟩)

/-- A run goes on with a request that is sent. -/
theorem reachable_send {ρ : Type} {prog : Tid → Prog clusterCalls GatewayError ρ}
    {w₀ : ClusterWorld} {P : Pool clusterCalls GatewayError ρ Tid ClusterWorld}
    (hP : Pool.Reachable clusterSystem prog w₀ P) (t : Tid) (greq : GatewayOp)
    {next : Except String Unit → Prog clusterCalls GatewayError ρ}
    (ht : P.threads t = some (.call (C := clusterCalls) (.send greq) next)) :
    Pool.Reachable clusterSystem prog w₀ ⟨Function.update P.threads t (some (next (.ok ()))),
      P.world.logged (.send t greq (.ok ()))⟩ :=
  hP.tail (.call ht rfl)

/-- A run goes on with a call of a handler that does what it does. -/
theorem reachable_store {ρ : Type} {prog : Tid → Prog clusterCalls GatewayError ρ}
    {w₀ : ClusterWorld} {P : Pool clusterCalls GatewayError ρ Tid ClusterWorld}
    (hP : Pool.Reachable clusterSystem prog w₀ P) (t : Tid) (greq : GatewayOp) (ep : String)
    (op : StoreOp) {next : Except String (Except StorageError op.Val) → Prog clusterCalls _ ρ}
    (ht : P.threads t = some (.call (C := clusterCalls) (.store greq ep op) next))
    (r : Except StorageError op.Val) (hr : (op.exec (P.world.nodes ep)).1 = r) :
    Pool.Reachable clusterSystem prog w₀ ⟨Function.update P.threads t (some (next (.ok r))),
      (P.world.setNode ep (op.exec (P.world.nodes ep)).2).logged (.store t greq ep op (.ok r))⟩ :=
  hP.tail (.call ht (.inl ⟨r, _, .inl ⟨hr.symm, rfl⟩, .inl rfl, rfl⟩))

open Placement

set_option maxRecDepth 2000 in
/-- The upload runs to its end on the datanodes, then the get, which cannot dial the first one and
reads the parity shard from the second. -/
theorem exists_degradedGetOnNodes :
    ∃ P : Pool clusterCalls GatewayError MultipartReply Tid ClusterWorld,
      Pool.Reachable clusterSystem (fun t => (uploadThenGet t).runOn Gateway.reference)
        ClusterWorld.empty P ∧
      objectRead (P.threads 3) = some [9] ∧ P.world.attempts 3 = [false, true] ∧
      ∃ ps, published (seenLog P.world.log) ⟨"b", "k"⟩ = some ps ∧
        ReadableGroups P.world.services.objects.placeOf (P.world.attempts 3) 0
          (ps.flatMap (·.locations)) := by
  have h₀ : Pool.Reachable clusterSystem (fun t => (uploadThenGet t).runOn Gateway.reference)
    ClusterWorld.empty ⟨fun _ => none, ClusterWorld.empty⟩ := .refl
  have h₁ := h₀.tail (.start (t := 0) rfl rfl)
  have h₂ := reachable_service h₁ 0 (.initiate ⟨"b", "k"⟩) rfl (.ok (some "u")) true
    ⟨"u", rfl, rfl, by rintro _ ⟨⟩; rfl⟩
  have h₃ := h₂.tail (.start (t := 1) rfl rfl)
  have h₄ := reachable_service h₃ 1 _ rfl
    (.ok ⟨some 0, some ⟨0, [], 0, [[mirrorLocation 0]]⟩⟩) true
    ⟨_, ⟨[(mirrorLocation 0, mirror)], grants_mirror fun _ => rfl, rfl,
      by rintro _ ⟨⟩ _ ⟨⟩; rfl⟩, rfl⟩
  -- the first slot, then the second: dial, container, chunk, block
  have h₅ := reachable_service h₄ 1 _ rfl (.ok ()) true ⟨_, rfl, rfl⟩
  have h₆ := reachable_store (reachable_send h₅ 1 _ rfl) 1 _ _ _ rfl (.ok ()) rfl
  have h₇ := reachable_store (reachable_send h₆ 1 _ rfl) 1 _ _ _ rfl (.ok ()) rfl
  have h₈ := reachable_store (reachable_send h₇ 1 _ rfl) 1 _ _ _ rfl (.ok 1) rfl
  have h₉ := reachable_service h₈ 1 _ rfl (.ok ()) true ⟨_, rfl, rfl⟩
  have h₁₀ := reachable_store (reachable_send h₉ 1 _ rfl) 1 _ _ _ rfl (.ok ()) rfl
  have h₁₁ := reachable_store (reachable_send h₁₀ 1 _ rfl) 1 _ _ _ rfl (.ok ()) rfl
  have h₁₂ := reachable_store (reachable_send h₁₁ 1 _ rfl) 1 _ _ _ rfl (.ok 1) rfl
  have h₁₃ := reachable_service h₁₂ 1 _ rfl (.ok (some (some "u-1"))) true
    ⟨fun _ => none, rfl, rfl⟩
  have h₁₄ := h₁₃.tail (.start (t := 2) rfl rfl)
  have h₁₅ := reachable_service h₁₄ 2 (.object (.completeMultipart ⟨"b", "k"⟩ "u" [1])) rfl
    (.ok (some (some "-1"))) true
    ⟨"", ⟨_, [⟨[⟨1, 1, 0, 1, none⟩], 1, [("ETAG", some "")]⟩], [("ETAG", some "-1")], rfl,
      .cons rfl .nil, by decide, rfl⟩, by rintro _ ⟨⟩; decide⟩
  have h₁₆ := reachable_service h₁₅ 2 _ rfl
    (.ok (some ⟨1, [("ETAG", some "-1")], 0, [[mirrorLocation 1]]⟩)) true
    ⟨_, ⟨rfl, _, rfl, rfl, rfl, .cons ⟨rfl, rfl, rfl, rfl, ⟨1, mirror⟩, rfl,
      presents_mirrorLocation⟩ .nil⟩, rfl⟩
  have h₁₇ := h₁₆.tail (.start (t := 3) rfl rfl)
  have h₁₈ := reachable_service h₁₇ 3 _ rfl
    (.ok (some ⟨1, [("ETAG", some "-1")], 0, [[mirrorLocation 1]]⟩)) true
    ⟨_, ⟨rfl, _, rfl, rfl, rfl, .cons ⟨rfl, rfl, rfl, rfl, ⟨1, mirror⟩, rfl,
      presents_mirrorLocation⟩ .nil⟩, rfl⟩
  have h₁₉ := reachable_service h₁₈ 3 _ rfl (.error "refused") false ⟨_, rfl, rfl⟩
  have h₂₀ := reachable_service h₁₉ 3 _ rfl (.ok ()) true ⟨_, rfl, rfl⟩
  -- the handler of the read: the chunk, then the record
  have h₂₁ := reachable_store (reachable_send h₂₀ 3 _ rfl) 3 _ _ _ rfl (.ok [9])
    (by decide +kernel)
  have h₂₂ := reachable_store h₂₁ 3 _ _ _ rfl _ rfl
  refine ⟨_, h₂₂, by decide +kernel, by decide +kernel, [⟨1, [⟨1, 1, 0, 1, none⟩]⟩], rfl, ?_⟩
  rintro place ⟨⟩
  exact ⟨by decide +kernel, trivial⟩

/-- The get returns the byte of the one part, with one of the two datanodes down. -/
theorem runOn_getObject_eq_published_degradedGetOnNodes :
    ∃ P : Pool clusterCalls GatewayError MultipartReply Tid ClusterWorld,
      Pool.Reachable clusterSystem (fun t => (uploadThenGet t).runOn Gateway.reference)
        ClusterWorld.empty P ∧
      P.world.attempts 3 = [false, true] ∧
      (∃ ps, published (seenLog P.world.log) ⟨"b", "k"⟩ = some ps ∧
        ReadableGroups P.world.services.objects.placeOf (P.world.attempts 3) 0
          (ps.flatMap (·.locations))) ∧
      ∃ got, P.threads 3 = some (.done (.ok (.object got))) ∧ got.body = [9] ∧
      ∃ after r served before,
        P.world.log = after ++ .service 3 (.object (.getKeyInfo ⟨"b", "k"⟩)) r served :: before ∧
        ∃ ps bodies, published (seenLog before) ⟨"b", "k"⟩ = some ps ∧
          List.Forall₂ (fun p body => (uploadThenGet p.call).body? = some body) ps bodies ∧
            got.body = bodies.flatMap Buffer.bytes := by
  obtain ⟨P, hP, hread, hattempts, hps⟩ := exists_degradedGetOnNodes
  obtain ⟨got, hthread, hbody⟩ := exists_of_objectRead hread
  obtain ⟨after, r, served, before, hlog, hgot, -⟩ := runOn_getObject_eq_published
    Gateway.reference IsaL.reference_correct uploadThenGet hP rfl hthread
  obtain ⟨ps, bodies, _, hpublished, hbodies, ⟨⟩, heq⟩ := hgot _ rfl
  exact ⟨P, hP, hattempts, hps, got, hthread, hbody, after, r, served, before, hlog, ps, bodies,
    hpublished, hbodies, heq⟩

end OzoneRust
