import OzoneRust.Gateway.Cluster
import OzoneRust.Gateway.ReadPublished

/-!
# Requests that the datanodes carry out

`OzoneRust.Gateway.Cluster` runs the gateway on the datanodes of the repository. Two things are
needed to bring there what was proved of `OzoneRust.multipartSystem`: that the cluster, seen through
`OzoneRust.ClusterWorld.services`, goes from one world of that system to another, and that each
request takes effect at one step of the program that carries it out.

The first is the guarantee `OzoneRust.EndToEnd.CGuar`: what is seen of a step is nothing, or a step
within the guarantee of `OzoneRust.Pieces`. The second holds for all requests but those that read
and delete chunks (`OzoneRust.EndToEnd.carries`): a request to the manager is one step
(`OzoneRust.EndToEnd.performs_manager`), and the handlers that create a container, write a chunk and
record a block make one call on the stores (`OzoneRust.EndToEnd.performs_request`). So a call that
is no `get_object` and no `delete_object` is as safe here as it was there
(`OzoneRust.EndToEnd.runOn_safe_of_carried`).
-/

namespace OzoneRust

namespace EndToEnd

open Pieces Consistency RelyGuarantee

/-! ### The guarantee -/

/-- **The guarantee** of call `t`: what is seen of a step is nothing, or a step that keeps the
guarantee of `OzoneRust.Pieces`. -/
structure CGuar (gw : Gateway) (req : Tid → MultipartRequest) (t : ℕ) (w w' : ClusterWorld) :
    Prop where
  /-- One event, its own. -/
  log : ∃ e, w'.log = e :: w.log ∧ e.tid = t
  /-- What is seen of it. -/
  seen : w'.services = w.services ∨ MInv gw req w.services ∧ MInv gw req w'.services ∧
    MGuar gw req t w.services w'.services

/-- The cluster, the invariant and the guarantee together. -/
def crg (gw : Gateway) (req : Tid → MultipartRequest) :
    RelyGuarantee clusterCalls Tid ClusterWorld :=
  ⟨clusterSystem, fun w => MInv gw req w.services, CGuar gw req⟩

section Steps

variable {gw : Gateway} {req : Tid → MultipartRequest} {w w' : ClusterWorld} {t : ℕ}
  {e : ClusterEvent}

theorem others_services (h : (crg gw req).Other t w w') :
    (mrg gw req).Others t w.services w'.services := by
  obtain ⟨hI, hI', u, hu, hG⟩ := h
  rcases hG.seen with heq | ⟨-, -, hG⟩
  · rw [heq]
    exact .refl
  · exact .single ⟨hI, hI', u, hu, hG⟩

theorem services_logged_none (he : e.seen? = none) : (w.logged e).services = w.services := by
  simp [ClusterWorld.services, ClusterWorld.logged, he]

theorem services_logged_some {e' : MultipartEvent} (he : e.seen? = some e') :
    (w.logged e).services = w.services.logged e' := by
  simp [ClusterWorld.services, ClusterWorld.logged, MultipartWorld.logged, he]

/-- An event of which nothing is seen. -/
theorem guar_unseen (hI : MInv gw req w.services) (hlog : w'.log = e :: w.log) (htid : e.tid = t)
    (hseen : w'.services = w.services) : MInv gw req w'.services ∧ CGuar gw req t w w' :=
  ⟨hseen ▸ hI, ⟨e, hlog, htid⟩, .inl hseen⟩

/-- An event that is seen. -/
theorem guar_seen (hI : MInv gw req w.services) (hlog : w'.log = e :: w.log) (htid : e.tid = t)
    (h : MInv gw req w'.services ∧ MGuar gw req t w.services w'.services) :
    MInv gw req w'.services ∧ CGuar gw req t w w' :=
  ⟨h.1, ⟨e, hlog, htid⟩, .inr ⟨hI, h⟩⟩

/-! ### The manager -/

/-- A request that no datanode handles. -/
def ForManager : MultipartOp → Prop
  | .object (.createContainer ..) => False
  | .object (.writeChunk ..) => False
  | .object (.putBlock ..) => False
  | .object (.readChunk ..) => False
  | .object (.deleteBlock ..) => False
  | _ => True

/-- The manager leaves the datanodes alone. -/
theorem manager_keeps {m m' : MultipartWorld} {op : MultipartOp} (hop : ForManager op)
    {r : multipartCalls.Res op} {served : Bool} (h : MultipartAnswers t m op r served m') :
    m'.objects.cells = m.objects.cells ∧ m'.objects.log = m.objects.log ∧ m'.log = m.log := by
  cases op with
  | object op =>
    cases op <;> try exact hop.elim
    case createKey =>
      obtain ⟨_, hans, rfl⟩ := h
      cases served with
      | false =>
        obtain ⟨rfl, -⟩ := hans
        exact ⟨rfl, rfl, rfl⟩
      | true =>
        obtain ⟨_, -, rfl, -⟩ := hans
        exact ⟨rfl, rfl, rfl⟩
    case allocateBlock =>
      obtain ⟨_, hans, rfl⟩ := h
      cases served with
      | false =>
        obtain ⟨rfl, -⟩ := hans
        exact ⟨rfl, rfl, rfl⟩
      | true =>
        obtain ⟨_, -, rfl, -⟩ := hans
        exact ⟨rfl, rfl, rfl⟩
    case commitKey | deleteKey =>
      obtain ⟨_, hans, rfl⟩ := h
      cases served with
      | false =>
        obtain ⟨rfl, -⟩ := hans
        exact ⟨rfl, rfl, rfl⟩
      | true =>
        obtain rfl := hans
        exact ⟨rfl, rfl, rfl⟩
    case getKeyInfo =>
      obtain ⟨_, hans, rfl⟩ := h
      cases served <;> obtain ⟨rfl, -⟩ := hans <;> exact ⟨rfl, rfl, rfl⟩
    case completeMultipart =>
      cases served with
      | false =>
        obtain ⟨rfl, -⟩ := h
        exact ⟨rfl, rfl, rfl⟩
      | true =>
        obtain ⟨_, ⟨_, _, _, -, -, -, rfl⟩, -⟩ := h
        exact ⟨rfl, rfl, rfl⟩
    case dial =>
      obtain ⟨_, rfl, rfl⟩ := h
      exact ⟨rfl, rfl, rfl⟩
  | initiate key =>
    cases served with
    | false =>
      obtain ⟨rfl, -⟩ := h
      exact ⟨rfl, rfl, rfl⟩
    | true =>
      obtain ⟨_, -, rfl, -⟩ := h
      exact ⟨rfl, rfl, rfl⟩
  | commitPart =>
    cases served with
    | false =>
      obtain ⟨rfl, -⟩ := h
      exact ⟨rfl, rfl, rfl⟩
    | true =>
      obtain ⟨_, -, rfl⟩ := h
      exact ⟨rfl, rfl, rfl⟩
  | abort key uploadId =>
    cases served with
    | false =>
      obtain ⟨rfl, -⟩ := h
      exact ⟨rfl, rfl, rfl⟩
    | true =>
      simp only [MultipartAnswers] at h
      split at h <;> subst h <;> exact ⟨rfl, rfl, rfl⟩

/-- What is seen when the manager has answered. -/
theorem services_setManager {m : MultipartWorld} {op : MultipartOp} (hop : ForManager op)
    {r : multipartCalls.Res op} {served : Bool}
    (h : MultipartAnswers t w.services op r served m) :
    ((w.setManager m).logged (.service t op r served)).services =
      m.logged (.answer t op r served) := by
  obtain ⟨hcells, hlog, hlog'⟩ := manager_keeps hop h
  rw [services_logged_some rfl]
  obtain ⟨⟨alloc, keys, cells, log⟩, uploads, log'⟩ := m
  dsimp only at hcells hlog hlog'
  subst hcells hlog hlog'
  rfl

theorem handle_eq {ε : Type} {op : MultipartOp} (hop : ForManager op) :
    (handle op : Prog clusterCalls ε (multipartCalls.Res op)) =
      Prog.perform (C := clusterCalls) (.service op) := by
  cases op with
  | object op => cases op <;> first | exact hop.elim | rfl
  | _ => rfl

/-- **A request to the manager takes effect at its one step.** -/
theorem performs_manager {ε : Type} {op : MultipartOp} (hop : ForManager op) (w : ClusterWorld) :
    (mrg gw req).Performs (crg gw req) ClusterWorld.services t op none
      (handle op : Prog clusterCalls ε (multipartCalls.Res op)) w := by
  rw [handle_eq hop]
  intro w₁ _ hI r w₂ hans
  obtain ⟨served, m, hans, rfl⟩ := hans
  have hseen := services_setManager hop hans
  refine .inr ⟨rfl, r, ⟨served, m, hans, hseen⟩, fun hI' hG => ?_, r, rfl, rfl⟩
  exact guar_seen hI rfl rfl ⟨hI', hG⟩

/-! ### Requests that write -/

/-- A handler that makes one call, once it has accepted its request. -/
def oneCall {α β : Type} (x : Except Status β) (sop : β → StoreOp) (f : (b : β) → (sop b).Val → α) :
    Service.ServiceM α :=
  Service.accepted x >>= fun b => (sop b).call .storage >>= fun v => .done (.ok (f b v))

/-- **A request whose handler makes one call takes effect at this call**, or where it fails
before. -/
theorem performs_request {ε α β : Type} (op : MultipartOp) (greq : GatewayOp) (ep : String)
    (res : Except DnClientError Unit → multipartCalls.Res op) (x : Except Status β)
    (sop : β → StoreOp) (f : (b : β) → (sop b).Val → α)
    (hsend : ∀ r, (ClusterEvent.send t greq r).seen? =
      (settledEarly (oneCall x sop f) r).map fun r => .answer t op (res r) true)
    (hstore : ∀ sop r, (ClusterEvent.store t greq ep sop r).seen? =
      some (.answer t op (res (settled r)) true))
    (hfail : ∀ m e, MultipartAnswers t m op (res (.error e)) true m)
    (hcall : ∀ b, x = .ok b → ∀ (w : ClusterWorld) r₀ node,
      StoreOp.Answers StoreOp.always (w.nodes ep) (sop b) r₀ node →
      ∀ r, (r = .ok r₀ ∨ ∃ message, r = .error message) →
        MultipartAnswers t w.services op (res (settled r)) true (w.setNode ep node).services)
    (w : ClusterWorld) :
    (mrg gw req).Performs (crg gw req) ClusterWorld.services t op none
      (request greq ep (oneCall x sop f) >>= fun y => .done (.ok (res (y.map fun _ => ()))) :
        Prog clusterCalls ε (multipartCalls.Res op)) w := by
  intro w₁ _ hI r w₂ hans
  obtain rfl := hans
  -- the request fails, and nothing is done
  have hearly : ∀ e, settledEarly (oneCall x sop f) r = some (.error e) →
      (mrg gw req).sys.answers t w₁.services op (res (.error e))
        (w₁.logged (.send t greq r)).services ∧
      ((mrg gw req).Inv (w₁.logged (.send t greq r)).services →
        (mrg gw req).Guar t w₁.services (w₁.logged (.send t greq r)).services →
        (crg gw req).Inv (w₁.logged (.send t greq r)) ∧
          (crg gw req).Guar t w₁ (w₁.logged (.send t greq r))) := by
    intro e he
    have hseen : (ClusterEvent.send t greq r).seen? = some (.answer t op (res (.error e)) true) :=
      (hsend r).trans (congrArg (Option.map _) he)
    exact ⟨⟨true, w₁.services, hfail _ e, services_logged_some hseen⟩,
      fun hI' hG => guar_seen hI rfl rfl ⟨hI', hG⟩⟩
  rcases r with message | _
  · obtain ⟨hans, hkeeps⟩ := hearly _ rfl
    exact .inr ⟨rfl, _, hans, hkeeps, _, rfl, rfl⟩
  cases x with
  | error s =>
    obtain ⟨hans, hkeeps⟩ := hearly _ rfl
    exact .inr ⟨rfl, _, hans, hkeeps, _, rfl, rfl⟩
  | ok b =>
    have hunseen : (ClusterEvent.send t greq (.ok ())).seen? = none := by
      rw [hsend]
      rfl
    have hsame : (w₁.logged (.send t greq (.ok ()))).services = w₁.services :=
      services_logged_none hunseen
    obtain ⟨hI₂, hG⟩ := guar_unseen hI rfl rfl hsame
    refine .inl ⟨hsame, hI₂, hG, ?_⟩
    -- the call on the stores
    show (mrg gw req).Performs (crg gw req) ClusterWorld.services t op none
      (.call (C := clusterCalls) (.store greq ep (sop b)) _) _
    intro w₃ _ hI₃ r w₄ hans
    have heffect : ∃ node, MultipartAnswers t w₃.services op (res (settled r)) true
        (w₃.setNode ep node).services ∧
        w₄ = (w₃.setNode ep node).logged (.store t greq ep (sop b) r) := by
      rcases hans with ⟨r₀, node, hans, hr, hw₄⟩ | ⟨⟨message, rfl⟩, hw₄⟩
      · exact ⟨node, hcall b rfl w₃ r₀ node hans r hr, hw₄⟩
      · have hsame : w₃.setNode ep (w₃.nodes ep) = w₃ := by
          simp [ClusterWorld.setNode]
        exact ⟨w₃.nodes ep, hsame.symm ▸ hfail _ _, hsame.symm ▸ hw₄⟩
    obtain ⟨node, heffect, rfl⟩ := heffect
    refine .inr ⟨rfl, _, ⟨true, _, heffect, services_logged_some (hstore (sop b) r)⟩,
      fun hI' hG => guar_seen hI₃ rfl rfl ⟨hI', hG⟩, ?_⟩
    rcases r with message | e | v
    · exact ⟨_, rfl, rfl⟩
    · exact ⟨_, rfl, rfl⟩
    · exact ⟨_, rfl, rfl⟩

/-- What is seen when one slot may have changed. -/
theorem services_setNode {ep : String} {b : BlockId} {node : Target}
    (h : ∀ b', b' ≠ b → node.holdings.cell b' = (w.nodes ep).holdings.cell b') :
    (w.setNode ep node).services = { w.services with
      objects := w.services.objects.setCell ep b (node.holdings.cell b) } := by
  simp only [ClusterWorld.services, ClusterWorld.setNode, World.setCell]
  congr 2
  funext ep' b'
  by_cases hep : ep' = ep
  · subst hep
    rw [Function.update_self, Function.update_self]
    by_cases hb : b' = b
    · rw [hb, Function.update_self]
    · rw [Function.update_of_ne hb, h b' hb]
  · rw [Function.update_of_ne hep, Function.update_of_ne hep]

/-- What is seen when no slot has changed. -/
theorem services_setNode_same {ep : String} {node : Target}
    (h : node.holdings.cell = (w.nodes ep).holdings.cell) :
    (w.setNode ep node).services = w.services := by
  simp only [ClusterWorld.services, ClusterWorld.setNode]
  congr 2
  funext ep'
  by_cases hep : ep' = ep
  · subst hep
    rw [Function.update_self, h]
  · rw [Function.update_of_ne hep]

/-- The slot a call may change. -/
def slot? : StoreOp → Option BlockId
  | .putBlock block => some block.blockId
  | .deleteBlock b => some b
  | .writeChunk b _ _ => some b
  | .deleteChunk b _ => some b
  | _ => none

/-- A call that changes one slot at most. -/
def AtSlot : StoreOp → Prop
  | .deleteContainer _ => False
  | .deleteChunks _ => False
  | _ => True

theorem cell_setBlock_of_ne {h : Holdings} {b b' : BlockId} (hb : b' ≠ b)
    (block : Option BlockData) : (h.setBlock b block).cell b' = h.cell b' := by
  simp only [Holdings.cell, Holdings.setBlock, Function.update_of_ne hb]

theorem cell_setChunk_of_ne {h : Holdings} {b b' : BlockId} (hb : b' ≠ b) (name : String)
    (data : Option Bytes) : (h.setChunk b name data).cell b' = h.cell b' := by
  rw [Holdings.cell, Holdings.chunk_setChunk_of_ne fun h => hb h.1]
  rfl

/-- The other slots stay as they are. -/
theorem cell_act {sop : StoreOp} (hsop : AtSlot sop) {b : BlockId} (hb : slot? sop ≠ some b)
    (h : Holdings) : (sop.act h).cell b = h.cell b := by
  cases sop with
  | deleteContainer id => exact hsop.elim
  | deleteChunks id => exact hsop.elim
  | createContainer info => rw [StoreOp.act]; split <;> rfl
  | setContainerState id state => rw [StoreOp.act]; split <;> rfl
  | putBlock block =>
    have hne : b ≠ block.blockId := fun heq => hb (congrArg some heq.symm)
    rw [StoreOp.act]
    split
    · rfl
    · split
      · exact cell_setBlock_of_ne hne _
      · rfl
  | deleteBlock b' =>
    have hne : b ≠ b' := fun heq => hb (congrArg some heq.symm)
    rw [StoreOp.act]
    split
    · rfl
    · refine (cell_setBlock_of_ne hne _).trans ?_
      split <;> rfl
  | writeChunk b' name data =>
    exact cell_setChunk_of_ne (fun heq => hb (congrArg some heq.symm)) name _
  | deleteChunk b' name =>
    exact cell_setChunk_of_ne (fun heq => hb (congrArg some heq.symm)) name _
  | _ => rfl

/-- **What a call leaves of a slot**: it has done what it does, or it has failed and done nothing;
the other slots stay as they are. -/
theorem cell_answers {sop : StoreOp} (hsop : AtSlot sop) {node node' : Target}
    {r : Except StorageError sop.Val} (h : StoreOp.Answers StoreOp.always node sop r node') :
    (∀ b, slot? sop ≠ some b → node'.holdings.cell b = node.holdings.cell b) ∧
      (node'.holdings = sop.act node.holdings ∨ (∃ e, r = .error e) ∧ node' = node) := by
  rcases h.holdings with hact | ⟨-, herr, rfl | ⟨id, rfl, -⟩⟩
  · exact ⟨fun b hb => hact ▸ cell_act hsop hb node.holdings, .inl hact⟩
  · exact ⟨fun _ _ => rfl, .inr ⟨herr, rfl⟩⟩
  · exact hsop.elim

/-- A call that changes no slot. -/
theorem cell_answers_none {sop : StoreOp} (hsop : AtSlot sop) (hslot : slot? sop = none)
    {node node' : Target} {r : Except StorageError sop.Val}
    (h : StoreOp.Answers StoreOp.always node sop r node') :
    node'.holdings.cell = node.holdings.cell :=
  funext fun b => (cell_answers hsop h).1 b (by rw [hslot]; rintro ⟨⟩)

/-- A block that is put has its digests on record. -/
theorem digests_of_putBlock {block : BlockData} {node node' : Target} {n : ℕ}
    (h : StoreOp.Answers StoreOp.always node (.putBlock block) (.ok n) node') :
    (node'.holdings.cell block.blockId).digests = slotDigests? block := by
  rcases h with ⟨hr, rfl⟩ | ⟨-, ⟨e, ⟨⟩⟩, -⟩
  obtain ⟨record, hrecord, hopen⟩ := StoreOp.exec_putBlock hr.symm
  rw [StoreOp.holdings_exec, StoreOp.act_putBlock hrecord hopen, Holdings.cell, Holdings.setBlock]
  simp only [Function.update_self, Option.bind_some]

theorem performs_createContainer {ε : Type} (ep : String) (id : ContainerId)
    (ec : EcReplicationConfig) (w : ClusterWorld) :
    (mrg gw req).Performs (crg gw req) ClusterWorld.services t
      (.object (.createContainer ep id ec)) none
      (handle (.object (.createContainer ep id ec)) : Prog clusterCalls ε _) w := by
  refine performs_request (.object (.createContainer ep id ec)) (.createContainer ep id ec) ep
    (fun r => r) (Service.acceptCreate ⟨some id, some ec.toWire⟩)
    (fun info => .createContainer info) (fun _ _ => ContainerState.open) (fun _ => rfl)
    (fun _ _ => rfl) (fun m e => ⟨_, rfl, rfl⟩) ?_ w
  intro info _ w r₀ node hans r _
  exact ⟨_, rfl, services_setNode_same (cell_answers_none (by trivial) rfl hans)⟩

theorem setCell_self (w : World) (ep : String) (b : BlockId) :
    w.setCell ep b (w.cells ep b) = w := by
  simp [World.setCell]

theorem putBlock_eq_oneCall (block : Option WireBlockData) : Service.putBlock block =
    oneCall (Service.acceptPut block) (fun block => .putBlock block) fun _ bcsi => bcsi :=
  congrArg (Service.accepted (Service.acceptPut block) >>= ·)
    (funext fun block => (Prog.bind_done ((StoreOp.putBlock block).call Status.storage)).symm)

theorem performs_putBlock {ε : Type} (ep : String) (block : BlockData) (eof : Bool)
    (w : ClusterWorld) :
    (mrg gw req).Performs (crg gw req) ClusterWorld.services t (.object (.putBlock ep block eof))
      none (handle (.object (.putBlock ep block eof)) : Prog clusterCalls ε _) w := by
  show (mrg gw req).Performs (crg gw req) ClusterWorld.services t (.object (.putBlock ep block eof))
    none (request (.putBlock ep block eof) ep (Service.putBlock (some block.toWire)) >>=
      fun y => .done (.ok (y.map fun _ => ()))) w
  rw [putBlock_eq_oneCall]
  refine performs_request (.object (.putBlock ep block eof)) (.putBlock ep block eof) ep
    (fun r => r) (Service.acceptPut (some block.toWire)) (fun block => .putBlock block)
    (fun _ bcsi => bcsi) ?_ (fun _ _ => rfl) ?_ ?_ w
  · intro r
    rw [← putBlock_eq_oneCall]
    rfl
  · intro m e
    exact ⟨_, ⟨_, (setCell_self m.objects ep block.blockId).symm, fun h => by cases h⟩, rfl⟩
  · intro bd hbd w r₀ node hans r hr
    -- the metadata may come in another order, the rest is as it was sent
    obtain rfl := Except.ok.inj ((congrArg Service.converted block.ofWire_toWire_sorted).symm.trans
      hbd)
    obtain ⟨hothers, heffect⟩ := cell_answers (by trivial) hans
    refine ⟨_, ⟨(node.holdings.cell block.blockId).digests, ?_, fun hok => ?_⟩,
      services_setNode fun b' hb' => hothers b' fun h => hb' (Option.some.inj h).symm⟩
    · rcases heffect with heffect | ⟨-, rfl⟩
      · have hchunk : (node.holdings.cell block.blockId).chunk =
            ((w.nodes ep).holdings.cell block.blockId).chunk := by
          rw [heffect]
          exact congrArg (fun chunk => chunk block.blockId "0") (StoreOp.chunk_act_putBlock _)
        exact congrArg (w.services.objects.setCell ep block.blockId) (Cell.ext hchunk rfl)
      · rfl
    · rcases r with message | e | n
      · cases hok
      · cases hok
      · rcases hr with hr | ⟨_, ⟨⟩⟩
        obtain rfl := Except.ok.inj hr
        have hput := digests_of_putBlock hans
        exact hput

/-- A write that is accepted is the one that was asked for. -/
theorem acceptWrite_sent {block : BlockId} {chunk : ChunkInfo} {data : Bytes}
    {b : BlockId × ChunkInfo × Bytes}
    (h : Service.acceptWrite (Service.whole (Service.writeMessages block chunk data)) = .ok b) :
    b = (block, chunk, data) := by
  simp only [Service.acceptWrite, Service.receive_writeMessages, Service.required,
    Service.acceptBlock, Service.acceptChunk, BlockId.ofWire_toWire, ChunkInfo.ofWire_toWire,
    Service.converted, bind, Except.bind, pure, Except.pure] at h
  split at h
  · cases h
  · cases h
    rfl

theorem performs_writeChunk {ε : Type} (ep : String) (block : BlockId) {chunk : ChunkInfo}
    (hname : chunk.chunkName = "0") (data : Bytes) (w : ClusterWorld) :
    (mrg gw req).Performs (crg gw req) ClusterWorld.services t
      (.object (.writeChunk ep block chunk data)) none
      (handle (.object (.writeChunk ep block chunk data)) : Prog clusterCalls ε _) w := by
  refine performs_request (.object (.writeChunk ep block chunk data))
    (.writeChunk ep block chunk data) ep (fun r => r)
    (Service.acceptWrite (Service.whole (Service.writeMessages block chunk data)))
    (fun b => .writeChunk b.1 b.2.1.chunkName b.2.2) (fun b _ => b.2.2.length) (fun _ => rfl)
    (fun _ _ => rfl) ?_ ?_ w
  · intro m e
    exact ⟨_, ⟨_, (setCell_self m.objects ep block).symm, fun h => by cases h⟩, rfl⟩
  · intro b hb w r₀ node hans r hr
    obtain rfl := acceptWrite_sent hb
    obtain ⟨hothers, heffect⟩ := cell_answers (by trivial) hans
    dsimp only at heffect
    rw [hname] at heffect
    refine ⟨_, ⟨(node.holdings.cell block).chunk, ?_, fun hok => ?_⟩,
      services_setNode fun b' hb' => hothers b' fun h => hb' (Option.some.inj h).symm⟩
    · rcases heffect with heffect | ⟨-, rfl⟩
      · refine congrArg (w.services.objects.setCell ep block) (Cell.ext rfl ?_)
        rw [heffect]
        rfl
      · rfl
    · rcases heffect with heffect | ⟨⟨e, rfl⟩, -⟩
      · rw [heffect]
        exact Holdings.chunk_setChunk_self
      · rcases hr with rfl | ⟨_, rfl⟩ <;> cases hok

/-! ### Calls that write -/

/-- A request that takes effect at one step. -/
def Carried : multipartCalls.Op → Prop
  | .object (.readChunk ..) => False
  | .object (.deleteBlock ..) => False
  | .object (.writeChunk _ _ chunk _) => chunk.chunkName = "0"
  | _ => True

/-- **The datanodes and the manager carry out these requests.** -/
theorem carries (gw : Gateway) (req : Tid → MultipartRequest) :
    CarriesOut (mrg gw req) (crg gw req)
      (fun op => (handle op : Prog clusterCalls GatewayError (multipartCalls.Res op)))
      ClusterWorld.services Carried where
  others _ _ _ h := others_services h
  inv _ h := h
  performs t op hop w := by
    cases op with
    | object op =>
      cases op
      case createContainer ep id ec => exact performs_createContainer ep id ec w
      case writeChunk ep block chunk data => exact performs_writeChunk ep block hop data w
      case putBlock ep block eof => exact performs_putBlock ep block eof w
      case readChunk | deleteBlock => exact hop.elim
      all_goals exact performs_manager (by trivial) w
    | _ => exact performs_manager (by trivial) w

theorem Carried.of_writes : ∀ op, Changes.Writes op → Carried (.object op)
  | .createKey .., _ => trivial
  | .allocateBlock .., _ => trivial
  | .dial _, _ => trivial
  | .createContainer .., _ => trivial
  | .writeChunk .., h => h
  | .putBlock .., _ => trivial

open Changes (allocateAndWrite_writes makes_okOr makes_present makes_request)

theorem putObject_carried (gw : Gateway) (key : KeyName) (body : Bytes)
    (metadata tags : List (String × String)) :
    (gw.putObject key body metadata tags).Makes fun op => Carried (.object op) := by
  refine ((allocateAndWrite_writes gw key body none).mono Carried.of_writes).bind fun out => ?_
  refine Prog.Makes.bind (Prog.Makes.mapErr ?_) fun _ => trivial
  exact (makes_request (by trivial)).bind fun _ => makes_okOr _ _

theorem completeMultipart_carried (key : KeyName) (uploadId : String) (numbers : List UInt32) :
    (Gateway.completeMultipart key uploadId numbers).Makes fun op => Carried (.object op) := by
  unfold Gateway.completeMultipart
  split
  · trivial
  split
  · trivial
  refine Prog.Makes.bind (Prog.Makes.mapErr ?_) fun _ => trivial
  refine (makes_request (by trivial)).bind fun _ => (makes_okOr _ _).bind fun _ => ?_
  refine (makes_present _ _).bind fun _ => (makes_present _ _).bind fun _ => ?_
  refine Prog.Makes.bind ?_ fun _ => trivial
  refine (makes_request (by trivial)).bind fun _ => (makes_okOr _ _).bind fun _ => ?_
  exact (makes_present _ _).bind fun _ => Prog.Makes.bind trivial fun _ => trivial

/-- A call that is no `get_object` and no `delete_object` makes such requests only. -/
theorem run_carried (gw : Gateway) {r : MultipartRequest} (hget : ∀ key, r ≠ .get key)
    (hdelete : ∀ key, r ≠ .delete key) : (r.run gw).Makes Carried := by
  cases r with
  | put key body metadata tags =>
    exact ((putObject_carried gw key body.bytes metadata tags).embed fun _ h => h).bind
      fun _ => trivial
  | get key => exact absurd rfl (hget key)
  | delete key => exact absurd rfl (hdelete key)
  | initiate key =>
    refine Prog.Makes.bind (Prog.Makes.mapErr ?_) fun _ => trivial
    refine Prog.Makes.bind (Prog.makes_perform trivial) fun r => ?_
    exact Prog.Makes.bind trivial fun _ => (makes_present _ _).embed fun _ h => h
  | uploadPart key uploadId n body =>
    refine Prog.Makes.bind ?_ fun _ => trivial
    unfold Gateway.uploadPart
    split
    · trivial
    have hwrite := allocateAndWrite_writes gw key body.bytes (some (uploadId, n))
    refine (hwrite.embed Carried.of_writes).bind fun out => ?_
    refine Prog.Makes.bind (Prog.Makes.mapErr ?_) fun _ => trivial
    refine Prog.Makes.bind (Prog.makes_perform trivial) fun r => Prog.Makes.bind trivial fun _ => ?_
    exact ((makes_present _ _).embed fun _ h => h).bind fun _ =>
      (makes_present _ _).embed fun _ h => h
  | complete key uploadId numbers =>
    exact ((completeMultipart_carried key uploadId numbers).embed fun _ h => h).bind
      fun _ => trivial
  | abort key uploadId =>
    refine Prog.Makes.bind (Prog.Makes.mapErr ?_) fun _ => trivial
    exact Prog.Makes.bind (Prog.makes_perform trivial) fun _ => trivial

/-- **A call that is no `get_object` and no `delete_object` is safe** on the datanodes. -/
theorem runOn_safe_of_carried (hisal : gw.isal.Correct) (hget : ∀ key, req t ≠ .get key)
    (hdelete : ∀ key, req t ≠ .delete key) (h : Idle req t w.services) :
    (crg gw req).Safe t (fun _ _ => True) ((req t).runOn gw) (w.logged (.start t)) := by
  have hstart : (w.logged (.start t)).services = w.services.logged (.start t) :=
    services_logged_some rfl
  have hsafe : (mrg gw req).Safe t (Pieces.Ended req t) ((req t).run gw)
      (w.logged (.start t)).services := hstart ▸ Pieces.run_safe hisal h
  exact ((carries gw req).safe (Pieces.Ended.stable) (run_carried gw hget hdelete) hsafe).mono
    fun _ _ _ => trivial

end Steps

end EndToEnd

end OzoneRust
