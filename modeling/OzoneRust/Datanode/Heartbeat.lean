import Mathlib.Data.Finset.Basic
import OzoneRust.Datanode.Commands
import OzoneRust.Datanode.Scrub
import OzoneRust.Datanode.Stores
import OzoneRust.Ec.Reference
import OzoneRust.Lib.Outbox

/-!
# Heartbeats and the reports they carry

The heartbeat loop of `CompliantScmRegistration::run` and the task next to it that turns the
scrubber's findings into reports. At each tick the loop takes the whole list of pending
reports and sends it; an answer brings commands, which it executes one after the other; a
failure is logged, and the loop waits for the next tick. The task adds a report for a
container and slot the first time it hears of them, and never again.

The two run side by side, and clients change the stores under them, so the steps of
`OzoneRust.Node.Step` are single calls of the loop, single findings, and arbitrary changes of
the stores. The list and what is being sent are an outbox (`OzoneRust.Node.outbox_step`).

A report that is in a heartbeat that fails is dropped. `OzoneRust.reports_delivered_iff` says
what that means for a run: nothing is lost if and only if no heartbeat that was not accepted
carried the report of a finding, and every report of a state was pushed more often than such
heartbeats carried it. The report of a finding is pushed once
(`OzoneRust.Latched`), so one that is dropped is gone for good.
-/

namespace OzoneRust

open Scrubber (RepairRequest)

/-! ### The node -/

/-- Where the heartbeat loop is. -/
inductive Phase where
  /-- Waiting for the next tick. -/
  | ticking
  /-- Sending a heartbeat with reports. -/
  | sending (incremental : List ContainerReplica)
  /-- Executing a command, with more to come. -/
  | handling (handler : Handler) (rest : List ScmCommand)

/-- The loop, the reporter and the stores. -/
structure Node where
  /-- The reports for the next heartbeat. -/
  pending : List ContainerReplica
  /-- The containers and slots the reporter has reported. -/
  reported : Finset (ContainerId × UInt8)
  /-- The loop. -/
  phase : Phase
  /-- The stores. -/
  target : Target

/-- What the reporter does with a finding. -/
def Node.receive (uuid : String) (n : Node) (req : RepairRequest) : Node :=
  if (req.container, req.slot) ∈ n.reported then n
  else
    { n with
      reported := insert (req.container, req.slot) n.reported
      pending := n.pending ++ [unhealthyReplica uuid req.container req.slot] }

/-- The loop over the commands of an answer. -/
def dispatch (uuid : String) : List ScmCommand → Phase
  | [] => .ticking
  | cmd :: rest => .handling (handleCommand uuid cmd) rest

/-- What a call of a handler other than a push can answer: what the stores say, or a
failure. -/
def NodeOp.Answers (isal : IsaL) (t : Target) : (op : NodeOp) → op.Res → Target → Prop
  | .setContainerState id state, r, t' => (StoreOp.setContainerState id state).Answers any t r t'
  | .getContainer id, r, t' => (StoreOp.getContainer id).Answers any t r t'
  | .listBlocks id start limit, r, t' => (StoreOp.listBlocks id start limit).Answers any t r t'
  | .deleteContainer id, r, t' => (StoreOp.deleteContainer id).Answers any t r t'
  | .deleteChunks id, r, t' => (StoreOp.deleteChunks id).Answers any t r t'
  | .reconstruct input, r, t' => ∃ F net,
    (∃ ids, reconstructFromSurvivors isal F net input t = .ok ids t' ∧ r = .ok ids) ∨
    (∃ e, reconstructFromSurvivors isal F net input t = .error (.err e) t' ∧ r = .err e) ∨
    (reconstructFromSurvivors isal F net input t = .error .panic t' ∧ r = .panic)
  | .push _, _, _ => False
where
  /-- Every call on the stores may fail. -/
  any (_ : StoreOp) : Prop := True

/-- What is seen of a step. -/
inductive NodeEvent where
  /-- The reporter receives a finding, new to it or not. -/
  | received (req : RepairRequest) (fresh : Bool)
  /-- The loop takes the pending reports. -/
  | tick
  /-- A heartbeat with these reports ends, and the manager has accepted them or not. -/
  | answered (incremental : List ContainerReplica) (accepted : Bool)
  /-- A handler announces a state. -/
  | pushed (replica : ContainerReplica)
  /-- Anything else. -/
  | silent

/-- The steps of the loop, the reporter and the stores, in any order. -/
inductive Node.Step (isal : IsaL) (uuid : String) : Node → NodeEvent → Node → Prop where
  /-- The reporter receives a finding. -/
  | received (n : Node) (req : RepairRequest) :
      Step isal uuid n (.received req (decide ((req.container, req.slot) ∉ n.reported)))
        (n.receive uuid req)
  /-- A tick: the pending reports are taken and sent. -/
  | tick {n : Node} (h : n.phase = .ticking) :
      Step isal uuid n .tick { n with pending := [], phase := .sending n.pending }
  /-- The heartbeat succeeds, with commands. -/
  | accepted {n : Node} {incremental : List ContainerReplica} (commands : List ScmCommand)
      (h : n.phase = .sending incremental) :
      Step isal uuid n (.answered incremental true) { n with phase := dispatch uuid commands }
  /-- The heartbeat fails, before the manager accepts it or after. -/
  | failed {n : Node} {incremental : List ContainerReplica} (accepted : Bool)
      (h : n.phase = .sending incremental) :
      Step isal uuid n (.answered incremental accepted) { n with phase := .ticking }
  /-- A handler announces a state. -/
  | pushed {n : Node} {replica : ContainerReplica} {next : Unit → Handler}
      {rest : List ScmCommand} (h : n.phase = .handling (.call (.push replica) next) rest) :
      Step isal uuid n (.pushed replica)
        { n with pending := n.pending ++ [replica], phase := .handling (next ()) rest }
  /-- Another call of a handler is answered. -/
  | called {n : Node} {op : NodeOp} {next : op.Res → Handler} {rest : List ScmCommand}
      {r : op.Res} {target : Target} (h : n.phase = .handling (.call op next) rest)
      (ha : op.Answers isal n.target r target) :
      Step isal uuid n .silent { n with target := target, phase := .handling (next r) rest }
  /-- A handler has ended, with a panic or without. -/
  | finished {n : Node} {o : Outcome Empty Unit} {rest : List ScmCommand}
      (h : n.phase = .handling (.done o) rest) :
      Step isal uuid n .silent { n with phase := dispatch uuid rest }
  /-- Clients change the stores. -/
  | stores (n : Node) (target : Target) : Step isal uuid n .silent { n with target := target }

/-- The node when the loop starts. -/
def Node.start (target : Target) : Node := ⟨[], ∅, .ticking, target⟩

/-! ### The outbox -/

/-- The reports that are being sent. -/
def Phase.inFlight : Phase → Option (List ContainerReplica)
  | .sending incremental => some incremental
  | _ => none

/-- The reports of a node, as an outbox. -/
def Node.outbox (n : Node) : Outbox ContainerReplica := ⟨n.pending, n.phase.inFlight⟩

/-- What a step does to the reports. -/
def NodeEvent.outbox (uuid : String) : NodeEvent → Option (Outbox.Event ContainerReplica)
  | .received req true => some (.push (unhealthyReplica uuid req.container req.slot))
  | .received _ false => none
  | .tick => some .drain
  | .answered incremental accepted => some (.answered incremental accepted)
  | .pushed replica => some (.push replica)
  | .silent => none

/-- What a run does to the reports. -/
def outboxLog (uuid : String) (log : List NodeEvent) : List (Outbox.Event ContainerReplica) :=
  log.filterMap (NodeEvent.outbox uuid)

section Outbox

variable {isal : IsaL} {uuid : String} {n n' : Node} {e : NodeEvent} {log : List NodeEvent}
  {target : Target}

theorem inFlight_dispatch (commands : List ScmCommand) :
    (dispatch uuid commands).inFlight = none := by
  cases commands <;> rfl

theorem outbox_of_phase {phase : Phase} (h : n.phase = phase) :
    n.outbox = ⟨n.pending, phase.inFlight⟩ := by
  rw [Node.outbox, h]

/-- **The node's reports are an outbox.** -/
theorem Node.outbox_step (h : Node.Step isal uuid n e n') :
    StepOrStay Outbox.Step n.outbox (e.outbox uuid) n'.outbox := by
  cases h with
  | received req =>
    by_cases hmem : (req.container, req.slot) ∈ n.reported
    · simp [hmem, NodeEvent.outbox, Node.receive, StepOrStay]
    · simp only [hmem, not_false_eq_true, decide_true, NodeEvent.outbox, Node.receive, if_false]
      exact .push n.outbox _
  | tick h =>
    rw [outbox_of_phase h]
    exact .drain n.pending
  | accepted commands h =>
    rw [outbox_of_phase h, Node.outbox, inFlight_dispatch]
    exact .answered n.pending _ true
  | failed accepted h =>
    rw [outbox_of_phase h]
    exact .answered n.pending _ accepted
  | pushed h =>
    rw [outbox_of_phase h]
    exact .push ⟨n.pending, none⟩ _
  | called h => rw [outbox_of_phase h]; rfl
  | finished h =>
    rw [outbox_of_phase h]
    simp only [Node.outbox, inFlight_dispatch]
    rfl
  | stores target => rfl

theorem outbox_trace (h : Trace (Node.Step isal uuid) (.start target) log n) :
    Trace Outbox.Step .empty (outboxLog uuid log) n.outbox :=
  Trace.simulate (f := Node.outbox) (g := NodeEvent.outbox uuid)
    (fun _ _ _ hs => Node.outbox_step hs) h

end Outbox

/-! ### The latch -/

/-- A handler announces states, with the counters of the container, and nothing else. -/
def AnnouncesState : nodeCalls.Op → Prop
  | .push replica => replica.keyCount ≠ none
  | _ => True

theorem reportState_makes (uuid : String) (container : ContainerId) :
    (reportState uuid container).Makes AnnouncesState := by
  refine ⟨trivial, fun r => ?_⟩
  rcases r with _ | _ | ci
  · trivial
  · trivial
  · refine ⟨trivial, fun r => ?_⟩
    rcases r with _ | ⟨_ | ⟨first, _⟩, _⟩
    · trivial
    · trivial
    · exact ⟨Option.some_ne_none _, fun _ => trivial⟩

theorem handleReconstruct_makes (uuid : String) (cmd : ReconstructCommand) :
    (handleReconstruct uuid cmd).Makes AnnouncesState := by
  unfold handleReconstruct
  dsimp only
  split
  · trivial
  · split
    · trivial
    · refine ⟨trivial, fun r => ?_⟩
      rcases r with locals | _ | _
      · show (if locals ≠ [] then reportState uuid _ else pure ()).Makes AnnouncesState
        split
        · exact reportState_makes uuid _
        · trivial
      · trivial
      · trivial

theorem handleCommand_makes (uuid : String) (cmd : ScmCommand) :
    (handleCommand uuid cmd).Makes AnnouncesState := by
  unfold handleCommand
  cases cmd.commandType with
  | closeContainer =>
    cases cmd.closeContainer with
    | none => trivial
    | some c =>
      refine ⟨trivial, fun r => ?_⟩
      cases r with
      | error _ => trivial
      | ok _ => exact reportState_makes uuid _
  | deleteContainer =>
    cases cmd.deleteContainer with
    | none => trivial
    | some c => exact ⟨trivial, fun _ => ⟨trivial, fun _ => trivial⟩⟩
  | reconstructEcContainers =>
    cases cmd.reconstruct with
    | none => trivial
    | some c => exact handleReconstruct_makes uuid c
  | other => trivial

theorem unhealthyReplica_inj {uuid : String} {c c' : ContainerId} {slot slot' : UInt8} :
    unhealthyReplica uuid c slot = unhealthyReplica uuid c' slot' ↔ (c, slot) = (c', slot') := by
  constructor
  · intro h
    have hc := congrArg (fun r => r.containerId.toUInt64) h
    have hslot := congrArg (fun r => r.replicaIndex.map fun i => i.toUInt32.toUInt8) h
    simpa [unhealthyReplica, slotToI32] using And.intro hc hslot
  · rintro ⟨⟩
    rfl

/-- **The invariant of the latch**: a finding has a report once it was received, and only
one. -/
structure Latched (uuid : String) (log : List NodeEvent) (n : Node) : Prop where
  /-- What was reported has one report, the rest none. -/
  count : ∀ c slot, (Outbox.pushed (outboxLog uuid log)).count (unhealthyReplica uuid c slot) =
    if (c, slot) ∈ n.reported then 1 else 0
  /-- What was received was reported. -/
  received : ∀ req fresh, .received req fresh ∈ log → (req.container, req.slot) ∈ n.reported
  /-- What was reported was received. -/
  origin : ∀ c slot, (c, slot) ∈ n.reported →
    ∃ req fresh, .received req fresh ∈ log ∧ (req.container, req.slot) = (c, slot)
  /-- Handlers do not report findings. -/
  handler : ∀ p rest, n.phase = .handling p rest → p.Makes AnnouncesState

section Latched

variable {isal : IsaL} {uuid : String} {n n' : Node} {e : NodeEvent} {log : List NodeEvent}

theorem pushed_append : Outbox.pushed (outboxLog uuid (log ++ [e])) =
    Outbox.pushed (outboxLog uuid log) ++
      ((e.outbox uuid).map Outbox.Event.pushed).getD [] := by
  simp only [Outbox.pushed, outboxLog, List.filterMap_append, List.flatMap_append]
  congr 1
  cases he : e.outbox uuid <;> simp [he]

theorem Latched.origin_append (h : Latched uuid log n) {c : ContainerId} {slot : UInt8}
    (hmem : (c, slot) ∈ n.reported) :
    ∃ req fresh, .received req fresh ∈ log ++ [e] ∧ (req.container, req.slot) = (c, slot) := by
  obtain ⟨req, fresh, hreq, heq⟩ := h.origin c slot hmem
  exact ⟨req, fresh, List.mem_append_left _ hreq, heq⟩

/-- A step that reports no finding keeps the latch. -/
theorem Latched.quiet (h : Latched uuid log n) (hreported : n'.reported = n.reported)
    (hnew : ∀ c slot, unhealthyReplica uuid c slot ∉
      ((e.outbox uuid).map Outbox.Event.pushed).getD [])
    (hevent : ∀ req fresh, e ≠ .received req fresh)
    (hhandler : ∀ p rest, n'.phase = .handling p rest → p.Makes AnnouncesState) :
    Latched uuid (log ++ [e]) n' where
  count c slot := by
    rw [pushed_append, List.count_append, List.count_eq_zero.mpr (hnew c slot), Nat.add_zero,
      h.count, hreported]
  received req fresh hmem := by
    rw [hreported]
    rcases List.mem_append.mp hmem with hmem | hmem
    · exact h.received req fresh hmem
    · exact absurd (List.mem_singleton.mp hmem).symm (hevent req fresh)
  origin c slot hmem := h.origin_append (hreported ▸ hmem)
  handler := hhandler

theorem dispatch_makes {commands rest : List ScmCommand} {p : Handler}
    (h : dispatch uuid commands = .handling p rest) : p.Makes AnnouncesState := by
  cases commands with
  | nil => cases h
  | cons cmd commands =>
    cases h
    exact handleCommand_makes uuid cmd

/-- A finding that was reported before changes nothing. -/
theorem Latched.known (h : Latched uuid log n) {req : RepairRequest}
    (hmem : (req.container, req.slot) ∈ n.reported) :
    Latched uuid (log ++ [.received req false]) n where
  count c slot := by
    rw [pushed_append, List.count_append, h.count]
    rfl
  received req' fresh' hreq := by
    rcases List.mem_append.mp hreq with hreq | hreq
    · exact h.received req' fresh' hreq
    · cases List.mem_singleton.mp hreq
      exact hmem
  origin c slot hmem' := h.origin_append hmem'
  handler := h.handler

/-- A finding that is new is reported. -/
theorem Latched.fresh (h : Latched uuid log n) {req : RepairRequest}
    (hmem : (req.container, req.slot) ∉ n.reported) :
    Latched uuid (log ++ [.received req true])
      { n with
        reported := insert (req.container, req.slot) n.reported
        pending := n.pending ++ [unhealthyReplica uuid req.container req.slot] } where
  count c slot := by
    have hone : ((NodeEvent.received req true).outbox uuid).map Outbox.Event.pushed =
        some [unhealthyReplica uuid req.container req.slot] := rfl
    rw [pushed_append, List.count_append, h.count, hone, Option.getD_some, List.count_singleton]
    by_cases heq : (c, slot) = (req.container, req.slot)
    · rw [heq, if_neg hmem, if_pos (Finset.mem_insert_self _ _), unhealthyReplica_inj.mpr heq]
      simp
    · have hne : unhealthyReplica uuid req.container req.slot ≠ unhealthyReplica uuid c slot :=
        fun h => heq (unhealthyReplica_inj.mp h).symm
      simp [Finset.mem_insert, heq, hne]
  received req' fresh' hreq := by
    rcases List.mem_append.mp hreq with hreq | hreq
    · exact Finset.mem_insert_of_mem (h.received req' fresh' hreq)
    · cases List.mem_singleton.mp hreq
      exact Finset.mem_insert_self _ _
  origin c slot hmem' := by
    rcases Finset.mem_insert.mp hmem' with heq | hmem'
    · exact ⟨req, true, List.mem_append_right _ (List.mem_singleton_self _), heq.symm⟩
    · exact h.origin_append hmem'
  handler := h.handler

theorem Latched.step (h : Latched uuid log n) (hs : Node.Step isal uuid n e n') :
    Latched uuid (log ++ [e]) n' := by
  cases hs with
  | received req =>
    unfold Node.receive
    by_cases hmem : (req.container, req.slot) ∈ n.reported
    · simpa [hmem] using h.known hmem
    · simpa [hmem] using h.fresh hmem
  | tick hphase => exact h.quiet rfl (by rintro _ _ ⟨⟩) (by rintro _ _ ⟨⟩) (by rintro _ _ ⟨⟩)
  | accepted commands hphase =>
    exact h.quiet rfl (by rintro _ _ ⟨⟩) (by rintro _ _ ⟨⟩) fun _ _ => dispatch_makes
  | failed accepted hphase =>
    exact h.quiet rfl (by rintro _ _ ⟨⟩) (by rintro _ _ ⟨⟩) (by rintro _ _ ⟨⟩)
  | pushed hphase =>
    obtain ⟨hstate, hnext⟩ := h.handler _ _ hphase
    refine h.quiet rfl (fun c slot hmem => ?_) (by rintro _ _ ⟨⟩) ?_
    · rw [← List.mem_singleton.mp hmem] at hstate
      exact hstate rfl
    · rintro _ _ ⟨⟩
      exact hnext ()
  | called hphase ha =>
    refine h.quiet rfl (by rintro _ _ ⟨⟩) (by rintro _ _ ⟨⟩) ?_
    rintro _ _ ⟨⟩
    exact (h.handler _ _ hphase).2 _
  | finished hphase =>
    exact h.quiet rfl (by rintro _ _ ⟨⟩) (by rintro _ _ ⟨⟩) fun _ _ => dispatch_makes
  | stores target => exact h.quiet rfl (by rintro _ _ ⟨⟩) (by rintro _ _ ⟨⟩) h.handler

theorem latched_of_trace {target : Target}
    (h : Trace (Node.Step isal uuid) (.start target) log n) : Latched uuid log n := by
  refine h.invariant (Latched uuid) ⟨fun _ _ => rfl, ?_, ?_, ?_⟩ fun _ _ _ _ hI hs => hI.step hs
  · rintro _ _ ⟨⟩
  · rintro _ _ ⟨⟩
  · rintro _ _ ⟨⟩

/-- **The report of a finding is kept** if and only if it was never dropped. -/
theorem Latched.kept_iff (h : Latched uuid log n) {c : ContainerId} {slot : UInt8}
    (hmem : (c, slot) ∈ n.reported) :
    (Outbox.dropped (outboxLog uuid log)).count (unhealthyReplica uuid c slot) <
        (Outbox.pushed (outboxLog uuid log)).count (unhealthyReplica uuid c slot) ↔
      unhealthyReplica uuid c slot ∉ Outbox.dropped (outboxLog uuid log) := by
  rw [h.count, if_pos hmem, Nat.lt_one_iff, List.count_eq_zero]

/-- What is dropped was received. -/
theorem Latched.reported_of_dropped (h : Latched uuid log n) {target : Target}
    (hrun : Trace (Node.Step isal uuid) (.start target) log n) {c : ContainerId} {slot : UInt8}
    (hdrop : unhealthyReplica uuid c slot ∈ Outbox.dropped (outboxLog uuid log)) :
    (c, slot) ∈ n.reported := by
  have hle := Outbox.count_dropped_le (outbox_trace hrun) (unhealthyReplica uuid c slot)
  have hpos := List.count_pos_iff.mpr hdrop
  rw [h.count] at hle
  by_contra hnot
  rw [if_neg hnot] at hle
  omega

end Latched

/-! ### What is delivered -/

/-- **No report is lost**: the report of every finding received, and every state announced,
is pending or was in a heartbeat that was accepted. -/
structure Delivered (uuid : String) (log : List NodeEvent) (n : Node) : Prop where
  /-- The findings. -/
  findings : ∀ req fresh, .received req fresh ∈ log →
    unhealthyReplica uuid req.container req.slot ∈ n.pending ∨
      unhealthyReplica uuid req.container req.slot ∈ Outbox.carried (outboxLog uuid log)
  /-- The states. -/
  states : ∀ replica, .pushed replica ∈ log →
    replica ∈ n.pending ∨ replica ∈ Outbox.carried (outboxLog uuid log)

/-- **When no report is lost**: in every run, while no heartbeat is in flight, exactly when no
heartbeat that was not accepted carried the report of a finding, and every report of a state
was pushed more often than such heartbeats carried it. -/
theorem reports_delivered_iff {isal : IsaL} {uuid : String} {target : Target}
    {log : List NodeEvent} {n : Node} (h : Trace (Node.Step isal uuid) (.start target) log n)
    (hidle : n.phase.inFlight = none) :
    Delivered uuid log n ↔
      (∀ c slot, unhealthyReplica uuid c slot ∉ Outbox.dropped (outboxLog uuid log)) ∧
      ∀ replica, .pushed replica ∈ log → (Outbox.dropped (outboxLog uuid log)).count replica <
        (Outbox.pushed (outboxLog uuid log)).count replica := by
  have hlatched := latched_of_trace h
  have hkept := Outbox.kept_iff (outbox_trace h) hidle
  constructor
  · intro hdelivered
    refine ⟨fun c slot hdrop => ?_, fun r hr => (hkept r).mp (hdelivered.states r hr)⟩
    have hmem := hlatched.reported_of_dropped h hdrop
    obtain ⟨req, fresh, hreq, heq⟩ := hlatched.origin c slot hmem
    have hfound := hdelivered.findings req fresh hreq
    rw [unhealthyReplica_inj.mpr heq] at hfound
    exact (hlatched.kept_iff hmem).mp ((hkept _).mp hfound) hdrop
  · rintro ⟨hfindings, hstates⟩
    refine ⟨fun req fresh hreq => (hkept _).mpr ?_, fun r hr => (hkept r).mpr (hstates r hr)⟩
    exact (hlatched.kept_iff (hlatched.received req fresh hreq)).mpr (hfindings _ _)

/-! ### Runs with a failure -/

/-- The scrubber finds the second shard of a group rotten. -/
def rottenShard : RepairRequest := ⟨1, 7, 2, ⟨2, 1, 1, .rs⟩, 2⟩

/-- A datanode with a block of four bytes, in an open container or a closed one. -/
def holdsBlock (state : ContainerState) : Target where
  store := ⟨SortedMap.empty.insert (MetaStore.containerKey 1)
      ⟨⟨1, state, 4, 1, some ⟨2, 1, 1, .rs⟩⟩, 1⟩,
    SortedMap.empty.insert (MetaStore.blockKey ⟨1, 7, 2⟩) ⟨⟨1, 7, 2⟩, [⟨"0", 0, 4, none⟩], []⟩⟩
  chunks _ _ := none

/-- The command to close the container. -/
def closeOne : ScmCommand := ⟨.closeContainer, some 1, none, none⟩

/-- What is reported of it then. -/
def closedReplica : ContainerReplica := ⟨1, .closed, some 2, some "dn", some 1, some 4⟩

/-- A heartbeat brings the command, and the handler announces the state. -/
def closeLog : List NodeEvent :=
  [.tick, .answered [] true, .silent, .silent, .silent, .pushed closedReplica, .silent]

/-- The container is closed and its state announced, and the heartbeat with the report fails.
The command comes again and the report with it; the next heartbeat, with that report and the
one of a finding, succeeds. -/
def closedTwiceLog : List NodeEvent :=
  closeLog ++ [.tick, .answered [closedReplica] false] ++ closeLog ++
    [.received rottenShard true, .tick, .answered [closedReplica, unhealthyReplica "dn" 1 2] true]

theorem trace_closeLog {target : Target} {log : List NodeEvent} (state : ContainerState)
    (h : Trace (Node.Step IsaL.reference "dn") (.start target) log
      ⟨[], ∅, .ticking, holdsBlock state⟩) :
    Trace (Node.Step IsaL.reference "dn") (.start target) (log ++ closeLog)
      ⟨[closedReplica], ∅, .ticking, holdsBlock .closed⟩ := by
  have hset : NodeOp.Answers IsaL.reference (holdsBlock state) (.setContainerState 1 .closed)
      (.ok ()) (holdsBlock .closed) := .inl ⟨rfl, rfl⟩
  have hget : NodeOp.Answers IsaL.reference (holdsBlock .closed) (.getContainer 1) _
      (holdsBlock .closed) := .inl ⟨rfl, rfl⟩
  have hlist : NodeOp.Answers IsaL.reference (holdsBlock .closed) (.listBlocks 1 0 1) _
      (holdsBlock .closed) := .inl ⟨rfl, rfl⟩
  have h₁ := h.snoc (.tick rfl)
  have h₂ := h₁.snoc (.accepted [closeOne] rfl)
  have h₃ := h₂.snoc (.called rfl hset)
  have h₄ := h₃.snoc (.called rfl hget)
  have h₅ := h₄.snoc (.called rfl hlist)
  have h₆ := h₅.snoc (.pushed rfl)
  have h₇ := h₆.snoc (.finished rfl)
  have hlog : log ++ closeLog = log ++ [.tick] ++ [.answered [] true] ++ [.silent] ++ [.silent] ++
      [.silent] ++ [.pushed closedReplica] ++ [.silent] := by simp [closeLog]
  rw [hlog]
  exact h₇

theorem trace_closedTwiceLog :
    Trace (Node.Step IsaL.reference "dn") (.start (holdsBlock .open)) closedTwiceLog
      ⟨[], {(1, 2)}, .ticking, holdsBlock .closed⟩ := by
  have h₁ : Trace (Node.Step IsaL.reference "dn") (.start (holdsBlock .open)) ([] ++ closeLog) _ :=
    trace_closeLog .open .nil
  have h₂ := (h₁.snoc (.tick rfl)).snoc (.failed false rfl)
  have h₃ := trace_closeLog .closed h₂
  have h₄ := h₃.snoc (.received _ rottenShard)
  have h₅ := h₄.snoc (.tick rfl)
  exact h₅.snoc (.accepted [] rfl)

/-- The run with the failure. -/
theorem reports_delivered_iff_closedTwice :
    Trace (Node.Step IsaL.reference "dn") (.start (holdsBlock .open)) closedTwiceLog
      ⟨[], {(1, 2)}, .ticking, holdsBlock .closed⟩ ∧
    closedReplica ∈ Outbox.dropped (outboxLog "dn" closedTwiceLog) ∧
    (Delivered "dn" closedTwiceLog ⟨[], {(1, 2)}, .ticking, holdsBlock .closed⟩ ↔
      (∀ c slot, unhealthyReplica "dn" c slot ∉ Outbox.dropped (outboxLog "dn" closedTwiceLog)) ∧
      ∀ replica, .pushed replica ∈ closedTwiceLog →
        (Outbox.dropped (outboxLog "dn" closedTwiceLog)).count replica <
          (Outbox.pushed (outboxLog "dn" closedTwiceLog)).count replica) :=
  ⟨trace_closedTwiceLog, by decide, reports_delivered_iff trace_closedTwiceLog rfl⟩

/-- The finding is received, and the heartbeat with its report fails; it is received again,
and the next heartbeat succeeds. -/
def rottenShardLog : List NodeEvent :=
  [.received rottenShard true, .tick, .answered [unhealthyReplica "dn" 1 2] false,
    .received rottenShard false, .tick, .answered [] true]

theorem trace_rottenShardLog :
    Trace (Node.Step IsaL.reference "dn") (.start .empty) rottenShardLog
      ⟨[], {(1, 2)}, .ticking, .empty⟩ := by
  have h₀ : Trace (Node.Step IsaL.reference "dn") (.start .empty) [] (.start .empty) := .nil
  have h₁ := h₀.snoc (.received _ rottenShard)
  have h₂ := h₁.snoc (.tick rfl)
  have h₃ := h₂.snoc (.failed false rfl)
  have h₄ := h₃.snoc (.received _ rottenShard)
  have h₅ := h₄.snoc (.tick rfl)
  exact h₅.snoc (.accepted [] rfl)

/-- **A report is lost**: after the run, the report of the finding is nowhere. -/
theorem finding_lost : ∃ n,
    Trace (Node.Step IsaL.reference "dn") (.start .empty) rottenShardLog n ∧
    n.phase.inFlight = none ∧ .received rottenShard true ∈ rottenShardLog ∧ n.pending = [] ∧
    Outbox.carried (outboxLog "dn" rottenShardLog) = [] :=
  ⟨_, trace_rottenShardLog, rfl, List.mem_cons_self, rfl, rfl⟩

end OzoneRust
