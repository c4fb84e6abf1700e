import OzoneRust.Gateway.Get
import OzoneRust.Gateway.Put

/-!
# Reads see the last commit

Any number of `put_object`, `get_object` and `delete_object` calls on any keys, interleaved
request by request, with any requests failing. The calls being safe one by one
(`OzoneRust.Consistency.putObject_safe`, `OzoneRust.Consistency.getObject_safe`,
`OzoneRust.Consistency.deleteObject_safe`), they are safe together, and a `get_object` that
ends has what it promises: `OzoneRust.getObject_eq_lastCommit`.
-/

namespace OzoneRust

namespace Consistency

open RelyGuarantee

variable {gw : Gateway} {req : Tid → Request} {t : Tid} {w : World}

/-- A call that has not started has left no trace. -/
structure Idle (t : Tid) (w : World) : Prop where
  /-- No event is its own. -/
  log : ∀ e ∈ w.log, e.tid ≠ t
  /-- No group is its own. -/
  alloc : ∀ g a, w.alloc g = some a → a.owner ≠ t

theorem Idle.stable : (rg gw req).Stable t (Idle t) := by
  rintro w w' ⟨-, -, u, hu, hG⟩ h
  obtain ⟨e, hlog, he⟩ := hG.log
  refine ⟨fun e' he' => ?_, fun g a ha => ?_⟩
  · rw [hlog, List.mem_append, List.mem_singleton] at he'
    rcases he' with he' | rfl
    · exact h.log e' he'
    · exact he.trans_ne hu
  · rcases hG.fresh g a ha with ha | ha
    · exact h.alloc g a ha
    · exact ha.trans_ne hu

theorem Idle.putState (h : Idle t w) : PutState t none [] [] [] (w.logged (.start t)) := by
  refine ⟨?_, by simp, by simp, by simp, .nil, by simp⟩
  refine Uncommitted.append ?_ (by rintro _ _ ⟨⟩)
  intro key locs hmem
  obtain ⟨e, he, hc⟩ := List.mem_filterMap.mp hmem
  exact h.log e he (tid_of_commit? hc)

theorem Idle.attempts (h : Idle t w) : attempts t (w.logged (.start t)).log = [] := by
  have hnone : ∀ e ∈ w.log, e.attempt? t = none := fun e he => attempt?_of_ne (h.log e he)
  change OzoneRust.attempts t (w.log ++ [.start t]) = []
  rw [attempts_append, OzoneRust.attempts, List.filterMap_eq_nil_iff.mpr hnone]
  rfl

/-- What a call of the gateway that has ended shows: of a `get_object`,
`OzoneRust.Consistency.GetsLastCommit`. -/
def Ended (req : Tid → Request) (t : Tid) (o : Outcome GatewayError Reply) (w : World) : Prop :=
  ∀ key, req t = .get key → ∃ o', o = Reply.get <$> o' ∧ GetsLastCommit req t key o' w

theorem Ended.stable (o : Outcome GatewayError Reply) : (rg gw req).Stable t (Ended req t o) := by
  intro w w' hother h key hreq
  obtain ⟨o', ho, hget⟩ := h key hreq
  exact ⟨o', ho, GetsLastCommit.stable o' w w' hother hget⟩

theorem inv_empty (gw : Gateway) (req : Tid → Request) : Inv gw req World.empty :=
  ⟨by rintro _ _ _ ⟨⟩, by rintro _ _ ⟨⟩, by rintro _ _ ⟨⟩⟩

/-- **Every call of the gateway is safe** from its start on. -/
theorem run_safe (hisal : gw.isal.Correct) (h : Idle t w) :
    (rg gw req).Safe t (Ended req t) ((req t).run gw) (w.logged (.start t)) := by
  cases hreq : req t with
  | put key body metadata tags =>
    have hput := @putObject_safe gw req t _ hisal _ _ _ _ hreq h.putState h.alloc
    refine Safe.mono ?_ (Safe.bind_ends (J := fun _ _ => True) hput fun _ _ _ => trivial)
    intro o w _ key hget
    rw [hreq] at hget
    cases hget
  | get key =>
    refine Safe.bind (I := fun reply => GetsLastCommit req t key (.ok reply)) ?_
      ((getObject_safe hisal h.attempts).mono fun o w ho => ?_)
    · intro reply w hw key' hreq'
      cases hreq.symm.trans hreq'
      exact ⟨.ok reply, rfl, hw⟩
    · cases o with
      | ok reply => exact ho
      | err e =>
        intro key' hreq'
        cases hreq.symm.trans hreq'
        exact ⟨.err e, rfl, ho⟩
      | panic =>
        intro key' hreq'
        cases hreq.symm.trans hreq'
        exact ⟨.panic, rfl, ho⟩
  | delete key =>
    have hstarted : DeleteStarted req (w.logged (.start t)).log key :=
      ⟨t, hreq, List.mem_append_right _ (List.mem_singleton_self _)⟩
    refine Safe.mono ?_ (Safe.bind_ends (J := fun _ _ => True) (deleteObject_safe hstarted)
      fun _ _ _ => trivial)
    intro o w _ key hget
    rw [hreq] at hget
    cases hget

/-- What holds in whatever way the calls are interleaved. -/
theorem allSafe_of_reachable (hisal : gw.isal.Correct)
    {P : Pool gatewayCalls GatewayError Reply Tid World}
    (hP : Pool.Reachable gatewaySystem (fun t => (req t).run gw) World.empty P) :
    (rg gw req).AllSafe (Ended req) Idle P := by
  refine (rg gw req).safe_of_reachable (Ended req) (inv_empty gw req)
    (fun t => ⟨by rintro _ ⟨⟩, by rintro _ _ ⟨⟩⟩) (fun _ => Idle.stable) ?_
    (fun _ => Ended.stable) hP
  rintro t w _ hI hidle rfl
  exact and_assoc.mp ⟨hI.logged rfl rfl, run_safe hisal hidle⟩

theorem ended_of_reachable (hisal : gw.isal.Correct)
    {P : Pool gatewayCalls GatewayError Reply Tid World}
    (hP : Pool.Reachable gatewaySystem (fun t => (req t).run gw) World.empty P)
    {o : Outcome GatewayError Reply} (ht : P.threads t = some (.done o)) :
    Ended req t o P.world :=
  (allSafe_of_reachable hisal hP).safe t _ ht

end Consistency

open Consistency

/-- **A `get_object` returns the body of the put that committed last before its lookup.** In
every interleaving, a get that has ended has made its lookup, at some place of the log. If
it returns, it returns the whole body of the `put_object` whose commit was the last to be
applied to the key before that place. And it does return if the lookup was served, found a
commit before it, no `delete_object` of the key has started and in each group of that commit at
least `k` slots were readable, that is, did not fail the get. -/
theorem getObject_eq_lastCommit (gw : Gateway) (hisal : gw.isal.Correct) (req : Tid → Request)
    {P : Pool gatewayCalls GatewayError Reply Tid World}
    (hP : Pool.Reachable gatewaySystem (fun t => (req t).run gw) World.empty P)
    {t : Tid} {key : KeyName} (hreq : req t = .get key) {o : Outcome GatewayError Reply}
    (ht : P.threads t = some (.done o)) :
    ∃ before r served after,
      P.world.log = before ++ .answer t (.getKeyInfo key) r served :: after ∧
      (∀ reply, o = .ok reply → ∃ u locs body metadata tags got,
        lastCommit before key = some (u, key, locs) ∧ req u = .put key body metadata tags ∧
          reply = .get got ∧ got.body = body.bytes) ∧
      (served = true → ∀ u locs, lastCommit before key = some (u, key, locs) →
        ¬DeleteStarted req P.world.log key →
        ReadableGroups P.world.placeOf (attempts t P.world.log) 0 locs →
          ∃ got, o = .ok (.get got)) := by
  obtain ⟨o', rfl, before, r, served, after, hlog, hbody, hok⟩ :=
    ended_of_reachable hisal hP ht key hreq
  refine ⟨before, r, served, after, hlog, ?_, ?_⟩
  · intro reply ho
    cases o' with
    | ok got =>
      obtain ⟨u, locs, body, metadata, tags, hlast, hput, hgot⟩ := hbody got rfl
      cases ho
      exact ⟨u, locs, body, metadata, tags, got, hlast, hput, rfl, hgot⟩
    | err e => cases ho
    | panic => cases ho
  · intro hserved u locs hlast hd hread
    obtain ⟨got, rfl⟩ := hok hserved u locs hlast hd hread
    exact ⟨got, rfl⟩

/-- Call `0` puts an object of one byte under a key, every other call gets it. -/
def putThenGet : Tid → Request
  | 0 => .put ⟨"b", "k"⟩ ⟨[5], by decide⟩ [] []
  | _ => .get ⟨"b", "k"⟩

/-- The bytes a call has returned. -/
def bytesRead : Option (GwM Reply) → Option Bytes
  | some (.done (.ok (.get got))) => some got.body
  | _ => none

theorem exists_of_bytesRead {thread : Option (GwM Reply)} {body : Bytes}
    (h : bytesRead thread = some body) :
    ∃ got, thread = some (.done (.ok (.get got))) ∧ got.body = body := by
  unfold bytesRead at h
  split at h
  case h_1 got => exact ⟨got, rfl, Option.some.inj h⟩
  case h_2 => cases h

open Placement in
/-- The put runs to its end, then the get, which cannot dial the first datanode and reads the
parity shard from the second. -/
theorem exists_degradedGet : ∃ P : Pool gatewayCalls GatewayError Reply Tid World,
    Pool.Reachable gatewaySystem (fun t => (putThenGet t).run Gateway.reference) World.empty P ∧
    bytesRead (P.threads 1) = some [5] ∧ attempts 1 P.world.log = [false, true] ∧
    ∃ locs, lastCommit P.world.log ⟨"b", "k"⟩ = some (0, ⟨"b", "k"⟩, locs) ∧
      ReadableGroups P.world.placeOf (attempts 1 P.world.log) 0 locs := by
  have h₀ : Pool.Reachable gatewaySystem (fun t => (putThenGet t).run Gateway.reference)
    World.empty ⟨fun _ => none, World.empty⟩ := .refl
  have h₁ := h₀.tail (.start (t := 0) rfl rfl)
  have h₂ := reachable_answer h₁ 0 _ rfl (.ok ⟨some 0, some ⟨0, [], 0, [[mirrorLocation 0]]⟩⟩) true
    ⟨[(mirrorLocation 0, mirror)], grants_mirror fun _ => rfl, rfl, by rintro _ ⟨⟩ _ ⟨⟩; rfl⟩
  -- the first slot, then the second: dial, container, chunk, block
  have h₃ := reachable_answer h₂ 0 _ rfl (.ok ()) true rfl
  have h₄ := reachable_answer h₃ 0 _ rfl (.ok ()) true rfl
  have h₅ := reachable_answer h₄ 0 _ rfl (.ok ()) true ⟨_, rfl, fun _ => rfl⟩
  have h₆ := reachable_answer h₅ 0 _ rfl (.ok ()) true ⟨_, rfl, fun _ => rfl⟩
  have h₇ := reachable_answer h₆ 0 _ rfl (.ok ()) true rfl
  have h₈ := reachable_answer h₇ 0 _ rfl (.ok ()) true rfl
  have h₉ := reachable_answer h₈ 0 _ rfl (.ok ()) true ⟨_, rfl, fun _ => rfl⟩
  have h₁₀ := reachable_answer h₉ 0 _ rfl (.ok ()) true ⟨_, rfl, fun _ => rfl⟩
  have h₁₁ := reachable_answer h₁₀ 0 _ rfl (.ok ()) true rfl
  have h₁₂ := h₁₁.tail (.start (t := 1) rfl rfl)
  have h₁₃ := reachable_answer h₁₂ 1 _ rfl
    (.ok (some ⟨1, [("ETAG", some "")], 0, [[mirrorLocation 1]]⟩)) true
    ⟨rfl, _, rfl, rfl, rfl, .cons ⟨rfl, rfl, rfl, rfl, ⟨0, mirror⟩, rfl,
      presents_mirrorLocation⟩ .nil⟩
  have h₁₄ := reachable_answer h₁₃ 1 _ rfl (.error "refused") false rfl
  have h₁₅ := reachable_answer h₁₄ 1 _ rfl (.ok ()) true rfl
  have h₁₆ := reachable_answer h₁₅ 1 _ rfl (.ok [5]) true (answers_read (by decide +kernel))
  refine ⟨_, h₁₆, by decide +kernel, by decide +kernel, [⟨1, 1, 0, 1, none⟩], rfl, ?_⟩
  rintro a ⟨⟩
  exact ⟨by decide +kernel, trivial⟩

/-- The get returns the byte that was put, with one of the two datanodes down. -/
theorem getObject_eq_lastCommit_degradedGet :
    ∃ P : Pool gatewayCalls GatewayError Reply Tid World,
      Pool.Reachable gatewaySystem (fun t => (putThenGet t).run Gateway.reference) World.empty P ∧
      attempts 1 P.world.log = [false, true] ∧
      (∃ locs, lastCommit P.world.log ⟨"b", "k"⟩ = some (0, ⟨"b", "k"⟩, locs) ∧
        ReadableGroups P.world.placeOf (attempts 1 P.world.log) 0 locs) ∧
      ∃ got, P.threads 1 = some (.done (.ok (.get got))) ∧ got.body = [5] ∧
      ∃ before r served after,
        P.world.log = before ++ .answer 1 (.getKeyInfo ⟨"b", "k"⟩) r served :: after ∧
        ∃ u locs body metadata tags, lastCommit before ⟨"b", "k"⟩ = some (u, ⟨"b", "k"⟩, locs) ∧
          putThenGet u = .put ⟨"b", "k"⟩ body metadata tags ∧ got.body = body.bytes := by
  obtain ⟨P, hP, hread, hattempts, hlocs⟩ := exists_degradedGet
  obtain ⟨got, hgot, hbody⟩ := exists_of_bytesRead hread
  obtain ⟨before, r, served, after, hlog, hlast, -⟩ := getObject_eq_lastCommit
    Gateway.reference IsaL.reference_correct putThenGet hP (t := 1) rfl hgot
  obtain ⟨u, locs, body, metadata, tags, _, hcommit, hput, ⟨⟩, hbytes⟩ := hlast _ rfl
  exact ⟨P, hP, hattempts, hlocs, got, hgot, hbody, before, r, served, after, hlog,
    u, locs, body, metadata, tags, hcommit, hput, hbytes⟩

end OzoneRust
