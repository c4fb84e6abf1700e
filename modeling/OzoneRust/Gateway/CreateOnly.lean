import OzoneRust.Gateway.Changes
import OzoneRust.Gateway.Route

/-!
# Create-only puts

A `PUT` with `If-None-Match: *` is meant to store an object only if there is none. `route`
looks the key up first and refuses if the lookup finds an object; otherwise it uploads and
commits like any other `PUT`. The lookup and the commit are requests of their own, and a lookup
that fails counts as one that finds nothing.

The puts and deletes run side by side (`OzoneRust.CreateOnly.Request`), and the log tells when
the key is there (`OzoneRust.CreateOnly.keyExists`). A create-only put that answers `200` has
made its lookup at one place of the log and its commit at a later one, and the lookup has found no
object: if it was served, there was none. `OzoneRust.CreateOnly.createOnly_iff` says when the commit
meets no object either: if what the other requests did to the key in between ended with a deletion,
or they did nothing and the lookup was served, or failed but there was no object. Nothing in the
code makes that so (`OzoneRust.CreateOnly.createOnly_both`).
-/

namespace OzoneRust

namespace CreateOnly

open Changes RelyGuarantee

/-! ### Requests -/

/-- What a `PUT` of an object answers. -/
inductive PutReply where
  /-- `412`. -/
  | preconditionFailed
  /-- `200`, with the ETag of the copy. -/
  | copied (etag : String)
  /-- `200`, with the ETag of the object. -/
  | stored (etag : String)
  deriving DecidableEq, Repr

/-- The check of a create-only put: whether `head_object` finds the object. Every error counts as
not. -/
def found (key : KeyName) : GwM Bool := do
  match ← (Gateway.headObject key).attempt with
  | .ok _ => return true
  | .error _ => return false

/-- The upload of a `PUT`. -/
def store (gw : Gateway) (key : KeyName) : Upload → GwM PutReply
  | .copy source directives => do return .copied (← gw.copyObject key source directives).1
  | .object body metadata tags => do return .stored (← gw.putObject key body metadata tags)

/-- The branch of `route` for the `PUT` of an object. -/
def putRoute (gw : Gateway) (key : KeyName) (createOnly : Bool)
    (upload : Outcome GatewayError Upload) : GwM PutReply := do
  if ← if createOnly then found key else pure false then return .preconditionFailed
  else store gw key (← Prog.lift upload)

/-- A request that can change a key. -/
inductive Request where
  /-- `PUT`. -/
  | put (key : KeyName) (createOnly : Bool) (upload : Outcome GatewayError Upload)
  /-- `DELETE`. -/
  | delete (key : KeyName)

/-- What a request answers. -/
inductive Reply where
  /-- To a `PUT`. -/
  | put (reply : PutReply)
  /-- To a `DELETE`. -/
  | deleted
  deriving DecidableEq, Repr

/-- The program of a request. -/
def Request.run (gw : Gateway) : Request → GwM Reply
  | .put key createOnly upload => do return .put (← putRoute gw key createOnly upload)
  | .delete key => do
    Gateway.deleteObject key
    return .deleted

/-! ### When a key is there -/

/-- The last change of a key in a log. -/
def lastChange (log : List Event) (key : KeyName) : Option Bool :=
  ((log.filterMap eventChanges?).filter fun c => c.1 = key).getLast?.map (·.2)

/-- **Whether a key is there** after a log, if `was` says whether it was there before. -/
def keyExists (was : KeyName → Bool) (log : List Event) (key : KeyName) : Bool :=
  (lastChange log key).getD (was key)

theorem lastChange_append (log log' : List Event) (key : KeyName) :
    lastChange (log ++ log') key = (lastChange log' key).or (lastChange log key) := by
  unfold lastChange
  rw [List.filterMap_append, List.filter_append, List.getLast?_append, Option.map_or]

theorem keyExists_append (was : KeyName → Bool) (log log' : List Event) (key : KeyName) :
    keyExists was (log ++ log') key = (lastChange log' key).getD (keyExists was log key) := by
  unfold keyExists
  rw [lastChange_append]
  rcases lastChange log' key with _ | b <;> rfl

theorem lastChange_of_none {e : Event} (h : eventChanges? e = none) (log : List Event)
    (key : KeyName) : lastChange (e :: log) key = lastChange log key := by
  unfold lastChange
  rw [List.filterMap_cons_none h]

section Steps

variable {t : Tid} {w w' : World} {op : GatewayOp} {r : gatewayCalls.Res op} {served : Bool}

theorem isSome_setKey {e : Event} {name : KeyName} {rec : Option KeyRecord}
    (he : eventChanges? e = some (name, rec.isSome)) (w : World) (key : KeyName) :
    ((w.setKey name rec).keys key).isSome = (lastChange [e] key).getD (w.keys key).isSome := by
  have hkey : (w.setKey name rec).keys key = if key = name then rec else w.keys key :=
    Function.update_apply ..
  rw [hkey, lastChange, List.filterMap_cons_some he, List.filterMap_nil]
  by_cases h : key = name
  · subst h
    simp
  · have hne : name ≠ key := fun heq => h heq.symm
    simp [h, hne]

/-- **Whether a key is there** after a request. -/
theorem keys_of_answers (h : Answers t w op r served w') (key : KeyName) :
    (w'.keys key).isSome =
      (lastChange [.answer t op r served] key).getD (w.keys key).isSome := by
  cases op with
  | commitKey name =>
    cases served with
    | false => rw [h.1]; rfl
    | true => rw [h]; exact isSome_setKey rfl w key
  | completeMultipart name =>
    cases served with
    | false => rw [h.1]; rfl
    | true =>
      obtain ⟨rec, hash, rfl, -⟩ := h
      exact isSome_setKey rfl w key
  | deleteKey name =>
    cases served with
    | false => rw [h.1]; rfl
    | true => rw [h]; exact isSome_setKey rfl w key
  | _ =>
    rw [keys_of_quiet (by rfl) h, lastChange_of_none (eventChanges?_of_quiet (by rfl) t r served)]
    rfl

end Steps

/-! ### What all requests keep -/

/-- The keys are there that the log says, and what is stored of them can be read. -/
structure Tracks (was : KeyName → Bool) (w : World) : Prop where
  /-- Whether a key is there. -/
  present : ∀ key, (w.keys key).isSome = keyExists was w.log key
  /-- Its locations. -/
  nonNeg : ∀ key rec, w.keys key = some rec → ∀ loc ∈ rec.locations, NonNeg loc

/-- Every step is one event of its call. -/
def rg (was : KeyName → Bool) : RelyGuarantee gatewayCalls Tid World where
  sys := gatewaySystem
  Inv := Tracks was
  Guar t w w' := ∃ e, w'.log = w.log ++ [e] ∧ e.tid = t

/-- No event of call `t` has changed a key. -/
def Unchanging (t : Tid) (log : List Event) : Prop :=
  ∀ e ∈ log, e.tid = t → eventChanges? e = none

theorem Unchanging.append {t : Tid} {log log' : List Event} (h : Unchanging t log)
    (h' : Unchanging t log') : Unchanging t (log ++ log') := fun e he =>
  (List.mem_append.mp he).elim (h e) (h' e)

theorem Unchanging.snoc {t : Tid} {log : List Event} {e : Event} (h : Unchanging t log)
    (he : e.tid = t → eventChanges? e = none) : Unchanging t (log ++ [e]) :=
  h.append fun e' he' ht => by
    obtain rfl := List.mem_singleton.mp he'
    exact he ht

/-- Call `t` has changed nothing yet. -/
def Idle (t : Tid) (w : World) : Prop := Unchanging t w.log

/-- The lookup of a create-only put that goes on, at its place in the log, and what is known since:
the lookup has found nothing, and the call has changed nothing. -/
structure Looked (was : KeyName → Bool) (t : Tid) (key : KeyName) (before : List Event)
    (r : gatewayCalls.Res (.getKeyInfo key)) (served : Bool) (mid : List Event) : Prop where
  /-- Nothing is changed before the lookup. -/
  unchanging_before : Unchanging t before
  /-- Nothing after it. -/
  unchanging_mid : Unchanging t mid
  /-- The answer has no object. -/
  missed : ∀ info, r ≠ .ok (some info)
  /-- If it was served, there is none. -/
  absent : served = true → keyExists was before key = false

/-- Call `t` has looked the key up, and goes on. -/
def HasLooked (was : KeyName → Bool) (t : Tid) (key : KeyName) (w : World) : Prop :=
  ∃ before r served mid, w.log = before ++ .answer t (.getKeyInfo key) r served :: mid ∧
    Looked was t key before r served mid

/-- Call `t` has looked the key up and committed it later, and has changed nothing else. -/
def HasCommitted (was : KeyName → Bool) (t : Tid) (key : KeyName) (w : World) : Prop :=
  ∃ before r served mid clientId locations size metadata after,
    w.log = before ++ .answer t (.getKeyInfo key) r served ::
      (mid ++ .answer t (.commitKey key clientId locations size metadata) (.ok ()) true :: after) ∧
    Looked was t key before r served mid ∧ Unchanging t after

section Keep

variable {was : KeyName → Bool} {t : Tid} {key : KeyName} {w w' : World}

theorem nonNeg_setKey {name : KeyName} {rec : Option KeyRecord}
    (h : ∀ key rec, w.keys key = some rec → ∀ loc ∈ rec.locations, NonNeg loc)
    (hrec : ∀ x, rec = some x → ∀ loc ∈ x.locations, NonNeg loc) (key : KeyName) (x : KeyRecord)
    (hx : (w.setKey name rec).keys key = some x) : ∀ loc ∈ x.locations, NonNeg loc := by
  have hkey : (w.setKey name rec).keys key = if key = name then rec else w.keys key :=
    Function.update_apply ..
  rw [hkey] at hx
  split at hx
  · exact hrec x hx
  · exact h key x hx

/-- What is stored can still be read after a request. -/
theorem nonNeg_of_answers {op : GatewayOp} {r : gatewayCalls.Res op} {served : Bool}
    (hop : CommitsNonNeg op) (h : Answers t w op r served w')
    (hI : ∀ key rec, w.keys key = some rec → ∀ loc ∈ rec.locations, NonNeg loc) :
    ∀ key rec, w'.keys key = some rec → ∀ loc ∈ rec.locations, NonNeg loc := by
  cases op with
  | commitKey name clientId locations size metadata =>
    cases served with
    | false => rw [h.1]; exact hI
    | true => rw [h]; exact nonNeg_setKey hI (by rintro _ ⟨⟩; exact hop)
  | completeMultipart name uploadId parts => exact hop.elim
  | deleteKey name =>
    cases served with
    | false => rw [h.1]; exact hI
    | true => rw [h]; exact nonNeg_setKey hI (by rintro _ ⟨⟩)
  | _ => rw [keys_of_quiet (by rfl) h]; exact hI

/-- **One request** keeps the invariant, and is one event. -/
theorem step_answers {op : GatewayOp} {r : gatewayCalls.Res op} (hI : (rg was).Inv w)
    (h : gatewaySystem.answers t w op r w') (hop : CommitsNonNeg op) :
    (rg was).Inv w' ∧ (rg was).Guar t w w' ∧
      ∃ served w₁, Answers t w op r served w₁ ∧
        w'.log = w.log ++ [.answer t op r served] := by
  obtain ⟨served, w₁, hans, rfl⟩ := h
  have hlog := log_of_answers hans
  have hlog' : (w₁.logged (.answer t op r served)).log = w.log ++ [.answer t op r served] := by
    rw [← hlog]
    rfl
  have hnonNeg := nonNeg_of_answers hop hans hI.nonNeg
  refine ⟨⟨fun key => ?_, hnonNeg⟩, ⟨_, hlog', rfl⟩, served, w₁, hans, hlog'⟩
  rw [hlog', keyExists_append, ← hI.present key]
  exact keys_of_answers hans key

theorem HasLooked.stable : (rg was).Stable t (HasLooked was t key) := by
  rintro w w' ⟨-, -, u, hu, e, hlog, he⟩ ⟨before, r, served, mid, hw, h⟩
  refine ⟨before, r, served, mid ++ [e], by rw [hlog, hw]; simp, h.unchanging_before, ?_,
    h.missed, h.absent⟩
  exact h.unchanging_mid.snoc fun ht => absurd (he.symm.trans ht) hu

theorem HasCommitted.stable : (rg was).Stable t (HasCommitted was t key) := by
  rintro w w' ⟨-, -, u, hu, e, hlog, he⟩
    ⟨before, r, served, mid, clientId, locations, size, metadata, after, hw, h, hafter⟩
  refine ⟨before, r, served, mid, clientId, locations, size, metadata, after ++ [e],
    by rw [hlog, hw]; simp, h, ?_⟩
  exact hafter.snoc fun ht => absurd (he.symm.trans ht) hu

theorem Idle.stable : (rg was).Stable t (Idle t) := by
  rintro w w' ⟨-, -, u, hu, e, hlog, he⟩ h
  rw [Idle, hlog]
  exact h.snoc fun ht => absurd (he.symm.trans ht) hu

/-- The commit comes after the lookup. -/
theorem HasLooked.commit {clientId : UInt64} {locations : List KeyLocation} {size : UInt64}
    {metadata : List (String × Option String)} (h : HasLooked was t key w)
    (hlog : w'.log = w.log ++
      [.answer t (.commitKey key clientId locations size metadata) (.ok ()) true]) :
    HasCommitted was t key w' := by
  obtain ⟨before, r, served, mid, hw, h⟩ := h
  refine ⟨before, r, served, mid, clientId, locations, size, metadata, [], ?_, h, by rintro e ⟨⟩⟩
  rw [hlog, hw, List.append_assoc]
  rfl

/-- Quiet requests keep that the call has looked the key up and changed nothing. -/
theorem Safe.of_quiet {α : Type} {p : GwM α} (hp : p.Makes Quiet) (hw : HasLooked was t key w) :
    (rg was).Safe t (fun _ w => HasLooked was t key w) p w := by
  refine Safe.of_makes HasLooked.stable ?_ hp hw
  rintro w op r w' hop ⟨before, r', served', mid, hlog, h⟩ hI hans
  obtain ⟨hI', hG, served, -, -, hlog'⟩ := step_answers hI hans (Quiet.commitsNonNeg hop)
  refine ⟨hI', hG, before, r', served', mid ++ [.answer t op r served],
    by rw [hlog', hlog]; simp, h.unchanging_before, ?_, h.missed, h.absent⟩
  exact h.unchanging_mid.snoc fun _ => eventChanges?_of_quiet hop t r served

end Keep

/-! ### The requests -/

section Programs

variable {was : KeyName → Bool} {t : Tid} {key : KeyName} {w : World}

/-- **A put commits last.** -/
theorem putObject_safe (gw : Gateway) (body : Bytes) (metadata tags : List (String × String))
    (hw : HasLooked was t key w) :
    (rg was).Safe t (ends fun _ => HasCommitted was t key)
      (gw.putObject key body metadata tags) w := by
  refine Safe.bind (I := fun x w => HasLooked was t key w ∧
    ∀ b ∈ x.1, NonNeg (blockToKeyLocation b)) ?_
    (((Safe.of_quiet (allocateAndWrite_quiet gw key body none) hw).returns
      (allocateAndWrite_returns gw key body none)).mono ?_)
  · rintro ⟨blocks, clientId⟩ w ⟨hw, hblocks⟩
    refine Safe.call _ HasLooked.stable hw fun w₁ hw₁ hI r w₂ hans => ?_
    have hop : ∀ loc ∈ blocks.map blockToKeyLocation, NonNeg loc := by
      simpa only [List.forall_mem_map] using hblocks
    obtain ⟨hI', hG, served, w', hans, hlog⟩ := step_answers hI hans hop
    refine ⟨hI', hG, ?_⟩
    rcases r with e | _
    · trivial
    · -- a commit that answers was served
      cases served with
      | false =>
        obtain ⟨-, e, he⟩ := hans
        cases he
      | true => exact hw₁.commit hlog
  · rintro (_ | _ | _) w ⟨hw, hblocks⟩
    · exact ⟨hw, hblocks _ rfl⟩
    · trivial
    · trivial

/-- The upload of a `PUT`. -/
theorem store_safe (gw : Gateway) (upload : Upload) (hw : HasLooked was t key w) :
    (rg was).Safe t (ends fun _ => HasCommitted was t key) (store gw key upload) w := by
  cases upload with
  | copy source directives =>
    refine Safe.bind_ends ?_ fun _ _ h => h
    refine Safe.bind (I := fun _ => HasLooked was t key) ?_
      ((Safe.of_quiet (getObject_quiet gw source) hw).mono ?_)
    · rintro got w hw
      exact Safe.bind_ends (putObject_safe gw _ _ _ hw) fun _ _ h => h
    · rintro (_ | _ | _) w hw
      · exact hw
      · trivial
      · trivial
  | object body metadata tags =>
    exact Safe.bind_ends (putObject_safe gw body metadata tags hw) fun _ _ h => h

/-- A lookup that is served finds what is there. -/
theorem absent_of_served {r : gatewayCalls.Res (.getKeyInfo key)} {w' : World}
    (hI : (rg was).Inv w) (hans : Answers t w (.getKeyInfo key) r true w') :
    r = .error .notFound ∧ keyExists was w.log key = false ∨
      ∃ info blocks, r = .ok (some info) ∧ blocksOfKeyInfo info = .ok blocks := by
  obtain ⟨-, hans⟩ := hans
  cases hkey : w.keys key with
  | none =>
    rw [hkey] at hans
    exact .inl ⟨hans, by rw [← hI.present key, hkey]; rfl⟩
  | some rec =>
    rw [hkey] at hans
    obtain ⟨info, rfl, -, -, hlooks⟩ := hans
    obtain ⟨blocks, hblocks⟩ := exists_blocksOfKeyInfo hlooks (hI.nonNeg key rec hkey)
    exact .inr ⟨info, blocks, rfl, hblocks⟩

/-- **The lookup comes first**, and the put goes on only if it finds nothing. -/
theorem found_safe (hw : Idle t w) :
    (rg was).Safe t (ends fun found w => found = false → HasLooked was t key w) (found key) w := by
  refine Safe.call _ Idle.stable hw fun w₁ hw₁ hI r w₂ hans => ?_
  obtain ⟨hI', hG, served, w', hans, hlog⟩ := step_answers hI hans trivial
  refine ⟨hI', hG, ?_⟩
  have hlooked (hmissed : ∀ info, r ≠ .ok (some info))
      (habsent : served = true → keyExists was w₁.log key = false) : HasLooked was t key w₂ :=
    ⟨w₁.log, r, served, [], hlog, hw₁, by rintro e ⟨⟩, hmissed, habsent⟩
  cases served with
  | true =>
    rcases absent_of_served hI hans with ⟨rfl, habsent⟩ | ⟨info, blocks, rfl, hblocks⟩
    · exact fun _ => hlooked (by rintro _ ⟨⟩) fun _ => habsent
    · -- the object is found, and the put answers `412`
      show (rg was).Safe t _ ((((Prog.lift (blocksOfKeyInfo info) >>= _ : OmM KeyMeta).mapErr
        GatewayError.ofOm >>= _ : GwM Gateway.HeadReply).attempt) >>= _) _
      rw [hblocks]
      rintro ⟨⟩
  | false =>
    obtain ⟨-, ⟨e, rfl⟩ | rfl⟩ := hans
    · exact fun _ => hlooked (by rintro _ ⟨⟩) (by rintro ⟨⟩)
    · exact fun _ => hlooked (by rintro _ ⟨⟩) (by rintro ⟨⟩)

/-- **A create-only put**: the lookup, and the commit later. -/
theorem putRoute_safe (gw : Gateway) (upload : Outcome GatewayError Upload)
    (hw : Idle t w) :
    (rg was).Safe t (ends fun reply w => reply ≠ .preconditionFailed → HasCommitted was t key w)
      (putRoute gw key true upload) w := by
  refine Safe.bind_ends (found_safe hw) ?_
  rintro (_ | _) w hw
  · rcases upload with upload | _ | _
    · exact (store_safe gw upload (hw rfl)).mono_ends
        (J := fun reply w => reply ≠ .preconditionFailed → HasCommitted was t key w)
        fun _ _ h _ => h
    · trivial
    · trivial
  · exact fun h => absurd rfl h

end Programs

/-! ### All requests together -/

section Together

variable {gw : Gateway} {req : Tid → Request} {was : KeyName → Bool} {t : Tid} {key : KeyName}

/-- What a create-only put shows that answers `200`. -/
def Ended (was : KeyName → Bool) (req : Tid → Request) (t : Tid) (o : Outcome GatewayError Reply)
    (w : World) : Prop :=
  ∀ key upload reply, req t = .put key true upload → o = .ok (.put reply) →
    reply ≠ .preconditionFailed → HasCommitted was t key w

theorem Ended.stable (o : Outcome GatewayError Reply) : (rg was).Stable t (Ended was req t o) :=
  fun w w' hother h key upload reply hreq ho hne =>
    HasCommitted.stable w w' hother (h key upload reply hreq ho hne)

/-- A program that commits only what can be read keeps what all requests keep. -/
theorem safe_of_commitsNonNeg {α : Type} {p : GwM α} (hp : p.Makes CommitsNonNeg) (w : World) :
    (rg was).Safe t (fun _ _ => True) p w := by
  refine Safe.of_makes (fun _ _ _ _ => trivial) ?_ hp trivial
  intro w op r w' hop _ hI hans
  obtain ⟨hI', hG, -⟩ := step_answers hI hans hop
  exact ⟨hI', hG, trivial⟩

theorem found_quiet (key : KeyName) : (found key).Makes Quiet := by
  have hhead : (Gateway.headObject key).Makes Quiet :=
    (getKeyInfo_quiet key).mapErr.bind fun _ => trivial
  refine hhead.attempt.bind fun reply => ?_
  rcases reply with _ | _ <;> trivial

/-- No request commits what cannot be read. -/
theorem run_commitsNonNeg (gw : Gateway) (req : Request) : (req.run gw).Makes CommitsNonNeg := by
  have hquiet {α : Type} {p : GwM α} (hp : p.Makes Quiet) : p.Makes CommitsNonNeg :=
    hp.mono fun _ h => Quiet.commitsNonNeg h
  cases req with
  | put key createOnly upload =>
    have hrest : ∀ found : Bool, (if found then pure .preconditionFailed else do
        store gw key (← Prog.lift upload) : GwM PutReply).Makes CommitsNonNeg := by
      rintro (_ | _)
      · refine Prog.Makes.bind trivial fun upload => ?_
        cases upload with
        | copy source directives =>
          refine Prog.Makes.bind ?_ fun _ => trivial
          refine (hquiet (getObject_quiet gw source)).bind fun got => ?_
          exact (putObject_commitsNonNeg gw key _ _ _).bind fun _ => trivial
        | object body metadata tags =>
          exact (putObject_commitsNonNeg gw key body metadata tags).bind fun _ => trivial
      · trivial
    refine Prog.Makes.bind ?_ fun _ => trivial
    cases createOnly with
    | true => exact (hquiet (found_quiet key)).bind hrest
    | false => exact hrest false
  | delete key => exact (deleteObject_commitsNonNeg key).bind fun _ => trivial

theorem run_safe {w : World} (hw : Idle t w) :
    (rg was).Safe t (Ended was req t) ((req t).run gw) w := by
  by_cases hcreate : ∃ key upload, req t = .put key true upload
  · obtain ⟨key, upload, hreq⟩ := hcreate
    rw [hreq]
    have hput : (rg was).Safe t (ends fun reply w => ∀ r, reply = .put r →
        r ≠ .preconditionFailed → HasCommitted was t key w)
        (Request.run gw (.put key true upload)) w :=
      Safe.bind_ends (putRoute_safe gw upload hw) fun reply w h r hr => by
        cases hr
        exact h
    refine hput.mono fun o w ho key' upload' reply hreq' heq hne => ?_
    cases hreq.symm.trans hreq'
    subst heq
    exact ho reply rfl hne
  · refine (safe_of_commitsNonNeg (run_commitsNonNeg gw (req t)) w).mono
      fun o w _ key upload reply hreq => ?_
    exact absurd ⟨key, upload, hreq⟩ hcreate

/-- What holds of every create-only put that answers `200`, in whatever way the requests are
interleaved. -/
theorem hasCommitted_of_reachable {w₀ : World} (hlog : w₀.log = [])
    (hnonNeg : ∀ key rec, w₀.keys key = some rec → ∀ loc ∈ rec.locations, NonNeg loc)
    {P : Pool gatewayCalls GatewayError Reply Tid World}
    (hP : Pool.Reachable gatewaySystem (fun t => (req t).run gw) w₀ P)
    {upload : Outcome GatewayError Upload} (hreq : req t = .put key true upload)
    {reply : PutReply} (ht : P.threads t = some (.done (.ok (.put reply))))
    (hne : reply ≠ .preconditionFailed) :
    HasCommitted (fun key => (w₀.keys key).isSome) t key P.world := by
  have hinv : (rg fun key => (w₀.keys key).isSome).Inv w₀ :=
    ⟨fun key => by rw [hlog]; rfl, hnonNeg⟩
  have hidle : ∀ t, Idle t w₀ := by
    intro t e he
    rw [hlog] at he
    cases he
  have hstart : ∀ t w w', (rg fun key => (w₀.keys key).isSome).Inv w → Idle t w →
      (rg fun key => (w₀.keys key).isSome).sys.starts t w w' →
      (rg fun key => (w₀.keys key).isSome).Inv w' ∧
      (rg fun key => (w₀.keys key).isSome).Guar t w w' ∧
      (rg fun key => (w₀.keys key).isSome).Safe t
        (Ended (fun key => (w₀.keys key).isSome) req t) ((req t).run gw) w' := by
    rintro t w _ hI hidle rfl
    refine ⟨⟨fun key => ?_, hI.nonNeg⟩, ⟨_, rfl, rfl⟩, run_safe (hidle.snoc fun _ => rfl)⟩
    exact (hI.present key).trans (keyExists_append (fun key => (w₀.keys key).isSome) w.log
      [.start t] key).symm
  have hsafe := (rg fun key => (w₀.keys key).isSome).safe_of_reachable _ hinv hidle
    (fun _ => Idle.stable) hstart (fun _ => Ended.stable) hP
  exact hsafe.safe t _ ht key upload reply hreq rfl hne

/-- The commit of call `t` took effect when the key was not there. -/
def TookEffectAbsent (was : KeyName → Bool) (t : Tid) (key : KeyName) (log : List Event) : Prop :=
  ∃ before clientId locations size metadata after,
    log = before ++ .answer t (.commitKey key clientId locations size metadata) (.ok ()) true ::
      after ∧ keyExists was before key = false

/-- **When a create-only put that answers `200` found its key absent.** In every interleaving, it
has made its lookup at one place of the log and its commit at a later one. The lookup has found no
object, and if it was served there was none; all changes between the two are those of other
requests. The put took effect when the key was not there if the last of these changes is a deletion,
or if there is none and the lookup was served, or failed while the key was not there; and only
then. -/
theorem createOnly_iff (gw : Gateway) (req : Tid → Request) {w₀ : World} (hlog : w₀.log = [])
    (hnonNeg : ∀ key rec, w₀.keys key = some rec → ∀ loc ∈ rec.locations, NonNeg loc)
    {P : Pool gatewayCalls GatewayError Reply Tid World}
    (hP : Pool.Reachable gatewaySystem (fun t => (req t).run gw) w₀ P) {t : Tid} {key : KeyName}
    {upload : Outcome GatewayError Upload} (hreq : req t = .put key true upload)
    {reply : PutReply} (ht : P.threads t = some (.done (.ok (.put reply))))
    (hne : reply ≠ .preconditionFailed) :
    ∃ before r served mid clientId locations size metadata after,
      P.world.log = before ++ .answer t (.getKeyInfo key) r served :: (mid ++
        .answer t (.commitKey key clientId locations size metadata) (.ok ()) true :: after) ∧
      (∀ info, r ≠ .ok (some info)) ∧
      (served = true → keyExists (fun key => (w₀.keys key).isSome) before key = false) ∧
      (∀ e ∈ mid, e.tid = t → eventChanges? e = none) ∧
      (TookEffectAbsent (fun key => (w₀.keys key).isSome) t key P.world.log ↔
        lastChange mid key = some false ∨ lastChange mid key = none ∧
          (served = true ∨ keyExists (fun key => (w₀.keys key).isSome) before key = false)) := by
  obtain ⟨before, r, served, mid, clientId, locations, size, metadata, after, hworld, hlooked,
    hafter⟩ := hasCommitted_of_reachable hlog hnonNeg hP hreq ht hne
  refine ⟨before, r, served, mid, clientId, locations, size, metadata, after, hworld,
    hlooked.missed, hlooked.absent, hlooked.unchanging_mid, ?_⟩
  rw [or_iff_right_of_imp hlooked.absent]
  have hsplit : P.world.log = (before ++ .answer t (.getKeyInfo key) r served :: mid) ++
      .answer t (.commitKey key clientId locations size metadata) (.ok ()) true :: after := by
    rw [hworld, List.append_assoc]
    rfl
  have hbefore : Unchanging t (before ++ .answer t (.getKeyInfo key) r served :: mid) := by
    refine hlooked.unchanging_before.append fun e he ht => ?_
    rcases List.mem_cons.mp he with rfl | he
    · exact eventChanges?_of_quiet (by rfl) t r served
    · exact hlooked.unchanging_mid e he ht
  have hexists : keyExists (fun key => (w₀.keys key).isSome)
      (before ++ .answer t (.getKeyInfo key) r served :: mid) key =
      (lastChange mid key).getD (keyExists (fun key => (w₀.keys key).isSome) before key) := by
    rw [keyExists_append, lastChange_of_none (eventChanges?_of_quiet (by rfl) t r served)]
  have hiff : keyExists (fun key => (w₀.keys key).isSome)
      (before ++ .answer t (.getKeyInfo key) r served :: mid) key = false ↔
      lastChange mid key = some false ∨ lastChange mid key = none ∧
        keyExists (fun key => (w₀.keys key).isSome) before key = false := by
    rw [hexists]
    rcases lastChange mid key with _ | _ | _ <;> simp
  rw [← hiff]
  constructor
  · rintro ⟨before', clientId', locations', size', metadata', after', hlog', habsent⟩
    rw [hsplit] at hlog'
    rw [Lists.eq_of_append_cons (p := fun e => e.tid = t ∧ eventChanges? e ≠ none) hlog'
      (fun e he h => h.2 (hbefore e he h.1)) (fun e he h => h.2 (hafter e he h.1))
      ⟨rfl, by rintro ⟨⟩⟩]
    exact habsent
  · intro habsent
    exact ⟨_, clientId, locations, size, metadata, after, hsplit, habsent⟩

end Together

/-! ### Runs -/

/-- Every request is a create-only put of an empty object under one key. -/
def allCreate : Tid → Request := fun _ => .put ⟨"b", "k"⟩ true (.ok (.object [] [] []))

/-- What such a put still has to do after its lookup. -/
def afterLookup : GwM Reply := do
  return .put (← store Gateway.reference ⟨"b", "k"⟩ (.object [] [] []))

section Runs

variable {w₀ : World} {P : Pool gatewayCalls GatewayError Reply Tid World}

/-- The lookup of call `t` fails, or finds nothing. -/
theorem reachable_lookup
    (hP : Pool.Reachable gatewaySystem (fun t => (allCreate t).run Gateway.reference) w₀ P)
    (t : Tid) (ht : P.threads t = some ((allCreate t).run Gateway.reference)) (e : OmError)
    (served : Bool) (h : Answers t P.world (.getKeyInfo ⟨"b", "k"⟩) (.error e) served P.world) :
    Pool.Reachable gatewaySystem (fun t => (allCreate t).run Gateway.reference) w₀
      ⟨Function.update P.threads t (some afterLookup),
        P.world.logged (.answer t (.getKeyInfo ⟨"b", "k"⟩) (.error e) served)⟩ :=
  reachable_answer hP t (.getKeyInfo ⟨"b", "k"⟩) ht (.error e) served h

/-- Call `t` stores its object. -/
theorem reachable_store
    (hP : Pool.Reachable gatewaySystem (fun t => (allCreate t).run Gateway.reference) w₀ P)
    (t : Tid) (ht : P.threads t = some afterLookup) :
    ∃ P' : Pool gatewayCalls GatewayError Reply Tid World,
      Pool.Reachable gatewaySystem (fun t => (allCreate t).run Gateway.reference) w₀ P' ∧
      P'.threads = Function.update P.threads t (some (.done (.ok (.put (.stored ""))))) ∧
      P'.world.keys = Function.update P.world.keys ⟨"b", "k"⟩
        (some ⟨[], 0, [("ETAG", some "")]⟩) := by
  have h₁ := reachable_answer hP t (.createKey ⟨"b", "k"⟩ none 0) ht
    (.ok ⟨some 0, some ⟨0, [], 0, []⟩⟩) true
    ⟨[], ⟨by simp, by simp, by simp, by simp⟩, rfl, by rintro _ ⟨⟩ _ ⟨⟩; rfl⟩
  have h₂ := reachable_answer h₁ t (.commitKey ⟨"b", "k"⟩ 0 [] 0 [("ETAG", some "")])
    (Function.update_self ..) (.ok ()) true rfl
  exact ⟨_, h₂, Function.update_idem .., rfl⟩

end Runs

/-- Two create-only puts of an empty object under one key, and a delete. -/
def createAndDelete : Tid → Request
  | 2 => .delete ⟨"b", "k"⟩
  | _ => .put ⟨"b", "k"⟩ true (.ok (.object [] [] []))

/-- Both puts look the key up. The first one commits, the object is deleted, and then the second one
commits: it took effect when the key was not there. -/
theorem createOnly_iff_createAndDelete :
    ∃ P : Pool gatewayCalls GatewayError Reply Tid World,
      Pool.Reachable gatewaySystem (fun t => (createAndDelete t).run Gateway.reference)
        World.empty P ∧
      P.threads 0 = some (.done (.ok (.put (.stored "")))) ∧
      P.threads 2 = some (.done (.ok .deleted)) ∧
      P.threads 1 = some (.done (.ok (.put (.stored "")))) ∧
      TookEffectAbsent (fun _ => false) 1 ⟨"b", "k"⟩ P.world.log ∧
      ∃ before r served mid clientId locations size metadata after,
        P.world.log = before ++ .answer 1 (.getKeyInfo ⟨"b", "k"⟩) r served :: (mid ++
          .answer 1 (.commitKey ⟨"b", "k"⟩ clientId locations size metadata) (.ok ()) true ::
            after) ∧
        (∀ info, r ≠ .ok (some info)) ∧
        (served = true → keyExists (fun _ => false) before ⟨"b", "k"⟩ = false) ∧
        (∀ e ∈ mid, e.tid = 1 → eventChanges? e = none) ∧
        (lastChange mid ⟨"b", "k"⟩ = some false ∨ lastChange mid ⟨"b", "k"⟩ = none ∧
          (served = true ∨ keyExists (fun _ => false) before ⟨"b", "k"⟩ = false)) := by
  have h₀ : Pool.Reachable gatewaySystem (fun t => (createAndDelete t).run Gateway.reference)
    World.empty ⟨fun _ => none, World.empty⟩ := .refl
  have h₁ := h₀.tail (.start (t := 0) rfl rfl)
  have h₂ := h₁.tail (.start (t := 1) rfl rfl)
  have h₃ := reachable_answer h₂ 0 (.getKeyInfo ⟨"b", "k"⟩) rfl (.error .notFound) true ⟨rfl, rfl⟩
  have h₄ := reachable_answer h₃ 1 (.getKeyInfo ⟨"b", "k"⟩) rfl (.error .notFound) true ⟨rfl, rfl⟩
  have h₅ := reachable_answer h₄ 0 (.createKey ⟨"b", "k"⟩ none 0) rfl
    (.ok ⟨some 0, some ⟨0, [], 0, []⟩⟩) true
    ⟨[], ⟨by simp, by simp, by simp, by simp⟩, rfl, by rintro _ ⟨⟩ _ ⟨⟩; rfl⟩
  have h₆ := reachable_answer h₅ 0 (.commitKey ⟨"b", "k"⟩ 0 [] 0 [("ETAG", some "")]) rfl (.ok ())
    true rfl
  -- the delete
  have h₇ := h₆.tail (.start (t := 2) rfl rfl)
  have h₈ := reachable_answer h₇ 2 (.getKeyInfo ⟨"b", "k"⟩) rfl
    (.ok (some ⟨0, [("ETAG", some "")], 0, []⟩)) true ⟨rfl, _, rfl, rfl, rfl, .nil⟩
  have h₉ := reachable_answer h₈ 2 (.deleteKey ⟨"b", "k"⟩) rfl (.ok ()) true rfl
  -- the second put goes on
  have h₁₀ := reachable_answer h₉ 1 (.createKey ⟨"b", "k"⟩ none 0) rfl
    (.ok ⟨some 1, some ⟨0, [], 0, []⟩⟩) true
    ⟨[], ⟨by simp, by simp, by simp, by simp⟩, rfl, by rintro _ ⟨⟩ _ ⟨⟩; rfl⟩
  have h₁₁ := reachable_answer h₁₀ 1 (.commitKey ⟨"b", "k"⟩ 1 [] 0 [("ETAG", some "")]) rfl (.ok ())
    true rfl
  refine ⟨_, h₁₁, rfl, rfl, rfl, and_iff_left_of_imp ?_ |>.mpr ?_⟩
  · intro heffect
    obtain ⟨before, r, served, mid, clientId, locations, size, metadata, after, hlog, hmissed,
      habsent, hmid, hiff⟩ := createOnly_iff Gateway.reference createAndDelete rfl
        (by rintro _ _ ⟨⟩) h₁₁ (t := 1) rfl rfl (by rintro ⟨⟩)
    exact ⟨before, r, served, mid, clientId, locations, size, metadata, after, hlog, hmissed,
      habsent, hmid, hiff.mp heffect⟩
  · refine ⟨_, 1, [], 0, [("ETAG", some "")], [], rfl, ?_⟩
    decide +kernel

/-- **Two create-only puts of one absent key both answer `200`**, each having looked before the
other committed. And one whose lookup fails replaces the object that is there. -/
theorem createOnly_both :
    (∃ P : Pool gatewayCalls GatewayError Reply Tid World,
      Pool.Reachable gatewaySystem (fun t => (allCreate t).run Gateway.reference) World.empty P ∧
      P.threads 0 = some (.done (.ok (.put (.stored "")))) ∧
      P.threads 1 = some (.done (.ok (.put (.stored ""))))) ∧
    ∃ (w₀ : World) (P : Pool gatewayCalls GatewayError Reply Tid World),
      Pool.Reachable gatewaySystem (fun t => (allCreate t).run Gateway.reference) w₀ P ∧
      P.threads 0 = some (.done (.ok (.put (.stored "")))) ∧
      w₀.keys ⟨"b", "k"⟩ = some ⟨[], 7, []⟩ ∧
      P.world.keys ⟨"b", "k"⟩ = some ⟨[], 0, [("ETAG", some "")]⟩ := by
  constructor
  · have h₀ : Pool.Reachable gatewaySystem (fun t => (allCreate t).run Gateway.reference)
      World.empty ⟨fun _ => none, World.empty⟩ := .refl
    have h₁ := h₀.tail (.start (t := 0) rfl rfl)
    have h₂ := h₁.tail (.start (t := 1) rfl rfl)
    have h₃ := reachable_lookup h₂ 0 rfl .notFound true ⟨rfl, rfl⟩
    have h₄ := reachable_lookup h₃ 1 rfl .notFound true ⟨rfl, rfl⟩
    obtain ⟨P₅, h₅, hthreads₅, -⟩ := reachable_store h₄ 0 rfl
    obtain ⟨P₆, h₆, hthreads₆, -⟩ := reachable_store h₅ 1 (by rw [hthreads₅]; rfl)
    refine ⟨P₆, h₆, ?_, ?_⟩
    · rw [hthreads₆, hthreads₅]
      rfl
    · rw [hthreads₆]
      rfl
  · have h₀ : Pool.Reachable gatewaySystem (fun t => (allCreate t).run Gateway.reference)
      (World.empty.setKey ⟨"b", "k"⟩ (some ⟨[], 7, []⟩)) ⟨fun _ => none, _⟩ := .refl
    have h₁ := h₀.tail (.start (t := 0) rfl rfl)
    have h₂ := reachable_lookup h₁ 0 rfl (.rpc "unavailable") false ⟨rfl, .inl ⟨_, rfl⟩⟩
    obtain ⟨P, hP, hthreads, hkeys⟩ := reachable_store h₂ 0 rfl
    refine ⟨_, P, hP, ?_, by simp [World.setKey], ?_⟩
    · rw [hthreads, Function.update_self]
    · rw [hkeys, Function.update_self]

end CreateOnly

end OzoneRust
