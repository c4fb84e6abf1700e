import OzoneRust.Gateway.Pieces

/-!
# What is published, and what its pieces are

Any number of calls, those of multipart uploads included, interleaved request by request, with any
requests failing. The invariant (`OzoneRust.Pieces.MInv`) has two parts. Where the pieces are
seen as hidden objects, it is that of `OzoneRust.Consistency.Inv`, with all it says of groups and
slots. Of keys and uploads it says that they are what the log says: a key has the locations of the
pieces that were published last, an active upload has the parts that were committed last, and an
upload that was completed stays closed, so that its parts are in one object only.

A step of a call is, where it is seen, any number of steps of that call and of deletions of pieces
(`OzoneRust.Pieces.MGuar`); hence what was proved of writing, reading and deleting groups holds here
(`OzoneRust.Pieces.pieceView`). What is left is the steps of keys and uploads, which are not seen:
the commits (`OzoneRust.Pieces.MInv.commitKey`, `OzoneRust.Pieces.MInv.commitPart`), the
completion (`OzoneRust.Pieces.MInv.complete`) and the lookup
(`OzoneRust.Pieces.exists_blocks_of_lookup`), which gives the groups of all pieces, in order.
-/

namespace OzoneRust

namespace Pieces

open Consistency RelyGuarantee

/-! ### The invariant -/

/-- A `delete_object` of the key has shown itself. -/
def DeleteSeen (req : Tid → MultipartRequest) (log : List MultipartEvent) (key : KeyName) : Prop :=
  ∃ e ∈ log, deletes key (req e.tid) = true

/-- A commit or a completion is made by a call that is to make it. -/
def Honest (req : Tid → MultipartRequest) : MultipartEvent → Prop
  | .answer t (.object (.commitKey key _ _ _ _)) _ true =>
    ∃ body metadata tags, req t = .put key body metadata tags
  | .answer t (.commitPart key uploadId n _ _ _ _) _ true =>
    ∃ body, req t = .uploadPart key uploadId n body
  | .answer _ (.object (.completeMultipart _ _ numbers)) _ true => numbers.Nodup
  | _ => True

/-- What was completed is closed, and made one key. -/
def CompletedOnce (log : List MultipartEvent) (uploads : String → UploadState) : Prop :=
  ∀ e ∈ log, ∀ uploadId key, e.completed? = some (uploadId, key) →
    uploads uploadId = .closed ∧
      ∀ e' ∈ log, ∀ key', e'.completed? = some (uploadId, key') → key' = key

/-- **The invariant**: the hidden objects are as they should be, and keys and uploads are what the
log says. -/
structure MInv (gw : Gateway) (req : Tid → MultipartRequest) (w : MultipartWorld) : Prop where
  /-- The hidden objects are as they should be. -/
  seen : Inv gw (viewed req) (view req w)
  /-- Each call has committed one piece at most. -/
  once : ((pieces w.log).map (·.call)).Nodup
  /-- Commits and completions are made by calls that are to make them. -/
  honest : ∀ e ∈ w.log, Honest req e
  /-- What was completed is closed. -/
  closed : CompletedOnce w.log w.uploads
  /-- The parts of an upload are those that were committed last. -/
  stored : ∀ uploadId parts, w.uploads uploadId = .active parts → ∀ n record,
    parts n = some record → ∃ p, lastPart w.log uploadId n = some p ∧
      p.locations = record.locations
  /-- A key has the locations of what was published last. -/
  current : ∀ key rec, w.objects.keys key = some rec → ∃ ps,
    published w.log key = some ps ∧ rec.locations = ps.flatMap (·.locations)
  /-- Without a deletion a published key stays. -/
  kept : ∀ key ps, published w.log key = some ps →
    DeleteSeen req w.log key ∨ ∃ rec, w.objects.keys key = some rec

/-- One step that is seen of call `t`. -/
def Seen (gw : Gateway) (req : Tid → MultipartRequest) (t : ℕ) (a b : World) : Prop :=
  Inv gw (viewed req) a ∧ Inv gw (viewed req) b ∧
    ∃ v, (v = 2 * t ∨ ∃ u, v = 2 * u + 1) ∧ Guar (viewed req) v a b

/-- **The guarantee** of call `t`. -/
structure MGuar (gw : Gateway) (req : Tid → MultipartRequest) (t : ℕ) (w w' : MultipartWorld) :
    Prop where
  /-- One event, its own. -/
  log : ∃ e, w'.log = e :: w.log ∧ e.tid = t
  /-- What is seen of it. -/
  seen : Relation.ReflTransGen (Seen gw req t) (view req w) (view req w')

/-- The services, the invariant and the guarantee together. -/
def mrg (gw : Gateway) (req : Tid → MultipartRequest) :
    RelyGuarantee multipartCalls Tid MultipartWorld :=
  ⟨multipartSystem, MInv gw req, MGuar gw req⟩

/-- An event that commits nothing and completes nothing. -/
def Quiet (e : MultipartEvent) : Prop := e.commit? = none ∧ e.completed? = none

section Steps

variable {gw : Gateway} {req : Tid → MultipartRequest} {w w' : MultipartWorld} {t : ℕ}
  {e : MultipartEvent} {before : List MultipartEvent}

theorem Quiet.part? (he : Quiet e) : e.part? = none := by
  cases h : e.part? with
  | none => rfl
  | some x => exact absurd (commit?_of_part? h) (by simp [he.1])

theorem Quiet.publishes? (he : Quiet e) : e.publishes? before = none := by
  rcases e with t | ⟨t, op, r, served⟩
  · rfl
  · cases op with
    | object op =>
      cases served with
      | false => cases op <;> rfl
      | true =>
        cases op
        case commitKey => cases he.1
        case completeMultipart => cases he.2
        all_goals rfl
    | _ => rfl

theorem Quiet.published (he : Quiet e) (key : KeyName) :
    published (e :: before) key = OzoneRust.published before key := by
  rw [OzoneRust.published, he.publishes?]

theorem Quiet.lastPart (he : Quiet e) (uploadId : String) (n : UInt32) :
    lastPart (e :: before) uploadId n = OzoneRust.lastPart before uploadId n :=
  lastPart_of_none he.part? uploadId n

theorem DeleteSeen.cons {key : KeyName} (h : DeleteSeen req before key) :
    DeleteSeen req (e :: before) key := by
  obtain ⟨e', he', hdel⟩ := h
  exact ⟨e', List.mem_cons_of_mem e he', hdel⟩

/-- Events that change nothing else. -/
theorem seen_of_events {a : World} (hI : Inv gw (viewed req) a) : ∀ {es : List Event},
    (∀ e ∈ es, e.commit? = none ∧ (e.tid = 2 * t ∨ ∃ u, e.tid = 2 * u + 1)) →
    Inv gw (viewed req) { a with log := a.log ++ es } ∧
      Relation.ReflTransGen (Seen gw req t) a { a with log := a.log ++ es } := by
  intro es
  induction es using List.reverseRecOn with
  | nil =>
    intro _
    rw [List.append_nil]
    exact ⟨hI, .refl⟩
  | append_singleton es e ih =>
    intro hes
    obtain ⟨hI', hsteps⟩ := ih fun e' he' => hes e' (List.mem_append_left _ he')
    obtain ⟨hcommit, htid⟩ := hes e (List.mem_append_right _ (List.mem_singleton_self e))
    obtain ⟨hI'', hG⟩ := hI'.logged hcommit rfl
    have heq : ({ a with log := a.log ++ (es ++ [e]) } : World) =
        World.logged { a with log := a.log ++ es } e := by
      rw [World.logged, List.append_assoc]
    rw [heq]
    exact ⟨hI'', hsteps.tail ⟨hI', hI'', e.tid, htid, hG⟩⟩

theorem commit?_of_mem_viewEvent (he : e.commit? = none) {e' : Event}
    (h : e' ∈ viewEvent req before e) : e'.commit? = none := by
  have hnil : commits (viewEvent req before e) = [] := by
    rw [commits_viewEvent, he]
    rfl
  exact List.filterMap_eq_nil_iff.mp hnil e' h

/-- What the manager may do to the uploads at an event that commits and completes nothing. -/
def UploadsKept (w w' : MultipartWorld) : Prop :=
  ∀ uploadId, w'.uploads uploadId = w.uploads uploadId ∨ w.uploads uploadId ≠ .closed ∧
    (w'.uploads uploadId = .closed ∨ w'.uploads uploadId = .active fun _ => none)

/-- What may happen to the keys at such an event. -/
def KeysKept (req : Tid → MultipartRequest) (w w' : MultipartWorld) : Prop :=
  ∀ key, w'.objects.keys key = w.objects.keys key ∨
    w'.objects.keys key = none ∧ DeleteSeen req w'.log key

theorem Quiet.honest (he : Quiet e) : Honest req e := by
  rcases e with t | ⟨t, op, r, served⟩
  · trivial
  · cases op with
    | object op =>
      cases served with
      | false => cases op <;> trivial
      | true =>
        cases op
        case commitKey => cases he.1
        case completeMultipart => cases he.2
        all_goals trivial
    | commitPart =>
      cases served with
      | false => trivial
      | true => cases he.1
    | _ => trivial

/-- An event that completes nothing. -/
theorem CompletedOnce.cons {uploads uploads' : String → UploadState}
    (h : CompletedOnce before uploads) (he : e.completed? = none)
    (hup : ∀ uploadId, uploads uploadId = .closed → uploads' uploadId = .closed) :
    CompletedOnce (e :: before) uploads' := by
  have hmem : ∀ e' ∈ e :: before, ∀ x, e'.completed? = some x → e' ∈ before := by
    intro e' he' x hx
    rcases List.mem_cons.mp he' with rfl | he'
    · cases he.symm.trans hx
    · exact he'
  intro e' he' uploadId key hkey
  obtain ⟨hclosed, hone⟩ := h e' (hmem e' he' _ hkey) uploadId key hkey
  exact ⟨hup uploadId hclosed,
    fun e'' he'' key' hkey' => hone e'' (hmem e'' he'' _ hkey') key' hkey'⟩

/-- An event that commits and completes nothing keeps the invariant, if it does so where it is
seen. -/
theorem MInv.quiet (hI : MInv gw req w) (hlog : w'.log = e :: w.log) (he : Quiet e)
    (hup : UploadsKept w w') (hkeys : KeysKept req w w')
    (hseen : Inv gw (viewed req) (view req w')) : MInv gw req w' where
  seen := hseen
  once := by
    rw [hlog, pieces_cons, he.1]
    simpa using hI.once
  honest := by
    rw [hlog]
    exact List.forall_mem_cons.mpr ⟨he.honest, hI.honest⟩
  closed := by
    rw [hlog]
    refine hI.closed.cons he.2 fun uploadId hclosed => ?_
    rcases hup uploadId with heq | ⟨hne, -⟩
    · exact heq.trans hclosed
    · exact absurd hclosed hne
  stored uploadId parts hactive n record hrecord := by
    rw [hlog, he.lastPart]
    rcases hup uploadId with heq | ⟨-, hnew | hnew⟩
    · exact hI.stored uploadId parts (heq.symm.trans hactive) n record hrecord
    · cases hnew.symm.trans hactive
    · cases hnew.symm.trans hactive
      cases hrecord
  current key rec hrec := by
    rw [hlog, he.published]
    rcases hkeys key with heq | ⟨hnone, -⟩
    · exact hI.current key rec (heq.symm.trans hrec)
    · cases hnone.symm.trans hrec
  kept key ps hps := by
    rw [hlog, he.published] at hps
    rcases hkeys key with heq | ⟨-, hdel⟩
    · rw [heq, hlog]
      exact (hI.kept key ps hps).imp_left DeleteSeen.cons
    · exact .inl hdel

/-- Of an event that commits nothing, the log is seen. -/
theorem seen_logged (hI : MInv gw req w) (hlog : w'.log = e :: w.log) (he : e.commit? = none)
    (htid : e.tid = t) (halloc : w'.objects.alloc = w.objects.alloc)
    (hcells : w'.objects.cells = w.objects.cells) :
    Inv gw (viewed req) (view req w') ∧ MGuar gw req t w w' := by
  have hview : view req w' =
      { view req w with log := (view req w).log ++ viewEvent req w.log e } := by
    have hsame : view req w' = view req (w.logged e) := by
      simp only [view, MultipartWorld.logged, halloc, hcells, hlog]
    rw [hsame, view_logged he]
    rfl
  obtain ⟨hseen, hsteps⟩ := @seen_of_events gw req t (view req w) hI.seen (viewEvent req w.log e)
    fun e' he' => ⟨commit?_of_mem_viewEvent he he', htid ▸ tid_of_mem_viewEvent he'⟩
  rw [← hview] at hseen hsteps
  exact ⟨hseen, ⟨e, hlog, htid⟩, hsteps⟩

/-- **An event of which only the log is seen.** -/
theorem MInv.logged (hI : MInv gw req w) (hlog : w'.log = e :: w.log) (he : Quiet e)
    (htid : e.tid = t) (halloc : w'.objects.alloc = w.objects.alloc)
    (hcells : w'.objects.cells = w.objects.cells) (hup : UploadsKept w w')
    (hkeys : KeysKept req w w') : MInv gw req w' ∧ MGuar gw req t w w' := by
  obtain ⟨hseen, hG⟩ := seen_logged hI hlog he.1 htid halloc hcells
  exact ⟨hI.quiet hlog he hup hkeys hseen, hG⟩

theorem UploadsKept.of_eq (h : w'.uploads = w.uploads) : UploadsKept w w' :=
  fun uploadId => .inl (congrFun h uploadId)

theorem KeysKept.of_eq (h : w'.objects.keys = w.objects.keys) : KeysKept req w w' :=
  fun key => .inl (congrFun h key)

theorem quiet_faithful {op : GatewayOp} (hop : Faithful op) (r : gatewayCalls.Res op)
    (served : Bool) : Quiet (.answer t (.object op) r served) := by
  refine ⟨commit?_faithful hop r served, ?_⟩
  cases op <;> first | exact hop.elim | rfl

/-! ### The view -/

theorem mguar_others {w w' : MultipartWorld} (h : (mrg gw req).Other t w w') :
    (rg gw (viewed req)).Others (2 * t) (view req w) (view req w') := by
  obtain ⟨-, -, u, hu, hG⟩ := h
  refine Relation.ReflTransGen.mono ?_ _ _ hG.seen
  rintro a b ⟨ha, hb, v, hv, hguar⟩
  refine ⟨ha, hb, v, ?_, hguar⟩
  rcases hv with rfl | ⟨x, rfl⟩
  · exact fun h => hu (Nat.eq_of_mul_eq_mul_left Nat.two_pos h)
  · exact eraser_ne x t

/-- **The system as it is seen.** -/
theorem pieceView (gw : Gateway) (req : Tid → MultipartRequest) :
    View (rg gw (viewed req)) (mrg gw req) objectCalls (2 * ·) (view req) Faithful where
  others _ _ _ h := mguar_others h
  inv _ h := h.seen
  answers t w op r w' hop hI hans := by
    obtain ⟨served, w₁, hans, rfl⟩ := hans
    obtain ⟨hseen, -, -, -⟩ := @answers_view req w w₁ t op hop r served hans
    exact ⟨served, view req w₁, hseen, view_logged_faithful hop r served⟩
  keeps t w op r w' hop hI hans hI' hG := by
    obtain ⟨served, w₁, hans, rfl⟩ := hans
    obtain ⟨-, hup, hkeys, hlog⟩ := @answers_view req w w₁ t op hop r served hans
    have hlog' : (w₁.logged (.answer t (.object op) r served)).log =
        .answer t (.object op) r served :: w.log := congrArg (List.cons _) hlog
    exact ⟨hI.quiet hlog' (quiet_faithful hop r served) (.of_eq hup) (.of_eq hkeys) hI',
      ⟨_, hlog', rfl⟩, .single ⟨hI.seen, hI', _, .inl rfl, hG⟩⟩

/-! ### Commits -/

theorem mem_calls_of_uncommitted (hun : Uncommitted (view req w).log (2 * t)) :
    t ∉ (pieces w.log).map (·.call) := by
  intro hmem
  obtain ⟨p, hp, hcall⟩ := List.mem_map.mp hmem
  have hseen : seenCommit p ∈ commits (view req w).log := by
    rw [view, commits_viewLog]
    exact List.mem_map_of_mem hp
  have heq : seenCommit p = (2 * t, hidden t, p.locations) := by
    rw [seenCommit, hcall]
  exact hun _ _ (heq ▸ hseen)

/-- What is seen of a commit. -/
theorem view_commit {clientId size : UInt64} {locations : List KeyLocation}
    {metadata : List (String × Option String)}
    {r : gatewayCalls.Res (.commitKey (hidden t) clientId locations size metadata)}
    (hlog : w'.log = e :: w.log) (hevent : viewEvent req w.log e =
      [.answer (2 * t) (.commitKey (hidden t) clientId locations size metadata) r true])
    (halloc : w'.objects.alloc = w.objects.alloc)
    (hcells : w'.objects.cells = w.objects.cells) :
    view req w' = ((view req w).setKey (hidden t) (some ⟨locations, 0, []⟩)).logged
      (.answer (2 * t) (.commitKey (hidden t) clientId locations size metadata) r true) := by
  simp only [view, World.setKey, World.logged, hlog, viewLog, hevent, halloc, hcells]
  congr 1
  funext key
  by_cases hkey : key = hidden t
  · subst hkey
    rw [lastCommit_append_self (t := 2 * t) (by rfl), Function.update_self]
    rfl
  · rw [lastCommit_append_of_ne (t := 2 * t) (by rfl) hkey, Function.update_of_ne hkey]

/-- **A piece is committed** where it is seen. -/
theorem seen_commit (e : MultipartEvent) (w' : MultipartWorld) (hI : MInv gw req w)
    {body : Buffer} (hbody : (req t).body? = some body)
    {ec : Option EcReplicationConfig} {pre written : List BlockLocation}
    (h : PutState (2 * t) ec pre written (Blocks.chunks gw.blockGroupSize body.bytes) (view req w))
    {clientId size : UInt64} {metadata : List (String × Option String)}
    {r : gatewayCalls.Res (.commitKey (hidden t) clientId (written.map blockToKeyLocation) size
      metadata)}
    (hlog : w'.log = e :: w.log) (htid : e.tid = t) (hevent : viewEvent req w.log e =
      [.answer (2 * t) (.commitKey (hidden t) clientId (written.map blockToKeyLocation) size
        metadata) r true])
    (halloc : w'.objects.alloc = w.objects.alloc)
    (hcells : w'.objects.cells = w.objects.cells) :
    Inv gw (viewed req) (view req w') ∧ MGuar gw req t w w' := by
  have hview := view_commit hlog hevent halloc hcells
  have hcommit : Inv gw (viewed req) (view req w') ∧
      Guar (viewed req) (2 * t) (view req w) (view req w') := by
    rw [hview]
    exact hI.seen.commit (viewed_call hbody) h rfl
  exact ⟨hcommit.1, ⟨e, hlog, htid⟩, .single ⟨hI.seen, hcommit.1, _, .inl rfl, hcommit.2⟩⟩

/-- The piece of a call that had committed none. -/
theorem once_commit (hI : MInv gw req w) (hun : Uncommitted (view req w).log (2 * t)) {p : Piece}
    (he : e.commit? = some p) (hcall : p.call = t) :
    ((pieces (e :: w.log)).map (·.call)).Nodup := by
  rw [pieces_cons, he, List.map_append]
  refine List.nodup_append.mpr ⟨hI.once, List.nodup_singleton _, ?_⟩
  rintro a ha b hb rfl
  obtain rfl : a = t := (List.mem_singleton.mp hb).trans hcall
  exact mem_calls_of_uncommitted hun ha

/-- **The commit of a key.** -/
theorem MInv.commitKey (hI : MInv gw req w) {key : KeyName} {body : Buffer}
    {md tags : List (String × String)} (hreq : req t = .put key body md tags)
    {ec : Option EcReplicationConfig} {pre written : List BlockLocation}
    (h : PutState (2 * t) ec pre written (Blocks.chunks gw.blockGroupSize body.bytes) (view req w))
    (clientId size : UInt64) (metadata : List (String × Option String))
    (r : gatewayCalls.Res (.commitKey key clientId (written.map blockToKeyLocation) size
      metadata)) :
    MInv gw req ((w.setKey key (some ⟨written.map blockToKeyLocation, size, metadata⟩)).logged
      (.answer t (.object (.commitKey key clientId (written.map blockToKeyLocation) size metadata))
        r true)) ∧
    MGuar gw req t w ((w.setKey key (some ⟨written.map blockToKeyLocation, size, metadata⟩)).logged
      (.answer t (.object (.commitKey key clientId (written.map blockToKeyLocation) size metadata))
        r true)) := by
  have hbody : (req t).body? = some body := by rw [hreq]; rfl
  have hseen := seen_commit (.answer t (.object (.commitKey key clientId
    (written.map blockToKeyLocation) size metadata)) r true) ((w.setKey key
    (some ⟨written.map blockToKeyLocation, size, metadata⟩)).logged _) hI hbody h rfl rfl rfl rfl
    rfl
  refine ⟨⟨hseen.1, once_commit (w := w) hI h.uncommitted rfl rfl, ?_,
    hI.closed.cons rfl fun _ h => h, ?_, ?_, ?_⟩, hseen.2⟩
  · exact List.forall_mem_cons.mpr ⟨⟨body, md, tags, hreq⟩, hI.honest⟩
  · exact hI.stored
  · intro key' rec hrec
    simp only [MultipartWorld.logged, published, MultipartEvent.publishes?]
    by_cases hkey : key = key'
    · subst hkey
      have hself := Function.update_self key
        (some ⟨written.map blockToKeyLocation, size, metadata⟩) w.objects.keys
      obtain rfl := Option.some.inj (hself.symm.trans hrec)
      exact ⟨_, if_pos rfl, by simp⟩
    · rw [if_neg hkey]
      exact hI.current key' rec ((Function.update_of_ne (Ne.symm hkey) _ _).symm.trans hrec)
  · intro key' ps hps
    by_cases hkey : key = key'
    · subst hkey
      exact .inr ⟨_, Function.update_self ..⟩
    · simp only [MultipartWorld.logged, published, MultipartEvent.publishes?, if_neg hkey] at hps
      refine (hI.kept key' ps hps).imp DeleteSeen.cons (Exists.imp fun rec hrec => ?_)
      exact (Function.update_of_ne (Ne.symm hkey) _ _).trans hrec

/-- **The commit of a part.** -/
theorem MInv.commitPart (hI : MInv gw req w) {key : KeyName} {uploadId : String} {n : UInt32}
    {body : Buffer} (hreq : req t = .uploadPart key uploadId n body)
    {ec : Option EcReplicationConfig} {pre written : List BlockLocation}
    (h : PutState (2 * t) ec pre written (Blocks.chunks gw.blockGroupSize body.bytes) (view req w))
    {parts : UInt32 → Option PartRecord} (hactive : w.uploads uploadId = .active parts)
    (clientId size : UInt64) (metadata : List (String × Option String))
    (r : Except OmError (Option (Option String))) {w' : MultipartWorld}
    (hw' : w' = (w.setUpload uploadId (.active (Function.update parts n
        (some ⟨written.map blockToKeyLocation, size, metadata⟩)))).logged
      (.answer t (.commitPart key uploadId n clientId (written.map blockToKeyLocation) size
        metadata) r true)) : MInv gw req w' ∧ MGuar gw req t w w' := by
  have hbody : (req t).body? = some body := by rw [hreq]; rfl
  have hseen := seen_commit (.answer t (.commitPart key uploadId n clientId
    (written.map blockToKeyLocation) size metadata) r true) w' hI hbody h (hw' ▸ rfl) rfl rfl
    (hw' ▸ rfl) (hw' ▸ rfl)
  subst hw'
  refine ⟨⟨hseen.1, once_commit (w := w) hI h.uncommitted rfl rfl, ?_, ?_, ?_, hI.current, ?_⟩,
    hseen.2⟩
  · exact List.forall_mem_cons.mpr ⟨⟨body, hreq⟩, hI.honest⟩
  · refine hI.closed.cons rfl fun id hclosed => ?_
    refine (Function.update_of_ne ?_ ..).trans hclosed
    rintro rfl
    cases hactive.symm.trans hclosed
  · intro id parts' hparts' n' record hrecord
    simp only [MultipartWorld.logged]
    rw [lastPart_of_some (by rfl)]
    by_cases hid : id = uploadId
    · subst hid
      have hself := Function.update_self id (UploadState.active (Function.update parts n
        (some ⟨written.map blockToKeyLocation, size, metadata⟩))) w.uploads
      cases hself.symm.trans hparts'
      by_cases hn : n' = n
      · subst hn
        rw [Function.update_self] at hrecord
        cases hrecord
        exact ⟨_, if_pos rfl, rfl⟩
      · rw [Function.update_of_ne hn] at hrecord
        rw [if_neg fun heq => hn (Prod.mk.inj heq).2.symm]
        exact hI.stored id parts hactive n' record hrecord
    · rw [if_neg fun heq => hid (Prod.mk.inj heq).1.symm]
      exact hI.stored id parts' ((Function.update_of_ne hid _ _).symm.trans hparts') n' record
        hrecord
  · exact fun key ps hps => (hI.kept key ps hps).imp_left DeleteSeen.cons

/-- The parts of an upload are pieces. -/
theorem exists_pieces (hI : MInv gw req w) {uploadId : String}
    {parts : UInt32 → Option PartRecord} (hactive : w.uploads uploadId = .active parts)
    {numbers : List UInt32} {records : List PartRecord}
    (h : List.Forall₂ (fun n record => parts n = some record) numbers records) :
    ∃ ps, List.Forall₂ (fun n p => lastPart w.log uploadId n = some p) numbers ps ∧
      ps.flatMap (·.locations) = records.flatMap (·.locations) := by
  induction h with
  | nil => exact ⟨[], .nil, rfl⟩
  | cons hn _ ih =>
    obtain ⟨ps, hps, hlocs⟩ := ih
    obtain ⟨p, hp, hloc⟩ := hI.stored uploadId parts hactive _ _ hn
    exact ⟨p :: ps, .cons hp hps, by rw [List.flatMap_cons, List.flatMap_cons, hloc, hlocs]⟩

/-- **The completion of an upload.** -/
theorem MInv.complete (hI : MInv gw req w) {key : KeyName} {uploadId : String}
    {numbers : List UInt32} (hnd : numbers.Nodup) {hash : String} {w₁ : MultipartWorld}
    (hc : w.Completes key uploadId numbers hash w₁)
    (r : gatewayCalls.Res (.completeMultipart key uploadId numbers)) {w' : MultipartWorld}
    (hw' : w' = w₁.logged
      (.answer t (.object (.completeMultipart key uploadId numbers)) r true)) :
    MInv gw req w' ∧ MGuar gw req t w w' := by
  obtain ⟨parts, records, metadata, hactive, hall, -, rfl⟩ := hc
  obtain ⟨ps, hps, hlocs⟩ := exists_pieces hI hactive hall
  have hseen := @seen_logged gw req w w' t (.answer t (.object (.completeMultipart key uploadId
    numbers)) r true) hI (hw' ▸ rfl) rfl rfl (hw' ▸ rfl) (hw' ▸ rfl)
  subst hw'
  have hpublished : ∀ key', published (.answer t (.object (.completeMultipart key uploadId numbers))
      r true :: w.log) key' = if key = key' then some ps else published w.log key' := by
    intro key'
    rw [← Lists.mapM_of_forall₂ hps]
    rfl
  -- no other event has completed this upload, for it is active
  have hfresh : ∀ e ∈ w.log, ∀ key', e.completed? ≠ some (uploadId, key') := by
    intro e he key' hkey'
    cases hactive.symm.trans (hI.closed e he uploadId key' hkey').1
  refine ⟨⟨hseen.1, hI.once, List.forall_mem_cons.mpr ⟨hnd, hI.honest⟩, ?_, ?_, ?_, ?_⟩, hseen.2⟩
  · intro e he id key' hkey'
    rcases List.mem_cons.mp he with rfl | he
    · cases hkey'
      refine ⟨Function.update_self .., fun e' he' key'' hkey'' => ?_⟩
      rcases List.mem_cons.mp he' with rfl | he'
      · cases hkey''
        rfl
      · exact absurd hkey'' (hfresh e' he' key'')
    · have hid : id ≠ uploadId := by
        rintro rfl
        exact hfresh e he key' hkey'
      obtain ⟨hclosed, hone⟩ := hI.closed e he id key' hkey'
      refine ⟨(Function.update_of_ne hid ..).trans hclosed, fun e' he' key'' hkey'' => ?_⟩
      rcases List.mem_cons.mp he' with rfl | he'
      · cases hkey''
        exact absurd rfl hid
      · exact hone e' he' key'' hkey''
  · intro id parts' hparts' n record hrecord
    by_cases hid : id = uploadId
    · subst hid
      have hself := Function.update_self id UploadState.closed w.uploads
      cases hself.symm.trans hparts'
    · exact hI.stored id parts' ((Function.update_of_ne hid _ _).symm.trans hparts') n record
        hrecord
  · intro key' rec hrec
    by_cases hkey : key = key'
    · subst hkey
      have hself := Function.update_self key
        (some (MultipartWorld.assembled records metadata)) w.objects.keys
      obtain rfl := Option.some.inj (hself.symm.trans hrec)
      exact ⟨ps, (hpublished key).trans (if_pos rfl), hlocs.symm⟩
    · obtain ⟨ps', hps', hrest⟩ :=
        hI.current key' rec ((Function.update_of_ne (Ne.symm hkey) _ _).symm.trans hrec)
      exact ⟨ps', (hpublished key').trans ((if_neg hkey).trans hps'), hrest⟩
  · intro key' ps' hps'
    by_cases hkey : key = key'
    · subst hkey
      exact .inr ⟨_, Function.update_self ..⟩
    · have hold : published w.log key' = some ps' :=
        ((hpublished key').trans (if_neg hkey)).symm.trans hps'
      refine (hI.kept key' ps' hold).imp DeleteSeen.cons (Exists.imp fun rec hrec => ?_)
      exact (Function.update_of_ne (Ne.symm hkey) _ _).trans hrec

end Steps

/-! ### The lookup -/

section Lookup

variable {gw : Gateway} {req : Tid → MultipartRequest} {w w' : MultipartWorld} {t : ℕ}
  {key : KeyName} {ps : List Piece}

/-- The number of a part is that of its call. -/
theorem request_of_lastPart (hI : MInv gw req w) {before : List MultipartEvent}
    (hbefore : before ⊆ w.log) {uploadId : String} {n : UInt32} {p : Piece}
    (hp : lastPart before uploadId n = some p) :
    ∃ key body, req p.call = .uploadPart key uploadId n body := by
  obtain ⟨e, he, hpart⟩ := exists_of_lastPart hp
  have hhonest := hI.honest e (hbefore he)
  rcases e with _ | ⟨u, op, r, served⟩
  · cases hpart
  · cases op with
    | commitPart key _ _ _ _ _ _ =>
      cases served
      · cases hpart
      · cases hpart
        exact ⟨key, hhonest⟩
    | _ => cases hpart

/-- Where a piece is published: under the key of its `put_object`, or under that of the completion
of its upload. -/
theorem request_of_piece (hI : MInv gw req w) {before : List MultipartEvent}
    (hbefore : before ⊆ w.log) (hps : published before key = some ps) {p : Piece} (hp : p ∈ ps) :
    (∃ body metadata tags, req p.call = .put key body metadata tags) ∨
    ∃ key' uploadId n body, req p.call = .uploadPart key' uploadId n body ∧
      ∃ e ∈ w.log, e.completed? = some (uploadId, key) := by
  obtain ⟨after, e, before', rfl, hpub⟩ := exists_of_published hps
  have hsub := List.Subset.trans (List.subset_append_right after _) hbefore
  rw [List.cons_subset] at hsub
  rcases cases_of_publishes? hpub with ⟨t, _, _, _, _, _, rfl, rfl⟩ |
    ⟨c, uploadId, numbers, r, hall, rfl⟩
  · obtain rfl := List.mem_singleton.mp hp
    exact .inl (hI.honest _ hsub.1)
  · obtain ⟨n, -, hn⟩ := Lists.exists_of_forall₂ hall.flip hp
    obtain ⟨key', body, hreq⟩ := request_of_lastPart hI hsub.2 hn
    exact .inr ⟨key', uploadId, n, body, hreq, _, hsub.1, rfl⟩

/-- No piece is published under two keys. -/
theorem key_unique (hI : MInv gw req w) {before before' : List MultipartEvent}
    (hbefore : before ⊆ w.log) (hbefore' : before' ⊆ w.log) {key' : KeyName} {ps' : List Piece}
    (hps : published before key = some ps) (hps' : published before' key' = some ps')
    {p p' : Piece} (hp : p ∈ ps) (hp' : p' ∈ ps') (hcall : p'.call = p.call) : key' = key := by
  have hreq' := request_of_piece hI hbefore' hps' hp'
  rw [hcall] at hreq'
  rcases request_of_piece hI hbefore hps hp with ⟨_, _, _, hreq⟩ |
    ⟨_, uploadId, _, _, hreq, e, he, hdone⟩ <;> rw [hreq] at hreq'
  · rcases hreq' with ⟨_, _, _, heq⟩ | ⟨_, _, _, _, heq, -⟩
    · cases heq
      rfl
    · cases heq
  · rcases hreq' with ⟨_, _, _, heq⟩ | ⟨_, _, _, _, heq, e', he', hdone'⟩
    · cases heq
    · cases heq
      exact (hI.closed e he uploadId key hdone).2 e' he' key' hdone'

theorem viewLookup_append (erase : Bool) (ps qs : List Piece) :
    viewLookup t erase (ps ++ qs) = viewLookup t erase ps ++ viewLookup t erase qs :=
  List.flatMap_append

/-- **The lookup of an object is one of each of its pieces.** -/
theorem exists_lookup_piece (hI : MInv gw req w) (hps : published w.log key = some ps)
    {r : gatewayCalls.Res (.getKeyInfo key)} {p : Piece} (hp : p ∈ ps) :
    ∃ L : Lookup gw (viewed req) (2 * t) (hidden p.call),
      L.locs = p.locations ∧ L.u = 2 * p.call ∧ (req p.call).body? = some L.body ∧
      L.Logged (view req (w.logged (.answer t (.object (.getKeyInfo key)) r true))) := by
  obtain ⟨qs, qs', rfl⟩ := List.append_of_mem hp
  have hmem := mem_pieces_of_published hps hp
  have hcommit : seenCommit p ∈ commits (view req w).log := by
    rw [view, commits_viewLog]
    exact List.mem_map_of_mem hmem
  obtain ⟨body, metadata, tags, hput, -, hall⟩ := hI.seen.sealed _ _ _ hcommit
  have hlast : lastCommit (viewLog req w.log ++ viewLookup t (deletes key (req t)) qs)
      (hidden p.call) = some (2 * p.call, hidden p.call, p.locations) := by
    rw [lastCommit, commits_append, commits_viewLookup, List.append_nil]
    exact lastCommit_viewLog hI.once hmem
  refine ⟨⟨_, .ok none, 2 * p.call, p.locations, hlast, body, metadata, tags, hput,
    hall.length_eq⟩, rfl, rfl, body?_of_viewed hput, ?_⟩
  rw [Lookup.Logged, view_logged rfl]
  refine ⟨(if deletes key (req t) then [.start (2 * p.call + 1)] else []) ++
    viewLookup t (deletes key (req t)) qs', ?_⟩
  simp only [viewEvent, hps, Option.getD_some, viewLookup_append, List.append_assoc]
  rfl

/-- The items of an object that was looked up. -/
structure ItemsOf (gw : Gateway) (req : Tid → MultipartRequest) (t : ℕ) (ps : List Piece)
    (w : MultipartWorld) (items : List (Item gw (viewed req) (2 * t))) (bodies : List Buffer) :
    Prop where
  /-- Their groups are those of the pieces. -/
  locs : items.map Item.loc = ps.flatMap (·.locations)
  /-- Their segments are the bytes of the calls. -/
  segs : (items.map Item.seg).flatten = bodies.flatMap Buffer.bytes
  /-- Which these calls have brought. -/
  bodies : List.Forall₂ (fun p body => (req p.call).body? = some body) ps bodies
  /-- Each is an item of a piece, whose lookup was seen. -/
  piece : ∀ x ∈ items, ∃ p ∈ ps, x.key = hidden p.call ∧ x.loc ∈ p.locations ∧
    x.lookup.u = 2 * p.call ∧ x.lookup.Logged (view req w)

theorem exists_itemsOf : ∀ {ps : List Piece},
    (∀ p ∈ ps, ∃ L : Lookup gw (viewed req) (2 * t) (hidden p.call), L.locs = p.locations ∧
      L.u = 2 * p.call ∧ (req p.call).body? = some L.body ∧ L.Logged (view req w)) →
    ∃ items bodies, ItemsOf gw req t ps w items bodies
  | [], _ => ⟨[], [], rfl, rfl, .nil, by simp⟩
  | p :: ps, h => by
    obtain ⟨L, hlocs, hu, hbody, hlogged⟩ := h p List.mem_cons_self
    obtain ⟨items, bodies, hrest⟩ := exists_itemsOf fun q hq => h q (List.mem_cons_of_mem p hq)
    refine ⟨L.items ++ items, L.body :: bodies, ?_, ?_, .cons hbody hrest.bodies, ?_⟩
    · rw [List.map_append, L.map_loc_items, hlocs, hrest.locs, List.flatMap_cons]
    · rw [List.map_append, List.flatten_append, L.flatten_seg_items, hrest.segs, List.flatMap_cons]
    · intro x hx
      rcases List.mem_append.mp hx with hx | hx
      · obtain ⟨⟨y, hy⟩, -, rfl⟩ := List.mem_map.mp hx
        exact ⟨p, List.mem_cons_self, rfl, hlocs ▸ (List.of_mem_zip hy).1, hu, hlogged⟩
      · obtain ⟨q, hq, hrest⟩ := hrest.piece x hx
        exact ⟨q, List.mem_cons_of_mem p hq, hrest⟩

theorem ItemsOf.sealed {items : List (Item gw (viewed req) (2 * t))} {bodies : List Buffer}
    (h : ItemsOf gw req t ps w items bodies) (hI : MInv gw req w)
    {x : Item gw (viewed req) (2 * t)} (hx : x ∈ items) : ∃ p ∈ ps, ∃ a,
      SealedGroup (viewed req) (view req w) (2 * p.call) (hidden p.call) a x.loc x.seg := by
  obtain ⟨p, hp, hkey, -, hu, hlogged⟩ := h.piece x hx
  obtain ⟨a, ha⟩ := hlogged.sealed hI.seen x.pair
  exact ⟨p, hp, a, hu ▸ hkey ▸ ha⟩

theorem looksUp_view {loc committed : KeyLocation} (h : LooksUp w.objects loc committed) :
    LooksUp (view req w) loc committed := by
  obtain ⟨a, ha, hpresents⟩ := h.presents
  exact ⟨h.containerId, h.localId, h.offset, h.length, _, alloc_view ha, hpresents⟩

/-- **A lookup that finds the key** gives the groups of what was published last. -/
theorem exists_blocks_of_lookup (hI : MInv gw req w) {rec : KeyRecord}
    (hrec : w.objects.keys key = some rec) {info : KeyInfo}
    (hlooks : List.Forall₂ (LooksUp w.objects) (info.keyLocationList.getLast?.getD [])
      rec.locations) {r : gatewayCalls.Res (.getKeyInfo key)}
    (hw' : w' = w.logged (.answer t (.object (.getKeyInfo key)) r true)) (hI' : MInv gw req w') :
    ∃ ps items bodies blocks, published w.log key = some ps ∧
      ItemsOf gw req t ps w' items bodies ∧ blocksOfKeyInfo info = .ok blocks ∧
      ReadsItems blocks items (view req w') := by
  obtain ⟨ps, hps, hlocs⟩ := hI.current key rec hrec
  obtain ⟨items, bodies, hitems⟩ := exists_itemsOf (t := t) (w := w') fun p hp =>
    hw' ▸ exists_lookup_piece (t := t) (r := r) hI hps hp
  have hlooks' : List.Forall₂ (LooksUp (view req w')) (info.keyLocationList.getLast?.getD [])
      (items.map Item.loc) := by
    rw [hitems.locs, ← hlocs]
    refine hlooks.imp fun _ _ h => ?_
    subst hw'
    exact looksUp_view ⟨h.containerId, h.localId, h.offset, h.length, h.presents⟩
  have hlocated : List.Forall₂ (fun loc seg => ∃ a, LocatedGroup (view req w') a loc seg)
      (items.map Item.loc) (items.map Item.seg) := by
    rw [List.forall₂_map_left_iff, List.forall₂_map_right_iff]
    refine List.forall₂_same.mpr fun x hx => ?_
    obtain ⟨p, -, a, ha⟩ := hitems.sealed hI' hx
    exact ⟨a, ha.located⟩
  obtain ⟨blocks, hblocks, hreads⟩ := exists_blocks hlooks' hlocated
  refine ⟨ps, items, bodies, blocks, hps, hitems, by rw [blocksOfKeyInfo_eq, hblocks], ?_, ?_⟩
  · rw [List.zip_map', List.forall₂_map_right_iff] at hreads
    exact hreads
  · intro x hx
    obtain ⟨p, -, -, -, -, hlogged⟩ := hitems.piece x hx
    exact hlogged

end Lookup

end Pieces

end OzoneRust
