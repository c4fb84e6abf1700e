import OzoneRust.Gateway.Changes
import OzoneRust.Gateway.Consistency
import OzoneRust.Gateway.Multipart

/-!
# An object is a list of pieces

What is known of whole objects (`OzoneRust.Consistency`) is used for objects in parts by looking at
every piece, the blocks that one call has committed, as an object of its own, under a key that no
request names (`OzoneRust.Pieces.hidden`). In this view a `put_object` and an `upload_part` are both
a put of a hidden object. The lookup of a key is a lookup of each of its pieces, and a lookup by a
`delete_object` is the start of a deletion of each of them. Nothing else is seen of keys and
uploads: to publish a list of pieces under a key is no change at all.

Call `t` is seen as call `2 * t`; call `2 * u + 1` deletes the hidden object of call `u`.
-/

namespace OzoneRust

namespace Pieces

open Consistency RelyGuarantee

/-! ### The calls -/

/-- The key of the piece of a call. -/
def hidden (t : ℕ) : KeyName := ⟨"", String.ofList (List.replicate t ' ')⟩

theorem hidden_inj {t u : ℕ} (h : hidden t = hidden u) : t = u := by
  have hlen := congrArg (fun k : KeyName => k.key.toList.length) h
  simpa [hidden] using hlen

/-- The calls as they are seen. -/
def viewed (req : Tid → MultipartRequest) (v : ℕ) : Request :=
  if v % 2 = 0 then
    match (req (v / 2)).body? with
    | some body => .put (hidden (v / 2)) body [] []
    | none => .get (hidden (v / 2))
  else .delete (hidden (v / 2))

section Calls

variable {req : Tid → MultipartRequest} {t v : ℕ}

theorem eraser_ne (u t : ℕ) : 2 * u + 1 ≠ 2 * t := by omega

theorem viewed_call {body : Buffer} (h : (req t).body? = some body) :
    viewed req (2 * t) = .put (hidden t) body [] [] := by
  have hhalf : 2 * t / 2 = t := by omega
  simp [viewed, hhalf, h]

theorem viewed_eraser (u : ℕ) : viewed req (2 * u + 1) = .delete (hidden u) := by
  have hodd : (2 * u + 1) % 2 = 1 := by omega
  have hhalf : (2 * u + 1) / 2 = u := by omega
  simp [viewed, hodd, hhalf]

theorem eq_of_viewed_delete {key : KeyName} (h : viewed req v = .delete key) :
    v = 2 * (v / 2) + 1 ∧ key = hidden (v / 2) := by
  unfold viewed at h
  split at h
  · cases hbody : (req (v / 2)).body? with
    | none => rw [hbody] at h; cases h
    | some body => rw [hbody] at h; cases h
  · cases h
    exact ⟨by omega, rfl⟩

/-- A put that is seen brings the bytes of its call. -/
theorem body?_of_viewed {key : KeyName} {body : Buffer} {metadata tags : List (String × String)}
    (h : viewed req (2 * t) = .put key body metadata tags) : (req t).body? = some body := by
  have hhalf : 2 * t / 2 = t := by omega
  cases hbody : (req t).body? with
  | none => simp [viewed, hhalf, hbody] at h
  | some b =>
    rw [viewed_call hbody] at h
    cases h
    rfl

end Calls

/-! ### The log -/

/-- The call deletes the key. -/
def deletes (key : KeyName) : MultipartRequest → Bool
  | .delete key' => key' = key
  | _ => false

/-- What is seen of the lookup of some pieces by call `t`. -/
def viewLookup (t : Tid) (erase : Bool) (pieces : List Piece) : List Event :=
  pieces.flatMap fun p => .answer (2 * t) (.getKeyInfo (hidden p.call)) (.ok none) true ::
    if erase then [.start (2 * p.call + 1)] else []

/-- What is seen of an event. -/
def viewEvent (req : Tid → MultipartRequest) (before : List MultipartEvent) :
    MultipartEvent → List Event
  | .start t => [.start (2 * t)]
  | .answer t (.object (.commitKey _ clientId locations size metadata)) r true =>
    [.answer (2 * t) (.commitKey (hidden t) clientId locations size metadata) r true]
  | .answer t (.commitPart _ _ _ clientId locations size metadata) _ true =>
    [.answer (2 * t) (.commitKey (hidden t) clientId locations size metadata) (.ok ()) true]
  | .answer t (.object (.getKeyInfo key)) _ true =>
    viewLookup t (deletes key (req t)) ((published before key).getD [])
  | .answer t (.object op) r served => [.answer (2 * t) op r served]
  | .answer t _ _ _ => [.start (2 * t)]

/-- What is seen of a log. -/
def viewLog (req : Tid → MultipartRequest) : List MultipartEvent → List Event
  | [] => []
  | e :: before => viewLog req before ++ viewEvent req before e

/-- The commit of a piece, as it is seen. -/
def seenCommit (p : Piece) : Tid × KeyName × List KeyLocation :=
  (2 * p.call, hidden p.call, p.locations)

/-- The pieces of a log, oldest first. -/
def pieces (log : List MultipartEvent) : List Piece :=
  (log.filterMap MultipartEvent.commit?).reverse

section Log

variable {req : Tid → MultipartRequest} {log before : List MultipartEvent} {e : MultipartEvent}

theorem pieces_cons : pieces (e :: before) = pieces before ++ e.commit?.toList := by
  cases h : e.commit? <;> simp [pieces, h]

theorem commits_viewLookup (t : Tid) (erase : Bool) (ps : List Piece) :
    commits (viewLookup t erase ps) = [] := by
  refine List.filterMap_eq_nil_iff.mpr fun e he => ?_
  obtain ⟨p, -, he⟩ := List.mem_flatMap.mp he
  rcases List.mem_cons.mp he with rfl | he
  · rfl
  · cases erase with
    | false => cases he
    | true => rw [List.mem_singleton.mp he]; rfl

/-- The commits that are seen of an event are those of its piece. -/
theorem commits_viewEvent : commits (viewEvent req before e) = e.commit?.toList.map seenCommit := by
  rcases e with t | ⟨t, op, r, served⟩
  · rfl
  · cases op with
    | object op =>
      cases op <;> cases served
      case getKeyInfo.true => exact commits_viewLookup ..
      all_goals rfl
    | _ => cases served <;> rfl

theorem commits_viewLog : ∀ log : List MultipartEvent,
    commits (viewLog req log) = (pieces log).map seenCommit
  | [] => rfl
  | e :: before => by
    rw [viewLog, commits_append, commits_viewLog before, commits_viewEvent, pieces_cons,
      List.map_append]

theorem commit?_of_part? {x : (String × UInt32) × Piece} (h : e.part? = some x) :
    e.commit? = some x.2 := by
  rcases e with t | ⟨t, op, r, served⟩
  · cases h
  · cases op with
    | commitPart key uploadId n clientId locations size metadata =>
      cases served <;> cases h
      rfl
    | _ => cases h

theorem mem_pieces {p : Piece} : p ∈ pieces log ↔ ∃ e ∈ log, e.commit? = some p := by
  rw [pieces, List.mem_reverse, List.mem_filterMap]

/-- The event that commits the last part. -/
theorem exists_of_lastPart {uploadId : String} {n : UInt32} {p : Piece}
    (h : lastPart log uploadId n = some p) : ∃ e ∈ log, e.part? = some ((uploadId, n), p) := by
  obtain ⟨⟨id, p⟩, hfind, rfl⟩ := Option.map_eq_some_iff.mp h
  obtain ⟨e, he, hpart⟩ := List.mem_filterMap.mp (List.mem_of_find?_eq_some hfind)
  obtain rfl : id = (uploadId, n) := by simpa using List.find?_some hfind
  exact ⟨e, he, hpart⟩

theorem lastPart_of_none (h : e.part? = none) (uploadId : String) (n : UInt32) :
    lastPart (e :: before) uploadId n = lastPart before uploadId n := by
  simp [lastPart, h]

theorem lastPart_of_some {id : String × UInt32} {p : Piece} (h : e.part? = some (id, p))
    (uploadId : String) (n : UInt32) : lastPart (e :: before) uploadId n =
      if id = (uploadId, n) then some p else lastPart before uploadId n := by
  by_cases hid : id = (uploadId, n)
  · simp [lastPart, h, hid]
  · simp [lastPart, h, hid]

/-- The event that published a key last, and what was before it. -/
theorem exists_of_published {key : KeyName} {ps : List Piece} :
    ∀ {log : List MultipartEvent}, published log key = some ps →
      ∃ after e before, log = after ++ e :: before ∧ e.publishes? before = some (key, some ps)
  | e :: before, h => by
    unfold published at h
    split at h
    · rename_i key' pieces hpub
      split at h
      · rename_i heq
        exact ⟨[], e, before, rfl, by rw [hpub, heq, h]⟩
      · obtain ⟨after, e', before', rfl, hpub'⟩ := exists_of_published h
        exact ⟨e :: after, e', before', rfl, hpub'⟩
    · obtain ⟨after, e', before', rfl, hpub'⟩ := exists_of_published h
      exact ⟨e :: after, e', before', rfl, hpub'⟩

/-- An event publishes what a put commits, or the parts of an upload. -/
theorem cases_of_publishes? {key : KeyName} {ps : List Piece}
    (h : e.publishes? before = some (key, some ps)) :
    (∃ t clientId locations size metadata r, ps = [⟨t, locations⟩] ∧
      e = .answer t (.object (.commitKey key clientId locations size metadata)) r true) ∨
    ∃ t uploadId numbers r,
      List.Forall₂ (fun n p => lastPart before uploadId n = some p) numbers ps ∧
      e = .answer t (.object (.completeMultipart key uploadId numbers)) r true := by
  rcases e with t | ⟨t, op, r, served⟩
  · cases h
  · cases op with
    | object op =>
      cases served <;> cases op <;> try cases h
      case true.commitKey.refl clientId locations size metadata =>
        exact .inl ⟨t, clientId, locations, size, metadata, r, rfl, rfl⟩
      case true.completeMultipart key' uploadId numbers =>
        simp only [MultipartEvent.publishes?, Option.some.injEq, Prod.mk.injEq] at h
        obtain ⟨rfl, h⟩ := h
        exact .inr ⟨t, uploadId, numbers, r, Lists.forall₂_of_mapM h, rfl⟩
    | _ => cases h

/-- Every piece of a published object was committed. -/
theorem mem_pieces_of_published {key : KeyName} {ps : List Piece}
    (h : published log key = some ps) {p : Piece} (hp : p ∈ ps) : p ∈ pieces log := by
  obtain ⟨after, e, before, rfl, hpub⟩ := exists_of_published h
  rcases cases_of_publishes? hpub with ⟨t, clientId, locations, size, metadata, r, rfl, rfl⟩ |
    ⟨t, uploadId, numbers, r, hall, -⟩
  · obtain rfl := List.mem_singleton.mp hp
    exact mem_pieces.mpr ⟨_, List.mem_append_right _ List.mem_cons_self, rfl⟩
  · obtain ⟨n, -, hn⟩ := Lists.exists_of_forall₂ hall.flip hp
    obtain ⟨e', he', hpart⟩ := exists_of_lastPart hn
    exact mem_pieces.mpr ⟨e', List.mem_append_right _ (List.mem_cons_of_mem _ he'),
      commit?_of_part? hpart⟩

/-- Where each call has committed one piece, this is the last commit of its hidden object. -/
theorem lastCommit_viewLog (hnd : ((pieces log).map (·.call)).Nodup) {p : Piece}
    (hp : p ∈ pieces log) : lastCommit (viewLog req log) (hidden p.call) = some (seenCommit p) := by
  have hfilter : ((pieces log).map seenCommit).filter (fun c => c.2.1 = hidden p.call) =
      [seenCommit p] := by
    rw [List.filter_map]
    have hcongr : (pieces log).filter ((fun c => decide (c.2.1 = hidden p.call)) ∘ seenCommit) =
        (pieces log).filter fun q => q.call = p.call := by
      refine List.filter_congr fun q _ => decide_eq_decide.mpr ⟨hidden_inj, ?_⟩
      intro h
      exact congrArg hidden h
    rw [hcongr, Lists.filter_eq_singleton hnd hp]
    rfl
  rw [lastCommit, commits_viewLog, hfilter]
  rfl

/-- Where the deletion of a hidden object is seen to start, there was a lookup of an object that
has the piece, by a call that deletes this object. -/
theorem exists_of_eraser {u : ℕ} : ∀ {log : List MultipartEvent},
    Event.start (2 * u + 1) ∈ viewLog req log → ∃ after t key r before ps p,
      log = after ++ .answer t (.object (.getKeyInfo key)) r true :: before ∧
      deletes key (req t) = true ∧ published before key = some ps ∧ p ∈ ps ∧ p.call = u
  | e :: before, h => by
    rcases List.mem_append.mp h with h | h
    · obtain ⟨after, t, key, r, before', ps, p, rfl, hrest⟩ := exists_of_eraser h
      exact ⟨e :: after, t, key, r, before', ps, p, rfl, hrest⟩
    · rcases e with t | ⟨t, op, r, served⟩
      · simp [viewEvent, eraser_ne] at h
      · cases op with
        | object op =>
          cases op <;> cases served
          case getKeyInfo.true =>
            rename_i key _
            obtain ⟨p, hp, hmem⟩ := List.mem_flatMap.mp h
            rcases List.mem_cons.mp hmem with heq | hmem
            · cases heq
            · split at hmem
              · rename_i hdel
                have heq := List.mem_singleton.mp hmem
                injection heq with heq
                cases hpub : published before key with
                | none => rw [hpub] at hp; cases hp
                | some ps =>
                  rw [hpub] at hp
                  exact ⟨[], t, key, r, before, ps, p, rfl, hdel, hpub, hp,
                    Nat.eq_of_mul_eq_mul_left Nat.two_pos (Nat.succ.inj heq.symm)⟩
              · cases hmem
          all_goals simp [viewEvent] at h
        | _ => cases served <;> simp [viewEvent, eraser_ne] at h

/-- An event that is seen is one of the same call, or the start of a deletion. -/
theorem tid_of_mem_viewEvent {e' : Event} (h : e' ∈ viewEvent req before e) :
    e'.tid = 2 * e.tid ∨ ∃ u, e'.tid = 2 * u + 1 := by
  rcases e with t | ⟨t, op, r, served⟩
  · obtain rfl := List.mem_singleton.mp h
    exact .inl rfl
  · cases op with
    | object op =>
      cases op <;> cases served
      case getKeyInfo.true key =>
        obtain ⟨p, -, hmem⟩ := List.mem_flatMap.mp h
        rcases List.mem_cons.mp hmem with rfl | hmem
        · exact .inl rfl
        · split at hmem
          · obtain rfl := List.mem_singleton.mp hmem
            exact .inr ⟨p.call, rfl⟩
          · cases hmem
      all_goals
        obtain rfl := List.mem_singleton.mp h
        exact .inl rfl
    | _ =>
      cases served
      all_goals
        obtain rfl := List.mem_singleton.mp h
        exact .inl rfl

end Log

/-! ### The world -/

/-- The world as it is seen: the groups, the slots, and the hidden objects. -/
def view (req : Tid → MultipartRequest) (w : MultipartWorld) : World where
  alloc g := (w.objects.alloc g).map fun a => ⟨2 * a.owner, a.place⟩
  keys key := (lastCommit (viewLog req w.log) key).map fun c => ⟨c.2.2, 0, []⟩
  cells := w.objects.cells
  log := viewLog req w.log

/-- A request that is seen as it is. -/
def Faithful : gatewayCalls.Op → Prop
  | .commitKey .. => False
  | .getKeyInfo _ => False
  | .deleteKey _ => False
  | .completeMultipart .. => False
  | _ => True

theorem Faithful.of_writes : ∀ op, Changes.Writes op → Faithful op
  | .createKey .., _ => trivial
  | .allocateBlock .., _ => trivial
  | .dial _, _ => trivial
  | .createContainer .., _ => trivial
  | .writeChunk .., _ => trivial
  | .putBlock .., _ => trivial

theorem Faithful.of_fetches : ∀ op, Changes.Fetches op → Faithful op
  | .dial _, _ => trivial
  | .readChunk .., _ => trivial

theorem Faithful.of_deletes {blocks : List BlockLocation} :
    ∀ op, Changes.Deletes blocks op → Faithful op
  | .dial _, _ => trivial
  | .deleteBlock .., _ => trivial

section World

variable {req : Tid → MultipartRequest} {w w' : MultipartWorld} {t : ℕ}

theorem alloc_view {g : GroupId} {a : Alloc} (h : w.objects.alloc g = some a) :
    (view req w).alloc g = some ⟨2 * a.owner, a.place⟩ := by
  simp [view, h]

theorem exists_alloc_of_view {g : GroupId} {a : Alloc} (h : (view req w).alloc g = some a) :
    ∃ a₀, w.objects.alloc g = some a₀ ∧ a = ⟨2 * a₀.owner, a₀.place⟩ := by
  obtain ⟨a₀, h₀, rfl⟩ := Option.map_eq_some_iff.mp h
  exact ⟨a₀, h₀, rfl⟩

/-- Of an event that commits nothing, only the log is seen. -/
theorem view_logged {e : MultipartEvent} (he : e.commit? = none) :
    view req (w.logged e) =
      { view req w with log := viewLog req w.log ++ viewEvent req w.log e } := by
  have hkeys : ∀ key, lastCommit (viewLog req (e :: w.log)) key =
      lastCommit (viewLog req w.log) key := fun key => by
    rw [lastCommit, lastCommit, viewLog, commits_append, commits_viewEvent, he]
    simp
  simp only [view, MultipartWorld.logged, viewLog]
  congr 1
  funext key
  exact congrArg _ (hkeys key)

theorem grants_view {grants : List (KeyLocation × Placement)} (h : Grants w.objects t grants) :
    Grants (view req w) (2 * t) grants where
  nodup := h.nodup
  fresh x hx := by
    simp [view, h.fresh x hx]
  presents := h.presents
  config x hx := by
    refine ⟨(h.config x hx).1, fun g a ha howner => ?_⟩
    obtain ⟨a₀, ha₀, rfl⟩ := exists_alloc_of_view ha
    exact (h.config x hx).2 g a₀ ha₀ (Nat.eq_of_mul_eq_mul_left Nat.two_pos howner)

theorem view_allocate (grants : List (KeyLocation × Placement)) :
    view req { w with objects := w.objects.allocate t grants } =
      (view req w).allocate (2 * t) grants := by
  simp only [view, World.allocate]
  congr 1
  funext g
  cases grants.find? fun x => x.1.group = g <;> rfl

/-- **A request that is seen as it is gets an answer it could get there.** -/
theorem answers_view {op : GatewayOp} (hop : Faithful op) {r : gatewayCalls.Res op} {served : Bool}
    (h : MultipartAnswers t w (.object op) r served w') :
    Answers (2 * t) (view req w) op r served (view req w') ∧ w'.uploads = w.uploads ∧
      w'.objects.keys = w.objects.keys ∧ w'.log = w.log := by
  cases op <;> try exact hop.elim
  case createKey key multipart size =>
    obtain ⟨objects, hans, rfl⟩ := h
    cases served with
    | false =>
      obtain ⟨rfl, hr⟩ := hans
      exact ⟨⟨rfl, hr⟩, rfl, rfl, rfl⟩
    | true =>
      obtain ⟨grants, hgrants, rfl, hr⟩ := hans
      exact ⟨⟨grants, grants_view hgrants, view_allocate grants, hr⟩, rfl, rfl, rfl⟩
  case allocateBlock key clientId =>
    obtain ⟨objects, hans, rfl⟩ := h
    cases served with
    | false =>
      obtain ⟨rfl, hr⟩ := hans
      exact ⟨⟨rfl, hr⟩, rfl, rfl, rfl⟩
    | true =>
      obtain ⟨x, hgrants, rfl, hr⟩ := hans
      exact ⟨⟨x, grants_view hgrants, view_allocate [x], hr⟩, rfl, rfl, rfl⟩
  case writeChunk | putBlock | deleteBlock =>
    obtain ⟨objects, ⟨c, rfl, hr⟩, rfl⟩ := h
    exact ⟨⟨c, rfl, hr⟩, rfl, rfl, rfl⟩
  case readChunk =>
    obtain ⟨objects, hans, rfl⟩ := h
    cases served <;> obtain ⟨rfl, hr⟩ := hans <;> exact ⟨⟨rfl, hr⟩, rfl, rfl, rfl⟩
  case dial | createContainer =>
    obtain ⟨objects, rfl, rfl⟩ := h
    exact ⟨rfl, rfl, rfl, rfl⟩

theorem viewEvent_faithful {op : GatewayOp} (hop : Faithful op) (r : gatewayCalls.Res op)
    (served : Bool) (before : List MultipartEvent) :
    viewEvent req before (.answer t (.object op) r served) = [.answer (2 * t) op r served] := by
  cases op <;> first | exact hop.elim | rfl

theorem commit?_faithful {op : GatewayOp} (hop : Faithful op) (r : gatewayCalls.Res op)
    (served : Bool) : (MultipartEvent.answer t (.object op) r served).commit? = none := by
  cases op <;> first | exact hop.elim | rfl

theorem view_logged_faithful {op : GatewayOp} (hop : Faithful op) (r : gatewayCalls.Res op)
    (served : Bool) : view req (w.logged (.answer t (.object op) r served)) =
      (view req w).logged (.answer (2 * t) op r served) := by
  rw [view_logged (commit?_faithful hop r served), viewEvent_faithful hop]
  rfl

end World

end Pieces

end OzoneRust
