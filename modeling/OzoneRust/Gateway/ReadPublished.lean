import OzoneRust.Gateway.Published

/-!
# Reads see what was published last, parts included

The seven calls of the gateway that write, read or delete objects are safe one by one
(`OzoneRust.Pieces.run_safe`), so they are safe together, and a `get_object` that has ended has what
it promises: `OzoneRust.getObject_eq_published`. The blocks of an object or a part are written, read
and deleted as `OzoneRust.Consistency` has it, on the hidden objects of the pieces; a call differs
from the others in the requests to the manager it makes before and after.

That a `get_object` returns asks for no `delete_object` of its key. A part can be deleted with the
object of one completion only, and no part of it is in an object under another key
(`OzoneRust.Pieces.key_unique`).
-/

namespace OzoneRust

namespace Pieces

open Consistency RelyGuarantee

/-! ### The calls -/

section Calls

variable {gw : Gateway} {req : Tid → MultipartRequest} {w w' : MultipartWorld} {t : ℕ}
  {key : KeyName}

/-- What is known of a call that has not started. -/
def Idle (req : Tid → MultipartRequest) (t : ℕ) (w : MultipartWorld) : Prop :=
  Consistency.Idle (2 * t) (view req w)

theorem view_start : view req (w.logged (.start t)) = (view req w).logged (.start (2 * t)) :=
  view_logged rfl

/-- A request that is answered with an error, and does nothing. -/
theorem MInv.failed (hI : MInv gw req w) {op : MultipartOp} (r : multipartCalls.Res op) :
    MInv gw req (w.logged (.answer t op r false)) ∧
      MGuar gw req t w (w.logged (.answer t op r false)) := by
  refine hI.logged rfl ?_ rfl rfl rfl (.of_eq rfl) (.of_eq rfl)
  cases op with
  | object op => cases op <;> exact ⟨rfl, rfl⟩
  | _ => exact ⟨rfl, rfl⟩

/-- The blocks of a body are written. -/
def WrittenBody (gw : Gateway) (req : Tid → MultipartRequest) (t : ℕ) (body : Buffer)
    (blocks : List BlockLocation) (w : MultipartWorld) : Prop :=
  ∃ ec pre, PutState (2 * t) ec pre blocks (Blocks.chunks gw.blockGroupSize body.bytes)
    (view req w)

theorem writtenBody_stable (body : Buffer) (blocks : List BlockLocation) :
    (mrg gw req).Stable t (WrittenBody gw req t body blocks) := by
  rintro w w' hother ⟨ec, pre, hw⟩
  exact ⟨ec, pre, (pieceView gw req).stable (PutState.stable ec pre blocks _) w w' hother hw⟩

/-- **The body is written**, one block per segment. -/
theorem allocateAndWrite_safe (hisal : gw.isal.Correct) {body : Buffer}
    {multipart : Option (String × UInt32)} (h : Idle req t w) :
    (mrg gw req).Safe t (ends fun out => WrittenBody gw req t body out.1)
      ((gw.allocateAndWrite key body.bytes multipart).embed objectCalls) (w.logged (.start t)) := by
  have hsafe := (pieceView gw req).safe (t := t) (w := w.logged (.start t))
    ((Changes.allocateAndWrite_writes gw key body.bytes multipart).mono Faithful.of_writes)
    (Consistency.allocateAndWrite_safe hisal (view_start ▸ h.putState)
      (@view_start req w t ▸ h.alloc))
  refine hsafe.mono fun o w ho => ?_
  cases o with
  | ok out => exact ho
  | err e => trivial
  | panic => trivial

/-- **`put_object` among other calls.** -/
theorem putObject_safe (hisal : gw.isal.Correct) {body : Buffer}
    {metadata tags : List (String × String)} (hreq : req t = .put key body metadata tags)
    (h : Idle req t w) :
    (mrg gw req).Safe t (ends fun _ _ => True)
      ((gw.putObject key body.bytes metadata tags).embed objectCalls) (w.logged (.start t)) := by
  unfold Gateway.putObject
  rw [Prog.embed_bind]
  refine Safe.bind_ends (allocateAndWrite_safe hisal h) ?_
  rintro ⟨blocks, clientId⟩ w hw
  refine Safe.call _ (writtenBody_stable body blocks) hw fun w₁ ⟨ec, pre, hw₁⟩ hI r w₂ hans => ?_
  obtain ⟨served, w', hans, rfl⟩ := hans
  cases served with
  | false =>
    obtain ⟨_, ⟨rfl, err, rfl⟩, rfl⟩ := hans
    exact and_assoc.mp ⟨hI.failed _, trivial⟩
  | true =>
    obtain ⟨_, rfl, rfl⟩ := hans
    refine and_assoc.mp ⟨hI.commitKey hreq hw₁ _ _ _ r, ?_⟩
    cases r <;> trivial

/-- **`upload_part` among other calls.** -/
theorem uploadPart_safe (hisal : gw.isal.Correct) {body : Buffer} {uploadId : String} {n : UInt32}
    (hreq : req t = .uploadPart key uploadId n body) (h : Idle req t w) :
    (mrg gw req).Safe t (ends fun _ _ => True) (gw.uploadPart key uploadId n body.bytes)
      (w.logged (.start t)) := by
  unfold Gateway.uploadPart
  split
  · trivial
  refine Safe.bind_ends (allocateAndWrite_safe hisal h) ?_
  rintro ⟨blocks, clientId⟩ w hw
  refine Safe.call _ (writtenBody_stable body blocks) hw fun w₁ ⟨ec, pre, hw₁⟩ hI r w₂ hans => ?_
  obtain ⟨served, w', hans, rfl⟩ := hans
  cases served with
  | false =>
    obtain ⟨rfl, err, rfl⟩ := hans
    exact and_assoc.mp ⟨hI.failed _, trivial⟩
  | true =>
    obtain ⟨parts, hactive, rfl⟩ := hans
    refine and_assoc.mp ⟨hI.commitPart hreq hw₁ hactive _ _ _ r rfl, ?_⟩
    rcases r with err | _ | _ | name <;> trivial

/-- **`initiate_multipart` among other calls.** -/
theorem initiateMultipart_safe : (mrg gw req).Safe t (ends fun _ _ => True)
    (Gateway.initiateMultipart key) w := by
  refine Safe.call (fun _ => True) (fun _ _ _ _ => trivial) trivial fun w₁ _ hI r w₂ hans => ?_
  obtain ⟨served, w', hans, rfl⟩ := hans
  have hdone : (mrg gw req).Safe t (ends fun _ _ => True)
      ((do
        let resp ← Prog.lift (.ofExcept id r)
        (present "initiate_multi_part_upload_response" resp).embed objectCalls :
          Prog multipartCalls OmError String).mapErr GatewayError.ofOm)
      (w'.logged (.answer t (.initiate key) r served)) := by
    rcases r with err | _ | id <;> trivial
  cases served with
  | false =>
    obtain ⟨rfl, -⟩ := hans
    exact and_assoc.mp ⟨hI.failed _, hdone⟩
  | true =>
    obtain ⟨uploadId, hunused, rfl, -⟩ := hans
    refine and_assoc.mp ⟨hI.logged rfl ⟨rfl, rfl⟩ rfl rfl rfl (fun id => ?_) (.of_eq rfl), hdone⟩
    by_cases hid : id = uploadId
    · subst hid
      exact .inr ⟨fun h => (by cases hunused.symm.trans h), .inr (Function.update_self ..)⟩
    · exact .inl (Function.update_of_ne hid ..)

/-- **`abort_multipart` among other calls.** -/
theorem abortMultipart_safe {uploadId : String} : (mrg gw req).Safe t (ends fun _ _ => True)
    (Gateway.abortMultipart key uploadId) w := by
  refine Safe.call (fun _ => True) (fun _ _ _ _ => trivial) trivial fun w₁ _ hI r w₂ hans => ?_
  obtain ⟨served, w', hans, rfl⟩ := hans
  have hdone : (mrg gw req).Safe t (ends fun _ _ => True)
      ((Prog.lift (.ofExcept id r) : Prog multipartCalls OmError Unit).mapErr GatewayError.ofOm)
      (w'.logged (.answer t (.abort key uploadId) r served)) := by
    rcases r with err | _ <;> trivial
  cases served with
  | false =>
    obtain ⟨rfl, -⟩ := hans
    exact and_assoc.mp ⟨hI.failed _, hdone⟩
  | true =>
    simp only [MultipartAnswers] at hans
    split at hans
    case h_1 parts hactive =>
      subst hans
      refine and_assoc.mp ⟨hI.logged rfl ⟨rfl, rfl⟩ rfl rfl rfl (fun id => ?_) (.of_eq rfl), hdone⟩
      by_cases hid : id = uploadId
      · subst hid
        exact .inr ⟨fun h => (by cases hactive.symm.trans h), .inl (Function.update_self ..)⟩
      · exact .inl (Function.update_of_ne hid ..)
    case h_2 =>
      subst hans
      exact and_assoc.mp ⟨hI.logged rfl ⟨rfl, rfl⟩ rfl rfl rfl (.of_eq rfl) (.of_eq rfl), hdone⟩

/-- A lookup changes nothing. -/
theorem MInv.lookup (hI : MInv gw req w) {r : gatewayCalls.Res (.getKeyInfo key)} {served : Bool}
    (hans : MultipartAnswers t w (.object (.getKeyInfo key)) r served w') : w' = w ∧
      MInv gw req (w.logged (.answer t (.object (.getKeyInfo key)) r served)) ∧
      MGuar gw req t w (w.logged (.answer t (.object (.getKeyInfo key)) r served)) := by
  have hw : w' = w := by
    obtain ⟨_, hans, rfl⟩ := hans
    cases served <;> obtain ⟨rfl, -⟩ := hans <;> rfl
  exact ⟨hw, hI.logged rfl ⟨rfl, rfl⟩ rfl rfl rfl (.of_eq rfl) (.of_eq rfl)⟩

/-- Part numbers that ascend from each to the next are distinct. -/
theorem nodup_of_ascending {numbers : List UInt32}
    (h : ¬(numbers.zip numbers.tail).any (fun w => w.1 ≥ w.2) = true) : numbers.Nodup := by
  have htrans : @Trans UInt32 UInt32 UInt32 (· < ·) (· < ·) (· < ·) := ⟨UInt32.lt_trans⟩
  have hpairwise := Lists.pairwise_of_windows (r := (· < ·))
    (p := fun a b : UInt32 => decide (a ≥ b))
    (fun a b hab => UInt32.not_le.mp fun hle => hab (decide_eq_true hle)) h
  exact hpairwise.imp UInt32.ne_of_lt

/-- **`complete_multipart` among other calls.** -/
theorem completeMultipart_safe {uploadId : String} {numbers : List UInt32} :
    (mrg gw req).Safe t (ends fun _ _ => True)
      ((Gateway.completeMultipart key uploadId numbers).embed objectCalls) w := by
  unfold Gateway.completeMultipart
  split
  · trivial
  split
  · trivial
  rename_i hasc
  -- the size of the object is looked up, whatever there is by then
  have hlookup : ∀ (etag : String) (w : MultipartWorld), (mrg gw req).Safe t (ends fun _ _ => True)
      ((((do
        let info ← OmClient.getKeyInfo key
        return (etag, info.size) : OmM (String × UInt64)).mapErr GatewayError.ofOm) >>= fun c =>
          (pure c.1 : GwM String)).embed objectCalls) w := by
    intro etag w
    refine Safe.call (fun _ => True) (fun _ _ _ _ => trivial) trivial fun w₁ _ hI r w₂ hans => ?_
    obtain ⟨served, w', hans, rfl⟩ := hans
    obtain ⟨rfl, hI', hG⟩ := hI.lookup hans
    refine ⟨hI', hG, ?_⟩
    rcases r with err | _ | info
    · trivial
    · trivial
    · show (mrg gw req).Safe t _ ((((Prog.lift (blocksOfKeyInfo info) >>= _ : OmM KeyMeta) >>=
        _).mapErr GatewayError.ofOm >>= _).embed objectCalls) _
      cases blocksOfKeyInfo info <;> trivial
  refine Safe.call (fun _ => True) (fun _ _ _ _ => trivial) trivial fun w₁ _ hI r w₂ hans => ?_
  obtain ⟨served, w', hans, rfl⟩ := hans
  have hkeeps : MInv gw req (w'.logged (.answer t (.object (.completeMultipart key uploadId
        numbers)) r served)) ∧
      MGuar gw req t w₁ (w'.logged (.answer t (.object (.completeMultipart key uploadId
        numbers)) r served)) := by
    cases served with
    | false =>
      obtain ⟨rfl, -⟩ := hans
      exact hI.failed _
    | true =>
      obtain ⟨hash, hcompletes, -⟩ := hans
      exact hI.complete (nodup_of_ascending hasc) hcompletes r rfl
  refine and_assoc.mp ⟨hkeeps, ?_⟩
  rcases r with err | _ | _ | etag
  · trivial
  · trivial
  · trivial
  · exact hlookup etag _

/-- The blocks that a delete has looked up are those it may delete. -/
theorem deletingItems (hI' : MInv gw req w') (hdel : deletes key (req t) = true)
    {r : gatewayCalls.Res (.getKeyInfo key)}
    (hw' : w' = w.logged (.answer t (.object (.getKeyInfo key)) r true)) {ps : List Piece}
    (hps : published w.log key = some ps) {items : List (Item gw (viewed req) (2 * t))}
    {bodies : List Buffer} (hitems : ItemsOf gw req t ps w' items bodies)
    {blocks : List BlockLocation} (hreads : ReadsItems blocks items (view req w')) :
    DeletingItems gw (viewed req) (2 * t) blocks (view req w') := by
  intro block hb
  obtain ⟨x, hx, a, ha⟩ := Lists.exists_of_forall₂ hreads.1 hb
  obtain ⟨p, hp, hkey, -, hu, hlogged⟩ := hitems.piece x hx
  obtain ⟨a', ha'⟩ := hlogged.sealed hI'.seen x.pair
  obtain rfl : a = a' := Option.some.inj (ha.alloc.symm.trans ha'.alloc)
  refine ⟨x.key, x.lookup, hlogged, ⟨2 * p.call + 1, hkey ▸ viewed_eraser p.call, ?_⟩, a,
    ha.group ▸ ha'.alloc, ha'.owner⟩
  rw [hw', view_logged rfl]
  refine List.mem_append_right _ (List.mem_flatMap.mpr ⟨p, ?_, ?_⟩)
  · rw [hps]
    exact hp
  · rw [hdel]
    exact List.mem_cons_of_mem _ (List.mem_singleton_self _)

theorem deleteKey_safe (hdel : deletes key (req t) = true) :
    (mrg gw req).Safe t (ends fun _ _ => True)
      (((OmClient.deleteKey key).mapErr GatewayError.ofOm).embed objectCalls) w := by
  refine Safe.call (fun _ => True) (fun _ _ _ _ => trivial) trivial fun w₁ _ hI r w₂ hans => ?_
  obtain ⟨served, w', hans, rfl⟩ := hans
  have hkeeps : MInv gw req (w'.logged (.answer t (.object (.deleteKey key)) r served)) ∧
      MGuar gw req t w₁ (w'.logged (.answer t (.object (.deleteKey key)) r served)) := by
    cases served with
    | false =>
      obtain ⟨_, ⟨rfl, -⟩, rfl⟩ := hans
      exact hI.failed _
    | true =>
      obtain ⟨_, rfl, rfl⟩ := hans
      refine hI.logged rfl ⟨rfl, rfl⟩ rfl rfl rfl (.of_eq rfl) fun key' => ?_
      by_cases hkey : key' = key
      · subst hkey
        exact .inr ⟨Function.update_self .., _, List.mem_cons_self, hdel⟩
      · exact .inl (Function.update_of_ne hkey ..)
  refine and_assoc.mp ⟨hkeeps, ?_⟩
  rcases r with err | _ <;> trivial

/-- **`delete_object` among other calls.** -/
theorem deleteObject_safe (hdel : deletes key (req t) = true) :
    (mrg gw req).Safe t (ends fun _ _ => True)
      ((Gateway.deleteObject key).embed objectCalls) w := by
  unfold Gateway.deleteObject OmClient.getKeyInfo
  refine Safe.call (fun _ => True) (fun _ _ _ _ => trivial) trivial fun w₁ _ hI r w₂ hans => ?_
  obtain ⟨served, w', hans, rfl⟩ := hans
  obtain ⟨rfl, hI', hG⟩ := hI.lookup hans
  refine ⟨hI', hG, ?_⟩
  rcases r with err | _ | info
  · exact deleteKey_safe hdel
  · exact deleteKey_safe hdel
  · obtain ⟨_, hans, heq⟩ := hans
    cases served with
    | false => obtain ⟨-, ⟨_, h⟩ | h⟩ := hans <;> cases h
    | true =>
      obtain ⟨rfl, hr⟩ := hans
      split at hr
      case h_1 => cases hr
      case h_2 rec hrec =>
        obtain ⟨_, ⟨⟩, -, -, hlooks⟩ := hr
        obtain ⟨ps, items, bodies, blocks, hps, hitems, hblocks, hreads⟩ :=
          exists_blocks_of_lookup hI hrec hlooks rfl hI'
        have hdelete := deletingItems hI' hdel rfl hps hitems hreads
        show (mrg gw req).Safe t _ ((((Prog.lift (blocksOfKeyInfo info) >>= _ :
          OmM KeyMeta).attempt) >>= _).embed objectCalls) _
        rw [hblocks]
        show (mrg gw req).Safe t _ ((Gateway.deleteBlocks blocks >>= fun _ =>
          (OmClient.deleteKey key).mapErr GatewayError.ofOm).embed objectCalls) _
        rw [Prog.embed_bind]
        refine Safe.bind_ends (I := fun _ _ => True) ?_ fun _ _ _ => deleteKey_safe hdel
        refine ((pieceView gw req).safe ((Changes.deleteBlocks_deletes blocks).mono
          Faithful.of_deletes) (deleteItems_safe hdelete)).mono fun o w _ => ?_
        cases o <;> trivial

/-! ### Reading -/

end Calls

end Pieces

/-- How call `t` fared at a slot: the datanode could not be dialled, or the read was served or
not. -/
def MultipartEvent.attempt? (t : Tid) : MultipartEvent → Option Bool
  | .answer u (.object (.dial _)) (.error _) _ => if u = t then some false else none
  | .answer u (.object (.readChunk _ _ _ _)) _ served => if u = t then some served else none
  | _ => none

/-- How call `t` fared at the slots it went to, one after the other. -/
def MultipartWorld.attempts (w : MultipartWorld) (t : Tid) : List Bool :=
  (w.log.filterMap (MultipartEvent.attempt? t)).reverse

namespace Pieces

open Consistency RelyGuarantee

section Reading

variable {gw : Gateway} {req : Tid → MultipartRequest} {w w' : MultipartWorld} {t : ℕ}
  {key : KeyName}

/-- Of an event, the attempts are seen as they are. -/
theorem attempts_viewEvent (before : List MultipartEvent) (e : MultipartEvent) :
    attempts (2 * t) (viewEvent req before e) = (e.attempt? t).toList := by
  have hlookup : ∀ u erase ps, attempts (2 * t) (viewLookup u erase ps) = [] := by
    intro u erase ps
    refine List.filterMap_eq_nil_iff.mpr fun e he => ?_
    obtain ⟨p, -, he⟩ := List.mem_flatMap.mp he
    rcases List.mem_cons.mp he with rfl | he
    · rfl
    · cases erase with
      | false => cases he
      | true => rw [List.mem_singleton.mp he]; rfl
  have hown : ∀ (u : ℕ) (served : Bool), (if 2 * u = 2 * t then some served else none) =
      if u = t then some served else none := fun u served => by simp
  cases e with
  | start u => rfl
  | answer u op r served =>
    cases op with
    | object op =>
      cases op with
      | dial ep =>
        cases r with
        | error err => exact (attempts_singleton _ _).trans (congrArg Option.toList (hown u false))
        | ok _ => rfl
      | readChunk ep b chunk verify =>
        exact (attempts_singleton _ _).trans (congrArg Option.toList (hown u served))
      | commitKey _ _ _ _ _ => cases served <;> rfl
      | getKeyInfo key =>
        cases served with
        | false => rfl
        | true => exact hlookup _ _ _
      | _ => rfl
    | commitPart _ _ _ _ _ _ _ => cases served <;> rfl
    | _ => rfl

theorem attempts_viewLog : ∀ log : List MultipartEvent,
    attempts (2 * t) (viewLog req log) = (log.filterMap (MultipartEvent.attempt? t)).reverse
  | [] => rfl
  | e :: before => by
    rw [viewLog, attempts_append, attempts_viewLog before, attempts_viewEvent, List.filterMap_cons]
    cases e.attempt? t <;> simp

/-- The attempts of a call are seen as they are. -/
theorem attempts_view : attempts (2 * t) (view req w).log = w.attempts t := attempts_viewLog w.log

theorem placeOf_view : (view req w).placeOf = w.objects.placeOf := by
  funext g
  simp only [World.placeOf, view, Option.map_map]
  rfl

/-- A get of an object with these pieces returns, unless the deletion of a piece has started or a
group was not readable. -/
def Answered (req : Tid → MultipartRequest) (t : ℕ) (ps : List Piece)
    (o : Outcome GatewayError Gateway.GetReply) (a : World) : Prop :=
  (∀ p ∈ ps, ¬DeleteStarted (viewed req) a.log (hidden p.call)) →
    ReadableGroups a.placeOf (attempts (2 * t) a.log) 0 (ps.flatMap (·.locations)) →
      ∃ reply, o = .ok reply

theorem Answered.stable (ps : List Piece) (o : Outcome GatewayError Gateway.GetReply) :
    (rg gw (viewed req)).Stable (2 * t) (Answered req t ps o) := by
  rintro a a' ⟨-, -, v, hv, hG⟩ h hdel hread
  obtain ⟨e, hlog, -⟩ := hG.log
  exact h (fun p hp hd => hdel p hp (hlog ▸ hd.append _)) (readableGroups_of_guar hG hread)

/-- **What a get that has ended shows.** -/
def GetsPublished (req : Tid → MultipartRequest) (t : ℕ) (key : KeyName)
    (o : Outcome GatewayError Gateway.GetReply) (w : MultipartWorld) : Prop :=
  ∃ after r served before,
    w.log = after ++ .answer t (.object (.getKeyInfo key)) r served :: before ∧
    (∀ reply, o = .ok reply → ∃ ps bodies, published before key = some ps ∧
      List.Forall₂ (fun p body => (req p.call).body? = some body) ps bodies ∧
        reply.body = bodies.flatMap Buffer.bytes) ∧
    (served = true → ∀ ps, published before key = some ps →
      DeleteSeen req w.log key ∨ Answered req t ps o (view req w))

theorem GetsPublished.stable (o : Outcome GatewayError Gateway.GetReply) :
    (mrg gw req).Stable t (GetsPublished req t key o) := by
  rintro w w' hother ⟨after, r, served, before, hlog, hbody, hok⟩
  obtain ⟨e, hlog', -⟩ := hother.2.2.choose_spec.2.log
  refine ⟨e :: after, r, served, before, by rw [hlog', hlog]; rfl, hbody, ?_⟩
  intro hserved ps hps
  refine (hok hserved ps hps).imp (fun hd => hlog' ▸ hd.cons) fun hans => ?_
  exact (pieceView gw req).stable (Answered.stable ps o) w w' hother hans

/-- A get that fails because its lookup did not find the key. -/
theorem getsPublished_of_lookup (hI : MInv gw req w) {r : gatewayCalls.Res (.getKeyInfo key)}
    {served : Bool} (hnone : served = true → w.objects.keys key = none)
    {o : Outcome GatewayError Gateway.GetReply} (ho : ∀ reply, o ≠ .ok reply) :
    GetsPublished req t key o (w.logged (.answer t (.object (.getKeyInfo key)) r served)) := by
  refine ⟨[], r, served, w.log, rfl, fun reply h => absurd h (ho reply), fun hserved ps hps => ?_⟩
  rcases hI.kept key ps hps with hdel | ⟨rec, hrec⟩
  · exact .inl hdel.cons
  · cases (hnone hserved).symm.trans hrec

theorem answered_of_fails {ps : List Piece} {items : List (Item gw (viewed req) (2 * t))}
    {bodies : List Buffer} (hitems : ItemsOf gw req t ps w items bodies) {a : World}
    (hfails : Fails items a) (o : Outcome GatewayError Gateway.GetReply) :
    Answered req t ps o a := by
  intro hdel hread
  rcases hfails with ⟨x, hx, hd⟩ | hnot
  · obtain ⟨p, hp, hkey, -, -, -⟩ := hitems.piece x hx
    exact absurd (hkey ▸ hd) (hdel p hp)
  · exact absurd (hitems.locs ▸ hread) hnot

/-- **`get_object` among other calls.** -/
theorem getObject_safe (hisal : gw.isal.Correct) (h : Idle req t w) :
    (mrg gw req).Safe t (GetsPublished req t key) ((gw.getObject key).embed objectCalls)
      (w.logged (.start t)) := by
  unfold Gateway.getObject OmClient.getKeyInfo
  refine Safe.call _ ((pieceView gw req).stable (t := t) unattempted_stable)
    (view_start ▸ h.attempts) fun w₁ hw₁ hI r w₂ hans => ?_
  obtain ⟨served, w', hans, rfl⟩ := hans
  obtain ⟨rfl, hI', hG⟩ := hI.lookup hans
  refine ⟨hI', hG, ?_⟩
  obtain ⟨_, hans, -⟩ := hans
  cases served with
  | false =>
    obtain ⟨-, ⟨err, rfl⟩ | rfl⟩ := hans
    · exact getsPublished_of_lookup hI (by simp) (by rintro _ ⟨⟩)
    · exact getsPublished_of_lookup hI (by simp) (by rintro _ ⟨⟩)
  | true =>
    obtain ⟨-, hr⟩ := hans
    split at hr
    case h_1 hnone =>
      subst hr
      exact getsPublished_of_lookup hI (fun _ => hnone) (by rintro _ ⟨⟩)
    case h_2 rec hrec =>
      obtain ⟨info, rfl, -, -, hlooks⟩ := hr
      obtain ⟨ps, items, bodies, blocks, hps, hitems, hblocks, hreads⟩ :=
        exists_blocks_of_lookup hI hrec hlooks rfl hI'
      have hnone : attempts (2 * t) (view req (w'.logged
          (.answer t (.object (.getKeyInfo key)) (.ok (some info)) true))).log = [] := by
        rw [attempts_view] at hw₁ ⊢
        exact hw₁
      have hread := (pieceView gw req).safe ((Changes.readBlocks_fetches gw blocks).mono
        Faithful.of_fetches) (readItems_safe hisal hreads hnone)
      have hlog := hread.frame (K := fun w => ∃ after, w.log = after ++
        .answer t (.object (.getKeyInfo key)) (.ok (some info)) true :: w'.log)
        (fun _ w w' hG ⟨after, h⟩ => by
          obtain ⟨e, hlog, -⟩ := hG.log
          exact ⟨e :: after, by rw [hlog, h]; rfl⟩) ⟨[], rfl⟩
      show (mrg gw req).Safe t _ ((((Prog.lift (blocksOfKeyInfo info) >>= _ :
        OmM KeyMeta).mapErr GatewayError.ofOm) >>= _).embed objectCalls) _
      rw [hblocks]
      show (mrg gw req).Safe t _ ((gw.readBlocks blocks >>= fun out =>
        (pure ⟨out, _, _, _⟩ : GwM Gateway.GetReply)).embed objectCalls) _
      rw [Prog.embed_bind]
      refine Safe.bind (I := fun out w => out = bodies.flatMap Buffer.bytes ∧ ∃ after,
        w.log = after ++ .answer t (.object (.getKeyInfo key)) (.ok (some info)) true :: w'.log)
        ?_ (hlog.mono ?_)
      · rintro _ w ⟨rfl, after, hlog⟩
        refine ⟨after, _, true, w'.log, hlog, ?_, fun _ _ _ => .inr fun _ _ => ⟨_, rfl⟩⟩
        rintro _ ⟨⟩
        exact ⟨ps, bodies, hps, hitems.bodies, rfl⟩
      · rintro o w ⟨ho | ⟨hne, hfails⟩, after, hlog⟩
        · subst ho
          exact ⟨hitems.segs, after, hlog⟩
        · have hpost : ∀ o' : Outcome GatewayError Gateway.GetReply, (∀ reply, o' ≠ .ok reply) →
              GetsPublished req t key o' w := by
            intro o' ho'
            refine ⟨after, _, true, w'.log, hlog, fun reply h => absurd h (ho' reply), ?_⟩
            intro _ ps' hps'
            cases hps.symm.trans hps'
            exact .inr (answered_of_fails hitems hfails o')
          cases o with
          | ok bytes => exact absurd rfl (hne bytes)
          | err e => exact hpost _ (by rintro _ ⟨⟩)
          | panic => exact hpost _ (by rintro _ ⟨⟩)

/-! ### All calls -/

/-- What a call that has ended shows: of a `get_object`, `OzoneRust.Pieces.GetsPublished`. -/
def Ended (req : Tid → MultipartRequest) (t : ℕ) (o : Outcome GatewayError MultipartReply)
    (w : MultipartWorld) : Prop :=
  ∀ key, req t = .get key → ∃ o', o = MultipartReply.object <$> o' ∧ GetsPublished req t key o' w

theorem Ended.stable (o : Outcome GatewayError MultipartReply) :
    (mrg gw req).Stable t (Ended req t o) := by
  intro w w' hother h key hreq
  obtain ⟨o', ho, hget⟩ := h key hreq
  exact ⟨o', ho, GetsPublished.stable o' w w' hother hget⟩

/-- A call that is no `get_object` shows nothing. -/
theorem ended_of_ends {p : MpM MultipartReply} (hget : ∀ key, req t ≠ .get key)
    (h : (mrg gw req).Safe t (ends fun _ _ => True) p w) :
    (mrg gw req).Safe t (Ended req t) p w :=
  h.mono fun _ _ _ key hreq => absurd hreq (hget key)

/-- **Every call of the gateway is safe** from its start on. -/
theorem run_safe (hisal : gw.isal.Correct) (h : Idle req t w) :
    (mrg gw req).Safe t (Ended req t) ((req t).run gw) (w.logged (.start t)) := by
  cases hreq : req t with
  | get key =>
    refine Safe.bind (I := fun reply => GetsPublished req t key (.ok reply)) ?_
      ((getObject_safe hisal h).mono fun o w ho => ?_)
    · intro reply w hw key' hreq'
      cases hreq.symm.trans hreq'
      exact ⟨.ok reply, rfl, hw⟩
    · cases o with
      | ok reply => exact ho
      | err e =>
        intro key' hreq'
        cases hreq.symm.trans hreq'
        exact ⟨.err e, rfl, ho⟩
      | panic =>
        intro key' hreq'
        cases hreq.symm.trans hreq'
        exact ⟨.panic, rfl, ho⟩
  | put key body metadata tags =>
    refine ended_of_ends (fun key h => by cases hreq.symm.trans h) ?_
    exact Safe.bind_ends (putObject_safe hisal hreq h) fun _ _ _ => trivial
  | delete key =>
    refine ended_of_ends (fun key h => by cases hreq.symm.trans h) ?_
    have hdel : deletes key (req t) = true := by simp [hreq, deletes]
    exact Safe.bind_ends (deleteObject_safe hdel) fun _ _ _ => trivial
  | initiate key =>
    refine ended_of_ends (fun key h => by cases hreq.symm.trans h) ?_
    exact Safe.bind_ends initiateMultipart_safe fun _ _ _ => trivial
  | uploadPart key uploadId n body =>
    refine ended_of_ends (fun key h => by cases hreq.symm.trans h) ?_
    exact Safe.bind_ends (uploadPart_safe hisal hreq h) fun _ _ _ => trivial
  | complete key uploadId numbers =>
    refine ended_of_ends (fun key h => by cases hreq.symm.trans h) ?_
    exact Safe.bind_ends completeMultipart_safe fun _ _ _ => trivial
  | abort key uploadId =>
    refine ended_of_ends (fun key h => by cases hreq.symm.trans h) ?_
    exact Safe.bind_ends abortMultipart_safe fun _ _ _ => trivial

theorem minv_empty (gw : Gateway) (req : Tid → MultipartRequest) :
    MInv gw req MultipartWorld.empty where
  seen := inv_empty gw (viewed req)
  once := List.nodup_nil
  honest _ he := by cases he
  closed _ he := by cases he
  stored _ _ h := by cases h
  current _ _ h := by cases h
  kept _ _ h := by cases h

/-- What holds in whatever way the calls are interleaved. -/
theorem allSafe_of_reachable (hisal : gw.isal.Correct)
    {P : Pool multipartCalls GatewayError MultipartReply Tid MultipartWorld}
    (hP : Pool.Reachable multipartSystem (fun t => (req t).run gw) MultipartWorld.empty P) :
    (mrg gw req).AllSafe (Ended req) (Idle req) P := by
  refine (mrg gw req).safe_of_reachable (Ended req) (minv_empty gw req)
    (fun t => ⟨by rintro _ ⟨⟩, by rintro _ _ ⟨⟩⟩)
    (fun t => (pieceView gw req).stable (t := t) Consistency.Idle.stable) ?_
    (fun _ => Ended.stable) hP
  rintro t w _ hI hidle rfl
  exact and_assoc.mp ⟨hI.logged rfl ⟨rfl, rfl⟩ rfl rfl rfl (.of_eq rfl) (.of_eq rfl),
    run_safe hisal hidle⟩

end Reading

end Pieces

/-! ### The theorem -/

open Pieces Consistency

section Concrete

variable {gw : Gateway} {req : Tid → MultipartRequest} {w : MultipartWorld} {t : ℕ}

/-- Where the deletion of a piece has started, a `delete_object` of its key has shown itself. -/
theorem deleteSeen_of_started (hI : MInv gw req w) {before : List MultipartEvent}
    (hbefore : before ⊆ w.log) {key : KeyName} {ps : List Piece}
    (hps : published before key = some ps) {p : Piece} (hp : p ∈ ps)
    (h : DeleteStarted (viewed req) (view req w).log (hidden p.call)) :
    DeleteSeen req w.log key := by
  obtain ⟨v, hreq, hmem⟩ := h
  obtain ⟨hv, hkey⟩ := eq_of_viewed_delete hreq
  rw [hv, ← hidden_inj hkey] at hmem
  obtain ⟨after, u, key', r, before', ps', p', hlog, hdel, hps', hp', hcall⟩ :=
    exists_of_eraser hmem
  have hsub : .answer u (.object (.getKeyInfo key')) r true :: before' ⊆ w.log :=
    hlog ▸ List.subset_append_right after _
  rw [List.cons_subset] at hsub
  obtain rfl := key_unique hI hbefore hsub.2 hps hps' hp hp' hcall
  exact ⟨_, hsub.1, hdel⟩

end Concrete

/-- **A `get_object` returns what was published last before its lookup, parts included.** Any
number of calls to put, get and delete objects and to initiate, fill, complete and abort multipart
uploads, interleaved request by request, any requests failing. A get that has ended has made its
lookup, at some place of the log. If it returns, the object is that of the last `put_object` commit
or completed upload of the key before that place, and the body is put together of the bodies of its
pieces, in order: one for a `put_object`, and for an upload one for each part that the completion
names, which is the part as it was committed last before the completion. And the get does return if
the lookup was served, something was published under the key, no `delete_object` of the key has
shown itself and in each group at least `k` slots were readable, that is, did not fail the get. -/
theorem getObject_eq_published (gw : Gateway) (hisal : gw.isal.Correct)
    (req : Tid → MultipartRequest)
    {P : Pool multipartCalls GatewayError MultipartReply Tid MultipartWorld}
    (hP : Pool.Reachable multipartSystem (fun t => (req t).run gw) MultipartWorld.empty P)
    {t : Tid} {key : KeyName} (hreq : req t = .get key)
    {o : Outcome GatewayError MultipartReply} (ht : P.threads t = some (.done o)) :
    ∃ after r served before,
      P.world.log = after ++ .answer t (.object (.getKeyInfo key)) r served :: before ∧
      (∀ reply, o = .ok reply → ∃ ps bodies got, published before key = some ps ∧
        List.Forall₂ (fun p body => (req p.call).body? = some body) ps bodies ∧
          reply = .object got ∧ got.body = bodies.flatMap Buffer.bytes) ∧
      (served = true → ∀ ps, published before key = some ps → ¬DeleteSeen req P.world.log key →
        ReadableGroups P.world.objects.placeOf (P.world.attempts t) 0 (ps.flatMap (·.locations)) →
          ∃ got, o = .ok (.object got)) := by
  have hall := Pieces.allSafe_of_reachable hisal hP
  obtain ⟨o', rfl, after, r, served, before, hlog, hbody, hok⟩ := hall.safe t _ ht key hreq
  refine ⟨after, r, served, before, hlog, ?_, ?_⟩
  · intro reply ho
    cases o' with
    | ok got =>
      obtain ⟨ps, bodies, hps, hbodies, hgot⟩ := hbody got rfl
      cases ho
      exact ⟨ps, bodies, got, hps, hbodies, rfl, hgot⟩
    | err e => cases ho
    | panic => cases ho
  · intro hserved ps hps hdel hread
    have hsub : before ⊆ P.world.log := by
      rw [hlog]
      exact List.Subset.trans (List.subset_cons_self _ _) (List.subset_append_right _ _)
    obtain ⟨got, rfl⟩ := (hok hserved ps hps).resolve_left hdel
      (fun p hp hd => hdel (deleteSeen_of_started hall.inv hsub hps hp hd))
      (by rwa [placeOf_view, attempts_view])
    exact ⟨got, rfl⟩

/-- An upload of one part of one byte, and a get of the object. -/
def uploadThenGet (t : Tid) : MultipartRequest :=
  if t = 0 then .initiate ⟨"b", "k"⟩
  else if t = 1 then .uploadPart ⟨"b", "k"⟩ "u" 1 ⟨[9], by decide⟩
  else if t = 2 then .complete ⟨"b", "k"⟩ "u" [1]
  else .get ⟨"b", "k"⟩

/-- The bytes a call has returned. -/
def objectRead {C : Calls} : Option (Prog C GatewayError MultipartReply) → Option Bytes
  | some (.done (.ok (.object got))) => some got.body
  | _ => none

theorem exists_of_objectRead {C : Calls} {thread : Option (Prog C GatewayError MultipartReply)}
    {body : Bytes} (h : objectRead thread = some body) :
    ∃ got, thread = some (.done (.ok (.object got))) ∧ got.body = body := by
  unfold objectRead at h
  split at h
  case h_1 got => exact ⟨got, rfl, Option.some.inj h⟩
  case h_2 => cases h

open Placement

/-- A run goes on with an answer. -/
theorem reachable_multipart {ρ : Type} {prog : Tid → MpM ρ} {w₀ : MultipartWorld}
    {P : Pool multipartCalls GatewayError ρ Tid MultipartWorld}
    (hP : Pool.Reachable multipartSystem prog w₀ P) (t : Tid) (op : MultipartOp)
    {next : multipartCalls.Res op → MpM ρ} (ht : P.threads t = some (.call op next))
    (r : multipartCalls.Res op) (served : Bool) {w : MultipartWorld}
    (h : MultipartAnswers t P.world op r served w) :
    Pool.Reachable multipartSystem prog w₀
      ⟨Function.update P.threads t (some (next r)), w.logged (.answer t op r served)⟩ :=
  hP.tail (.call ht ⟨served, w, h, rfl⟩)

/-- The upload runs to its end, then the get, which cannot dial the first datanode and reads the
parity shard from the second. -/
theorem exists_degradedGetOfPart :
    ∃ P : Pool multipartCalls GatewayError MultipartReply Tid MultipartWorld,
      Pool.Reachable multipartSystem (fun t => (uploadThenGet t).run Gateway.reference)
        MultipartWorld.empty P ∧
      objectRead (P.threads 3) = some [9] ∧ P.world.attempts 3 = [false, true] ∧
      ∃ ps, published P.world.log ⟨"b", "k"⟩ = some ps ∧
        ReadableGroups P.world.objects.placeOf (P.world.attempts 3) 0
          (ps.flatMap (·.locations)) := by
  have h₀ : Pool.Reachable multipartSystem (fun t => (uploadThenGet t).run Gateway.reference)
    MultipartWorld.empty ⟨fun _ => none, MultipartWorld.empty⟩ := .refl
  have h₁ := h₀.tail (.start (t := 0) rfl rfl)
  have h₂ := reachable_multipart h₁ 0 (.initiate ⟨"b", "k"⟩) rfl (.ok (some "u")) true
    ⟨"u", rfl, rfl, by rintro _ ⟨⟩; rfl⟩
  have h₃ := h₂.tail (.start (t := 1) rfl rfl)
  have h₄ := reachable_multipart h₃ 1 _ rfl
    (.ok ⟨some 0, some ⟨0, [], 0, [[mirrorLocation 0]]⟩⟩) true
    ⟨_, ⟨[(mirrorLocation 0, mirror)], grants_mirror fun _ => rfl, rfl,
      by rintro _ ⟨⟩ _ ⟨⟩; rfl⟩, rfl⟩
  -- the first slot, then the second: dial, container, chunk, block
  have h₅ := reachable_multipart h₄ 1 _ rfl (.ok ()) true ⟨_, rfl, rfl⟩
  have h₆ := reachable_multipart h₅ 1 _ rfl (.ok ()) true ⟨_, rfl, rfl⟩
  have h₇ := reachable_multipart h₆ 1 _ rfl (.ok ()) true ⟨_, ⟨_, rfl, fun _ => rfl⟩, rfl⟩
  have h₈ := reachable_multipart h₇ 1 _ rfl (.ok ()) true ⟨_, ⟨_, rfl, fun _ => rfl⟩, rfl⟩
  have h₉ := reachable_multipart h₈ 1 _ rfl (.ok ()) true ⟨_, rfl, rfl⟩
  have h₁₀ := reachable_multipart h₉ 1 _ rfl (.ok ()) true ⟨_, rfl, rfl⟩
  have h₁₁ := reachable_multipart h₁₀ 1 _ rfl (.ok ()) true ⟨_, ⟨_, rfl, fun _ => rfl⟩, rfl⟩
  have h₁₂ := reachable_multipart h₁₁ 1 _ rfl (.ok ()) true ⟨_, ⟨_, rfl, fun _ => rfl⟩, rfl⟩
  have h₁₃ := reachable_multipart h₁₂ 1 _ rfl (.ok (some (some "u-1"))) true
    ⟨fun _ => none, rfl, rfl⟩
  have h₁₄ := h₁₃.tail (.start (t := 2) rfl rfl)
  have h₁₅ := reachable_multipart h₁₄ 2 (.object (.completeMultipart ⟨"b", "k"⟩ "u" [1])) rfl
    (.ok (some (some "-1"))) true
    ⟨"", ⟨_, [⟨[⟨1, 1, 0, 1, none⟩], 1, [("ETAG", some "")]⟩], [("ETAG", some "-1")], rfl,
      .cons rfl .nil, by decide, rfl⟩, by rintro _ ⟨⟩; decide⟩
  have h₁₆ := reachable_multipart h₁₅ 2 _ rfl
    (.ok (some ⟨1, [("ETAG", some "-1")], 0, [[mirrorLocation 1]]⟩)) true
    ⟨_, ⟨rfl, _, rfl, rfl, rfl, .cons ⟨rfl, rfl, rfl, rfl, ⟨1, mirror⟩, rfl,
      presents_mirrorLocation⟩ .nil⟩, rfl⟩
  have h₁₇ := h₁₆.tail (.start (t := 3) rfl rfl)
  have h₁₈ := reachable_multipart h₁₇ 3 _ rfl
    (.ok (some ⟨1, [("ETAG", some "-1")], 0, [[mirrorLocation 1]]⟩)) true
    ⟨_, ⟨rfl, _, rfl, rfl, rfl, .cons ⟨rfl, rfl, rfl, rfl, ⟨1, mirror⟩, rfl,
      presents_mirrorLocation⟩ .nil⟩, rfl⟩
  have h₁₉ := reachable_multipart h₁₈ 3 _ rfl (.error "refused") false ⟨_, rfl, rfl⟩
  have h₂₀ := reachable_multipart h₁₉ 3 _ rfl (.ok ()) true ⟨_, rfl, rfl⟩
  have h₂₁ := reachable_multipart h₂₀ 3 _ rfl (.ok [9]) true
    ⟨_, answers_read (by decide +kernel), rfl⟩
  refine ⟨_, h₂₁, by decide +kernel, by decide +kernel, [⟨1, [⟨1, 1, 0, 1, none⟩]⟩], rfl, ?_⟩
  rintro place ⟨⟩
  exact ⟨by decide +kernel, trivial⟩

/-- The get returns the byte of the one part, with one of the two datanodes down. -/
theorem getObject_eq_published_degradedGetOfPart :
    ∃ P : Pool multipartCalls GatewayError MultipartReply Tid MultipartWorld,
      Pool.Reachable multipartSystem (fun t => (uploadThenGet t).run Gateway.reference)
        MultipartWorld.empty P ∧
      P.world.attempts 3 = [false, true] ∧
      (∃ ps, published P.world.log ⟨"b", "k"⟩ = some ps ∧
        ReadableGroups P.world.objects.placeOf (P.world.attempts 3) 0
          (ps.flatMap (·.locations))) ∧
      ∃ got, P.threads 3 = some (.done (.ok (.object got))) ∧ got.body = [9] ∧
      ∃ after r served before,
        P.world.log = after ++ .answer 3 (.object (.getKeyInfo ⟨"b", "k"⟩)) r served :: before ∧
        ∃ ps bodies, published before ⟨"b", "k"⟩ = some ps ∧
          List.Forall₂ (fun p body => (uploadThenGet p.call).body? = some body) ps bodies ∧
            got.body = bodies.flatMap Buffer.bytes := by
  obtain ⟨P, hP, hread, hattempts, hps⟩ := exists_degradedGetOfPart
  obtain ⟨got, hgot, hbody⟩ := exists_of_objectRead hread
  obtain ⟨after, r, served, before, hlog, hlast, -⟩ := getObject_eq_published
    Gateway.reference IsaL.reference_correct uploadThenGet hP (t := 3) rfl hgot
  obtain ⟨ps, bodies, _, hpublished, hbodies, ⟨⟩, hbytes⟩ := hlast _ rfl
  exact ⟨P, hP, hattempts, hps, got, hgot, hbody, after, r, served, before, hlog, ps, bodies,
    hpublished, hbodies, hbytes⟩

end OzoneRust
