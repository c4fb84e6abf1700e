import OzoneRust.Gateway.Invariant

/-!
# `get_object` and `delete_object` among other calls

A `get_object` looks its key up once and then reads the slots of each group. From the lookup
on it relies on one fact only: the commit it was answered with stays in the log, so the
invariant goes on describing what its groups hold. Every slot it reads is absent, or holds
the shard of its segment, or has another length, which is what the decoder asks of a view;
`OzoneRust.Consistency.readBlockGroup_safe` gives the segment back, or an error; and then too
many of the datanodes could not be reached or did not serve the read. Which these are is read off
the log: a get goes to each slot once, in order (`OzoneRust.attempts`), and a group is readable if
`k` of its slots did not fail (`OzoneRust.ReadableGroups`).

The loops over the groups (`OzoneRust.Consistency.readItems_safe`,
`OzoneRust.Consistency.deleteItems_safe`) are followed with a lookup for each group, since an object
can have groups that were committed as several. `OzoneRust.Consistency.getObject_safe` and
`OzoneRust.Consistency.deleteObject_safe` are for an object with one commit.
-/

namespace OzoneRust

/-- How call `t` fared at a slot: the datanode could not be dialled, or the read was served or
not. -/
def Event.attempt? (t : Tid) : Event → Option Bool
  | .answer u (.dial _) (.error _) _ => if u = t then some false else none
  | .answer u (.readChunk _ _ _ _) _ served => if u = t then some served else none
  | _ => none

/-- How call `t` fared at the slots it went to, one after the other. -/
def attempts (t : Tid) (log : List Event) : List Bool := log.filterMap (Event.attempt? t)

theorem attempts_append (t : Tid) (log log' : List Event) :
    attempts t (log ++ log') = attempts t log ++ attempts t log' :=
  List.filterMap_append

theorem attempts_singleton (t : Tid) (e : Event) : attempts t [e] = (e.attempt? t).toList := by
  cases h : e.attempt? t <;> simp [attempts, h]

/-- At least `k` slots of a group did not fail, the attempts at it being those from number `m` on.
A slot that nobody went to has not failed. -/
def ReadableAt (tried : List Bool) (place : Placement) (m : ℕ) : Prop :=
  place.config.data.toNat ≤ (List.range place.total).countP fun i => tried[m + i]? ≠ some false

instance ReadableAt.decidable (tried : List Bool) (place : Placement) (m : ℕ) :
    Decidable (ReadableAt tried place m) :=
  inferInstanceAs (Decidable (_ ≤ _))

/-- At least `k` slots of each group did not fail, the groups being gone through in this order, and
`m` slots before them. -/
def ReadableGroups (placeOf : GroupId → Option Placement) (tried : List Bool) :
    ℕ → List KeyLocation → Prop
  | _, [] => True
  | m, loc :: locs => ∀ place, placeOf loc.group = some place →
      ReadableAt tried place m ∧ ReadableGroups placeOf tried (m + place.total) locs

/-- Where a group is placed. -/
def World.placeOf (w : World) (g : GroupId) : Option Placement := (w.alloc g).map Alloc.place

theorem World.placeOf_eq {w : World} {g : GroupId} {a : Alloc} (h : w.alloc g = some a) :
    w.placeOf g = some a.place := by
  rw [World.placeOf, h, Option.map_some]

section Readable

variable {placeOf placeOf' : GroupId → Option Placement} {tried tried' : List Bool}
  {place : Placement} {loc : KeyLocation} {locs : List KeyLocation}

theorem ReadableAt.of_append {m : ℕ} (h : ReadableAt (tried ++ tried') place m) :
    ReadableAt tried place m := by
  refine h.trans (List.countP_mono_left fun i _ hi => ?_)
  rw [decide_eq_true_eq] at hi ⊢
  intro hfailed
  rw [List.getElem?_append_left (List.getElem?_eq_some_iff.mp hfailed).1] at hi
  exact hi hfailed

/-- What is readable after more attempts was so before. -/
theorem ReadableGroups.of_append (hplace : ∀ g p, placeOf g = some p → placeOf' g = some p) :
    ∀ {locs : List KeyLocation} {m : ℕ}, ReadableGroups placeOf' (tried ++ tried') m locs →
      ReadableGroups placeOf tried m locs
  | [], _, _ => trivial
  | _ :: _, _, h => fun p hp =>
    have hgroup := h p (hplace _ _ hp)
    ⟨hgroup.1.of_append, hgroup.2.of_append hplace⟩

/-- The groups are placed, and have `m` slots. -/
def Spans (placeOf : GroupId → Option Placement) : List KeyLocation → ℕ → Prop
  | [], m => m = 0
  | loc :: locs, m => ∃ place n, placeOf loc.group = some place ∧ Spans placeOf locs n ∧
      m = place.total + n

theorem Spans.mono (hplace : ∀ g p, placeOf g = some p → placeOf' g = some p) :
    ∀ {locs : List KeyLocation} {m : ℕ}, Spans placeOf locs m → Spans placeOf' locs m
  | [], _, h => h
  | _ :: _, _, ⟨p, n, hp, hn, hm⟩ => ⟨p, n, hplace _ _ hp, hn.mono hplace, hm⟩

theorem Spans.snoc (hloc : placeOf loc.group = some place) :
    ∀ {locs : List KeyLocation} {m : ℕ}, Spans placeOf locs m →
      Spans placeOf (locs ++ [loc]) (m + place.total)
  | [], _, h => ⟨place, 0, hloc, rfl, by rw [h, Nat.add_comm]⟩
  | _ :: _, _, ⟨p, n, hp, hn, hm⟩ => ⟨p, n + place.total, hp, hn.snoc hloc, by omega⟩

/-- A group among the others. -/
theorem ReadableGroups.at (hloc : placeOf loc.group = some place) :
    ∀ {before : List KeyLocation} {m n : ℕ},
      ReadableGroups placeOf tried n (before ++ loc :: locs) → Spans placeOf before m →
      ReadableAt tried place (n + m)
  | [], _, _, h, hm => by
    obtain rfl : _ = 0 := hm
    exact (h place hloc).1
  | _ :: _, _, _, h, ⟨p, k, hp, hk, hm⟩ => by
    rw [hm, ← Nat.add_assoc]
    exact ReadableGroups.at hloc (h p hp).2 hk

end Readable

namespace Consistency

open Layout RelyGuarantee

/-! ### The views of a group -/

section Gathers

/-- What was gathered from the first `n` slots of a group, after `m` other slots. `lost` is a reason
for which a slot may have nothing although nothing failed. -/
structure Gathers (place : Placement) (seg : Bytes) (tried : List Bool) (lost : Prop) (m n : ℕ)
    (views : List (Option Bytes)) : Prop where
  /-- One view per slot. -/
  length : views.length = n
  /-- A view is the shard, or has another length. -/
  view : ∀ i b, views[i]? = some (some b) →
    b = slotShard place seg i ∨ b.length ≠ (slotShard place seg i).length
  /-- One attempt per slot. -/
  length_tried : tried.length = m + n
  /-- A view is the shard, unless the slot failed or shards are lost. -/
  kept : ∀ i < n, tried[m + i]? = some false ∨ lost ∨
    views[i]? = some (some (slotShard place seg i))

variable {place : Placement} {seg : Bytes} {tried : List Bool} {lost lost' : Prop} {m n : ℕ}
  {views : List (Option Bytes)}

theorem Gathers.start : Gathers place seg tried lost tried.length 0 [] :=
  ⟨rfl, by simp, rfl, fun i hi => absurd hi (Nat.not_lt_zero i)⟩

theorem Gathers.mono (h : Gathers place seg tried lost m n views) (hlost : lost → lost') :
    Gathers place seg tried lost' m n views :=
  { h with kept := fun i hi => (h.kept i hi).imp_right (Or.imp_left hlost) }

/-- **An attempt at slot `n + 1`**, and the view it gives. -/
theorem Gathers.snoc (h : Gathers place seg tried lost m n views) {ok : Bool} {v : Option Bytes}
    (hview : ∀ b, v = some b →
      b = slotShard place seg n ∨ b.length ≠ (slotShard place seg n).length)
    (hkept : ok = false ∨ lost ∨ v = some (slotShard place seg n)) :
    Gathers place seg (tried ++ [ok]) lost m (n + 1) (views ++ [v]) := by
  have hold : ∀ i < n, (views ++ [v])[i]? = views[i]? := fun i hi =>
    List.getElem?_append_left (h.length ▸ hi)
  have hnew : (views ++ [v])[n]? = some v := by rw [← h.length, List.getElem?_concat_length]
  refine ⟨by simp [h.length], ?_, by simp [h.length_tried, Nat.add_assoc], ?_⟩
  · intro i b hb
    rcases Nat.lt_trichotomy i n with hi | rfl | hi
    · exact h.view i b (hold i hi ▸ hb)
    · exact hview b (Option.some.inj (hnew.symm.trans hb))
    · rw [List.getElem?_eq_none (by rw [List.length_append, h.length]; exact hi)] at hb
      cases hb
  · intro i hi
    rcases Nat.lt_succ_iff_lt_or_eq.mp hi with hlt | rfl
    · rw [hold i hlt]
      refine (h.kept i hlt).imp_left fun hfailed => ?_
      rw [List.getElem?_append_left (List.getElem?_eq_some_iff.mp hfailed).1, hfailed]
    · rw [hnew, ← h.length_tried, List.getElem?_concat_length, Option.some.injEq, Option.some.injEq]
      exact hkept

/-- The views of a group are what the decoder asks for. -/
theorem Gathers.isView (h : Gathers place seg tried lost m place.total views) :
    IsView place.config.profile seg views :=
  ⟨h.length, h.view⟩

/-- With enough slots readable, enough views carry their shard. -/
theorem Gathers.le_present (h : Gathers place seg tried lost m place.total views)
    (hlost : ¬lost) (hread : ReadableAt tried place m) :
    place.config.profile.data ≤ (Layout.present place.config.profile seg views).length := by
  rw [Layout.present, ← List.countP_eq_length_filter]
  refine hread.trans (List.countP_mono_left fun i hi hok => ?_)
  have hview := ((h.kept i (List.mem_range.mp hi)).resolve_left
    (of_decide_eq_true hok)).resolve_left hlost
  rw [decide_eq_true_eq, Carries, List.getD_eq_getElem?_getD, hview]
  rfl

end Gathers

section Get

variable {gw : Gateway} {req : Tid → Request} {t : Tid} {w w' : World} {key : KeyName}

theorem placeOf_of_guar {u : Tid} (hG : Guar req u w w') (g : GroupId) (p : Placement)
    (h : w.placeOf g = some p) : w'.placeOf g = some p := by
  obtain ⟨a, ha, rfl⟩ := Option.map_eq_some_iff.mp h
  exact World.placeOf_eq (hG.alloc _ _ ha)

theorem readableGroups_of_guar {u : Tid} (hG : Guar req u w w') {locs : List KeyLocation} {m : ℕ}
    (h : ReadableGroups w'.placeOf (attempts t w'.log) m locs) :
    ReadableGroups w.placeOf (attempts t w.log) m locs := by
  obtain ⟨e, hlog, -⟩ := hG.log
  rw [hlog, attempts_append] at h
  exact h.of_append (placeOf_of_guar hG)

theorem attempt?_dial {ep err : String} {served : Bool} :
    (Event.answer t (.dial ep) (.error err) served).attempt? t = some false := if_pos rfl

theorem attempt?_readChunk {ep : String} {b : BlockId} {chunk : ChunkInfo} {verify served : Bool}
    {r : gatewayCalls.Res (.readChunk ep b chunk verify)} :
    (Event.answer t (.readChunk ep b chunk verify) r served).attempt? t = some served := if_pos rfl

/-- The attempts of a call are its own. -/
theorem attempt?_of_ne {e : Event} (h : e.tid ≠ t) : e.attempt? t = none := by
  cases e with
  | start u => rfl
  | answer u op r served =>
    have hne : u ≠ t := h
    cases op with
    | dial ep =>
      cases r with
      | error err => exact if_neg hne
      | ok _ => rfl
    | readChunk ep b chunk verify => exact if_neg hne
    | _ => rfl

theorem attempts_of_ne {log : List Event} {e : Event} (h : e.tid ≠ t) :
    attempts t (log ++ [e]) = attempts t log := by
  simp [attempts, attempt?_of_ne h]

/-! ### What a get keeps -/

/-- A lookup that was served: the answer, the last commit before it and the put that made
this commit. -/
structure Lookup (gw : Gateway) (req : Tid → Request) (t : Tid) (key : KeyName) where
  /-- The log before it. -/
  before : List Event
  /-- The answer. -/
  r : gatewayCalls.Res (.getKeyInfo key)
  /-- The put that committed last. -/
  u : Tid
  /-- The locations it committed. -/
  locs : List KeyLocation
  /-- It is the last commit. -/
  last : lastCommit before key = some (u, key, locs)
  /-- The body. -/
  body : Buffer
  /-- The metadata. -/
  metadata : List (String × String)
  /-- The tags. -/
  tags : List (String × String)
  /-- The put is on this key. -/
  put : req u = .put key body metadata tags
  /-- One location per segment. -/
  length_eq : locs.length = (Blocks.chunks gw.blockGroupSize body.bytes).length

namespace Lookup

/-- The locations with their segments. -/
def pairs (L : Lookup gw req t key) : List (KeyLocation × Bytes) :=
  L.locs.zip (Blocks.chunks gw.blockGroupSize L.body.bytes)

/-- The lookup is in the log. -/
def Logged (L : Lookup gw req t key) (w : World) : Prop :=
  ∃ after, w.log = L.before ++ .answer t (.getKeyInfo key) L.r true :: after

variable {L : Lookup gw req t key}

theorem Logged.append (h : L.Logged w) {e : Event} (hlog : w'.log = w.log ++ [e]) :
    L.Logged w' := by
  obtain ⟨after, h⟩ := h
  exact ⟨after ++ [e], by rw [hlog, h]; simp⟩

theorem Logged.mem_commits (h : L.Logged w) : (L.u, key, L.locs) ∈ commits w.log := by
  obtain ⟨after, h⟩ := h
  have hmem := List.mem_of_getLast? L.last
  rw [h, commits_append]
  exact List.mem_append_left _ (List.mem_of_mem_filter hmem)

/-- The invariant goes on describing the groups that were looked up. -/
theorem Logged.sealed (h : L.Logged w) (hI : Inv gw req w) {loc : KeyLocation} {seg : Bytes}
    (hmem : (loc, seg) ∈ L.pairs) : ∃ a, SealedGroup req w L.u key a loc seg := by
  obtain ⟨body, metadata, tags, hreq, -, hall⟩ := hI.sealed _ _ _ h.mem_commits
  obtain ⟨rfl, rfl, rfl⟩ : L.body = body ∧ L.metadata = metadata ∧ L.tags = tags := by
    have heq := L.put.symm.trans hreq
    simpa using heq
  exact List.forall₂_zip hall hmem

end Lookup

/-- A block as the lookup gave it: its group, its members and its length. -/
structure ReadsAs (w : World) (a : Alloc) (block : BlockLocation) (loc : KeyLocation)
    (seg : Bytes) : Prop where
  /-- The group is allocated. -/
  alloc : w.alloc loc.group = some a
  /-- The block names the group. -/
  group : block.group = loc.group
  /-- With this configuration. -/
  ec : block.ec = a.place.config
  /-- And these members. -/
  members : block.members.Perm a.place.slotList
  /-- The length is that of the segment. -/
  length : block.length.toNat = seg.length

/-! ### One slot -/

/-- The state of a get that has read the first `n` slots of a group, and `m` slots before. -/
structure Gathering (L : Lookup gw req t key) (a : Alloc) (block : BlockLocation)
    (loc : KeyLocation) (seg : Bytes) (m n : ℕ) (views : List (Option Bytes)) (w : World) :
    Prop where
  /-- The lookup is in the log. -/
  logged : L.Logged w
  /-- The group is one of the lookup's. -/
  pair : (loc, seg) ∈ L.pairs
  /-- The block is the one looked up. -/
  reads : ReadsAs w a block loc seg
  /-- The views; shards are lost if the key is being deleted. -/
  gathers : Gathers a.place seg (attempts t w.log) (DeleteStarted req w.log key) m n views

variable {L : Lookup gw req t key} {a : Alloc} {block : BlockLocation} {loc : KeyLocation}
  {seg : Bytes} {m n : ℕ} {views : List (Option Bytes)}

/-- An event that is no attempt changes nothing. -/
theorem Gathering.mono (h : Gathering L a block loc seg m n views w) {e : Event}
    (hlog : w'.log = w.log ++ [e]) (hattempt : e.attempt? t = none)
    (halloc : ∀ g a, w.alloc g = some a → w'.alloc g = some a) :
    Gathering L a block loc seg m n views w' where
  logged := h.logged.append hlog
  pair := h.pair
  reads := { h.reads with alloc := halloc _ _ h.reads.alloc }
  gathers := by
    rw [hlog, attempts_append, attempts_singleton, hattempt, Option.toList_none, List.append_nil]
    exact h.gathers.mono (·.append _)

theorem Gathering.stable : (rg gw req).Stable t (Gathering L a block loc seg m n views) := by
  rintro w w' ⟨-, -, u, hu, hG⟩ h
  obtain ⟨e, hlog, he⟩ := hG.log
  exact h.mono hlog (attempt?_of_ne (he.trans_ne hu)) hG.alloc

/-- **An attempt at slot `n + 1`**, and the view it gives. -/
theorem Gathering.snoc (h : Gathering L a block loc seg m n views w) {e : Event} {ok : Bool}
    (hattempt : e.attempt? t = some ok) {v : Option Bytes}
    (hview : ∀ b, v = some b →
      b = slotShard a.place seg n ∨ b.length ≠ (slotShard a.place seg n).length)
    (hkept : ok = false ∨ DeleteStarted req w.log key ∨ v = some (slotShard a.place seg n)) :
    Gathering L a block loc seg m (n + 1) (views ++ [v]) (w.logged e) where
  logged := h.logged.append rfl
  pair := h.pair
  reads := { h.reads with }
  gathers := by
    show Gathers _ _ (attempts t (w.log ++ [e])) _ _ _ _
    rw [attempts_append, attempts_singleton, hattempt]
    exact (h.gathers.snoc hview hkept).mono (·.append _)

/-- **One slot is read.** It never fails: what cannot be read stays absent. -/
theorem readSlot_safe {β : Type} {Q : Outcome GatewayError β → World → Prop}
    (hn : n < a.place.total) (hw : Gathering L a block loc seg m n views w) :
    (rg gw req).Safe t
      (through (fun v => Gathering L a block loc seg m (n + 1) (views ++ [v])) Q)
      (Gateway.readSlot block (n + 1)) w := by
  have hslot : (⟨block.containerId, block.localId, UInt8.ofNat (n + 1)⟩ : BlockId) =
      slotOf loc.group (UInt8.ofNat (n + 1)) := by rw [← hw.reads.group]; rfl
  unfold Gateway.readSlot
  rw [endpointForSlot_eq hw.reads.members hn]
  refine safe_quiet (fun _ _ _ _ h => ⟨h, rfl⟩) _ Gathering.stable hw fun w r served hw _ => ?_
  rcases r with err | _
  · exact hw.snoc attempt?_dial (by simp) (.inl rfl)
  have hdialled : Gathering L a block loc seg m n views (w.logged (.answer t
      (.dial (a.place.endpoint (UInt8.ofNat (n + 1)))) (.ok ()) served)) :=
    hw.mono rfl rfl fun _ _ h => h
  dsimp only
  rw [hslot]
  refine Safe.call _ Gathering.stable hdialled fun w₁ hw₁ hI r w₂ hans => ?_
  obtain ⟨served, w', hans, rfl⟩ := hans
  obtain ⟨a', ha'⟩ := hw₁.logged.sealed hI hw₁.pair
  obtain rfl : a = a' := Option.some.inj (hw₁.reads.alloc.symm.trans ha'.alloc)
  have hshard := ha'.shard n hn
  have hheld := ha'.held n hn
  have hread := Cell.read_eq (ha'.sound hn) true
  unfold slotCell at hshard hheld hread
  cases served with
  | false =>
    obtain ⟨rfl, ⟨err, rfl⟩ | ⟨data, stored, rfl, hstored, hne⟩⟩ := hans
    · exact and_assoc.mp ⟨hI.logged rfl rfl, hw₁.snoc attempt?_readChunk (by simp) (.inl rfl)⟩
    · -- what is stored is the shard, so the bytes are not of its length
      rw [hstored] at hshard
      obtain rfl : stored = slotShard a.place seg n := by simpa using hshard
      refine and_assoc.mp ⟨hI.logged rfl rfl, hw₁.snoc attempt?_readChunk ?_ (.inl rfl)⟩
      rintro b ⟨⟩
      exact .inr hne
  | true =>
    obtain ⟨rfl, hr⟩ := hans
    refine and_assoc.mp ⟨hI.logged rfl rfl, ?_⟩
    rw [hread] at hr
    split at hr
    case h_1 data hcell =>
      subst hr
      rw [hcell] at hshard
      obtain rfl : data = slotShard a.place seg n := by simpa using hshard
      refine hw₁.snoc attempt?_readChunk ?_ (.inr (.inr rfl))
      rintro b ⟨⟩
      exact .inl rfl
    case h_2 hcell =>
      obtain ⟨err, rfl⟩ := hr
      refine hw₁.snoc attempt?_readChunk (by simp) (.inr (.inl ?_))
      rcases hheld with hd | hheld
      · exact hd
      · rw [hheld] at hcell
        cases hcell

/-! ### One group -/

/-- **One group is read**: its segment, or an error that enough readable slots exclude. -/
theorem readBlockGroup_safe (hisal : gw.isal.Correct) (hseg : seg.length ≤ maxLen)
    (hw : Gathering L a block loc seg m 0 [] w) :
    (rg gw req).Safe t
      (fun o w => (∃ views, Gathering L a block loc seg m a.place.total views w) ∧ (o = .ok seg ∨
        (∀ bytes, o ≠ .ok bytes) ∧
          (DeleteStarted req w.log key ∨ ¬ReadableAt (attempts t w.log) a.place m)))
      (gw.readBlockGroup block) w := by
  have htotal : block.ec.profile.total = .ok a.place.total := by
    have hle := a.place.total_le
    unfold Placement.total at hle
    rw [hw.reads.ec]
    exact Outcome.add_eq (by simp only [EcReplicationConfig.profile]; omega)
  unfold Gateway.readBlockGroup
  dsimp only
  rw [htotal, Outcome.mapErr_ok, Prog.lift_ok_bind, hw.reads.ec, hw.reads.length]
  refine Safe.bind (I := fun views => Gathering L a block loc seg m a.place.total views) ?_ ?_
  · intro views w hw
    rw [decodeObject_eq hisal a.place.valid hseg hw.gathers.isView]
    refine ⟨⟨views, hw⟩, ?_⟩
    split
    case isTrue => exact .inl rfl
    case isFalse hlt =>
      refine .inr ⟨by rintro _ ⟨⟩, ?_⟩
      by_contra hnot
      rw [not_or, not_not] at hnot
      exact hlt (hw.gathers.le_present hnot.1 hnot.2)
  · refine Safe.foldlM_count (fun n views => Gathering L a block loc seg m n views) ?_ ?_ hw
    · intro n hn views w hw
      refine Safe.bind (I := fun v => Gathering L a block loc seg m (n + 1) (views ++ [v]))
        ?_ (readSlot_safe hn hw)
      exact fun v w hw => hw
    · exact fun _ _ hw => hw

/-! ### The lookup -/

theorem exists_blocks {locs committed : List KeyLocation}
    (hlooks : List.Forall₂ (LooksUp w) locs committed) :
    ∀ {segs : List Bytes},
      List.Forall₂ (fun loc seg => ∃ a, LocatedGroup w a loc seg) committed segs →
      ∃ blocks, locs.mapM keyLocationToBlock = .ok blocks ∧
        List.Forall₂ (fun block p => ∃ a, ReadsAs w a block p.1 p.2) blocks
          (committed.zip segs) := by
  induction hlooks with
  | nil =>
    intro segs hall
    cases hall
    exact ⟨[], rfl, .nil⟩
  | @cons loc com locs committed hloc _ ih =>
    rintro _ (_ | ⟨⟨a, hgroup⟩, hall⟩)
    obtain ⟨a', ha', hpresents⟩ := hloc.presents
    obtain rfl : a = a' := Option.some.inj (hgroup.alloc.symm.trans ha')
    obtain ⟨block, hblock, hread⟩ := keyLocationToBlock_presents hpresents
      (hloc.containerId ▸ hgroup.containerId) (hloc.localId ▸ hgroup.localId)
    have hblockGroup : block.group = com.group := by
      rw [hread.group, KeyLocation.group, KeyLocation.group, hloc.containerId, hloc.localId]
    obtain ⟨blocks, hblocks, hreads⟩ := ih hall
    refine ⟨block :: blocks, ?_, .cons ⟨a, ?_⟩ hreads⟩
    · rw [List.mapM_cons, hblock, Outcome.ok_bind, hblocks]
      rfl
    · exact ⟨hgroup.alloc, hblockGroup, hread.ec, hread.members,
        by rw [hread.length, hloc.length]; exact hgroup.length⟩

/-- **A lookup that finds the key** gives the groups of the last commit. -/
theorem exists_lookup (hI : Inv gw req w) {rec : KeyRecord} (hkey : w.keys key = some rec)
    {info : KeyInfo} (hlooks : List.Forall₂ (LooksUp w) (info.keyLocationList.getLast?.getD [])
      rec.locations) :
    ∃ L : Lookup gw req t key, L.before = w.log ∧ L.r = .ok (some info) ∧
      ∃ blocks, blocksOfKeyInfo info = .ok blocks ∧
        List.Forall₂ (fun block p => ∃ a, ReadsAs w a block p.1 p.2) blocks L.pairs := by
  obtain ⟨u, hlast⟩ := hI.current key rec hkey
  have hmem : (u, key, rec.locations) ∈ commits w.log :=
    List.mem_of_mem_filter (List.mem_of_getLast? hlast)
  obtain ⟨body, metadata, tags, hreq, -, hall⟩ := hI.sealed u key _ hmem
  obtain ⟨blocks, hblocks, hreads⟩ := exists_blocks hlooks
    (hall.imp fun _ _ ⟨a, ha⟩ => ⟨a, ha.located⟩)
  refine ⟨⟨w.log, .ok (some info), u, rec.locations, hlast, body, metadata, tags, hreq,
    hall.length_eq⟩, rfl, rfl, blocks, ?_, hreads⟩
  rw [blocksOfKeyInfo_eq, hblocks]

/-! ### The object -/

/-- **What a get that has ended shows**: the body of the put whose commit was the last before
its lookup, and no failure unless the lookup failed, the key's deletion has started or some
group was not readable. -/
def GetsLastCommit (req : Tid → Request) (t : Tid) (key : KeyName)
    (o : Outcome GatewayError Gateway.GetReply) (w : World) : Prop :=
  ∃ before r served after, w.log = before ++ .answer t (.getKeyInfo key) r served :: after ∧
    (∀ reply, o = .ok reply → ∃ u locs body metadata tags,
      lastCommit before key = some (u, key, locs) ∧ req u = .put key body metadata tags ∧
        reply.body = body.bytes) ∧
    (served = true → ∀ u locs, lastCommit before key = some (u, key, locs) →
      ¬DeleteStarted req w.log key → ReadableGroups w.placeOf (attempts t w.log) 0 locs →
        ∃ reply, o = .ok reply)

theorem GetsLastCommit.stable (o : Outcome GatewayError Gateway.GetReply) :
    (rg gw req).Stable t (GetsLastCommit req t key o) := by
  rintro w w' ⟨-, -, u, hu, hG⟩ ⟨before, r, served, after, hlog, hbody, hok⟩
  obtain ⟨e, hlog', -⟩ := hG.log
  refine ⟨before, r, served, after ++ [e], by rw [hlog', hlog]; simp, hbody, ?_⟩
  intro hserved v locs hlast hd hread
  exact hok hserved v locs hlast (fun hd' => hd (hlog' ▸ hd'.append _))
    (readableGroups_of_guar hG hread)

theorem ReadsAs.of_guar {u : Tid} (hG : Guar req u w w') (h : ReadsAs w a block loc seg) :
    ReadsAs w' a block loc seg :=
  { h with alloc := hG.alloc _ _ h.alloc }

theorem Lookup.length_le_of_mem (hpair : (loc, seg) ∈ L.pairs) : seg.length ≤ maxLen :=
  (Blocks.length_le_of_mem_chunks (List.of_mem_zip hpair).2).trans L.body.length_le

/-- The segments of the groups are the body. -/
theorem Lookup.flatten_pairs (L : Lookup gw req t key) :
    (L.pairs.map Prod.snd).flatten = L.body.bytes := by
  rw [pairs, List.map_snd_zip L.length_eq.ge, Blocks.flatten_chunks gw.blockGroupSize_pos]

/-- A group of an object that was looked up, with its segment. -/
structure Item (gw : Gateway) (req : Tid → Request) (t : Tid) where
  /-- The object. -/
  key : KeyName
  /-- Its lookup. -/
  lookup : Lookup gw req t key
  /-- The group. -/
  loc : KeyLocation
  /-- The segment. -/
  seg : Bytes
  /-- It is one of the object's. -/
  pair : (loc, seg) ∈ lookup.pairs

/-- The blocks are those of the items. -/
def ReadsItems (blocks : List BlockLocation) (items : List (Item gw req t)) (w : World) : Prop :=
  List.Forall₂ (fun block x => ∃ a, ReadsAs w a block x.loc x.seg) blocks items ∧
    ∀ x ∈ items, x.lookup.Logged w

theorem ReadsItems.of_guar {u : Tid} {blocks : List BlockLocation} {items : List (Item gw req t)}
    (hG : Guar req u w w') (h : ReadsItems blocks items w) : ReadsItems blocks items w' := by
  obtain ⟨e, hlog, -⟩ := hG.log
  exact ⟨h.1.imp fun _ _ ⟨a, ha⟩ => ⟨a, ha.of_guar hG⟩, fun x hx => (h.2 x hx).append hlog⟩

/-- A get of some items that fails, and why. -/
def Fails (items : List (Item gw req t)) (w : World) : Prop :=
  (∃ x ∈ items, DeleteStarted req w.log x.key) ∨
    ¬ReadableGroups w.placeOf (attempts t w.log) 0 (items.map Item.loc)

/-- **The items are read**, one after the other. -/
theorem readItems_safe (hisal : gw.isal.Correct) {blocks : List BlockLocation}
    {items : List (Item gw req t)} (hw : ReadsItems blocks items w)
    (hnone : attempts t w.log = []) :
    (rg gw req).Safe t (fun o w => o = .ok (items.map Item.seg).flatten ∨
        (∀ bytes, o ≠ .ok bytes) ∧ Fails items w)
      (gw.readBlocks blocks) w := by
  have hspans : Spans w.placeOf (List.map Item.loc ([] : List (Item gw req t)))
      (attempts t w.log).length := congrArg List.length hnone
  refine Safe.foldlM (fun rest out w => ∃ old new, items = old ++ new ∧
    out = (old.map Item.seg).flatten ∧
    Spans w.placeOf (old.map Item.loc) (attempts t w.log).length ∧ ReadsItems rest new w) ?_ ?_
    ⟨[], items, rfl, rfl, hspans, hw⟩
  · rintro block rest out w ⟨old, _, rfl, rfl, hspans, hreads, hlogged⟩
    rcases hreads with _ | @⟨_, x, _, new, ⟨a, ha⟩, hrest⟩
    have hstart : Gathering x.lookup a block x.loc x.seg (attempts t w.log).length 0 [] w :=
      ⟨hlogged x List.mem_cons_self, x.pair, ha, .start⟩
    refine Safe.bind (I := fun bytes w => (Spans w.placeOf ((old ++ [x]).map Item.loc)
      (attempts t w.log).length ∧ ReadsItems rest new w) ∧ bytes = x.seg) ?_ ?_
    · rintro bytes w ⟨hw, rfl⟩
      exact ⟨old ++ [x], new, by simp, by simp, hw⟩
    -- the other groups are not touched by the reads of this one
    have hothers {u : Tid} {w₁ w₂ : World} (hG : Guar req u w₁ w₂)
        (h : Spans w₁.placeOf (old.map Item.loc) (attempts t w.log).length ∧
          ReadsItems rest new w₁) :
        Spans w₂.placeOf (old.map Item.loc) (attempts t w.log).length ∧ ReadsItems rest new w₂ :=
      ⟨h.1.mono (placeOf_of_guar hG), h.2.of_guar hG⟩
    refine Safe.mono ?_ (Safe.frame (fun _ _ _ => hothers)
      ⟨hspans, hrest, fun y hy => hlogged y (List.mem_cons_of_mem x hy)⟩
      (readBlockGroup_safe hisal (x.lookup.length_le_of_mem x.pair) hstart))
    rintro o w₁ ⟨⟨⟨views, hgathered⟩, rfl | ⟨hne, hwhy⟩⟩, hspans, hrest⟩
    · refine ⟨⟨?_, hrest⟩, rfl⟩
      rw [hgathered.gathers.length_tried, List.map_append]
      exact hspans.snoc (World.placeOf_eq hgathered.reads.alloc)
    · have hfails : Fails (old ++ x :: new) w₁ := by
        refine hwhy.imp (fun hd => ⟨x, by simp, hd⟩) fun hnot hall => hnot ?_
        rw [List.map_append] at hall
        have hat := ReadableGroups.at (World.placeOf_eq hgathered.reads.alloc) hall hspans
        rwa [Nat.zero_add] at hat
      cases o with
      | ok bytes => exact absurd rfl (hne bytes)
      | err e => exact .inr ⟨by rintro _ ⟨⟩, hfails⟩
      | panic => exact .inr ⟨by rintro _ ⟨⟩, hfails⟩
  · rintro out w ⟨old, _, rfl, rfl, -, ⟨⟩, -⟩
    exact .inl (by simp)

/-- The groups of one object. -/
def Lookup.items (L : Lookup gw req t key) : List (Item gw req t) :=
  L.pairs.attach.map fun p => ⟨key, L, p.1.1, p.1.2, p.2⟩

theorem Lookup.map_loc_items (L : Lookup gw req t key) : L.items.map Item.loc = L.locs := by
  have h : L.items.map Item.loc = L.pairs.attach.map fun x => x.1.1 := by simp [items]
  rw [h, List.attach_map_val, pairs, List.map_fst_zip L.length_eq.le]

theorem Lookup.flatten_seg_items (L : Lookup gw req t key) :
    (L.items.map Item.seg).flatten = L.body.bytes := by
  have h : L.items.map Item.seg = L.pairs.attach.map fun x => x.1.2 := by simp [items]
  rw [h, List.attach_map_val, L.flatten_pairs]

theorem Lookup.Logged.readsItems (h : L.Logged w) {blocks : List BlockLocation}
    (hreads : List.Forall₂ (fun block p => ∃ a, ReadsAs w a block p.1 p.2) blocks L.pairs) :
    ReadsItems blocks L.items w := by
  refine ⟨List.forall₂_map_right_iff.mpr ?_, fun x hx => ?_⟩
  · rwa [← List.attach_map_subtype_val L.pairs, List.forall₂_map_right_iff] at hreads
  · obtain ⟨p, -, rfl⟩ := List.mem_map.mp hx
    exact h

/-- A get that fails after its lookup, with a group that was not readable. -/
theorem Lookup.Logged.getsLastCommit_of_fails (h : L.Logged w)
    {o : Outcome GatewayError Gateway.GetReply} (ho : ∀ reply, o ≠ .ok reply)
    (hfails : Fails L.items w) : GetsLastCommit req t key o w := by
  obtain ⟨after, hlog⟩ := h
  refine ⟨L.before, L.r, true, after, hlog, fun reply h => absurd h (ho reply), ?_⟩
  intro _ u locs hlast hd hread
  obtain ⟨rfl, rfl⟩ : L.u = u ∧ L.locs = locs := by simpa using L.last.symm.trans hlast
  rcases hfails with ⟨x, hx, hdx⟩ | hnot
  · obtain ⟨p, -, rfl⟩ := List.mem_map.mp hx
    exact absurd hdx hd
  · exact absurd (L.map_loc_items.symm ▸ hread) hnot

/-- A get that fails because its lookup did not find the key. -/
theorem getsLastCommit_of_lookup {r : gatewayCalls.Res (.getKeyInfo key)} {served : Bool}
    (hI : Inv gw req w) (hnone : served = true → w.keys key = none)
    {o : Outcome GatewayError Gateway.GetReply} (ho : ∀ reply, o ≠ .ok reply) :
    GetsLastCommit req t key o (w.logged (.answer t (.getKeyInfo key) r served)) := by
  refine ⟨w.log, r, served, [], rfl, fun reply h => absurd h (ho reply), ?_⟩
  intro hserved u locs hlast hd
  rcases hI.kept key _ hlast with hd' | ⟨rec, hrec⟩
  · exact absurd (hd'.append _) hd
  · rw [hnone hserved] at hrec
    cases hrec

/-- A call that has gone to no slot is not sent to one by others. -/
theorem unattempted_stable : (rg gw req).Stable t fun w => attempts t w.log = [] := by
  rintro w w' ⟨-, -, u, hu, hG⟩ h
  obtain ⟨e, hlog, he⟩ := hG.log
  rw [hlog, attempts_of_ne (he.trans_ne hu), h]

/-- **`get_object` among other calls.** -/
theorem getObject_safe (hisal : gw.isal.Correct) (hw : attempts t w.log = []) :
    (rg gw req).Safe t (GetsLastCommit req t key) (gw.getObject key) w := by
  unfold Gateway.getObject OmClient.getKeyInfo
  refine Safe.call _ unattempted_stable hw fun w₁ hw₁ hI r w₂ hans => ?_
  obtain ⟨served, w', hans, rfl⟩ := hans
  cases served with
  | false =>
    obtain ⟨rfl, ⟨err, rfl⟩ | rfl⟩ := hans
    · exact and_assoc.mp ⟨hI.logged rfl rfl,
        getsLastCommit_of_lookup hI (by simp) (by rintro _ ⟨⟩)⟩
    · exact and_assoc.mp ⟨hI.logged rfl rfl,
        getsLastCommit_of_lookup hI (by simp) (by rintro _ ⟨⟩)⟩
  | true =>
    obtain ⟨rfl, hr⟩ := hans
    refine and_assoc.mp ⟨hI.logged rfl rfl, ?_⟩
    split at hr
    case h_1 hnone =>
      subst hr
      exact getsLastCommit_of_lookup hI (fun _ => hnone) (by rintro _ ⟨⟩)
    case h_2 rec hrec =>
      obtain ⟨info, rfl, -, -, hlooks⟩ := hr
      obtain ⟨L, hbefore, hr, blocks, hblocks, hreads⟩ := exists_lookup (t := t) hI hrec hlooks
      have hlogged : L.Logged
          (w'.logged (.answer t (.getKeyInfo key) (.ok (some info)) true)) :=
        ⟨[], by rw [hbefore, hr]; rfl⟩
      have hnone : attempts t
          (w'.log ++ [.answer t (.getKeyInfo key) (.ok (some info)) true]) = [] := by
        rw [attempts_append, hw₁]
        rfl
      have hread := (readItems_safe hisal (hlogged.readsItems
        (hreads.imp fun _ _ ⟨a, ha⟩ => ⟨a, { ha with }⟩)) hnone).frame
        (fun _ _ _ hG h => h.append hG.log.choose_spec.1) hlogged
      show (rg gw req).Safe t _ (((Prog.lift (blocksOfKeyInfo info) >>= _ : OmM KeyMeta).mapErr
        GatewayError.ofOm) >>= _) _
      rw [hblocks]
      refine Safe.bind (I := fun out w => out = L.body.bytes ∧ L.Logged w) ?_ (hread.mono ?_)
      · rintro out w ⟨rfl, after, hlog⟩
        refine ⟨L.before, L.r, true, after, hlog, ?_, fun _ _ _ _ _ _ => ⟨_, rfl⟩⟩
        rintro _ ⟨⟩
        exact ⟨L.u, L.locs, L.body, L.metadata, L.tags, L.last, L.put, rfl⟩
      · rintro o w ⟨rfl | ⟨hne, hfails⟩, hlogged⟩
        · exact ⟨L.flatten_seg_items, hlogged⟩
        · cases o with
          | ok bytes => exact absurd rfl (hne bytes)
          | err e => exact hlogged.getsLastCommit_of_fails (by rintro _ ⟨⟩) hfails
          | panic => exact hlogged.getsLastCommit_of_fails (by rintro _ ⟨⟩) hfails

/-! ### Deleting -/

/-- The state of a delete with a block it has looked up. -/
structure Deleting (L : Lookup gw req t key) (block : BlockLocation) (w : World) : Prop where
  /-- The lookup is in the log. -/
  logged : L.Logged w
  /-- The deletion of the key has started. -/
  started : DeleteStarted req w.log key
  /-- The block is one of the commit. -/
  owned : ∃ a, w.alloc block.group = some a ∧ a.owner = L.u

theorem deleteStarted_of_guar {u : Tid} (hG : Guar req u w w') (h : DeleteStarted req w.log key) :
    DeleteStarted req w'.log key := by
  obtain ⟨e, hlog, -⟩ := hG.log
  exact hlog ▸ h.append _

theorem deleteStarted_stable : (rg gw req).Stable t fun w => DeleteStarted req w.log key :=
  fun _ _ ⟨_, _, _, _, hG⟩ h => deleteStarted_of_guar hG h

theorem Deleting.of_guar {u : Tid} (hG : Guar req u w w') (h : Deleting L block w) :
    Deleting L block w' := by
  obtain ⟨e, hlog, -⟩ := hG.log
  obtain ⟨a, ha, howner⟩ := h.owned
  exact ⟨h.logged.append hlog, deleteStarted_of_guar hG h.started, a, hG.alloc _ _ ha, howner⟩

theorem Deleting.stable : (rg gw req).Stable t (Deleting L block) :=
  fun _ _ ⟨_, _, _, _, hG⟩ h => h.of_guar hG

/-- **One slot is deleted**, or not. -/
theorem deleteSlot_safe (slot : ℕ) (hw : Deleting L block w) :
    (rg gw req).Safe t (ends fun _ => Deleting L block) (Gateway.deleteSlot block slot) w := by
  unfold Gateway.deleteSlot
  cases endpointForSlot block (UInt8.ofNat slot) with
  | error e => exact hw
  | ok ep =>
    refine safe_quiet (fun _ _ _ _ h => ⟨h, rfl⟩) _ Deleting.stable hw fun w r served hw _ => ?_
    have hdialled : Deleting L block (w.logged (.answer t (.dial ep) r served)) :=
      hw.of_guar (Guar.logged (by rfl))
    rcases r with err | _
    · exact hdialled
    refine Safe.call _ Deleting.stable hdialled fun w₁ hw₁ hI r w₂ hans => ?_
    obtain ⟨served, w', ⟨c, rfl, hred⟩, rfl⟩ := hans
    obtain ⟨a, ha, howner⟩ := hw₁.owned
    have hstep := hI.reduceCell (b := ⟨block.containerId, block.localId, UInt8.ofNat slot⟩)
      (e := .answer t (.deleteBlock ep _) r served) rfl rfl ha
      (howner ▸ hw₁.logged.mem_commits) hw₁.started hred
    exact and_assoc.mp ⟨hstep, hw₁.of_guar hstep.2⟩

/-- The state of a delete with blocks of several objects. -/
def DeletingItems (gw : Gateway) (req : Tid → Request) (t : Tid) (blocks : List BlockLocation)
    (w : World) : Prop :=
  ∀ block ∈ blocks, ∃ key, ∃ L : Lookup gw req t key, Deleting L block w

theorem DeletingItems.of_guar {u : Tid} {blocks : List BlockLocation} (hG : Guar req u w w')
    (h : DeletingItems gw req t blocks w) : DeletingItems gw req t blocks w' := by
  intro block hb
  obtain ⟨key, L, hL⟩ := h block hb
  exact ⟨key, L, hL.of_guar hG⟩

theorem deleteItem_safe {blocks : List BlockLocation} {block : BlockLocation} (hb : block ∈ blocks)
    (slot : ℕ) (hw : DeletingItems gw req t blocks w) :
    (rg gw req).Safe t (ends fun _ => DeletingItems gw req t blocks)
      (Gateway.deleteSlot block slot) w := by
  obtain ⟨key, L, hL⟩ := hw block hb
  refine Safe.mono ?_ (Safe.frame (fun _ _ _ hG h => h.of_guar hG) hw
    (deleteSlot_safe slot hL))
  rintro o w ⟨-, hw⟩
  cases o with
  | ok _ => exact hw
  | err _ => trivial
  | panic => trivial

/-- **The blocks are deleted**, slot by slot. -/
theorem deleteItems_safe {blocks : List BlockLocation} (hw : DeletingItems gw req t blocks w) :
    (rg gw req).Safe t (ends fun _ => DeletingItems gw req t blocks)
      (Gateway.deleteBlocks blocks) w := by
  refine Safe.foldlM (fun rest _ w => rest ⊆ blocks ∧ DeletingItems gw req t blocks w) ?_
    (fun _ _ hw => hw.2) ⟨List.Subset.refl _, hw⟩
  rintro block rest _ w ⟨hsub, hw⟩
  rw [List.cons_subset] at hsub
  refine Safe.bind (I := fun _ => DeletingItems gw req t blocks) ?_ ?_
  · intro total w hw
    refine Safe.mono ?_ (Safe.foldlM_count (Q := ends fun _ => DeletingItems gw req t blocks)
      (fun _ _ => DeletingItems gw req t blocks) (fun n _ _ w hw =>
        (deleteItem_safe hsub.1 (n + 1) hw).mono fun _ _ => through_of_ends)
      (fun _ _ hw => hw) hw)
    intro o w ho
    cases o with
    | ok _ => exact ⟨hsub.2, ho⟩
    | err _ => trivial
    | panic => trivial
  · unfold Gateway.deleteTotal
    split
    · exact hw
    · trivial

theorem deleteKey_safe (hw : DeleteStarted req w.log key) :
    (rg gw req).Safe t (ends fun _ _ => True) (OmClient.deleteKey key) w := by
  refine Safe.call _ deleteStarted_stable hw fun w₁ hw₁ hI r w₂ hans => ?_
  obtain ⟨served, w', hans, rfl⟩ := hans
  cases served with
  | false =>
    obtain ⟨rfl, err, rfl⟩ := hans
    exact and_assoc.mp ⟨hI.logged rfl rfl, trivial⟩
  | true =>
    obtain rfl := hans
    refine and_assoc.mp ⟨hI.removeKey (by rfl) (by rfl) hw₁, ?_⟩
    rcases r with err | _
    · trivial
    · trivial

/-- **`delete_object` among other calls.** -/
theorem deleteObject_safe (hw : DeleteStarted req w.log key) :
    (rg gw req).Safe t (ends fun _ _ => True) (Gateway.deleteObject key) w := by
  have hend : ∀ w, DeleteStarted req w.log key → (rg gw req).Safe t (ends fun _ _ => True)
      ((OmClient.deleteKey key).mapErr GatewayError.ofOm) w :=
    fun w hw => (deleteKey_safe hw).mapErr_ends
  unfold Gateway.deleteObject OmClient.getKeyInfo
  refine Safe.call _ deleteStarted_stable hw fun w₁ hw₁ hI r w₂ hans => ?_
  obtain ⟨served, w', hans, rfl⟩ := hans
  have hlater : DeleteStarted req
      (w₁.log ++ [.answer t (.getKeyInfo key) r served]) key := hw₁.append _
  cases served with
  | false =>
    obtain ⟨rfl, ⟨err, rfl⟩ | rfl⟩ := hans
    · exact and_assoc.mp ⟨hI.logged rfl rfl, hend _ hlater⟩
    · exact and_assoc.mp ⟨hI.logged rfl rfl, hend _ hlater⟩
  | true =>
    obtain ⟨rfl, hr⟩ := hans
    refine and_assoc.mp ⟨hI.logged rfl rfl, ?_⟩
    split at hr
    case h_1 hnone =>
      subst hr
      exact hend _ hlater
    case h_2 rec hrec =>
      obtain ⟨info, rfl, -, -, hlooks⟩ := hr
      obtain ⟨L, hbefore, hr, blocks, hblocks, hreads⟩ := exists_lookup (t := t) hI hrec hlooks
      have hlogged : L.Logged
          (w'.logged (.answer t (.getKeyInfo key) (.ok (some info)) true)) :=
        ⟨[], by rw [hbefore, hr]; rfl⟩
      have hstart : DeletingItems gw req t blocks
          (w'.logged (.answer t (.getKeyInfo key) (.ok (some info)) true)) := by
        refine fun block hb => ⟨key, L, hlogged, hlater, ?_⟩
        obtain ⟨⟨loc, seg⟩, hpair, a, ha⟩ := Lists.exists_of_forall₂ hreads hb
        obtain ⟨a', ha'⟩ := hlogged.sealed (hI.logged rfl rfl).1 hpair
        obtain rfl : a = a' := Option.some.inj (ha.alloc.symm.trans ha'.alloc)
        exact ⟨a, ha.group ▸ ha'.alloc, ha'.owner⟩
      have hdeleted := (deleteItems_safe hstart).frame
        (K := fun w => DeleteStarted req w.log key) (fun _ _ _ => deleteStarted_of_guar) hlater
      show (rg gw req).Safe t _ (((Prog.lift (blocksOfKeyInfo info) >>= _ : OmM KeyMeta).attempt)
        >>= _) _
      rw [hblocks]
      refine Safe.bind (I := fun _ w => DeleteStarted req w.log key) (fun _ w hw => hend w hw)
        (hdeleted.mono fun o w ho => ?_)
      cases o with
      | ok _ => exact ho.2
      | err _ => trivial
      | panic => trivial

end Get

end Consistency

end OzoneRust
