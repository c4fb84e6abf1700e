import Mathlib.Data.Prod.Lex
import OzoneRust.Lib.FiniteMap
import OzoneRust.Storage.Keyspace
import OzoneRust.Storage.Listing

/-!
# The metadata store is two maps

What the metadata store is for, without keys, bytes or order: a map from container ids to
records and a map from block ids to records (`OzoneRust.TwoMaps`). The operations look up,
set and remove, and a listing is the blocks of a container in the numeric order of local id
and slot (`OzoneRust.FjallOp.ideal`).

`OzoneRust.fjall_refines_maps`: every run of the store over its keyspace is a run of the two
maps with the same results. An operation differs from that of the maps only where one of its
own calls on the keyspace failed, or where the codec refuses a record it is about to write;
and an operation that returns an error leaves the whole keyspace as it was.

The steps between are the decoded records (`OzoneRust.FjallOp.refines`), and that the keys
are injective, in order, and a container's blocks are exactly those under its prefix
(`OzoneRust.MetaStore.blockKey_inj`, `OzoneRust.MetaStore.blockKey_lt_blockKey`,
`OzoneRust.MetaStore.isPrefixOf_blockKey`).
-/

namespace OzoneRust

/-! ### The maps -/

/-- The store as two finite maps. -/
@[ext]
structure TwoMaps where
  /-- The containers, by id. -/
  containers : FiniteMap ContainerId StoredContainer
  /-- The blocks, by container, local id and slot. -/
  blocks : FiniteMap BlockId BlockData

namespace TwoMaps

/-- No containers and no blocks. -/
def empty : TwoMaps := ⟨.empty, .empty⟩

/-- The blocks of a container from a local id on, in the order of local id and slot. -/
noncomputable def blocksFrom (a : TwoMaps) (c : ContainerId) (start : UInt64) : List BlockId :=
  a.blocks.keysWhere (fun b => b.container = c ∧ start ≤ b.localId)
    fun b => toLex (b.localId, b.replicaIndex)

end TwoMaps

open MetaStore

/-- What an operation returns and does. -/
noncomputable def FjallOp.ideal (a : TwoMaps) :
    (op : FjallOp) → Except StorageError (op.Val × TwoMaps)
  | .createContainer info =>
    match a.containers.get info.containerId with
    | some _ => .error (.containerExists info.containerId)
    | none => .ok ((), { a with containers := a.containers.set info.containerId ⟨info, 0⟩ })
  | .getContainer id => .ok ((a.containers.get id).map (·.info), a)
  | .setContainerState id state =>
    match a.containers.get id with
    | none => .error (.containerNotFound id)
    | some record =>
      .ok ((), { a with
        containers := a.containers.set id
          { record with info := { record.info with state := state } } })
  | .listContainers =>
    .ok (((a.containers.keysWhere (fun _ => True) id).filterMap a.containers.get).map (·.info), a)
  | .deleteContainer id =>
    .ok ((), ⟨a.containers.erase id, a.blocks.restrict fun b => b.container ≠ id⟩)
  | .putBlock block =>
    match a.containers.get block.blockId.container with
    | none => .error (.containerNotFound block.blockId.container)
    | some record =>
      if !record.info.state.isWritable then
        .error (.containerNotOpen block.blockId.container record.info.state)
      else
        .ok (record.bcsi + 1, ⟨a.containers.set block.blockId.container
          ⟨countPut record.info (a.blocks.get block.blockId) block.len, record.bcsi + 1⟩,
          a.blocks.set block.blockId block⟩)
  | .getBlock id => .ok (a.blocks.get id, a)
  | .deleteBlock id =>
    match a.blocks.get id with
    | none => .ok ((), a)
    | some existing =>
      match a.containers.get id.container with
      | none => .ok ((), { a with blocks := a.blocks.erase id })
      | some record =>
        .ok ((), ⟨a.containers.set id.container
          { record with info := countDelete record.info existing }, a.blocks.erase id⟩)
  | .listBlocks c start limit =>
    .ok (⟨((a.blocksFrom c start).take limit).filterMap a.blocks.get,
      ((a.blocksFrom c start)[limit]?).map (·.localId)⟩, a)

/-! ### Operations and their results -/

/-- An operation, its result, and the failures its calls on the keyspace had. -/
structure FjallCall where
  /-- The operation. -/
  op : FjallOp
  /-- The result. -/
  result : Outcome StorageError op.Val
  /-- The failures. -/
  faults : List String

/-- An operation over the keyspace. -/
def Keyspace.Step (P : Postcard) (k : Keyspace) (call : FjallCall) (k' : Keyspace) : Prop :=
  (call.op.prog P).Ends KvOp.Logged (k, []) call.result (k', call.faults)

/-- The codec refuses a record of the maps. -/
def Postcard.RefusesIn (P : Postcard) (a : TwoMaps) (e : String) : Prop :=
  (∃ c record, a.containers.get c = some record ∧ P.container.encode record = .error e) ∨
  ∃ b bd, a.blocks.get b = some bd ∧ P.block.encode bd = .error e

/-- **An operation on the two maps.** It returns what they say. Otherwise it does nothing: a
call has failed, or the codec refuses a record of the maps there would be. -/
inductive TwoMaps.Step (P : Postcard) (a : TwoMaps) : FjallCall → TwoMaps → Prop where
  /-- It returns. -/
  | ok {op : FjallOp} {v : op.Val} {a' : TwoMaps} {faults : List String}
      (h : op.ideal a = .ok (v, a')) : Step P a ⟨op, .ok v, faults⟩ a'
  /-- It returns an error. -/
  | error {op : FjallOp} {e : StorageError} {faults : List String} (h : op.ideal a = .error e) :
      Step P a ⟨op, .err e, faults⟩ a
  /-- One of its calls fails. -/
  | failed {op : FjallOp} {message : String} {faults : List String} (h : message ∈ faults) :
      Step P a ⟨op, .err (.metaError message), faults⟩ a
  /-- The codec refuses a record. -/
  | refused {op : FjallOp} {v : op.Val} {a' : TwoMaps} {e : String} {faults : List String}
      (h : op.ideal a = .ok (v, a')) (he : P.RefusesIn a' e) :
      Step P a ⟨op, .err (.corrupt ("encode: " ++ e)), faults⟩ a

/-! ### From decoded records to maps -/

namespace MetaStore

theorem containerKey_injective : Function.Injective containerKey := fun _ _ => containerKey_inj.mp

theorem blockKey_injective : Function.Injective blockKey := fun _ _ => blockKey_inj.mp

/-- The two maps a store of records stands for. -/
def maps (s : MetaStore) : TwoMaps :=
  ⟨s.containers.along containerKey containerKey_injective,
    s.blocks.along blockKey blockKey_injective⟩

variable {s : MetaStore}

theorem maps_containers_get (c : ContainerId) :
    s.maps.containers.get c = s.containers.get? (containerKey c) := rfl

theorem maps_blocks_get (b : BlockId) : s.maps.blocks.get b = s.blocks.get? (blockKey b) := rfl

/-- The containers are under the keys of their ids. -/
def Named (m : SortedMap Bytes StoredContainer) : Prop :=
  ∀ k record, (k, record) ∈ m.entries → k = containerKey record.info.containerId

/-- A record is written under the key of its container. -/
theorem Named.insert {m : SortedMap Bytes StoredContainer} (h : Named m) (id : ContainerId)
    (record : StoredContainer) (hid : record.info.containerId = id) :
    Named (m.insert (containerKey id) record) := by
  intro k record' hmem
  rcases SortedMap.mem_insert.mp hmem with heq | ⟨hmem, -⟩
  · cases heq
    rw [hid]
  · exact h k record' hmem

/-- Where the records are: the containers as in `OzoneRust.MetaStore.Named`, and the blocks as
in `OzoneRust.MetaStore.Keyed`. -/
structure InPlace (s : MetaStore) : Prop extends Keyed s where
  /-- The key of a container is that of its id. -/
  named : Named s.containers

theorem inPlace_empty : InPlace empty := ⟨keyed_empty, by rintro _ _ ⟨⟩⟩

theorem InPlace.containerId_eq (h : InPlace s) {id : ContainerId} {record : StoredContainer}
    (hc : s.containers.get? (containerKey id) = some record) : record.info.containerId = id :=
  (containerKey_inj.mp (h.named _ _ (SortedMap.get?_eq_some.mp hc))).symm

theorem containerId_countPut {info : ContainerInfo} {prev : Option BlockData} {newLen : UInt64} :
    (countPut info prev newLen).containerId = info.containerId := by
  cases prev <;> rfl

theorem InPlace.effect (h : InPlace s) {op : MetaOp} {r : MetaReply} {s' : MetaStore}
    (he : Effect s op r s') : InPlace s' := by
  refine ⟨h.toKeyed.effect he, ?_⟩
  cases he with
  | created id ec hc => exact h.named.insert id _ rfl
  | stateSet id state record hc =>
    have hid := h.containerId_eq hc
    exact h.named.insert id _ hid
  | put bd record hc =>
    exact h.named.insert _ _ (containerId_countPut.trans (h.containerId_eq hc))
  | absent id hb => exact h.named
  | orphan id prev hb hc => exact h.named
  | deleted id prev record hb hc =>
    have hid := h.containerId_eq hc
    exact h.named.insert _ _ hid
  | containerDeleted id =>
    exact fun k record hmem => h.named k record (SortedMap.mem_erase.mp hmem).1

/-- After every run the records are in place. -/
theorem inPlace_of_trace {log : List MetaCall} (h : Trace Step empty log s) : InPlace s := by
  refine h.invariant (fun _ => InPlace) inPlace_empty fun _ _ _ _ hI hs => ?_
  cases hs with
  | ok hrun => exact hI.effect (effect_of_run hrun)
  | error hrun => exact hI
  | backend op message => exact hI

/-- What an operation that returns has done: nothing, a container of any contents is there
that was not, or a call of `OzoneRust.MetaOp`. -/
theorem run_cases {op : FjallOp} {v : op.Val} {s' : MetaStore} (hrun : op.run s = .ok (v, s')) :
    s' = s ∨
      (∃ info : ContainerInfo, s' =
        ⟨s.containers.insert (containerKey info.containerId) ⟨info, 0⟩, s.blocks⟩) ∨
      ∃ mop r, MetaOp.run s mop = .ok (r, s') := by
  cases op with
  | createContainer info =>
    change s.createContainer info = .ok (v, s') at hrun
    rw [createContainer] at hrun
    split at hrun
    · cases hrun
    · exact .inr (.inl ⟨info, (congrArg Prod.snd (Except.ok.inj hrun)).symm⟩)
  | setContainerState id state =>
    refine .inr (.inr ⟨.setContainerState id state, .done, ?_⟩)
    rw [MetaOp.run, show s.setContainerState id state = _ from hrun]
    rfl
  | deleteContainer id =>
    refine .inr (.inr ⟨.deleteContainer id, .done, ?_⟩)
    rw [MetaOp.run, show s.deleteContainer id = _ from hrun]
    rfl
  | putBlock block =>
    refine .inr (.inr ⟨.putBlock block, .bcsi v, ?_⟩)
    rw [MetaOp.run, show s.putBlock block = _ from hrun]
    rfl
  | deleteBlock id =>
    refine .inr (.inr ⟨.deleteBlock id, .done, ?_⟩)
    rw [MetaOp.run, show s.deleteBlock id = _ from hrun]
    rfl
  | _ =>
    cases hrun
    exact .inl rfl

/-- **Every operation that returns keeps the records in place.** -/
theorem InPlace.run (h : InPlace s) {op : FjallOp} {v : op.Val} {s' : MetaStore}
    (hrun : op.run s = .ok (v, s')) : InPlace s' := by
  rcases run_cases hrun with rfl | ⟨info, rfl⟩ | ⟨mop, r, hmop⟩
  · exact h
  · exact ⟨⟨h.key, fun k bd hb => exists_get?_insert (h.owner k bd hb)⟩,
      h.named.insert info.containerId _ rfl⟩
  · exact h.effect (effect_of_run hmop)

/-- **The listing of the maps is the scan of the prefix.** -/
theorem blocksFrom_maps (h : Keyed s) (c : ContainerId) (start : UInt64) :
    s.maps.blocksFrom c start =
      (Paging.rest localIdOf (s.scan c) start).map (·.blockId) := by
  obtain ⟨hsorted, hmem⟩ : s.Lists c start (Paging.rest localIdOf (s.scan c) start) :=
    (lists_iff h).mpr rfl
  symm
  refine FiniteMap.eq_keysWhere (fun a b ha hb hab => ?_) ?_ fun b => ?_
  · obtain ⟨hlocal, hslot⟩ := Prod.mk.inj (toLex.injective hab)
    obtain ⟨ac, al, ar⟩ := a
    obtain ⟨bc, bl, br⟩ := b
    rw [BlockId.mk.injEq]
    exact ⟨ha.1.trans hb.1.symm, hlocal, hslot⟩
  · rw [List.pairwise_map]
    refine hsorted.imp fun hab => ?_
    exact Prod.Lex.toLex_lt_toLex.mpr hab
  · rw [List.mem_map]
    constructor
    · rintro ⟨bd, hbd, rfl⟩
      obtain ⟨hget, hc, hstart⟩ := (hmem bd).mp hbd
      exact ⟨Option.isSome_iff_exists.mpr ⟨bd, hget⟩, hc, hstart⟩
    · rintro ⟨hget, hc, hstart⟩
      obtain ⟨bd, hbd⟩ := Option.isSome_iff_exists.mp hget
      obtain rfl := h.blockId_eq hbd
      exact ⟨bd, (hmem bd).mpr ⟨hbd, hc, hstart⟩, rfl⟩

/-- The records of the listed blocks. -/
theorem filterMap_map_blockId {l : List BlockData}
    (hl : ∀ bd ∈ l, s.getBlock bd.blockId = some bd) :
    (l.map (·.blockId)).filterMap s.maps.blocks.get = l := by
  rw [List.filterMap_map]
  exact (List.filterMap_congr hl).trans List.filterMap_some

theorem listBlocks_maps (h : Keyed s) (c : ContainerId) (start : UInt64) (limit : ℕ) :
    (⟨((s.maps.blocksFrom c start).take limit).filterMap s.maps.blocks.get,
      ((s.maps.blocksFrom c start)[limit]?).map (·.localId)⟩ : BlockPage) =
        s.listBlocks c start limit := by
  have hl : ∀ bd ∈ (Paging.rest localIdOf (s.scan c) start).take limit,
      s.getBlock bd.blockId = some bd := fun bd hbd =>
    (((lists_iff h).mpr rfl).mem bd).mp (List.mem_of_mem_take hbd) |>.1
  rw [blocksFrom_maps h, listBlocks_eq, ← List.map_take, filterMap_map_blockId hl,
    List.getElem?_map, Option.map_map]
  rfl

/-- **The containers of the maps, by id, are those of the partition, by key.** -/
theorem listContainers_maps (h : InPlace s) :
    ((s.maps.containers.keysWhere (fun _ => True) id).filterMap s.maps.containers.get).map
        (·.info) =
      s.listContainers := by
  have hget : ∀ e ∈ s.containers.entries,
      s.containers.get? (containerKey e.2.info.containerId) = some e.2 := by
    intro e he
    rw [← h.named e.1 e.2 he]
    exact SortedMap.get?_eq_some.mpr he
  have hkeys : s.containers.entries.map (fun e => e.2.info.containerId) =
      s.maps.containers.keysWhere (fun _ => True) id := by
    refine FiniteMap.eq_keysWhere (fun a b _ _ hab => hab) ?_ fun c => ?_
    · rw [List.pairwise_map]
      refine (List.pairwise_map.mp s.containers.sorted).imp_of_mem fun {a b} ha hb hlt => ?_
      rw [h.named a.1 a.2 ha, h.named b.1 b.2 hb] at hlt
      exact containerKey_lt_containerKey.mp hlt
    · rw [List.mem_map, and_true, Option.isSome_iff_exists]
      constructor
      · rintro ⟨e, he, rfl⟩
        exact ⟨e.2, hget e he⟩
      · rintro ⟨record, hrecord⟩
        exact ⟨_, SortedMap.get?_eq_some.mp hrecord, h.containerId_eq hrecord⟩
  have hrecords : s.containers.entries.filterMap (fun e =>
      s.maps.containers.get e.2.info.containerId) = s.containers.entries.map Prod.snd := by
    rw [← List.filterMap_eq_map]
    exact List.filterMap_congr hget
  rw [← hkeys, List.filterMap_map, Function.comp_def, hrecords, List.map_map]
  rfl

/-- The two maps of a store that is returned. -/
theorem ok_maps {α : Type} {v : α} {a : TwoMaps} (hc : s.maps.containers = a.containers)
    (hb : s.maps.blocks = a.blocks) :
    (.ok (v, a) : Except StorageError (α × TwoMaps)) =
      (.ok (v, s) : Except StorageError (α × MetaStore)).map fun r => (r.1, r.2.maps) :=
  congrArg (fun a' => Except.ok (v, a')) (TwoMaps.ext hc hb).symm

end MetaStore

/-- **The maps do what the store of records does.** -/
theorem FjallOp.ideal_maps {s : MetaStore} (h : InPlace s) (op : FjallOp) :
    op.ideal s.maps = (op.run s).map fun r => (r.1, r.2.maps) := by
  cases op with
  | createContainer info =>
    simp only [FjallOp.ideal, FjallOp.run, MetaStore.createContainer, maps_containers_get]
    cases s.containers.get? (containerKey info.containerId) with
    | none => exact ok_maps (SortedMap.along_insert containerKey_injective) rfl
    | some record => rfl
  | getContainer id => rfl
  | setContainerState id state =>
    simp only [FjallOp.ideal, FjallOp.run, MetaStore.setContainerState, maps_containers_get]
    cases s.containers.get? (containerKey id) with
    | none => rfl
    | some record => exact ok_maps (SortedMap.along_insert containerKey_injective) rfl
  | listContainers =>
    rw [FjallOp.ideal, listContainers_maps h]
    rfl
  | deleteContainer id =>
    refine ok_maps (SortedMap.along_erase containerKey_injective)
      (SortedMap.along_filterKeys blockKey_injective fun b => ?_)
    rw [decide_eq_true_eq, isPrefixOf_blockKey]
  | putBlock block =>
    simp only [FjallOp.ideal, FjallOp.run, MetaStore.putBlock, maps_containers_get, maps_blocks_get]
    cases s.containers.get? (containerKey block.blockId.container) with
    | none => rfl
    | some record =>
      dsimp only
      split
      · rfl
      · exact ok_maps (SortedMap.along_insert containerKey_injective)
          (SortedMap.along_insert blockKey_injective)
  | getBlock id => rfl
  | deleteBlock id =>
    simp only [FjallOp.ideal, FjallOp.run, MetaStore.deleteBlock, maps_containers_get,
      maps_blocks_get]
    cases s.blocks.get? (blockKey id) with
    | none => rfl
    | some existing =>
      cases s.containers.get? (containerKey id.container) with
      | none => exact ok_maps rfl (SortedMap.along_erase blockKey_injective)
      | some record =>
        exact ok_maps (SortedMap.along_insert containerKey_injective)
          (SortedMap.along_erase blockKey_injective)
  | listBlocks c start limit =>
    rw [FjallOp.ideal, listBlocks_maps h.toKeyed]
    rfl

/-! ### Runs -/

/-- The keyspace stands for the two maps. -/
def Keyspace.StandsFor (P : Postcard) (k : Keyspace) (a : TwoMaps) : Prop :=
  ∃ s : MetaStore, k.Represents P s ∧ InPlace s ∧ s.maps = a

section Steps

variable {P : Postcard} {k k' : Keyspace} {a : TwoMaps} {call : FjallCall}

theorem Keyspace.standsFor_empty : Keyspace.empty.StandsFor P TwoMaps.empty :=
  ⟨.empty, ⟨.nil, .nil⟩, inPlace_empty, rfl⟩

/-- **One operation**: the maps have it too, with the same result, and if that is an error
nothing has changed. -/
theorem Keyspace.Step.maps (hC : P.container.Inverts) (hB : P.block.Inverts)
    (h : k.Step P call k') (ha : k.StandsFor P a) :
    (∃ a', a.Step P call a' ∧ k'.StandsFor P a') ∧ ∀ e, call.result = .err e → k' = k := by
  obtain ⟨s, hrep, hplace, rfl⟩ := ha
  obtain ⟨op, result, faults⟩ := call
  have hideal := op.ideal_maps hplace
  have href : Fjall.Refines P (op.run s) k result (k', faults) := FjallOp.refines hC hB hrep h
  cases href with
  | ok hrun hrep' =>
    rw [hrun] at hideal
    exact ⟨⟨_, .ok hideal, _, hrep', hplace.run hrun, rfl⟩, by rintro e ⟨⟩⟩
  | error hrun =>
    rw [hrun] at hideal
    exact ⟨⟨_, .error hideal, s, hrep, hplace, rfl⟩, fun _ _ => rfl⟩
  | failed hmem => exact ⟨⟨_, .failed hmem, s, hrep, hplace, rfl⟩, fun _ _ => rfl⟩
  | refused hrun hrefuses =>
    rw [hrun] at hideal
    exact ⟨⟨_, .refused hideal hrefuses, s, hrep, hplace, rfl⟩, fun _ _ => rfl⟩

end Steps

/-- **The metadata store is two maps**: every run of operations over the keyspace is a run of
the maps with the same results, and the keyspace it reaches stands for the maps it reaches;
and from there an operation that returns an error leaves the whole keyspace as it is. -/
theorem fjall_refines_maps {P : Postcard} (hC : P.container.Inverts) (hB : P.block.Inverts)
    {log : List FjallCall} {k : Keyspace} (h : Trace (Keyspace.Step P) Keyspace.empty log k) :
    (∃ a, Trace (TwoMaps.Step P) TwoMaps.empty log a ∧ k.StandsFor P a) ∧
      ∀ call k' e, k.Step P call k' → call.result = .err e → k' = k := by
  have hrun := h.related (R := Keyspace.StandsFor P) Keyspace.standsFor_empty
    fun _ _ _ _ ha hs => (hs.maps hC hB ha).1
  refine ⟨hrun, fun call k' e hs he => ?_⟩
  obtain ⟨a, -, ha⟩ := hrun
  exact (hs.maps hC hB ha).2 e he

/-! ### A run -/

/-- A codec for the records of a list: a record is as many bytes as come before it. -/
def Codec.ofList {α : Type} [DecidableEq α] (l : List α) : Codec α where
  encode a := if a ∈ l then .ok (List.replicate (l.idxOf a) 0) else .error "unsupported"
  decode b :=
    match l[b.length]? with
    | some a => .ok a
    | none => .error "unexpected"

theorem Codec.ofList_inverts {α : Type} [DecidableEq α] (l : List α) :
    (Codec.ofList l).Inverts := by
  intro a b h
  simp only [ofList] at h ⊢
  split at h
  case isTrue ha =>
    cases h
    rw [List.length_replicate, List.getElem?_idxOf ha]
  case isFalse => cases h

/-- A call, served or with a failure. -/
def KvOp.serve (fault : Option String) (k : Keyspace) : (op : kvCalls.Op) →
    kvCalls.Res op × Keyspace
  | .get p key => (fault.elim (.ok ((k.part p).get? key)) .error, k)
  | .containsKey p key => (fault.elim (.ok ((k.part p).get? key).isSome) .error, k)
  | .insert p key value =>
    fault.elim (.ok (), k.apply (.insert p key value)) fun message => (.error message, k)
  | .scan p start =>
    (((k.part p).entries.filter fun e => start.isPrefixOf e.1).map fun e =>
      fault.elim (.ok e) .error, k)
  | .commit batch =>
    fault.elim (.ok (), batch.foldl Keyspace.apply k) fun message => (.error message, k)

theorem KvOp.answers_serve (fault : Option String) (k : Keyspace) (op : KvOp) :
    KvOp.Answers k op (KvOp.serve fault k op).1 (KvOp.serve fault k op).2 := by
  cases fault with
  | none =>
    cases op with
    | get p key => exact ⟨rfl, .inl rfl⟩
    | containsKey p key => exact ⟨rfl, .inl rfl⟩
    | insert p key value => exact .inl ⟨rfl, rfl⟩
    | scan p start =>
      exact ⟨rfl, List.forall₂_map_right_iff.mpr (List.forall₂_same.mpr fun _ _ => .inl rfl)⟩
    | commit batch => exact .inl ⟨rfl, rfl⟩
  | some message =>
    cases op with
    | get p key => exact ⟨rfl, .inr ⟨message, rfl⟩⟩
    | containsKey p key => exact ⟨rfl, .inr ⟨message, rfl⟩⟩
    | insert p key value => exact .inr ⟨⟨message, rfl⟩, rfl⟩
    | scan p start =>
      exact ⟨rfl, List.forall₂_map_right_iff.mpr
        (List.forall₂_same.mpr fun _ _ => .inr ⟨message, rfl⟩)⟩
    | commit batch => exact .inr ⟨⟨message, rfl⟩, rfl⟩

/-- The same, with the failures so far. -/
def KvOp.serveLogged (fault : Option String) (w : Keyspace × List String) (op : kvCalls.Op) :
    kvCalls.Res op × (Keyspace × List String) :=
  let r := KvOp.serve fault w.1 op
  (r.1, r.2, w.2 ++ KvOp.faults op r.1)

theorem KvOp.logged_serveLogged (fault : Option String) (w : Keyspace × List String) (op : KvOp) :
    KvOp.Logged w op (KvOp.serveLogged fault w op).1 (KvOp.serveLogged fault w op).2 :=
  ⟨KvOp.answers_serve fault w.1 op, rfl⟩

/-- Operations one after the other, each with its calls served or failing. -/
def Keyspace.exec (P : Postcard) (k : Keyspace) :
    List (Option String × FjallOp) → List FjallCall × Keyspace
  | [] => ([], k)
  | (fault, op) :: rest =>
    let r := (op.prog P).exec (KvOp.serveLogged fault) (k, [])
    let tail := r.2.1.exec P rest
    (⟨op, r.1, r.2.2⟩ :: tail.1, tail.2)

theorem Keyspace.trace_exec (P : Postcard) (ops : List (Option String × FjallOp))
    (k : Keyspace) : Trace (Keyspace.Step P) k (k.exec P ops).1 (k.exec P ops).2 := by
  induction ops generalizing k with
  | nil => exact .nil
  | cons call rest ih =>
    have hends := Prog.ends_exec (KvOp.logged_serveLogged call.1) (call.2.prog P) (k, [])
    exact Trace.cons (l := ⟨call.2, _, _⟩) hends (ih _)

/-- A container that was just created. -/
def freshContainer : ContainerInfo := ContainerInfo.newOpen 1 ⟨2, 1, 4, .rs⟩

/-- A block of it, of four bytes. -/
def firstBlock : BlockData := ⟨⟨1, 7, 1⟩, [⟨"0", 0, 4, none⟩], []⟩

/-- Another, of two bytes. -/
def secondBlock : BlockData := ⟨⟨1, 9, 1⟩, [⟨"0", 0, 2, none⟩], []⟩

/-- The container with the first block. -/
def containerOfOne : StoredContainer := ⟨countPut freshContainer none 4, 1⟩

/-- The container with both. -/
def containerOfTwo : StoredContainer := ⟨countPut containerOfOne.info none 2, 2⟩

/-- A codec for the container in its three states, and for the blocks. -/
def freshPostcard : Postcard :=
  ⟨Codec.ofList [⟨freshContainer, 0⟩, containerOfOne, containerOfTwo],
    Codec.ofList [firstBlock, secondBlock]⟩

/-- The container is created and gets both blocks, of which the first listing has one and says
where the second starts. A read fails. The container is deleted, and its blocks with it. -/
def freshRun : List FjallCall :=
  [⟨.createContainer freshContainer, .ok (), []⟩, ⟨.putBlock firstBlock, .ok 1, []⟩,
    ⟨.putBlock secondBlock, .ok 2, []⟩, ⟨.listBlocks 1 0 1, .ok ⟨[firstBlock], some 9⟩, []⟩,
    ⟨.getBlock ⟨1, 7, 1⟩, .err (.metaError "io"), ["io"]⟩, ⟨.deleteContainer 1, .ok (), []⟩,
    ⟨.getBlock ⟨1, 7, 1⟩, .ok none, []⟩]

theorem exec_freshRun : (Keyspace.empty.exec freshPostcard (freshRun.map fun call =>
    (call.faults.head?, call.op))).1 = freshRun := by
  rfl

/-- The theorem, for that run. -/
theorem fjall_refines_maps_freshRun : ∃ k,
    Trace (Keyspace.Step freshPostcard) Keyspace.empty freshRun k ∧
    (∃ a, Trace (TwoMaps.Step freshPostcard) TwoMaps.empty freshRun a ∧
      k.StandsFor freshPostcard a) ∧
      ∀ call k' e, k.Step freshPostcard call k' → call.result = .err e → k' = k := by
  have h := Keyspace.trace_exec freshPostcard (freshRun.map fun call =>
    (call.faults.head?, call.op)) Keyspace.empty
  rw [exec_freshRun] at h
  exact ⟨_, h, fjall_refines_maps (Codec.ofList_inverts _) (Codec.ofList_inverts _) h⟩

end OzoneRust
