import Mathlib.Data.List.Forall2
import OzoneRust.Lib.Interleave
import OzoneRust.Storage.MetaStore

/-!
# The metadata store over its keyspace

`FjallMetaStore` as the source has it: each operation is a program that makes calls on a
keyspace of two partitions, maps from byte strings to byte strings
(`OzoneRust.Keyspace`). What it relies on is in `OzoneRust.KvOp.Answers`: a partition is
ordered by its keys and can be iterated by prefix, a batch is applied as a whole or not at
all, and every call can fail. Records are encoded and decoded by a codec
(`OzoneRust.Codec`).

The keyspace stands for the store of decoded records that the other modules use
(`OzoneRust.Keyspace.Represents`), and every operation does to it what the function of the
same name does to that store. It can also fail and do nothing, but only with the failure of
one of its own calls, or where the codec refuses a record it is about to write
(`OzoneRust.FjallOp.refines`).
-/

namespace OzoneRust

/-! ### The keyspace -/

/-- The partitions. -/
inductive Partition where
  /-- `containers`. -/
  | containers
  /-- `blocks`. -/
  | blocks
  deriving DecidableEq, Repr

/-- A keyspace: the contents of the partitions. -/
structure Keyspace where
  /-- `containers`. -/
  containers : SortedMap Bytes Bytes
  /-- `blocks`. -/
  blocks : SortedMap Bytes Bytes

/-- One change of a batch. -/
inductive Change where
  /-- A key is set. -/
  | insert (p : Partition) (key value : Bytes)
  /-- A key is removed. -/
  | remove (p : Partition) (key : Bytes)
  deriving DecidableEq, Repr

namespace Keyspace

/-- A keyspace that was just created. -/
def empty : Keyspace := ⟨.empty, .empty⟩

/-- A partition. -/
def part (k : Keyspace) : Partition → SortedMap Bytes Bytes
  | .containers => k.containers
  | .blocks => k.blocks

/-- A change is made. -/
def apply (k : Keyspace) : Change → Keyspace
  | .insert .containers key value => { k with containers := k.containers.insert key value }
  | .insert .blocks key value => { k with blocks := k.blocks.insert key value }
  | .remove .containers key => { k with containers := k.containers.erase key }
  | .remove .blocks key => { k with blocks := k.blocks.erase key }

end Keyspace

/-- A call on the keyspace. -/
inductive KvOp where
  /-- `get`. -/
  | get (p : Partition) (key : Bytes)
  /-- `contains_key`. -/
  | containsKey (p : Partition) (key : Bytes)
  /-- `insert`. -/
  | insert (p : Partition) (key value : Bytes)
  /-- The iterator over the keys with a prefix; `iter` has none. -/
  | scan (p : Partition) (start : Bytes)
  /-- `commit` of a batch. -/
  | commit (batch : List Change)

/-- The answers. An iterator can fail at each of its entries. -/
abbrev KvOp.Res : KvOp → Type
  | .get _ _ => Except String (Option Bytes)
  | .containsKey _ _ => Except String Bool
  | .insert _ _ _ => Except String Unit
  | .scan _ _ => List (Except String (Bytes × Bytes))
  | .commit _ => Except String Unit

/-- The calls on the keyspace. -/
abbrev kvCalls : Calls := ⟨KvOp, KvOp.Res⟩

/-- An entry of an iterator: the entry itself, or a failure. -/
def Yields (entry : Bytes × Bytes) (item : Except String (Bytes × Bytes)) : Prop :=
  item = .ok entry ∨ ∃ message, item = .error message

/-- What a call can answer, and the keyspace it leaves. -/
def KvOp.Answers (k : Keyspace) : (op : kvCalls.Op) → kvCalls.Res op → Keyspace → Prop
  | .get p key, r, k' => k' = k ∧ (r = .ok ((k.part p).get? key) ∨ ∃ message, r = .error message)
  | .containsKey p key, r, k' =>
    k' = k ∧ (r = .ok ((k.part p).get? key).isSome ∨ ∃ message, r = .error message)
  | .insert p key value, r, k' =>
    r = .ok () ∧ k' = k.apply (.insert p key value) ∨ (∃ message, r = .error message) ∧ k' = k
  | .scan p start, r, k' =>
    k' = k ∧ List.Forall₂ Yields ((k.part p).entries.filter fun e => start.isPrefixOf e.1) r
  | .commit batch, r, k' =>
    r = .ok () ∧ k' = batch.foldl Keyspace.apply k ∨ (∃ message, r = .error message) ∧ k' = k

/-- The failures in an answer. -/
def KvOp.faults : (op : kvCalls.Op) → kvCalls.Res op → List String
  | .get _ _, r => failure r
  | .containsKey _ _, r => failure r
  | .insert _ _ _, r => failure r
  | .scan _ _, r => r.flatMap failure
  | .commit _, r => failure r
where
  /-- The failure of one answer, or of one entry of an iterator. -/
  failure {α : Type} : Except String α → List String
    | .ok _ => []
    | .error message => [message]

/-- The answers, with the failures so far. -/
def KvOp.Logged : Keyspace × List String → (op : kvCalls.Op) → kvCalls.Res op →
    Keyspace × List String → Prop :=
  Prog.logged KvOp.Answers fun _ op r _ => op.faults r

/-- Records as bytes. -/
structure Codec (α : Type) where
  /-- To bytes. -/
  encode : α → Except String Bytes
  /-- From bytes. -/
  decode : Bytes → Except String α

/-- **Decoding inverts encoding.** -/
def Codec.Inverts {α : Type} (C : Codec α) : Prop := ∀ a b, C.encode a = .ok b → C.decode b = .ok a

/-- The codecs of the two kinds of records. -/
structure Postcard where
  /-- For container records. -/
  container : Codec StoredContainer
  /-- For block records. -/
  block : Codec BlockData

/-! ### The operations -/

/-- An operation of the store. -/
abbrev FjallM := Prog kvCalls StorageError

namespace Fjall

open MetaStore

/-- One call. -/
def perform (op : KvOp) : FjallM op.Res := Prog.perform (C := kvCalls) op

/-- `map_err(fj)?`. -/
def fj {α : Type} (x : Except String α) : FjallM α := Prog.lift (.ofExcept .metaError x)

/-- `encode`. -/
def encode {α : Type} (C : Codec α) (value : α) : Outcome StorageError Bytes :=
  .ofExcept (fun e => .corrupt ("encode: " ++ e)) (C.encode value)

/-- `decode`. -/
def decode {α : Type} (C : Codec α) (bytes : Bytes) : Outcome StorageError α :=
  .ofExcept (fun e => .corrupt ("decode: " ++ e)) (C.decode bytes)

variable (P : Postcard)

/-- `create_container`. -/
def createContainer (info : ContainerInfo) : FjallM Unit := do
  let key := containerKey info.containerId
  if ← fj (← perform (.containsKey .containers key)) then
    .done (.err (.containerExists info.containerId))
  else do
    let value ← Prog.lift (encode P.container ⟨info, 0⟩)
    fj (← perform (.insert .containers key value))

/-- `get_container`. -/
def getContainer (id : ContainerId) : FjallM (Option ContainerInfo) := do
  match ← fj (← perform (.get .containers (containerKey id))) with
  | some v => do
    let record ← Prog.lift (decode P.container v)
    return some record.info
  | none => return none

/-- `set_container_state`. -/
def setContainerState (id : ContainerId) (state : ContainerState) : FjallM Unit := do
  let key := containerKey id
  match ← fj (← perform (.get .containers key)) with
  | none => .done (.err (.containerNotFound id))
  | some v => do
    let record ← Prog.lift (decode P.container v)
    let value ← Prog.lift
      (encode P.container { record with info := { record.info with state := state } })
    fj (← perform (.insert .containers key value))

/-- An entry of an iterator, with `map_err(fj)?`. -/
def entry (item : Except String (Bytes × Bytes)) : Outcome StorageError (Bytes × Bytes) :=
  .ofExcept .metaError item

/-- The container of an entry. -/
def containerOf (e : Bytes × Bytes) : Outcome StorageError ContainerInfo := do
  let record ← decode P.container e.2
  return record.info

/-- `list_containers`. -/
def listContainers : FjallM (List ContainerInfo) := do
  let items ← perform (.scan .containers [])
  Prog.lift (items.mapM fun item => do containerOf P (← entry item))

/-- The removal of the block of an entry. -/
def removalOf (e : Bytes × Bytes) : Outcome StorageError Change := return .remove .blocks e.1

/-- `delete_container`: the record and all blocks, in one batch. -/
def deleteContainer (id : ContainerId) : FjallM Unit := do
  let key := containerKey id
  let items ← perform (.scan .blocks key)
  let removed ← Prog.lift (items.mapM fun item => do removalOf (← entry item))
  fj (← perform (.commit (removed ++ [.remove .containers key])))

/-- The counters of a record after a block is put over the bytes of another. -/
def putRecord (record : StoredContainer) (prev : Option Bytes) (newLen : UInt64) :
    Outcome StorageError StoredContainer :=
  match prev with
  | some bytes => do
    let prev ← decode P.block bytes
    return ⟨countPut record.info (some prev) newLen, record.bcsi + 1⟩
  | none => return ⟨countPut record.info none newLen, record.bcsi + 1⟩

/-- `put_block`. -/
def putBlock (block : BlockData) : FjallM ℕ := do
  let cid := block.blockId.container
  let ckey := containerKey cid
  match ← fj (← perform (.get .containers ckey)) with
  | none => .done (.err (.containerNotFound cid))
  | some v => do
    let record ← Prog.lift (decode P.container v)
    if !record.info.state.isWritable then
      .done (.err (.containerNotOpen cid record.info.state))
    else do
      let bkey := blockKey block.blockId
      let record ← Prog.lift (putRecord P record (← fj (← perform (.get .blocks bkey))) block.len)
      let blockValue ← Prog.lift (encode P.block block)
      let recordValue ← Prog.lift (encode P.container record)
      fj (← perform (.commit
        [.insert .blocks bkey blockValue, .insert .containers ckey recordValue]))
      return record.bcsi

/-- `get_block`. -/
def getBlock (id : BlockId) : FjallM (Option BlockData) := do
  match ← fj (← perform (.get .blocks (blockKey id))) with
  | some v => do
    let bd ← Prog.lift (decode P.block v)
    return some bd
  | none => return none

/-- The change of the container record when a block is deleted, if there is a record. -/
def deleteRecord (ckey : Bytes) (existing : BlockData) :
    Option Bytes → Outcome StorageError (List Change)
  | some v => do
    let record ← decode P.container v
    let value ← encode P.container { record with info := countDelete record.info existing }
    return [.insert .containers ckey value]
  | none => return []

/-- `delete_block`. -/
def deleteBlock (id : BlockId) : FjallM Unit := do
  let bkey := blockKey id
  match ← fj (← perform (.get .blocks bkey)) with
  | none => return ()
  | some v => do
    let existing ← Prog.lift (decode P.block v)
    let ckey := containerKey id.container
    let counted ← Prog.lift
      (deleteRecord P ckey existing (← fj (← perform (.get .containers ckey))))
    fj (← perform (.commit (.remove .blocks bkey :: counted)))

/-- The loop of `list_blocks`, with the blocks collected so far. -/
def listLoop (start : UInt64) (limit : ℕ) :
    List (Except String (Bytes × Bytes)) → List BlockData → Outcome StorageError BlockPage
  | [], out => .ok ⟨out, none⟩
  | item :: rest, out => do
    let e ← entry item
    let bd ← decode P.block e.2
    if bd.blockId.localId < start then listLoop start limit rest out
    else if limit ≤ out.length then .ok ⟨out, some bd.blockId.localId⟩
    else listLoop start limit rest (out ++ [bd])

/-- `list_blocks`. -/
def listBlocks (container : ContainerId) (start : UInt64) (limit : ℕ) : FjallM BlockPage := do
  let items ← perform (.scan .blocks (containerKey container))
  Prog.lift (listLoop P start limit items [])

end Fjall

/-- An operation of the store, with its arguments. -/
inductive FjallOp where
  /-- `create_container`. -/
  | createContainer (info : ContainerInfo)
  /-- `get_container`. -/
  | getContainer (id : ContainerId)
  /-- `set_container_state`. -/
  | setContainerState (id : ContainerId) (state : ContainerState)
  /-- `list_containers`. -/
  | listContainers
  /-- `delete_container`. -/
  | deleteContainer (id : ContainerId)
  /-- `put_block`. -/
  | putBlock (block : BlockData)
  /-- `get_block`. -/
  | getBlock (id : BlockId)
  /-- `delete_block`. -/
  | deleteBlock (id : BlockId)
  /-- `list_blocks`. -/
  | listBlocks (container : ContainerId) (start : UInt64) (limit : ℕ)

namespace FjallOp

/-- What an operation returns. -/
abbrev Val : FjallOp → Type
  | .createContainer _ => Unit
  | .getContainer _ => Option ContainerInfo
  | .setContainerState _ _ => Unit
  | .listContainers => List ContainerInfo
  | .deleteContainer _ => Unit
  | .putBlock _ => ℕ
  | .getBlock _ => Option BlockData
  | .deleteBlock _ => Unit
  | .listBlocks _ _ _ => BlockPage

/-- The program of an operation. -/
def prog (P : Postcard) : (op : FjallOp) → FjallM op.Val
  | .createContainer info => Fjall.createContainer P info
  | .getContainer id => Fjall.getContainer P id
  | .setContainerState id state => Fjall.setContainerState P id state
  | .listContainers => Fjall.listContainers P
  | .deleteContainer id => Fjall.deleteContainer id
  | .putBlock block => Fjall.putBlock P block
  | .getBlock id => Fjall.getBlock P id
  | .deleteBlock id => Fjall.deleteBlock P id
  | .listBlocks container start limit => Fjall.listBlocks P container start limit

/-- The same on decoded records. -/
def run (s : MetaStore) : (op : FjallOp) → Except StorageError (op.Val × MetaStore)
  | .createContainer info => s.createContainer info
  | .getContainer id => .ok (s.getContainer id, s)
  | .setContainerState id state => s.setContainerState id state
  | .listContainers => .ok (s.listContainers, s)
  | .deleteContainer id => s.deleteContainer id
  | .putBlock block => s.putBlock block
  | .getBlock id => .ok (s.getBlock id, s)
  | .deleteBlock id => s.deleteBlock id
  | .listBlocks container start limit => .ok (s.listBlocks container start limit, s)

end FjallOp

/-! ### What a keyspace stands for -/

section Rep

variable {κ α : Type} [LinearOrder κ] {C : Codec α} {m : SortedMap κ Bytes} {m' : SortedMap κ α}

/-- The bytes under each key are those of a record. -/
def Codec.Rep (C : Codec α) (m : SortedMap κ Bytes) (m' : SortedMap κ α) : Prop :=
  List.Forall₂ (fun e e' => e.1 = e'.1 ∧ C.encode e'.2 = .ok e.2) m.entries m'.entries

/-- A key has bytes and a record, or neither. -/
theorem Codec.Rep.get?_cases (h : C.Rep m m') (key : κ) :
    m.get? key = none ∧ m'.get? key = none ∨
      ∃ b a, m.get? key = some b ∧ m'.get? key = some a ∧ C.encode a = .ok b := by
  unfold SortedMap.get?
  unfold Codec.Rep at h
  generalize m.entries = l, m'.entries = l' at h
  induction h with
  | nil => exact .inl ⟨rfl, rfl⟩
  | @cons e e' l l' he _ ih =>
    by_cases hk : e.1 = key
    · rw [List.find?_cons_of_pos (by simpa using hk),
        List.find?_cons_of_pos (by simpa using he.1.symm.trans hk)]
      exact .inr ⟨e.2, e'.2, rfl, rfl, he.2⟩
    · rw [List.find?_cons_of_neg (by simpa using hk),
        List.find?_cons_of_neg (by simpa using mt he.1.trans hk)]
      exact ih

theorem Codec.Rep.filter (h : C.Rep m m') (p : κ → Bool) :
    List.Forall₂ (fun e e' => e.1 = e'.1 ∧ C.encode e'.2 = .ok e.2)
      (m.entries.filter fun e => p e.1) (m'.entries.filter fun e => p e.1) :=
  List.rel_filter (fun {_ _} he => iff_of_eq (congrArg (fun key => p key = true) he.1)) h

theorem Codec.Rep.filterKeys (h : C.Rep m m') (p : κ → Bool) :
    C.Rep (m.filterKeys p) (m'.filterKeys p) := h.filter p

theorem Codec.Rep.erase (h : C.Rep m m') (key : κ) : C.Rep (m.erase key) (m'.erase key) :=
  h.filterKeys _

theorem Codec.Rep.insert (h : C.Rep m m') {key : κ} {b : Bytes} {a : α}
    (henc : C.encode a = .ok b) : C.Rep (m.insert key b) (m'.insert key a) := by
  have hright := List.Forall₂.cons (a := (key, b)) (b := (key, a))
    (And.intro (rfl : key = key) henc) (h.filter (key < ·))
  exact List.rel_append (h.filter (· < key)) hright

end Rep

/-- **What a keyspace stands for**: the store of the records it has the bytes of. -/
structure Keyspace.Represents (P : Postcard) (k : Keyspace) (s : MetaStore) : Prop where
  /-- The containers. -/
  containers : P.container.Rep k.containers s.containers
  /-- The blocks. -/
  blocks : P.block.Rep k.blocks s.blocks

/-- The codec refuses a record of a store. -/
def Postcard.Refuses (P : Postcard) (s : MetaStore) (e : String) : Prop :=
  (∃ c record, s.containers.get? (MetaStore.containerKey c) = some record ∧
    P.container.encode record = .error e) ∨
  ∃ b bd, s.blocks.get? (MetaStore.blockKey b) = some bd ∧ P.block.encode bd = .error e

namespace Fjall

open MetaStore

/-- A call of the operation has failed, and it has done nothing. -/
def Failed {α : Type} (k : Keyspace) (o : Outcome StorageError α) (k' : Keyspace × List String) :
    Prop :=
  ∃ message ∈ k'.2, o = .err (.metaError message) ∧ k'.1 = k

/-- The codec has refused a record, and the operation has done nothing. -/
def Refused {α β : Type} (C : Codec β) (a : β) (k : Keyspace) (o : Outcome StorageError α)
    (k' : Keyspace × List String) : Prop :=
  ∃ e, C.encode a = .error e ∧ o = .err (.corrupt ("encode: " ++ e)) ∧ k'.1 = k

/-- **An operation does what a function does to the decoded records**, with the failures its
calls had. Otherwise it does nothing: one of its calls has failed, or the codec refuses a
record of the store there would be. -/
inductive Refines {α : Type} (P : Postcard) (x : Except StorageError (α × MetaStore))
    (k : Keyspace) : Outcome StorageError α → Keyspace × List String → Prop where
  /-- It returns. -/
  | ok {a : α} {s' : MetaStore} {k' : Keyspace} {faults : List String} (hx : x = .ok (a, s'))
      (hrep : k'.Represents P s') : Refines P x k (.ok a) (k', faults)
  /-- It returns the same error. -/
  | error {e : StorageError} {faults : List String} (hx : x = .error e) :
      Refines P x k (.err e) (k, faults)
  /-- A call fails. -/
  | failed {message : String} {faults : List String} (h : message ∈ faults) :
      Refines P x k (.err (.metaError message)) (k, faults)
  /-- The codec refuses a record. -/
  | refused {a : α} {s' : MetaStore} {e : String} {faults : List String} (hx : x = .ok (a, s'))
      (h : P.Refuses s' e) : Refines P x k (.err (.corrupt ("encode: " ++ e))) (k, faults)

section Ends

variable {α β : Type} {P : Postcard} {C : Codec β} {k : Keyspace} {seen : List String}
  {k' : Keyspace × List String} {o : Outcome StorageError α}
  {x : Except StorageError (α × MetaStore)}

theorem Refines.of_ok {a : α} {s' : MetaStore} (hx : x = .ok (a, s'))
    (hrep : k'.1.Represents P s') : Refines P x k (.ok a) k' :=
  .ok hx hrep

theorem Failed.refines (h : Failed k o k') : Refines P x k o k' := by
  obtain ⟨message, hmem, rfl, rfl⟩ := h
  exact .failed hmem

theorem Refused.refines {b : β} (h : Refused C b k o k') {a : α} {s' : MetaStore}
    (hx : x = .ok (a, s')) (hs : ∀ e, C.encode b = .error e → P.Refuses s' e) :
    Refines P x k o k' := by
  obtain ⟨e, henc, rfl, rfl⟩ := h
  exact .refused hx (hs e henc)

/-- What comes of a failure that is returned at once. -/
theorem failed_of_fj {γ : Type} {message : String} {g : γ → FjallM α}
    (h : (fj (.error message) >>= g).Ends KvOp.Logged (k, seen ++ [message]) o k') :
    Failed k o k' := by
  obtain ⟨rfl, rfl⟩ := h
  exact ⟨message, List.mem_append_right _ (List.mem_singleton_self _), rfl, rfl⟩

theorem ends_perform {op : KvOp} {g : op.Res → FjallM α}
    (h : (perform op >>= g).Ends KvOp.Logged (k, seen) o k') :
    ∃ r k₁, KvOp.Answers k op r k₁ ∧
      (g r).Ends KvOp.Logged (k₁, seen ++ KvOp.faults op r) o k' := by
  obtain ⟨r, ⟨k₁, seen₁⟩, ⟨hans, hseen⟩, h⟩ := h
  obtain rfl : seen₁ = seen ++ KvOp.faults op r := hseen
  exact ⟨r, k₁, hans, h⟩

theorem ends_get {p : Partition} {key : Bytes} {g : Option Bytes → FjallM α}
    (h : (perform (.get p key) >>= fun r => fj r >>= g).Ends KvOp.Logged (k, seen) o k') :
    Failed k o k' ∨ ∃ seen', (g ((k.part p).get? key)).Ends KvOp.Logged (k, seen') o k' := by
  obtain ⟨r, k₁, ⟨rfl, rfl | ⟨message, rfl⟩⟩, hnext⟩ := ends_perform h
  · exact .inr ⟨_, hnext⟩
  · exact .inl (failed_of_fj hnext)

theorem ends_encode {a : β} {g : Bytes → FjallM α}
    (h : (Prog.lift (encode C a) >>= g).Ends KvOp.Logged (k, seen) o k') :
    Refused C a k o k' ∨ ∃ b, C.encode a = .ok b ∧ (g b).Ends KvOp.Logged (k, seen) o k' := by
  rw [encode] at h
  cases henc : C.encode a with
  | error e =>
    rw [henc] at h
    obtain ⟨rfl, rfl⟩ := h
    exact .inl ⟨e, henc, rfl, rfl⟩
  | ok b =>
    rw [henc] at h
    exact .inr ⟨b, rfl, h⟩

theorem decode_eq (hC : C.Inverts) {a : β} {b : Bytes} (h : C.encode a = .ok b) :
    decode C b = .ok a := by
  rw [decode, hC a b h]
  rfl

theorem ends_decode (hC : C.Inverts) {a : β} {b : Bytes} {g : β → FjallM α}
    (hb : C.encode a = .ok b)
    (h : (Prog.lift (decode C b) >>= g).Ends KvOp.Logged (k, seen) o k') :
    (g a).Ends KvOp.Logged (k, seen) o k' := by
  rw [decode_eq hC hb] at h
  exact h

theorem ends_insert {p : Partition} {key value : Bytes} {o : Outcome StorageError Unit}
    (h : (perform (.insert p key value) >>= fj).Ends KvOp.Logged (k, seen) o k') :
    Failed k o k' ∨ o = .ok () ∧ k'.1 = k.apply (.insert p key value) := by
  obtain ⟨r, k₁, ⟨rfl, rfl⟩ | ⟨⟨message, rfl⟩, rfl⟩, ho, hk⟩ := ends_perform h
  · exact .inr ⟨ho, congrArg Prod.fst hk⟩
  · subst hk
    exact .inl ⟨message, List.mem_append_right _ (List.mem_singleton_self _), ho, rfl⟩

theorem ends_commit_bind {batch : List Change} {g : Unit → FjallM α}
    (h : (perform (.commit batch) >>= fun r => fj r >>= g).Ends KvOp.Logged (k, seen) o k') :
    Failed k o k' ∨
      ∃ seen', (g ()).Ends KvOp.Logged (batch.foldl Keyspace.apply k, seen') o k' := by
  obtain ⟨r, k₁, ⟨rfl, rfl⟩ | ⟨⟨message, rfl⟩, rfl⟩, hnext⟩ := ends_perform h
  · exact .inr ⟨_, hnext⟩
  · exact .inl (failed_of_fj hnext)

theorem ends_commit {batch : List Change} {o : Outcome StorageError Unit}
    (h : (perform (.commit batch) >>= fj).Ends KvOp.Logged (k, seen) o k') :
    Failed k o k' ∨ o = .ok () ∧ k'.1 = batch.foldl Keyspace.apply k := by
  obtain ⟨r, k₁, ⟨rfl, rfl⟩ | ⟨⟨message, rfl⟩, rfl⟩, ho, hk⟩ := ends_perform h
  · exact .inr ⟨ho, congrArg Prod.fst hk⟩
  · subst hk
    exact .inl ⟨message, List.mem_append_right _ (List.mem_singleton_self _), ho, rfl⟩

theorem ends_scan {p : Partition} {start : Bytes}
    {g : List (Except String (Bytes × Bytes)) → FjallM α}
    (h : (perform (.scan p start) >>= g).Ends KvOp.Logged (k, seen) o k') :
    ∃ items, List.Forall₂ Yields ((k.part p).entries.filter fun e => start.isPrefixOf e.1) items ∧
      (g items).Ends KvOp.Logged (k, seen ++ items.flatMap KvOp.faults.failure) o k' := by
  obtain ⟨items, k₁, ⟨rfl, hitems⟩, hnext⟩ := ends_perform h
  exact ⟨items, hitems, hnext⟩

/-- The entries of an iterator, one after the other: the first failure ends them. -/
theorem mapM_entries {γ δ : Type} {R : Bytes × Bytes → δ → Prop}
    {f : Bytes × Bytes → Outcome StorageError γ} {g : δ → γ} (hf : ∀ e d, R e d → f e = .ok (g d))
    {entries : List (Bytes × Bytes)} {ds : List δ} (hR : List.Forall₂ R entries ds)
    {items : List (Except String (Bytes × Bytes))} (hitems : List.Forall₂ Yields entries items) :
    (items.mapM fun item => do f (← entry item)) = .ok (ds.map g) ∨
      ∃ message ∈ items.flatMap KvOp.faults.failure,
        (items.mapM fun item => do f (← entry item)) = .err (.metaError message) := by
  induction hR generalizing items with
  | nil =>
    cases hitems
    exact .inl rfl
  | @cons e d entries ds hed _ ih =>
    obtain _ | ⟨hyield, hitems⟩ := hitems
    rcases hyield with rfl | ⟨message, rfl⟩
    · have hhead : (do f (← entry (.ok e))) = .ok (g d) := hf e d hed
      rw [List.mapM_cons, hhead, Outcome.ok_bind]
      rcases ih hitems with hrest | ⟨message, hmem, hrest⟩
      · exact .inl (by rw [hrest]; rfl)
      · exact .inr ⟨message, hmem, by rw [hrest]; rfl⟩
    · exact .inr ⟨message, List.mem_cons_self, rfl⟩

end Ends

/-! ### Every operation -/

section Operations

variable {P : Postcard} {k : Keyspace} {seen : List String} {k' : Keyspace × List String}
  {s : MetaStore}

/-- The codec refuses a record that is written under the key of a container. -/
theorem refuses_containers_insert {m : SortedMap Bytes StoredContainer}
    {blocks : SortedMap Bytes BlockData} {c : ContainerId} {record : StoredContainer} {e : String}
    (h : P.container.encode record = .error e) :
    P.Refuses ⟨m.insert (containerKey c) record, blocks⟩ e :=
  .inl ⟨c, record, SortedMap.get?_insert_self, h⟩

/-- The same for a block. -/
theorem refuses_blocks_insert {containers : SortedMap Bytes StoredContainer}
    {m : SortedMap Bytes BlockData} {b : BlockId} {bd : BlockData} {e : String}
    (h : P.block.encode bd = .error e) : P.Refuses ⟨containers, m.insert (blockKey b) bd⟩ e :=
  .inr ⟨b, bd, SortedMap.get?_insert_self, h⟩

theorem createContainer_refines (hrep : k.Represents P s) {info : ContainerInfo}
    {o : Outcome StorageError Unit}
    (h : (createContainer P info).Ends KvOp.Logged (k, seen) o k') :
    Refines P (s.createContainer info) k o k' := by
  obtain ⟨r, k₁, ⟨rfl, rfl | ⟨message, rfl⟩⟩, hnext⟩ := ends_perform h
  · rw [MetaStore.createContainer]
    rcases hrep.containers.get?_cases (containerKey info.containerId) with
      ⟨hk, hs⟩ | ⟨b, record, hk, hs, -⟩
    · rw [hs]
      simp only [Keyspace.part, hk] at hnext
      rcases ends_encode hnext with hrefused | ⟨b, hb, hnext⟩
      · exact hrefused.refines rfl fun _ => refuses_containers_insert
      rcases ends_insert hnext with hfailed | ⟨rfl, hk'⟩
      · exact hfailed.refines
      exact .of_ok rfl (hk' ▸ ⟨hrep.containers.insert hb, hrep.blocks⟩)
    · rw [hs]
      simp only [Keyspace.part, hk] at hnext
      obtain ⟨rfl, rfl⟩ := hnext
      exact .error rfl
  · exact (failed_of_fj hnext).refines

theorem getContainer_refines (hP : P.container.Inverts) (hrep : k.Represents P s)
    {id : ContainerId} {o : Outcome StorageError (Option ContainerInfo)}
    (h : (getContainer P id).Ends KvOp.Logged (k, seen) o k') :
    Refines P (.ok (s.getContainer id, s)) k o k' := by
  rcases ends_get h with hfailed | ⟨seen', h⟩
  · exact hfailed.refines
  simp only [Keyspace.part] at h
  rcases hrep.containers.get?_cases (containerKey id) with ⟨hk, hs⟩ | ⟨b, record, hk, hs, hb⟩
  · rw [hk] at h
    obtain ⟨rfl, rfl⟩ := h
    exact .ok (by rw [MetaStore.getContainer, hs]; rfl) hrep
  · rw [hk] at h
    obtain ⟨rfl, rfl⟩ := ends_decode hP hb h
    exact .ok (by rw [MetaStore.getContainer, hs]; rfl) hrep

theorem setContainerState_refines (hP : P.container.Inverts) (hrep : k.Represents P s)
    {id : ContainerId} {state : ContainerState} {o : Outcome StorageError Unit}
    (h : (setContainerState P id state).Ends KvOp.Logged (k, seen) o k') :
    Refines P (s.setContainerState id state) k o k' := by
  rw [MetaStore.setContainerState]
  rcases ends_get h with hfailed | ⟨seen', h⟩
  · exact hfailed.refines
  simp only [Keyspace.part] at h
  rcases hrep.containers.get?_cases (containerKey id) with ⟨hk, hs⟩ | ⟨b, record, hk, hs, hb⟩
  · rw [hk] at h
    obtain ⟨rfl, rfl⟩ := h
    exact .error (by rw [hs])
  · rw [hk] at h
    rw [hs]
    rcases ends_encode (ends_decode hP hb h) with hrefused | ⟨b', hb', h⟩
    · exact hrefused.refines rfl fun _ => refuses_containers_insert
    rcases ends_insert h with hfailed | ⟨rfl, hk'⟩
    · exact hfailed.refines
    exact .of_ok rfl (hk' ▸ ⟨hrep.containers.insert hb', hrep.blocks⟩)

theorem listContainers_refines (hP : P.container.Inverts) (hrep : k.Represents P s)
    {o : Outcome StorageError (List ContainerInfo)}
    (h : (listContainers P).Ends KvOp.Logged (k, seen) o k') :
    Refines P (.ok (s.listContainers, s)) k o k' := by
  obtain ⟨items, hitems, h⟩ := ends_scan h
  have hR := hrep.containers.filter fun key => ([] : Bytes).isPrefixOf key
  have hall : (s.containers.entries.filter fun e => ([] : Bytes).isPrefixOf e.1) =
      s.containers.entries := List.filter_eq_self.mpr fun _ _ => rfl
  rw [hall] at hR
  rcases mapM_entries (f := containerOf P) (g := fun e => e.2.info)
    (fun e e' he => by rw [containerOf, decode_eq hP he.2]; rfl) hR hitems with
    hmap | ⟨message, hmem, hmap⟩
  · rw [hmap] at h
    obtain ⟨rfl, rfl⟩ := h
    exact .ok rfl hrep
  · rw [hmap] at h
    obtain ⟨rfl, rfl⟩ := h
    exact .failed (List.mem_append_right _ hmem)

/-- Removing keys one after the other. -/
theorem foldl_remove_blocks (keys : List Bytes) (k : Keyspace) :
    (keys.map (Change.remove .blocks)).foldl Keyspace.apply k =
      ⟨k.containers, k.blocks.filterKeys fun key => key ∉ keys⟩ := by
  induction keys generalizing k with
  | nil =>
    refine congrArg (Keyspace.mk k.containers) (SortedMap.ext ?_)
    exact (List.filter_eq_self.mpr fun _ _ => by simp).symm
  | cons key keys ih =>
    rw [List.map_cons, List.foldl_cons, ih]
    refine congrArg (Keyspace.mk k.containers) (SortedMap.ext ?_)
    simp only [Keyspace.apply, SortedMap.erase, SortedMap.filterKeys, List.filter_filter]
    refine List.filter_congr fun e _ => ?_
    simp only [List.mem_cons, not_or, Bool.decide_and]
    rw [Bool.and_comm]
    exact congrArg₂ and (decide_eq_decide.mpr Iff.rfl) rfl

theorem deleteContainer_refines (hrep : k.Represents P s) {id : ContainerId}
    {o : Outcome StorageError Unit}
    (h : (deleteContainer id).Ends KvOp.Logged (k, seen) o k') :
    Refines P (s.deleteContainer id) k o k' := by
  obtain ⟨items, hitems, h⟩ := ends_scan h
  have hself : ∀ l : List (Bytes × Bytes), List.Forall₂ (· = ·) l l := fun l =>
    List.forall₂_same.mpr fun _ _ => rfl
  rcases mapM_entries (f := removalOf) (g := fun e => Change.remove .blocks e.1)
    (fun e e' he => by rw [he]; rfl) (hself _) hitems with hmap | ⟨message, hmem, hmap⟩
  · rw [hmap, Prog.lift_ok_bind] at h
    rcases ends_commit h with hfailed | ⟨rfl, hk'⟩
    · exact hfailed.refines
    refine .of_ok rfl ?_
    have hkeys : (k.blocks.entries.filter fun e => (containerKey id).isPrefixOf e.1).map
        (fun e => Change.remove .blocks e.1) = ((k.blocks.entries.filter fun e =>
          (containerKey id).isPrefixOf e.1).map Prod.fst).map (Change.remove .blocks) := by
      rw [List.map_map]
      rfl
    rw [hk', Keyspace.part, List.foldl_append, hkeys, foldl_remove_blocks]
    refine ⟨hrep.containers.erase _, ?_⟩
    have hfilter : (k.blocks.filterKeys fun key => key ∉ (k.blocks.entries.filter fun e =>
        (containerKey id).isPrefixOf e.1).map Prod.fst) =
        k.blocks.filterKeys fun key => ¬(containerKey id).isPrefixOf key := by
      refine SortedMap.ext (List.filter_congr fun e he => decide_eq_decide.mpr (not_congr ?_))
      simp only [List.mem_map, List.mem_filter]
      constructor
      · rintro ⟨e', ⟨-, hprefix⟩, heq⟩
        rw [← heq]
        exact hprefix
      · exact fun hprefix => ⟨e, ⟨he, hprefix⟩, rfl⟩
    have hblocks := hrep.blocks.filterKeys fun key => ¬(containerKey id).isPrefixOf key
    rw [← hfilter] at hblocks
    exact hblocks
  · rw [hmap] at h
    obtain ⟨rfl, rfl⟩ := h
    exact .failed (List.mem_append_right _ hmem)

theorem putBlock_refines (hC : P.container.Inverts) (hB : P.block.Inverts) (hrep : k.Represents P s)
    {block : BlockData} {o : Outcome StorageError ℕ}
    (h : (putBlock P block).Ends KvOp.Logged (k, seen) o k') :
    Refines P (s.putBlock block) k o k' := by
  rw [MetaStore.putBlock]
  rcases ends_get h with hfailed | ⟨seen', h⟩
  · exact hfailed.refines
  simp only [Keyspace.part] at h
  rcases hrep.containers.get?_cases (containerKey block.blockId.container) with
    ⟨hk, hs⟩ | ⟨b, record, hk, hs, hb⟩
  · rw [hk] at h
    obtain ⟨rfl, rfl⟩ := h
    exact .error (by rw [hs])
  rw [hk] at h
  rw [hs]
  replace h := ends_decode hC hb h
  dsimp only at h ⊢
  split at h
  case isTrue hstate =>
    obtain ⟨rfl, rfl⟩ := h
    exact .error (if_pos hstate)
  case isFalse hstate =>
    rw [if_neg hstate]
    rcases ends_get h with hfailed | ⟨seen', h⟩
    · exact hfailed.refines
    have hrecord : ∀ {x : Option Bytes} {y : Option BlockData},
        (x = none ∧ y = none ∨ ∃ b a, x = some b ∧ y = some a ∧ P.block.encode a = .ok b) →
        putRecord P record x block.len = .ok
          ⟨countPut record.info y block.len, record.bcsi + 1⟩ := by
      rintro _ _ (⟨rfl, rfl⟩ | ⟨b, prev, rfl, rfl, hprev⟩)
      · rfl
      · rw [putRecord, decode_eq hB hprev]
        rfl
    rw [Keyspace.part, hrecord (hrep.blocks.get?_cases (blockKey block.blockId))] at h
    rcases ends_encode h with hrefused | ⟨blockValue, hblock, h⟩
    · exact hrefused.refines rfl fun _ => refuses_blocks_insert
    rcases ends_encode h with hrefused | ⟨recordValue, hvalue, h⟩
    · exact hrefused.refines rfl fun _ => refuses_containers_insert
    rcases ends_commit_bind h with hfailed | ⟨seen', rfl, rfl⟩
    · exact hfailed.refines
    exact .ok rfl ⟨hrep.containers.insert hvalue, hrep.blocks.insert hblock⟩

theorem getBlock_refines (hP : P.block.Inverts) (hrep : k.Represents P s) {id : BlockId}
    {o : Outcome StorageError (Option BlockData)}
    (h : (getBlock P id).Ends KvOp.Logged (k, seen) o k') :
    Refines P (.ok (s.getBlock id, s)) k o k' := by
  rcases ends_get h with hfailed | ⟨seen', h⟩
  · exact hfailed.refines
  simp only [Keyspace.part] at h
  rcases hrep.blocks.get?_cases (blockKey id) with ⟨hk, hs⟩ | ⟨b, bd, hk, hs, hb⟩
  · rw [hk] at h
    obtain ⟨rfl, rfl⟩ := h
    exact .ok (by rw [MetaStore.getBlock, hs]) hrep
  · rw [hk] at h
    obtain ⟨rfl, rfl⟩ := ends_decode hP hb h
    exact .ok (by rw [MetaStore.getBlock, hs]) hrep

theorem deleteBlock_refines (hC : P.container.Inverts) (hB : P.block.Inverts)
    (hrep : k.Represents P s) {id : BlockId} {o : Outcome StorageError Unit}
    (h : (deleteBlock P id).Ends KvOp.Logged (k, seen) o k') :
    Refines P (s.deleteBlock id) k o k' := by
  rw [MetaStore.deleteBlock]
  rcases ends_get h with hfailed | ⟨seen', h⟩
  · exact hfailed.refines
  simp only [Keyspace.part] at h
  rcases hrep.blocks.get?_cases (blockKey id) with ⟨hk, hs⟩ | ⟨b, existing, hk, hs, hb⟩
  · rw [hk] at h
    obtain ⟨rfl, rfl⟩ := h
    exact .ok (by rw [hs]) hrep
  rw [hk] at h
  rw [hs]
  rcases ends_get (ends_decode hB hb h) with hfailed | ⟨seen'', h⟩
  · exact hfailed.refines
  dsimp only [Keyspace.part] at h ⊢
  rcases hrep.containers.get?_cases (containerKey id.container) with
    ⟨hk, hs⟩ | ⟨b, record, hk, hs, hb⟩
  · have hcounted : deleteRecord P (containerKey id.container) existing none = .ok [] := rfl
    rw [hk, hcounted, Prog.lift_ok_bind] at h
    rw [hs]
    rcases ends_commit h with hfailed | ⟨rfl, hk'⟩
    · exact hfailed.refines
    exact .of_ok rfl (hk' ▸ ⟨hrep.containers, hrep.blocks.erase _⟩)
  · rw [hk, deleteRecord, decode_eq hC hb, Outcome.ok_bind, encode] at h
    rw [hs]
    cases hvalue : P.container.encode { record with info := countDelete record.info existing } with
    | error e =>
      rw [hvalue] at h
      obtain ⟨rfl, rfl⟩ := h
      exact .refused rfl (refuses_containers_insert hvalue)
    | ok value =>
      rw [hvalue, Outcome.ofExcept, Outcome.ok_bind, Outcome.pure_eq, Prog.lift_ok_bind] at h
      rcases ends_commit h with hfailed | ⟨rfl, hk'⟩
      · exact hfailed.refines
      exact .of_ok rfl (hk' ▸ ⟨hrep.containers.insert hvalue, hrep.blocks.erase _⟩)

/-- The loop of `list_blocks` over entries of which each may fail. -/
theorem listLoop_eq (hP : P.block.Inverts) {start : UInt64} {limit : ℕ}
    {entries : List (Bytes × Bytes)} {ds : List (Bytes × BlockData)}
    (hR : List.Forall₂ (fun e e' => e.1 = e'.1 ∧ P.block.encode e'.2 = .ok e.2) entries ds)
    {items : List (Except String (Bytes × Bytes))} (hitems : List.Forall₂ Yields entries items)
    (out : List BlockData) :
    listLoop P start limit items out = .ok (MetaStore.listLoop start limit (ds.map Prod.snd) out) ∨
      ∃ message ∈ items.flatMap KvOp.faults.failure,
        listLoop P start limit items out = .err (.metaError message) := by
  induction hR generalizing items out with
  | nil =>
    cases hitems
    exact .inl rfl
  | @cons e d entries ds hed _ ih =>
    obtain _ | ⟨hyield, hitems⟩ := hitems
    rcases hyield with rfl | ⟨message, rfl⟩
    · rw [listLoop, List.map_cons, MetaStore.listLoop, entry, Outcome.ofExcept, Outcome.ok_bind,
        decode_eq hP hed.2, Outcome.ok_bind]
      split
      · exact ih hitems out
      · split
        · exact .inl rfl
        · exact ih hitems _
    · exact .inr ⟨message, List.mem_cons_self, rfl⟩

theorem listBlocks_refines (hP : P.block.Inverts) (hrep : k.Represents P s)
    {container : ContainerId} {start : UInt64} {limit : ℕ} {o : Outcome StorageError BlockPage}
    (h : (listBlocks P container start limit).Ends KvOp.Logged (k, seen) o k') :
    Refines P (.ok (s.listBlocks container start limit, s)) k o k' := by
  obtain ⟨items, hitems, h⟩ := ends_scan h
  rcases listLoop_eq hP (hrep.blocks.filter fun key => (containerKey container).isPrefixOf key)
    hitems [] with hloop | ⟨message, hmem, hloop⟩
  · rw [hloop] at h
    obtain ⟨rfl, rfl⟩ := h
    exact .ok rfl hrep
  · rw [hloop] at h
    obtain ⟨rfl, rfl⟩ := h
    exact .failed (List.mem_append_right _ hmem)

end Operations

end Fjall

/-- **Every operation does to the keyspace what it does to the decoded records**, unless one of
its calls fails or the codec refuses a record; then it does nothing. -/
theorem FjallOp.refines {P : Postcard} (hC : P.container.Inverts) (hB : P.block.Inverts)
    {k : Keyspace} {k' : Keyspace × List String} {s : MetaStore} (hrep : k.Represents P s)
    {op : FjallOp} {o : Outcome StorageError op.Val}
    (h : (op.prog P).Ends KvOp.Logged (k, []) o k') :
    Fjall.Refines P (op.run s) k o k' := by
  cases op with
  | createContainer info => exact Fjall.createContainer_refines hrep h
  | getContainer id => exact Fjall.getContainer_refines hC hrep h
  | setContainerState id state => exact Fjall.setContainerState_refines hC hrep h
  | listContainers => exact Fjall.listContainers_refines hC hrep h
  | deleteContainer id => exact Fjall.deleteContainer_refines hrep h
  | putBlock block => exact Fjall.putBlock_refines hC hB hrep h
  | getBlock id => exact Fjall.getBlock_refines hB hrep h
  | deleteBlock id => exact Fjall.deleteBlock_refines hC hB hrep h
  | listBlocks container start limit => exact Fjall.listBlocks_refines hB hrep h

end OzoneRust
