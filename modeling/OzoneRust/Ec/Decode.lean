import OzoneRust.Ec.Layout
import OzoneRust.Ec.Reference

/-!
# Encoding and decoding an object

The loops of `stripe.rs` against the closed forms of the layout. `OzoneRust.encodeObject`
returns the shards (`OzoneRust.encodeObject_eq`), and `OzoneRust.reassemble` returns the
object from its data shards (`OzoneRust.reassemble_eq`).

`OzoneRust.decodeObject` is given a view of the shards in which some slots are empty and
some hold a byte string of the wrong length; the slots that still carry their shard are
`OzoneRust.Layout.Carries`. Dropping the slots of the wrong length leaves exactly those,
and from any `k` of them every missing data shard is rebuilt. The result is
`OzoneRust.decodeObject_eq`: the object when `k` slots carry their shard, and the error
that names the count when they do not.
-/

namespace OzoneRust

open Layout

/-! ### Encoding -/

section Encode

variable {isal : IsaL} (hI : isal.Correct) {P : Profile} (hP : P.Valid) {X : Bytes}
  (hX : X.length ≤ maxLen)

/-- The shards after the first `s` stripes. -/
def Layout.encodeUpTo (P : Profile) (X : Bytes) (s : ℕ) : EncodedShards :=
  ⟨(List.range P.data).map fun i => (List.range s).flatMap (stored P X i),
    (List.range P.parity).map fun j => (List.range s).flatMap (stored P X (P.data + j))⟩

include hP hX

/-- One turn of the encoder's loop. -/
theorem encodeObjectStripe_eq {enc : InnerEncoder} {s : ℕ} (hs : s < stripeCount P X.length)
    (henc : enc.encode isal P.chunkSize ((List.range P.data).map fun i => codeCell P X i s)
        (List.replicate P.parity (List.replicate P.chunkSize 0)) =
      .ok ((List.range P.parity).map fun j => codeCell P X (P.data + j) s)) :
    encodeObjectStripe isal P enc X (encodeUpTo P X s) s = .ok (encodeUpTo P X (s + 1)) := by
  have hstored : ((List.range P.data).map fun i => cell P X i s) =
      (List.range P.data).map fun i => stored P X i s :=
    List.map_congr_left fun i hi => (stored_data (List.mem_range.mp hi) X s).symm
  unfold encodeObjectStripe
  rw [mapM_dataCell hP.fits hX hs, Outcome.ok_bind, mapM_padCell, Outcome.ok_bind, hstored]
  dsimp only
  rw [henc, Outcome.mapErr_ok, Outcome.ok_bind, Outcome.pure_eq]
  simp only [encodeUpTo, ← stored_parity, Blocks.zipWith_append_map_range]

include hI

/-- **`encode_object` returns the shards.** -/
theorem encodeObject_eq : encodeObject isal P X = .ok (encode P X) := by
  obtain ⟨enc, hnew, henc⟩ := InnerEncoder.encode_eq hI hP.cfg
  have hk := hP.data_pos
  have hc := hP.chunk_pos
  have hlt := stripeCount_mul_chunkSize_lt hP.fits X.length
  have hstripe := stripe_lt hP.fits
  have hmax : X.length < 2 ^ 63 := by unfold maxLen at hX; omega
  have hnil : (⟨List.replicate P.data [], List.replicate P.parity []⟩ : EncodedShards) =
      encodeUpTo P X 0 := by
    simp [encodeUpTo]
  unfold encodeObject
  rw [if_neg (by omega), numStripes_eq hP.fits, Outcome.ok_bind, hnew, Outcome.mapErr_ok,
    Outcome.ok_bind, Outcome.mul_eq (by omega), Outcome.ok_bind, hnil]
  refine Outcome.foldlM_range (encodeUpTo P X) fun s hs => encodeObjectStripe_eq hP hX hs ?_
  refine (henc P.chunkSize (fun i => codeCell P X i s) hP.chunk_lt_i32
    fun i _ => length_codeCell P X i s).trans (congrArg Outcome.ok ?_)
  -- the cells handed to the encoder are padded already
  exact List.map_congr_left fun j _ => codeBuffer_codeBuffer _ _ _ _

end Encode

/-! ### Reassembly -/

section Reassemble

variable {P : Profile} (hP : P.Fits) {X : Bytes} (hX : X.length ≤ maxLen)

/-- The cells of a stripe, one after the other, are the bytes of the stripe. -/
theorem Layout.flatMap_cell (P : Profile) (X : Bytes) (s : ℕ) :
    ((List.range P.data).flatMap fun i => cell P X i s) =
      (X.drop (s * P.stripe)).take P.stripe := by
  simp only [cell, offset, ← List.drop_drop]
  exact Blocks.flatMap_range_take_drop _ _ _

/-- The bytes put together from the first `s` stripes, and the cursors of the data shards. -/
def Layout.reassembleUpTo (P : Profile) (X : Bytes) (s : ℕ) : Bytes × List ℕ :=
  (X.take (s * P.stripe),
    (List.range P.data).map fun i => ((List.range s).flatMap (stored P X i)).length)

include hP hX

/-- One turn of the reassembly: the cursors stand where the cells read so far end. -/
theorem reassembleStripe_eq {s : ℕ} (hs : s < stripeCount P X.length) :
    reassembleStripe P X.length ((List.range P.data).map (shard P X)) (reassembleUpTo P X s) s =
      .ok (reassembleUpTo P X (s + 1)) := by
  have hparts : ∀ i ∈ List.range P.data, (do
      let cur ← Outcome.index (reassembleUpTo P X s).2 i
      let cl ← cellLen P X.length i s
      let next ← Outcome.add cur cl
      let part ← Outcome.slice (← Outcome.index ((List.range P.data).map (shard P X)) i) cur next
      return (part, next) : Outcome EcError (Bytes × ℕ)) =
      .ok (stored P X i s, ((List.range (s + 1)).flatMap (stored P X i)).length) := by
    intro i hi
    have hi' := List.mem_range.mp hi
    have hle : ((List.range s).flatMap (stored P X i)).length + (stored P X i s).length ≤
      (shard P X i).length := Blocks.length_add_le _ hs
    have hlt := length_shard_lt hP hX i
    rw [reassembleUpTo, Outcome.index_map_range hi', Outcome.ok_bind, cellLen_cell hP hX hs hi',
      ← stored_data hi', Outcome.ok_bind, Outcome.add_eq (by omega), Outcome.ok_bind,
      Outcome.index_map_range hi', Outcome.ok_bind, Outcome.slice_add_eq hle,
      Outcome.ok_bind, Outcome.pure_eq, shard, Blocks.take_drop_flatMap_range _ hs,
      Blocks.flatMap_range_succ, List.length_append]
  have hcells : ((List.range P.data).map fun i => stored P X i s).flatten =
      (X.drop (s * P.stripe)).take P.stripe := by
    rw [← flatMap_cell, List.flatMap_def]
    exact congrArg _ (List.map_congr_left fun i hi => stored_data (List.mem_range.mp hi) X s)
  unfold reassembleStripe
  rw [Outcome.mapM_eq hparts, Outcome.ok_bind, Outcome.pure_eq]
  simp only [reassembleUpTo, List.map_map, Function.comp_def]
  rw [hcells, ← List.take_add, Nat.succ_mul]

/-- **The object, from its data shards.** -/
theorem reassemble_eq : reassemble P X.length ((List.range P.data).map (shard P X)) = .ok X := by
  have hnil : (([], List.replicate P.data 0) : Bytes × List ℕ) = reassembleUpTo P X 0 := by
    simp [reassembleUpTo]
  unfold reassemble
  rw [numStripes_eq hP, Outcome.ok_bind, hnil,
    Outcome.foldlM_range (reassembleUpTo P X) fun s hs => reassembleStripe_eq hP hX hs,
    Outcome.ok_bind, Outcome.pure_eq, reassembleUpTo,
    List.take_of_length_le (le_stripeCount_mul hP _)]

end Reassemble

/-! ### The surviving shards -/

/-- Slot `idx` of the view carries the shard it should. -/
def Layout.Carries (P : Profile) (X : Bytes) (view : List (Option Bytes)) (idx : ℕ) : Prop :=
  view.getD idx none = some (shard P X idx)

instance (P : Profile) (X : Bytes) (view : List (Option Bytes)) :
    DecidablePred (Carries P X view) := fun _ => inferInstanceAs (Decidable (_ = _))

/-- A view of the shards: one slot each, and what a slot holds is its shard or a byte string
of another length. -/
structure Layout.IsView (P : Profile) (X : Bytes) (view : List (Option Bytes)) : Prop where
  /-- One slot per shard. -/
  length_eq : view.length = P.data + P.parity
  /-- The shard, or another length. -/
  slot : ∀ idx b, view[idx]? = some (some b) →
    b = shard P X idx ∨ b.length ≠ (shard P X idx).length

/-- The view with every slot emptied that does not carry its shard. -/
def Layout.kept (P : Profile) (X : Bytes) (view : List (Option Bytes)) : List (Option Bytes) :=
  (List.range (P.data + P.parity)).map fun idx =>
    if Carries P X view idx then some (shard P X idx) else none

section Kept

variable {P : Profile} {X : Bytes} {view : List (Option Bytes)}

/-- Dropping the shards of the wrong length leaves the slots that carry their shard. -/
theorem dropInconsistent_mapM (hP : P.Fits) (hX : X.length ≤ maxLen) (hview : IsView P X view) :
    view.zipIdx.mapM (dropInconsistent P X.length) = .ok (kept P X view) := by
  have hkeep : ∀ slot ∈ view.zipIdx, dropInconsistent P X.length slot =
      .ok (if slot.1 = some (shard P X slot.2) then slot.1 else none) := by
    rintro ⟨slot, idx⟩ hmem
    have hget := List.mk_mem_zipIdx_iff_getElem?.mp hmem
    cases slot with
    | none => simp [dropInconsistent]
    | some b =>
      rw [dropInconsistent, expectedShardLen_eq hP hX, Outcome.ok_bind, Outcome.pure_eq]
      rcases hview.slot idx b hget with rfl | hne
      · simp
      · have hb : some b ≠ some (shard P X idx) := fun h => hne (by rw [Option.some.inj h])
        rw [if_pos hne, if_neg hb]
  rw [Outcome.mapM_eq hkeep]
  refine congrArg Outcome.ok (List.ext_getElem ?_ fun idx h₁ h₂ => ?_)
  · simp [kept, hview.length_eq]
  · have hidx : idx < view.length := by simpa using h₁
    simp only [kept, List.getElem_map, List.getElem_zipIdx, List.getElem_range, Carries,
      List.getD_eq_getElem _ _ hidx, Nat.zero_add]
    split
    case isTrue h => exact h
    case isFalse => rfl

theorem kept_getD {idx : ℕ} (h : idx < P.data + P.parity) :
    (kept P X view).getD idx none =
      if Carries P X view idx then some (shard P X idx) else none := by
  simp [kept, h]

theorem kept_isSome {idx : ℕ} (h : idx < P.data + P.parity) :
    ((kept P X view).getD idx none).isSome = decide (Carries P X view idx) := by
  rw [kept_getD h]
  split <;> simp [*]

theorem kept_take :
    ((kept P X view).take P.data).map (·.getD []) =
      (List.range P.data).map fun i => if Carries P X view i then shard P X i else [] := by
  rw [kept, ← List.map_take, List.take_range, Nat.min_eq_left (Nat.le_add_right _ _), List.map_map]
  refine List.map_congr_left fun i _ => ?_
  rw [Function.comp_apply]
  split <;> rfl

theorem unwrapShard_kept {idx : ℕ} (h : idx < P.data + P.parity) (hc : Carries P X view idx) :
    unwrapShard (kept P X view) idx = .ok (shard P X idx) := by
  unfold unwrapShard kept
  rw [Outcome.index_map_range h, Outcome.ok_bind, if_pos hc]
  rfl

end Kept

/-! ### Decoding -/

section Decode

variable {isal : IsaL} (hI : isal.Correct) {P : Profile} (hP : P.Valid) {X : Bytes}
  (hX : X.length ≤ maxLen) {view : List (Option Bytes)}

/-- The data shards no slot carries. -/
def Layout.missing (P : Profile) (X : Bytes) (view : List (Option Bytes)) : List ℕ :=
  (List.range P.data).filter fun i => ¬Carries P X view i

/-- The shards the slots carry. -/
def Layout.present (P : Profile) (X : Bytes) (view : List (Option Bytes)) : List ℕ :=
  (List.range (P.data + P.parity)).filter fun i => Carries P X view i

theorem Layout.mem_missing {i : ℕ} :
    i ∈ missing P X view ↔ i < P.data ∧ ¬Carries P X view i := by
  simp [missing]

theorem Layout.mem_present {i : ℕ} :
    i ∈ present P X view ↔ i < P.data + P.parity ∧ Carries P X view i := by
  simp [present]

theorem Layout.length_missing_le : (missing P X view).length ≤ P.data :=
  (List.length_filter_le _ _).trans_eq List.length_range

theorem Layout.nodup_present : (present P X view).Nodup := List.nodup_range.filter _

/-- With no data shard missing, all of them are carried. -/
theorem Layout.carries_of_missing_eq_nil (h : missing P X view = []) {i : ℕ} (hi : i < P.data) :
    Carries P X view i := by
  by_contra hc
  have hmem : i ∈ missing P X view := mem_missing.mpr ⟨hi, hc⟩
  rw [h] at hmem
  exact List.not_mem_nil hmem

theorem Layout.le_length_present_of_missing_eq_nil (h : missing P X view = []) :
    P.data ≤ (present P X view).length := by
  have hsub : List.range P.data ⊆ present P X view := fun i hi => by
    have hi' := List.mem_range.mp hi
    exact mem_present.mpr ⟨by omega, carries_of_missing_eq_nil h hi'⟩
  have hle := (List.subperm_of_subset List.nodup_range hsub).length_le
  rwa [List.length_range] at hle

/-- The data shards after `s` stripes of the reconstruction. -/
def Layout.rebuildUpTo (P : Profile) (X : Bytes) (view : List (Option Bytes)) (s : ℕ) :
    List Bytes :=
  (List.range P.data).map fun i =>
    if Carries P X view i then shard P X i else (List.range s).flatMap (stored P X i)

/-- After the last stripe nothing is missing. -/
theorem Layout.rebuildUpTo_stripeCount : rebuildUpTo P X view (stripeCount P X.length) =
    (List.range P.data).map (shard P X) := by
  refine List.map_congr_left fun i _ => ?_
  split <;> rfl

include hP hX

/-- One turn of the reconstruction. -/
theorem rebuildStripe_eq {dec : InnerDecoder} {sources : List ℕ} {s : ℕ}
    (hs : s < stripeCount P X.length) (hsub : ∀ idx ∈ sources, idx ∈ present P X view)
    (hrec : dec.reconstruct isal P.chunkSize sources (sources.map fun idx => codeCell P X idx s)
        (missing P X view)
        (List.replicate (missing P X view).length (List.replicate P.chunkSize 0)) =
      .ok ((missing P X view).map fun i => codeCell P X i s)) :
    rebuildStripe isal P dec X.length (kept P X view) sources (missing P X view)
      (rebuildUpTo P X view s) s = .ok (rebuildUpTo P X view (s + 1)) := by
  have hsrc : (sources.mapM fun idx => do
      paddedCell P X.length idx s (← unwrapShard (kept P X view) idx)) =
      .ok (sources.map fun idx => codeCell P X idx s) := by
    refine Outcome.mapM_eq fun idx hidx => ?_
    obtain ⟨hlt, hc⟩ := mem_present.mp (hsub idx hidx)
    rw [unwrapShard_kept hlt hc, Outcome.ok_bind, paddedCell_eq hP.fits hX hs]
  have hpart : ∀ i ∈ missing P X view, cellLen P X.length i s = .ok (cell P X i s).length ∧
      Outcome.slice (codeCell P X i s) 0 (cell P X i s).length =
        (.ok (stored P X i s) : Outcome EcError Bytes) := by
    intro i hi
    have hi' : i < P.data := (mem_missing.mp hi).1
    have hle : 0 + (cell P X i s).length ≤ (codeCell P X i s).length := by
      rw [Nat.zero_add, length_codeCell]
      exact length_cell_le P X i s
    have hslice := @Outcome.slice_add_eq EcError _ _ _ _ hle
    rw [Nat.zero_add, List.drop_zero, take_codeCell hi'] at hslice
    rw [stored_data hi']
    exact ⟨cellLen_cell hP.fits hX hs hi', hslice⟩
  unfold rebuildStripe
  rw [hsrc, Outcome.ok_bind]
  dsimp only
  rw [hrec, Outcome.mapErr_ok, Outcome.ok_bind, ← List.map_prod_left_eq_zip, List.mapM_map,
    Outcome.mapM_eq (g := fun i => (i, stored P X i s)) fun i hi => by
      obtain ⟨hlen, hslice⟩ := hpart i hi
      rw [Function.comp_apply]
      dsimp only
      rw [hlen, Outcome.ok_bind, hslice, Outcome.ok_bind, Outcome.pure_eq],
    Outcome.ok_bind, Outcome.pure_eq, List.foldl_map, rebuildUpTo]
  have hnd : (missing P X view).Nodup := List.nodup_range.filter _
  rw [Blocks.foldl_modify_map_range (fun i buf => buf ++ stored P X i s) P.data _ _ hnd]
  refine congrArg Outcome.ok (List.map_congr_left fun i hi => ?_)
  by_cases hc : Carries P X view i
  · rw [if_neg fun h => (mem_missing.mp h).2 hc, if_pos hc, if_pos hc]
  · rw [if_pos (mem_missing.mpr ⟨List.mem_range.mp hi, hc⟩), if_neg hc, if_neg hc,
      Blocks.flatMap_range_succ]

include hI

/-- **Decoding**: the object when `k` slots carry their shard, and otherwise the error with
the number of those that do. -/
theorem decodeObject_eq (hview : IsView P X view) :
    decodeObject isal P X.length view =
      if P.data ≤ (present P X view).length then .ok X
      else .err (.notEnoughShards (present P X view).length P.data) := by
  obtain ⟨dec, hnew, hrec⟩ := InnerDecoder.reconstruct_eq hI hP.cfg
  obtain ⟨h₁, h₂, h₃, h₄, h₅, h₆⟩ := hP.toInRange
  have htotal : P.total = .ok (P.data + P.parity) := Outcome.add_eq (by omega)
  have hmissing : ((List.range P.data).filter fun i =>
      !((kept P X view).getD i none).isSome) = missing P X view := by
    refine List.filter_congr fun i hi => ?_
    rw [kept_isSome (by have := List.mem_range.mp hi; omega), decide_not]
  have hpresent : ((List.range (P.data + P.parity)).filter fun i =>
      ((kept P X view).getD i none).isSome) = present P X view :=
    List.filter_congr fun i hi => kept_isSome (List.mem_range.mp hi)
  unfold decodeObject
  rw [if_neg (by omega), htotal, Outcome.ok_bind, if_neg (by simp [hview.length_eq]),
    dropInconsistent_mapM hP.fits hX hview, Outcome.ok_bind, numStripes_eq hP.fits,
    Outcome.ok_bind]
  dsimp only
  rw [hmissing, hpresent, kept_take]
  split
  case isTrue hnil =>
    rw [if_pos (le_length_present_of_missing_eq_nil hnil), List.map_congr_left (g := shard P X)
      fun i hi => if_pos (carries_of_missing_eq_nil hnil (List.mem_range.mp hi)),
      reassemble_eq hP.fits hX]
  case isFalse =>
    split
    case isTrue hlt => rw [if_neg (by omega)]
    case isFalse hge =>
      have hsub : ∀ idx ∈ (present P X view).take P.data, idx ∈ present P X view :=
        fun idx hidx => List.mem_of_mem_take hidx
      have hnil : ((List.range P.data).map fun i =>
          if Carries P X view i then shard P X i else []) = rebuildUpTo P X view 0 := by
        simp [rebuildUpTo]
      have hlen : (missing P X view).length ≤ P.data := length_missing_le
      rw [if_pos (by omega), hnew, Outcome.mapErr_ok, Outcome.ok_bind, hnil,
        Outcome.foldlM_range (rebuildUpTo P X view) ?_, Outcome.ok_bind, rebuildUpTo_stripeCount,
        reassemble_eq hP.fits hX]
      intro s hs
      refine rebuildStripe_eq hP hX hs hsub (hrec P.chunkSize (fun j => cell P X j s) _ _
        hP.chunk_lt_i32 ?_ ?_ ?_ (by omega) ?_ ?_)
      · rw [List.length_take, Nat.min_eq_left (by omega)]
        rfl
      · exact nodup_present.sublist (List.take_sublist _ _)
      · exact fun idx hidx => (mem_present.mp (hsub idx hidx)).1
      · exact fun i hi => (mem_missing.mp hi).1
      · exact fun i hi hmem => (mem_missing.mp hi).2 (mem_present.mp (hsub i hmem)).2

end Decode

/-! ### The round trip

Stated of the two functions alone: what was encoded is decoded from every view of it that
`k` slots still support, and every other view is refused. -/

/-- The shards in slot order, data shards first. -/
def EncodedShards.slots (sh : EncodedShards) : List Bytes := sh.data ++ sh.parity

/-- A view of encoded shards: as many slots, and what a slot holds is the shard of that slot
or a byte string of another length. -/
structure EncodedShards.IsView (sh : EncodedShards) (view : List (Option Bytes)) : Prop where
  /-- One slot per shard. -/
  length_eq : view.length = sh.slots.length
  /-- The shard, or another length. -/
  slot : ∀ (idx : ℕ) (b s : Bytes), view[idx]? = some (some b) → sh.slots[idx]? = some s →
    b = s ∨ b.length ≠ s.length

/-- The number of slots that carry the shard of that slot. -/
def EncodedShards.carried (sh : EncodedShards) (view : List (Option Bytes)) : ℕ :=
  (List.range sh.slots.length).countP fun idx => view[idx]? = some sh.slots[idx]?

/-- A slot that carries its shard is there. -/
theorem EncodedShards.IsView.carried_le {sh : EncodedShards} {view : List (Option Bytes)}
    (h : sh.IsView view) : sh.carried view ≤ view.countP Option.isSome := by
  rw [carried, ← Blocks.length_filter_range_getD view none, ← List.countP_eq_length_filter,
    h.length_eq]
  refine List.countP_mono_left fun idx hidx hcarries => ?_
  have hlt := List.mem_range.mp hidx
  have hget := of_decide_eq_true hcarries
  rw [List.getElem?_eq_getElem hlt] at hget
  rw [List.getD_eq_getElem?_getD, hget]
  rfl

theorem Layout.slots_encode (P : Profile) (X : Bytes) :
    (encode P X).slots = (List.range (P.data + P.parity)).map (shard P X) := by
  rw [EncodedShards.slots, encode, List.range_add, List.map_append, List.map_map]
  rfl

theorem Layout.IsView.of_encode {P : Profile} {X : Bytes} {view : List (Option Bytes)}
    (h : (encode P X).IsView view) : IsView P X view where
  length_eq := by rw [h.length_eq, slots_encode, List.length_map, List.length_range]
  slot idx b hb := by
    have hlt : idx < P.data + P.parity := by
      have hlen := (List.getElem?_eq_some_iff.mp hb).1
      rwa [h.length_eq, slots_encode, List.length_map, List.length_range] at hlen
    exact h.slot idx b _ hb (by simp [slots_encode, hlt])

theorem Layout.carried_encode (P : Profile) (X : Bytes) (view : List (Option Bytes)) :
    (encode P X).carried view = (present P X view).length := by
  rw [EncodedShards.carried, List.countP_eq_length_filter, slots_encode, List.length_map,
    List.length_range]
  congr 1
  refine List.filter_congr fun idx hidx => ?_
  have hlt := List.mem_range.mp hidx
  simp [Carries, hlt, List.getD_eq_getElem?_getD, Option.getD_eq_iff]

/-- **Any `k` shards give the object back, and fewer are refused.** -/
theorem decodeObject_encodeObject {isal : IsaL} (hI : isal.Correct) {P : Profile} (hP : P.Valid)
    (X : Buffer) : ∃ sh, encodeObject isal P X.bytes = .ok sh ∧
      sh.slots.length = P.data + P.parity ∧
      ∀ view, sh.IsView view → decodeObject isal P X.bytes.length view =
        if P.data ≤ sh.carried view then .ok X.bytes
        else .err (.notEnoughShards (sh.carried view) P.data) := by
  refine ⟨_, encodeObject_eq hI hP X.length_le, by simp [slots_encode], fun view hview => ?_⟩
  rw [decodeObject_eq hI hP X.length_le (.of_encode hview), carried_encode]

/-- Three bytes in cells of two, on two data shards and one parity shard. -/
theorem decodeObject_encodeObject_three_bytes :
    ∃ sh, encodeObject IsaL.reference ⟨2, 1, 2⟩ [1, 2, 3] = .ok sh ∧ sh.slots.length = 3 ∧
      ∀ view, sh.IsView view → decodeObject IsaL.reference ⟨2, 1, 2⟩ 3 view =
        if 2 ≤ sh.carried view then .ok [1, 2, 3]
        else .err (.notEnoughShards (sh.carried view) 2) :=
  decodeObject_encodeObject IsaL.reference_correct
    ⟨⟨by decide, by decide, by decide, by decide, by decide, by decide⟩, by decide⟩
    ⟨[1, 2, 3], by decide⟩

end OzoneRust
