import OzoneRust.Ec.Safety

/-!
# When decoding succeeds

The shards a decoder is given need not be those of one object: a survivor may hold another
version of its shard. All that decides whether `decode_object` returns an object is how many
slots hold a shard of the length that goes with the length of the object. With as many as
there are data shards it does, whatever the bytes are, and with fewer it does not
(`OzoneRust.decodeObject_isOk_iff`).

For the one half, any cells of as many sources are those of a code word, since the chosen rows
of the generator make an invertible matrix (`OzoneRust.exists_codeBuffer_eq`), so the decoder
has something to rebuild.
-/

namespace OzoneRust

open Layout

/-! ### Any cells of the sources -/

/-- **Any cells of as many sources as there are data shards are those of a code word.** -/
theorem exists_codeBuffer_eq {k m len : ℕ} (hk : k ≤ m) (hm : m ≤ 256) {sources : List ℕ}
    (hlen : sources.length = k) (hnd : sources.Nodup) (hlt : ∀ s ∈ sources, s < m)
    {cells : List Bytes} (hcount : cells.length = sources.length)
    (hcells : ∀ cell ∈ cells, cell.length = len) :
    ∃ bufs : ℕ → Bytes, cells = sources.map (codeBuffer k len bufs) := by
  have hget : ∀ a : Fin k, sources.getD a 0 = sources.get (a.cast hlen.symm) :=
    fun a => List.getD_eq_getElem _ _ (hlen.symm ▸ a.isLt)
  have hdet : (Cauchy.rows IsaL.point fun a : Fin k => sources.getD a 0).det ≠ 0 := by
    refine Cauchy.det_rows_ne_zero (IsaL.point_injOn hm) hk (fun a b hab => ?_) fun a => ?_
    · rw [hget, hget] at hab
      exact Fin.cast_injective _ (List.nodup_iff_injective_get.mp hnd hab)
    · rw [hget]
      exact hlt _ (List.get_mem _ _)
  -- at each position, the vector that the chosen rows take to the cells
  let M := Cauchy.rows IsaL.point fun a : Fin k => sources.getD a 0
  let symbols : ℕ → Fin k → Gf256 := fun pos a => ⟨(cells.getD a []).getD pos 0⟩
  let v : ℕ → Fin k → Gf256 := fun pos => M⁻¹.mulVec (symbols pos)
  have hv : ∀ pos, M.mulVec (v pos) = symbols pos := by
    intro pos
    rw [Matrix.mulVec_mulVec, Matrix.mul_nonsing_inv _ (isUnit_iff_ne_zero.mpr hdet),
      Matrix.one_mulVec]
  let bufs : ℕ → Bytes := fun j =>
    (List.range len).map fun pos => if h : j < k then (v pos ⟨j, h⟩).byte else 0
  refine ⟨bufs, List.ext_getElem (by rw [hcount, List.length_map]) fun a ha ha' => ?_⟩
  rw [List.length_map, hlen] at ha'
  have hcell : cells[a].length = len := hcells _ (List.getElem_mem ha)
  have hcellD : cells.getD a [] = cells[a] := List.getD_eq_getElem _ _ ha
  have hsrcD : sources.getD a 0 = sources[a] := List.getD_eq_getElem _ _ (hlen.symm ▸ ha')
  rw [List.getElem_map, codeBuffer, ← Blocks.map_range_getD_length cells[a] 0, hcell]
  refine List.map_congr_left fun pos hpos => ?_
  have hsymbol : codeSymbol k bufs sources[a] pos = symbols pos ⟨a, ha'⟩ := by
    rw [← hv pos, codeSymbol, Finset.sum_range]
    refine Finset.sum_congr rfl fun j _ => ?_
    have hbuf : (bufs j).getD pos 0 = (v pos j).byte := by
      simp [bufs, List.mem_range.mp hpos]
    rw [hbuf]
    change _ = Cauchy.gen k IsaL.point (sources.getD a 0) j * v pos j
    rw [hsrcD]
  rw [hsymbol]
  change _ = (cells.getD a []).getD pos 0
  rw [hcellD]

/-- **The decoder makes whole cells of whole cells**, and does not fail. -/
theorem IsaL.Correct.exists_reconstruct {isal : IsaL} (hI : isal.Correct) {P : Profile}
    (hP : P.Valid) : ∃ dec, InnerDecoder.new isal P.cfg = .ok dec ∧
      ∀ sources missing : List ℕ, sources.length = P.data → sources.Nodup →
        (∀ s ∈ sources, s < P.data + P.parity) → missing.Nodup →
        (∀ i ∈ missing, i < P.data ∧ i ∉ sources) →
        ∀ cells : List Bytes, cells.length = sources.length →
        (∀ cell ∈ cells, cell.length = P.chunkSize) →
        ∃ outs, dec.reconstruct isal P.chunkSize sources cells missing
            (List.replicate missing.length (List.replicate P.chunkSize 0)) = .ok outs ∧
          outs.map List.length = List.replicate missing.length P.chunkSize := by
  obtain ⟨dec, hnew, hrec⟩ := InnerDecoder.reconstruct_eq hI hP.cfg
  obtain ⟨h₁, h₂, h₃, h₄, h₅, h₆⟩ := hP.toInRange
  refine ⟨dec, hnew, fun sources missing hcount hnd hlt hmnd hmissing cells hccount hcells => ?_⟩
  have hmlen : missing.length ≤ P.data := by
    have hsub : missing ⊆ List.range P.data := fun i hi => List.mem_range.mpr (hmissing i hi).1
    simpa using (List.subperm_of_subset hmnd hsub).length_le
  obtain ⟨bufs, rfl⟩ := exists_codeBuffer_eq (Nat.le_add_right P.data P.parity) (by omega) hcount
    hnd hlt hccount hcells
  refine ⟨_, hrec _ bufs sources missing hP.chunk_lt_i32 hcount hnd hlt (by omega)
    (fun i hi => (hmissing i hi).1) fun i hi => (hmissing i hi).2, ?_⟩
  rw [List.map_map]
  exact List.map_eq_replicate_iff.mpr fun i _ => length_codeBuffer ..

/-! ### Steps that do not fail -/

theorem noErr_cellOff (P : Profile) (i s : ℕ) : (cellOff P i s).NoErr :=
  (Outcome.noErr_mul _ _).bind fun _ _ => (Outcome.noErr_mul _ _).bind fun _ _ =>
    (Outcome.noErr_mul _ _).bind fun _ _ => Outcome.noErr_add _ _

theorem noErr_cellLen (P : Profile) (len i s : ℕ) : (cellLen P len i s).NoErr :=
  (noErr_cellOff P i s).bind fun _ _ => trivial

theorem noErr_numStripes (P : Profile) (len : ℕ) : (numStripes P len).NoErr :=
  .ite trivial ((Outcome.noErr_mul _ _).bind fun _ _ => Outcome.noErr_divCeil _ _)

theorem noErr_paddedCell (P : Profile) (len idx s : ℕ) (shard : Bytes) :
    (paddedCell P len idx s shard).NoErr := by
  unfold paddedCell
  refine .ite ?_ ?_
  · refine (Outcome.noErr_foldlM (fun _ _ _ => (noErr_cellLen ..).bind fun _ _ =>
      Outcome.noErr_add _ _) _).bind fun _ _ => (noErr_cellLen ..).bind fun _ _ => ?_
    refine (Outcome.noErr_add _ _).bind fun _ _ => (Outcome.noErr_slice ..).bind fun _ _ => ?_
    exact .ite trivial trivial
  · exact (Outcome.noErr_mul _ _).bind fun _ _ => (Outcome.noErr_add _ _).bind fun _ _ =>
      Outcome.noErr_slice ..

theorem noErr_unwrapShard (shards : List (Option Bytes)) (idx : ℕ) :
    (unwrapShard shards idx).NoErr := by
  refine (Outcome.noErr_index ..).bind fun slot _ => ?_
  cases slot <;> trivial

theorem noErr_reassemble (P : Profile) (len : ℕ) (bufs : List Bytes) :
    (reassemble P len bufs).NoErr := by
  refine (noErr_numStripes P len).bind fun stripes _ => ?_
  refine (Outcome.noErr_foldlM (fun acc s _ => ?_) _).bind fun _ _ => trivial
  refine (Outcome.noErr_mapM fun i _ => ?_).bind fun _ _ => trivial
  exact (Outcome.noErr_index ..).bind fun _ _ => (noErr_cellLen ..).bind fun _ _ =>
    (Outcome.noErr_add ..).bind fun _ _ => (Outcome.noErr_index ..).bind fun _ _ =>
    (Outcome.noErr_slice ..).bind fun _ _ => trivial

/-! ### Shards of the right length -/

/-- The slot holds a shard of the length it must have. -/
def HasLength (P : Profile) (len : ℕ) (slot : Option Bytes × ℕ) : Bool :=
  slot.1.any fun b => expectedShardLen P len slot.2 = .ok b.length

/-- How many slots hold a shard of the length it must have. -/
def usable (P : Profile) (len : ℕ) (view : List (Option Bytes)) : ℕ :=
  view.zipIdx.countP (HasLength P len)

theorem isSome_of_dropInconsistent {P : Profile} {len : ℕ} (slot : Option Bytes × ℕ)
    (out : Option Bytes) (h : dropInconsistent P len slot = .ok out) :
    out.isSome = HasLength P len slot := by
  obtain ⟨slot, idx⟩ := slot
  cases slot with
  | none =>
    cases h
    rfl
  | some b =>
    obtain ⟨n, hn, h⟩ := Outcome.bind_eq_ok.mp h
    cases h
    by_cases hb : n = b.length <;> simp [HasLength, hn, hb, eq_comm]

section Decode

variable {P : Profile} {len : ℕ} {view shards : List (Option Bytes)}
  (hdrop : view.zipIdx.mapM (dropInconsistent P len) = .ok shards)

include hdrop

theorem length_of_dropInconsistent : shards.length = view.length := by
  rw [← (Outcome.forall₂_of_mapM_eq_ok hdrop).length_eq, List.length_zipIdx]

/-- What the decoder has left: as many shards as slots were usable. -/
theorem length_present_eq_usable :
    ((List.range view.length).filter fun idx => (shards.getD idx none).isSome).length =
      usable P len view := by
  rw [← length_of_dropInconsistent hdrop, Blocks.length_filter_range_getD]
  exact Blocks.countP_eq_of_forall₂ isSome_of_dropInconsistent (Outcome.forall₂_of_mapM_eq_ok hdrop)

end Decode

/-- **With too few shards of the right length there is no object.** -/
theorem le_usable_of_decodeObject {isal : IsaL} {P : Profile} {len : ℕ}
    {view : List (Option Bytes)} {X : Bytes} (h : decodeObject isal P len view = .ok X) :
    P.data ≤ usable P len view := by
  unfold decodeObject at h
  split at h
  · cases h
  obtain ⟨total, htotal, h⟩ := Outcome.bind_eq_ok.mp h
  split at h
  · cases h
  case isFalse hcount =>
    obtain ⟨shards, hdrop, h⟩ := Outcome.bind_eq_ok.mp h
    obtain ⟨stripes, -, h⟩ := Outcome.bind_eq_ok.mp h
    dsimp only at h
    rw [← length_present_eq_usable hdrop, not_ne_iff.mp hcount]
    split at h
    case isTrue hnone =>
      -- all data slots are there
      have hle : P.data ≤ total := by
        unfold Profile.total Outcome.add at htotal
        split at htotal
        · cases htotal
          exact Nat.le_add_right _ _
        · cases htotal
      have hsub : List.range P.data ⊆
          (List.range total).filter fun idx => (shards.getD idx none).isSome := by
        intro i hi
        have hlt := List.mem_range.mp hi
        refine List.mem_filter.mpr ⟨List.mem_range.mpr (by omega), ?_⟩
        simpa only [Bool.not_eq_true', Bool.not_eq_false] using List.filter_eq_nil_iff.mp hnone i hi
      simpa using (List.subperm_of_subset List.nodup_range hsub).length_le
    case isFalse =>
      split at h
      · cases h
      case isFalse hfew => exact Nat.not_lt.mp hfew

/-- **With enough shards of the right length there is one**, whatever their bytes. -/
theorem exists_decodeObject {isal : IsaL} (hI : isal.Correct) {P : Profile} (hP : P.Valid) {len : ℕ}
    (hlen : len ≤ maxLen) {view : List (Option Bytes)} (hview : view.length = P.data + P.parity)
    (henough : P.data ≤ usable P len view) :
    ∃ X, decodeObject isal P len view = .ok X ∧ X.length = len := by
  obtain ⟨dec, hnew, hrec⟩ := hI.exists_reconstruct hP
  obtain ⟨h₁, h₂, h₃, h₄, h₅, h₆⟩ := hP.toInRange
  -- the lengths of the layout do not depend on the bytes: take an object of zeros
  obtain ⟨X, rfl⟩ : ∃ X : Bytes, X.length = len := ⟨List.replicate len 0, List.length_replicate⟩
  refine Outcome.Safe.exists_ok (Q := fun out : Bytes => out.length = X.length) ?_ ?_
  · refine decodeObject_fits hP.fits hlen (by omega) (Outcome.safe_of_eq hnew ?_) view
    intro sources missing hcount hnd hlt hmnd hmissing cells hccount hcells
    obtain ⟨outs, houts, hlens⟩ := hrec sources missing hcount hnd hlt hmnd hmissing cells hccount
      hcells
    exact Outcome.safe_of_eq houts hlens
  · obtain ⟨shards, hdrop, -, hshards⟩ := dropInconsistent_consistent hP.fits hlen view
    have hpresent := length_present_eq_usable hdrop
    rw [hview] at hpresent
    unfold decodeObject
    rw [if_neg (by omega), Profile.total, Outcome.add_eq (by omega), Outcome.ok_bind,
      if_neg (not_ne_iff.mpr hview), hdrop, Outcome.ok_bind, numStripes_eq hP.fits, Outcome.ok_bind]
    dsimp only
    refine .ite (noErr_reassemble ..) ?_
    rw [hpresent, if_neg (Nat.not_lt.mpr henough), hnew, Outcome.mapErr_ok, Outcome.ok_bind]
    obtain ⟨hcount, hnd, hlt, hholds, hmnd, hmissing⟩ :=
      selection_spec (Nat.not_lt.mpr (hpresent ▸ henough)) rfl rfl
    refine (Outcome.noErr_foldlM (fun bufs s hs => ?_) _).bind fun _ _ => noErr_reassemble ..
    refine (Outcome.noErr_mapM fun _ _ => (noErr_unwrapShard ..).bind fun _ _ =>
      noErr_paddedCell ..).bind fun cells hcells => ?_
    obtain ⟨hccount, hclens⟩ :=
      (sourceCells_safe hP.fits hlen hshards hholds (List.mem_range.mp hs)).of_ok hcells
    obtain ⟨outs, houts, -⟩ := hrec _ _ hcount hnd hlt hmnd hmissing cells hccount hclens
    dsimp only
    rw [houts, Outcome.mapErr_ok, Outcome.ok_bind]
    refine (Outcome.noErr_mapM ?_).bind fun _ _ => trivial
    rintro ⟨i, out⟩ -
    exact (noErr_cellLen ..).bind fun _ _ => (Outcome.noErr_slice ..).bind fun _ _ => trivial

/-- **An object is returned exactly if as many slots as there are data shards hold a shard of
the right length.** -/
theorem decodeObject_isOk_iff {isal : IsaL} (hI : isal.Correct) {P : Profile} (hP : P.Valid)
    {len : ℕ}
    (hlen : len ≤ maxLen) {view : List (Option Bytes)} (hview : view.length = P.data + P.parity) :
    (∃ X, decodeObject isal P len view = .ok X) ↔ P.data ≤ usable P len view := by
  refine ⟨fun ⟨X, h⟩ => le_usable_of_decodeObject h, fun h => ?_⟩
  obtain ⟨X, hX, -⟩ := exists_decodeObject hI hP hlen hview h
  exact ⟨X, hX⟩

end OzoneRust
