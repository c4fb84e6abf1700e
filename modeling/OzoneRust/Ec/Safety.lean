import OzoneRust.Ec.Decode
import OzoneRust.Ec.Erasures

/-!
# Decoding anything

`decode_object` is given a length and shards that come from other nodes. Whatever they are,
it does not panic, and an object it returns has the length asked for
(`OzoneRust.decodeObject_safe`).

Nothing is assumed of the bytes ISA-L writes, only that it writes them into the buffers it
is given (`OzoneRust.IsaL.Shaped`), and nothing of the profile but that its numbers came
through their wire types. The argument is about lengths alone. Any object of the length
asked for has the right ones, so the lengths of the layout are those of a string of zeros;
a slot that is kept has the length of its shard, and each cell the decoder cuts, pads,
rebuilds or puts together is as long as the layout says.
-/

namespace OzoneRust

open Layout

/-! ### ISA-L and its buffers -/

/-- ISA-L writes into the buffers it is given, as many bytes as they have. -/
structure IsaL.Shaped (isal : IsaL) : Prop where
  /-- The generator has `m` rows of `k` bytes. -/
  cauchy : ∀ m k : ℕ, (isal.gfGenCauchy1Matrix m k).length = m * k
  /-- An inverse has the size of the matrix. -/
  invert : ∀ (input : Bytes) (n : ℤ) (inv : Bytes), isal.gfInvertMatrix input n = some inv →
    inv.length = input.length
  /-- The outputs keep their number and their lengths. -/
  encode : ∀ (len k rows : ℤ) (gTbls : Bytes) (data coding : List Bytes),
    (isal.ecEncodeData len k rows gTbls data coding).map List.length = coding.map List.length

section Coder

variable {isal : IsaL} (hI : isal.Shaped)

include hI

/-- A decoder has a valid shape and a whole generator. -/
theorem InnerDecoder.safe_new (cfg : EcConfig) : Outcome.Safe (fun dec : InnerDecoder =>
    dec.cfg = cfg ∧ cfg.Valid ∧ dec.encodeMatrix.length = (cfg.data + cfg.parity) * cfg.data)
      (InnerDecoder.new isal cfg) := by
  unfold new EcConfig.validate
  split
  · trivial
  · have hcfg : cfg.Valid := by constructor <;> omega
    obtain ⟨h₁, h₂, h₃, h₄⟩ := id hcfg
    rw [Outcome.ok_bind, buildEncodeMatrix, EcConfig.total_eq hcfg, Outcome.ok_bind,
      toI32_eq (by omega), Outcome.ok_bind, toI32_eq (by omega), Outcome.ok_bind,
      Outcome.pure_eq, Outcome.ok_bind]
    exact ⟨rfl, hcfg, hI.cauchy _ _⟩

/-- An encoder is made for every valid shape. -/
theorem InnerEncoder.new_eq_ok {cfg : EcConfig} (hcfg : cfg.Valid) :
    ∃ enc, InnerEncoder.new isal cfg = .ok enc ∧ enc.cfg = cfg := by
  obtain ⟨h₁, h₂, h₃, h₄⟩ := id hcfg
  have hsq : cfg.data * cfg.data ≤ 32 * 32 := Nat.mul_le_mul h₂ h₂
  unfold new
  rw [EcConfig.validate_eq hcfg, Outcome.ok_bind, buildEncodeMatrix, EcConfig.total_eq hcfg,
    Outcome.ok_bind, toI32_eq (by omega), Outcome.ok_bind, toI32_eq (by omega), Outcome.ok_bind,
    Outcome.pure_eq, Outcome.ok_bind, Outcome.mul_eq (by omega), Outcome.ok_bind, hI.cauchy,
    Nat.add_mul, Outcome.slice_add_eq (by rw [hI.cauchy, Nat.add_mul]), Outcome.ok_bind]
  exact ⟨_, rfl, rfl⟩

end Coder

theorem checkLens_safe (len : ℕ) (bufs : List Bytes) :
    Outcome.Safe (fun _ => ∀ b ∈ bufs, b.length = len) (checkLens len bufs) := by
  unfold checkLens
  split
  · trivial
  case h_2 h => exact fun b hb => by simpa using List.find?_eq_none.mp h b hb

theorem InnerDecoder.checkSources_safe {m : ℕ} : ∀ (l seen : List ℕ),
    Outcome.Safe (fun _ => ∀ s ∈ l, s < m) (InnerDecoder.checkSources m l seen)
  | [], _ => by rintro s ⟨⟩
  | s :: l, seen => by
    rw [checkSources]
    split_ifs with hs hseen
    · trivial
    · trivial
    · refine (checkSources_safe l (s :: seen)).mono fun _ h t ht => ?_
      rcases List.mem_cons.mp ht with rfl | ht
      · exact not_le.mp hs
      · exact h t ht

theorem InnerDecoder.checkErased_safe {m : ℕ} {sources : List ℕ} : ∀ l : List ℕ,
    Outcome.Safe (fun _ => ∀ e ∈ l, e < m) (InnerDecoder.checkErased m sources l)
  | [] => by rintro s ⟨⟩
  | e :: l => by
    rw [checkErased]
    split_ifs with he hsource
    · trivial
    · trivial
    · refine (checkErased_safe l).mono fun _ h t ht => ?_
      rcases List.mem_cons.mp ht with rfl | ht
      · exact not_le.mp he
      · exact h t ht

/-- The loops over a row stay inside a matrix of `n` rows. -/
theorem mul_add_lt_mul {k n row col : ℕ} (hrow : row < n) (hcol : col < k) :
    k * row + col < n * k := by
  have hle : k * (row + 1) ≤ k * n := Nat.mul_le_mul_left _ hrow
  rw [Nat.mul_succ] at hle
  rw [Nat.mul_comm n k]
  omega

section Reconstruct

variable {isal : IsaL} {dec : InnerDecoder} {m : ℕ}
  (hmatrix : dec.encodeMatrix.length = m * dec.cfg.data)

include hmatrix

theorem InnerDecoder.decodeRow_safe {inv : Bytes} (hinv : inv.length = dec.cfg.data * dec.cfg.data)
    {e : ℕ} (he : e < m) :
    Outcome.Safe (·.length = dec.cfg.data) (dec.decodeRow isal inv e) := by
  unfold decodeRow
  dsimp only
  split
  case isTrue hdata =>
    refine (Outcome.safe_mapM (Q := fun _ _ => True) fun j hj => ?_).mono fun row hrow => ?_
    · refine (Outcome.safe_index ?_).mono fun _ _ => trivial
      rw [hinv]
      exact mul_add_lt_mul hdata (List.mem_range.mp hj)
    · rw [← hrow.length_eq, List.length_range]
  case isFalse =>
    refine (Outcome.safe_mapM (Q := fun _ _ => True) fun col hcol => ?_).mono fun row hrow => ?_
    · refine Outcome.safe_foldlM_range (fun _ _ => True) (fun row hrow acc _ => ?_) trivial
      refine (Outcome.safe_index ?_).bind fun a _ => (Outcome.safe_index ?_).bind fun b _ => trivial
      · rw [hinv]
        exact mul_add_lt_mul hrow (List.mem_range.mp hcol)
      · rw [hmatrix]
        exact mul_add_lt_mul he hrow
    · rw [← hrow.length_eq, List.length_range]

/-- **The reconstruction does not panic**, and its outputs are as long as they were. -/
theorem InnerDecoder.reconstruct_safe (hI : isal.Shaped) (hcfg : dec.cfg.Valid)
    (hm : m = dec.cfg.data + dec.cfg.parity) (len : ℕ) (sourceIndices : List ℕ)
    (sources : List Bytes) (erased : List ℕ) (outputs : List Bytes) :
    Outcome.Safe (fun out => out.map List.length = outputs.map List.length)
      (dec.reconstruct isal len sourceIndices sources erased outputs) := by
  unfold reconstruct
  dsimp only
  rw [EcConfig.total_eq hcfg, Outcome.ok_bind, ← hm]
  split_ifs with hsrc hcount hout hnil
  · trivial
  · trivial
  · trivial
  · exact rfl
  refine (checkLens_safe _ _).bind fun _ _ => (checkLens_safe _ _).bind fun _ _ => ?_
  refine (checkSources_safe _ _).bind fun _ hlt => (checkErased_safe _).bind fun _ helt => ?_
  -- the chosen rows make a square matrix
  refine Outcome.Safe.bind
    (Q := fun b : List Bytes => b.flatten.length = dec.cfg.data * dec.cfg.data) ?_ fun b hb => ?_
  · refine (Outcome.safe_mapM (Q := fun _ row => row.length = dec.cfg.data)
      fun src hmem => ?_).mono fun b hb => ?_
    · refine (Outcome.safe_mapM (Q := fun _ _ => True) fun j hj => ?_).mono fun row hrow => ?_
      · refine (Outcome.safe_index ?_).mono fun _ _ => trivial
        rw [hmatrix]
        exact mul_add_lt_mul (hlt src hmem) (List.mem_range.mp hj)
      · rw [← hrow.length_eq, List.length_range]
    · rw [Blocks.length_flatten_of_forall₂ hb, not_ne_iff.mp hsrc]
  · simp only [toI32_truncate, Outcome.ok_bind]
    split
    · trivial
    case h_2 inv hinv =>
      have hinvlen := (hI.invert _ _ _ hinv).trans hb
      refine (Outcome.safe_mapM (Q := fun _ _ => True) fun e he => ?_).bind fun rows _ => ?_
      · exact (decodeRow_safe hmatrix hinvlen (helt e he)).mono fun _ _ => trivial
      · exact hI.encode _ _ _ _ _ _

end Reconstruct

/-! ### Cells of shards of the right length -/

section Lengths

variable {P : Profile} (hP : P.Fits) {X : Bytes} (hX : X.length ≤ maxLen)

/-- Where the cell of shard `i` in stripe `s` begins. -/
def Layout.cursor (P : Profile) (X : Bytes) (i s : ℕ) : ℕ :=
  ((List.range s).flatMap (stored P X i)).length

theorem Layout.cursor_succ (i s : ℕ) :
    cursor P X i (s + 1) = cursor P X i s + (stored P X i s).length := by
  rw [cursor, Blocks.flatMap_range_succ, List.length_append, cursor]

theorem Layout.cursor_add_le {i s : ℕ} (hs : s < stripeCount P X.length) :
    cursor P X i s + (stored P X i s).length ≤ (shard P X i).length :=
  Blocks.length_add_le _ hs

/-- The slice that is a cell. -/
theorem Layout.slice_cursor {i s : ℕ} (hs : s < stripeCount P X.length) {b : Bytes}
    (hb : b.length = (shard P X i).length) :
    Outcome.slice b (cursor P X i s) (cursor P X i s + (stored P X i s).length) =
      (.ok ((b.drop (cursor P X i s)).take (stored P X i s).length) : Outcome EcError Bytes) :=
  Outcome.slice_add_eq (hb ▸ cursor_add_le hs)

theorem Layout.length_slice_cursor {i s : ℕ} (hs : s < stripeCount P X.length) {b : Bytes}
    (hb : b.length = (shard P X i).length) :
    ((b.drop (cursor P X i s)).take (stored P X i s).length).length = (stored P X i s).length := by
  have hle := cursor_add_le (i := i) hs
  rw [List.length_take, List.length_drop]
  omega

theorem padCell_safe {c : ℕ} {part : Bytes} (h : part.length ≤ c) :
    Outcome.Safe (·.length = c) (padCell c part) := by
  unfold padCell
  rw [if_pos h]
  change (part ++ List.replicate (c - part.length) 0).length = c
  rw [List.length_append, List.length_replicate]
  omega

include hP hX

/-- **The padded cell of any shard of the right length.** -/
theorem paddedCell_safe {s : ℕ} (hs : s < stripeCount P X.length) {idx : ℕ} {b : Bytes}
    (hb : b.length = (shard P X idx).length) :
    Outcome.Safe (·.length = P.chunkSize) (paddedCell P X.length idx s b) := by
  have hlt := length_shard_lt hP hX idx
  have hle := cursor_add_le (i := idx) hs
  have hslice := slice_cursor hs hb
  have hlen := length_slice_cursor hs hb
  unfold paddedCell
  dsimp only
  split
  case isTrue hi =>
    rw [foldlM_cellLen hP hX hs hi, Outcome.ok_bind, cellLen_cell hP hX hs hi, Outcome.ok_bind,
      ← stored_data hi, ← cursor, Outcome.add_eq (by omega), Outcome.ok_bind, hslice,
      Outcome.ok_bind]
    exact padCell_safe (hlen.le.trans (length_stored_le P X idx s))
  case isFalse hi =>
    have hstored : stored P X idx = codeCell P X idx := funext fun t => if_neg hi
    have hcursor : cursor P X idx s = s * P.chunkSize := by
      rw [cursor, hstored]
      exact Blocks.length_flatMap_range_const _ fun t _ => length_codeCell P X idx t
    have hcell : (stored P X idx s).length = P.chunkSize := by rw [hstored, length_codeCell]
    rw [hcell] at hslice hlen hle
    rw [Outcome.mul_eq (by omega), Outcome.ok_bind, ← hcursor, Outcome.add_eq (by omega),
      Outcome.ok_bind, hslice]
    exact hlen

end Lengths

/-! ### Reassembly -/

/-- Data shards of the right lengths. -/
def Layout.Whole (P : Profile) (X : Bytes) (bufs : List Bytes) : Prop :=
  bufs.length = P.data ∧ ∀ i < P.data, (bufs.getD i []).length = (shard P X i).length

section Reassemble

variable {P : Profile} (hP : P.Fits) {X : Bytes} (hX : X.length ≤ maxLen) {bufs : List Bytes}

/-- What the reassembly has after `s` stripes: so many bytes of the object, and the cursors at
the next cells. -/
def Layout.Reassembled (P : Profile) (X : Bytes) (s : ℕ) (acc : Bytes × List ℕ) : Prop :=
  acc.1.length = (X.take (s * P.stripe)).length ∧
    acc.2 = (List.range P.data).map fun i => cursor P X i s

include hP hX

theorem reassembleStripe_safe (hbufs : Whole P X bufs) {s : ℕ} (hs : s < stripeCount P X.length)
    {acc : Bytes × List ℕ} (hacc : Reassembled P X s acc) :
    Outcome.Safe (Reassembled P X (s + 1)) (reassembleStripe P X.length bufs acc s) := by
  obtain ⟨out, cursors⟩ := acc
  obtain ⟨hout, rfl⟩ : _ ∧ cursors = _ := hacc
  obtain ⟨hcount, hlens⟩ := hbufs
  have hparts : ∀ i ∈ List.range P.data, (do
      let cur ← Outcome.index ((List.range P.data).map fun i => cursor P X i s) i
      let cl ← cellLen P X.length i s
      let next ← Outcome.add cur cl
      let part ← Outcome.slice (← Outcome.index bufs i) cur next
      return (part, next) : Outcome EcError (Bytes × ℕ)) =
      .ok (((bufs.getD i []).drop (cursor P X i s)).take (stored P X i s).length,
        cursor P X i (s + 1)) := by
    intro i hi
    have hi' := List.mem_range.mp hi
    have hle := cursor_add_le (i := i) hs
    have hlt := length_shard_lt hP hX i
    rw [Outcome.index_map_range hi', Outcome.ok_bind, cellLen_cell hP hX hs hi', ← stored_data hi',
      Outcome.ok_bind, Outcome.add_eq (by omega), Outcome.ok_bind,
      Outcome.index_getD (hcount ▸ hi') [], Outcome.ok_bind, slice_cursor hs (hlens i hi'),
      Outcome.ok_bind, Outcome.pure_eq, cursor_succ]
  unfold reassembleStripe
  dsimp only
  rw [Outcome.mapM_eq hparts, Outcome.ok_bind, Outcome.pure_eq]
  refine ⟨?_, ?_⟩
  · -- the parts are as long as the cells of the stripe
    have hcells : (((List.range P.data).map fun i =>
        ((bufs.getD i []).drop (cursor P X i s)).take (stored P X i s).length).flatten).length =
        ((X.drop (s * P.stripe)).take P.stripe).length := by
      rw [← flatMap_cell, List.flatMap_def, List.length_flatten, List.length_flatten, List.map_map,
        List.map_map]
      refine congrArg List.sum (List.map_congr_left fun i hi => ?_)
      have hi' := List.mem_range.mp hi
      rw [Function.comp_apply, Function.comp_apply, length_slice_cursor hs (hlens i hi'),
        stored_data hi']
    change (out ++ _).length = _
    rw [List.length_append, hout, List.map_map, Function.comp_def, hcells, ← List.length_append,
      ← List.take_add, Nat.succ_mul]
  · change List.map _ _ = _
    rw [List.map_map]
    rfl

/-- **Data shards of the right lengths make an object of the right length.** -/
theorem reassemble_safe (hbufs : Whole P X bufs) :
    Outcome.Safe (·.length = X.length) (reassemble P X.length bufs) := by
  unfold reassemble
  rw [numStripes_eq hP, Outcome.ok_bind]
  refine (Outcome.safe_foldlM_range (Reassembled P X)
    (fun s hs acc hacc => reassembleStripe_safe hP hX hbufs hs hacc) ?_).bind fun acc hacc => ?_
  · refine ⟨by simp, ?_⟩
    simp [cursor]
  · refine hacc.1.trans ?_
    rw [List.take_of_length_le (le_stripeCount_mul hP _)]

end Reassemble

/-! ### Reconstruction -/

/-- The slots after those of the wrong length are emptied. -/
def Layout.Consistent (P : Profile) (X : Bytes) (shards : List (Option Bytes)) : Prop :=
  ∀ idx b, shards[idx]? = some (some b) → b.length = (shard P X idx).length

/-- The data shards after `s` stripes of the reconstruction: the missing ones have grown by `s`
cells. -/
def Layout.Rebuilt (P : Profile) (X : Bytes) (missing : List ℕ) (s : ℕ) (bufs : List Bytes) :
    Prop :=
  bufs.length = P.data ∧ ∀ i < P.data, (bufs.getD i []).length =
    if i ∈ missing then cursor P X i s else (shard P X i).length

theorem Layout.Rebuilt.whole {P : Profile} {X : Bytes} {missing : List ℕ} {bufs : List Bytes}
    (h : Rebuilt P X missing (stripeCount P X.length) bufs) : Whole P X bufs := by
  refine ⟨h.1, fun i hi => (h.2 i hi).trans ?_⟩
  split <;> rfl

/-- A slot that holds a shard. -/
theorem exists_of_isSome_getD {shards : List (Option Bytes)} {idx : ℕ}
    (h : (shards.getD idx none).isSome = true) : ∃ b, shards[idx]? = some (some b) := by
  obtain ⟨b, hb⟩ := Option.isSome_iff_exists.mp h
  rw [List.getD_eq_getElem?_getD] at hb
  cases hget : shards[idx]? with
  | none =>
    rw [hget] at hb
    cases hb
  | some slot =>
    rw [hget] at hb
    exact ⟨b, congrArg some hb⟩

/-- **What the decoder works with** where there are enough shards: the first of them as the
sources, and the data shards that are missing. -/
theorem selection_spec {P : Profile} {shards : List (Option Bytes)}
    (h : ¬((List.range (P.data + P.parity)).filter fun idx =>
      (shards.getD idx none).isSome).length < P.data) {sources missing : List ℕ}
    (hsources : sources = ((List.range (P.data + P.parity)).filter fun idx =>
      (shards.getD idx none).isSome).take P.data)
    (hmissing : missing = (List.range P.data).filter fun i => !(shards.getD i none).isSome) :
    sources.length = P.data ∧ sources.Nodup ∧ (∀ s ∈ sources, s < P.data + P.parity) ∧
      (∀ s ∈ sources, ∃ b, shards[s]? = some (some b)) ∧ missing.Nodup ∧
      ∀ i ∈ missing, i < P.data ∧ i ∉ sources := by
  subst hsources hmissing
  have hsource : ∀ s ∈ ((List.range (P.data + P.parity)).filter fun idx =>
      (shards.getD idx none).isSome).take P.data,
      s < P.data + P.parity ∧ (shards.getD s none).isSome = true := by
    intro s hs
    obtain ⟨hlt, hsome⟩ := List.mem_filter.mp (List.mem_of_mem_take hs)
    exact ⟨List.mem_range.mp hlt, hsome⟩
  refine ⟨?_, (List.nodup_range.filter _).sublist (List.take_sublist _ _),
    fun s hs => (hsource s hs).1, fun s hs => exists_of_isSome_getD (hsource s hs).2,
    List.nodup_range.filter _, fun i hi => ?_⟩
  · rw [List.length_take]
    omega
  · obtain ⟨hlt, hnot⟩ := List.mem_filter.mp hi
    refine ⟨List.mem_range.mp hlt, fun hmem => ?_⟩
    rw [(hsource i hmem).2] at hnot
    cases hnot

/-- From whole cells of the sources the decoder makes whole cells. -/
def InnerDecoder.RebuildsCells (isal : IsaL) (c : ℕ) (sources missing : List ℕ)
    (dec : InnerDecoder) : Prop :=
  ∀ cells : List Bytes, cells.length = sources.length → (∀ cell ∈ cells, cell.length = c) →
    Outcome.Safe (fun outs => outs.map List.length = List.replicate missing.length c)
      (dec.reconstruct isal c sources cells missing
        (List.replicate missing.length (List.replicate c 0)))

section Rebuild

variable {isal : IsaL} {P : Profile} (hP : P.Fits) {X : Bytes}
  (hX : X.length ≤ maxLen) {shards : List (Option Bytes)} (hshards : Consistent P X shards)

include hP hX hshards

/-- The cells of the sources are whole. -/
theorem sourceCells_safe {sources : List ℕ}
    (hsources : ∀ idx ∈ sources, ∃ b, shards[idx]? = some (some b)) {s : ℕ}
    (hs : s < stripeCount P X.length) :
    Outcome.Safe (fun cells : List Bytes => cells.length = sources.length ∧
        ∀ cell ∈ cells, cell.length = P.chunkSize)
      (sources.mapM fun idx => do
        paddedCell P X.length idx s (← unwrapShard shards idx)) := by
  refine Outcome.safe_mapM_forall fun idx hidx => ?_
  obtain ⟨b, hb⟩ := hsources idx hidx
  rw [unwrapShard, Outcome.index_eq hb, Outcome.ok_bind]
  dsimp only
  rw [Outcome.pure_eq, Outcome.ok_bind]
  exact paddedCell_safe hP hX hs (hshards idx b hb)

/-- One turn of the reconstruction. -/
theorem rebuildStripe_safe {dec : InnerDecoder} {sources missing : List ℕ}
    (hdec : dec.RebuildsCells isal P.chunkSize sources missing)
    (hsources : ∀ idx ∈ sources, ∃ b, shards[idx]? = some (some b))
    (hmissing : ∀ i ∈ missing, i < P.data) (hnodup : missing.Nodup) {s : ℕ}
    (hs : s < stripeCount P X.length) {bufs : List Bytes} (hbufs : Rebuilt P X missing s bufs) :
    Outcome.Safe (Rebuilt P X missing (s + 1))
      (rebuildStripe isal P dec X.length shards sources missing bufs s) := by
  unfold rebuildStripe
  refine (sourceCells_safe hP hX hshards hsources hs).bind fun cells hcells => ?_
  dsimp only
  refine (hdec cells hcells.1 hcells.2).mapErr.bind fun outs houts => ?_
  -- every output is a whole cell
  have hlens : ∀ out ∈ outs, out.length = P.chunkSize := by
    intro out hout
    have hmem := List.mem_map_of_mem (f := List.length) hout
    rw [houts] at hmem
    exact List.eq_of_mem_replicate hmem
  have hcount : outs.length = missing.length := by
    simpa using congrArg List.length houts
  refine (Outcome.safe_mapM (Q := fun (e part : ℕ × Bytes) =>
    (e.1, (stored P X e.1 s).length) = (part.1, part.2.length)) ?_).bind fun parts hparts => ?_
  · rintro ⟨i, out⟩ hmem
    have hi := hmissing i (List.of_mem_zip hmem).1
    have hout := hlens out (List.of_mem_zip hmem).2
    have hle : 0 + (stored P X i s).length ≤ out.length := by
      rw [Nat.zero_add, hout]
      exact length_stored_le P X i s
    have hslice := @Outcome.slice_add_eq EcError _ _ _ _ hle
    rw [Nat.zero_add] at hslice
    dsimp only
    rw [cellLen_cell hP hX hs hi, Outcome.ok_bind, ← stored_data hi, hslice, Outcome.ok_bind]
    refine congrArg (Prod.mk i) ?_
    rw [List.drop_zero, List.length_take]
    omega
  · have hshape : (missing.zip outs).map (fun e => (e.1, (stored P X e.1 s).length)) =
        parts.map fun part => (part.1, part.2.length) := by
      rw [← List.forall₂_eq_eq_eq, List.forall₂_map_left_iff, List.forall₂_map_right_iff]
      exact hparts
    have hfst : parts.map Prod.fst = missing := by
      have h := congrArg (List.map Prod.fst) hshape
      rw [List.map_map, List.map_map] at h
      exact h.symm.trans (List.map_fst_zip hcount.ge)
    have hpart : ∀ part ∈ parts, part.2.length = (stored P X part.1 s).length := by
      intro part hpart
      have hmem := List.mem_map_of_mem (f := fun part : ℕ × Bytes => (part.1, part.2.length)) hpart
      rw [← hshape] at hmem
      obtain ⟨e, -, he⟩ := List.mem_map.mp hmem
      obtain ⟨hfst, hlen⟩ := Prod.mk.inj he
      rw [← hlen, hfst]
    refine ⟨(Blocks.length_foldl_modify _ _).trans hbufs.1, fun i hi => ?_⟩
    rw [Blocks.length_getD_foldl_modify (n := fun i => (stored P X i s).length) parts bufs
      (hfst ▸ hnodup) hpart (hbufs.1 ▸ hi), hbufs.2 i hi, hfst]
    split
    · exact (cursor_succ i s).symm
    · rfl

omit hshards in
/-- Emptying the slots of the wrong length does not fail. -/
theorem dropInconsistent_consistent (view : List (Option Bytes)) :
    ∃ shards, view.zipIdx.mapM (dropInconsistent P X.length) = .ok shards ∧
      shards.length = view.length ∧ Consistent P X shards := by
  have hdrop : ∀ slot ∈ view.zipIdx, dropInconsistent P X.length slot =
      .ok (slot.1.filter fun b => b.length = (shard P X slot.2).length) := by
    rintro ⟨slot, idx⟩ -
    cases slot with
    | none => rfl
    | some b =>
      rw [dropInconsistent, expectedShardLen_eq hP hX, Outcome.ok_bind, Outcome.pure_eq]
      by_cases hb : b.length = (shard P X idx).length <;> simp [hb, Option.filter]
  refine ⟨_, Outcome.mapM_eq hdrop, by simp, fun idx b hb => ?_⟩
  rw [List.getElem?_map, List.getElem?_zipIdx, Option.map_map] at hb
  obtain ⟨slot, -, hslot⟩ := Option.map_eq_some_iff.mp hb
  rw [Function.comp_apply] at hslot
  dsimp only at hslot
  rw [Nat.zero_add] at hslot
  simpa using (Option.filter_eq_some_iff.mp hslot).2

omit hshards in
/-- The decoder, for a profile that fits. -/
theorem decodeObject_fits (hparity : P.parity < 2 ^ 8)
    (hdec : Outcome.Safe (fun dec => ∀ sources missing : List ℕ, sources.length = P.data →
        sources.Nodup → (∀ s ∈ sources, s < P.data + P.parity) →
        missing.Nodup → (∀ i ∈ missing, i < P.data ∧ i ∉ sources) →
        dec.RebuildsCells isal P.chunkSize sources missing) (InnerDecoder.new isal P.cfg))
    (view : List (Option Bytes)) :
    Outcome.Safe (·.length = X.length) (decodeObject isal P X.length view) := by
  obtain ⟨h₁, h₂, h₃, h₄⟩ := id hP
  obtain ⟨shards, hdrop, hcount, hshards⟩ := dropInconsistent_consistent hP hX view
  unfold decodeObject
  rw [if_neg (by omega), Profile.total, Outcome.add_eq (by omega), Outcome.ok_bind]
  split_ifs with hslots
  · trivial
  rw [hdrop, Outcome.ok_bind, numStripes_eq hP, Outcome.ok_bind]
  dsimp only
  have hstart : Rebuilt P X ((List.range P.data).filter fun i => !(shards.getD i none).isSome) 0
      ((shards.take P.data).map (·.getD [])) := by
    refine ⟨by simp; omega, fun i hi => ?_⟩
    have hget : ((shards.take P.data).map (·.getD [])).getD i [] =
        (shards.getD i none).getD [] := by
      rw [List.getD_eq_getElem?_getD, List.getElem?_map, List.getElem?_take_of_lt hi,
        List.getD_eq_getElem?_getD]
      cases shards[i]? <;> rfl
    rw [hget]
    cases hslot : shards.getD i none with
    | none =>
      rw [if_pos (List.mem_filter.mpr ⟨List.mem_range.mpr hi, by rw [hslot]; rfl⟩)]
      rfl
    | some b =>
      obtain ⟨b', hb'⟩ := exists_of_isSome_getD (by rw [hslot]; rfl)
      have hb : b = b' := by
        rw [List.getD_eq_getElem?_getD, hb'] at hslot
        exact (Option.some.inj hslot).symm
      have hnot : i ∉ (List.range P.data).filter fun i => !(shards.getD i none).isSome := by
        intro hmem
        have hsome := (List.mem_filter.mp hmem).2
        rw [hslot] at hsome
        cases hsome
      rw [if_neg hnot, hb]
      exact hshards i b' hb'
  split_ifs with hnone hfew
  · rw [hnone] at hstart
    exact reassemble_safe hP hX ⟨hstart.1, fun i hi => hstart.2 i hi⟩
  · trivial
  · refine hdec.mapErr.bind fun dec hdec => ?_
    refine (Outcome.safe_foldlM_range (Rebuilt P X _) (fun s hs bufs hbufs => ?_) hstart).bind
      fun bufs hbufs => reassemble_safe hP hX hbufs.whole
    obtain ⟨hcount, hnd, hlt, hholds, hmnd, hmissing⟩ := selection_spec hfew rfl rfl
    exact rebuildStripe_safe hP hX hshards (hdec _ _ hcount hnd hlt hmnd hmissing) hholds
      (fun i hi => (hmissing i hi).1) hmnd hs hbufs

end Rebuild

/-- The decoder keeps the lengths of the buffers ISA-L writes into. -/
theorem IsaL.Shaped.rebuildsCells {isal : IsaL} (hI : isal.Shaped) (P : Profile) :
    Outcome.Safe (fun dec => ∀ sources missing : List ℕ, sources.length = P.data →
        sources.Nodup → (∀ s ∈ sources, s < P.data + P.parity) →
        missing.Nodup → (∀ i ∈ missing, i < P.data ∧ i ∉ sources) →
        dec.RebuildsCells isal P.chunkSize sources missing) (InnerDecoder.new isal P.cfg) := by
  refine (InnerDecoder.safe_new hI P.cfg).mono
    fun dec hdec sources missing _ _ _ _ _ cells _ _ => ?_
  obtain ⟨hdcfg, hcfg, hmatrix⟩ := hdec
  rw [← hdcfg] at hcfg hmatrix
  refine (InnerDecoder.reconstruct_safe hmatrix hI hcfg rfl _ _ _ _ _).mono fun outs houts => ?_
  rw [houts, List.map_replicate, List.length_replicate]

/-! ### Encoding -/

/-- Encoding does not panic either. -/
theorem encodeObject_fits {isal : IsaL} (hI : isal.Shaped) {P : Profile} (hP : P.Fits) {X : Bytes}
    (hX : X.length ≤ maxLen) : Outcome.Safe (fun _ => True) (encodeObject isal P X) := by
  have hk := hP.data_pos
  have hc := hP.chunk_pos
  have hlt := stripeCount_mul_chunkSize_lt hP X.length
  have hstripe := stripe_lt hP
  unfold encodeObject
  rw [if_neg (by omega), numStripes_eq hP, Outcome.ok_bind]
  refine Outcome.Safe.bind (Q := fun _ => True) ?_ fun enc _ => ?_
  · by_cases hcfg : P.cfg.Valid
    · obtain ⟨enc, henc, -⟩ := InnerEncoder.new_eq_ok hI hcfg
      rw [henc]
      trivial
    · rw [InnerEncoder.new, EcConfig.validate,
        if_pos (by by_contra h; exact hcfg (by constructor <;> omega))]
      trivial
  rw [Outcome.mul_eq (by unfold maxLen at hX; omega), Outcome.ok_bind]
  refine Outcome.safe_foldlM_range (fun _ _ => True) (fun s hs acc _ => ?_) trivial
  unfold encodeObjectStripe
  rw [mapM_dataCell hP hX hs, Outcome.ok_bind, mapM_padCell, Outcome.ok_bind]
  refine Outcome.Safe.bind (Q := fun _ => True) (Outcome.Safe.mapErr ?_) fun _ _ => trivial
  unfold InnerEncoder.encode
  split_ifs
  · trivial
  · trivial
  · exact (checkLens_safe _ _).bind fun _ _ => (checkLens_safe _ _).bind fun _ _ => trivial

/-! ### Whatever comes -/

/-- **Decoding is safe**: for every profile whose counts came as `u8` and whose cell size came
as `u32`, zeros and counts the coder refuses included, every length below `2 ^ 63` and any
slots, `decode_object` does not panic, and what it returns has the length asked for. -/
theorem decodeObject_safe {isal : IsaL} (hI : isal.Shaped) (data parity : UInt8)
    (chunkSize : UInt32) {len : ℕ} (hlen : len < 2 ^ 63) (shards : List (Option Bytes)) :
    decodeObject isal ⟨data.toNat, parity.toNat, chunkSize.toNat⟩ len shards ≠ .panic ∧
      ∀ out, decodeObject isal ⟨data.toNat, parity.toNat, chunkSize.toNat⟩ len shards = .ok out →
        out.length = len := by
  by_cases hzero : data.toNat = 0 ∨ chunkSize.toNat = 0
  · have herr : decodeObject isal ⟨data.toNat, parity.toNat, chunkSize.toNat⟩ len shards =
        .err (.invalidProfile data.toNat chunkSize.toNat) := if_pos hzero
    rw [herr]
    exact ⟨nofun, nofun⟩
  · have hP : Profile.Fits ⟨data.toNat, parity.toNat, chunkSize.toNat⟩ :=
      ⟨by dsimp only; omega, data.toNat_lt, by dsimp only; omega, chunkSize.toNat_lt⟩
    -- the lengths of the layout do not depend on the bytes: take an object of zeros
    have hX : (List.replicate len (0 : UInt8)).length ≤ maxLen := by
      rw [List.length_replicate, maxLen]
      omega
    have hsafe := decodeObject_fits hP hX parity.toNat_lt (hI.rebuildsCells _) shards
    rw [List.length_replicate] at hsafe
    exact ⟨hsafe.ne_panic, fun out => hsafe.of_ok⟩

theorem IsaL.kernel_shaped : IsaL.kernel.Shaped where
  cauchy m k := length_cauchyMatrix m k
  invert input n inv h := by
    obtain ⟨inv', -, rfl⟩ := Option.map_eq_some_iff.mp h
    rw [length_write, List.length_replicate]
  encode len k rows gTbls data coding := by
    change (coding.mapIdx _).map List.length = _
    refine List.ext_getElem (by simp) fun i h₁ h₂ => ?_
    rw [List.getElem_map, List.getElem_mapIdx, length_write, List.getElem_map]

/-- RS-2-1 with cells of one byte, a data shard gone and the parity shard a byte too long. -/
theorem decodeObject_safe_twoOne :
    decodeObject IsaL.kernel ⟨(2 : UInt8).toNat, (1 : UInt8).toNat, (1 : UInt32).toNat⟩ 2
        [some [7], none, some [1, 2]] ≠ .panic ∧
      ∀ out, decodeObject IsaL.kernel ⟨(2 : UInt8).toNat, (1 : UInt8).toNat, (1 : UInt32).toNat⟩ 2
        [some [7], none, some [1, 2]] = .ok out → out.length = 2 :=
  decodeObject_safe IsaL.kernel_shaped 2 1 1 (by norm_num) _

end OzoneRust
