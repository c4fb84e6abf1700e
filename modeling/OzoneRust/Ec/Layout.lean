import OzoneRust.Ec.Coder
import OzoneRust.Ec.Stripe

/-!
# The layout in closed form

What a shard *is*, said without the loops that build it. The object `X` is cut into
stripes of `k * c` bytes and each stripe into `k` cells of `c` bytes
(`OzoneRust.Layout.cell`). The cells of a stripe, padded with zeros to `c` bytes, have code
words of `k + p` entries, and `OzoneRust.Layout.codeCell` collects entry `idx` of them. The
data shard `idx` is the concatenation of its unpadded cells, the parity shard `idx` that of
its code cells (`OzoneRust.Layout.shard`).

The functions of `stripe.rs` read exactly these cells: `OzoneRust.Layout.dataCell_eq` is
what the encoder cuts from the object, `OzoneRust.Layout.expectedShardLen_eq` the length
the decoder demands of a shard, and `OzoneRust.Layout.paddedCell_eq` the cell it takes from
one. None of them overflows a `usize`, for a profile whose numbers fit their wire types
(`OzoneRust.Profile.Fits`) and a buffer no longer than a Rust allocation can be.
-/

namespace OzoneRust

/-! ### Profiles in range -/

/-- The shapes the coder accepts, with cells below 4 GiB. -/
structure Profile.InRange (P : Profile) : Prop where
  /-- At least one data shard. -/
  data_pos : 1 ≤ P.data
  /-- At most 32 data shards. -/
  data_le : P.data ≤ 32
  /-- At least one parity shard. -/
  parity_pos : 1 ≤ P.parity
  /-- At most 32 parity shards. -/
  parity_le : P.parity ≤ 32
  /-- No empty cells. -/
  chunk_pos : 1 ≤ P.chunkSize
  /-- The cell size fits a `u32`. -/
  chunk_lt : P.chunkSize < 2 ^ 32

/-- A profile whose numbers fit their wire types, with no zero among them. The coder may still
refuse it. -/
structure Profile.Fits (P : Profile) : Prop where
  /-- At least one data shard. -/
  data_pos : 1 ≤ P.data
  /-- The number of data shards fits a `u8`. -/
  data_lt : P.data < 2 ^ 8
  /-- No empty cells. -/
  chunk_pos : 1 ≤ P.chunkSize
  /-- The cell size fits a `u32`. -/
  chunk_lt : P.chunkSize < 2 ^ 32

theorem Profile.InRange.fits {P : Profile} (hP : P.InRange) : P.Fits :=
  ⟨hP.data_pos, hP.data_le.trans_lt (by decide), hP.chunk_pos, hP.chunk_lt⟩

theorem Profile.InRange.cfg {P : Profile} (hP : P.InRange) : P.cfg.Valid :=
  ⟨hP.data_pos, hP.data_le, hP.parity_pos, hP.parity_le⟩

/-- A profile whose cell size the coder can also hand to ISA-L, as an `i32`. -/
structure Profile.Valid (P : Profile) : Prop extends P.InRange where
  /-- The cell size fits an `i32`. -/
  chunk_lt_i32 : P.chunkSize < 2 ^ 31

/-- The longest buffer Rust allocates, `isize::MAX` bytes. -/
def Layout.maxLen : ℕ := 2 ^ 63 - 1

/-- A byte string a Rust program can hold. -/
structure Buffer where
  /-- Its bytes. -/
  bytes : Bytes
  /-- No allocation is longer than `isize::MAX`. -/
  length_le : bytes.length ≤ Layout.maxLen

/-- Bytes in a full stripe. -/
def Profile.stripe (P : Profile) : ℕ := P.data * P.chunkSize

namespace Layout

/-! ### Definitions -/

/-- The number of stripes of an object of `len` bytes. -/
def stripeCount (P : Profile) (len : ℕ) : ℕ :=
  len / P.stripe + if len % P.stripe = 0 then 0 else 1

/-- Where cell `i` of stripe `s` starts. -/
def offset (P : Profile) (i s : ℕ) : ℕ := s * P.stripe + i * P.chunkSize

/-- Cell `i` of stripe `s`, as long as the object lets it be. -/
def cell (P : Profile) (X : Bytes) (i s : ℕ) : Bytes := (X.drop (offset P i s)).take P.chunkSize

/-- The code cell of shard `idx` in stripe `s`: entry `idx` of the code words of the stripe,
whose cells are read as padded with zeros. -/
def codeCell (P : Profile) (X : Bytes) (idx s : ℕ) : Bytes :=
  codeBuffer P.data P.chunkSize (fun j => cell P X j s) idx

/-- What shard `idx` stores of stripe `s`. -/
def stored (P : Profile) (X : Bytes) (idx s : ℕ) : Bytes :=
  if idx < P.data then cell P X idx s else codeCell P X idx s

/-- **Shard `idx` of the object `X`.** -/
def shard (P : Profile) (X : Bytes) (idx : ℕ) : Bytes :=
  (List.range (stripeCount P X.length)).flatMap (stored P X idx)

/-- All shards of the object `X`. -/
def encode (P : Profile) (X : Bytes) : EncodedShards :=
  ⟨(List.range P.data).map (shard P X), (List.range P.parity).map fun j => shard P X (P.data + j)⟩

theorem stored_data {P : Profile} {idx : ℕ} (h : idx < P.data) (X : Bytes) (s : ℕ) :
    stored P X idx s = cell P X idx s := if_pos h

theorem stored_parity (P : Profile) (X : Bytes) (j s : ℕ) :
    stored P X (P.data + j) s = codeCell P X (P.data + j) s := if_neg (by omega)

@[simp] theorem length_cell (P : Profile) (X : Bytes) (i s : ℕ) :
    (cell P X i s).length = min P.chunkSize (X.length - offset P i s) := by
  simp [cell]

theorem length_cell_le (P : Profile) (X : Bytes) (i s : ℕ) :
    (cell P X i s).length ≤ P.chunkSize := by
  rw [length_cell]
  exact Nat.min_le_left _ _

@[simp] theorem length_codeCell (P : Profile) (X : Bytes) (idx s : ℕ) :
    (codeCell P X idx s).length = P.chunkSize := by
  exact length_codeBuffer _ _ _ _

theorem length_stored_le (P : Profile) (X : Bytes) (idx s : ℕ) :
    (stored P X idx s).length ≤ P.chunkSize := by
  unfold stored
  split
  · exact length_cell_le P X idx s
  · rw [length_codeCell]

/-! ### Padding -/

theorem padCell_eq {P : Profile} {i : ℕ} (hi : i < P.data) (X : Bytes) (s : ℕ) :
    padCell P.chunkSize (cell P X i s) = .ok (codeCell P X i s) := by
  unfold padCell
  rw [if_pos (length_cell_le P X i s), codeCell, codeBuffer_data hi (length_cell_le P X i s)]

/-- The cells of a stripe, padded. -/
theorem mapM_padCell (P : Profile) (X : Bytes) (s : ℕ) :
    ((List.range P.data).map fun i => cell P X i s).mapM (padCell P.chunkSize) =
      .ok ((List.range P.data).map fun i => codeCell P X i s) := by
  rw [List.mapM_map]
  exact Outcome.mapM_eq fun i hi => padCell_eq (List.mem_range.mp hi) X s

/-- A code cell of a data shard, cut back to the length of the cell. -/
theorem take_codeCell {P : Profile} {i : ℕ} (hi : i < P.data) (X : Bytes) (s : ℕ) :
    (codeCell P X i s).take (cell P X i s).length = cell P X i s := by
  rw [codeCell, codeBuffer_data hi (length_cell_le P X i s), List.take_left]

/-! ### Stripes -/

theorem mul_chunkSize_add_le {P : Profile} {i : ℕ} (hi : i < P.data) :
    i * P.chunkSize + P.chunkSize ≤ P.stripe := by
  rw [← Nat.succ_mul]
  exact Nat.mul_le_mul_right _ hi

section Arithmetic

variable {P : Profile} (hP : P.Fits)

include hP

theorem stripe_pos : 0 < P.stripe := Nat.mul_pos hP.data_pos hP.chunk_pos

theorem stripe_lt : P.stripe < 2 ^ 40 :=
  calc P.data * P.chunkSize ≤ 2 ^ 8 * P.chunkSize := Nat.mul_le_mul_right _ hP.data_lt.le
    _ < 2 ^ 40 := by have := hP.chunk_lt; omega

theorem chunkSize_le_stripe : P.chunkSize ≤ P.stripe := Nat.le_mul_of_pos_left _ hP.data_pos

theorem stripeCount_mul_lt (len : ℕ) : stripeCount P len * P.stripe < len + P.stripe := by
  have hdiv := Nat.div_add_mod len P.stripe
  have hmod := Nat.mod_lt len (stripe_pos hP)
  rw [Nat.mul_comm] at hdiv
  unfold stripeCount
  split <;> rw [Nat.add_mul] <;> omega

theorem le_stripeCount_mul (len : ℕ) : len ≤ stripeCount P len * P.stripe := by
  have hdiv := Nat.div_add_mod len P.stripe
  have hmod := Nat.mod_lt len (stripe_pos hP)
  rw [Nat.mul_comm] at hdiv
  unfold stripeCount
  split <;> rw [Nat.add_mul] <;> omega

theorem stripeCount_pos {len : ℕ} (hlen : 0 < len) : 0 < stripeCount P len := by
  refine Nat.pos_of_ne_zero fun hzero => ?_
  have hle := le_stripeCount_mul hP len
  rw [hzero, Nat.zero_mul] at hle
  exact absurd hlen (Nat.not_lt.mpr hle)

/-- The stripes before the last are full, and the last one is not empty. -/
theorem mul_stripe_lt {len s : ℕ} (hs : s < stripeCount P len) : s * P.stripe < len := by
  have hle : (s + 1) * P.stripe ≤ stripeCount P len * P.stripe := Nat.mul_le_mul_right _ hs
  have hlt := stripeCount_mul_lt hP len
  rw [Nat.succ_mul] at hle
  omega

theorem stripeCount_mul_chunkSize_lt (len : ℕ) :
    stripeCount P len * P.chunkSize < len + P.stripe :=
  (Nat.mul_le_mul_left _ (chunkSize_le_stripe hP)).trans_lt (stripeCount_mul_lt hP len)

theorem offset_lt {len i s : ℕ} (hs : s < stripeCount P len) (hi : i < P.data) :
    offset P i s + P.chunkSize < len + P.stripe := by
  have h1 := mul_stripe_lt hP hs
  have h2 := mul_chunkSize_add_le hi
  unfold offset
  omega

end Arithmetic

/-! ### The functions of the layout

Each returns what its closed form says, for an object that fits a Rust buffer. -/

section Functions

variable {P : Profile} (hP : P.Fits)

include hP

theorem stripeSize_eq : P.stripeSize = .ok P.stripe :=
  Outcome.mul_eq ((stripe_lt hP).trans (by decide))

theorem numStripes_eq (len : ℕ) : numStripes P len = .ok (stripeCount P len) := by
  unfold numStripes
  split
  case isTrue h => simp [h, stripeCount]
  case isFalse => rw [stripeSize_eq hP, Outcome.ok_bind, Outcome.divCeil_eq (stripe_pos hP)]; rfl

variable {len i s : ℕ} (hlen : len ≤ maxLen) (hs : s < stripeCount P len) (hi : i < P.data)

include hlen hs hi

theorem cellOff_eq : cellOff P i s = .ok (offset P i s) := by
  have hoff := offset_lt hP hs hi
  have hlt := stripe_lt hP
  unfold maxLen at hlen
  unfold offset at hoff
  unfold cellOff
  rw [stripeSize_eq hP, Outcome.ok_bind, Outcome.mul_eq (by omega), Outcome.ok_bind,
    Outcome.mul_eq (by omega), Outcome.ok_bind, Outcome.add_eq (by omega)]
  rfl

theorem cellLen_eq : cellLen P len i s = .ok (min P.chunkSize (len - offset P i s)) := by
  unfold cellLen
  rw [cellOff_eq hP hlen hs hi, Outcome.ok_bind, Outcome.pure_eq]
  congr 1
  split <;> omega

end Functions

/-! ### Lengths of shards -/

theorem length_shard_parity {P : Profile} {idx : ℕ} (h : P.data ≤ idx) (X : Bytes) :
    (shard P X idx).length = stripeCount P X.length * P.chunkSize :=
  Blocks.length_flatMap_range_const _ fun s _ => by
    rw [stored, if_neg (by omega), length_codeCell]

theorem length_shard_lt {P : Profile} (hP : P.Fits) {X : Bytes} (hX : X.length ≤ maxLen)
    (idx : ℕ) : (shard P X idx).length < 2 ^ 64 := by
  have hle : (shard P X idx).length ≤ stripeCount P X.length * P.chunkSize := by
    rw [shard, Blocks.length_flatMap_range]
    refine (Finset.sum_le_card_nsmul _ _ _ fun s _ => length_stored_le P X idx s).trans_eq ?_
    rw [Finset.card_range, smul_eq_mul]
  have hlt := stripeCount_mul_chunkSize_lt hP X.length
  have hstripe := stripe_lt hP
  unfold maxLen at hX
  omega

/-- A data shard: full cells in the full stripes, and its part of the last one. -/
theorem length_shard_data {P : Profile} {idx : ℕ} (h : idx < P.data) (X : Bytes) :
    (shard P X idx).length = X.length / P.stripe * P.chunkSize +
      min (X.length % P.stripe - idx * P.chunkSize) P.chunkSize := by
  have hdiv := Nat.div_add_mod X.length P.stripe
  rw [Nat.mul_comm] at hdiv
  have hfull : ∀ s ∈ Finset.range (X.length / P.stripe),
      (stored P X idx s).length = P.chunkSize := by
    intro s hs
    have hle : (s + 1) * P.stripe ≤ X.length / P.stripe * P.stripe :=
      Nat.mul_le_mul_right _ (Finset.mem_range.mp hs)
    have hcell := mul_chunkSize_add_le h
    rw [Nat.succ_mul] at hle
    rw [stored_data h, length_cell]
    unfold offset
    omega
  have hlast : (stored P X idx (X.length / P.stripe)).length =
      min (X.length % P.stripe - idx * P.chunkSize) P.chunkSize := by
    rw [stored_data h, length_cell]
    unfold offset
    omega
  rw [shard, Blocks.length_flatMap_range, stripeCount]
  split
  case isTrue hmod =>
    rw [Nat.add_zero, Finset.sum_congr rfl hfull]
    simp [hmod]
  case isFalse =>
    rw [Finset.sum_range_succ, Finset.sum_congr rfl hfull, hlast]
    simp

/-- The closed form of the source is the length of the shard. -/
theorem expectedShardLen_eq {P : Profile} (hP : P.Fits) {X : Bytes} (hX : X.length ≤ maxLen)
    (idx : ℕ) : expectedShardLen P X.length idx = .ok (shard P X idx).length := by
  have hlt := length_shard_lt hP hX idx
  unfold expectedShardLen
  dsimp only
  split
  case isTrue h =>
    have hcell := mul_chunkSize_add_le h
    have hstripe := stripe_lt hP
    rw [length_shard_data h] at hlt ⊢
    rw [stripeSize_eq hP, Outcome.ok_bind, Outcome.div_eq (stripe_pos hP), Outcome.ok_bind,
      Outcome.rem_eq (stripe_pos hP), Outcome.ok_bind, Outcome.mul_eq (by omega), Outcome.ok_bind,
      Outcome.satMul_eq (by omega), Outcome.add_eq (by omega)]
  case isFalse h =>
    rw [length_shard_parity (by omega)] at hlt ⊢
    rw [numStripes_eq hP, Outcome.ok_bind, Outcome.satMul_eq hlt, Outcome.pure_eq]

/-! ### The cells of an object -/

section Object

variable {P : Profile} (hP : P.Fits) {X : Bytes} (hX : X.length ≤ maxLen) {s : ℕ}
  (hs : s < stripeCount P X.length)

include hP hX hs

theorem cellLen_cell {i : ℕ} (hi : i < P.data) :
    cellLen P X.length i s = .ok (cell P X i s).length := by
  rw [cellLen_eq hP hX hs hi, length_cell]

theorem dataCell_eq {i : ℕ} (hi : i < P.data) : dataCell P X s i = .ok (cell P X i s) := by
  have hoff := offset_lt hP hs hi
  have hlt := stripe_lt hP
  unfold maxLen at hX
  unfold dataCell
  rw [cellOff_eq hP hX hs hi, Outcome.ok_bind, cellLen_cell hP hX hs hi, Outcome.ok_bind]
  split
  case isTrue hpos =>
    rw [length_cell] at hpos
    rw [Outcome.add_eq (by rw [length_cell]; omega), Outcome.ok_bind,
      Outcome.slice_add_eq (by rw [length_cell]; omega), length_cell, ← List.length_drop,
      ← List.take_eq_take_min, cell]
  case isFalse hpos =>
    rw [Nat.not_lt, Nat.le_zero, List.length_eq_zero_iff] at hpos
    rw [hpos, Outcome.pure_eq]

/-- The cells the encoder cuts for a stripe. -/
theorem mapM_dataCell :
    (List.range P.data).mapM (dataCell P X s) =
      .ok ((List.range P.data).map fun i => cell P X i s) :=
  Outcome.mapM_eq fun _ hi => dataCell_eq hP hX hs (List.mem_range.mp hi)

/-- The running sum of the cell lengths is the length of the cells before. -/
theorem foldlM_cellLen {i : ℕ} (hi : i < P.data) :
    (List.range s).foldlM (fun off t => do Outcome.add off (← cellLen P X.length i t)) 0 =
      (.ok ((List.range s).flatMap (stored P X i)).length : Outcome EcError ℕ) := by
  have hlt := length_shard_lt hP hX i
  have hle : ((List.range s).flatMap (stored P X i)).length + (stored P X i s).length ≤
      (shard P X i).length := Blocks.length_add_le _ hs
  refine Outcome.foldlM_range (fun t => ((List.range t).flatMap (stored P X i)).length) ?_
  intro t ht
  have hle' := Blocks.length_add_le (stored P X i) ht
  rw [cellLen_cell hP hX (ht.trans hs) hi, Outcome.ok_bind, ← stored_data hi,
    Outcome.add_eq (by omega), Blocks.flatMap_range_succ, List.length_append]

theorem paddedCell_eq {idx : ℕ} :
    paddedCell P X.length idx s (shard P X idx) = .ok (codeCell P X idx s) := by
  have hlt := length_shard_lt hP hX idx
  have hle : ((List.range s).flatMap (stored P X idx)).length + (stored P X idx s).length ≤
      (shard P X idx).length := Blocks.length_add_le _ hs
  unfold paddedCell
  dsimp only
  split
  case isTrue hi =>
    rw [foldlM_cellLen hP hX hs hi, Outcome.ok_bind, cellLen_cell hP hX hs hi, Outcome.ok_bind,
      ← stored_data hi, Outcome.add_eq (by omega), Outcome.ok_bind, Outcome.slice_add_eq hle,
      Outcome.ok_bind, shard, Blocks.take_drop_flatMap_range _ hs, stored_data hi, padCell_eq hi]
  case isFalse hi =>
    have hstored : stored P X idx = codeCell P X idx := funext fun t => if_neg hi
    have hlen : ((List.range s).flatMap (stored P X idx)).length = s * P.chunkSize := by
      rw [hstored]
      exact Blocks.length_flatMap_range_const _ fun t _ => length_codeCell P X idx t
    have hcell : (stored P X idx s).length = P.chunkSize := by rw [hstored, length_codeCell]
    rw [Outcome.mul_eq (by omega), Outcome.ok_bind, ← hlen, ← hcell, Outcome.add_eq (by omega),
      Outcome.ok_bind, Outcome.slice_add_eq hle, shard, Blocks.take_drop_flatMap_range _ hs,
      hstored]

end Object

end Layout

end OzoneRust
