import OzoneRust.Ec.IsaL
import OzoneRust.Lib.Blocks

/-!
# What the coder computes

The encoder and the decoder of `isa-l-safe`, over an ISA-L that does what
`OzoneRust.IsaL.Correct` says. The `k` data buffers are, at each byte position, a vector of
`k` field elements; `OzoneRust.codeBuffer` is entry `idx` of its code word, position by
position. For a shape the crate accepts, the encoder returns the code buffers of the
parity rows (`OzoneRust.InnerEncoder.encode_eq`), and the decoder, from the code buffers of
any `k` different rows, returns those of the erased rows
(`OzoneRust.InnerDecoder.reconstruct_into`). An erased parity row takes the multiplication
of ISA-L as well; the erased data rows do not (`OzoneRust.InnerDecoder.reconstruct_eq`).

The one algebraic step is `OzoneRust.sum_mul_codeSymbol`: a combination of generator rows
that yields row `e` yields, of the code symbols of those rows, the code symbol of `e`.
-/

namespace OzoneRust

/-! ### Code words -/

/-- Entry `idx` of the code word at position `pos` of `k` buffers. A position past the end of
a buffer counts as zero. -/
def codeSymbol (k : ℕ) (bufs : ℕ → Bytes) (idx pos : ℕ) : Gf256 :=
  ∑ j ∈ Finset.range k, Cauchy.gen k IsaL.point idx j * ⟨(bufs j).getD pos 0⟩

/-- Entry `idx` of the code words at the first `len` positions. -/
def codeBuffer (k len : ℕ) (bufs : ℕ → Bytes) (idx : ℕ) : Bytes :=
  (List.range len).map fun pos => (codeSymbol k bufs idx pos).byte

@[simp] theorem length_codeBuffer (k len : ℕ) (bufs : ℕ → Bytes) (idx : ℕ) :
    (codeBuffer k len bufs idx).length = len := by
  simp [codeBuffer]

theorem getD_codeBuffer {k len pos : ℕ} (h : pos < len) (bufs : ℕ → Bytes) (idx : ℕ) :
    (codeBuffer k len bufs idx).getD pos 0 = (codeSymbol k bufs idx pos).byte := by
  simp [codeBuffer, h]

/-- The generator opens with the identity. -/
theorem codeSymbol_data {k idx : ℕ} (h : idx < k) (bufs : ℕ → Bytes) (pos : ℕ) :
    codeSymbol k bufs idx pos = ⟨(bufs idx).getD pos 0⟩ := by
  unfold codeSymbol
  rw [Finset.sum_eq_single idx]
  · rw [Cauchy.gen_data _ h, if_pos rfl, one_mul]
  · intro j _ hj
    rw [Cauchy.gen_data _ h, if_neg hj.symm, zero_mul]
  · exact fun hmem => absurd (Finset.mem_range.mpr h) hmem

/-- The code buffer of a data row is the buffer, padded. -/
theorem codeBuffer_data {k idx len : ℕ} (h : idx < k) {bufs : ℕ → Bytes}
    (hlen : (bufs idx).length ≤ len) : codeBuffer k len bufs idx =
      bufs idx ++ List.replicate (len - (bufs idx).length) 0 := by
  unfold codeBuffer
  simp only [codeSymbol_data h]
  exact Blocks.map_range_getD _ _ hlen

/-- Padding the buffers first does not change the code word. -/
theorem codeBuffer_codeBuffer (k len : ℕ) (bufs : ℕ → Bytes) (idx : ℕ) :
    codeBuffer k len (codeBuffer k len bufs) idx = codeBuffer k len bufs idx := by
  refine List.map_congr_left fun pos hpos => ?_
  have hsym : codeSymbol k (codeBuffer k len bufs) idx pos = codeSymbol k bufs idx pos := by
    refine Finset.sum_congr rfl fun j hj => ?_
    rw [getD_codeBuffer (List.mem_range.mp hpos), codeSymbol_data (Finset.mem_range.mp hj)]
  rw [hsym]

/-- **Combining rows**: what yields generator row `e` from other rows yields the code symbol
of `e` from theirs. -/
theorem sum_mul_codeSymbol {k e : ℕ} {w : ℕ → Gf256} {r : ℕ → ℕ}
    (hw : ∀ j < k, ∑ a ∈ Finset.range k, w a * Cauchy.gen k IsaL.point (r a) j =
      Cauchy.gen k IsaL.point e j) (bufs : ℕ → Bytes) (pos : ℕ) :
    ∑ a ∈ Finset.range k, w a * codeSymbol k bufs (r a) pos = codeSymbol k bufs e pos := by
  unfold codeSymbol
  simp only [Finset.mul_sum]
  rw [Finset.sum_comm]
  refine Finset.sum_congr rfl fun j hj => ?_
  rw [← hw j (Finset.mem_range.mp hj), Finset.sum_mul]
  exact Finset.sum_congr rfl fun a _ => (mul_assoc _ _ _).symm

/-! ### The generator -/

theorem IsaL.point_injOn {m : ℕ} (hm : m ≤ 256) : Set.InjOn IsaL.point (Set.Iio m) := by
  intro a ha b hb hab
  have hbyte : UInt8.ofNat a = UInt8.ofNat b := congrArg Gf256.byte hab
  have hnat := congrArg UInt8.toNat hbyte
  simp only [Set.mem_Iio] at ha hb
  simp only [UInt8.toNat_ofNat'] at hnat
  omega

theorem IsaL.length_cauchyMatrix (m k : ℕ) : (IsaL.cauchyMatrix m k).length = m * k :=
  Blocks.length_flatMap_range_const _ fun i _ => by simp

theorem IsaL.getElem?_cauchyMatrix {m k i j : ℕ} (hi : i < m) (hj : j < k) :
    (IsaL.cauchyMatrix m k)[k * i + j]? = some (Cauchy.gen k IsaL.point i j).byte := by
  rw [IsaL.cauchyMatrix, Blocks.getElem?_flatMap_range _ (fun i _ => by simp) hi hj]
  simp [hj]

/-- The shapes the crate accepts. -/
structure EcConfig.Valid (cfg : EcConfig) : Prop where
  /-- At least one data shard. -/
  data_pos : 1 ≤ cfg.data
  /-- At most 32 data shards. -/
  data_le : cfg.data ≤ 32
  /-- At least one parity shard. -/
  parity_pos : 1 ≤ cfg.parity
  /-- At most 32 parity shards. -/
  parity_le : cfg.parity ≤ 32

section Config

variable {isal : IsaL} (hI : isal.Correct) {cfg : EcConfig} (hcfg : cfg.Valid)

include hcfg

theorem EcConfig.validate_eq : cfg.validate = .ok () := by
  obtain ⟨h₁, h₂, h₃, h₄⟩ := hcfg
  exact if_neg (by omega)

theorem EcConfig.total_eq : cfg.total = .ok (cfg.data + cfg.parity) := by
  obtain ⟨h₁, h₂, h₃, h₄⟩ := hcfg
  exact Outcome.add_eq (by omega)

include hI

theorem buildEncodeMatrix_eq :
    buildEncodeMatrix isal cfg = .ok (IsaL.cauchyMatrix (cfg.data + cfg.parity) cfg.data) := by
  obtain ⟨h₁, h₂, h₃, h₄⟩ := id hcfg
  unfold buildEncodeMatrix
  rw [EcConfig.total_eq hcfg, Outcome.ok_bind, toI32_eq (by omega), Outcome.ok_bind,
    toI32_eq (by omega), Outcome.ok_bind, hI.cauchy _ _ (by omega) (by omega), Outcome.pure_eq]

end Config

theorem checkLens_eq {len : ℕ} {bufs : List Bytes} (h : ∀ b ∈ bufs, b.length = len) :
    checkLens len bufs = .ok () := by
  unfold checkLens
  rw [List.find?_eq_none.mpr fun b hb => by simp [h b hb]]

/-! ### The encoder -/

/-- **The encoder returns the parity rows of the code**, whatever the parity buffers held. -/
theorem InnerEncoder.encode_into {isal : IsaL} (hI : isal.Correct) {cfg : EcConfig}
    (hcfg : cfg.Valid) : ∃ enc, InnerEncoder.new isal cfg = .ok enc ∧
      ∀ (len : ℕ) (bufs : ℕ → Bytes) (parity : List Bytes), len < 2 ^ 31 →
        (∀ j < cfg.data, (bufs j).length = len) → parity.length = cfg.parity →
        (∀ b ∈ parity, b.length = len) →
        enc.encode isal len ((List.range cfg.data).map bufs) parity =
          .ok ((List.range cfg.parity).map fun j =>
            codeBuffer cfg.data len bufs (cfg.data + j)) := by
  obtain ⟨k, p⟩ := cfg
  obtain ⟨h₁, h₂, h₃, h₄⟩ := id hcfg
  have hmatrix := buildEncodeMatrix_eq hI hcfg
  dsimp only at *
  set m := IsaL.cauchyMatrix (k + p) k with hm
  have hsq : k * k ≤ 32 * 32 := Nat.mul_le_mul h₂ h₂
  have hlen : m.length = k * k + p * k := by rw [hm, IsaL.length_cauchyMatrix, Nat.add_mul]
  refine ⟨⟨⟨k, p⟩, isal.ecInitTables k p (m.drop (k * k))⟩, ?_, ?_⟩
  · unfold InnerEncoder.new
    rw [EcConfig.validate_eq hcfg, Outcome.ok_bind, hmatrix, Outcome.ok_bind]
    dsimp only
    rw [Outcome.mul_eq (by omega), Outcome.ok_bind, hlen, Outcome.slice_add_eq (by omega),
      Outcome.ok_bind, toI32_eq (by omega), Outcome.ok_bind, toI32_eq (by omega),
      Outcome.ok_bind, Outcome.pure_eq, List.take_of_length_le (by rw [List.length_drop]; omega)]
  · intro len bufs parity hl hbufs hcount hparity
    unfold InnerEncoder.encode
    dsimp only
    rw [if_neg (by simp), if_neg (by simp [hcount]), checkLens_eq (by simpa using hbufs),
      Outcome.ok_bind, checkLens_eq hparity, Outcome.ok_bind, toI32_eq (by omega),
      Outcome.ok_bind, toI32_eq (by omega), Outcome.ok_bind, toI32_eq (by omega),
      Outcome.ok_bind, Outcome.pure_eq,
      hI.encode len k p _ _ _ hl (by rw [List.length_drop]; omega) (by simp)
        (by simpa using hbufs) hcount hparity]
    -- the tabled rows are the parity rows of the generator
    congr 1
    refine List.map_congr_left fun i hi => List.map_congr_left fun pos _ => ?_
    congr 1
    refine Finset.sum_congr rfl fun j hj => ?_
    have hi' := List.mem_range.mp hi
    have hj' := Finset.mem_range.mp hj
    have hrow : k * k + (k * i + j) = k * (k + i) + j := by ring
    rw [List.getD_eq_getElem?_getD, List.getElem?_drop, hrow,
      IsaL.getElem?_cauchyMatrix (by omega) hj']
    simp [hj']

/-- The encoder, into zeroed buffers. -/
theorem InnerEncoder.encode_eq {isal : IsaL} (hI : isal.Correct) {cfg : EcConfig}
    (hcfg : cfg.Valid) : ∃ enc, InnerEncoder.new isal cfg = .ok enc ∧
      ∀ (len : ℕ) (bufs : ℕ → Bytes), len < 2 ^ 31 → (∀ j < cfg.data, (bufs j).length = len) →
        enc.encode isal len ((List.range cfg.data).map bufs)
            (List.replicate cfg.parity (List.replicate len 0)) =
          .ok ((List.range cfg.parity).map fun j =>
            codeBuffer cfg.data len bufs (cfg.data + j)) := by
  obtain ⟨enc, hnew, henc⟩ := encode_into hI hcfg
  exact ⟨enc, hnew, fun len bufs hl hbufs => henc len bufs _ hl hbufs (by simp) (by simp)⟩

/-! ### The decoder -/

theorem InnerDecoder.checkSources_eq {m : ℕ} : ∀ {l seen : List ℕ}, l.Nodup → (∀ s ∈ l, s < m) →
    (∀ s ∈ l, s ∉ seen) → InnerDecoder.checkSources m l seen = .ok ()
  | [], _, _, _, _ => rfl
  | s :: l, seen, hnd, hlt, hseen => by
    obtain ⟨hs, hnd⟩ := List.nodup_cons.mp hnd
    have hsm := hlt s (by simp)
    rw [checkSources, if_neg (by omega), if_neg (hseen s (by simp))]
    refine checkSources_eq hnd (fun t ht => hlt t (by simp [ht])) fun t ht => ?_
    rw [List.mem_cons, not_or]
    exact ⟨fun h => hs (h ▸ ht), hseen t (by simp [ht])⟩

theorem InnerDecoder.checkErased_eq {m : ℕ} {sources : List ℕ} : ∀ {l : List ℕ},
    (∀ e ∈ l, e < m) → (∀ e ∈ l, e ∉ sources) → InnerDecoder.checkErased m sources l = .ok ()
  | [], _, _ => rfl
  | e :: l, hlt, hnot => by
    have he := hlt e (by simp)
    rw [checkErased, if_neg (by omega), if_neg (hnot e (by simp))]
    exact checkErased_eq (fun t ht => hlt t (by simp [ht])) fun t ht => hnot t (by simp [ht])

/-- Row `src` of the generator. -/
def genRow (k src : ℕ) : Bytes :=
  (List.range k).map fun j => (Cauchy.gen k IsaL.point src j).byte

/-- The generator rows of `k` different shards, one after the other, hold an invertible
matrix. -/
theorem IsaL.det_toMatrix_rows_ne_zero {k m : ℕ} (hk : k ≤ m) (hm : m ≤ 256) {r : ℕ → ℕ}
    (hr : Set.InjOn r (Set.Iio k)) (hrm : ∀ a < k, r a < m) :
    IsaL.toMatrix k ((List.range k).flatMap (genRow k ∘ r)) =
        Cauchy.rows IsaL.point (fun a : Fin k => r a) ∧
    (Cauchy.rows IsaL.point (fun a : Fin k => r a)).det ≠ 0 := by
  constructor
  · ext a j
    rw [IsaL.toMatrix, Matrix.of_apply, List.getD_eq_getElem?_getD,
      Blocks.getElem?_flatMap_range _ (fun i _ => by simp [genRow]) a.isLt j.isLt]
    simp [Cauchy.rows, genRow]
  · refine Cauchy.det_rows_ne_zero (IsaL.point_injOn hm) hk ?_ fun a => hrm a a.isLt
    exact fun a b hab => Fin.ext (hr a.isLt b.isLt hab)

/-- The coefficient, on the chosen row `a`, of the shard `e`: its generator row applied to
the columns of the inverse. -/
def decodeCoeff (k : ℕ) (inv : Bytes) (e a : ℕ) : Gf256 :=
  ∑ row ∈ Finset.range k, ⟨inv.getD (k * row + a) 0⟩ * Cauchy.gen k IsaL.point e row

/-- A data shard has a row of the inverse itself. -/
theorem decodeCoeff_data {k e : ℕ} (he : e < k) (inv : Bytes) (a : ℕ) :
    decodeCoeff k inv e a = ⟨inv.getD (k * e + a) 0⟩ := by
  unfold decodeCoeff
  rw [Finset.sum_eq_single e]
  · rw [Cauchy.gen_data _ he, if_pos rfl, mul_one]
  · intro row _ hrow
    rw [Cauchy.gen_data _ he, if_neg hrow.symm, mul_zero]
  · exact fun hmem => absurd (Finset.mem_range.mpr he) hmem

/-- A left inverse of the chosen rows, read at a data row `e`, combines them to generator
row `e`. -/
theorem sum_inverse_mul_gen {k e : ℕ} (he : e < k) {inv : Bytes} {r : ℕ → ℕ}
    (h : IsaL.toMatrix k inv * Cauchy.rows IsaL.point (fun a : Fin k => r a) = 1) :
    ∀ j < k, ∑ a ∈ Finset.range k, ⟨inv.getD (k * e + a) 0⟩ * Cauchy.gen k IsaL.point (r a) j =
      Cauchy.gen k IsaL.point e j := by
  intro j hj
  have hentry := congrFun (congrFun h ⟨e, he⟩) ⟨j, hj⟩
  rw [Matrix.mul_apply, Matrix.one_apply] at hentry
  rw [Finset.sum_range, Cauchy.gen_data _ he]
  simpa [IsaL.toMatrix, Cauchy.rows, Fin.ext_iff] using hentry

/-- **The coefficients of a shard, data or parity, combine the chosen rows to its generator
row.** -/
theorem sum_decodeCoeff_mul_gen {k : ℕ} {inv : Bytes} {r : ℕ → ℕ}
    (h : IsaL.toMatrix k inv * Cauchy.rows IsaL.point (fun a : Fin k => r a) = 1) (e : ℕ) :
    ∀ j < k, ∑ a ∈ Finset.range k, decodeCoeff k inv e a * Cauchy.gen k IsaL.point (r a) j =
      Cauchy.gen k IsaL.point e j := by
  intro j hj
  calc ∑ a ∈ Finset.range k, decodeCoeff k inv e a * Cauchy.gen k IsaL.point (r a) j
      = ∑ row ∈ Finset.range k, Cauchy.gen k IsaL.point e row *
          ∑ a ∈ Finset.range k, ⟨inv.getD (k * row + a) 0⟩ * Cauchy.gen k IsaL.point (r a) j := by
        simp only [decodeCoeff, Finset.sum_mul, Finset.mul_sum]
        rw [Finset.sum_comm]
        exact Finset.sum_congr rfl fun row _ => Finset.sum_congr rfl fun a _ => by ring
    _ = ∑ row ∈ Finset.range k, Cauchy.gen k IsaL.point e row * Cauchy.gen k IsaL.point row j :=
        Finset.sum_congr rfl fun row hrow =>
          congrArg (_ * ·) (sum_inverse_mul_gen (Finset.mem_range.mp hrow) h j hj)
    _ = Cauchy.gen k IsaL.point e j := by
        rw [Finset.sum_eq_single j]
        · rw [Cauchy.gen_data _ hj, if_pos rfl, mul_one]
        · intro row hrow hne
          rw [Cauchy.gen_data _ (Finset.mem_range.mp hrow), if_neg hne, mul_zero]
        · exact fun hmem => absurd (Finset.mem_range.mpr hj) hmem

section DecodeRow

variable {isal : IsaL} {dec : InnerDecoder} {inv : Bytes} {e : ℕ}

theorem InnerDecoder.decodeRow_data (he : e < dec.cfg.data)
    (hinv : inv.length = dec.cfg.data * dec.cfg.data) :
    dec.decodeRow isal inv e =
      .ok ((List.range dec.cfg.data).map fun a => (decodeCoeff dec.cfg.data inv e a).byte) := by
  rw [decodeRow, if_pos he]
  refine Outcome.mapM_eq fun j hj => ?_
  rw [decodeCoeff_data he]
  refine Outcome.index_getD ?_ 0
  have hle : dec.cfg.data * (e + 1) ≤ dec.cfg.data * dec.cfg.data := Nat.mul_le_mul_left _ he
  have hj' := List.mem_range.mp hj
  rw [Nat.mul_succ] at hle
  omega

/-- The row of a parity shard: the loop adds up the products. -/
theorem InnerDecoder.decodeRow_parity (hmul : isal.MulCorrect) {m : ℕ}
    (hdec : dec.encodeMatrix = IsaL.cauchyMatrix m dec.cfg.data) (he : dec.cfg.data ≤ e)
    (hem : e < m) (hinv : inv.length = dec.cfg.data * dec.cfg.data) :
    dec.decodeRow isal inv e =
      .ok ((List.range dec.cfg.data).map fun a => (decodeCoeff dec.cfg.data inv e a).byte) := by
  rw [decodeRow, if_neg (by omega)]
  refine Outcome.mapM_eq fun col hcol => ?_
  have hcol' := List.mem_range.mp hcol
  -- before row `n` the accumulator holds the sum over the rows below `n`
  refine Outcome.foldlM_range (fun n => (∑ row ∈ Finset.range n,
    (⟨inv.getD (dec.cfg.data * row + col) 0⟩ : Gf256) *
      Cauchy.gen dec.cfg.data IsaL.point e row).byte) fun row hrow => ?_
  have hle : dec.cfg.data * (row + 1) ≤ dec.cfg.data * dec.cfg.data := Nat.mul_le_mul_left _ hrow
  rw [Nat.mul_succ] at hle
  rw [Outcome.index_getD (by omega) 0, Outcome.ok_bind, hdec,
    Outcome.index_eq (IsaL.getElem?_cauchyMatrix hem hrow), Outcome.ok_bind, hmul,
    Outcome.pure_eq, Finset.sum_range_succ, Gf256.byte_add]

end DecodeRow

/-- The product of the kernel: rows that combine the chosen generator rows to those of the
erased shards turn the chosen code buffers into theirs. -/
theorem IsaL.product_rows {len k n : ℕ} {w : ℕ → Bytes} {r e : ℕ → ℕ} (bufs : ℕ → Bytes)
    (hw : ∀ i < n, (w i).length = k)
    (hrow : ∀ i < n, ∀ j < k, ∑ a ∈ Finset.range k,
      ⟨(w i).getD a 0⟩ * Cauchy.gen k IsaL.point (r a) j = Cauchy.gen k IsaL.point (e i) j) :
    IsaL.product len k n ((List.range n).flatMap w)
        ((List.range k).map fun a => codeBuffer k len bufs (r a)) =
      (List.range n).map fun i => codeBuffer k len bufs (e i) := by
  refine List.map_congr_left fun i hi => List.map_congr_left fun pos hpos => ?_
  have hi' := List.mem_range.mp hi
  rw [← sum_mul_codeSymbol (hrow i hi') bufs pos]
  congr 1
  refine Finset.sum_congr rfl fun j hj => ?_
  have hj' := Finset.mem_range.mp hj
  rw [List.getD_eq_getElem?_getD, Blocks.getElem?_flatMap_range _ hw hi' hj',
    ← List.getD_eq_getElem?_getD]
  simp [hj', codeBuffer, List.mem_range.mp hpos]

/-- **The decoder returns the erased rows of the code**, whatever the output buffers held. -/
theorem InnerDecoder.reconstruct_into {isal : IsaL} (hI : isal.Correct) {cfg : EcConfig}
    (hcfg : cfg.Valid) : ∃ dec, InnerDecoder.new isal cfg = .ok dec ∧
      ∀ (len : ℕ) (bufs : ℕ → Bytes) (sources erased : List ℕ) (outputs : List Bytes),
        len < 2 ^ 31 → sources.length = cfg.data → sources.Nodup →
        (∀ s ∈ sources, s < cfg.data + cfg.parity) →
        erased.length < 2 ^ 31 → (∀ e ∈ erased, e < cfg.data + cfg.parity) →
        (∀ e ∈ erased, cfg.data ≤ e → isal.MulCorrect) → (∀ e ∈ erased, e ∉ sources) →
        outputs.length = erased.length → (∀ b ∈ outputs, b.length = len) →
        dec.reconstruct isal len sources (sources.map (codeBuffer cfg.data len bufs)) erased
            outputs =
          .ok (erased.map (codeBuffer cfg.data len bufs)) := by
  obtain ⟨k, p⟩ := cfg
  obtain ⟨h₁, h₂, h₃, h₄⟩ := id hcfg
  have hmatrix := buildEncodeMatrix_eq hI hcfg
  dsimp only at *
  refine ⟨⟨⟨k, p⟩, IsaL.cauchyMatrix (k + p) k⟩, ?_, ?_⟩
  · unfold InnerDecoder.new
    rw [EcConfig.validate_eq hcfg, Outcome.ok_bind, hmatrix, Outcome.ok_bind, Outcome.pure_eq]
  intro len bufs sources erased outputs hlen hsrc hnd hlt hers herased hmulc hdisj hcount houtputs
  unfold InnerDecoder.reconstruct
  rw [EcConfig.total_eq hcfg, Outcome.ok_bind]
  dsimp only
  rw [if_neg (by simp [hsrc]), if_neg (by simp [hsrc]), if_neg (by simp [hcount])]
  split
  case isTrue hnil =>
    subst hnil
    rw [List.length_eq_zero_iff.mp hcount]
    rfl
  rw [checkLens_eq (by simp), Outcome.ok_bind, checkLens_eq houtputs, Outcome.ok_bind,
    checkSources_eq hnd hlt (by simp), Outcome.ok_bind, checkErased_eq herased hdisj,
    Outcome.ok_bind]
  -- name the sources and the erased rows by their positions
  obtain ⟨r, rfl⟩ : ∃ r, sources = (List.range k).map r :=
    ⟨fun a => sources.getD a 0, by rw [← hsrc, Blocks.map_range_getD_length]⟩
  obtain ⟨n, e, rfl⟩ : ∃ n e, erased = (List.range n).map e :=
    ⟨_, fun i => erased.getD i 0, (Blocks.map_range_getD_length _ _).symm⟩
  simp only [List.length_map, List.length_range, List.forall_mem_map, List.mem_range] at *
  have hr : Set.InjOn r (Set.Iio k) := fun a ha b hb hab =>
    List.inj_on_of_nodup_map hnd (List.mem_range.mpr ha) (List.mem_range.mpr hb) hab
  obtain ⟨hrows, hdet⟩ := IsaL.det_toMatrix_rows_ne_zero (Nat.le_add_right k p) (by omega) hr hlt
  obtain ⟨inv, hinv, hinvlen, hmul⟩ := hI.invert k _
    (Blocks.length_flatMap_range_const _ fun a _ => by simp [genRow]) (hrows ▸ hdet)
  rw [hrows] at hmul
  rw [Outcome.mapM_eq (g := genRow k) (by
    simp only [List.forall_mem_map, List.mem_range]
    exact fun a ha => Outcome.mapM_eq fun j hj => Outcome.index_eq
      (IsaL.getElem?_cauchyMatrix (hlt a ha) (List.mem_range.mp hj))), Outcome.ok_bind,
    List.map_map, ← List.flatMap_def, toI32_eq (by omega : k < 2 ^ 31), Outcome.ok_bind]
  simp only [hinv]
  have hrow : ∀ i < n, decodeRow isal ⟨⟨k, p⟩, IsaL.cauchyMatrix (k + p) k⟩ inv (e i) =
      .ok ((List.range k).map fun a => (decodeCoeff k inv (e i) a).byte) := by
    intro i hi
    by_cases he : e i < k
    · exact decodeRow_data he hinvlen
    · exact decodeRow_parity (hmulc i hi (by omega)) rfl (not_lt.mp he) (herased i hi) hinvlen
  rw [Outcome.mapM_eq (g := fun e => (List.range k).map fun a => (decodeCoeff k inv e a).byte) (by
    simpa only [List.forall_mem_map, List.mem_range] using hrow), Outcome.ok_bind, List.map_map,
    List.map_map, List.map_map, ← List.flatMap_def, toI32_eq hers, toI32_eq hlen, Outcome.ok_bind,
    Outcome.ok_bind, Outcome.ok_bind, Outcome.ok_bind, Outcome.ok_bind,
    hI.encode len k n _ _ _ hlen (Blocks.length_flatMap_range_const _ fun i _ => by simp) (by simp)
      (by simp) hcount houtputs, Outcome.pure_eq]
  refine congrArg Outcome.ok (IsaL.product_rows bufs (fun i _ => by simp) fun i hi j hj => ?_)
  rw [← sum_decodeCoeff_mul_gen hmul (e i) j hj]
  refine Finset.sum_congr rfl fun a ha => ?_
  simp [Finset.mem_range.mp ha]

/-- The decoder, for erased data rows, into zeroed buffers. -/
theorem InnerDecoder.reconstruct_eq {isal : IsaL} (hI : isal.Correct) {cfg : EcConfig}
    (hcfg : cfg.Valid) : ∃ dec, InnerDecoder.new isal cfg = .ok dec ∧
      ∀ (len : ℕ) (bufs : ℕ → Bytes) (sources erased : List ℕ), len < 2 ^ 31 →
        sources.length = cfg.data → sources.Nodup → (∀ s ∈ sources, s < cfg.data + cfg.parity) →
        erased.length < 2 ^ 31 → (∀ e ∈ erased, e < cfg.data) → (∀ e ∈ erased, e ∉ sources) →
        dec.reconstruct isal len sources (sources.map (codeBuffer cfg.data len bufs)) erased
            (List.replicate erased.length (List.replicate len 0)) =
          .ok (erased.map (codeBuffer cfg.data len bufs)) := by
  obtain ⟨dec, hnew, hdec⟩ := reconstruct_into hI hcfg
  refine ⟨dec, hnew, fun len bufs sources erased hlen hsrc hnd hlt hers hdata hdisj => ?_⟩
  exact hdec len bufs sources erased _ hlen hsrc hnd hlt hers
    (fun e he => Nat.lt_add_right _ (hdata e he))
    (fun e he hle => absurd (hdata e he) (Nat.not_lt.mpr hle)) hdisj (by simp) (by simp)

end OzoneRust
