import OzoneRust.Ec.Safety
import OzoneRust.Types

/-!
# The casts at the boundary of ISA-L

Every length and count goes to ISA-L through an `as i32`, which drops what does not fit. The
conversion is a parameter of the functions of `OzoneRust.Ec.IsaL` and `OzoneRust.Ec.Stripe`;
here they are run with a cast that panics where the number would change
(`OzoneRust.Cast.exact`), so that a run that does not panic has handed over every number as
it was.

A configuration that passes its check can still have cells of `2 ^ 31` bytes and more. For
these the length of a cell does not survive, on every object that has a stripe
(`OzoneRust.casts_exact_iff`).
-/

namespace OzoneRust

open Layout

/-- The `as i32` of the source, with a panic where the number would change. -/
@[reducible] def Cast.exact : Cast := ⟨fun n => if asI32 n = n then .ok n else .panic⟩

/-! ### Numbers that fit -/

theorem toI32_exact {n : ℕ} (h : n < 2 ^ 31) : @toI32 .exact n = toI32 n := by
  rw [toI32_eq h]
  exact if_pos (asI32_eq h)

theorem toI32_exact_panic {n : ℕ} (h : 2 ^ 31 ≤ n) : @toI32 .exact n = .panic := by
  refine if_neg fun heq => ?_
  have hlt := asI32_toNat_lt h
  omega

variable {isal : IsaL} {cfg : EcConfig}

theorem validate_of_not_valid (h : ¬cfg.Valid) :
    cfg.validate = .err (.invalidConfig cfg.data cfg.parity) := by
  refine if_pos ?_
  by_contra hin
  exact h (by constructor <;> omega)

theorem buildEncodeMatrix_exact (hcfg : cfg.Valid) :
    @buildEncodeMatrix .exact isal cfg = buildEncodeMatrix isal cfg := by
  obtain ⟨h₁, h₂, h₃, h₄⟩ := id hcfg
  unfold buildEncodeMatrix
  rw [EcConfig.total_eq hcfg, Outcome.ok_bind, Outcome.ok_bind, toI32_exact (by omega),
    toI32_exact (by omega)]

/-- The shapes the coder accepts are small. -/
theorem InnerEncoder.new_exact (cfg : EcConfig) :
    @InnerEncoder.new .exact isal cfg = InnerEncoder.new isal cfg := by
  unfold InnerEncoder.new
  by_cases hcfg : cfg.Valid
  · obtain ⟨h₁, h₂, h₃, h₄⟩ := id hcfg
    simp only [buildEncodeMatrix_exact hcfg, toI32_exact (show cfg.data < 2 ^ 31 by omega),
      toI32_exact (show cfg.parity < 2 ^ 31 by omega)]
  · rw [validate_of_not_valid hcfg, Outcome.err_bind, Outcome.err_bind]

theorem InnerDecoder.new_exact (cfg : EcConfig) :
    @InnerDecoder.new .exact isal cfg = InnerDecoder.new isal cfg := by
  unfold InnerDecoder.new
  by_cases hcfg : cfg.Valid
  · rw [buildEncodeMatrix_exact hcfg]
  · rw [validate_of_not_valid hcfg, Outcome.err_bind, Outcome.err_bind]

theorem InnerEncoder.encode_exact {enc : InnerEncoder} (hcfg : enc.cfg.Valid) {len : ℕ}
    (hlen : len < 2 ^ 31) (data parity : List Bytes) :
    @encode .exact isal enc len data parity = enc.encode isal len data parity := by
  obtain ⟨h₁, h₂, h₃, h₄⟩ := id hcfg
  unfold encode
  simp only [toI32_exact hlen, toI32_exact (show enc.cfg.data < 2 ^ 31 by omega),
    toI32_exact (show enc.cfg.parity < 2 ^ 31 by omega)]

theorem InnerDecoder.reconstruct_exact {dec : InnerDecoder} (hcfg : dec.cfg.Valid) {len : ℕ}
    (hlen : len < 2 ^ 31) {erased : List ℕ} (herased : erased.length < 2 ^ 31)
    (sourceIndices : List ℕ) (sources outputs : List Bytes) :
    @reconstruct .exact isal dec len sourceIndices sources erased outputs =
      dec.reconstruct isal len sourceIndices sources erased outputs := by
  obtain ⟨h₁, h₂, h₃, h₄⟩ := id hcfg
  unfold reconstruct
  simp only [toI32_exact hlen, toI32_exact herased,
    toI32_exact (show dec.cfg.data < 2 ^ 31 by omega)]

/-- What a coder that was made has for its shape. -/
theorem cfg_of_newEncoder {enc : InnerEncoder} (h : InnerEncoder.new isal cfg = .ok enc) :
    enc.cfg = cfg ∧ cfg.Valid := by
  unfold InnerEncoder.new at h
  obtain ⟨_, hvalid, h⟩ := Outcome.bind_eq_ok.mp h
  obtain ⟨_, -, h⟩ := Outcome.bind_eq_ok.mp h
  obtain ⟨_, -, h⟩ := Outcome.bind_eq_ok.mp h
  obtain ⟨_, -, h⟩ := Outcome.bind_eq_ok.mp h
  cases h
  refine ⟨rfl, ?_⟩
  by_contra hcfg
  rw [validate_of_not_valid hcfg] at hvalid
  cases hvalid

theorem cfg_of_newDecoder {dec : InnerDecoder} (h : InnerDecoder.new isal cfg = .ok dec) :
    dec.cfg = cfg ∧ cfg.Valid := by
  unfold InnerDecoder.new at h
  obtain ⟨_, hvalid, h⟩ := Outcome.bind_eq_ok.mp h
  obtain ⟨_, -, h⟩ := Outcome.bind_eq_ok.mp h
  cases h
  refine ⟨rfl, ?_⟩
  by_contra hcfg
  rw [validate_of_not_valid hcfg] at hvalid
  cases hvalid

variable {P : Profile}

theorem encodeObjectStripe_exact {enc : InnerEncoder} (hcfg : enc.cfg.Valid)
    (hchunk : P.chunkSize < 2 ^ 31) :
    @encodeObjectStripe .exact isal P enc = encodeObjectStripe isal P enc := by
  funext data acc s
  unfold encodeObjectStripe
  simp only [InnerEncoder.encode_exact hcfg hchunk]

theorem rebuildStripe_exact {dec : InnerDecoder} (hcfg : dec.cfg.Valid)
    (hchunk : P.chunkSize < 2 ^ 31) {missing : List ℕ} (hmissing : missing.length < 2 ^ 31)
    (len : ℕ) (shards : List (Option Bytes)) (sources : List ℕ) :
    @rebuildStripe .exact isal P dec len shards sources missing =
      rebuildStripe isal P dec len shards sources missing := by
  funext bufs s
  unfold rebuildStripe
  simp only [InnerDecoder.reconstruct_exact hcfg hchunk hmissing]

/-- **Cells that fit**, or no stripes: the casts of `encode_object` are exact. -/
theorem encodeObject_exact {data : Bytes} (h : P.chunkSize < 2 ^ 31 ∨ data = []) :
    @encodeObject .exact isal P data = encodeObject isal P data := by
  unfold encodeObject
  split_ifs with hzero
  · rfl
  refine Outcome.bind_congr_ok fun stripes hstripes => ?_
  rw [InnerEncoder.new_exact]
  refine Outcome.bind_congr_ok fun enc henc => ?_
  obtain ⟨henc, hcfg⟩ := cfg_of_newEncoder (Outcome.mapErr_eq_ok.mp henc)
  rcases h with hchunk | rfl
  · rw [encodeObjectStripe_exact (henc ▸ hcfg) hchunk]
  · obtain rfl : stripes = 0 := (Outcome.ok.inj hstripes).symm
    rw [List.range_zero, List.foldlM_nil, List.foldlM_nil]

/-- The same for `decode_object`. -/
theorem decodeObject_exact {len : ℕ} (h : P.chunkSize < 2 ^ 31 ∨ len = 0)
    (shards : List (Option Bytes)) :
    @decodeObject .exact isal P len shards = decodeObject isal P len shards := by
  unfold decodeObject
  split_ifs with hzero
  · rfl
  refine Outcome.bind_congr_ok fun total htotal => ?_
  split_ifs with hslots
  · rfl
  refine Outcome.bind_congr_ok fun kept hkept => Outcome.bind_congr_ok fun stripes hstripes => ?_
  dsimp only
  split_ifs with hnone hfew
  · rfl
  · rfl
  rw [InnerDecoder.new_exact]
  refine Outcome.bind_congr_ok fun dec hdec => ?_
  obtain ⟨hdec, hcfg⟩ := cfg_of_newDecoder (Outcome.mapErr_eq_ok.mp hdec)
  rcases h with hchunk | rfl
  · have hmissing :
        ((List.range P.data).filter fun i => !(kept.getD i none).isSome).length < 2 ^ 31 := by
      have hle := List.length_filter_le (fun i => !(kept.getD i none).isSome) (List.range P.data)
      rw [List.length_range] at hle
      have hdata : P.data ≤ 32 := hcfg.data_le
      omega
    rw [rebuildStripe_exact (hdec ▸ hcfg) hchunk hmissing]
  · obtain rfl : stripes = 0 := (Outcome.ok.inj hstripes).symm
    rw [List.range_zero, List.foldlM_nil, List.foldlM_nil]

/-- **Cells that do not fit**: the first stripe hands ISA-L another length. -/
theorem encodeObject_exact_panic (hI : isal.Shaped) (hP : P.InRange)
    (hchunk : 2 ^ 31 ≤ P.chunkSize) {X : Bytes} (hX : X.length ≤ maxLen) (hne : X ≠ []) :
    @encodeObject .exact isal P X = .panic := by
  have hk := hP.data_pos
  have hlt := stripeCount_mul_chunkSize_lt hP.fits X.length
  have hstripe := stripe_lt hP.fits
  obtain ⟨enc, henc, hcfg⟩ := InnerEncoder.new_eq_ok hI hP.cfg
  have hs : 0 < stripeCount P X.length := stripeCount_pos hP.fits (List.length_pos_iff.mpr hne)
  obtain ⟨n, hn⟩ := Nat.exists_eq_succ_of_ne_zero hs.ne'
  have hpanic : ∀ acc, @encodeObjectStripe .exact isal P enc X acc 0 = .panic := by
    intro acc
    unfold encodeObjectStripe
    rw [mapM_dataCell hP.fits hX hs, Outcome.ok_bind, mapM_padCell, Outcome.ok_bind]
    dsimp only
    unfold InnerEncoder.encode
    rw [if_neg (by simp [hcfg, Profile.cfg]), if_neg (by simp [hcfg, Profile.cfg]),
      checkLens_eq (by simp), Outcome.ok_bind, checkLens_eq (by simp), Outcome.ok_bind,
      toI32_exact_panic hchunk]
    rfl
  unfold encodeObject
  rw [if_neg (by omega), numStripes_eq hP.fits, Outcome.ok_bind, InnerEncoder.new_exact,
    henc, Outcome.mapErr_ok, Outcome.ok_bind, Outcome.mul_eq (by unfold maxLen at hX; omega),
    Outcome.ok_bind, hn, List.range_succ_eq_map, List.foldlM_cons, hpanic]
  rfl

/-! ### Configurations that pass their check -/

theorem EcReplicationConfig.inRange_profile {ec : EcReplicationConfig} (h : ec.validate = true) :
    ec.profile.InRange := by
  obtain ⟨data, parity, chunk, codec⟩ := ec
  simp only [validate, decide_eq_true_eq, UInt8.le_iff_toNat_le, ← UInt8.toNat_inj,
    ← UInt32.toNat_inj, ne_eq] at h
  have hlt := chunk.toNat_lt
  obtain ⟨h₁, h₂, h₃, h₄, h₅⟩ := h
  exact ⟨Nat.one_le_iff_ne_zero.mpr h₁, h₂, Nat.one_le_iff_ne_zero.mpr h₃, h₄,
    Nat.one_le_iff_ne_zero.mpr h₅, hlt⟩

/-- **When nothing is dropped at the boundary**: for every configuration that passes its check
and every object, `encode_object` and `decode_object`, from any slots, hand every length and
count to ISA-L as it is exactly when the cells are shorter than `2 ^ 31` bytes or the object is
empty. No offset overflows in any case. -/
theorem casts_exact_iff {ec : EcReplicationConfig} (hec : ec.validate = true) (X : Buffer) :
    ((∀ isal : IsaL, isal.Shaped → @encodeObject .exact isal ec.profile X.bytes ≠ .panic ∧
        ∀ shards, @decodeObject .exact isal ec.profile X.bytes.length shards ≠ .panic) ↔
      ec.ecChunkSize.toNat < 2 ^ 31 ∨ X.bytes = []) ∧
    ∀ isal : IsaL, isal.Shaped → encodeObject isal ec.profile X.bytes ≠ .panic ∧
      ∀ shards, decodeObject isal ec.profile X.bytes.length shards ≠ .panic := by
  have hP := EcReplicationConfig.inRange_profile hec
  have hX := X.length_le
  have hsafe : ∀ isal : IsaL, isal.Shaped → encodeObject isal ec.profile X.bytes ≠ .panic ∧
      ∀ shards, decodeObject isal ec.profile X.bytes.length shards ≠ .panic := fun isal hI =>
    ⟨(encodeObject_fits hI hP.fits hX).ne_panic, fun shards =>
      (decodeObject_fits hP.fits hX ec.parity.toNat_lt (hI.rebuildsCells _) shards).ne_panic⟩
  refine ⟨⟨fun h => ?_, fun h isal hI => ?_⟩, hsafe⟩
  · by_contra hnot
    obtain ⟨hchunk, hne⟩ := not_or.mp hnot
    exact (h _ IsaL.kernel_shaped).1
      (encodeObject_exact_panic IsaL.kernel_shaped hP (not_lt.mp hchunk) hX hne)
  · rw [encodeObject_exact h]
    refine ⟨(hsafe isal hI).1, fun shards => ?_⟩
    rw [decodeObject_exact (h.imp_right fun hnil => by rw [hnil]; rfl)]
    exact (hsafe isal hI).2 shards

/-- RS-2-1 with cells of four bytes, and an object of three. -/
theorem casts_exact_iff_twoOne :
    ((∀ isal : IsaL, isal.Shaped →
        @encodeObject .exact isal (EcReplicationConfig.profile ⟨2, 1, 4, .rs⟩) [1, 2, 3] ≠ .panic ∧
        ∀ shards,
          @decodeObject .exact isal (EcReplicationConfig.profile ⟨2, 1, 4, .rs⟩) 3 shards ≠
            .panic) ↔
      (4 : UInt32).toNat < 2 ^ 31 ∨ ([1, 2, 3] : Bytes) = []) ∧
    ∀ isal : IsaL, isal.Shaped →
      encodeObject isal (EcReplicationConfig.profile ⟨2, 1, 4, .rs⟩) [1, 2, 3] ≠ .panic ∧
      ∀ shards, decodeObject isal (EcReplicationConfig.profile ⟨2, 1, 4, .rs⟩) 3 shards ≠ .panic :=
  @casts_exact_iff ⟨2, 1, 4, .rs⟩ (by decide) ⟨[1, 2, 3], by decide⟩

/-- Cells of 2 GiB: the configuration passes its check, and for an object of one byte the
encoder hands ISA-L a negative length. -/
theorem cell_length_dropped :
    (EcReplicationConfig.mk 1 1 2147483648 .rs).validate = true ∧
      @encodeObject .exact IsaL.kernel (EcReplicationConfig.mk 1 1 2147483648 .rs).profile [0] =
        .panic ∧
      asI32 (EcReplicationConfig.mk 1 1 2147483648 .rs).profile.chunkSize = -2147483648 := by
  have hec : (EcReplicationConfig.mk 1 1 2147483648 .rs).validate = true := by decide
  refine ⟨hec, ?_, by decide⟩
  exact encodeObject_exact_panic IsaL.kernel_shaped (EcReplicationConfig.inRange_profile hec)
    (by decide) (by decide) (by decide)

end OzoneRust
