import OzoneRust.Datanode.Commands
import OzoneRust.Datanode.Service

/-!
# Where configurations come in

An erasure-coding configuration reaches the program in three places, and each has a decoder
of its own: the gateway takes it from the Ozone Manager
(`OzoneRust.ecConfigFromProto`), a datanode takes it from a command of the Storage Container
Manager (`OzoneRust.toDomainEc`) and from its own protocol
(`OzoneRust.EcReplicationConfig.ofWire`). What each should do is the same
(`OzoneRust.EcFields.Decodes`): accept the numbers that are in range and no others, and keep
them.

Only the third does. The first checks that the numbers fit their types and not their ranges,
and the second cuts them to their types before it checks them
(`OzoneRust.ecBoundaries_iff`).
-/

namespace OzoneRust

/-- The fields a peer has sent. -/
structure EcFields where
  /-- The codec's name. -/
  codec : String
  /-- Data shards. -/
  data : ℤ
  /-- Parity shards. -/
  parity : ℤ
  /-- Bytes per cell. -/
  chunk : ℤ

/-- The fields of a protobuf message of Ozone. -/
def EcProto.fields (w : EcProto) : EcFields :=
  ⟨w.codec, w.data.toInt, w.parity.toInt, w.ecChunkSize.toInt⟩

/-- The fields of a message of the datanode protocol. -/
def WireEcConfig.fields (w : WireEcConfig) : EcFields :=
  ⟨w.codec, w.data.toNat, w.parity.toNat, w.ecChunkSize.toNat⟩

namespace EcFields

/-- The codec is a known one. -/
def Known (f : EcFields) : Prop := (EcCodec.fromStr f.codec).isSome = true

/-- The numbers are in range. -/
def InRange (f : EcFields) : Prop :=
  (1 ≤ f.data ∧ f.data ≤ 32) ∧ (1 ≤ f.parity ∧ f.parity ≤ 32) ∧ 0 < f.chunk

/-- The configuration has the numbers of the fields. -/
def Keeps (f : EcFields) (ec : EcReplicationConfig) : Prop :=
  (ec.data.toNat : ℤ) = f.data ∧ (ec.parity.toNat : ℤ) = f.parity ∧
    (ec.ecChunkSize.toNat : ℤ) = f.chunk

/-- **What a decoder should do**: it accepts a known codec with numbers in range, and nothing
else, and keeps the numbers. -/
def Decodes (f : EcFields) (accepts : EcReplicationConfig → Prop) : Prop :=
  ((∃ ec, accepts ec) ↔ f.Known ∧ f.InRange) ∧ ∀ ec, accepts ec → f.Keeps ec

variable {f : EcFields} {ec : EcReplicationConfig}

theorem known_iff : f.Known ↔ EcCodec.fromStr f.codec = some .rs := by
  rw [Known, Option.isSome_iff_exists]
  exact ⟨fun ⟨⟨⟩, h⟩ => h, fun h => ⟨.rs, h⟩⟩

/-- A configuration with these numbers passes its check exactly when they are in range. -/
theorem Keeps.validate_iff (h : f.Keeps ec) : ec.validate = true ↔ f.InRange := by
  obtain ⟨hdata, hparity, hchunk⟩ := h
  simp only [InRange, EcReplicationConfig.validate, decide_eq_true_eq, UInt8.le_iff_toNat_le,
    ← UInt8.toNat_inj, ← UInt32.toNat_inj, ne_eq, ← hdata, ← hparity, ← hchunk]
  have h₁ : (0 : UInt8).toNat = 0 := rfl
  have h₂ : (32 : UInt8).toNat = 32 := rfl
  have h₃ : (0 : UInt32).toNat = 0 := rfl
  omega

end EcFields

/-! ### The Ozone Manager -/

/-- What the gateway accepts: numbers that fit their types. -/
def EcFields.Fits (f : EcFields) : Prop :=
  (0 ≤ f.data ∧ f.data < 256) ∧ (0 ≤ f.parity ∧ f.parity < 256) ∧ 0 ≤ f.chunk

theorem tryU8_eq_some {n : Int32} {x : UInt8} : tryU8 n = some x ↔ (x.toNat : ℤ) = n.toInt := by
  unfold tryU8
  have hlt := x.toNat_lt
  split_ifs with h
  · rw [Option.some.injEq, ← UInt8.toNat_inj, UInt8.toNat_ofNat']
    omega
  · simp only [false_iff]
    omega

/-- The number of a cell size that is not negative. -/
theorem toNat_chunk {n : Int32} (h : 0 ≤ n.toInt) :
    ((UInt32.ofNat n.toInt.toNat).toNat : ℤ) = n.toInt := by
  have hlt := n.toInt_lt
  rw [UInt32.toNat_ofNat']
  omega

/-- **The gateway's decoder**: the codec is known, and the numbers are kept. -/
theorem ecConfigFromProto_eq_ok {w : EcProto} {ec : EcReplicationConfig} :
    ecConfigFromProto w = .ok ec ↔ w.fields.Known ∧ w.fields.Keeps ec := by
  rw [EcFields.known_iff]
  constructor
  · intro h
    unfold ecConfigFromProto at h
    split at h
    · cases h
    split at h
    · cases h
    split at h
    · cases h
    split at h
    · cases h
    case isFalse codec hcodec _ data hdata _ parity hparity hchunk =>
      cases h
      cases codec
      exact ⟨hcodec, tryU8_eq_some.mp hdata, tryU8_eq_some.mp hparity,
        toNat_chunk (not_lt.mp hchunk)⟩
  · rintro ⟨hcodec, hdata, hparity, hchunk⟩
    obtain ⟨data, parity, chunk, ⟨⟩⟩ := ec
    have hnonneg : 0 ≤ w.ecChunkSize.toInt := by
      rw [show w.ecChunkSize.toInt = chunk.toNat from hchunk.symm]
      exact Int.natCast_nonneg _
    have hsize : UInt32.ofNat w.ecChunkSize.toInt.toNat = chunk := by
      rw [← UInt32.toNat_inj, ← Int.natCast_inj, toNat_chunk hnonneg]
      exact hchunk.symm
    unfold ecConfigFromProto
    rw [show EcCodec.fromStr w.codec = some .rs from hcodec]
    dsimp only
    rw [tryU8_eq_some.mpr hdata]
    dsimp only
    rw [tryU8_eq_some.mpr hparity]
    dsimp only
    rw [if_neg (not_lt.mpr hnonneg), hsize]

/-- The numbers that fit are those of some configuration. -/
theorem EcProto.exists_keeps_iff {w : EcProto} : (∃ ec, w.fields.Keeps ec) ↔ w.fields.Fits := by
  constructor
  · rintro ⟨ec, hdata, hparity, hchunk⟩
    have h₁ := ec.data.toNat_lt
    have h₂ := ec.parity.toNat_lt
    exact ⟨by omega, by omega, by omega⟩
  · rintro ⟨hdata, hparity, hchunk⟩
    refine ⟨⟨UInt8.ofNat w.data.toInt.toNat, UInt8.ofNat w.parity.toInt.toNat,
      UInt32.ofNat w.ecChunkSize.toInt.toNat, .rs⟩, ?_, ?_, toNat_chunk hchunk⟩
    · rw [UInt8.toNat_ofNat']
      change _ = w.data.toInt
      change 0 ≤ w.data.toInt ∧ w.data.toInt < 256 at hdata
      omega
    · rw [UInt8.toNat_ofNat']
      change _ = w.parity.toInt
      change 0 ≤ w.parity.toInt ∧ w.parity.toInt < 256 at hparity
      omega

theorem decodes_ecConfigFromProto_iff (w : EcProto) :
    w.fields.Decodes (fun ec => ecConfigFromProto w = .ok ec) ↔
      (w.fields.Known ∧ w.fields.Fits → w.fields.InRange) := by
  have hacc : (∃ ec, ecConfigFromProto w = .ok ec) ↔ w.fields.Known ∧ w.fields.Fits := by
    simp only [ecConfigFromProto_eq_ok, exists_and_left, EcProto.exists_keeps_iff]
  have hfits : w.fields.InRange → w.fields.Fits := by
    rintro ⟨h₁, h₂, h₃⟩
    exact ⟨by omega, by omega, h₃.le⟩
  rw [EcFields.Decodes, hacc]
  constructor
  · exact fun h hfit => (h.1.mp hfit).2
  · exact fun h => ⟨⟨fun hfit => ⟨hfit.1, h hfit⟩, fun hgood => ⟨hgood.1, hfits hgood.2⟩⟩,
      fun ec hec => (ecConfigFromProto_eq_ok.mp hec).2⟩

/-! ### The Storage Container Manager -/

/-- What a command is accepted with: numbers that are in range once they are cut to their
types. -/
def EcFields.CutInRange (f : EcFields) : Prop :=
  (1 ≤ f.data % 256 ∧ f.data % 256 ≤ 32) ∧ (1 ≤ f.parity % 256 ∧ f.parity % 256 ≤ 32) ∧ f.chunk ≠ 0

theorem toNat_toUInt32 (n : Int32) : (n.toUInt32.toNat : ℤ) = n.toInt % 2 ^ 32 := by
  have hlt := n.toBitVec.isLt
  have hmod := Int.bmod_emod (x := n.toBitVec.toNat) (m := 2 ^ 32)
  rw [← Int32.toNat_toBitVec, ← Int32.toInt_toBitVec, BitVec.toInt_eq_toNat_bmod]
  omega

theorem toNat_toUInt8 (n : Int32) : (n.toUInt32.toUInt8.toNat : ℤ) = n.toInt % 256 := by
  have h := toNat_toUInt32 n
  rw [UInt32.toNat_toUInt8]
  omega

/-- The configuration a command is cut to. -/
def EcProto.cut (w : EcProto) : EcReplicationConfig :=
  ⟨w.data.toUInt32.toUInt8, w.parity.toUInt32.toUInt8, w.ecChunkSize.toUInt32, .rs⟩

theorem EcProto.validate_cut_iff (w : EcProto) : w.cut.validate = true ↔ w.fields.CutInRange := by
  have hkeeps : EcFields.Keeps ⟨w.codec, w.data.toInt % 256, w.parity.toInt % 256,
      w.ecChunkSize.toInt % 2 ^ 32⟩ w.cut := ⟨toNat_toUInt8 _, toNat_toUInt8 _, toNat_toUInt32 _⟩
  rw [hkeeps.validate_iff, EcFields.InRange, EcFields.CutInRange]
  have hlt := w.ecChunkSize.toInt_lt
  have hle := w.ecChunkSize.le_toInt
  dsimp only [EcProto.fields]
  omega

/-- **The decoder of a command**: what is checked is what the numbers were cut to. -/
theorem toDomainEc_eq_some {w : EcProto} {ec : EcReplicationConfig} :
    toDomainEc w = some ec ↔ w.fields.Known ∧ w.fields.CutInRange ∧ ec = w.cut := by
  rw [EcFields.known_iff, ← w.validate_cut_iff, toDomainEc]
  cases hcodec : EcCodec.fromStr w.codec with
  | none => simp [EcProto.fields, hcodec]
  | some codec =>
    cases codec
    simp only [EcProto.fields, hcodec, true_and, EcReplicationConfig.new, EcProto.cut]
    split_ifs with hvalid
    · simp [hvalid, eq_comm]
    · simp [hvalid]

/-- Numbers in range are not cut. -/
theorem EcProto.keeps_cut {w : EcProto} (h : w.fields.InRange) : w.fields.Keeps w.cut := by
  obtain ⟨hdata, hparity, hchunk⟩ := h
  have hlt := w.ecChunkSize.toInt_lt
  dsimp only [EcProto.fields] at *
  refine ⟨(toNat_toUInt8 w.data).trans ?_, (toNat_toUInt8 w.parity).trans ?_,
    (toNat_toUInt32 w.ecChunkSize).trans ?_⟩ <;> dsimp only <;> omega

theorem decodes_toDomainEc_iff (w : EcProto) :
    w.fields.Decodes (fun ec => toDomainEc w = some ec) ↔
      (w.fields.Known ∧ w.fields.CutInRange → w.fields.InRange) := by
  have hacc : (∃ ec, toDomainEc w = some ec) ↔ w.fields.Known ∧ w.fields.CutInRange := by
    simp only [toDomainEc_eq_some, exists_and_left, exists_eq, and_true]
  have hcut : w.fields.InRange → w.fields.CutInRange := by
    rintro ⟨h₁, h₂, h₃⟩
    exact ⟨by omega, by omega, h₃.ne'⟩
  rw [EcFields.Decodes, hacc]
  constructor
  · exact fun h hacc => (h.1.mp hacc).2
  · intro h
    refine ⟨⟨fun hacc => ⟨hacc.1, h hacc⟩, fun hgood => ⟨hgood.1, hcut hgood.2⟩⟩, fun ec hec => ?_⟩
    obtain ⟨hknown, hrange, rfl⟩ := toDomainEc_eq_some.mp hec
    exact EcProto.keeps_cut (h ⟨hknown, hrange⟩)

/-! ### The datanode protocol -/

theorem u8OfWire_eq_ok {field : String} {value : UInt32} {x : UInt8} :
    u8OfWire field value = .ok x ↔ (x.toNat : ℤ) = value.toNat := by
  unfold u8OfWire
  have hlt := x.toNat_lt
  split_ifs with h
  · rw [Except.ok.injEq, ← UInt8.toNat_inj, UInt32.toNat_toUInt8]
    omega
  · simp only [false_iff]
    omega

/-- **The decoder of the datanode protocol**: the numbers are kept, and checked. -/
theorem EcReplicationConfig.ofWire_eq_ok {w : WireEcConfig} {ec : EcReplicationConfig} :
    EcReplicationConfig.ofWire w = .ok ec ↔
      w.fields.Known ∧ w.fields.Keeps ec ∧ ec.validate = true := by
  rw [EcFields.known_iff, ofWire]
  cases hcodec : EcCodec.fromStr w.codec with
  | none => simp [WireEcConfig.fields, hcodec]
  | some codec =>
    cases codec
    simp only [Outcome.except_bind_eq_ok, u8OfWire_eq_ok, checked_eq_ok, WireEcConfig.fields,
      hcodec, true_and, EcFields.Keeps]
    constructor
    · rintro ⟨data, hdata, parity, hparity, hvalid, rfl⟩
      exact ⟨⟨hdata, hparity, rfl⟩, hvalid⟩
    · rintro ⟨⟨hdata, hparity, hchunk⟩, hvalid⟩
      obtain ⟨data, parity, chunk, ⟨⟩⟩ := ec
      obtain rfl : chunk = w.ecChunkSize := UInt32.toNat_inj.mp (Int.natCast_inj.mp hchunk)
      exact ⟨data, hdata, parity, hparity, hvalid, rfl⟩

theorem WireEcConfig.decodes_ofWire (w : WireEcConfig) :
    w.fields.Decodes fun ec => EcReplicationConfig.ofWire w = .ok ec := by
  refine ⟨⟨?_, ?_⟩, fun ec hec => (EcReplicationConfig.ofWire_eq_ok.mp hec).2.1⟩
  · rintro ⟨ec, hec⟩
    obtain ⟨hknown, hkeeps, hvalid⟩ := EcReplicationConfig.ofWire_eq_ok.mp hec
    exact ⟨hknown, hkeeps.validate_iff.mp hvalid⟩
  · rintro ⟨hknown, hrange⟩
    obtain ⟨h₁, h₂, -⟩ := id hrange
    dsimp only [WireEcConfig.fields] at h₁ h₂
    have hkeeps : w.fields.Keeps ⟨w.data.toUInt8, w.parity.toUInt8, w.ecChunkSize, .rs⟩ := by
      refine ⟨?_, ?_, rfl⟩
      · rw [UInt32.toNat_toUInt8]
        dsimp only [WireEcConfig.fields]
        omega
      · rw [UInt32.toNat_toUInt8]
        dsimp only [WireEcConfig.fields]
        omega
    exact ⟨_, EcReplicationConfig.ofWire_eq_ok.mpr ⟨hknown, hkeeps, hkeeps.validate_iff.mpr hrange⟩⟩

/-! ### What carries a configuration -/

/-- The configuration of a block of a key is the one its pipeline came with. -/
theorem ec_of_keyLocationToBlock {loc : KeyLocation} {block : BlockLocation}
    (h : keyLocationToBlock loc = .ok block) : ∃ pipeline w, loc.pipeline = some pipeline ∧
      pipeline.ecReplicationConfig = some w ∧ ecConfigFromProto w = .ok block.ec := by
  unfold keyLocationToBlock at h
  split_ifs at h
  split at h
  · cases h
  split at h
  · cases h
  case h_2 pipeline hpipeline _ w hw =>
    obtain ⟨ec, hec, h⟩ := Outcome.bind_eq_ok.mp h
    split_ifs at h
    obtain ⟨members, -, h⟩ := Outcome.bind_eq_ok.mp h
    cases h
    exact ⟨pipeline, w, hpipeline, hw, hec⟩

theorem Service.converted_eq_ok {α : Type} {x : Except ConversionError α} {a : α} :
    Service.converted x = .ok a ↔ x = .ok a := by
  cases x <;> simp [Service.converted]

/-- The configuration of a container that is created came through the datanode protocol. -/
theorem ofWire_of_acceptCreate {req : Service.CreateContainerRequest} {info : ContainerInfo}
    {ec : EcReplicationConfig} (h : Service.acceptCreate req = .ok info)
    (hinfo : info.ecConfig = some ec) : ∃ w, EcReplicationConfig.ofWire w = .ok ec := by
  unfold Service.acceptCreate at h
  obtain ⟨cid, -, h⟩ := Outcome.except_bind_eq_ok.mp h
  obtain ⟨w, -, h⟩ := Outcome.except_bind_eq_ok.mp h
  obtain ⟨ec', hec, h⟩ := Outcome.except_bind_eq_ok.mp h
  obtain rfl : ContainerInfo.newOpen cid ec' = info := Except.ok.inj h
  obtain rfl : ec' = ec := Option.some.inj hinfo
  exact ⟨w, Service.converted_eq_ok.mp hec⟩

/-- **Where the boundaries agree.** A block of a key is decoded as it should be exactly when
the numbers are in range or do not even fit their types (or the codec is unknown), and a
command exactly when the numbers are in range or are not in range either after they are cut;
the datanode protocol always. The configuration of a block of a key passes its check exactly
when the numbers the manager sent are in range; those of repairs and of created containers
always do. -/
theorem ecBoundaries_iff (om scm : EcProto) (dn : WireEcConfig) :
    (om.fields.Decodes (fun ec => ecConfigFromProto om = .ok ec) ↔
      (om.fields.Known ∧ om.fields.Fits → om.fields.InRange)) ∧
    (scm.fields.Decodes (fun ec => toDomainEc scm = some ec) ↔
      (scm.fields.Known ∧ scm.fields.CutInRange → scm.fields.InRange)) ∧
    dn.fields.Decodes (fun ec => EcReplicationConfig.ofWire dn = .ok ec) ∧
    (∀ loc pipeline block, keyLocationToBlock loc = .ok block → loc.pipeline = some pipeline →
      pipeline.ecReplicationConfig = some om → (block.ec.validate = true ↔ om.fields.InRange)) ∧
    (∀ ec, toDomainEc scm = some ec → ec.validate = true) ∧
    ∀ req info ec, Service.acceptCreate req = .ok info → info.ecConfig = some ec →
      ec.validate = true := by
  refine ⟨decodes_ecConfigFromProto_iff om, decodes_toDomainEc_iff scm, dn.decodes_ofWire,
    ?_, ?_, ?_⟩
  · intro loc pipeline block h hpipeline hom
    obtain ⟨pipeline', w, hpipeline', hw, hec⟩ := ec_of_keyLocationToBlock h
    obtain rfl : pipeline = pipeline' := Option.some.inj (hpipeline.symm.trans hpipeline')
    obtain rfl : om = w := Option.some.inj (hom.symm.trans hw)
    exact (ecConfigFromProto_eq_ok.mp hec).2.validate_iff
  · intro ec hec
    obtain ⟨-, hrange, rfl⟩ := toDomainEc_eq_some.mp hec
    exact scm.validate_cut_iff.mpr hrange
  · intro req info ec h hinfo
    obtain ⟨w, hec⟩ := ofWire_of_acceptCreate h hinfo
    exact EcReplicationConfig.validate_of_ofWire hec

/-- The gateway accepts no data shards at all, and a command with 257 of them is taken for one
with a single one. -/
theorem ecBoundaries_disagree :
    (ecConfigFromProto ⟨0, 2, "rs", 1024⟩ = .ok ⟨0, 2, 1024, .rs⟩ ∧
      (EcReplicationConfig.mk 0 2 1024 .rs).validate = false) ∧
    toDomainEc ⟨257, 2, "rs", 1024⟩ = some ⟨1, 2, 1024, .rs⟩ := by
  decide

end OzoneRust
