import OzoneRust.Lib.Blocks
import OzoneRust.Types

/-!
# Chunk checksums

`checksum.rs` of the storage crate: one CRC-32C digest, big-endian, per window of a chunk.
The CRC itself is the reflected Castagnoli polynomial with all ones as the initial value
and as the final xor, one bit at a time.

What is computed over some bytes is accepted for the same bytes
(`OzoneRust.Checksum.verify_compute`).
-/

namespace OzoneRust

namespace Checksum

/-- The errors of `checksum.rs`. -/
inductive ChecksumError where
  /-- The algorithm is not implemented. -/
  | unsupported (ty : ChecksumType)
  /-- The number of digests is not the number of windows. -/
  | countMismatch (windows provided : ℕ)
  /-- The digest of a window differs. -/
  | mismatch (window : ℕ)
  deriving DecidableEq, Repr

/-! ### The code -/

/-- One bit of the CRC. -/
def crcBit (c : UInt32) : UInt32 :=
  if c &&& 1 = 1 then (c >>> 1) ^^^ 0x82F63B78 else c >>> 1

/-- One byte of the CRC. -/
def crcByte (c : UInt32) (b : UInt8) : UInt32 :=
  Nat.repeat crcBit 8 (c ^^^ b.toUInt32)

/-- CRC-32C. -/
def crc32c (data : Bytes) : UInt32 := data.foldl crcByte 0xFFFFFFFF ^^^ 0xFFFFFFFF

/-- `u32::to_be_bytes`. -/
def toBeBytes (c : UInt32) : Bytes :=
  [(c >>> 24).toUInt8, (c >>> 16).toUInt8, (c >>> 8).toUInt8, c.toUInt8]

example : crc32c [0x31, 0x32, 0x33, 0x34, 0x35, 0x36, 0x37, 0x38, 0x39] = 0xE3069283 := by
  decide +kernel

/-! ### Windows -/

/-- The window size, at least one byte. -/
def bpc (bytesPerChecksum : UInt32) : ℕ := max bytesPerChecksum.toNat 1

/-- `window_count`: the windows `len` bytes divide into. -/
def windowCount (len : ℕ) (bytesPerChecksum : UInt32) : ℕ :=
  (len + bpc bytesPerChecksum - 1) / bpc bytesPerChecksum

/-- `compute`: the digests of a chunk. -/
def compute (data : Bytes) (bytesPerChecksum : UInt32) (ty : ChecksumType) :
    Except ChecksumError ChecksumData :=
  match ty with
  | .none => .ok ⟨.none, 0, []⟩
  | .crc32c =>
    .ok ⟨.crc32c, bytesPerChecksum,
      (Blocks.chunks (bpc bytesPerChecksum) data).map fun window => toBeBytes (crc32c window)⟩
  | other => .error (.unsupported other)

/-- The first window from the `i`-th on whose digest differs. -/
def verifyWindows : ℕ → List Bytes → List Bytes → Except ChecksumError Unit
  | _, [], _ => .ok ()
  | _, _ :: _, [] => .ok ()
  | i, window :: windows, digest :: digests =>
    if digest ≠ toBeBytes (crc32c window) then .error (.mismatch i)
    else verifyWindows (i + 1) windows digests

/-- `verify`: the digests are those of the data. -/
def verify (data : Bytes) (cd : ChecksumData) : Except ChecksumError Unit :=
  match cd.checksumType with
  | .none => .ok ()
  | .crc32c =>
    let expected := windowCount data.length cd.bytesPerChecksum
    if cd.checksums.length ≠ expected then
      .error (.countMismatch expected cd.checksums.length)
    else
      verifyWindows 0 (Blocks.chunks (bpc cd.bytesPerChecksum) data) cd.checksums
  | other => .error (.unsupported other)

/-! ### Computed digests are accepted -/

theorem verifyWindows_map : ∀ (i : ℕ) (windows : List Bytes),
    verifyWindows i windows (windows.map fun window => toBeBytes (crc32c window)) = .ok ()
  | _, [] => rfl
  | i, window :: windows => by
    rw [List.map_cons, verifyWindows, if_neg (not_not_intro rfl), verifyWindows_map]

/-- **What is computed over some bytes is accepted for them.** -/
theorem verify_compute {data : Bytes} {bytesPerChecksum : UInt32} {ty : ChecksumType}
    {cd : ChecksumData} (h : compute data bytesPerChecksum ty = .ok cd) :
    verify data cd = .ok () := by
  cases ty with
  | none =>
    cases h
    rfl
  | crc32c =>
    cases h
    simp only [verify, windowCount, Blocks.chunks, List.length_map, List.length_range, ne_eq,
      not_true_eq_false, if_false]
    exact verifyWindows_map 0 _
  | crc32 => cases h
  | sha256 => cases h
  | md5 => cases h

end Checksum

end OzoneRust
