import OzoneRust.Lib.Lfsr
import OzoneRust.Storage.Checksum

/-!
# What a checksum notices

The CRC of `checksum.rs` is a shift register of `OzoneRust.Lib.Lfsr` that takes the bits of the
window in the order of their weight, the lowest bit of each byte first, as every reflected CRC
does (`OzoneRust.Checksum.toBitVec_crc32c`). So two windows that differ within 32 consecutive bits
have different digests (`OzoneRust.Checksum.crc32c_ne`).

`OzoneRust.crc32c_bursts` lifts this to `compute` and `verify`: the digests of some data accept
the data, notice another number of windows, and for a burst of at most 32 bits name the window
it is in.
-/

namespace OzoneRust

namespace Checksum

/-! ### The register -/

/-- The Castagnoli polynomial, in reverse and without its leading term. -/
def castagnoli : BitVec 32 := 0x82F63B78#32

/-- The bits of a byte, the lowest first. -/
def byteBits (b : UInt8) : List Bool := (List.range 8).map b.toBitVec.getLsbD

/-- The bits of a string, the lowest of each byte first. -/
def bits (data : Bytes) : List Bool := data.flatMap byteBits

theorem toBitVec_crcBit (c : UInt32) : (crcBit c).toBitVec = Lfsr.step castagnoli c.toBitVec := by
  have hlow : (c &&& 1 = 1) ↔ c.toBitVec.getLsbD 0 = true := by
    rw [← UInt32.toBitVec_inj, UInt32.toBitVec_and]
    simp [BitVec.getLsbD, ← BitVec.toNat_inj, Nat.and_one_is_mod, Nat.testBit_zero]
  unfold crcBit Lfsr.step
  by_cases h : c &&& 1 = 1
  · rw [if_pos h, if_pos (hlow.mp h)]
    rfl
  · rw [if_neg h, if_neg (mt hlow.mpr h)]
    rfl

theorem word_byteBits (b : UInt8) : Lfsr.word 32 (byteBits b) = b.toUInt32.toBitVec := by
  refine BitVec.eq_of_getLsbD_eq fun i hi => ?_
  rw [Lfsr.getLsbD_word _ hi, UInt8.toBitVec_toUInt32, BitVec.getLsbD_setWidth,
    List.getD_eq_getElem?_getD, byteBits, List.getElem?_map]
  by_cases h8 : i < 8
  · simp [List.getElem?_range h8, hi]
  · rw [List.getElem?_eq_none (by simpa using h8), BitVec.getLsbD_of_ge _ _ (by omega)]
    simp

/-- A byte is taken bit by bit. -/
theorem toBitVec_crcByte (c : UInt32) (b : UInt8) :
    (crcByte c b).toBitVec = Lfsr.run castagnoli c.toBitVec (byteBits b) := by
  have hrepeat : ∀ n x, (Nat.repeat crcBit n x).toBitVec =
      (Lfsr.step castagnoli)^[n] x.toBitVec := by
    intro n x
    induction n with
    | zero => rfl
    | succ n ih => rw [Nat.repeat, toBitVec_crcBit, ih, Function.iterate_succ_apply']
  have hlen : (byteBits b).length = 8 := by simp [byteBits]
  rw [Lfsr.run_eq_iterate _ _ (by omega), word_byteBits, hlen]
  exact hrepeat 8 _

/-- **The CRC is a run of the register.** -/
theorem toBitVec_crc32c (data : Bytes) :
    (crc32c data).toBitVec =
      Lfsr.run castagnoli 0xFFFFFFFF#32 (bits data) ^^^ 0xFFFFFFFF#32 := by
  have hfold : ∀ c, (data.foldl crcByte c).toBitVec =
      Lfsr.run castagnoli c.toBitVec (bits data) := by
    induction data with
    | nil => exact fun c => rfl
    | cons b data ih =>
      intro c
      rw [List.foldl_cons, ih, toBitVec_crcByte, ← Lfsr.run_append]
      rfl
  rw [crc32c, UInt32.toBitVec_xor, hfold]
  rfl

/-! ### Bits of a string -/

theorem length_bits (data : Bytes) : (bits data).length = 8 * data.length := by
  induction data with
  | nil => rfl
  | cons b data ih =>
    rw [bits, List.flatMap_cons, List.length_append, ← bits, ih, List.length_cons]
    simp [byteBits]
    omega

theorem getElem?_bits : ∀ (data : Bytes) (n : ℕ),
    (bits data)[n]? = data[n / 8]?.map fun b => b.toBitVec.getLsbD (n % 8)
  | [], n => by simp [bits]
  | b :: data, n => by
    have hlen : (byteBits b).length = 8 := by simp [byteBits]
    rw [bits, List.flatMap_cons]
    by_cases h8 : n < 8
    · rw [List.getElem?_append_left (by omega), Nat.div_eq_of_lt h8, Nat.mod_eq_of_lt h8]
      simp [byteBits, List.getElem?_range h8]
    · rw [List.getElem?_append_right (by omega), hlen, ← bits, getElem?_bits data (n - 8),
        show n / 8 = (n - 8) / 8 + 1 by omega, show (n - 8) % 8 = n % 8 by omega,
        List.getElem?_cons_succ]

/-- Strings with the same bits are the same. -/
theorem getElem?_eq_of_bits {data data' : Bytes} (hlen : data'.length = data.length) {i : ℕ}
    (h : ∀ j < 8, (bits data')[8 * i + j]? = (bits data)[8 * i + j]?) : data'[i]? = data[i]? := by
  by_cases hi : i < data.length
  · have hi' : i < data'.length := by omega
    rw [List.getElem?_eq_getElem hi, List.getElem?_eq_getElem hi']
    congr 1
    refine UInt8.toBitVec_inj.mp (BitVec.eq_of_getLsbD_eq fun j hj => ?_)
    have hbit := h j hj
    rw [getElem?_bits, getElem?_bits, show (8 * i + j) / 8 = i by omega,
      show (8 * i + j) % 8 = j by omega, List.getElem?_eq_getElem hi,
      List.getElem?_eq_getElem hi'] at hbit
    exact Option.some.inj hbit
  · rw [List.getElem?_eq_none (by omega), List.getElem?_eq_none (by omega)]

theorem exists_bits_of_ne {l l' : List Bool} (hlen : l'.length = l.length) {n : ℕ}
    (h : l'[n]? ≠ l[n]?) : ∃ a b, l'[n]? = some a ∧ l[n]? = some b ∧ a ≠ b := by
  by_cases hn : n < l.length
  · have hn' : n < l'.length := by omega
    refine ⟨l'[n], l[n], List.getElem?_eq_getElem hn', List.getElem?_eq_getElem hn, ?_⟩
    rw [List.getElem?_eq_getElem hn, List.getElem?_eq_getElem hn'] at h
    exact fun hab => h (congrArg some hab)
  · exact absurd (by rw [List.getElem?_eq_none (by omega), List.getElem?_eq_none (by omega)]) h

/-- **A burst changes the CRC.** -/
theorem crc32c_ne {data data' : Bytes} (hlen : data'.length = data.length) (hne : data' ≠ data)
    {p : ℕ} (hin : ∀ n, (bits data')[n]? ≠ (bits data)[n]? → p ≤ n ∧ n < p + 32) :
    crc32c data' ≠ crc32c data := by
  have hbits : (bits data').length = (bits data).length := by
    rw [length_bits, length_bits, hlen]
  intro heq
  have hrun : Lfsr.run castagnoli 0xFFFFFFFF#32 (bits data') =
      Lfsr.run castagnoli 0xFFFFFFFF#32 (bits data) := by
    have hcrc := congrArg UInt32.toBitVec heq
    rw [toBitVec_crc32c, toBitVec_crc32c] at hcrc
    exact BitVec.xor_left_inj _ |>.mp hcrc
  -- the difference of the two strings leaves the difference of the registers, which is zero
  have hdiff := Lfsr.run_xor castagnoli 0xFFFFFFFF#32 0xFFFFFFFF#32 hbits
  rw [hrun, BitVec.xor_self, BitVec.xor_self] at hdiff
  refine Lfsr.run_ne_zero (p := p) rfl ?_ (fun n hn => hin n ?_) hdiff
  · by_contra hnone
    refine hne (List.ext_getElem? fun i => getElem?_eq_of_bits hlen fun j _ => ?_)
    by_contra hbit
    obtain ⟨a, b, ha, hb, hab⟩ := exists_bits_of_ne hbits hbit
    refine hnone (List.mem_iff_getElem?.mpr ⟨8 * i + j, ?_⟩)
    exact List.getElem?_zipWith_eq_some.mpr ⟨a, b, ha, hb, by simpa using hab⟩
  · obtain ⟨a, b, ha, hb, hab⟩ := List.getElem?_zipWith_eq_some.mp hn
    rw [ha, hb]
    exact fun h => (by simpa using hab : a ≠ b) (Option.some.inj h)

theorem toBeBytes_inj {c d : UInt32} (h : toBeBytes c = toBeBytes d) : c = d := by
  simp only [toBeBytes, List.cons.injEq, and_true, ← UInt8.toNat_inj, UInt32.toNat_toUInt8,
    UInt32.toNat_shiftRight, Nat.shiftRight_eq_div_pow, UInt32.reduceToNat, Nat.reduceMod,
    Nat.reducePow] at h
  have hc := c.toNat_lt
  have hd := d.toNat_lt
  exact UInt32.toNat_inj.mp (by omega)

/-! ### Windows -/

/-- The bit at place `n` of a string, in the order in which the CRC takes them: the lowest bit of
a byte comes first. Past the end of the string all bits are zero. -/
def bitAt (data : Bytes) (n : ℕ) : Bool := (data.getD (n / 8) 0).toBitVec.getLsbD (n % 8)

/-- **A burst in window `w`**: a string of the same length that differs, in this window only and
within 32 consecutive bits. -/
structure BurstIn (size w : ℕ) (data data' : Bytes) : Prop where
  length_eq : data'.length = data.length
  ne : data' ≠ data
  inside : ∃ p, ∀ n, bitAt data' n ≠ bitAt data n → n / 8 / size = w ∧ p ≤ n ∧ n < p + 32

theorem getElem?_bits_eq {data : Bytes} {n : ℕ} (hn : n / 8 < data.length) :
    (bits data)[n]? = some (bitAt data n) := by
  rw [getElem?_bits, bitAt, List.getD_eq_getElem _ _ hn, List.getElem?_eq_getElem hn,
    Option.map_some]

/-- Bits that differ are bits of the window, close to each other. -/
theorem BurstIn.bits_inside {size w : ℕ} {data data' : Bytes} (h : BurstIn size w data data') :
    ∃ p, ∀ n, (bits data')[n]? ≠ (bits data)[n]? →
      n / 8 < data.length ∧ n / 8 / size = w ∧ p ≤ n ∧ n < p + 32 := by
  obtain ⟨p, hin⟩ := h.inside
  have hlen := h.length_eq
  refine ⟨p, fun n hne => ?_⟩
  by_cases hn : n / 8 < data.length
  · rw [getElem?_bits_eq hn, getElem?_bits_eq (by omega)] at hne
    exact ⟨hn, hin n fun heq => hne (congrArg some heq)⟩
  · rw [getElem?_bits, getElem?_bits, List.getElem?_eq_none (by omega),
      List.getElem?_eq_none (by omega)] at hne
    exact absurd rfl hne

/-- The bits of a window. -/
theorem getElem?_bits_window {data : Bytes} {i size n : ℕ} (hn : n / 8 < size) :
    (bits ((data.drop i).take size))[n]? = (bits data)[8 * i + n]? := by
  rw [getElem?_bits, getElem?_bits, List.getElem?_take_of_lt hn, List.getElem?_drop,
    show (8 * i + n) / 8 = i + n / 8 by omega, show (8 * i + n) % 8 = n % 8 by omega]

/-- The first window that differs is named. -/
theorem verifyWindows_eq_mismatch {window window' : Bytes}
    (hne : toBeBytes (crc32c window) ≠ toBeBytes (crc32c window')) :
    ∀ (w i : ℕ) {windows windows' : List Bytes}, (∀ j < w, windows'[j]? = windows[j]?) →
      windows[w]? = some window → windows'[w]? = some window' →
      verifyWindows i windows' (windows.map fun window => toBeBytes (crc32c window)) =
        .error (.mismatch (i + w))
  | 0, i, a :: windows, b :: windows', _, ha, hb => by
    obtain rfl := Option.some.inj ha
    obtain rfl := Option.some.inj hb
    rw [List.map_cons, verifyWindows, if_pos hne]
    rfl
  | w + 1, i, a :: windows, b :: windows', hsame, ha, hb => by
    obtain rfl : b = a := Option.some.inj (hsame 0 (Nat.succ_pos w))
    have hrest := verifyWindows_eq_mismatch hne w (i + 1)
      (fun j hj => hsame (j + 1) (Nat.succ_lt_succ hj)) ha hb
    rw [List.map_cons, verifyWindows, if_neg (not_not_intro rfl), Nat.add_comm w, ← Nat.add_assoc]
    exact hrest

/-- The other windows are the same. -/
theorem BurstIn.window_eq {size w : ℕ} {data data' : Bytes} (h : BurstIn size w data data')
    (hsize : 0 < size) {j : ℕ} (hj : j ≠ w) :
    (data'.drop (j * size)).take size = (data.drop (j * size)).take size := by
  obtain ⟨p, hin⟩ := h.bits_inside
  refine List.ext_getElem? fun n => ?_
  rcases Nat.lt_or_ge n size with hn | hn
  · rw [List.getElem?_take_of_lt hn, List.getElem?_take_of_lt hn, List.getElem?_drop,
      List.getElem?_drop]
    refine getElem?_eq_of_bits h.length_eq fun b hb => by_contra fun hne => hj ?_
    have hwindow := (hin _ hne).2.1
    rwa [show (8 * (j * size + n) + b) / 8 = size * j + n by rw [Nat.mul_comm size]; omega,
      Nat.mul_add_div hsize, Nat.div_eq_of_lt hn] at hwindow
  · rw [List.getElem?_take_eq_none hn, List.getElem?_take_eq_none hn]

/-- The window with the burst is one of them, and its digest changes. -/
theorem BurstIn.digest_ne {size w : ℕ} {data data' : Bytes} (h : BurstIn size w data data')
    (hsize : 0 < size) :
    w < (data.length + size - 1) / size ∧
      toBeBytes (crc32c ((data.drop (w * size)).take size)) ≠
        toBeBytes (crc32c ((data'.drop (w * size)).take size)) := by
  obtain ⟨p, hin⟩ := h.bits_inside
  have hlen := h.length_eq
  -- somewhere a bit differs, at byte `n / 8` of the window
  obtain ⟨n, hn⟩ : ∃ n, (bits data')[n]? ≠ (bits data)[n]? := by
    by_contra hall
    exact h.ne (List.ext_getElem? fun i => getElem?_eq_of_bits hlen fun j _ =>
      by_contra fun hne => hall ⟨_, hne⟩)
  obtain ⟨hbyte, hwindow, -⟩ := hin n hn
  have hmod := Nat.div_add_mod (n / 8) size
  have hlt := Nat.mod_lt (n / 8) hsize
  rw [hwindow, Nat.mul_comm] at hmod
  refine ⟨(Nat.lt_div_iff_mul_lt hsize).mpr (by omega), fun heq => ?_⟩
  refine crc32c_ne (p := p - 8 * (w * size)) ?_ (fun hsame => ?_) (fun m hm => ?_)
    (toBeBytes_inj heq).symm
  · rw [List.length_take, List.length_take, List.length_drop, List.length_drop, hlen]
  · -- the bit is in both windows
    have hbits := congrArg (fun window => (bits window)[n - 8 * (w * size)]?) hsame
    rw [getElem?_bits_window (by omega), getElem?_bits_window (by omega),
      Nat.add_sub_cancel' (by omega)] at hbits
    exact hn hbits
  · have hm8 : m / 8 < size := by
      by_contra hge
      rw [getElem?_bits, getElem?_bits, List.getElem?_take_eq_none (by omega),
        List.getElem?_take_eq_none (by omega)] at hm
      exact hm rfl
    rw [getElem?_bits_window hm8, getElem?_bits_window hm8] at hm
    have hplace := hin _ hm
    omega

end Checksum

/-- **Digests accept their data and notice bursts.** For every string and every size of a window,
zero included: `compute` gives digests that `verify` accepts for the string; a string with another
number of windows is refused; and a string of the same length that differs in one window only, and
within 32 consecutive bits, is refused with the number of this window. -/
theorem crc32c_bursts (data : Bytes) (bytesPerChecksum : UInt32) :
    ∃ cd, Checksum.compute data bytesPerChecksum .crc32c = .ok cd ∧
      Checksum.verify data cd = .ok () ∧
      (∀ data' : Bytes, Checksum.windowCount data'.length bytesPerChecksum ≠
          Checksum.windowCount data.length bytesPerChecksum →
        Checksum.verify data' cd = .error (.countMismatch
          (Checksum.windowCount data'.length bytesPerChecksum)
          (Checksum.windowCount data.length bytesPerChecksum))) ∧
      ∀ (data' : Bytes) (w : ℕ),
        Checksum.BurstIn (Checksum.bpc bytesPerChecksum) w data data' →
        Checksum.verify data' cd = .error (.mismatch w) := by
  have hcompute : ∃ cd, Checksum.compute data bytesPerChecksum .crc32c = .ok cd := ⟨_, rfl⟩
  obtain ⟨cd, hcd⟩ := hcompute
  refine ⟨cd, hcd, Checksum.verify_compute hcd, fun data' hne => ?_, fun data' w h => ?_⟩ <;>
    cases hcd
  · simp only [Checksum.verify, Blocks.chunks, List.length_map, List.length_range]
    exact if_pos hne.symm
  · have hsize : 0 < Checksum.bpc bytesPerChecksum := by
      unfold Checksum.bpc
      omega
    obtain ⟨hw, hne⟩ := h.digest_ne hsize
    have hwindows : ∀ (s : Bytes) {j : ℕ}, s.length = data.length →
        j < (data.length + Checksum.bpc bytesPerChecksum - 1) / Checksum.bpc bytesPerChecksum →
        (Blocks.chunks (Checksum.bpc bytesPerChecksum) s)[j]? =
          some ((s.drop (j * Checksum.bpc bytesPerChecksum)).take
            (Checksum.bpc bytesPerChecksum)) := by
      intro s j hs hj
      rw [Blocks.chunks, List.getElem?_map, hs, List.getElem?_range hj, Option.map_some]
    simp only [Checksum.verify, List.length_map]
    rw [if_neg (not_not_intro (by
      rw [Checksum.windowCount, h.length_eq, Blocks.chunks, List.length_map, List.length_range]))]
    have hmismatch := Checksum.verifyWindows_eq_mismatch hne w 0 (fun j hj => ?_)
      (hwindows data rfl hw) (hwindows data' h.length_eq hw)
    · rwa [Nat.zero_add] at hmismatch
    · rw [hwindows data rfl (by omega), hwindows data' h.length_eq (by omega),
        h.window_eq hsize (by omega)]

/-- Three bytes in windows of two: one bit of the last byte is flipped. -/
theorem crc32c_bursts_threeBytes :
    Checksum.BurstIn (Checksum.bpc 2) 1 [1, 2, 3] [1, 2, 7] ∧
      ∃ cd, Checksum.compute [1, 2, 3] 2 .crc32c = .ok cd ∧
        Checksum.verify [1, 2, 7] cd = .error (.mismatch 1) := by
  have hburst : Checksum.BurstIn (Checksum.bpc 2) 1 [1, 2, 3] [1, 2, 7] := by
    refine ⟨rfl, by decide, 16, fun n hn => ?_⟩
    have hlt : n < 24 := by
      by_contra hge
      refine hn ?_
      rw [Checksum.bitAt, Checksum.bitAt, List.getD_eq_default _ _ (by simp; omega),
        List.getD_eq_default _ _ (by simp; omega)]
    have hall : ∀ n < 24, Checksum.bitAt [1, 2, 7] n ≠ Checksum.bitAt [1, 2, 3] n →
        n / 8 / Checksum.bpc 2 = 1 ∧ 16 ≤ n ∧ n < 16 + 32 := by decide +kernel
    exact hall n hlt hn
  obtain ⟨cd, hcd, -, -, hnotice⟩ := crc32c_bursts [1, 2, 3] 2
  exact ⟨hburst, cd, hcd, hnotice _ _ hburst⟩

end OzoneRust
