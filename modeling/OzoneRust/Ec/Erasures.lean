import OzoneRust.Ec.Reference

/-!
# Erasures of every kind

What `Decoder::reconstruct` promises, for one shape, one choice of sources and one list of
erased shards: that it returns the erased shards of every stripe that the encoder made
(`OzoneRust.Reconstructs`). Data and parity can be mixed, in any order, and a shard can be
asked for more than once.

The promise holds exactly as long as the number of erased shards survives the cast to `i32`
(`OzoneRust.reconstructs_iff`). Beyond, ISA-L is told another number of rows, and the call
returns without having written the outputs (`OzoneRust.not_reconstructs_kernel`).
-/

namespace OzoneRust

/-- So many buffers of so many bytes. -/
def Buffers (len n : ℕ) (bufs : List Bytes) : Prop := bufs.length = n ∧ ∀ b ∈ bufs, b.length = len

/-- **The promise of the decoder**: for every stripe the encoder made, the erased shards are
written to the outputs, in the order of the request. -/
def Reconstructs (isal : IsaL) (cfg : EcConfig) (sources erased : List ℕ) : Prop :=
  ∃ enc dec, InnerEncoder.new isal cfg = .ok enc ∧ InnerDecoder.new isal cfg = .ok dec ∧
    ∀ (len : ℕ) (data parity outputs : List Bytes), len < 2 ^ 31 → Buffers len cfg.data data →
      Buffers len cfg.parity parity → Buffers len erased.length outputs →
      ∃ coded, enc.encode isal len data parity = .ok coded ∧
        dec.reconstruct isal len sources (sources.map ((data ++ coded).getD · [])) erased outputs =
          .ok (erased.map ((data ++ coded).getD · []))

section Stripe

variable {isal : IsaL} {cfg : EcConfig} {sources erased : List ℕ} {len : ℕ} {data : List Bytes}

/-- The shards of a stripe are its code buffers. -/
theorem getD_stripe (hdata : Buffers len cfg.data data) {i : ℕ} (hi : i < cfg.data + cfg.parity) :
    (data ++ (List.range cfg.parity).map fun j =>
      codeBuffer cfg.data len (data.getD · []) (cfg.data + j)).getD i [] =
      codeBuffer cfg.data len (data.getD · []) i := by
  obtain ⟨hcount, hlen⟩ := hdata
  by_cases hik : i < cfg.data
  · have hmem : data.getD i [] ∈ data := by
      rw [List.getD_eq_getElem _ _ (by omega)]
      exact List.getElem_mem _
    have hpad : codeBuffer cfg.data len (data.getD · []) i = _ :=
      codeBuffer_data hik (hlen _ hmem).le
    rw [List.getD_append _ _ _ _ (by omega), hpad, hlen _ hmem]
    simp
  · rw [List.getD_append_right _ _ _ _ (by omega), hcount, List.getD_eq_getElem?_getD,
      List.getElem?_map, List.getElem?_range (by omega)]
    simp [show cfg.data + (i - cfg.data) = i by omega]

/-- The encoder, for a stripe given as a list. -/
theorem encode_stripe (hI : isal.Correct) (hcfg : cfg.Valid) :
    ∃ enc, InnerEncoder.new isal cfg = .ok enc ∧ ∀ (len : ℕ) (data parity : List Bytes),
      len < 2 ^ 31 → Buffers len cfg.data data → Buffers len cfg.parity parity →
      enc.encode isal len data parity = .ok ((List.range cfg.parity).map fun j =>
        codeBuffer cfg.data len (data.getD · []) (cfg.data + j)) := by
  obtain ⟨enc, hnew, henc⟩ := InnerEncoder.encode_into hI hcfg
  refine ⟨enc, hnew, fun len data parity hl hdata hparity => ?_⟩
  have hbufs : ∀ j < cfg.data, (data.getD j []).length = len := by
    intro j hj
    rw [List.getD_eq_getElem _ _ (hdata.1 ▸ hj)]
    exact hdata.2 _ (List.getElem_mem _)
  have h := henc len (data.getD · []) parity hl hbufs hparity.1 hparity.2
  rwa [← hdata.1, Blocks.map_range_getD_length, hdata.1] at h

/-- **Every erased shard is rebuilt**, as long as their number fits. -/
theorem reconstructs_of_lt (hI : isal.Correct) (hmul : isal.MulCorrect) (hcfg : cfg.Valid)
    (hcount : sources.length = cfg.data) (hnodup : sources.Nodup)
    (hsources : ∀ s ∈ sources, s < cfg.data + cfg.parity)
    (herased : ∀ e ∈ erased, e < cfg.data + cfg.parity) (hdisj : ∀ e ∈ erased, e ∉ sources)
    (hfew : erased.length < 2 ^ 31) : Reconstructs isal cfg sources erased := by
  obtain ⟨enc, henc, hencode⟩ := encode_stripe hI hcfg
  obtain ⟨dec, hdec, hrec⟩ := InnerDecoder.reconstruct_into hI hcfg
  refine ⟨enc, dec, henc, hdec, fun len data parity outputs hl hdata hparity houtputs => ?_⟩
  refine ⟨_, hencode len data parity hl hdata hparity, ?_⟩
  rw [List.map_congr_left fun i hi => getD_stripe hdata (hsources i hi),
    List.map_congr_left fun i hi => getD_stripe hdata (herased i hi)]
  exact hrec len _ sources erased outputs hl hcount hnodup hsources hfew herased
    (fun _ _ _ => hmul) hdisj houtputs.1 houtputs.2

end Stripe

/-! ### Too many rows -/

/-- Bytes written to the front of a buffer. -/
def IsaL.write (buf bytes : Bytes) : Bytes := bytes.take buf.length ++ buf.drop bytes.length

@[simp] theorem IsaL.length_write (buf bytes : Bytes) :
    (IsaL.write buf bytes).length = buf.length := by
  rw [IsaL.write, List.length_append, List.length_take, List.length_drop]
  omega

theorem IsaL.write_eq {buf bytes : Bytes} (h : bytes.length = buf.length) :
    IsaL.write buf bytes = bytes := by
  rw [IsaL.write, ← h, List.take_length, h, List.drop_length, List.append_nil]

/-- The reference, with the buffers as ISA-L treats them: it writes the rows it is told of to
the outputs, and leaves the other outputs alone. -/
def IsaL.kernel : IsaL :=
  { IsaL.reference with
    gfInvertMatrix := fun input n =>
      (IsaL.reference.gfInvertMatrix input n).map (IsaL.write (List.replicate input.length 0))
    ecEncodeData := fun len k rows gTbls data coding =>
      coding.mapIdx fun i buf =>
        IsaL.write buf ((IsaL.product len.toNat k.toNat rows.toNat gTbls data).getD i []) }

theorem IsaL.kernel_correct : IsaL.kernel.Correct where
  cauchy := reference_correct.cauchy
  invert n a ha hdet := by
    obtain ⟨inv, hinv, hlen, hmul⟩ := reference_correct.invert n a ha hdet
    refine ⟨inv, ?_, hlen, hmul⟩
    change (IsaL.reference.gfInvertMatrix a n).map _ = _
    rw [hinv, Option.map_some, write_eq (by rw [List.length_replicate, hlen, ha])]
  encode len k rows a data coding hl _ _ _ hcount hlens := by
    change coding.mapIdx _ = _
    refine List.ext_getElem (by simp [IsaL.product, hcount]) fun i h₁ h₂ => ?_
    have hi : i < coding.length := by simpa using h₁
    rw [List.getElem_mapIdx, write_eq]
    · exact List.getD_eq_getElem _ _ h₂
    · rw [hlens _ (List.getElem_mem hi)]
      change List.length (List.getD (IsaL.product len k rows _ data) i []) = len
      rw [List.getD_eq_getElem _ _ (by simp [IsaL.product]; omega)]
      simp [IsaL.product]

theorem IsaL.kernel_mulCorrect : IsaL.kernel.MulCorrect := reference_mulCorrect

/-- A buffer past the rows keeps what it held. -/
theorem IsaL.getElem?_kernel {len k rows : ℤ} {gTbls : Bytes} {data coding : List Bytes} {i : ℕ}
    (h : rows.toNat ≤ i) :
    (IsaL.kernel.ecEncodeData len k rows gTbls data coding)[i]? = coding[i]? := by
  have hrow : (IsaL.product len.toNat k.toNat rows.toNat gTbls data).getD i [] = [] :=
    List.getD_eq_default _ _ (by simpa [IsaL.product] using h)
  change (coding.mapIdx _)[i]? = _
  rw [List.getElem?_mapIdx]
  have hwrite : (fun buf => write buf []) = (id : Bytes → Bytes) :=
    funext fun buf => by rw [write, List.take_nil]; rfl
  simp only [hrow, hwrite, Option.map_id, id]

/-- What a call that returns has handed to the kernel. -/
theorem InnerDecoder.kernel_of_reconstruct {isal : IsaL} {dec : InnerDecoder} {len : ℕ}
    {sourceIndices erased : List ℕ} {sources outputs out : List Bytes} (hne : erased ≠ [])
    (h : dec.reconstruct isal len sourceIndices sources erased outputs = .ok out) :
    ∃ gTbls, out = isal.ecEncodeData (asI32 len) (asI32 dec.cfg.data) (asI32 erased.length) gTbls
      sources outputs := by
  unfold reconstruct at h
  obtain ⟨m, -, h⟩ := Outcome.bind_eq_ok.mp h
  split_ifs at h
  obtain ⟨-, -, h⟩ := Outcome.bind_eq_ok.mp h
  obtain ⟨-, -, h⟩ := Outcome.bind_eq_ok.mp h
  obtain ⟨-, -, h⟩ := Outcome.bind_eq_ok.mp h
  obtain ⟨-, -, h⟩ := Outcome.bind_eq_ok.mp h
  obtain ⟨b, -, h⟩ := Outcome.bind_eq_ok.mp h
  simp only [toI32_truncate, Outcome.ok_bind] at h
  split at h
  · cases h
  · obtain ⟨decodeMatrix, -, h⟩ := Outcome.bind_eq_ok.mp h
    cases h
    exact ⟨_, rfl⟩

theorem asI32_toNat_lt {n : ℕ} (h : 2 ^ 31 ≤ n) : (asI32 n).toNat < n := by
  have hlt : asI32 n < 2 ^ 31 := by
    have hb : asI32 n < (2 ^ 32 + 1) / 2 := Int.bmod_lt (by decide)
    omega
  omega

theorem map_succ_ne_self {b : Bytes} (h : b.length = 1) : b ≠ b.map (· + 1) := by
  obtain ⟨x, rfl⟩ := List.length_eq_one_iff.mp h
  intro heq
  have hx : x = x + 1 := List.singleton_inj.mp heq
  have hnat := congrArg UInt8.toNat hx
  rw [UInt8.toNat_add] at hnat
  have hlt := x.toNat_lt
  have hone : (1 : UInt8).toNat = 1 := rfl
  omega

/-- **Too many erased shards**: the kernel is told of fewer rows than there are outputs, and
the first output past them keeps what it held. -/
theorem not_reconstructs_kernel {cfg : EcConfig} (hcfg : cfg.Valid) {sources erased : List ℕ}
    (herased : ∀ e ∈ erased, e < cfg.data + cfg.parity) (hmany : 2 ^ 31 ≤ erased.length) :
    ¬Reconstructs IsaL.kernel cfg sources erased := by
  rintro ⟨enc, dec, henc, -, h⟩
  obtain ⟨enc', henc', hencode⟩ := encode_stripe IsaL.kernel_correct hcfg
  obtain rfl : enc' = enc := Outcome.ok.inj (henc'.symm.trans henc)
  -- a stripe of zero bytes, and outputs none of which is the shard it is for
  have hdata : Buffers 1 cfg.data (List.replicate cfg.data [0]) := ⟨by simp, by simp⟩
  have hparity : Buffers 1 cfg.parity (List.replicate cfg.parity [0]) := ⟨by simp, by simp⟩
  let shard := codeBuffer cfg.data 1 ((List.replicate cfg.data [0]).getD · [])
  have houtputs : Buffers 1 erased.length (erased.map fun e => (shard e).map (· + 1)) := by
    refine ⟨by simp, ?_⟩
    rw [List.forall_mem_map]
    exact fun e _ => by rw [List.length_map, length_codeBuffer]
  obtain ⟨coded, hcoded, hrec⟩ := h 1 _ _ _ (by norm_num) hdata hparity houtputs
  rw [hencode 1 _ _ (by norm_num) hdata hparity] at hcoded
  cases hcoded
  rw [List.map_congr_left fun e he => getD_stripe hdata (herased e he)] at hrec
  have hpos : 0 < erased.length := lt_of_lt_of_le (Nat.two_pow_pos 31) hmany
  have hne : erased ≠ [] := List.ne_nil_of_length_pos hpos
  obtain ⟨gTbls, hout⟩ := InnerDecoder.kernel_of_reconstruct hne hrec
  have hlt := asI32_toNat_lt hmany
  -- the output at the number of rows the kernel is told of
  have hkept := congrArg (·[(asI32 erased.length).toNat]?) hout
  rw [IsaL.getElem?_kernel le_rfl, List.getElem?_map, List.getElem?_map,
    List.getElem?_eq_getElem hlt] at hkept
  exact map_succ_ne_self (length_codeBuffer _ _ _ _) (Option.some.inj hkept)

/-! ### When every erased shard is rebuilt -/

/-- **When the decoder keeps its promise**: for any `k` different sources and any erased shards
that are none of them, over every ISA-L that does what the coder relies on, exactly when the
number of erased shards is less than `2 ^ 31`. -/
theorem reconstructs_iff {cfg : EcConfig} (hcfg : cfg.Valid) {sources erased : List ℕ}
    (hcount : sources.length = cfg.data) (hnodup : sources.Nodup)
    (hsources : ∀ s ∈ sources, s < cfg.data + cfg.parity)
    (herased : ∀ e ∈ erased, e < cfg.data + cfg.parity) (hdisj : ∀ e ∈ erased, e ∉ sources) :
    (∀ isal : IsaL, isal.Correct → isal.MulCorrect → Reconstructs isal cfg sources erased) ↔
      erased.length < 2 ^ 31 := by
  constructor
  · intro h
    by_contra hmany
    exact not_reconstructs_kernel hcfg herased (not_lt.mp hmany)
      (h _ IsaL.kernel_correct IsaL.kernel_mulCorrect)
  · intro hfew isal hI hmul
    exact reconstructs_of_lt hI hmul hcfg hcount hnodup hsources herased hdisj hfew

/-- A parity shard twice and a data shard, from the other two of RS-2-2. -/
theorem reconstructs_iff_mixed :
    (∀ isal : IsaL, isal.Correct → isal.MulCorrect → Reconstructs isal ⟨2, 2⟩ [3, 0] [2, 1, 2]) ↔
      [2, 1, 2].length < 2 ^ 31 :=
  reconstructs_iff ⟨by decide, by decide, by decide, by decide⟩ rfl (by decide) (by decide)
    (by decide) (by decide)

/-- The parity shard of RS-1-1, `2 ^ 31` times. -/
theorem not_reconstructs_many : IsaL.kernel.Correct ∧ IsaL.kernel.MulCorrect ∧
    ¬Reconstructs IsaL.kernel ⟨1, 1⟩ [0] (List.replicate (2 ^ 31) 1) := by
  refine ⟨IsaL.kernel_correct, IsaL.kernel_mulCorrect, ?_⟩
  refine not_reconstructs_kernel ⟨le_rfl, by norm_num, le_rfl, by norm_num⟩ (fun e he => ?_) ?_
  · rw [List.eq_of_mem_replicate he]
    exact Nat.lt_succ_self 1
  · rw [List.length_replicate]

end OzoneRust
