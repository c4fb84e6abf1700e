import OzoneRust.Ec.Decode
import OzoneRust.Ec.Safety

/-!
# What a shard is made of

A shard grows by one cell a stripe, and two functions of `stripe.rs` know its cells without
looking at them. `expected_shard_len` has the length of a shard in closed form: it is the sum of
the cell lengths over the stripes, which is what `encode_object` appends
(`OzoneRust.expectedShardLen_eq_sum`). And `padded_cell`, which adds up the cells before the one
it reads, always comes to `s * chunk_size`, since only the last cell of a shard is shorter than
the others.

The other result is about the last stripe. A parity cell is computed over the data cells padded
to the full cell size, while Apache Ozone pads them only to the first cell, the longest of the
stripe (`OzoneRust.Ozone.generateParityCells`). A position of a parity cell depends on that
position of the data cells alone, and from zeros comes zero, so the two agree as far as Ozone's
goes, and what follows is zero (`OzoneRust.parity_last_stripe`).
-/

namespace OzoneRust

open Layout

/-! ### Cells, one by one -/

/-- What shard `idx` holds of stripe `s`, in bytes. -/
def storedLen (P : Profile) (len idx s : ℕ) : Outcome EcError ℕ :=
  if idx < P.data then cellLen P len idx s else .ok P.chunkSize

/-- Where `padded_cell` reads cell `s` of a data shard: after the cells before it. -/
def cellStart (P : Profile) (len idx s : ℕ) : Outcome EcError ℕ :=
  (List.range s).foldlM (fun off t => do Outcome.add off (← cellLen P len idx t)) 0

section Lengths

variable {P : Profile} (hP : P.Fits) {X : Bytes} (hX : X.length ≤ maxLen) {idx : ℕ}

include hP hX

/-- The cell lengths add up to the length of the shard. -/
theorem mapM_storedLen : ∃ lens, (List.range (stripeCount P X.length)).mapM
    (storedLen P X.length idx) = .ok lens ∧ lens.sum = (shard P X idx).length := by
  refine ⟨(List.range (stripeCount P X.length)).map fun s => (stored P X idx s).length,
    Outcome.mapM_eq fun s hs => ?_, List.length_flatMap.symm⟩
  unfold storedLen stored
  split
  · exact cellLen_cell hP hX (List.mem_range.mp hs) ‹_›
  · rw [length_codeCell]

/-- A cell of a data shard that is not empty starts after full cells. -/
theorem cellStart_eq (hidx : idx < P.data) {s cl : ℕ} (hcl : cellLen P X.length idx s = .ok cl)
    (hne : cl ≠ 0) : cellStart P X.length idx s = .ok (s * P.chunkSize) := by
  -- the cell starts inside the object, so its stripe is one of the object's
  obtain ⟨off, hoff, hlen⟩ := Outcome.bind_eq_ok.mp hcl
  obtain ⟨stripe, hstripe, hoff⟩ := Outcome.bind_eq_ok.mp hoff
  rw [stripeSize_eq hP, Outcome.ok.injEq] at hstripe
  obtain ⟨a, ha, hoff⟩ := Outcome.bind_eq_ok.mp hoff
  obtain ⟨b, hb, hoff⟩ := Outcome.bind_eq_ok.mp hoff
  have hmul : ∀ {x y z : ℕ}, (Outcome.mul x y : Outcome EcError ℕ) = .ok z → x * y = z := by
    intro x y z h
    unfold Outcome.mul at h
    split at h
    · exact Outcome.ok.inj h
    · cases h
  have hsum : a + b = off := by
    unfold Outcome.add at hoff
    split at hoff
    · exact Outcome.ok.inj hoff
    · cases hoff
  rw [← hstripe] at ha
  have hin : offset P idx s < X.length := by
    rw [offset, hmul ha, hmul hb, hsum]
    by_contra hle
    rw [if_pos (not_lt.mp hle)] at hlen
    exact hne (Outcome.ok.inj hlen).symm
  have hs : s < stripeCount P X.length := by
    have hle := le_stripeCount_mul hP X.length
    unfold offset at hin
    exact Nat.lt_of_mul_lt_mul_right (a := P.stripe) (by omega)
  -- so all cells before it are full
  have hfull : ∀ t < s, (stored P X idx t).length = P.chunkSize := by
    intro t ht
    have hstep : (t + 1) * P.stripe ≤ s * P.stripe := Nat.mul_le_mul_right _ ht
    have hcell := mul_chunkSize_add_le hidx
    rw [Nat.succ_mul] at hstep
    unfold offset at hin
    rw [stored_data hidx, length_cell]
    unfold offset
    omega
  rw [cellStart, foldlM_cellLen hP hX hs hidx, Blocks.length_flatMap_range_const _ hfull]

end Lengths

/-! ### The lengths `encode_object` makes

Those of the parity shards come from the buffers, whatever ISA-L writes into them. -/

section Encode

variable {isal : IsaL} (hI : isal.Shaped) {P : Profile} (hP : P.InRange) {X : Bytes}
  (hX : X.length ≤ maxLen)

include hP hX

/-- One turn of the encoder's loop, seen by the lengths. -/
theorem encodeObjectStripe_lengths (hI : isal.Shaped) {enc : InnerEncoder} (henc : enc.cfg = P.cfg)
    {s : ℕ} (hs : s < stripeCount P X.length) {acc : EncodedShards}
    (hdata : acc.data = (encodeUpTo P X s).data)
    (hparity : acc.parity.map List.length = List.replicate P.parity (s * P.chunkSize)) :
    ∃ acc', encodeObjectStripe isal P enc X acc s = .ok acc' ∧
      acc'.data = (encodeUpTo P X (s + 1)).data ∧
      acc'.parity.map List.length = List.replicate P.parity ((s + 1) * P.chunkSize) := by
  have hcells : ((List.range P.data).map fun i => codeCell P X i s).length = enc.cfg.data := by
    rw [henc, List.length_map, List.length_range]
    rfl
  have hzeros : (List.replicate P.parity (List.replicate P.chunkSize (0 : UInt8))).length =
      enc.cfg.parity := by
    rw [henc, List.length_replicate]
    rfl
  unfold encodeObjectStripe
  rw [mapM_dataCell hP.fits hX hs, Outcome.ok_bind, mapM_padCell, Outcome.ok_bind]
  dsimp only
  rw [InnerEncoder.encode, if_neg (not_not_intro hcells), if_neg (not_not_intro hzeros),
    checkLens_eq (by simp), Outcome.ok_bind, checkLens_eq (by simp), Outcome.ok_bind]
  refine ⟨_, rfl, ?_, ?_⟩
  · have hstored : ((List.range P.data).map fun i => cell P X i s) =
        (List.range P.data).map fun i => stored P X i s :=
      List.map_congr_left fun i hi => (stored_data (List.mem_range.mp hi) X s).symm
    simp only [hdata, hstored, encodeUpTo, Blocks.zipWith_append_map_range]
  · have hlens : ∀ a b : List Bytes, (List.zipWith (· ++ ·) a b).map List.length =
        List.zipWith (· + ·) (a.map List.length) (b.map List.length) := by
      intro a b
      rw [List.map_zipWith, List.zipWith_map]
      simp only [List.length_append]
    rw [hlens, hparity, hI.encode, List.map_replicate, List.length_replicate,
      List.zipWith_replicate', Nat.succ_mul]

include hI

/-- **The shards `encode_object` returns have the lengths of the layout**, for every cell size
that fits a `u32`. -/
theorem encodeObject_lengths : ∃ sh, encodeObject isal P X = .ok sh ∧
    sh.slots.map List.length =
      (List.range (P.data + P.parity)).map fun idx => (shard P X idx).length := by
  obtain ⟨enc, hnew, henc⟩ := InnerEncoder.new_eq_ok hI hP.cfg
  have hk := hP.data_pos
  have hc := hP.chunk_pos
  have hlt := stripeCount_mul_chunkSize_lt hP.fits X.length
  have hstripe := stripe_lt hP.fits
  obtain ⟨sh, hrun, hdata, hparity⟩ : ∃ sh : EncodedShards,
      (List.range (stripeCount P X.length)).foldlM (encodeObjectStripe isal P enc X)
        ⟨List.replicate P.data [], List.replicate P.parity []⟩ = .ok sh ∧
      sh.data = (encodeUpTo P X (stripeCount P X.length)).data ∧
      sh.parity.map List.length =
        List.replicate P.parity (stripeCount P X.length * P.chunkSize) :=
    Outcome.exists_foldlM_range
      (fun s (acc : EncodedShards) => acc.data = (encodeUpTo P X s).data ∧
        acc.parity.map List.length = List.replicate P.parity (s * P.chunkSize))
      (fun s hs acc hacc => encodeObjectStripe_lengths hP hX hI henc hs hacc.1 hacc.2)
      (by simp [encodeUpTo])
  refine ⟨sh, ?_, ?_⟩
  · unfold encodeObject
    rw [if_neg (by omega), numStripes_eq hP.fits, Outcome.ok_bind, hnew, Outcome.mapErr_ok,
      Outcome.ok_bind, Outcome.mul_eq (by unfold maxLen at hX; omega), Outcome.ok_bind]
    exact hrun
  · have hpar : (List.range P.parity).map (fun j => (shard P X (P.data + j)).length) =
        List.replicate P.parity (stripeCount P X.length * P.chunkSize) := by
      refine List.eq_replicate_iff.mpr ⟨by simp, fun n hn => ?_⟩
      obtain ⟨j, -, rfl⟩ := List.mem_map.mp hn
      exact length_shard_parity (Nat.le_add_right _ _) X
    rw [EncodedShards.slots, List.map_append, hdata, hparity, List.range_add, List.map_append,
      List.map_map]
    exact congrArg₂ _ (List.map_map ..) hpar.symm

end Encode

/-- **The closed form is the sum over the stripes.** For every shape the coder takes, every
object length below `2 ^ 62` and every shard: the cell lengths of the shard, stripe by stripe,
add up to `expected_shard_len`, every object of this length is encoded to a shard of this
length, and `padded_cell` reads a data cell that is not empty at `s * chunk_size`. -/
theorem expectedShardLen_eq_sum {P : Profile} (hP : P.InRange) {len : ℕ} (hlen : len < 2 ^ 62)
    {idx : ℕ} (hidx : idx < P.data + P.parity) :
    ∃ stripes lens, numStripes P len = .ok stripes ∧
      (List.range stripes).mapM (storedLen P len idx) = .ok lens ∧
      expectedShardLen P len idx = .ok lens.sum ∧
      (∀ isal : IsaL, isal.Shaped → ∀ X : Bytes, X.length = len →
        ∃ sh b, encodeObject isal P X = .ok sh ∧ sh.slots[idx]? = some b ∧ b.length = lens.sum) ∧
      (idx < P.data → ∀ s cl, cellLen P len idx s = .ok cl → cl ≠ 0 →
        cellStart P len idx s = .ok (s * P.chunkSize)) := by
  have hmax : len ≤ maxLen := by
    unfold maxLen
    omega
  have hsome : (List.replicate len (0 : UInt8)).length = len := List.length_replicate
  obtain ⟨lens, hlens, hsum⟩ := mapM_storedLen hP.fits (X := List.replicate len 0)
    (by rwa [hsome])
  have hexpected := expectedShardLen_eq hP.fits (X := List.replicate len 0) (by rwa [hsome]) idx
  rw [hsome] at hlens hexpected
  rw [← hsum] at hexpected
  refine ⟨_, lens, numStripes_eq hP.fits len, hlens, hexpected, ?_, ?_⟩
  · rintro isal hI X rfl
    obtain ⟨sh, henc, hshards⟩ := encodeObject_lengths hI hP hmax
    have hget := congrArg (·[idx]?) hshards
    simp only [List.getElem?_map, List.getElem?_range hidx, Option.map_some] at hget
    obtain ⟨b, hb, hblen⟩ := Option.map_eq_some_iff.mp hget
    refine ⟨sh, b, henc, hb, hblen.trans ?_⟩
    exact Outcome.ok.inj ((expectedShardLen_eq hP.fits hmax idx).symm.trans hexpected)
  · intro hdata s cl hcl hne
    rw [← hsome] at hcl ⊢
    exact cellStart_eq hP.fits (by rwa [hsome]) hdata hcl hne

/-- Five bytes in cells of two, on two data shards and one parity shard. -/
theorem expectedShardLen_eq_sum_fiveBytes :
    ∃ stripes lens, numStripes ⟨2, 1, 2⟩ 5 = .ok stripes ∧
      (List.range stripes).mapM (storedLen ⟨2, 1, 2⟩ 5 0) = .ok lens ∧
      expectedShardLen ⟨2, 1, 2⟩ 5 0 = .ok lens.sum ∧
      (∀ isal : IsaL, isal.Shaped → ∀ X : Bytes, X.length = 5 →
        ∃ sh b, encodeObject isal ⟨2, 1, 2⟩ X = .ok sh ∧ sh.slots[0]? = some b ∧
          b.length = lens.sum) ∧
      (0 < 2 → ∀ s cl, cellLen ⟨2, 1, 2⟩ 5 0 s = .ok cl → cl ≠ 0 →
        cellStart ⟨2, 1, 2⟩ 5 0 s = .ok (s * 2)) :=
  expectedShardLen_eq_sum (P := ⟨2, 1, 2⟩) (by constructor <;> decide) (by decide) (by decide)

/-! ### The last stripe -/

namespace Ozone

/-- `parityCellSize`: the length of the first data cell of a stripe. -/
def parityCellSize (cells : List Bytes) : ℕ := (cells.headD []).length

/-- A data cell, padded with zeros. -/
def padTo (n : ℕ) (cell : Bytes) : Bytes := cell ++ List.replicate (n - cell.length) 0

/-- The coefficient of data cell `i` in parity cell `j`, for `k` data cells. -/
def coefficient (k j i : ℕ) : Gf256 := (IsaL.point (k + j) - IsaL.point i)⁻¹

/-- `generateParityCells` of Apache Ozone: the `p` Cauchy parities of the data cells of a
stripe, padded with zeros to the first of them. -/
def generateParityCells (p : ℕ) (cells : List Bytes) : List Bytes :=
  let padded := cells.map (padTo (parityCellSize cells))
  (List.range p).map fun j => (List.range (parityCellSize cells)).map fun pos =>
    (∑ i ∈ Finset.range cells.length,
      coefficient cells.length j i * ⟨(padded.getD i []).getD pos 0⟩).byte

theorem getD_padTo (n : ℕ) (cell : Bytes) (pos : ℕ) :
    (padTo n cell).getD pos 0 = cell.getD pos 0 := by
  unfold padTo
  by_cases hpos : pos < cell.length
  · rw [List.getD_append _ _ _ _ hpos]
  · rw [List.getD_append_right _ _ _ _ (not_lt.mp hpos), List.getD_eq_default _ _ (not_lt.mp hpos)]
    rw [List.getD_eq_getElem?_getD, List.getElem?_replicate]
    split <;> rfl

end Ozone

section LastStripe

variable {k len L : ℕ} {bufs : ℕ → Bytes}

/-- A position past the end of every buffer has the code word zero. -/
theorem codeSymbol_eq_zero (h : ∀ j < k, (bufs j).length ≤ L) (idx : ℕ) {pos : ℕ} (hpos : L ≤ pos) :
    codeSymbol k bufs idx pos = 0 := by
  refine Finset.sum_eq_zero fun j hj => ?_
  rw [List.getD_eq_default _ _ ((h j (Finset.mem_range.mp hj)).trans hpos)]
  exact mul_zero _

/-- **The two paddings**: the longer one adds zeros to the code buffer. -/
theorem codeBuffer_eq_append (h : ∀ j < k, (bufs j).length ≤ L) (hL : L ≤ len) (idx : ℕ) :
    codeBuffer k len bufs idx = codeBuffer k L bufs idx ++ List.replicate (len - L) 0 := by
  obtain ⟨n, rfl⟩ := Nat.exists_eq_add_of_le hL
  rw [codeBuffer, List.range_add, List.map_append, List.map_map, Nat.add_sub_cancel_left]
  refine congrArg _ (List.eq_replicate_iff.mpr ⟨by simp, fun b hb => ?_⟩)
  obtain ⟨pos, -, rfl⟩ := List.mem_map.mp hb
  rw [Function.comp_apply, codeSymbol_eq_zero h idx (Nat.le_add_right L pos)]
  rfl

/-- What Ozone computes are the code buffers of the parity rows, as long as the first cell. -/
theorem Ozone.generateParityCells_eq (p : ℕ) (bufs : ℕ → Bytes) (hk : 0 < k) :
    Ozone.generateParityCells p ((List.range k).map bufs) =
      (List.range p).map fun j => codeBuffer k (bufs 0).length bufs (k + j) := by
  have hsize : parityCellSize ((List.range k).map bufs) = (bufs 0).length := by
    obtain ⟨n, rfl⟩ := Nat.exists_eq_add_of_lt hk
    rw [parityCellSize, Nat.zero_add, List.range_succ_eq_map]
    rfl
  unfold generateParityCells
  rw [hsize, List.length_map, List.length_range]
  refine List.map_congr_left fun j _ => List.map_congr_left fun pos _ => ?_
  refine congrArg Gf256.byte (Finset.sum_congr rfl fun i hi => ?_)
  have hget : (((List.range k).map bufs).map (padTo (bufs 0).length)).getD i [] =
      padTo (bufs 0).length (bufs i) := by
    simp [List.getD_eq_getElem?_getD, Finset.mem_range.mp hi]
  rw [hget, getD_padTo, coefficient, Cauchy.gen_parity _ (Nat.le_add_right k j)]

/-- The first cell of a stripe is the longest. -/
theorem length_cell_le_first (P : Profile) (X : Bytes) (j s : ℕ) :
    (cell P X j s).length ≤ (cell P X 0 s).length := by
  rw [length_cell, length_cell]
  unfold offset
  omega

end LastStripe

/-- **The parity of the last stripe is Ozone's, and then zeros.** For every object and every
profile: an object that is not empty has a last stripe, whose first data cell has `L` bytes; the
cell of each parity shard is the parity Ozone computes over the same data cells padded to `L`
bytes, followed by zeros up to the cell size. -/
theorem parity_last_stripe {isal : IsaL} (hI : isal.Correct) {P : Profile} (hP : P.Valid)
    (X : Buffer) : ∃ sh, encodeObject isal P X.bytes = .ok sh ∧ sh.parity.length = P.parity ∧
      (X.bytes ≠ [] → ∃ s cells L, numStripes P X.bytes.length = .ok (s + 1) ∧
          (List.range P.data).mapM (dataCell P X.bytes s) = .ok cells ∧
          cellLen P X.bytes.length 0 s = .ok L ∧ Ozone.parityCellSize cells = L ∧
          L ≤ P.chunkSize ∧
          ∀ (j : ℕ) (shard : Bytes), sh.parity[j]? = some shard → ∃ before last,
            shard = before ++ last ∧ before.length = s * P.chunkSize ∧
            (Ozone.generateParityCells P.parity cells)[j]? = some (last.take L) ∧
            last.drop L = List.replicate (P.chunkSize - L) 0 ∧ last.length = P.chunkSize) := by
  have hX := X.length_le
  refine ⟨_, encodeObject_eq hI hP hX, by simp [encode], fun hne => ?_⟩
  have hpos : 0 < stripeCount P X.bytes.length :=
    stripeCount_pos hP.fits (List.length_pos_iff.mpr hne)
  obtain ⟨s, hstripes⟩ := Nat.exists_eq_succ_of_ne_zero hpos.ne'
  have hs : s < stripeCount P X.bytes.length := by omega
  have hdata : (List.range P.data).head? = some 0 := by
    have := hP.data_pos
    simp [List.head?_range, show P.data ≠ 0 by omega]
  refine ⟨s, _, (cell P X.bytes 0 s).length,
    (numStripes_eq hP.fits _).trans (congrArg Outcome.ok hstripes), mapM_dataCell hP.fits hX hs,
    cellLen_cell hP.fits hX hs hP.data_pos, ?_, length_cell_le P X.bytes 0 s, ?_⟩
  · rw [Ozone.parityCellSize, List.headD_eq_head?_getD, List.head?_map, hdata]
    rfl
  intro j shard hshard
  have hj : j < P.parity := by
    have hlt := (List.getElem?_eq_some_iff.mp hshard).1
    simpa [encode] using hlt
  have hcode : codeCell P X.bytes (P.data + j) s =
      codeBuffer P.data (cell P X.bytes 0 s).length (fun i => cell P X.bytes i s) (P.data + j) ++
        List.replicate (P.chunkSize - (cell P X.bytes 0 s).length) 0 :=
    codeBuffer_eq_append (fun i _ => length_cell_le_first P X.bytes i s)
      (length_cell_le P X.bytes 0 s) _
  refine ⟨(List.range s).flatMap (stored P X.bytes (P.data + j)), codeCell P X.bytes (P.data + j) s,
    ?_, ?_, ?_, ?_, length_codeCell ..⟩
  · simp only [encode, List.getElem?_map, List.getElem?_range hj, Option.map_some,
      Option.some.injEq] at hshard
    rw [← hshard, Layout.shard, hstripes, Blocks.flatMap_range_succ, stored_parity]
  · exact Blocks.length_flatMap_range_const _ fun t _ => by rw [stored_parity, length_codeCell]
  · rw [Ozone.generateParityCells_eq _ _ hP.data_pos, hcode, List.take_left' (by simp)]
    simp [hj]
  · rw [hcode, List.drop_left' (by simp)]

/-- Five bytes in cells of two, on two data shards and one parity shard: the last stripe has one
byte. -/
theorem parity_last_stripe_fiveBytes :
    ∃ sh, encodeObject IsaL.reference ⟨2, 1, 2⟩ [1, 2, 3, 4, 5] = .ok sh ∧
      ∃ s cells L, numStripes ⟨2, 1, 2⟩ 5 = .ok (s + 1) ∧
        (List.range 2).mapM (dataCell ⟨2, 1, 2⟩ [1, 2, 3, 4, 5] s) = .ok cells ∧
        cellLen ⟨2, 1, 2⟩ 5 0 s = .ok L ∧ L ≤ 2 ∧
        ∀ (j : ℕ) (shard : Bytes), sh.parity[j]? = some shard → ∃ before last,
          shard = before ++ last ∧ before.length = s * 2 ∧
          (Ozone.generateParityCells 1 cells)[j]? = some (last.take L) ∧
          last.drop L = List.replicate (2 - L) 0 := by
  obtain ⟨sh, henc, -, hlast⟩ := parity_last_stripe (P := ⟨2, 1, 2⟩) IsaL.reference_correct
    ⟨⟨by decide, by decide, by decide, by decide, by decide, by decide⟩, by decide⟩
    ⟨[1, 2, 3, 4, 5], by decide⟩
  obtain ⟨s, cells, L, hs, hcells, hL, -, hle, hshards⟩ := hlast (List.cons_ne_nil _ _)
  refine ⟨sh, henc, s, cells, L, hs, hcells, hL, hle, fun j shard hshard => ?_⟩
  obtain ⟨before, last, hshard, hbefore, hparity, hzeros, -⟩ := hshards j shard hshard
  exact ⟨before, last, hshard, hbefore, hparity, hzeros⟩

end OzoneRust
