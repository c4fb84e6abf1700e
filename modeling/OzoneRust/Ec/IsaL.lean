import Mathlib.LinearAlgebra.Matrix.Determinant.Basic
import OzoneRust.Lib.Cauchy
import OzoneRust.Lib.Gf256
import OzoneRust.Lib.Outcome

/-!
# The Reed–Solomon coder over ISA-L

The `isa-l-safe` crate: an encoder and a decoder that check the shapes of what they are
given and hand the field arithmetic to the ISA-L library. ISA-L itself is outside the
repository, so it is a parameter here, the structure `OzoneRust.IsaL` of the five
functions the crate calls, and what the crate relies on is the structure
`OzoneRust.IsaL.Correct` of hypotheses about them:

* the generator is the identity over the Cauchy rows `inv (i xor j)`;
* the inversion inverts every nonsingular matrix;
* the tables and the kernel together compute the matrix product, one byte position at a
  time.

Only erased parity shards need more, that `gf_mul` multiplies (`OzoneRust.IsaL.MulCorrect`).

Every length and count crosses the foreign-function boundary as an `i32`, and nothing is
assumed of ISA-L at a negative one. The conversion is the class parameter `OzoneRust.Cast` of
the functions that make calls; its instance is the `as i32` of the source
(`OzoneRust.asI32`).
-/

namespace OzoneRust

/-- A buffer of bytes. -/
abbrev Bytes := List UInt8

/-! ### The library -/

/-- The `as i32` of the source: the low 32 bits, read as a signed number. -/
def asI32 (n : ℕ) : ℤ := (n : ℤ).bmod (2 ^ 32)

theorem asI32_eq {n : ℕ} (h : n < 2 ^ 31) : asI32 n = n := by
  unfold asI32
  exact Int.bmod_eq_of_le (by omega) (by omega)

/-- The functions of ISA-L the crate calls. A function that writes into a buffer returns
what the buffer then holds. -/
structure IsaL where
  /-- `gf_gen_cauchy1_matrix(a, m, k)`, the contents of `a`. -/
  gfGenCauchy1Matrix : (m k : ℤ) → Bytes
  /-- `gf_invert_matrix(in, out, n)`: the contents of `out`, or `none` for a negative
  return value. -/
  gfInvertMatrix : (input : Bytes) → (n : ℤ) → Option Bytes
  /-- `gf_mul(a, b)`. -/
  gfMul : UInt8 → UInt8 → UInt8
  /-- `ec_init_tables(k, rows, a, g_tbls)`, the contents of `g_tbls`. -/
  ecInitTables : (k rows : ℤ) → (a : Bytes) → Bytes
  /-- `ec_encode_data(len, k, rows, g_tbls, data, coding)`, the contents of the `coding`
  buffers, given what they held before. -/
  ecEncodeData : (len k rows : ℤ) → (gTbls : Bytes) → (data coding : List Bytes) → List Bytes

namespace IsaL

/-- The field element a shard index stands for in the Cauchy rows. -/
def point (n : ℕ) : Gf256 := ⟨UInt8.ofNat n⟩

/-- The `m × k` generator, row by row: the identity over the rows `inv (i xor j)`. -/
def cauchyMatrix (m k : ℕ) : Bytes :=
  (List.range m).flatMap fun i => (List.range k).map fun j => (Cauchy.gen k point i j).byte

/-- The square matrix a buffer of `n * n` bytes holds, row by row. -/
def toMatrix (n : ℕ) (a : Bytes) : Matrix (Fin n) (Fin n) Gf256 :=
  Matrix.of fun i j => ⟨a.getD (n * i + j) 0⟩

/-- Row `i` of the matrix in `a` applied to the bytes at position `pos` of the buffers. -/
def dot (k : ℕ) (a : Bytes) (data : List Bytes) (i pos : ℕ) : Gf256 :=
  ∑ j ∈ Finset.range k, ⟨a.getD (k * i + j) 0⟩ * ⟨(data.getD j []).getD pos 0⟩

/-- The product of the `rows × k` matrix in `a` with `k` buffers of `len` bytes, one
byte position at a time. -/
def product (len k rows : ℕ) (a : Bytes) (data : List Bytes) : List Bytes :=
  (List.range rows).map fun i => (List.range len).map fun pos => (dot k a data i pos).byte

/-- **What the crate relies on.** -/
structure Correct (isal : IsaL) : Prop where
  /-- The generator is the identity over Cauchy rows. -/
  cauchy : ∀ m k : ℕ, k ≤ m → m ≤ 256 → isal.gfGenCauchy1Matrix m k = cauchyMatrix m k
  /-- A nonsingular matrix is inverted. -/
  invert : ∀ (n : ℕ) (a : Bytes), a.length = n * n → (toMatrix n a).det ≠ 0 →
    ∃ inv, isal.gfInvertMatrix a n = some inv ∧ inv.length = n * n ∧
      toMatrix n inv * toMatrix n a = 1
  /-- The tables and the kernel compute the matrix product. -/
  encode : ∀ (len k rows : ℕ) (a : Bytes) (data coding : List Bytes), len < 2 ^ 31 →
    a.length = rows * k → data.length = k → (∀ d ∈ data, d.length = len) →
    coding.length = rows → (∀ d ∈ coding, d.length = len) →
    isal.ecEncodeData len k rows (isal.ecInitTables k rows a) data coding =
      product len k rows a data

/-- `gf_mul` is the multiplication of the field. -/
def MulCorrect (isal : IsaL) : Prop := ∀ a b, isal.gfMul a b = ((⟨a⟩ : Gf256) * ⟨b⟩).byte

end IsaL

/-! ### Configuration and errors -/

/-- The shape `(k, p)` of a coder. -/
structure EcConfig where
  /-- Data shards per stripe, `k`. -/
  data : ℕ
  /-- Parity shards per stripe, `p`. -/
  parity : ℕ
  deriving DecidableEq, Repr

/-- The errors of `isa-l-safe`. -/
inductive InnerError where
  /-- The wrong number of buffers. -/
  | bufferCount (expected got : ℕ)
  /-- A buffer of the wrong length. -/
  | bufferLen (expected got : ℕ)
  /-- A shape outside the range of the library. -/
  | invalidConfig (data parity : ℕ)
  /-- A shard index past the last shard. -/
  | badIndex (idx bound : ℕ)
  /-- A source listed twice. -/
  | duplicateIndex (idx : ℕ)
  /-- A shard that is both a source and erased. -/
  | overlap (idx : ℕ)
  /-- The chosen sources cannot be inverted. -/
  | singular
  deriving DecidableEq, Repr

/-- The conversion of a `usize` to the `i32` that ISA-L takes. -/
class Cast where
  /-- The number handed over. -/
  toI32 : ℕ → Outcome InnerError ℤ

export Cast (toI32)

/-- The source converts by `as i32`. -/
instance Cast.truncate : Cast := ⟨fun n => .ok (asI32 n)⟩

theorem toI32_truncate (n : ℕ) : toI32 n = .ok (asI32 n) := rfl

theorem toI32_eq {n : ℕ} (h : n < 2 ^ 31) : toI32 n = .ok (n : ℤ) := by
  rw [toI32_truncate, asI32_eq h]

namespace EcConfig

/-- Shards per stripe. -/
def total (cfg : EcConfig) : Outcome InnerError ℕ := Outcome.add cfg.data cfg.parity

/-- `validate_cfg`. -/
def validate (cfg : EcConfig) : Outcome InnerError Unit :=
  if cfg.data = 0 ∨ 32 < cfg.data ∨ cfg.parity = 0 ∨ 32 < cfg.parity then
    .err (.invalidConfig cfg.data cfg.parity)
  else
    .ok ()

end EcConfig

/-- The generator matrix, from which encoder and decoder both start. -/
def buildEncodeMatrix [Cast] (isal : IsaL) (cfg : EcConfig) : Outcome InnerError Bytes := do
  let m ← cfg.total
  return isal.gfGenCauchy1Matrix (← toI32 m) (← toI32 cfg.data)

/-- The first buffer that is not `len` bytes long is the error. -/
def checkLens (len : ℕ) (bufs : List Bytes) : Outcome InnerError Unit :=
  match bufs.find? fun b => b.length ≠ len with
  | some b => .err (.bufferLen len b.length)
  | none => .ok ()

/-! ### The encoder -/

/-- An encoder: its shape, and the tables for its parity rows. -/
structure InnerEncoder where
  /-- The shape. -/
  cfg : EcConfig
  /-- The multiplication tables ISA-L prepared. -/
  gTbls : Bytes

namespace InnerEncoder

/-- `Encoder::new`. Only the parity rows are tabled: the first `k * k` bytes of the
matrix are the identity. -/
def new [Cast] (isal : IsaL) (cfg : EcConfig) : Outcome InnerError InnerEncoder := do
  cfg.validate
  let encodeMatrix ← buildEncodeMatrix isal cfg
  let parityRowsOffset ← Outcome.mul cfg.data cfg.data
  let parityRows ← Outcome.slice encodeMatrix parityRowsOffset encodeMatrix.length
  return ⟨cfg, isal.ecInitTables (← toI32 cfg.data) (← toI32 cfg.parity) parityRows⟩

/-- `Encoder::encode`, the contents of the parity buffers. -/
def encode [Cast] (isal : IsaL) (enc : InnerEncoder) (len : ℕ) (data parity : List Bytes) :
    Outcome InnerError (List Bytes) :=
  if data.length ≠ enc.cfg.data then
    .err (.bufferCount enc.cfg.data data.length)
  else if parity.length ≠ enc.cfg.parity then
    .err (.bufferCount enc.cfg.parity parity.length)
  else do
    checkLens len data
    checkLens len parity
    return isal.ecEncodeData (← toI32 len) (← toI32 enc.cfg.data) (← toI32 enc.cfg.parity)
      enc.gTbls data parity

end InnerEncoder

/-! ### The decoder -/

/-- A decoder: its shape, and the generator matrix. -/
structure InnerDecoder where
  /-- The shape. -/
  cfg : EcConfig
  /-- The generator, the same as the encoder's. -/
  encodeMatrix : Bytes

namespace InnerDecoder

/-- `Decoder::new`. -/
def new [Cast] (isal : IsaL) (cfg : EcConfig) : Outcome InnerError InnerDecoder := do
  cfg.validate
  let encodeMatrix ← buildEncodeMatrix isal cfg
  return ⟨cfg, encodeMatrix⟩

/-- The source indices are in range and distinct; `seen` are those already marked. -/
def checkSources (m : ℕ) : List ℕ → List ℕ → Outcome InnerError Unit
  | [], _ => .ok ()
  | s :: rest, seen =>
    if m ≤ s then .err (.badIndex s m)
    else if s ∈ seen then .err (.duplicateIndex s)
    else checkSources m rest (s :: seen)

/-- The erased indices are in range and none of them is a source. -/
def checkErased (m : ℕ) (sources : List ℕ) : List ℕ → Outcome InnerError Unit
  | [] => .ok ()
  | e :: rest =>
    if m ≤ e then .err (.badIndex e m)
    else if e ∈ sources then .err (.overlap e)
    else checkErased m sources rest

/-- The row of coefficients, on the survivors, that yields the erased shard `e`: a row of
the inverse for a data shard, and for a parity shard its generator row composed with the
inverse. -/
def decodeRow (isal : IsaL) (dec : InnerDecoder) (invert : Bytes) (e : ℕ) :
    Outcome InnerError Bytes :=
  let k := dec.cfg.data
  if e < k then
    (List.range k).mapM fun j => Outcome.index invert (k * e + j)
  else
    (List.range k).mapM fun col =>
      (List.range k).foldlM (fun acc row => do
        let a ← Outcome.index invert (k * row + col)
        let b ← Outcome.index dec.encodeMatrix (k * e + row)
        return acc ^^^ isal.gfMul a b) 0

/-- `Decoder::reconstruct`, the contents of the output buffers. -/
def reconstruct [Cast] (isal : IsaL) (dec : InnerDecoder) (len : ℕ)
    (sourceIndices : List ℕ) (sources : List Bytes) (erased : List ℕ) (outputs : List Bytes) :
    Outcome InnerError (List Bytes) := do
  let k := dec.cfg.data
  let m ← dec.cfg.total
  if sourceIndices.length ≠ k then
    .err (.bufferCount k sourceIndices.length)
  else if sources.length ≠ k then
    .err (.bufferCount k sources.length)
  else if erased.length ≠ outputs.length then
    .err (.bufferCount erased.length outputs.length)
  else if erased = [] then
    return outputs
  else do
    checkLens len sources
    checkLens len outputs
    checkSources m sourceIndices []
    checkErased m sourceIndices erased
    -- row `i` of `b` is the generator row that produced source `i`
    let b ← sourceIndices.mapM fun src =>
      (List.range k).mapM fun j => Outcome.index dec.encodeMatrix (k * src + j)
    match isal.gfInvertMatrix b.flatten (← toI32 k) with
    | none => .err .singular
    | some invert => do
      let decodeMatrix ← erased.mapM (decodeRow isal dec invert)
      let gTbls := isal.ecInitTables (← toI32 k) (← toI32 erased.length) decodeMatrix.flatten
      return isal.ecEncodeData (← toI32 len) (← toI32 k) (← toI32 erased.length) gTbls sources
        outputs

end InnerDecoder

end OzoneRust
