import OzoneRust.Ec.IsaL

/-!
# The stripe layout of an erasure-coded object

The `ozone-ec` crate. An object is cut into cells of `chunkSize` bytes, dealt round-robin
to the `k` data shards, stripe by stripe; a data shard is the concatenation of its cells,
each as long as it really is, and a parity shard is the concatenation of the parity cells
of the stripes, computed over the data cells padded with zeros to `chunkSize`.

The definitions follow `stripe.rs`: `OzoneRust.encodeObject` runs over the stripes and
appends to `k + p` buffers; `OzoneRust.decodeObject` drops the shards whose length cannot
be right, rebuilds the missing data shards from the first `k` survivors, stripe by stripe,
and reassembles the object. Allocating a buffer is taken to succeed.
-/

namespace OzoneRust

/-! ### Profiles and errors -/

/-- An erasure-coding profile. -/
structure Profile where
  /-- Data shards per stripe, `k`. -/
  data : ℕ
  /-- Parity shards per stripe, `p`. -/
  parity : ℕ
  /-- Bytes per cell. -/
  chunkSize : ℕ
  deriving DecidableEq, Repr

/-- The errors of `ozone-ec` that its stripe functions return. -/
inductive EcError where
  /-- An error of the coder. -/
  | inner (e : InnerError)
  /-- Fewer than `k` shards survive. -/
  | notEnoughShards (have_ need : ℕ)
  /-- The number of slots is not `k + p`. -/
  | shardCount (expected got : ℕ)
  /-- The profile has no data shards or empty cells. -/
  | invalidProfile (data chunkSize : ℕ)
  deriving DecidableEq, Repr

namespace Profile

/-- Bytes in a full stripe. -/
def stripeSize (P : Profile) : Outcome EcError ℕ := Outcome.mul P.data P.chunkSize

/-- Shards per stripe. -/
def total (P : Profile) : Outcome EcError ℕ := Outcome.add P.data P.parity

/-- The shape handed to the coder. -/
def cfg (P : Profile) : EcConfig := ⟨P.data, P.parity⟩

end Profile

/-! ### The layout -/

/-- Stripes of an object of `len` bytes. -/
def numStripes (P : Profile) (len : ℕ) : Outcome EcError ℕ :=
  if len = 0 then .ok 0 else do Outcome.divCeil len (← P.stripeSize)

/-- Where cell `i` of stripe `s` starts in the object. -/
def cellOff (P : Profile) (i s : ℕ) : Outcome EcError ℕ := do
  let a ← Outcome.mul s (← P.stripeSize)
  let b ← Outcome.mul i P.chunkSize
  Outcome.add a b

/-- The real length of cell `i` of stripe `s`. -/
def cellLen (P : Profile) (len i s : ℕ) : Outcome EcError ℕ := do
  let off ← cellOff P i s
  return if len ≤ off then 0 else min (len - off) P.chunkSize

/-- The length shard `idx` of an object of `len` bytes must have, in closed form. -/
def expectedShardLen (P : Profile) (len idx : ℕ) : Outcome EcError ℕ :=
  let c := P.chunkSize
  if idx < P.data then do
    let stripe ← P.stripeSize
    let full := Outcome.satMul (← Outcome.div len stripe) c
    let rem ← Outcome.rem len stripe
    Outcome.add full (min (rem - (← Outcome.mul idx c)) c)
  else do
    return Outcome.satMul (← numStripes P len) c

/-- A `c`-byte buffer of zeros with `part` copied to its front. -/
def padCell (c : ℕ) (part : Bytes) : Outcome EcError Bytes :=
  if part.length ≤ c then .ok (part ++ List.replicate (c - part.length) 0) else .panic

/-- Cell `s` of a surviving shard, padded with zeros to a full cell. The cells of a data
shard are stored at their real lengths, those of a parity shard at full length. -/
def paddedCell (P : Profile) (len idx s : ℕ) (shard : Bytes) : Outcome EcError Bytes :=
  let c := P.chunkSize
  if idx < P.data then do
    let off ← (List.range s).foldlM (fun off t => do Outcome.add off (← cellLen P len idx t)) 0
    let cl ← cellLen P len idx s
    padCell c (← Outcome.slice shard off (← Outcome.add off cl))
  else do
    let start ← Outcome.mul s c
    Outcome.slice shard start (← Outcome.add start c)

/-! ### Encoding -/

/-- The `k` data shards and the `p` parity shards of an object. -/
structure EncodedShards where
  /-- The data shards. -/
  data : List Bytes
  /-- The parity shards. -/
  parity : List Bytes
  deriving DecidableEq, Repr

/-- The bytes of the object in cell `i` of stripe `s`. -/
def dataCell (P : Profile) (data : Bytes) (s i : ℕ) : Outcome EcError Bytes := do
  let off ← cellOff P i s
  let cl ← cellLen P data.length i s
  if 0 < cl then Outcome.slice data off (← Outcome.add off cl) else return []

/-- One stripe: its cells are appended to the data shards, and the parity of the padded
cells to the parity shards. -/
def encodeObjectStripe [Cast] (isal : IsaL) (P : Profile) (enc : InnerEncoder) (data : Bytes)
    (acc : EncodedShards) (s : ℕ) : Outcome EcError EncodedShards := do
  let parts ← (List.range P.data).mapM (dataCell P data s)
  let cells ← parts.mapM (padCell P.chunkSize)
  let zeros := List.replicate P.parity (List.replicate P.chunkSize 0)
  let par ← (enc.encode isal P.chunkSize cells zeros).mapErr .inner
  return ⟨List.zipWith (· ++ ·) acc.data parts, List.zipWith (· ++ ·) acc.parity par⟩

/-- `encode_object`: the shards of an object. -/
def encodeObject [Cast] (isal : IsaL) (P : Profile) (data : Bytes) :
    Outcome EcError EncodedShards :=
  if P.data = 0 ∨ P.chunkSize = 0 then
    .err (.invalidProfile P.data P.chunkSize)
  else do
    let stripes ← numStripes P data.length
    let enc ← (InnerEncoder.new isal P.cfg).mapErr .inner
    -- the capacity reserved for each parity shard
    let _ ← Outcome.mul stripes P.chunkSize
    (List.range stripes).foldlM (encodeObjectStripe isal P enc data)
      ⟨List.replicate P.data [], List.replicate P.parity []⟩

/-! ### Decoding -/

/-- One stripe of the reassembly: the next cell of every data shard, from where the
shard's cursor stands. -/
def reassembleStripe (P : Profile) (len : ℕ) (dataShards : List Bytes)
    (acc : Bytes × List ℕ) (s : ℕ) : Outcome EcError (Bytes × List ℕ) := do
  let parts ← (List.range P.data).mapM fun i => do
    let cur ← Outcome.index acc.2 i
    let cl ← cellLen P len i s
    let next ← Outcome.add cur cl
    let part ← Outcome.slice (← Outcome.index dataShards i) cur next
    return (part, next)
  return (acc.1 ++ (parts.map Prod.fst).flatten, parts.map Prod.snd)

/-- The object, from all of its data shards. -/
def reassemble (P : Profile) (len : ℕ) (dataShards : List Bytes) : Outcome EcError Bytes := do
  let stripes ← numStripes P len
  let out ← (List.range stripes).foldlM (reassembleStripe P len dataShards)
    ([], List.replicate P.data 0)
  return out.1

/-- A slot whose length disagrees with `len` is emptied. -/
def dropInconsistent (P : Profile) (len : ℕ) (slot : Option Bytes × ℕ) :
    Outcome EcError (Option Bytes) :=
  match slot with
  | (none, _) => .ok none
  | (some b, idx) => do
    return if b.length ≠ (← expectedShardLen P len idx) then none else some b

/-- The bytes of a slot that is known to hold a shard. -/
def unwrapShard (shards : List (Option Bytes)) (idx : ℕ) : Outcome EcError Bytes := do
  match ← Outcome.index shards idx with
  | some b => return b
  | none => .panic

/-- One stripe of the reconstruction: the missing data cells are rebuilt from the padded
cells of the sources, cut back to their real lengths, and appended to their shards. -/
def rebuildStripe [Cast] (isal : IsaL) (P : Profile) (dec : InnerDecoder) (len : ℕ)
    (shards : List (Option Bytes)) (sources missing : List ℕ) (bufs : List Bytes) (s : ℕ) :
    Outcome EcError (List Bytes) := do
  let srcCells ← sources.mapM fun idx => do
    paddedCell P len idx s (← unwrapShard shards idx)
  let zeros := List.replicate missing.length (List.replicate P.chunkSize 0)
  let outs ← (dec.reconstruct isal P.chunkSize sources srcCells missing zeros).mapErr .inner
  let parts ← (missing.zip outs).mapM fun (i, out) => do
    let cl ← cellLen P len i s
    return (i, ← Outcome.slice out 0 cl)
  return parts.foldl (fun bufs part => bufs.modify part.1 (· ++ part.2)) bufs

/-- `decode_object`: the object of `len` bytes, from the shards that survive. -/
def decodeObject [Cast] (isal : IsaL) (P : Profile) (len : ℕ) (shards : List (Option Bytes)) :
    Outcome EcError Bytes :=
  if P.data = 0 ∨ P.chunkSize = 0 then
    .err (.invalidProfile P.data P.chunkSize)
  else do
    let total ← P.total
    if shards.length ≠ total then
      .err (.shardCount total shards.length)
    else do
      let shards ← shards.zipIdx.mapM (dropInconsistent P len)
      let stripes ← numStripes P len
      let isSome := fun idx => (shards.getD idx none).isSome
      let dataBufs := (shards.take P.data).map (·.getD [])
      let missing := (List.range P.data).filter fun i => !isSome i
      if missing = [] then
        reassemble P len dataBufs
      else
        let present := (List.range total).filter isSome
        if present.length < P.data then
          .err (.notEnoughShards present.length P.data)
        else do
          let sources := present.take P.data
          let dec ← (InnerDecoder.new isal P.cfg).mapErr .inner
          let bufs ← (List.range stripes).foldlM
            (rebuildStripe isal P dec len shards sources missing) dataBufs
          reassemble P len bufs

end OzoneRust
