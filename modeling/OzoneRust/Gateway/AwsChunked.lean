import OzoneRust.Gateway.Parsing
import Mathlib.Logic.Relation

/-!
# Bodies in chunks

`decode_aws_chunked` of the gateway's `lib.rs` takes the framing off a streamed body: a line
with the size of a chunk in hexadecimal and perhaps an extension, the chunk, an end of line,
and so on to a size of zero. The loop has a cursor into the body
(`OzoneRust.AwsChunked.loop`), and each turn reads a line and a chunk
(`OzoneRust.AwsChunked.turn`).

Additions are those of a build with overflow checks, or of one without
(`OzoneRust.AwsChunked.Build`). A turn, said without the cursor, is
`OzoneRust.AwsChunked.read`: what it finds at the head of the rest of the body. The one thing
it needs the cursor for is that its sum with the size of the chunk is a 64-bit number, and
where it is not, the turn panics, in the one build from the addition, in the other from the
slice (`OzoneRust.AwsChunked.turn_eq`).
-/

namespace OzoneRust

namespace AwsChunked

open Rewrite Text

/-! ### The decoder -/

/-- With overflow checks, or without. -/
inductive Build where
  /-- A sum that does not fit panics. -/
  | checked
  /-- A sum that does not fit wraps. -/
  | wrapping
  deriving DecidableEq, Repr

/-- Addition. -/
def Build.add : Build → ℕ → ℕ → Outcome GatewayError ℕ
  | .checked, a, b => Outcome.add a b
  | .wrapping, a, b => .ok ((a + b) % 2 ^ 64)

/-- The end of a line. -/
def crlf : Bytes := [13, 10]

/-- `find_crlf`. -/
def findCrlf (raw : Bytes) (start : ℕ) : Option ℕ :=
  if raw.length < start then none
  else (cut crlf (raw.drop start)).map fun found => start + found.1.length

/-- `char::to_digit`, in base 16. -/
def hexDigitOf (c : Char) : Option ℕ :=
  if c.toNat < 128 then hexDigit (UInt8.ofNat c.toNat) else none

/-- One digit of `from_str_radix`. -/
def hexStep (acc : Option ℕ) (c : Char) : Option ℕ := do
  let n := (← acc) * 16 + (← hexDigitOf c)
  if n < 2 ^ 64 then some n else none

/-- The digits after a sign, if there is one. -/
def unsigned : Text → Text
  | '+' :: digits => digits
  | digits => digits

/-- `usize::from_str_radix` in base 16. -/
def fromStrRadix (s : Text) : Option ℕ :=
  if unsigned s = [] then none else (unsigned s).foldl hexStep (some 0)

/-- The size in a line, which ends at a `;`. -/
def chunkSize (header : Bytes) : Except GatewayError ℕ :=
  match ofUtf8 (header.takeWhile (· ≠ 59)) with
  | none => .error (.badRequest "aws-chunked: non-utf8 size")
  | some s =>
    match fromStrRadix (trim s) with
    | none => .error (.badRequest "aws-chunked: bad hex size")
    | some n => .ok n

/-- `slice::get` of a range. -/
def getRange (raw : Bytes) (i j : ℕ) : Option Bytes :=
  if i ≤ j ∧ j ≤ raw.length then some ((raw.drop i).take (j - i)) else none

/-- One turn of the loop, at a cursor: the chunk and the next cursor, or nothing more. -/
def turn (b : Build) (raw : Bytes) (i : ℕ) : Outcome GatewayError (Option (Bytes × ℕ)) :=
  match findCrlf raw i with
  | none => .err (.badRequest "aws-chunked: missing chunk-size line")
  | some nl => do
    let header ← Outcome.slice raw i nl
    let i ← b.add nl 2
    let size ← Outcome.ofExcept id (chunkSize header)
    if size = 0 then return none
    else if raw.length < (← b.add i size) then
      .err (.badRequest "aws-chunked: truncated chunk")
    else do
      let data ← Outcome.slice raw i (← b.add i size)
      let i ← b.add i size
      if getRange raw i (← b.add i 2) = some crlf then return some (data, ← b.add i 2)
      else return some (data, i)

/-- The loop, with what it has put out; `none` if it takes more turns. -/
def loop (b : Build) (raw : Bytes) : ℕ → ℕ → Bytes → Option (Outcome GatewayError Bytes)
  | 0, _, _ => none
  | fuel + 1, i, out =>
    match turn b raw i with
    | .ok none => some (.ok out)
    | .ok (some (data, i)) => loop b raw fuel i (out ++ data)
    | .err e => some (.err e)
    | .panic => some .panic

/-- `decode_aws_chunked`. Each turn reads a line, so a turn for each byte is enough. -/
def decodeAwsChunked (b : Build) (raw : Bytes) : Option (Outcome GatewayError Bytes) :=
  loop b raw (raw.length + 1) 0 []

/-! ### One turn -/

/-- What is at the head of the rest of a body, after `i` bytes: the chunk and the cursor after
it, or nothing more. -/
def read (i : ℕ) (rest : Bytes) : Outcome GatewayError (Option (Bytes × ℕ)) :=
  match cut crlf rest with
  | none => .err (.badRequest "aws-chunked: missing chunk-size line")
  | some (header, rest) =>
    match chunkSize header with
    | .error e => .err e
    | .ok size =>
      if size = 0 then .ok none
      else if 2 ^ 64 ≤ i + header.length + 2 + size then .panic
      else if rest.length < size then .err (.badRequest "aws-chunked: truncated chunk")
      else .ok (some (rest.take size,
        i + header.length + 2 + size + if crlf <+: rest.drop size then 2 else 0))

theorem Build.add_eq (b : Build) {m n : ℕ} (h : m + n < 2 ^ 64) : b.add m n = .ok (m + n) := by
  cases b with
  | checked => exact Outcome.add_eq h
  | wrapping => exact congrArg Outcome.ok (Nat.mod_eq_of_lt h)

theorem getRange_eq_crlf {raw : Bytes} {i : ℕ} (hi : i ≤ raw.length) :
    getRange raw i (i + 2) = some crlf ↔ crlf <+: raw.drop i := by
  rw [getRange, Nat.add_sub_cancel_left]
  constructor
  · intro h
    split at h
    · rw [← Option.some.inj h]
      exact List.take_prefix 2 _
    · cases h
  · intro h
    have hlen : 2 ≤ (raw.drop i).length := h.length_le
    rw [List.length_drop] at hlen
    rw [if_pos ⟨by omega, by omega⟩]
    exact congrArg some (List.prefix_iff_eq_take.mp h).symm

theorem lt_of_foldl_hexStep {n : ℕ} (s : Text) {acc : Option ℕ} (hacc : ∀ m ∈ acc, m < 2 ^ 64)
    (h : s.foldl hexStep acc = some n) : n < 2 ^ 64 := by
  induction s generalizing acc with
  | nil => exact hacc n h
  | cons c s ih =>
    refine ih (fun m hm => ?_) h
    obtain ⟨a, -, hm⟩ := Option.bind_eq_some_iff.mp hm
    obtain ⟨d, -, hm⟩ := Option.bind_eq_some_iff.mp hm
    dsimp only at hm
    split at hm
    · next hlt =>
      cases hm
      exact hlt
    · cases hm

theorem chunkSize_lt {header : Bytes} {n : ℕ} (h : chunkSize header = .ok n) : n < 2 ^ 64 := by
  unfold chunkSize at h
  split at h
  · cases h
  · split at h
    · cases h
    · next m hm =>
      cases h
      unfold fromStrRadix at hm
      split at hm
      · cases hm
      · refine lt_of_foldl_hexStep _ ?_ hm
        rintro _ ⟨⟩
        exact Nat.two_pow_pos 64

/-- A sum that does not fit panics, or wraps to before its first summand. -/
theorem Build.add_wraps (b : Build) {m n : ℕ} (hm : m < 2 ^ 64) (hn : n < 2 ^ 64)
    (h : 2 ^ 64 ≤ m + n) : b.add m n = .panic ∨ ∃ w < m, b.add m n = .ok w := by
  cases b with
  | checked => exact .inl (if_neg (Nat.not_lt.mpr h))
  | wrapping =>
    have hmod : (m + n) % 2 ^ 64 = m + n - 2 ^ 64 := by
      rw [Nat.mod_eq_sub_mod h, Nat.mod_eq_of_lt (by omega)]
    exact .inr ⟨(m + n) % 2 ^ 64, by omega, rfl⟩

/-- The chunk is not taken where the sum of the cursor and the size wraps. -/
theorem take_wraps (b : Build) {raw : Bytes} {i size : ℕ} (hraw : raw.length < 2 ^ 63)
    (hi : i ≤ raw.length) (hsize : size < 2 ^ 64) (hwrap : 2 ^ 64 ≤ i + size)
    (next : Bytes → Outcome GatewayError (Option (Bytes × ℕ))) :
    (do
      if raw.length < (← b.add i size) then
        .err (.badRequest "aws-chunked: truncated chunk")
      else do
        let data ← Outcome.slice raw i (← b.add i size)
        next data) = .panic := by
  obtain hadd | ⟨w, hw, hadd⟩ := b.add_wraps (by omega) hsize hwrap
  · simp only [hadd, Outcome.panic_bind]
  · -- the sum is back before the chunk: it passes the check, and the slice panics
    have hslice : (Outcome.slice raw i w : Outcome GatewayError Bytes) = .panic :=
      if_neg (by omega)
    have hcheck : ¬raw.length < w := by omega
    simp only [hadd, Outcome.ok_bind, if_neg hcheck, hslice, Outcome.panic_bind]

/-- A line and what comes after it. -/
theorem drop_of_cut {raw header rest : Bytes} {i : ℕ} (hi : i ≤ raw.length)
    (hcut : cut crlf (raw.drop i) = some (header, rest)) :
    raw.length = i + header.length + 2 + rest.length ∧
      raw.drop (i + header.length + 2) = rest := by
  have hsplit := eq_of_cut hcut
  constructor
  · have hlen := congrArg List.length hsplit
    have hcrlf : crlf.length = 2 := rfl
    rw [List.length_drop, List.length_append, List.length_append] at hlen
    omega
  · rw [Nat.add_assoc, ← List.drop_drop, hsplit, ← List.append_assoc]
    exact List.drop_left' (List.length_append ..)

/-- **A turn reads what is at the head of the rest of the body.** -/
theorem turn_eq (b : Build) {raw : Bytes} {i : ℕ} (hraw : raw.length < 2 ^ 63)
    (hi : i ≤ raw.length) : turn b raw i = read i (raw.drop i) := by
  unfold turn findCrlf read
  rw [if_neg (Nat.not_lt.mpr hi)]
  cases hcut : cut crlf (raw.drop i) with
  | none => rfl
  | some found =>
    obtain ⟨header, rest⟩ := found
    obtain ⟨hlen, hrest⟩ := drop_of_cut hi hcut
    have hheader : (Outcome.slice raw i (i + header.length) : Outcome GatewayError Bytes) =
        .ok header := by
      rw [Outcome.slice_add_eq (by omega), eq_of_cut hcut, List.take_left]
    simp only [Option.map_some, hheader, Outcome.ok_bind,
      b.add_eq (by omega : i + header.length + 2 < 2 ^ 64)]
    cases hsize : chunkSize header with
    | error e => rfl
    | ok size =>
      have hlt := chunkSize_lt hsize
      simp only [Outcome.ofExcept, Outcome.ok_bind]
      by_cases hzero : size = 0
      · rw [if_pos hzero, if_pos hzero]
        rfl
      · rw [if_neg hzero, if_neg hzero]
        by_cases hwrap : 2 ^ 64 ≤ i + header.length + 2 + size
        · rw [if_pos hwrap]
          exact take_wraps b hraw (by omega) hlt hwrap _
        · have hsum : i + header.length + 2 + size < 2 ^ 64 := Nat.not_le.mp hwrap
          simp only [if_neg hwrap, b.add_eq hsum, Outcome.ok_bind]
          by_cases htrunc : rest.length < size
          · rw [if_pos htrunc, if_pos (by omega)]
          · have hle : i + header.length + 2 + size ≤ raw.length := by omega
            have hdrop : raw.drop (i + header.length + 2 + size) = rest.drop size := by
              rw [← List.drop_drop, hrest]
            rw [if_neg htrunc, if_neg (by omega), Outcome.slice_add_eq hle, hrest]
            simp only [Outcome.ok_bind, b.add_eq (by omega :
              i + header.length + 2 + size + 2 < 2 ^ 64), getRange_eq_crlf hle, hdrop]
            by_cases hend : crlf <+: rest.drop size
            · simp only [if_pos hend, Outcome.pure_eq]
            · simp only [if_neg hend, Nat.add_zero, Outcome.pure_eq]

/-! ### Whole bodies

The cursor goes from line to line. Where it can be is said here of the body alone. -/

/-- The line at `i` announces a chunk of `size` bytes, which begins at `j`. -/
def Announces (raw : Bytes) (i size j : ℕ) : Prop :=
  ∃ header rest, cut crlf (raw.drop i) = some (header, rest) ∧ chunkSize header = .ok size ∧
    size ≠ 0 ∧ j = i + header.length + 2

/-- The chunk announced at `i` is there, and after it and the end of line comes `i'`. -/
def Next (raw : Bytes) (i i' : ℕ) : Prop :=
  ∃ size j, Announces raw i size j ∧ j + size ≤ raw.length ∧
    i' = j + size + if crlf <+: raw.drop (j + size) then 2 else 0

/-- The chunk announced at `i` ends before byte `2 ^ 64`. -/
def EndsInRange (raw : Bytes) (i : ℕ) : Prop := ∀ size j, Announces raw i size j → j + size < 2 ^ 64

/-- Every line that is come to from the start announces a chunk that ends before byte
`2 ^ 64`. -/
def InRange (raw : Bytes) : Prop := ∀ i, Relation.ReflTransGen (Next raw) 0 i → EndsInRange raw i

theorem Announces.unique {raw : Bytes} {i size size' j j' : ℕ} (h : Announces raw i size j)
    (h' : Announces raw i size' j') : size' = size ∧ j' = j := by
  obtain ⟨header, rest, hcut, hsize, -, rfl⟩ := h
  obtain ⟨header', rest', hcut', hsize', -, rfl⟩ := h'
  rw [hcut] at hcut'
  cases hcut'
  rw [hsize] at hsize'
  cases hsize'
  exact ⟨rfl, rfl⟩

theorem Next.unique {raw : Bytes} {i i' i'' : ℕ} (h : Next raw i i') (h' : Next raw i i'') :
    i'' = i' := by
  obtain ⟨size, j, hann, -, rfl⟩ := h
  obtain ⟨size', j', hann', -, rfl⟩ := h'
  obtain ⟨rfl, rfl⟩ := hann.unique hann'
  rfl

theorem endsInRange_of_not_announces {raw : Bytes} {i : ℕ} (h : ∀ size j, ¬Announces raw i size j) :
    (∀ i', ¬Next raw i i') ∧ EndsInRange raw i := by
  refine ⟨?_, fun size j hann => absurd hann (h size j)⟩
  rintro i' ⟨size, j, hann, -⟩
  exact h size j hann

/-- **What a turn can do**: end the loop where no line follows, panic where the end of the
chunk is out of range, or take a chunk and go on after it. -/
theorem turn_cases (b : Build) {raw : Bytes} {i : ℕ} (hraw : raw.length < 2 ^ 63)
    (hi : i ≤ raw.length) :
    ((turn b raw i = .ok none ∨ ∃ e, turn b raw i = .err e) ∧ (∀ i', ¬Next raw i i') ∧
      EndsInRange raw i) ∨
    (turn b raw i = .panic ∧ ¬EndsInRange raw i) ∨
    ∃ data i', turn b raw i = .ok (some (data, i')) ∧ Next raw i i' ∧ EndsInRange raw i ∧
      i' ≤ raw.length ∧ i + data.length < i' := by
  rw [turn_eq b hraw hi]
  unfold read
  cases hcut : cut crlf (raw.drop i) with
  | none =>
    refine .inl ⟨.inr ⟨_, rfl⟩, endsInRange_of_not_announces ?_⟩
    rintro size j ⟨header, rest, hcut', -⟩
    rw [hcut] at hcut'
    cases hcut'
  | some found =>
    obtain ⟨header, rest⟩ := found
    obtain ⟨hlen, hrest⟩ := drop_of_cut hi hcut
    dsimp only
    have hline : ∀ {size j}, Announces raw i size j → chunkSize header = .ok size ∧ size ≠ 0 := by
      rintro size j ⟨header', rest', hcut', hsize, hzero, -⟩
      rw [hcut] at hcut'
      cases hcut'
      exact ⟨hsize, hzero⟩
    cases hsize : chunkSize header with
    | error e =>
      refine .inl ⟨.inr ⟨e, rfl⟩, endsInRange_of_not_announces fun size j hann => ?_⟩
      have hok := (hline hann).1
      rw [hsize] at hok
      cases hok
    | ok size =>
      dsimp only
      by_cases hzero : size = 0
      · rw [if_pos hzero]
        refine .inl ⟨.inl rfl, endsInRange_of_not_announces fun size' j hann => ?_⟩
        obtain ⟨hok, hne⟩ := hline hann
        rw [hsize] at hok
        cases hok
        exact hne hzero
      · rw [if_neg hzero]
        have hann : Announces raw i size (i + header.length + 2) :=
          ⟨header, rest, hcut, hsize, hzero, rfl⟩
        by_cases hwrap : 2 ^ 64 ≤ i + header.length + 2 + size
        · rw [if_pos hwrap]
          exact .inr (.inl ⟨rfl, fun h => Nat.not_lt.mpr hwrap (h _ _ hann)⟩)
        · have hends : EndsInRange raw i := by
            intro size' j hann'
            obtain ⟨rfl, rfl⟩ := hann.unique hann'
            exact Nat.not_le.mp hwrap
          rw [if_neg hwrap]
          by_cases htrunc : rest.length < size
          · rw [if_pos htrunc]
            refine .inl ⟨.inr ⟨_, rfl⟩, ?_, hends⟩
            rintro i' ⟨size', j, hann', hle, -⟩
            obtain ⟨rfl, rfl⟩ := hann.unique hann'
            omega
          · have hdrop : raw.drop (i + header.length + 2 + size) = rest.drop size := by
              rw [← List.drop_drop, hrest]
            rw [if_neg htrunc]
            refine .inr (.inr ⟨_, _, rfl, ⟨size, _, hann, by omega, by rw [hdrop]⟩, hends, ?_⟩)
            rw [List.length_take]
            by_cases hend : crlf <+: rest.drop size
            · have htwo : 2 ≤ (rest.drop size).length := hend.length_le
              rw [List.length_drop] at htwo
              rw [if_pos hend]
              omega
            · rw [if_neg hend]
              omega

/-- **The loop ends, and does not panic exactly if each chunk that is announced on its way
ends in range.** What it has put out is no longer than what it has read. -/
theorem loop_spec (b : Build) {raw : Bytes} (hraw : raw.length < 2 ^ 63) :
    ∀ {fuel i : ℕ} {out : Bytes}, i ≤ raw.length → raw.length - i < fuel → out.length ≤ i →
      ∃ o, loop b raw fuel i out = some o ∧
        (o ≠ .panic ↔ ∀ i', Relation.ReflTransGen (Next raw) i i' → EndsInRange raw i') ∧
        ∀ payload, o = .ok payload → payload.length ≤ raw.length
  | 0, i, out, _, hfuel, _ => absurd hfuel (Nat.not_lt_zero _)
  | fuel + 1, i, out, hi, hfuel, hout => by
    unfold loop
    obtain ⟨hturn, hstop, hends⟩ | ⟨hturn, hends⟩ | ⟨data, i', hturn, hnext, hends, hi', hdata⟩ :=
      turn_cases b hraw hi
    · have hall : ∀ i', Relation.ReflTransGen (Next raw) i i' → EndsInRange raw i' := by
        intro i' hreach
        obtain rfl | ⟨j, hnext, -⟩ := hreach.cases_head
        · exact hends
        · exact absurd hnext (hstop j)
      obtain hturn | ⟨e, hturn⟩ := hturn
      · rw [hturn]
        refine ⟨_, rfl, iff_of_true nofun hall, ?_⟩
        rintro payload ⟨⟩
        exact hout.trans hi
      · rw [hturn]
        exact ⟨_, rfl, iff_of_true nofun hall, nofun⟩
    · rw [hturn]
      exact ⟨_, rfl, iff_of_false (fun h => h rfl) fun h => hends (h i .refl), nofun⟩
    · rw [hturn]
      have hout' : (out ++ data).length ≤ i' := by
        rw [List.length_append]
        omega
      have hfuel' : raw.length - i' < fuel := by omega
      obtain ⟨o, hloop, hpanic, hok⟩ := loop_spec b hraw hi' hfuel' hout'
      refine ⟨o, hloop, hpanic.trans ⟨fun h j hreach => ?_, fun h j hreach => ?_⟩, hok⟩
      · obtain rfl | ⟨k, hk, hreach⟩ := hreach.cases_head
        · exact hends
        · cases hnext.unique hk
          exact h j hreach
      · exact h j (hreach.head hnext)

/-- **A body is decoded, or rejected, without a panic and to no more bytes than it has, exactly
if every chunk that is announced in it ends in range.** -/
theorem decodeAwsChunked_safe_iff (b : Build) (raw : Bytes) (hraw : raw.length < 2 ^ 63) :
    (∃ o, decodeAwsChunked b raw = some o ∧ o ≠ .panic ∧
      ∀ payload, o = .ok payload → payload.length ≤ raw.length) ↔ InRange raw := by
  have hout : ([] : Bytes).length ≤ 0 := Nat.le_refl 0
  obtain ⟨o, hloop, hpanic, hok⟩ :=
    loop_spec b hraw (Nat.zero_le _) (Nat.lt_succ_self raw.length) hout
  constructor
  · rintro ⟨o', ho', hne, -⟩
    cases hloop.symm.trans ho'
    exact hpanic.mp hne
  · intro h
    exact ⟨o, hloop, hpanic.mpr h, hok⟩

/-- A chunk of two bytes, and the line `0`. -/
def hiChunked : Bytes := [50, 13, 10, 104, 105, 13, 10, 48, 13, 10]

theorem announces_hiChunked : Announces hiChunked 0 2 3 :=
  ⟨[50], _, rfl, rfl, by decide, rfl⟩

theorem inRange_hiChunked : InRange hiChunked := by
  have hlast : ∀ size j, ¬Announces hiChunked 7 size j := by
    rintro size j ⟨header, rest, hcut, hsize, hne, -⟩
    have hcut' : cut crlf (hiChunked.drop 7) = some ([48], []) := rfl
    cases hcut'.symm.trans hcut
    cases hsize
    exact hne rfl
  have hnext : Next hiChunked 0 7 := ⟨2, 3, announces_hiChunked, by decide, by decide⟩
  obtain ⟨hstop, hends⟩ := endsInRange_of_not_announces hlast
  intro i hreach
  obtain rfl | ⟨k, hk, hreach⟩ := hreach.cases_head
  · intro size j hann
    obtain ⟨rfl, rfl⟩ := announces_hiChunked.unique hann
    decide
  · obtain rfl := hnext.unique hk
    obtain rfl | ⟨k, hk, -⟩ := hreach.cases_head
    · exact hends
    · exact absurd hk (hstop k)

/-- The chunk is in range. -/
theorem decodeAwsChunked_safe_iff_hi : Announces hiChunked 0 2 3 ∧ InRange hiChunked ∧
    ∃ o, decodeAwsChunked .wrapping hiChunked = some o ∧ o ≠ .panic ∧
      ∀ payload, o = .ok payload → payload.length ≤ hiChunked.length :=
  ⟨announces_hiChunked, inRange_hiChunked,
    (decodeAwsChunked_safe_iff .wrapping hiChunked (by decide)).mpr inRange_hiChunked⟩

/-- A size line with the largest size there is: 16 digits `f`. -/
theorem decodeAwsChunked_panics :
    decodeAwsChunked .checked (List.replicate 16 102 ++ [13, 10]) = some .panic ∧
      decodeAwsChunked .wrapping (List.replicate 16 102 ++ [13, 10]) = some .panic := by
  decide +kernel

/-! ### Framed bodies -/

/-- The number that hexadecimal digits write after `acc`. -/
def hexValue (acc : ℕ) (digits : Bytes) : ℕ :=
  digits.foldl (fun acc d => acc * 16 + (hexDigit d).getD 0) acc

/-- A size line: digits in either case, with leading zeros or without, and perhaps an
extension. -/
structure SizeLine (n : ℕ) where
  /-- The digits of the size. -/
  digits : Bytes
  /-- The extension. -/
  ext : Option Bytes
  digits_ne : digits ≠ []
  digits_hex : ∀ d ∈ digits, (hexDigit d).isSome
  value_eq : hexValue 0 digits = n
  ext_clean : ∀ e ∈ ext, ¬crlf <:+: e

/-- The line, without its end. -/
def SizeLine.bytes {n : ℕ} (line : SizeLine n) : Bytes :=
  line.digits ++ line.ext.elim [] (59 :: ·)

/-- A chunk and its size line. -/
structure Chunk where
  /-- The chunk. -/
  data : Bytes
  data_ne : data ≠ []
  /-- The size line. -/
  line : SizeLine data.length

/-- A chunk with its framing. -/
def Chunk.frame (c : Chunk) : Bytes := c.line.bytes ++ (crlf ++ (c.data ++ crlf))

/-- The framed chunks and the size line of zero, with its end. -/
def body (chunks : List Chunk) (last : SizeLine 0) : Bytes :=
  chunks.flatMap Chunk.frame ++ (last.bytes ++ crlf)

/-! #### Reading a size line -/

theorem hexDigit_spec {d : UInt8} (h : (hexDigit d).isSome) :
    d < 128 ∧ d ≠ 59 ∧ d ≠ 13 ∧ ofByte d ≠ '+' ∧ isWhiteSpace (ofByte d) = false ∧
      hexDigitOf (ofByte d) = hexDigit d := by
  have hall : ∀ n < 128, (hexDigit (UInt8.ofNat n)).isSome →
      UInt8.ofNat n ≠ 59 ∧ UInt8.ofNat n ≠ 13 ∧ Char.ofNat n ≠ '+' ∧
        isWhiteSpace (Char.ofNat n) = false ∧
        hexDigitOf (Char.ofNat n) = hexDigit (UInt8.ofNat n) := by decide
  have hlt : d < 128 := by
    unfold hexDigit at h
    split at h
    · next hd => exact UInt8.lt_of_le_of_lt hd.2 (by decide)
    · split at h
      · next hd => exact UInt8.lt_of_le_of_lt hd.2 (by decide)
      · split at h
        · next hd => exact UInt8.lt_of_le_of_lt hd.2 (by decide)
        · cases h
  have hd := hall d.toNat (UInt8.lt_iff_toNat_lt.mp hlt)
  rw [UInt8.ofNat_toNat] at hd
  exact ⟨hlt, hd h⟩

theorem le_hexValue (digits : Bytes) (acc : ℕ) : acc ≤ hexValue acc digits := by
  induction digits generalizing acc with
  | nil => exact Nat.le_refl acc
  | cons d digits ih =>
    have hnext : acc ≤ acc * 16 + (hexDigit d).getD 0 := by omega
    exact hnext.trans (ih _)

theorem foldl_hexStep {digits : Bytes} (hhex : ∀ d ∈ digits, (hexDigit d).isSome) {acc : ℕ}
    (hlt : hexValue acc digits < 2 ^ 64) :
    (digits.map ofByte).foldl hexStep (some acc) = some (hexValue acc digits) := by
  induction digits generalizing acc with
  | nil => rfl
  | cons d digits ih =>
    have hd := hhex d List.mem_cons_self
    obtain ⟨v, hv⟩ := Option.isSome_iff_exists.mp hd
    have hvalue : hexValue acc (d :: digits) = hexValue (acc * 16 + v) digits := by
      rw [hexValue, List.foldl_cons, hv]
      rfl
    rw [hvalue] at hlt ⊢
    have hstep : hexStep (some acc) (ofByte d) = some (acc * 16 + v) := by
      unfold hexStep
      rw [(hexDigit_spec hd).2.2.2.2.2, hv]
      exact if_pos ((le_hexValue digits _).trans_lt hlt)
    rw [List.map_cons, List.foldl_cons, hstep]
    exact ih (fun d' hd' => hhex d' (List.mem_cons_of_mem d hd')) hlt

theorem SizeLine.chunkSize_eq {n : ℕ} (line : SizeLine n) (hn : n < 2 ^ 64) :
    chunkSize line.bytes = .ok n := by
  have hspec : ∀ d ∈ line.digits, _ := fun d hd => hexDigit_spec (line.digits_hex d hd)
  have htake : line.bytes.takeWhile (· ≠ 59) = line.digits := by
    have hext : (line.ext.elim [] (59 :: ·)).takeWhile (· ≠ 59) = [] := by
      cases line.ext <;> rfl
    rw [SizeLine.bytes, List.takeWhile_append_of_pos, hext, List.append_nil]
    intro d hd
    exact decide_eq_true (hspec d hd).2.1
  have hutf8 : ofUtf8 line.digits = some (line.digits.map ofByte) := by
    have h := ofUtf8_utf8 (line.digits.map ofByte)
    rwa [utf8_map_ofByte fun d hd => (hspec d hd).1] at h
  have htrim : trim (line.digits.map ofByte) = line.digits.map ofByte := by
    refine trim_eq_self fun c hc => ?_
    obtain ⟨d, hd, rfl⟩ := List.mem_map.mp hc
    exact (hspec d hd).2.2.2.2.1
  have hsign : unsigned (line.digits.map ofByte) = line.digits.map ofByte := by
    unfold unsigned
    split
    · next rest heq =>
      obtain ⟨d, hd, hplus⟩ := List.mem_map.mp
        (heq ▸ List.mem_cons_self : '+' ∈ line.digits.map ofByte)
      exact absurd hplus (hspec d hd).2.2.2.1
    · rfl
  have hne : line.digits.map ofByte ≠ [] := mt List.map_eq_nil_iff.mp line.digits_ne
  have hvalue : hexValue 0 line.digits < 2 ^ 64 := line.value_eq.symm ▸ hn
  unfold chunkSize
  rw [htake, hutf8]
  dsimp only
  rw [htrim, fromStrRadix, hsign, if_neg hne, foldl_hexStep line.digits_hex hvalue, line.value_eq]

theorem cut_crlf {t : Bytes} (ht : ¬crlf <:+: t) (rest : Bytes) :
    cut crlf (t ++ (crlf ++ rest)) = some (t, rest) := by
  cases hcut : cut crlf (t ++ (crlf ++ rest)) with
  | none => exact absurd ⟨t, rest, List.append_assoc ..⟩ (cut_eq_none_iff.mp hcut)
  | some found =>
    obtain ⟨s, u⟩ := found
    have heq := eq_of_cut hcut
    obtain ⟨w, rfl⟩ : s <+: t :=
      List.prefix_of_prefix_length_le ⟨_, heq.symm⟩ ⟨_, rfl⟩ (length_le_of_cut hcut rfl)
    rw [List.append_assoc, List.append_cancel_left_eq] at heq
    -- an end of line that begins before `rest` is in `t`, or begins with its last byte
    match w, heq with
    | [], heq =>
      have hrest : rest = u := List.append_cancel_left heq
      rw [List.append_nil, hrest]
    | [x], heq =>
      simp [crlf] at heq
    | x :: y :: w, heq =>
      obtain ⟨rfl, rfl, -⟩ : x = 13 ∧ y = 10 ∧ _ := by simpa [crlf] using heq
      exact absurd ⟨s, w, by simp [crlf]⟩ ht

theorem cut_crlf_take {t : Bytes} (ht : ¬crlf <:+: t) (rest : Bytes) {n : ℕ}
    (hn : n < t.length + 2) : cut crlf ((t ++ (crlf ++ rest)).take n) = none := by
  rw [cut_eq_none_iff]
  rintro ⟨u, v, huv⟩
  -- a whole end of line in `n` bytes is one at most at the end of `t`
  have hlen := congrArg List.length huv
  have hsplit : t ++ (crlf ++ rest) = u ++ (crlf ++ (v ++ (t ++ (crlf ++ rest)).drop n)) := by
    rw [← List.append_assoc crlf, ← List.append_assoc u, ← List.append_assoc u, huv,
      List.take_append_drop]
  have hle := length_le_of_cut (cut_crlf ht rest) hsplit
  have hcrlf : crlf.length = 2 := rfl
  rw [List.length_append, List.length_append, List.length_take] at hlen
  omega

theorem SizeLine.not_infix {n : ℕ} (line : SizeLine n) : ¬crlf <:+: line.bytes := by
  have hdigits : Avoids crlf line.digits :=
    avoids_of_not_mem fun h => (hexDigit_spec (line.digits_hex 13 h)).2.2.1 rfl
  rw [← cut_eq_none_iff, SizeLine.bytes, cut_avoids hdigits, Option.map_eq_none_iff]
  cases hext : line.ext with
  | none => rfl
  | some e =>
    have hsemi : Avoids crlf ([59] : Bytes) := avoids_of_not_mem (by decide)
    have hcut := cut_avoids hsemi e
    rw [cut_eq_none_iff.mpr (line.ext_clean e hext), Option.map_none] at hcut
    exact hcut

/-! #### Going through a framed body -/

theorem drop_add {raw p q : Bytes} {i : ℕ} (h : raw.drop i = p ++ q) :
    raw.drop (i + p.length) = q := by
  rw [← List.drop_drop, h, List.drop_left]

/-- The turn at a size line, whatever comes after it. -/
theorem turn_line (b : Build) {raw rest : Bytes} {i n : ℕ} (line : SizeLine n)
    (hraw : raw.length < 2 ^ 63) (hi : i ≤ raw.length)
    (h : raw.drop i = line.bytes ++ (crlf ++ rest)) (hn : n ≠ 0)
    (hsum : i + line.bytes.length + 2 + n < 2 ^ 64) :
    turn b raw i =
      if rest.length < n then .err (.badRequest "aws-chunked: truncated chunk")
      else .ok (some (rest.take n,
        i + line.bytes.length + 2 + n + if crlf <+: rest.drop n then 2 else 0)) := by
  rw [turn_eq b hraw hi, h, read, cut_crlf line.not_infix]
  dsimp only
  rw [line.chunkSize_eq (by omega)]
  dsimp only
  rw [if_neg hn, if_neg (Nat.not_le.mpr hsum)]

/-- The turn at the line with a size of zero. -/
theorem turn_last (b : Build) {raw rest : Bytes} {i : ℕ} (line : SizeLine 0)
    (hraw : raw.length < 2 ^ 63) (hi : i ≤ raw.length)
    (h : raw.drop i = line.bytes ++ (crlf ++ rest)) : turn b raw i = .ok none := by
  rw [turn_eq b hraw hi, h, read, cut_crlf line.not_infix]
  dsimp only
  rw [line.chunkSize_eq (Nat.two_pow_pos 64)]
  rfl

theorem body_cons (c : Chunk) (chunks : List Chunk) (last : SizeLine 0) :
    body (c :: chunks) last =
      c.line.bytes ++ (crlf ++ (c.data ++ (crlf ++ body chunks last))) := by
  simp only [body, Chunk.frame, List.flatMap_cons, List.append_assoc]

/-- **The loop puts out the chunks of a framed body.** -/
theorem loop_body (b : Build) {raw trailer : Bytes} (last : SizeLine 0)
    (hraw : raw.length < 2 ^ 63) :
    ∀ (chunks : List Chunk) {fuel i : ℕ} {out : Bytes}, i ≤ raw.length →
      raw.length - i < fuel → raw.drop i = body chunks last ++ trailer →
      loop b raw fuel i out = some (.ok (out ++ chunks.flatMap Chunk.data))
  | _, 0, _, _, _, hfuel, _ => absurd hfuel (Nat.not_lt_zero _)
  | [], fuel + 1, i, out, hi, _, h => by
    have hline : raw.drop i = last.bytes ++ (crlf ++ trailer) := by
      rw [h, body, List.flatMap_nil, List.nil_append, List.append_assoc]
    rw [loop, turn_last b last hraw hi hline, List.flatMap_nil, List.append_nil]
  | c :: chunks, fuel + 1, i, out, hi, hfuel, h => by
    have hline : raw.drop i = c.line.bytes ++
        (crlf ++ (c.data ++ (crlf ++ (body chunks last ++ trailer)))) := by
      rw [h, body_cons]
      simp only [List.append_assoc]
    have hlen := congrArg List.length hline
    have hcrlf : crlf.length = 2 := rfl
    simp only [List.length_drop, List.length_append, hcrlf] at hlen
    have hdata : c.data.length ≠ 0 := mt List.length_eq_zero_iff.mp c.data_ne
    have hnext : raw.drop (i + c.line.bytes.length + 2 + c.data.length + 2) =
        body chunks last ++ trailer := by
      rw [← hcrlf]
      exact drop_add (drop_add (drop_add (drop_add hline)))
    have hturn := turn_line b c.line hraw hi hline hdata (by omega)
    rw [if_neg (by simp), List.take_left, List.drop_left,
      if_pos (List.prefix_append crlf _)] at hturn
    have hloop : loop b raw fuel (i + c.line.bytes.length + 2 + c.data.length + 2)
        (out ++ c.data) = some (.ok (out ++ c.data ++ chunks.flatMap Chunk.data)) :=
      loop_body b last hraw chunks (by omega) (by omega) hnext
    rw [loop, hturn]
    dsimp only
    rw [hloop, List.flatMap_cons, List.append_assoc]

theorem loop_missing (b : Build) {raw out : Bytes} {fuel i : ℕ} (hraw : raw.length < 2 ^ 63)
    (hi : i ≤ raw.length) (hfuel : 0 < fuel) (h : cut crlf (raw.drop i) = none) :
    ∃ e, loop b raw fuel i out = some (.err e) := by
  obtain ⟨fuel, rfl⟩ := Nat.exists_eq_add_one.mpr hfuel
  rw [loop, turn_eq b hraw hi, read, h]
  exact ⟨_, rfl⟩

/-- **The loop rejects what a framed body begins with**, up to the end of the line of zero. -/
theorem loop_take_body (b : Build) {raw : Bytes} (last : SizeLine 0) (hraw : raw.length < 2 ^ 63) :
    ∀ (chunks : List Chunk) {fuel i n : ℕ} {out : Bytes}, i ≤ raw.length →
      raw.length - i < fuel → raw.drop i = (body chunks last).take n →
      n < (body chunks last).length → i + (body chunks last).length < 2 ^ 64 →
      ∃ e, loop b raw fuel i out = some (.err e)
  | _, 0, _, _, _, _, hfuel, _, _, _ => absurd hfuel (Nat.not_lt_zero _)
  | [], fuel + 1, i, n, out, hi, _, h, hn, _ => by
    have hbody : body [] last = last.bytes ++ (crlf ++ []) := by
      rw [body, List.flatMap_nil, List.nil_append, List.append_nil]
    rw [hbody] at h hn
    rw [List.append_nil, List.length_append] at hn
    exact loop_missing b hraw hi fuel.succ_pos (h ▸ cut_crlf_take last.not_infix [] hn)
  | c :: chunks, fuel + 1, i, n, out, hi, hfuel, h, hn, hsum => by
    have hcrlf : crlf.length = 2 := rfl
    have hdata : c.data.length ≠ 0 := mt List.length_eq_zero_iff.mp c.data_ne
    rw [body_cons] at h hn hsum
    simp only [List.length_append, hcrlf] at hn hsum
    by_cases hline : n < c.line.bytes.length + 2
    · exact loop_missing b hraw hi fuel.succ_pos (h ▸ cut_crlf_take c.line.not_infix _ hline)
    -- the size line is there
    obtain ⟨m, rfl⟩ := Nat.exists_eq_add_of_le (Nat.not_lt.mp hline)
    rw [Nat.add_assoc, List.take_length_add_append, ← hcrlf, List.take_length_add_append] at h
    have hturn := turn_line b c.line hraw hi h hdata (by omega)
    rw [loop]
    by_cases hchunk : m < c.data.length
    · rw [hturn, if_pos]
      · exact ⟨_, rfl⟩
      · rw [List.length_take]
        omega
    -- the chunk is there
    obtain ⟨k, rfl⟩ := Nat.exists_eq_add_of_le (Nat.not_lt.mp hchunk)
    rw [List.take_length_add_append] at h hturn
    rw [if_neg (by simp), List.take_left, List.drop_left] at hturn
    have hlen := congrArg List.length h
    simp only [List.length_drop, List.length_append, hcrlf] at hlen
    rw [hturn]
    dsimp only
    by_cases hend : k < 2
    · -- of the end of line after it there is at most one byte
      have hcut : cut crlf ((crlf ++ body chunks last).take k) = none :=
        cut_crlf_take (t := []) (by decide) _ hend
      have hno : ¬crlf <+: (crlf ++ body chunks last).take k :=
        fun hpre => cut_eq_none_iff.mp hcut hpre.isInfix
      rw [if_neg hno, Nat.add_zero]
      refine loop_missing b hraw (by omega) (by omega) ?_
      rw [← hcrlf, drop_add (drop_add (drop_add h)), hcut]
    · obtain ⟨l, rfl⟩ := Nat.exists_eq_add_of_le (Nat.not_lt.mp hend)
      rw [← hcrlf, List.take_length_add_append] at h hlen ⊢
      rw [if_pos (List.prefix_append crlf _)]
      simp only [List.length_append] at hlen
      exact loop_take_body b last hraw chunks (by omega) (by omega)
        (drop_add (drop_add (drop_add (drop_add h)))) (by omega) (by omega)

/-- **A framed body decodes to its chunks, and what it begins with does not decode.** The chunks
may be any bytes, ends of line and size lines included. A body is rejected if it stops before
the end of the line of zero; what comes after that is the trailer, which is ignored. -/
theorem decodeAwsChunked_body (b : Build) (chunks : List Chunk) (last : SizeLine 0)
    (trailer : Bytes) (hlen : (body chunks last ++ trailer).length < 2 ^ 63) :
    decodeAwsChunked b (body chunks last ++ trailer) = some (.ok (chunks.flatMap Chunk.data)) ∧
      ∀ n < (body chunks last).length,
        ∃ e, decodeAwsChunked b ((body chunks last ++ trailer).take n) = some (.err e) := by
  constructor
  · exact loop_body b last hlen chunks (Nat.zero_le _) (Nat.lt_succ_self _) List.drop_zero
  · intro n hn
    rw [List.length_append] at hlen
    rw [List.take_append_of_le_length hn.le]
    have hle : ((body chunks last).take n).length ≤ (body chunks last).length :=
      (List.take_prefix n _).length_le
    exact loop_take_body b last (by omega) chunks (Nat.zero_le _) (Nat.lt_succ_self _)
      List.drop_zero hn (by omega)

/-- A chunk that looks like an end of line and a size line, after the line `3;a`. -/
def sampleChunk : Chunk where
  data := [13, 10, 48]
  data_ne := List.cons_ne_nil _ _
  line := ⟨[51], some [97], List.cons_ne_nil _ _, by decide +kernel, rfl, by decide +kernel⟩

/-- The line `0`. -/
def sampleLast : SizeLine 0 :=
  ⟨[48], none, List.cons_ne_nil _ _, by decide +kernel, rfl, by decide +kernel⟩

/-- The chunk, framed, with a trailer. -/
theorem decodeAwsChunked_body_sample :
    body [sampleChunk] sampleLast ++ [120] =
      [51, 59, 97, 13, 10, 13, 10, 48, 13, 10, 48, 13, 10, 120] ∧
    decodeAwsChunked .checked (body [sampleChunk] sampleLast ++ [120]) =
      some (.ok ([sampleChunk].flatMap Chunk.data)) :=
  ⟨rfl, (decodeAwsChunked_body .checked [sampleChunk] sampleLast [120] (by decide +kernel)).1⟩

end AwsChunked

end OzoneRust
