import Mathlib.Algebra.Field.Basic
import Mathlib.Tactic.Ring

/-!
# The field of 256 elements, modulo `0x11D`

Bytes read as polynomials over `GF(2)`, multiplied modulo
`x⁸ + x⁴ + x³ + x² + 1`. Addition is the exclusive or; multiplication is the
schoolbook one, a shift and a conditional reduction per bit of the second factor
(`OzoneRust.Gf256.mulByte`).

The field laws are not checked on all triples of bytes – there are sixteen
million. The product is *additive* in each factor
(`OzoneRust.Gf256.mulByte_xor_left`, `OzoneRust.Gf256.mulByte_xor_right`), and an
additive function of a byte is determined by its values on the eight one-bit
bytes (`OzoneRust.Gf256.additive_ext`), so commutativity and associativity come
down to 64 and 512 evaluations.
-/

namespace OzoneRust

/-- An element of the field of 256 elements, held as a byte. -/
structure Gf256 where
  /-- The coefficients of the residue, the constant one lowest. -/
  byte : UInt8
  deriving DecidableEq, Repr

namespace Gf256

/-! ### The product of two bytes -/

/-- Multiplication by `x`: shift, and reduce by `0x11D` if the top bit falls
out. -/
def xtime (a : UInt8) : UInt8 :=
  (a <<< 1) ^^^ (if a.toBitVec.getLsbD 7 then 0x1D else 0)

/-- The product of `a` with the low `n` bits of `b`. -/
def mulBits : ℕ → UInt8 → UInt8 → UInt8
  | 0, _, _ => 0
  | n + 1, a, b => (if b.toBitVec.getLsbD 0 then a else 0) ^^^ mulBits n (xtime a) (b >>> 1)

/-- The product of two bytes, as polynomials modulo `0x11D`. -/
def mulByte (a b : UInt8) : UInt8 := mulBits 8 a b

/-! ### Additivity in each factor -/

theorem xor_xor_xor_comm (a b c d : UInt8) :
    (a ^^^ b) ^^^ (c ^^^ d) = (a ^^^ c) ^^^ (b ^^^ d) := by
  rw [UInt8.xor_assoc, UInt8.xor_assoc, ← UInt8.xor_assoc b, UInt8.xor_comm b c,
    UInt8.xor_assoc]

theorem xtime_xor (a b : UInt8) : xtime (a ^^^ b) = xtime a ^^^ xtime b := by
  unfold xtime
  rw [UInt8.shiftLeft_xor, xor_xor_xor_comm (a <<< 1)]
  congr 1
  simp only [UInt8.toBitVec_xor, BitVec.getLsbD_xor]
  cases a.toBitVec.getLsbD 7 <;> cases b.toBitVec.getLsbD 7 <;> simp

theorem mulBits_xor_left (n : ℕ) (a a' b : UInt8) :
    mulBits n (a ^^^ a') b = mulBits n a b ^^^ mulBits n a' b := by
  induction n generalizing a a' b with
  | zero => simp [mulBits]
  | succ n ih =>
    rw [mulBits, mulBits, mulBits, xtime_xor, ih, xor_xor_xor_comm]
    congr 1
    cases b.toBitVec.getLsbD 0 <;> simp

theorem mulBits_xor_right (n : ℕ) (a b b' : UInt8) :
    mulBits n a (b ^^^ b') = mulBits n a b ^^^ mulBits n a b' := by
  induction n generalizing a b b' with
  | zero => simp [mulBits]
  | succ n ih =>
    rw [mulBits, mulBits, mulBits, UInt8.shiftRight_xor, ih, xor_xor_xor_comm]
    congr 1
    simp only [UInt8.toBitVec_xor, BitVec.getLsbD_xor]
    cases b.toBitVec.getLsbD 0 <;> cases b'.toBitVec.getLsbD 0 <;> simp

theorem mulByte_xor_left (a a' b : UInt8) :
    mulByte (a ^^^ a') b = mulByte a b ^^^ mulByte a' b :=
  mulBits_xor_left 8 a a' b

theorem mulByte_xor_right (a b b' : UInt8) :
    mulByte a (b ^^^ b') = mulByte a b ^^^ mulByte a b' :=
  mulBits_xor_right 8 a b b'

/-! ### Additive functions of a byte -/

/-- The part of `x` at bit `i`. -/
def bitPart (x : UInt8) (i : ℕ) : UInt8 :=
  if x.toBitVec.getLsbD i then UInt8.ofNat (2 ^ i) else 0

/-- A statement about every byte, checked on the 256 of them. -/
theorem forall_byte {P : UInt8 → Prop} (h : ∀ n, n < 256 → P (UInt8.ofNat n)) (x : UInt8) :
    P x := by
  have hx := h x.toNat x.toNat_lt
  rwa [UInt8.ofNat_toNat] at hx

/-- A byte is the sum of its bits. -/
theorem eq_xor_bitPart (x : UInt8) :
    x = bitPart x 0 ^^^ bitPart x 1 ^^^ bitPart x 2 ^^^ bitPart x 3 ^^^ bitPart x 4 ^^^
      bitPart x 5 ^^^ bitPart x 6 ^^^ bitPart x 7 := by
  revert x
  exact forall_byte (by decide +kernel)

/-- **Additive functions agree once they agree on the one-bit bytes.** -/
theorem additive_ext {f g : UInt8 → UInt8} (hf : ∀ a b, f (a ^^^ b) = f a ^^^ f b)
    (hg : ∀ a b, g (a ^^^ b) = g a ^^^ g b)
    (h : ∀ i, i < 8 → f (UInt8.ofNat (2 ^ i)) = g (UInt8.ofNat (2 ^ i))) (x : UInt8) :
    f x = g x := by
  have hf0 : f 0 = 0 := by simpa using hf 0 0
  have hg0 : g 0 = 0 := by simpa using hg 0 0
  have hpart : ∀ i, i < 8 → f (bitPart x i) = g (bitPart x i) := by
    intro i hi
    unfold bitPart
    split
    · exact h i hi
    · rw [hf0, hg0]
  rw [eq_xor_bitPart x]
  simp only [hf, hg]
  rw [hpart 0 (by omega), hpart 1 (by omega), hpart 2 (by omega), hpart 3 (by omega),
    hpart 4 (by omega), hpart 5 (by omega), hpart 6 (by omega), hpart 7 (by omega)]

/-! ### The field laws -/

theorem mulByte_comm (a b : UInt8) : mulByte a b = mulByte b a := by
  refine additive_ext (f := fun a => mulByte a b) (g := fun a => mulByte b a)
    (fun x y => mulByte_xor_left x y b) (fun x y => mulByte_xor_right b x y) (fun i hi => ?_) a
  refine additive_ext (f := fun b => mulByte (UInt8.ofNat (2 ^ i)) b)
    (g := fun b => mulByte b (UInt8.ofNat (2 ^ i)))
    (fun x y => mulByte_xor_right _ x y) (fun x y => mulByte_xor_left x y _) (fun j hj => ?_) b
  revert i j
  decide +kernel

theorem mulByte_assoc (a b c : UInt8) :
    mulByte (mulByte a b) c = mulByte a (mulByte b c) := by
  -- both sides are additive in each of the three factors, so one-bit factors suffice
  refine additive_ext (f := fun a => mulByte (mulByte a b) c)
    (g := fun a => mulByte a (mulByte b c)) (fun x y => ?_) (fun x y => ?_) (fun i hi => ?_) a
  · simp only [mulByte_xor_left]
  · simp only [mulByte_xor_left]
  refine additive_ext (f := fun b => mulByte (mulByte (UInt8.ofNat (2 ^ i)) b) c)
    (g := fun b => mulByte (UInt8.ofNat (2 ^ i)) (mulByte b c))
    (fun x y => ?_) (fun x y => ?_) (fun j hj => ?_) b
  · simp only [mulByte_xor_left, mulByte_xor_right]
  · simp only [mulByte_xor_left, mulByte_xor_right]
  refine additive_ext
    (f := fun c => mulByte (mulByte (UInt8.ofNat (2 ^ i)) (UInt8.ofNat (2 ^ j))) c)
    (g := fun c => mulByte (UInt8.ofNat (2 ^ i)) (mulByte (UInt8.ofNat (2 ^ j)) c))
    (fun x y => ?_) (fun x y => ?_) (fun l hl => ?_) c
  · simp only [mulByte_xor_right]
  · simp only [mulByte_xor_right]
  revert i j l
  decide +kernel

theorem one_mulByte (a : UInt8) : mulByte 1 a = a := by
  revert a
  exact forall_byte (by decide +kernel)

theorem mulByte_zero (a : UInt8) : mulByte a 0 = 0 := by
  simpa using mulByte_xor_right a 0 0

/-! ### The field -/

instance : Zero Gf256 := ⟨⟨0⟩⟩
instance : One Gf256 := ⟨⟨1⟩⟩
instance : Add Gf256 := ⟨fun a b => ⟨a.byte ^^^ b.byte⟩⟩
instance : Neg Gf256 := ⟨fun a => a⟩
instance : Sub Gf256 := ⟨fun a b => ⟨a.byte ^^^ b.byte⟩⟩
instance : Mul Gf256 := ⟨fun a b => ⟨mulByte a.byte b.byte⟩⟩

@[ext] theorem ext {a b : Gf256} (h : a.byte = b.byte) : a = b := by
  cases a
  cases b
  exact congrArg mk h

@[simp] theorem byte_zero : (0 : Gf256).byte = 0 := rfl

@[simp] theorem byte_one : (1 : Gf256).byte = 1 := rfl

@[simp] theorem byte_add (a b : Gf256) : (a + b).byte = a.byte ^^^ b.byte := rfl

@[simp] theorem byte_mul (a b : Gf256) : (a * b).byte = mulByte a.byte b.byte := rfl

theorem add_self_eq_zero (a : Gf256) : a + a = 0 := ext UInt8.xor_self

instance : CommRing Gf256 where
  add_assoc a b c := ext (UInt8.xor_assoc _ _ _)
  zero_add a := ext UInt8.zero_xor
  add_zero a := ext UInt8.xor_zero
  add_comm a b := ext (UInt8.xor_comm _ _)
  neg_add_cancel a := add_self_eq_zero a
  sub_eq_add_neg _ _ := rfl
  mul_assoc a b c := ext (mulByte_assoc _ _ _)
  mul_comm a b := ext (mulByte_comm _ _)
  one_mul a := ext (one_mulByte _)
  mul_one a := ext ((mulByte_comm _ _).trans (one_mulByte _))
  left_distrib a b c := ext (mulByte_xor_right _ _ _)
  right_distrib a b c := ext (mulByte_xor_left _ _ _)
  zero_mul a := ext ((mulByte_comm _ _).trans (mulByte_zero _))
  mul_zero a := ext (mulByte_zero _)
  nsmul := nsmulRec
  zsmul := zsmulRec

/-! ### Inverses

The inverse of an element is its 254th power. Squaring eight times is the identity, so
the 255th power of an element is idempotent, and the only idempotents are `0` and `1`. -/

instance : Inv Gf256 := ⟨fun a => a ^ 254⟩

theorem inv_eq_pow (a : Gf256) : a⁻¹ = a ^ 254 := rfl

theorem add_sq (a b : Gf256) : (a + b) ^ 2 = a ^ 2 + b ^ 2 := by
  have h : a * b + a * b = 0 := add_self_eq_zero (a * b)
  calc (a + b) ^ 2 = a ^ 2 + b ^ 2 + (a * b + a * b) := by ring
    _ = a ^ 2 + b ^ 2 := by rw [h, add_zero]

theorem add_pow_two_pow (n : ℕ) (a b : Gf256) :
    (a + b) ^ 2 ^ n = a ^ 2 ^ n + b ^ 2 ^ n := by
  induction n with
  | zero => simp
  | succ n ih => rw [pow_succ, pow_mul, ih, add_sq, ← pow_mul, ← pow_mul]

theorem byte_pow_two_pow (n : ℕ) (a : Gf256) :
    (a ^ 2 ^ n).byte = (fun x => mulByte x x)^[n] a.byte := by
  induction n generalizing a with
  | zero => simp
  | succ n ih =>
    rw [pow_succ', pow_mul, ih, Function.iterate_succ_apply, pow_two]
    rfl

/-- Squaring eight times is the identity: it is additive, and it fixes the one-bit
bytes. -/
theorem pow_256 (a : Gf256) : a ^ 256 = a := by
  refine ext ?_
  change (a ^ 2 ^ 8).byte = a.byte
  refine additive_ext (f := fun x => ((⟨x⟩ : Gf256) ^ 2 ^ 8).byte) (g := fun x => x)
    (fun x y => congrArg byte (add_pow_two_pow 8 ⟨x⟩ ⟨y⟩)) (fun _ _ => rfl) (fun i hi => ?_) a.byte
  rw [byte_pow_two_pow]
  revert i
  decide +kernel

theorem eq_zero_or_one_of_mul_self {e : Gf256} (h : e * e = e) : e = 0 ∨ e = 1 := by
  have hbyte : ∀ x : UInt8, mulByte x x = x → x = 0 ∨ x = 1 := forall_byte (by decide +kernel)
  rcases hbyte e.byte (congrArg byte h) with h0 | h1
  · exact Or.inl (ext h0)
  · exact Or.inr (ext h1)

theorem mul_inv_self {a : Gf256} (h : a ≠ 0) : a * a⁻¹ = 1 := by
  have h255 : a * a⁻¹ = a ^ 255 := by
    rw [inv_eq_pow]
    ring
  have hidem : a ^ 255 * a ^ 255 = a ^ 255 := by
    calc a ^ 255 * a ^ 255 = a ^ 256 * a ^ 254 := by ring
      _ = a * a ^ 254 := by rw [pow_256]
      _ = a ^ 255 := by ring
  rcases eq_zero_or_one_of_mul_self hidem with h0 | h1
  · refine absurd ?_ h
    calc a = a ^ 256 := (pow_256 a).symm
      _ = a * a ^ 255 := by ring
      _ = 0 := by rw [h0, mul_zero]
  · rw [h255, h1]

instance : Field Gf256 where
  exists_pair_ne := ⟨0, 1, by decide⟩
  mul_inv_cancel _ h := mul_inv_self h
  inv_zero := zero_pow (by decide)
  nnqsmul := _
  nnqsmul_def _ _ := rfl
  qsmul := _
  qsmul_def _ _ := rfl

end Gf256

end OzoneRust
