import Mathlib.LinearAlgebra.Matrix.NonsingularInverse
import OzoneRust.Ec.Coder

/-!
# A reference ISA-L

The functions of ISA-L written from what they are for: the generator from its formula, the
inversion through the adjugate, the kernel as the matrix product over the field, with the
coefficients themselves for tables. It does what the coder relies on
(`OzoneRust.IsaL.reference_correct`), so the hypotheses of `OzoneRust.IsaL.Correct` hold
together, and statements made under them can be run.
-/

namespace OzoneRust

namespace IsaL

/-- A square matrix as a buffer, row by row. -/
def ofMatrix {n : ℕ} (M : Matrix (Fin n) (Fin n) Gf256) : Bytes :=
  (List.range n).flatMap fun i => (List.range n).map fun j =>
    if h : i < n ∧ j < n then (M ⟨i, h.1⟩ ⟨j, h.2⟩).byte else 0

theorem length_ofMatrix {n : ℕ} (M : Matrix (Fin n) (Fin n) Gf256) :
    (ofMatrix M).length = n * n :=
  Blocks.length_flatMap_range_const _ fun i _ => by simp

theorem toMatrix_ofMatrix {n : ℕ} (M : Matrix (Fin n) (Fin n) Gf256) :
    toMatrix n (ofMatrix M) = M := by
  ext i j
  rw [toMatrix, Matrix.of_apply, List.getD_eq_getElem?_getD, ofMatrix,
    Blocks.getElem?_flatMap_range _ (fun i _ => by simp) i.isLt j.isLt]
  simp

/-- ISA-L, from what its functions are for. -/
def reference : IsaL where
  gfGenCauchy1Matrix m k := cauchyMatrix m.toNat k.toNat
  gfInvertMatrix input n :=
    let M := toMatrix n.toNat input
    if M.det = 0 then none else some (ofMatrix (M.det⁻¹ • M.adjugate))
  gfMul a b := ((⟨a⟩ : Gf256) * ⟨b⟩).byte
  ecInitTables _ _ a := a
  ecEncodeData len k rows gTbls data _ := product len.toNat k.toNat rows.toNat gTbls data

/-- **The reference does what the coder relies on.** -/
theorem reference_correct : reference.Correct where
  cauchy _ _ _ _ := rfl
  invert n a _ hdet := by
    refine ⟨ofMatrix ((toMatrix n a).det⁻¹ • (toMatrix n a).adjugate), if_neg hdet,
      length_ofMatrix _, ?_⟩
    rw [toMatrix_ofMatrix, Matrix.smul_mul, Matrix.adjugate_mul, smul_smul]
    exact (congrArg (· • 1) (inv_mul_cancel₀ hdet)).trans (one_smul _ _)
  encode _ _ _ _ _ _ _ _ _ _ _ _ := rfl

theorem reference_mulCorrect : reference.MulCorrect := fun _ _ => rfl

end IsaL

end OzoneRust
