import Mathlib.LinearAlgebra.Lagrange
import Mathlib.LinearAlgebra.Matrix.ToLinearEquiv

/-!
# Identity-over-Cauchy generators are maximum distance separable

A systematic erasure code takes `k` data words to themselves and to as many parity
words as there are rows below the identity. When the parity rows are *Cauchy* rows
– the entry at row `i` and column `j` is `(x i - x j)⁻¹`, for points `x` that are
distinct on all rows, data rows included – every choice of `k` distinct rows is
an invertible matrix (`OzoneRust.Cauchy.det_rows_ne_zero`): any `k` surviving words
determine the data.

The argument is interpolation, not a determinant formula. A vector in the kernel of
the chosen rows vanishes at the chosen data columns. On the remaining columns `E` the
parity rows say that a rational function with simple poles at the points of `E`
vanishes at as many points as there are poles; multiplied by its denominator it is a
polynomial of degree below `|E|` with `|E|` roots
(`OzoneRust.Cauchy.eq_zero_of_cauchy_sums`).
-/

namespace OzoneRust

namespace Cauchy

open Polynomial Finset

variable {F : Type*} [Field F]

/-! ### Sums of simple poles -/

section Poles

variable {ι κ : Type*} [DecidableEq ι]

/-- The numerator of `∑ j ∈ E, v j / (X - y j)` over the common denominator. -/
noncomputable def numerator (E : Finset ι) (y v : ι → F) : F[X] :=
  ∑ j ∈ E, C (v j) * Lagrange.nodal (E.erase j) y

theorem degree_numerator_lt (E : Finset ι) (y v : ι → F) :
    (numerator E y v).degree < (E.card : WithBot ℕ) := by
  rw [numerator]
  refine (Polynomial.degree_sum_le _ _).trans_lt ?_
  refine (Finset.sup_lt_iff (WithBot.bot_lt_coe _)).mpr fun j hj => ?_
  rw [← smul_eq_C_mul]
  refine (degree_smul_le _ _).trans_lt ?_
  rw [Lagrange.degree_nodal, card_erase_of_mem hj]
  have hpos : 0 < E.card := card_pos.mpr ⟨j, hj⟩
  exact_mod_cast Nat.sub_lt hpos one_pos

/-- Away from the poles, the numerator is the sum times the denominator. -/
theorem eval_numerator (E : Finset ι) (y v : ι → F) {x : F} (hx : ∀ j ∈ E, x ≠ y j) :
    (numerator E y v).eval x = (∑ j ∈ E, (x - y j)⁻¹ * v j) * ∏ l ∈ E, (x - y l) := by
  simp only [numerator, eval_finsetSum, eval_mul, eval_C, Lagrange.eval_nodal, sum_mul]
  refine sum_congr rfl fun j hj => ?_
  have hne : x - y j ≠ 0 := sub_ne_zero.mpr (hx j hj)
  rw [← mul_prod_erase E (fun l => x - y l) hj]
  field_simp

/-- At a pole, only the term of that pole is left of the numerator. -/
theorem eval_numerator_pole (E : Finset ι) (y v : ι → F) {j : ι} (hj : j ∈ E) :
    (numerator E y v).eval (y j) = v j * ∏ l ∈ E.erase j, (y j - y l) := by
  simp only [numerator, eval_finsetSum, eval_mul, eval_C, Lagrange.eval_nodal]
  refine sum_eq_single_of_mem j hj fun i _ hij => ?_
  have hji : j ∈ E.erase i := mem_erase.mpr ⟨hij.symm, hj⟩
  rw [prod_eq_zero hji (sub_self _), mul_zero]

/-- **A sum of simple poles that vanishes at as many points as it has poles is zero.** -/
theorem eq_zero_of_cauchy_sums {E : Finset ι} {R : Finset κ} {y v : ι → F} {x : κ → F}
    (hy : Set.InjOn y E) (hx : Set.InjOn x R) (hxy : ∀ a ∈ R, ∀ j ∈ E, x a ≠ y j)
    (hcard : E.card = R.card) (hsum : ∀ a ∈ R, ∑ j ∈ E, (x a - y j)⁻¹ * v j = 0)
    {j : ι} (hj : j ∈ E) : v j = 0 := by
  have hroots : numerator E y v = 0 := by
    refine eq_zero_of_degree_lt_of_eval_index_eq_zero R hx ?_ fun a ha => ?_
    · rw [← hcard]
      exact degree_numerator_lt E y v
    · rw [eval_numerator E y v (hxy a ha), hsum a ha, zero_mul]
  have hval := eval_numerator_pole E y v hj
  rw [hroots, eval_zero] at hval
  refine (mul_eq_zero.mp hval.symm).resolve_right (prod_ne_zero_iff.mpr fun l hl => ?_)
  refine sub_ne_zero.mpr fun hc => (mem_erase.mp hl).1 ?_
  exact (hy hj (mem_erase.mp hl).2 hc).symm

end Poles

/-! ### The generator -/

/-- The generator of the code: the identity on the first `k` rows, Cauchy rows below. -/
def gen (k : ℕ) (x : ℕ → F) (i j : ℕ) : F :=
  if i < k then (if i = j then 1 else 0) else (x i - x j)⁻¹

theorem gen_data {k : ℕ} (x : ℕ → F) {i : ℕ} (hi : i < k) (j : ℕ) :
    gen k x i j = if i = j then 1 else 0 := if_pos hi

theorem gen_parity {k : ℕ} (x : ℕ → F) {i : ℕ} (hi : k ≤ i) (j : ℕ) :
    gen k x i j = (x i - x j)⁻¹ := if_neg (by omega)

/-- The matrix of `k` chosen rows of the generator. -/
def rows {k : ℕ} (x : ℕ → F) (r : Fin k → ℕ) : Matrix (Fin k) (Fin k) F :=
  Matrix.of fun a j => gen k x (r a) j

section Rows

variable {k m : ℕ} {x : ℕ → F} {r : Fin k → ℕ}

/-- The columns not read verbatim by a chosen row are as many as the parity rows. -/
theorem card_columns_eq_card_parity (hr : Function.Injective r) :
    (univ.filter fun j : Fin k => ∀ a, r a ≠ j).card =
      (univ.filter fun a : Fin k => k ≤ r a).card := by
  -- the data rows are in bijection with the columns they read
  have hbij : (univ.filter fun a : Fin k => r a < k).card =
      (univ.filter fun j : Fin k => ∃ a, r a = j).card := by
    refine card_bij' (fun a _ => if h : r a < k then ⟨r a, h⟩ else a)
      (fun j _ => if h : ∃ a, r a = j then h.choose else j) ?_ ?_ ?_ ?_
    · intro a ha
      simp only [mem_filter, mem_univ, true_and] at ha ⊢
      exact ⟨a, by rw [dif_pos ha]⟩
    · intro j hj
      simp only [mem_filter, mem_univ, true_and] at hj ⊢
      rw [dif_pos hj, hj.choose_spec]
      exact j.isLt
    · intro a ha
      simp only [mem_filter, mem_univ, true_and] at ha
      have hex : ∃ a', r a' = ((⟨r a, ha⟩ : Fin k) : ℕ) := ⟨a, rfl⟩
      rw [dif_pos ha, dif_pos hex]
      exact hr hex.choose_spec
    · intro j hj
      simp only [mem_filter, mem_univ, true_and] at hj
      have hlt : r hj.choose < k := by
        rw [hj.choose_spec]
        exact j.isLt
      rw [dif_pos hj, dif_pos hlt]
      exact Fin.ext hj.choose_spec
  have hrow := card_filter_add_card_filter_not (s := (univ : Finset (Fin k))) fun a => r a < k
  have hcol := card_filter_add_card_filter_not (s := (univ : Finset (Fin k)))
    fun j => ∃ a, r a = j
  simp only [not_lt, not_exists, ← ne_eq] at hrow hcol
  omega

/-- **Any `k` distinct rows have a trivial kernel.** -/
theorem eq_zero_of_rows_mulVec (hx : Set.InjOn x (Set.Iio m)) (hk : k ≤ m)
    (hr : Function.Injective r) (hrm : ∀ a, r a < m) {v : Fin k → F}
    (hv : (rows x r).mulVec v = 0) : v = 0 := by
  have hrow : ∀ a, ∑ j : Fin k, gen k x (r a) j * v j = 0 := fun a => congrFun hv a
  -- a chosen data row reads its column, so the vector vanishes there
  have hread : ∀ j : Fin k, (∃ a, r a = j) → v j = 0 := by
    rintro j ⟨a, ha⟩
    have h := hrow a
    rw [sum_eq_single j] at h
    · rwa [gen_data x (by omega), if_pos ha, one_mul] at h
    · intro i _ hij
      have hne : r a ≠ i := fun hc => hij (Fin.ext (hc.symm.trans ha))
      rw [gen_data x (by omega), if_neg hne, zero_mul]
    · intro hj
      exact absurd (mem_univ j) hj
  funext j
  by_cases hj : ∃ a, r a = j
  · exact hread j hj
  · refine eq_zero_of_cauchy_sums (E := univ.filter fun j : Fin k => ∀ a, r a ≠ j)
      (R := univ.filter fun a : Fin k => k ≤ r a) (y := fun j => x j) (x := fun a => x (r a))
      ?_ ?_ ?_ (card_columns_eq_card_parity hr) ?_ ?_
    · intro i _ l _ hil
      exact Fin.ext (hx (by have := i.isLt; simp; omega) (by have := l.isLt; simp; omega) hil)
    · intro a _ b _ hab
      exact hr (hx (hrm a) (hrm b) hab)
    · intro a ha i _ hc
      have hka : k ≤ r a := (mem_filter.mp ha).2
      have := hx (hrm a) (by have := i.isLt; simp; omega) hc
      have := i.isLt
      omega
    · intro a ha
      have h := hrow a
      have hka : k ≤ r a := (mem_filter.mp ha).2
      rw [← sum_filter_add_sum_filter_not univ fun j : Fin k => ∀ a, r a ≠ j] at h
      rw [sum_eq_zero (s := univ.filter fun j : Fin k => ¬∀ a, r a ≠ j), add_zero] at h
      · rw [← h]
        exact sum_congr rfl fun i _ => by rw [gen_parity x hka]
      · intro i hi
        have hex : ∃ a, r a = i := by simpa using (mem_filter.mp hi).2
        rw [hread i hex, mul_zero]
    · simpa using hj

/-- **Any `k` distinct rows are invertible.** -/
theorem det_rows_ne_zero (hx : Set.InjOn x (Set.Iio m)) (hk : k ≤ m)
    (hr : Function.Injective r) (hrm : ∀ a, r a < m) : (rows x r).det ≠ 0 := by
  intro hdet
  obtain ⟨v, hne, hv⟩ := Matrix.exists_mulVec_eq_zero_iff.mpr hdet
  exact hne (eq_zero_of_rows_mulVec hx hk hr hrm hv)

end Rows

end Cauchy

end OzoneRust
