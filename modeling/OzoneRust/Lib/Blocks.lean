import Mathlib.Algebra.BigOperators.Group.Finset.Basic
import Mathlib.Algebra.Order.BigOperators.Group.Finset
import Mathlib.Data.List.GetD
import Mathlib.Tactic.Ring

/-!
# Lists cut into consecutive blocks

A list written as the blocks `f 0, f 1, …, f (n - 1)` one after the other, and what can be
read back from it: block `s` sits where the blocks before it end
(`OzoneRust.Blocks.take_drop_flatMap_range`), and when every block has `c` entries, entry
`j` of block `i` is entry `c * i + j` of the list (`OzoneRust.Blocks.getElem?_flatMap_range`).
The other way round, cutting a list every `c` entries and gluing the blocks gives the list
back (`OzoneRust.Blocks.flatMap_range_take_drop`).
-/

namespace OzoneRust

namespace Blocks

variable {α β : Type*}

/-! ### Gluing blocks -/

theorem flatMap_range_succ (f : ℕ → List α) (n : ℕ) :
    (List.range (n + 1)).flatMap f = (List.range n).flatMap f ++ f n := by
  simp [List.range_succ]

theorem length_flatMap_range (f : ℕ → List α) (n : ℕ) :
    ((List.range n).flatMap f).length = ∑ s ∈ Finset.range n, (f s).length := by
  induction n with
  | zero => simp
  | succ n ih => rw [flatMap_range_succ, List.length_append, ih, Finset.sum_range_succ]

/-- The blocks up to and including block `s` open the list. -/
theorem exists_flatMap_range_eq (f : ℕ → List α) {n s : ℕ} (hs : s < n) :
    ∃ rest, (List.range n).flatMap f = (List.range s).flatMap f ++ (f s ++ rest) := by
  induction n with
  | zero => omega
  | succ n ih =>
    rw [flatMap_range_succ]
    rcases Nat.lt_succ_iff_lt_or_eq.mp hs with hlt | rfl
    · obtain ⟨rest, hrest⟩ := ih hlt
      exact ⟨rest ++ f n, by rw [hrest]; simp⟩
    · exact ⟨[], by simp⟩

theorem length_add_le (f : ℕ → List α) {n s : ℕ} (hs : s < n) :
    ((List.range s).flatMap f).length + (f s).length ≤ ((List.range n).flatMap f).length := by
  obtain ⟨rest, hrest⟩ := exists_flatMap_range_eq f hs
  rw [hrest]
  simp only [List.length_append]
  omega

/-- **Block `s` starts where the blocks before it end.** -/
theorem take_drop_flatMap_range (f : ℕ → List α) {n s : ℕ} (hs : s < n) :
    (((List.range n).flatMap f).drop ((List.range s).flatMap f).length).take (f s).length =
      f s := by
  obtain ⟨rest, hrest⟩ := exists_flatMap_range_eq f hs
  rw [hrest, List.drop_left, List.take_left]

/-! ### Blocks of one size -/

theorem length_flatMap_range_const (f : ℕ → List α) {n c : ℕ} (h : ∀ s, s < n → (f s).length = c) :
    ((List.range n).flatMap f).length = n * c := by
  rw [length_flatMap_range, Finset.sum_congr rfl fun s hs => h s (Finset.mem_range.mp hs)]
  simp

/-- Rows of one length, one after the other. -/
theorem length_flatten_of_forall₂ {l : List β} {rows : List (List α)} {c : ℕ}
    (h : List.Forall₂ (fun _ row => row.length = c) l rows) :
    rows.flatten.length = l.length * c := by
  induction h with
  | nil => simp
  | cons hrow _ ih => rw [List.flatten_cons, List.length_append, hrow, ih, List.length_cons,
      Nat.succ_mul, Nat.add_comm]

/-- **Entry `j` of block `i`.** -/
theorem getElem?_flatMap_range (f : ℕ → List α) {n c i j : ℕ} (h : ∀ s, s < n → (f s).length = c)
    (hi : i < n) (hj : j < c) : ((List.range n).flatMap f)[c * i + j]? = (f i)[j]? := by
  obtain ⟨rest, hrest⟩ := exists_flatMap_range_eq f hi
  have hlen : ((List.range i).flatMap f).length = c * i := by
    rw [length_flatMap_range_const f fun s hs => h s (by omega), Nat.mul_comm]
  rw [hrest, List.getElem?_append_right (by omega), hlen, Nat.add_sub_cancel_left,
    List.getElem?_append_left (by rw [h i hi]; exact hj)]

/-! ### Cutting a list -/

/-- **Cutting every `c` entries and gluing.** -/
theorem flatMap_range_take_drop (l : List α) (n c : ℕ) :
    ((List.range n).flatMap fun i => (l.drop (i * c)).take c) = l.take (n * c) := by
  induction n with
  | zero => simp
  | succ n ih => rw [flatMap_range_succ, ih, Nat.succ_mul, List.take_add]

/-- Consecutive runs of `n` entries, the last one shorter: the `chunks` of a Rust slice. -/
def chunks (n : ℕ) (l : List α) : List (List α) :=
  (List.range ((l.length + n - 1) / n)).map fun i => (l.drop (i * n)).take n

/-- The runs, one after the other, are the list. -/
theorem flatten_chunks {n : ℕ} (h : 0 < n) (l : List α) : (chunks n l).flatten = l := by
  rw [chunks, ← List.flatMap_def, flatMap_range_take_drop]
  have hdiv := Nat.div_add_mod (l.length + n - 1) n
  have hmod := Nat.mod_lt (l.length + n - 1) h
  rw [Nat.mul_comm] at hdiv
  exact List.take_of_length_le (by omega)

theorem length_le_of_mem_chunks {n : ℕ} {l c : List α} (h : c ∈ chunks n l) :
    c.length ≤ l.length := by
  obtain ⟨i, -, rfl⟩ := List.mem_map.mp h
  rw [List.length_take, List.length_drop]
  omega

/-- Reading `c` entries of a shorter list, with a default past its end, pads it. -/
theorem map_range_getD (l : List α) (d : α) {c : ℕ} (h : l.length ≤ c) :
    ((List.range c).map fun pos => l.getD pos d) = l ++ List.replicate (c - l.length) d := by
  apply List.ext_getElem
  · simp only [List.length_map, List.length_range, List.length_append, List.length_replicate]
    omega
  · intro pos h₁ h₂
    rw [List.getElem_map, List.getElem_range, List.getElem_append]
    split
    · exact List.getD_eq_getElem _ _ _
    · rw [List.getElem_replicate]
      exact List.getD_eq_default _ _ (by omega)

theorem map_range_getD_length (l : List α) (d : α) :
    ((List.range l.length).map fun pos => l.getD pos d) = l := by
  rw [map_range_getD l d le_rfl, Nat.sub_self, List.replicate_zero, List.append_nil]

/-- The positions at which a list has an element of a kind. -/
theorem length_filter_range_getD {α : Type} (l : List α) (d : α) (p : α → Bool) :
    ((List.range l.length).filter fun i => p (l.getD i d)).length = l.countP p := by
  conv_rhs => rw [← map_range_getD_length l d, List.countP_map]
  rw [List.countP_eq_length_filter]
  rfl

/-- Lists whose elements are of a kind alike have as many of it. -/
theorem countP_eq_of_forall₂ {α β : Type} {R : α → β → Prop} {p : α → Bool} {q : β → Bool}
    (h : ∀ a b, R a b → q b = p a) {l : List α} {l' : List β} (hl : List.Forall₂ R l l') :
    l'.countP q = l.countP p := by
  induction hl with
  | nil => rfl
  | cons hab _ ih => rw [List.countP_cons, List.countP_cons, ih, h _ _ hab]

/-! ### Running along the blocks -/

/-- Appending one more block to each of `k` lists of blocks. -/
theorem zipWith_append_map_range (f : ℕ → ℕ → List α) (k s : ℕ) :
    List.zipWith (· ++ ·) ((List.range k).map fun i => (List.range s).flatMap (f i))
        ((List.range k).map fun i => f i s) =
      (List.range k).map fun i => (List.range (s + 1)).flatMap (f i) := by
  rw [List.zipWith_map, List.zipWith_self]
  simp only [flatMap_range_succ]

/-- Updating, one after the other, the entries at the positions of a duplicate-free list. -/
theorem foldl_modify_map_range (u : ℕ → α → α) (k : ℕ) : ∀ (l : List ℕ) (g : ℕ → α), l.Nodup →
    l.foldl (fun acc i => acc.modify i (u i)) ((List.range k).map g) =
      (List.range k).map fun i => if i ∈ l then u i (g i) else g i
  | [], g, _ => by simp
  | a :: l, g, hl => by
    obtain ⟨ha, hl⟩ := List.nodup_cons.mp hl
    have hfirst : ((List.range k).map g).modify a (u a) =
        (List.range k).map fun i => if i = a then u i (g i) else g i := by
      refine List.ext_getElem (by simp) fun i h₁ h₂ => ?_
      rw [List.getElem_modify]
      simp only [List.getElem_map, List.getElem_range, eq_comm (a := i)]
      split
      case isTrue h => rw [h]
      case isFalse => rfl
    rw [List.foldl_cons, hfirst, foldl_modify_map_range u k l _ hl]
    refine List.map_congr_left fun i _ => ?_
    by_cases hia : i = a
    · rw [if_neg (hia ▸ ha), if_pos hia, if_pos (by simp [hia])]
    · simp [hia]

/-- Appending parts to some of the buffers: each grows by its own part. -/
theorem length_getD_foldl_modify {n : ℕ → ℕ} {i : ℕ} : ∀ (parts : List (ℕ × List α))
    (bufs : List (List α)), (parts.map Prod.fst).Nodup →
    (∀ part ∈ parts, part.2.length = n part.1) → i < bufs.length →
    ((parts.foldl (fun bufs part => bufs.modify part.1 (· ++ part.2)) bufs).getD i []).length =
      (bufs.getD i []).length + if i ∈ parts.map Prod.fst then n i else 0
  | [], bufs, _, _, _ => by simp
  | part :: parts, bufs, hnodup, hlen, hi => by
    obtain ⟨hnot, hnodup⟩ := List.nodup_cons.mp hnodup
    rw [List.foldl_cons, length_getD_foldl_modify parts _ hnodup
      (fun part' h => hlen part' (by simp [h])) (by simpa using hi)]
    by_cases hpi : part.1 = i
    · subst hpi
      rw [if_neg hnot, List.map_cons, if_pos List.mem_cons_self, ← hlen part (by simp)]
      simp [List.getD_eq_getElem?_getD, hi]
    · have hmem : i ∈ (part :: parts).map Prod.fst ↔ i ∈ parts.map Prod.fst := by
        simp [Ne.symm hpi]
      simp only [hmem, List.getD_eq_getElem?_getD, List.getElem?_modify, if_neg hpi, id_map']

theorem length_foldl_modify (parts : List (ℕ × List α)) (bufs : List (List α)) :
    (parts.foldl (fun bufs part => bufs.modify part.1 (· ++ part.2)) bufs).length =
      bufs.length := by
  induction parts generalizing bufs with
  | nil => rfl
  | cons part parts ih => rw [List.foldl_cons, ih, List.length_modify]

end Blocks

end OzoneRust
