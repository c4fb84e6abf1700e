import Mathlib.Data.List.Nodup
import Mathlib.Order.Lattice

/-!
# Pages with a coarse cursor

A list is read page by page. A page is what comes from a cursor on, cut at a limit, and the
cursor for the next page is the key of the first element that was cut off. Where keys repeat
the cursor is coarse: the next page begins at the first element with that key, which may be
on the page before.

`OzoneRust.Paging.walk_eq_some_iff` says when reading to the end gives every element once:
exactly when no page boundary separates two elements with the same key
(`OzoneRust.Paging.Aligned`).
-/

namespace OzoneRust.Paging

variable {α κ : Type} [LinearOrder κ] (key : α → κ) (limit : ℕ) (L : List α)

/-- What comes from a cursor on. -/
def rest (c : κ) : List α := L.filter fun a => c ≤ key a

/-- The page at a cursor. -/
def page (c : κ) : List α := (rest key L c).take limit

/-- The cursor of the next page, if there is one. -/
def next (c : κ) : Option κ := ((rest key L c)[limit]?).map key

/-- The pages from a cursor on, one after the other; `none` if that takes more steps. -/
def walk : ℕ → κ → Option (List α)
  | 0, _ => none
  | fuel + 1, c =>
    match next key limit L c with
    | none => some (page key limit L c)
    | some c' => (walk fuel c').map (page key limit L c ++ ·)

/-- No page boundary separates two elements with the same key. -/
def Aligned (R : List α) : Prop :=
  ∀ j a b, R[(j + 1) * limit - 1]? = some a → R[(j + 1) * limit]? = some b → key a ≠ key b

variable {key limit L}

theorem rest_cons_of_lt {c : κ} {a : α} (h : key a < c) : rest key (a :: L) c = rest key L c := by
  simp [rest, h]

theorem rest_cons_of_le {c : κ} {a : α} (h : c ≤ key a) :
    rest key (a :: L) c = a :: rest key L c := by
  simp [rest, h]

omit [LinearOrder κ] in
theorem aligned_of_length_le {R : List α} (h : R.length ≤ limit) : Aligned key limit R := by
  intro j a b _ hb
  have hlt := (List.getElem?_eq_some_iff.mp hb).1
  have hle : limit ≤ (j + 1) * limit := Nat.le_mul_of_pos_left _ (Nat.succ_pos j)
  omega

omit [LinearOrder κ] in
/-- The first boundary, and those of what is left. -/
theorem aligned_iff (hlimit : 1 ≤ limit) {R : List α} : Aligned key limit R ↔
    (∀ a b, R[limit - 1]? = some a → R[limit]? = some b → key a ≠ key b) ∧
      Aligned key limit (R.drop limit) := by
  have hsub : ∀ j, limit + ((j + 1) * limit - 1) = (j + 1 + 1) * limit - 1 := by
    intro j
    rw [Nat.succ_mul (j + 1)]
    have hle : limit ≤ (j + 1) * limit := Nat.le_mul_of_pos_left _ (Nat.succ_pos j)
    omega
  have hadd : ∀ j, limit + (j + 1) * limit = (j + 1 + 1) * limit := by
    intro j
    rw [Nat.succ_mul (j + 1), Nat.add_comm]
  constructor
  · intro h
    refine ⟨fun a b ha hb => h 0 a b (by simpa using ha) (by simpa using hb), fun j a b ha hb => ?_⟩
    rw [List.getElem?_drop, hsub] at ha
    rw [List.getElem?_drop, hadd] at hb
    exact h (j + 1) a b ha hb
  · rintro ⟨h₀, h⟩ j a b ha hb
    cases j with
    | zero => exact h₀ a b (by simpa using ha) (by simpa using hb)
    | succ j =>
      refine h j a b ?_ ?_
      · rw [List.getElem?_drop, hsub]
        exact ha
      · rw [List.getElem?_drop, hadd]
        exact hb

theorem rest_eq_filter {c : κ} {i : ℕ} {b : α} (hb : (rest key L c)[i]? = some b) :
    rest key L (key b) = (rest key L c).filter fun a => key b ≤ key a := by
  have hc : c ≤ key b := by simpa using (List.mem_filter.mp (List.mem_of_getElem? hb)).2
  rw [rest, rest, List.filter_filter]
  refine List.filter_congr fun a _ => ?_
  by_cases h : key b ≤ key a
  · simp [h, hc.trans h]
  · simp [h]

section Sorted

variable (hL : L.Pairwise fun a b => key a ≤ key b)

include hL

theorem key_le_of_rest {c : κ} {i j : ℕ} {a b : α} (hij : i ≤ j)
    (ha : (rest key L c)[i]? = some a) (hb : (rest key L c)[j]? = some b) : key a ≤ key b := by
  obtain ⟨hi, rfl⟩ := List.getElem?_eq_some_iff.mp ha
  obtain ⟨hj, rfl⟩ := List.getElem?_eq_some_iff.mp hb
  rcases Nat.eq_or_lt_of_le hij with rfl | hlt
  · exact le_rfl
  · exact List.pairwise_iff_getElem.mp (hL.filter _) i j hi hj hlt

/-- **A boundary between two keys cuts the list in two.** -/
theorem rest_next {c : κ} {b : α} (hb : (rest key L c)[limit]? = some b)
    (hne : ∀ a, (rest key L c)[limit - 1]? = some a → key a ≠ key b) :
    rest key L (key b) = (rest key L c).drop limit := by
  have htake : ((rest key L c).take limit).filter (fun a => key b ≤ key a) = [] := by
    refine List.filter_eq_nil_iff.mpr fun a ha => ?_
    obtain ⟨i, hi, rfl⟩ := List.mem_iff_getElem.mp ha
    have hi' := hi
    rw [List.length_take] at hi'
    have hpos := (List.getElem?_eq_some_iff.mp hb).1
    have hlast : limit - 1 < (rest key L c).length := by omega
    rw [List.getElem_take, decide_eq_true_eq, not_le]
    have h₁ := key_le_of_rest hL (show i ≤ limit - 1 by omega)
      (List.getElem?_eq_getElem (by omega)) (List.getElem?_eq_getElem hlast)
    have h₂ := key_le_of_rest hL (Nat.sub_le limit 1) (List.getElem?_eq_getElem hlast) hb
    exact h₁.trans_lt (lt_of_le_of_ne h₂ (hne _ (List.getElem?_eq_getElem hlast)))
  have hdrop : ((rest key L c).drop limit).filter (fun a => key b ≤ key a) =
      (rest key L c).drop limit := by
    refine List.filter_eq_self.mpr fun a ha => ?_
    obtain ⟨i, hi⟩ := List.mem_iff_getElem?.mp ha
    rw [List.getElem?_drop] at hi
    exact decide_eq_true (key_le_of_rest hL (Nat.le_add_right limit i) hb hi)
  rw [rest_eq_filter hb]
  nth_rewrite 1 [← List.take_append_drop limit (rest key L c)]
  rw [List.filter_append, htake, hdrop, List.nil_append]

/-- Aligned pages give everything. -/
theorem walk_of_aligned (hlimit : 1 ≤ limit) : ∀ (fuel : ℕ) (c : κ),
    (rest key L c).length < fuel → Aligned key limit (rest key L c) →
    walk key limit L fuel c = some (rest key L c)
  | 0, _, hlt, _ => by omega
  | fuel + 1, c, hlt, h => by
    rw [walk]
    cases hb : (rest key L c)[limit]? with
    | none =>
      have hle := List.getElem?_eq_none_iff.mp hb
      simp only [next, hb, Option.map_none, page, List.take_of_length_le hle]
    | some b =>
      obtain ⟨h₀, h₁⟩ := (aligned_iff hlimit).mp h
      have hrest := rest_next hL hb fun a ha => h₀ a b ha hb
      have hpos := (List.getElem?_eq_some_iff.mp hb).1
      have hwalk := walk_of_aligned hlimit fuel (key b)
        (by rw [hrest, List.length_drop]; omega) (by rw [hrest]; exact h₁)
      simp only [next, hb, Option.map_some, hwalk, page]
      rw [hrest, List.take_append_drop]

omit hL in
/-- What is read from a cursor begins with the first element from there on. -/
theorem head?_of_walk (hlimit : 1 ≤ limit) {fuel : ℕ} {c : κ} {out : List α}
    (h : walk key limit L fuel c = some out) : out.head? = (rest key L c).head? := by
  cases fuel with
  | zero => cases h
  | succ fuel =>
    have hpage : (page key limit L c).head? = (rest key L c).head? := by
      rw [page, List.head?_take, if_neg (by omega)]
    rw [walk] at h
    cases hb : (rest key L c)[limit]? with
    | none =>
      simp only [next, hb, Option.map_none, Option.some.injEq] at h
      rw [← h, hpage]
    | some b =>
      simp only [next, hb, Option.map_some, Option.map_eq_some_iff] at h
      obtain ⟨out', -, rfl⟩ := h
      have hpos := (List.getElem?_eq_some_iff.mp hb).1
      have hne : page key limit L c ≠ [] := by
        intro hnil
        have hlen := congrArg List.length hnil
        rw [page, List.length_take, List.length_nil] at hlen
        omega
      rw [List.head?_append_of_ne_nil _ hne, hpage]

/-- Pages that give everything are aligned. -/
theorem aligned_of_walk (hlimit : 1 ≤ limit) (hnodup : L.Nodup) : ∀ (fuel : ℕ) (c : κ),
    walk key limit L fuel c = some (rest key L c) → Aligned key limit (rest key L c)
  | 0, _, h => by cases h
  | fuel + 1, c, h => by
    rw [walk] at h
    cases hb : (rest key L c)[limit]? with
    | none => exact aligned_of_length_le (List.getElem?_eq_none_iff.mp hb)
    | some b =>
      simp only [next, hb, Option.map_some, Option.map_eq_some_iff] at h
      obtain ⟨out, hwalk, happ⟩ := h
      have hout : out = (rest key L c).drop limit :=
        List.append_cancel_left (happ.trans (List.take_append_drop limit _).symm)
      -- the second page begins with the element that was cut off, not before it
      have h₀ : ∀ a, (rest key L c)[limit - 1]? = some a → key a ≠ key b := by
        intro a ha heq
        have hhead := head?_of_walk hlimit hwalk
        rw [hout, List.head?_drop, hb, rest_eq_filter hb, List.head?_filter] at hhead
        obtain ⟨-, i, hi, hib, hbefore⟩ := List.find?_eq_some_iff_getElem.mp hhead.symm
        obtain ⟨hlast, rfl⟩ := List.getElem?_eq_some_iff.mp ha
        obtain ⟨hlt, hbi⟩ := List.getElem?_eq_some_iff.mp hb
        obtain rfl : i = limit := (List.Nodup.getElem_inj_iff (hnodup.filter _)).mp
          (hib.trans hbi.symm)
        have hnot := hbefore (i - 1) (by omega)
        simp [heq] at hnot
      have hrest := rest_next hL hb h₀
      refine (aligned_iff hlimit).mpr ⟨fun a b' ha hb' => ?_, ?_⟩
      · obtain rfl : b = b' := Option.some.inj (hb.symm.trans hb')
        exact h₀ a ha
      · rw [hout, ← hrest] at hwalk
        rw [← hrest]
        exact aligned_of_walk hlimit hnodup fuel (key b) hwalk

/-- **When the pages give every element once.** -/
theorem walk_eq_some_iff (hlimit : 1 ≤ limit) (hnodup : L.Nodup) {c : κ} :
    (∃ fuel, walk key limit L fuel c = some (rest key L c)) ↔ Aligned key limit (rest key L c) :=
  ⟨fun ⟨fuel, h⟩ => aligned_of_walk hL hlimit hnodup fuel c h,
    fun h => ⟨_, walk_of_aligned hL hlimit _ c (Nat.lt_succ_self _) h⟩⟩

end Sorted

end OzoneRust.Paging
