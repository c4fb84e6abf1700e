import Mathlib.Data.List.Induction
import Mathlib.Data.List.Nodup

/-!
# Association lists

A finite map as the list of its entries. A key should be there once, but lists in which it is
there more often are read too, and then it matters who reads: `OzoneRust.AssocList.get` finds
the first entry of a key, and a map that is filled from the list with
`OzoneRust.AssocList.put` keeps the last (`OzoneRust.AssocList.get_foldl_put`). The order does
not matter where keys are distinct (`OzoneRust.AssocList.get_perm`).
-/

namespace OzoneRust

namespace AssocList

variable {κ ν : Type} [DecidableEq κ]

/-- The value of the first entry of a key. -/
def get (m : List (κ × ν)) (k : κ) : Option ν := (m.find? fun e => e.1 = k).map (·.2)

/-- The value of the last entry of a key. -/
def getLast (m : List (κ × ν)) (k : κ) : Option ν := get m.reverse k

/-- A key gets a value, in place if it has one. -/
def put (e : κ × ν) (m : List (κ × ν)) : List (κ × ν) :=
  if m.any fun x => x.1 = e.1 then m.map fun x => if x.1 = e.1 then e else x else m ++ [e]

omit [DecidableEq κ] in
/-- No key is there twice. -/
def Distinct (m : List (κ × ν)) : Prop := (m.map (·.1)).Nodup

omit [DecidableEq κ] in
theorem Distinct.filter {m : List (κ × ν)} (hm : Distinct m) (p : κ × ν → Bool) :
    Distinct (m.filter p) :=
  hm.sublist (List.filter_sublist.map _)

omit [DecidableEq κ] in
theorem Distinct.perm {m m' : List (κ × ν)} (hm : Distinct m) (h : m.Perm m') : Distinct m' :=
  (h.map _).nodup_iff.mp hm

theorem get_cons (e : κ × ν) (m : List (κ × ν)) (k : κ) :
    get (e :: m) k = if e.1 = k then some e.2 else get m k := by
  by_cases h : e.1 = k <;> simp [get, h]

theorem get_append (m m' : List (κ × ν)) (k : κ) : get (m ++ m') k = (get m k).or (get m' k) := by
  rw [get, List.find?_append, Option.map_or]
  rfl

theorem get_map {ν' : Type} (f : ν → ν') (m : List (κ × ν)) (k : κ) :
    get (m.map fun e => (e.1, f e.2)) k = (get m k).map f := by
  induction m with
  | nil => rfl
  | cons e m ih =>
    rw [List.map_cons, get_cons, get_cons, ih]
    split_ifs <;> rfl

/-- Taking out entries of other keys changes nothing. -/
theorem get_filter {p : κ × ν → Bool} {k : κ} (h : ∀ e, e.1 = k → p e = true)
    (m : List (κ × ν)) : get (m.filter p) k = get m k := by
  induction m with
  | nil => rfl
  | cons e m ih =>
    rw [get_cons, List.filter_cons]
    split_ifs with hp hk hk
    · rw [get_cons, if_pos hk]
    · rw [get_cons, if_neg hk, ih]
    · exact absurd (h e hk) hp
    · exact ih

theorem get_eq_none {m : List (κ × ν)} {k : κ} (h : ∀ e ∈ m, e.1 ≠ k) : get m k = none := by
  simpa [get] using fun a b hab => h (a, b) hab

theorem mem_of_get {m : List (κ × ν)} {k : κ} {v : ν} (h : get m k = some v) : (k, v) ∈ m := by
  obtain ⟨⟨k', v'⟩, he, rfl⟩ := Option.map_eq_some_iff.mp h
  have hk : k' = k := by simpa using List.find?_some he
  rw [← hk]
  exact List.mem_of_find?_eq_some he

/-- Where keys are distinct, the entries say it all. -/
theorem get_eq_some_iff {m : List (κ × ν)} (hm : Distinct m) {k : κ} {v : ν} :
    get m k = some v ↔ (k, v) ∈ m := by
  refine ⟨mem_of_get, fun h => ?_⟩
  induction m with
  | nil => cases h
  | cons e m ih =>
    obtain ⟨hnot, hm⟩ := List.nodup_cons.mp hm
    rw [get_cons]
    rcases List.mem_cons.mp h with rfl | h
    · simp
    · have hne : e.1 ≠ k := by
        rintro rfl
        exact hnot (List.mem_map.mpr ⟨_, h, rfl⟩)
      rw [if_neg hne, ih hm h]

/-- Where keys are distinct, the order does not matter. -/
theorem get_perm {m m' : List (κ × ν)} (h : m.Perm m') (hm : Distinct m) (k : κ) :
    get m k = get m' k := by
  have hm' : Distinct m' := hm.perm h
  refine Option.ext fun v => ?_
  rw [get_eq_some_iff hm, get_eq_some_iff hm', h.mem_iff]

theorem getLast_map {ν' : Type} (f : ν → ν') (m : List (κ × ν)) (k : κ) :
    getLast (m.map fun e => (e.1, f e.2)) k = (getLast m k).map f := by
  rw [getLast, ← List.map_reverse]
  exact get_map f m.reverse k

/-- Where keys are distinct, the last entry is the first. -/
theorem getLast_eq_get {m : List (κ × ν)} (hm : Distinct m) (k : κ) : getLast m k = get m k :=
  (get_perm m.reverse_perm.symm hm k).symm

theorem getLast_append_singleton (m : List (κ × ν)) (e : κ × ν) (k : κ) :
    getLast (m ++ [e]) k = if e.1 = k then some e.2 else getLast m k := by
  rw [getLast, List.reverse_append, List.reverse_singleton, List.singleton_append, get_cons]
  rfl

/-! ### Changes -/

theorem get_map_self {e : κ × ν} : ∀ {m : List (κ × ν)}, (∃ x ∈ m, x.1 = e.1) →
    get (m.map fun x => if x.1 = e.1 then e else x) e.1 = some e.2
  | [], h => by simp at h
  | x :: m, h => by
    rw [List.map_cons, get_cons]
    by_cases hx : x.1 = e.1
    · simp [hx]
    · rw [if_neg hx, if_neg hx]
      exact get_map_self (by simpa [hx] using h)

theorem get_map_of_ne {e : κ × ν} {k : κ} (hk : e.1 ≠ k) : ∀ m : List (κ × ν),
    get (m.map fun x => if x.1 = e.1 then e else x) k = get m k
  | [] => rfl
  | x :: m => by
    rw [List.map_cons, get_cons, get_cons, get_map_of_ne hk m]
    by_cases hx : x.1 = e.1
    · rw [if_pos hx, hx, if_neg hk, if_neg hk]
    · rw [if_neg hx]

theorem get_put (e : κ × ν) (m : List (κ × ν)) (k : κ) :
    get (put e m) k = if e.1 = k then some e.2 else get m k := by
  have hany : (m.any fun x => x.1 = e.1) = true ↔ ∃ x ∈ m, x.1 = e.1 := by simp
  unfold put
  split
  · next h =>
    split_ifs with hk
    · rw [← hk, get_map_self (hany.mp h)]
    · exact get_map_of_ne hk m
  · next h =>
    rw [get_append, get_cons]
    split_ifs with hk
    · have hnone : get m k = none :=
        get_eq_none fun x hx hxk => h (hany.mpr ⟨x, hx, hxk.trans hk.symm⟩)
      rw [hnone, Option.none_or]
    · exact Option.or_none ..

theorem distinct_put (e : κ × ν) {m : List (κ × ν)} (hm : Distinct m) : Distinct (put e m) := by
  unfold put
  split
  · have hkeys : (m.map fun x => if x.1 = e.1 then e else x).map (·.1) = m.map (·.1) := by
      rw [List.map_map]
      refine List.map_congr_left fun x _ => ?_
      by_cases hx : x.1 = e.1 <;> simp [hx]
    rw [Distinct, hkeys]
    exact hm
  · next hany =>
    rw [Distinct, List.map_append, List.map_singleton]
    refine List.nodup_append.mpr ⟨hm, List.nodup_singleton _, ?_⟩
    rintro k hk _ he rfl
    obtain ⟨x, hx, rfl⟩ := List.mem_map.mp hk
    exact hany (List.any_eq_true.mpr ⟨x, hx, by simpa using List.mem_singleton.mp he⟩)

/-- **A map that is filled from a list** has the last entry of each key. -/
theorem get_foldl_put (l m : List (κ × ν)) (k : κ) :
    get (l.foldl (fun m e => put e m) m) k = (getLast l k).or (get m k) := by
  induction l using List.reverseRecOn with
  | nil => rfl
  | append_singleton l e ih =>
    rw [List.foldl_append, List.foldl_cons, List.foldl_nil, get_put, ih, getLast_append_singleton]
    by_cases hk : e.1 = k <;> simp [hk]

theorem distinct_foldl_put (l : List (κ × ν)) {m : List (κ × ν)} (hm : Distinct m) :
    Distinct (l.foldl (fun m e => put e m) m) := by
  induction l generalizing m with
  | nil => exact hm
  | cons e l ih => exact ih (distinct_put e hm)

end AssocList

end OzoneRust
