import Mathlib.Data.List.Nodup
import Mathlib.Data.List.Perm.Basic
import Mathlib.Order.Lattice

/-!
# Ordered maps

A finite map as its list of entries in ascending key order, which is what an ordered
key–value store looks like from outside. That the keys ascend is a field of
`OzoneRust.SortedMap`, so a lookup needs no side condition
(`OzoneRust.SortedMap.get?_eq_some`).

For facts about all entries, such as a count or a sum, an entry is taken out of the map
(`OzoneRust.SortedMap.perm_cons_erase`) and put into it
(`OzoneRust.SortedMap.perm_insert`): both maps are permutations of one entry more than the
map without the key.
-/

namespace OzoneRust

/-- A finite map, as its entries in ascending key order. -/
@[ext]
structure SortedMap (κ ν : Type) [LinearOrder κ] where
  /-- The entries. -/
  entries : List (κ × ν)
  /-- The keys ascend. -/
  sorted : (entries.map Prod.fst).Pairwise (· < ·)

namespace SortedMap

variable {κ ν : Type} [LinearOrder κ]

/-- The map without entries. -/
def empty : SortedMap κ ν := ⟨[], .nil⟩

/-- The entries whose key meets a condition. -/
def filterKeys (p : κ → Bool) (m : SortedMap κ ν) : SortedMap κ ν :=
  ⟨m.entries.filter fun e => p e.1, m.sorted.sublist (List.filter_sublist.map _)⟩

/-- The map without a key. -/
def erase (k : κ) (m : SortedMap κ ν) : SortedMap κ ν := m.filterKeys fun k' => k' ≠ k

/-- The value of a key. -/
def get? (m : SortedMap κ ν) (k : κ) : Option ν :=
  (m.entries.find? fun e => e.1 = k).map Prod.snd

/-- The map with a key set to a value. -/
def insert (k : κ) (v : ν) (m : SortedMap κ ν) : SortedMap κ ν where
  entries := m.entries.filter (fun e => e.1 < k) ++ (k, v) :: m.entries.filter fun e => k < e.1
  sorted := by
    have hsub : ∀ p : κ × ν → Bool, ((m.entries.filter p).map Prod.fst).Pairwise (· < ·) :=
      fun p => m.sorted.sublist (List.filter_sublist.map _)
    rw [List.map_append, List.map_cons, List.pairwise_append]
    refine ⟨hsub _, List.pairwise_cons.mpr ⟨?_, hsub _⟩, ?_⟩
    · simp only [List.mem_map, List.mem_filter, decide_eq_true_eq]
      rintro _ ⟨e, ⟨-, he⟩, rfl⟩
      exact he
    · simp only [List.mem_map, List.mem_filter, decide_eq_true_eq, List.mem_cons]
      rintro _ ⟨e, ⟨-, he⟩, rfl⟩ _ (rfl | ⟨e', ⟨-, he'⟩, rfl⟩)
      · exact he
      · exact lt_trans he he'

variable {m : SortedMap κ ν} {k k' : κ} {v v' : ν} {e : κ × ν}

/-! ### Entries -/

theorem nodup_keys (m : SortedMap κ ν) : (m.entries.map Prod.fst).Nodup :=
  m.sorted.imp ne_of_lt

theorem eq_of_mem (h : (k, v) ∈ m.entries) (h' : (k, v') ∈ m.entries) : v = v' := by
  have heq := List.inj_on_of_nodup_map m.nodup_keys h h' rfl
  exact congrArg Prod.snd heq

theorem get?_eq_some : m.get? k = some v ↔ (k, v) ∈ m.entries := by
  constructor
  · intro h
    obtain ⟨⟨k', v'⟩, hfind, rfl⟩ := Option.map_eq_some_iff.mp h
    obtain rfl : k' = k := by simpa using List.find?_some hfind
    exact List.mem_of_find?_eq_some hfind
  · intro h
    cases hfind : m.entries.find? fun e => e.1 = k with
    | none => exact absurd (List.find?_eq_none.mp hfind _ h) (by simp)
    | some e =>
      obtain ⟨k', v'⟩ := e
      obtain rfl : k' = k := by simpa using List.find?_some hfind
      rw [get?, hfind, eq_of_mem h (List.mem_of_find?_eq_some hfind)]
      rfl

theorem get?_eq_none : m.get? k = none ↔ ∀ v, (k, v) ∉ m.entries := by
  rw [Option.eq_none_iff_forall_ne_some]
  exact forall_congr' fun v => not_congr get?_eq_some

@[simp] theorem mem_filterKeys {p : κ → Bool} :
    e ∈ (m.filterKeys p).entries ↔ e ∈ m.entries ∧ p e.1 = true := List.mem_filter

@[simp] theorem mem_erase : e ∈ (m.erase k).entries ↔ e ∈ m.entries ∧ e.1 ≠ k := by
  simp [erase]

@[simp] theorem mem_insert :
    e ∈ (m.insert k v).entries ↔ e = (k, v) ∨ e ∈ m.entries ∧ e.1 ≠ k := by
  simp only [insert, List.mem_append, List.mem_filter, decide_eq_true_eq, List.mem_cons]
  constructor
  · rintro (⟨he, hlt⟩ | rfl | ⟨he, hlt⟩)
    · exact .inr ⟨he, ne_of_lt hlt⟩
    · exact .inl rfl
    · exact .inr ⟨he, ne_of_gt hlt⟩
  · rintro (rfl | ⟨he, hne⟩)
    · exact .inr (.inl rfl)
    · rcases lt_or_gt_of_ne hne with hlt | hlt
      · exact .inl ⟨he, hlt⟩
      · exact .inr (.inr ⟨he, hlt⟩)

/-! ### Lookups -/

@[simp] theorem get?_empty : (empty : SortedMap κ ν).get? k = none := rfl

@[simp] theorem get?_insert_self : (m.insert k v).get? k = some v :=
  get?_eq_some.mpr (mem_insert.mpr (.inl rfl))

theorem get?_insert_of_ne (h : k' ≠ k) : (m.insert k v).get? k' = m.get? k' := by
  refine Option.ext fun v' => ?_
  rw [get?_eq_some, get?_eq_some, mem_insert]
  simp [h]

theorem get?_filterKeys {p : κ → Bool} (h : p k = true) : (m.filterKeys p).get? k = m.get? k := by
  refine Option.ext fun v => ?_
  rw [get?_eq_some, get?_eq_some, mem_filterKeys]
  simp [h]

theorem get?_filterKeys_of_not {p : κ → Bool} (h : p k = false) :
    (m.filterKeys p).get? k = none := by
  simp [get?_eq_none, h]

theorem get?_erase_of_ne (h : k' ≠ k) : (m.erase k).get? k' = m.get? k' :=
  get?_filterKeys (by simpa using h)

@[simp] theorem get?_erase_self : (m.erase k).get? k = none :=
  get?_filterKeys_of_not (by simp)

/-! ### Taking entries out and putting them in -/

theorem nodup_entries (m : SortedMap κ ν) : m.entries.Nodup := m.nodup_keys.of_map _

/-- The map is one entry more than the map without its key. -/
theorem perm_cons_erase (h : m.get? k = some v) :
    m.entries.Perm ((k, v) :: (m.erase k).entries) := by
  have hmem := get?_eq_some.mp h
  refine (List.perm_ext_iff_of_nodup m.nodup_entries ?_).mpr fun e => ?_
  · exact List.nodup_cons.mpr ⟨by simp, (m.erase k).nodup_entries⟩
  · rw [List.mem_cons, mem_erase]
    constructor
    · intro he
      by_cases hk : e.1 = k
      · obtain ⟨k', v'⟩ := e
        obtain rfl : k' = k := hk
        exact .inl (by rw [eq_of_mem he hmem])
      · exact .inr ⟨he, hk⟩
    · rintro (rfl | ⟨he, -⟩)
      · exact hmem
      · exact he

/-- So is the map with the key set. -/
theorem perm_insert : (m.insert k v).entries.Perm ((k, v) :: (m.erase k).entries) := by
  refine (List.perm_ext_iff_of_nodup (m.insert k v).nodup_entries ?_).mpr fun e => by simp
  exact List.nodup_cons.mpr ⟨by simp, (m.erase k).nodup_entries⟩

/-- A key is set to the value it has. -/
theorem insert_eq_self (h : m.get? k = some v) : m.insert k v = m := by
  have hperm : (m.insert k v).entries.Perm m.entries := perm_insert.trans (perm_cons_erase h).symm
  have hsorted : ∀ m : SortedMap κ ν, m.entries.Pairwise fun a b => a.1 < b.1 :=
    fun m => List.pairwise_map.mp m.sorted
  refine SortedMap.ext (hperm.eq_of_pairwise ?_ (hsorted _) (hsorted _))
  exact fun a b _ _ hab hba => absurd hab (lt_asymm hba)

theorem erase_entries_of_none (h : m.get? k = none) : (m.erase k).entries = m.entries := by
  refine List.filter_eq_self.mpr fun e he => ?_
  rw [decide_eq_true_eq]
  rintro rfl
  exact get?_eq_none.mp h e.2 he

end SortedMap

end OzoneRust
