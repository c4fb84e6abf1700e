import Mathlib.Data.Finset.Dedup
import Mathlib.Data.Set.Finite.Basic
import Mathlib.Data.Set.Finite.List
import OzoneRust.Lib.SortedMap

/-!
# Finite maps

A map with finitely many keys, without any order on them: the mathematical object an ordered
key–value store stands for. The keys that meet a condition can be listed in any order that
tells them apart (`OzoneRust.FiniteMap.keysWhere`), and a sorted list that has these keys is
that list (`OzoneRust.FiniteMap.eq_keysWhere`).

An ordered map whose keys are codes of other keys stands for a map from these
(`OzoneRust.SortedMap.along`), and its operations at codes are those of that map.
-/

namespace OzoneRust

/-- A map with finitely many keys. -/
@[ext]
structure FiniteMap (κ ν : Type) where
  /-- The value of a key. -/
  get : κ → Option ν
  /-- There are finitely many keys. -/
  finite : {k | (get k).isSome}.Finite

namespace FiniteMap

variable {κ ν β : Type}

/-- The map without keys. -/
def empty : FiniteMap κ ν := ⟨fun _ => none, by simp⟩

/-- The keys that meet a condition, with their values. -/
def restrict (p : κ → Prop) [DecidablePred p] (m : FiniteMap κ ν) : FiniteMap κ ν where
  get k := if p k then m.get k else none
  finite := m.finite.subset fun k hk => by
    change (if p k then m.get k else none).isSome = true at hk
    split at hk
    · exact hk
    · cases hk

variable [DecidableEq κ]

/-- A key is set to a value. -/
def set (k : κ) (v : ν) (m : FiniteMap κ ν) : FiniteMap κ ν where
  get := Function.update m.get k (some v)
  finite := (m.finite.insert k).subset fun k' hk' => by
    change (Function.update m.get k (some v) k').isSome = true at hk'
    rw [Function.update_apply] at hk'
    split at hk'
    · exact .inl ‹_›
    · exact .inr hk'

/-- A key is removed. -/
def erase (k : κ) (m : FiniteMap κ ν) : FiniteMap κ ν := m.restrict fun k' => k' ≠ k

omit [DecidableEq κ]

/-! ### Listing the keys -/

variable [LinearOrder β] {m : FiniteMap κ ν} {p : κ → Prop} {f : κ → β}

/-- The keys that meet a condition, in the order of `f`. -/
noncomputable def keysWhere (m : FiniteMap κ ν) (p : κ → Prop) (f : κ → β) : List κ :=
  (m.finite.inter_of_left {k | p k}).toFinset.toList.mergeSort fun a b => decide (f a ≤ f b)

theorem mem_keysWhere {k : κ} : k ∈ m.keysWhere p f ↔ (m.get k).isSome ∧ p k := by
  rw [keysWhere, (List.mergeSort_perm _ _).mem_iff, Finset.mem_toList, Set.Finite.mem_toFinset]
  rfl

/-- **Listing is unique**: the keys that meet the condition, in strictly ascending order. -/
theorem eq_keysWhere (hinj : ∀ a b, p a → p b → f a = f b → a = b) {l : List κ}
    (hsorted : l.Pairwise fun a b => f a < f b) (hmem : ∀ k, k ∈ l ↔ (m.get k).isSome ∧ p k) :
    l = m.keysWhere p f := by
  have hnodup : l.Nodup := hsorted.imp fun hlt heq => absurd (heq ▸ hlt) (lt_irrefl _)
  have hperm : l.Perm (m.keysWhere p f) := by
    refine (List.perm_ext_iff_of_nodup hnodup ?_).mpr fun k => (hmem k).trans mem_keysWhere.symm
    exact (List.mergeSort_perm _ _).nodup_iff.mpr (Finset.nodup_toList _)
  have hsorted' : (m.keysWhere p f).Pairwise fun a b => f a ≤ f b := by
    refine (List.pairwise_mergeSort ?_ ?_ _).imp fun hle => of_decide_eq_true hle
    · intro a b c hab hbc
      exact decide_eq_true (le_trans (of_decide_eq_true hab) (of_decide_eq_true hbc))
    · intro a b
      simpa using le_total (f a) (f b)
  refine hperm.eq_of_pairwise (fun a b ha hb hab hba => ?_) (hsorted.imp le_of_lt) hsorted'
  exact hinj a b ((hmem a).mp ha).2 (mem_keysWhere.mp hb).2 (le_antisymm hab hba)

end FiniteMap

/-! ### Keys that are codes -/

namespace SortedMap

variable {ι κ ν : Type} [LinearOrder κ] {code : ι → κ} {m : SortedMap κ ν}

/-- What an ordered map says about the keys `code` is a code of. -/
def along (m : SortedMap κ ν) (code : ι → κ) (hcode : Function.Injective code) :
    FiniteMap ι ν where
  get i := m.get? (code i)
  finite := by
    refine ((m.entries.map Prod.fst).finite_toSet.preimage hcode.injOn).subset fun i hi => ?_
    obtain ⟨v, hv⟩ := Option.isSome_iff_exists.mp hi
    exact List.mem_map.mpr ⟨_, get?_eq_some.mp hv, rfl⟩

variable [DecidableEq ι] (hcode : Function.Injective code)

theorem along_insert {i : ι} {v : ν} :
    (m.insert (code i) v).along code hcode = (m.along code hcode).set i v := by
  refine FiniteMap.ext (funext fun i' => ?_)
  change (m.insert (code i) v).get? (code i') =
    Function.update (fun i => m.get? (code i)) i (some v) i'
  by_cases hi : i' = i
  · rw [hi, get?_insert_self, Function.update_self]
  · rw [get?_insert_of_ne (hcode.ne hi), Function.update_of_ne hi]

omit [DecidableEq ι] in
theorem along_filterKeys {p : κ → Bool} {q : ι → Prop} [DecidablePred q]
    (hpq : ∀ i, p (code i) = true ↔ q i) :
    (m.filterKeys p).along code hcode = (m.along code hcode).restrict q := by
  refine FiniteMap.ext (funext fun i => ?_)
  change (m.filterKeys p).get? (code i) = if q i then m.get? (code i) else none
  split
  case isTrue hq => exact get?_filterKeys ((hpq i).mpr hq)
  case isFalse hq => exact get?_filterKeys_of_not (Bool.eq_false_iff.mpr (mt (hpq i).mp hq))

theorem along_erase {i : ι} :
    (m.erase (code i)).along code hcode = (m.along code hcode).erase i :=
  along_filterKeys hcode fun i' => by simp [hcode.eq_iff]

end SortedMap

end OzoneRust
