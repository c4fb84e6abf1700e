import Mathlib.Data.List.Nodup
import Mathlib.Data.List.Forall2

/-!
# Lists

Facts about lists that are in no library: lists taken element by element (`List.Forall₂`), elements
that are known by a key, and lists that are known by one of their elements.
-/

namespace OzoneRust

namespace Lists

variable {α β γ : Type}

/-! ### Element by element -/

theorem exists_of_forall₂ {R : α → β → Prop} {l : List α} {l' : List β} (h : List.Forall₂ R l l')
    {a : α} (ha : a ∈ l) : ∃ b ∈ l', R a b := by
  induction h with
  | nil => cases ha
  | cons hab _ ih =>
    rcases List.mem_cons.mp ha with rfl | ha
    · exact ⟨_, by simp, hab⟩
    · obtain ⟨b, hb, hR⟩ := ih ha
      exact ⟨b, by simp [hb], hR⟩

theorem forall₂_of_mapM {f : α → Option β} : ∀ {l : List α} {l' : List β},
    l.mapM f = some l' → List.Forall₂ (fun a b => f a = some b) l l'
  | [], l', h => by
    cases h
    exact .nil
  | a :: l, l', h => by
    rw [List.mapM_cons] at h
    obtain ⟨b, hb, h⟩ := Option.bind_eq_some_iff.mp h
    obtain ⟨l'', hl, ⟨⟩⟩ := Option.bind_eq_some_iff.mp h
    exact .cons hb (forall₂_of_mapM hl)

theorem mapM_of_forall₂ {f : α → Option β} {l : List α} {l' : List β}
    (h : List.Forall₂ (fun a b => f a = some b) l l') : l.mapM f = some l' := by
  induction h with
  | nil => rfl
  | cons hab _ ih => rw [List.mapM_cons, hab, ih]; rfl

/-! ### Elements with a key -/

section Key

variable [DecidableEq β] {key : α → β}

/-- In a list whose keys differ, an element is found by its key. -/
theorem find?_key_of_mem : ∀ {l : List α} {a : α}, (l.map key).Nodup → a ∈ l →
    l.find? (fun b => key b = key a) = some a
  | b :: l, a, hnd, ha => by
    rw [List.map_cons, List.nodup_cons] at hnd
    rw [List.find?_cons]
    rcases List.mem_cons.mp ha with rfl | ha
    · simp
    · have hne : key b ≠ key a := fun h => hnd.1 (h ▸ List.mem_map_of_mem ha)
      simp only [hne, decide_false]
      exact find?_key_of_mem hnd.2 ha

/-- And it is the only one with this key. -/
theorem filter_eq_singleton : ∀ {l : List α} {a : α}, (l.map key).Nodup → a ∈ l →
    l.filter (fun b => key b = key a) = [a]
  | b :: l, a, hnd, ha => by
    rw [List.map_cons, List.nodup_cons] at hnd
    rcases List.mem_cons.mp ha with rfl | ha
    · rw [List.filter_cons_of_pos (by simp), List.filter_eq_nil_iff.mpr]
      intro c hc heq
      exact hnd.1 (of_decide_eq_true heq ▸ List.mem_map_of_mem hc)
    · have hne : key b ≠ key a := fun h => hnd.1 (h ▸ List.mem_map_of_mem ha)
      rw [List.filter_cons_of_neg (by simpa using hne)]
      exact filter_eq_singleton hnd.2 ha

end Key

/-! ### Places -/

/-- There is one place for the one element with a property. -/
theorem eq_of_append_cons {p : α → Prop} {A B A' B' : List α} {e e' : α}
    (h : A ++ e :: B = A' ++ e' :: B') (hA : ∀ x ∈ A, ¬p x) (hB : ∀ x ∈ B, ¬p x) (he' : p e') :
    A = A' := by
  rcases List.append_eq_append_iff.mp h with ⟨as, rfl, has⟩ | ⟨bs, rfl, hbs⟩
  · cases as with
    | nil => exact (List.append_nil A).symm
    | cons x as =>
      refine absurd he' (hB e' ?_)
      rw [(List.cons.inj has).2]
      simp
  · cases bs with
    | nil => exact List.append_nil A'
    | cons x bs =>
      refine absurd he' (hA e' ?_)
      rw [(List.cons.inj hbs).1]
      simp

/-- Elements that are in order from each to the next are in order. -/
theorem pairwise_of_windows {r : α → α → Prop} [Trans r r r] {p : α → α → Bool}
    (hp : ∀ a b, ¬p a b = true → r a b) : ∀ {l : List α},
    ¬(l.zip l.tail).any (fun w => p w.1 w.2) = true → l.Pairwise r := by
  have hchain : ∀ l : List α, ¬(l.zip l.tail).any (fun w => p w.1 w.2) = true → l.IsChain r := by
    intro l
    induction l with
    | nil => exact fun _ => .nil
    | cons a l ih =>
      cases l with
      | nil => exact fun _ => .singleton a
      | cons b l =>
        intro h
        simp only [List.tail_cons, List.zip_cons_cons, List.any_cons, Bool.or_eq_true, not_or] at h
        exact .cons_cons (hp a b h.1) (ih h.2)
  exact fun {l} h => (hchain l h).pairwise

end Lists

end OzoneRust
