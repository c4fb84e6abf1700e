import Mathlib.Data.List.Basic
import Mathlib.Data.List.Infix

/-!
# Rewriting and searching text

Text is rewritten from left to right: a rule looks at the rest of the text and says what to
write and how many symbols it has read (`OzoneRust.Rewrite.rewrite`). Decoders and the
replacement of one string by another (`OzoneRust.Rewrite.replace`) are of this form. A text
put together from pieces is rewritten piece by piece if each piece is, whatever comes after it
(`OzoneRust.Rewrite.rewrite_flatMap`).

`OzoneRust.Rewrite.cut` finds the first occurrence of a string and returns what is before and
after. The one condition about strings is `OzoneRust.Rewrite.Avoids`: no occurrence of the
string begins inside a text, not even one that ends after it.
-/

namespace OzoneRust

namespace Rewrite

variable {α β γ : Type}

/-! ### Rules -/

/-- Rewrites a text of which the first symbols have been read already. -/
def rewriteFrom (rule : List α → List β × ℕ) : ℕ → List α → List β
  | _, [] => []
  | n + 1, _ :: xs => rewriteFrom rule n xs
  | 0, x :: xs => (rule (x :: xs)).1 ++ rewriteFrom rule (rule (x :: xs)).2 xs

/-- Rewrites a text. The rule is given the rest of the text, and returns what to write and how
many symbols it reads after the first. -/
def rewrite (rule : List α → List β × ℕ) (xs : List α) : List β := rewriteFrom rule 0 xs

variable {rule : List α → List β × ℕ}

theorem rewriteFrom_append (s rest : List α) :
    rewriteFrom rule s.length (s ++ rest) = rewrite rule rest := by
  induction s with
  | nil => rfl
  | cons x s ih => exact ih

/-- **One application of the rule**, to a piece at the head of the text. -/
theorem rewrite_append {t rest : List α} {out : List β} (ht : t ≠ [])
    (hrule : rule (t ++ rest) = (out, t.length - 1)) :
    rewrite rule (t ++ rest) = out ++ rewrite rule rest := by
  obtain ⟨x, s, rfl⟩ := List.exists_cons_of_ne_nil ht
  have hfirst : rewrite rule (x :: s ++ rest) =
      (rule (x :: s ++ rest)).1 ++ rewriteFrom rule (rule (x :: s ++ rest)).2 (s ++ rest) := rfl
  rw [hfirst, hrule, List.length_cons, Nat.add_sub_cancel, rewriteFrom_append]

/-- **A text put together from pieces is rewritten piece by piece.** -/
theorem rewrite_flatMap {f : γ → List α} {g : γ → List β} {cs : List γ}
    (h : ∀ c ∈ cs, ∀ rest, rewrite rule (f c ++ rest) = g c ++ rewrite rule rest) :
    rewrite rule (cs.flatMap f) = cs.flatMap g := by
  induction cs with
  | nil => rfl
  | cons c cs ih =>
    rw [List.flatMap_cons, List.flatMap_cons, h c List.mem_cons_self,
      ih fun c' hc' => h c' (List.mem_cons_of_mem c hc')]

/-! ### Occurrences -/

/-- No occurrence of `pat` begins inside `t`, whatever follows `t`. -/
def Avoids (pat t : List α) : Prop := ∀ u v, t = u ++ v → v ≠ [] → ∀ rest, ¬pat <+: v ++ rest

theorem avoids_nil (pat : List α) : Avoids pat [] := by
  intro u v h hv
  exact absurd (List.append_eq_nil_iff.mp h.symm).2 hv

theorem avoids_cons {pat t : List α} {a : α} :
    Avoids pat (a :: t) ↔ (∀ rest, ¬pat <+: a :: t ++ rest) ∧ Avoids pat t := by
  constructor
  · intro h
    refine ⟨h [] (a :: t) rfl (List.cons_ne_nil a t), fun u v ht => ?_⟩
    exact h (a :: u) v (congrArg (a :: ·) ht)
  · rintro ⟨hhead, ht⟩ (_ | ⟨b, u⟩) v huv hv
    · rw [List.nil_append] at huv
      exact huv ▸ hhead
    · exact ht u v (List.cons.inj huv).2 hv

/-- A text without the first symbol of `pat` avoids it. -/
theorem avoids_of_not_mem {a : α} {p t : List α} (h : a ∉ t) : Avoids (a :: p) t := by
  rintro u v rfl hv rest hpre
  obtain ⟨b, v, rfl⟩ := List.exists_cons_of_ne_nil hv
  obtain ⟨hab, -⟩ := List.cons_prefix_cons.mp hpre
  exact h (hab ▸ List.mem_append_right u List.mem_cons_self)

/-- A string clashes with each part of a text that begins inside it. -/
theorem avoids_of_tails {pat t : List α}
    (h : ∀ v ∈ t.tails, v ≠ [] → ¬pat <+: v ∧ ¬v <+: pat) : Avoids pat t := by
  rintro u v rfl hv rest hpre
  obtain ⟨hpat, hv'⟩ := h v ((List.mem_tails _ _).mpr (List.suffix_append u v)) hv
  exact (List.prefix_or_prefix_of_prefix hpre (List.prefix_append v rest)).elim hpat hv'

/-- Texts that avoid a string do so together. -/
theorem Avoids.append {pat s t : List α} (hs : Avoids pat s) (ht : Avoids pat t) :
    Avoids pat (s ++ t) := by
  induction s with
  | nil => exact ht
  | cons a s ih =>
    obtain ⟨hhead, htail⟩ := avoids_cons.mp hs
    refine avoids_cons.mpr ⟨fun rest => ?_, ih htail⟩
    have hrest := hhead (t ++ rest)
    rwa [← List.append_assoc] at hrest

theorem Avoids.flatMap {pat : List α} {f : γ → List α} {cs : List γ}
    (h : ∀ c ∈ cs, Avoids pat (f c)) : Avoids pat (cs.flatMap f) := by
  induction cs with
  | nil => exact avoids_nil pat
  | cons c cs ih =>
    exact (h c List.mem_cons_self).append (ih fun c' hc' => h c' (List.mem_cons_of_mem c hc'))

variable [DecidableEq α]

/-! ### Replacement -/

/-- Replaces each occurrence of `pat`, from left to right. -/
def replace (pat new : List α) : List α → List α :=
  rewrite fun xs => if pat <+: xs then (new, pat.length - 1) else (xs.take 1, 0)

theorem replace_pat {pat : List α} (hpat : pat ≠ []) (new rest : List α) :
    replace pat new (pat ++ rest) = new ++ replace pat new rest :=
  rewrite_append hpat (if_pos (List.prefix_append pat rest))

theorem replace_avoids {pat t : List α} (h : Avoids pat t) (new rest : List α) :
    replace pat new (t ++ rest) = t ++ replace pat new rest := by
  induction t with
  | nil => rfl
  | cons a t ih =>
    obtain ⟨hhead, htail⟩ := avoids_cons.mp h
    have hone : replace pat new ([a] ++ (t ++ rest)) = [a] ++ replace pat new (t ++ rest) :=
      rewrite_append (List.cons_ne_nil a []) (if_neg (hhead rest))
    rw [List.cons_append]
    exact hone.trans (congrArg (a :: ·) (ih htail))

/-- **Replacement in a text of pieces**: those that are `pat` become `new`, the others stay. -/
theorem replace_flatMap {pat new : List α} (hpat : pat ≠ []) {f g : γ → List α} {cs : List γ}
    (h : ∀ c ∈ cs, f c = pat ∧ g c = new ∨ g c = f c ∧ Avoids pat (f c)) :
    replace pat new (cs.flatMap f) = cs.flatMap g := by
  refine rewrite_flatMap fun c hc rest => ?_
  obtain ⟨hf, hg⟩ | ⟨hg, hf⟩ := h c hc
  · rw [hf, hg]
    exact replace_pat hpat new rest
  · rw [hg]
    exact replace_avoids hf new rest

/-! ### Search -/

/-- The first occurrence of `pat`: what is before it and what is after it. -/
def cut (pat : List α) : List α → Option (List α × List α)
  | [] => if pat = [] then some ([], []) else none
  | x :: xs =>
    if pat <+: x :: xs then some ([], (x :: xs).drop pat.length)
    else (cut pat xs).map fun found => (x :: found.1, found.2)

theorem eq_of_cut {pat : List α} : ∀ {xs s t : List α}, cut pat xs = some (s, t) →
    xs = s ++ (pat ++ t)
  | [], s, t, h => by
    rw [cut] at h
    split at h
    · next hpat =>
      cases h
      rw [hpat]
      rfl
    · cases h
  | x :: xs, s, t, h => by
    rw [cut] at h
    split at h
    · next hpre =>
      cases h
      exact (List.prefix_iff_eq_append.mp hpre).symm
    · obtain ⟨⟨s', t'⟩, hcut, hst⟩ := Option.map_eq_some_iff.mp h
      cases hst
      exact congrArg (x :: ·) (eq_of_cut hcut)

theorem cut_pat {pat : List α} (hpat : pat ≠ []) (rest : List α) :
    cut pat (pat ++ rest) = some ([], rest) := by
  obtain ⟨a, p, rfl⟩ := List.exists_cons_of_ne_nil hpat
  have hpre : a :: p <+: a :: (p ++ rest) := List.prefix_append (a :: p) rest
  rw [List.cons_append, cut, if_pos hpre, ← List.cons_append, List.drop_left]

/-- Search goes past a text that avoids the string. -/
theorem cut_avoids {pat t : List α} (h : Avoids pat t) (rest : List α) :
    cut pat (t ++ rest) = (cut pat rest).map fun found => (t ++ found.1, found.2) := by
  induction t with
  | nil =>
    rw [List.nil_append]
    exact Option.map_id'.symm
  | cons a t ih =>
    obtain ⟨hhead, htail⟩ := avoids_cons.mp h
    have hnot : ¬pat <+: a :: (t ++ rest) := hhead rest
    rw [List.cons_append, cut, if_neg hnot, ih htail, Option.map_map]
    rfl

/-- **The first occurrence**, after a text that avoids the string. -/
theorem cut_append {pat t : List α} (hpat : pat ≠ []) (h : Avoids pat t) (rest : List α) :
    cut pat (t ++ (pat ++ rest)) = some (t, rest) := by
  rw [cut_avoids h, cut_pat hpat, Option.map_some, List.append_nil]

theorem cut_eq_none {pat t : List α} (hpat : pat ≠ []) (h : Avoids pat t) : cut pat t = none := by
  have hnil : cut pat [] = none := if_neg hpat
  have hcut := cut_avoids h []
  rwa [List.append_nil, hnil, Option.map_none] at hcut

/-- The first occurrence does not depend on what comes after it. -/
theorem cut_congr {pat : List α} : ∀ {s t : List α}, cut pat (s ++ (pat ++ t)) = some (s, t) →
    ∀ t', cut pat (s ++ (pat ++ t')) = some (s, t')
  | [], t, _, t' => by
    by_cases hpat : pat = []
    · subst hpat
      cases t' <;> simp [cut]
    · exact cut_pat hpat t'
  | x :: s, t, h, t' => by
    -- whether `pat` is at the head is decided by `x :: s ++ pat`
    have hhead : ∀ u, pat <+: x :: (s ++ (pat ++ u)) ↔ pat <+: x :: (s ++ pat) := by
      intro u
      have happ : x :: (s ++ (pat ++ u)) = x :: (s ++ pat) ++ u := by simp
      rw [happ]
      refine ⟨fun hpre => ?_, fun hpre => hpre.trans (List.prefix_append _ _)⟩
      refine List.prefix_of_prefix_length_le hpre (List.prefix_append _ _) ?_
      simp only [List.length_cons, List.length_append]
      omega
    rw [List.cons_append, cut] at h ⊢
    by_cases hpre : pat <+: x :: (s ++ pat)
    · rw [if_pos ((hhead t).mpr hpre)] at h
      cases h
    · rw [if_neg (mt (hhead t).mp hpre)] at h
      rw [if_neg (mt (hhead t').mp hpre)]
      obtain ⟨⟨s', t''⟩, hcut, hst⟩ := Option.map_eq_some_iff.mp h
      cases hst
      rw [cut_congr hcut t', Option.map_some]

/-- There is no first occurrence where there is none. -/
theorem cut_eq_none_iff {pat : List α} : ∀ {xs : List α}, cut pat xs = none ↔ ¬pat <:+: xs
  | [] => by
    rw [List.infix_nil]
    by_cases hpat : pat = [] <;> simp [cut, hpat]
  | x :: xs => by
    rw [cut, List.infix_cons_iff, not_or]
    by_cases hpre : pat <+: x :: xs
    · simp [hpre]
    · rw [if_neg hpre, Option.map_eq_none_iff, cut_eq_none_iff]
      exact ⟨fun h => ⟨hpre, h⟩, fun h => h.2⟩

/-- No occurrence comes before the first. -/
theorem length_le_of_cut {pat : List α} : ∀ {xs s t s' t' : List α}, cut pat xs = some (s, t) →
    xs = s' ++ (pat ++ t') → s.length ≤ s'.length
  | [], s, t, s', t', h, _ => by
    rw [cut] at h
    split at h
    · cases h
      exact Nat.zero_le _
    · cases h
  | x :: xs, s, t, s', t', h, heq => by
    rw [cut] at h
    split at h
    · cases h
      exact Nat.zero_le _
    · next hpre =>
      obtain ⟨⟨s₁, t₁⟩, hcut, hst⟩ := Option.map_eq_some_iff.mp h
      cases hst
      cases s' with
      | nil => exact absurd (heq ▸ List.prefix_append pat t') hpre
      | cons y s' => exact Nat.succ_le_succ (length_le_of_cut hcut (List.cons.inj heq).2)

end Rewrite

end OzoneRust
