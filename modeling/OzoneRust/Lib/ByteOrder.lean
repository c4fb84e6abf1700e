import Mathlib.Data.List.Lex
import Mathlib.Order.Lattice
import Mathlib.Tactic.Ring

/-!
# Byte strings in order

Byte strings compare lexicographically, byte by byte. A number of fixed width, written most
significant byte first (`OzoneRust.BigEndian.bytes`), compares as it does as a number
(`OzoneRust.BigEndian.bytes_lt_bytes`), and a key put together from such fields compares
field by field (`OzoneRust.append_lt_append`).
-/

namespace OzoneRust

instance instLinearOrderUInt8 : LinearOrder UInt8 where
  le_refl := UInt8.le_refl
  le_trans := fun _ _ _ => UInt8.le_trans
  lt_iff_le_not_ge := fun a b => by
    rw [UInt8.lt_iff_toNat_lt, UInt8.le_iff_toNat_le, UInt8.le_iff_toNat_le]
    omega
  le_antisymm := fun _ _ => UInt8.le_antisymm
  le_total := UInt8.le_total
  toDecidableLE := fun _ _ => inferInstance
  toDecidableEq := inferInstance
  toDecidableLT := fun _ _ => inferInstance

instance instLinearOrderUInt64 : LinearOrder UInt64 where
  le_refl := UInt64.le_refl
  le_trans := fun _ _ _ => UInt64.le_trans
  lt_iff_le_not_ge := fun a b => by
    rw [UInt64.lt_iff_toNat_lt, UInt64.le_iff_toNat_le, UInt64.le_iff_toNat_le]
    omega
  le_antisymm := fun _ _ => UInt64.le_antisymm
  le_total := UInt64.le_total
  toDecidableLE := fun _ _ => inferInstance
  toDecidableEq := inferInstance
  toDecidableLT := fun _ _ => inferInstance
  min := fun a b => if a ≤ b then a else b
  max := fun a b => if a ≤ b then b else a
  min_def := fun _ _ => rfl
  max_def := fun _ _ => rfl

section Append

variable {α : Type} [LinearOrder α]

theorem cons_lt_cons {a b : α} {l l' : List α} : a :: l < b :: l' ↔ a < b ∨ a = b ∧ l < l' :=
  List.cons_lt_cons_iff

/-- Two strings with heads of one length compare by their heads first. -/
theorem append_lt_append : ∀ {s s' : List α} {l l' : List α}, s.length = s'.length →
    (s ++ l < s' ++ l' ↔ s < s' ∨ s = s' ∧ l < l')
  | [], [], l, l', _ => by simp
  | a :: s, b :: s', l, l', h => by
    have ih : s ++ l < s' ++ l' ↔ s < s' ∨ s = s' ∧ l < l' := append_lt_append (Nat.succ.inj h)
    rw [List.cons_append, List.cons_append, cons_lt_cons, cons_lt_cons, ih, List.cons.injEq]
    tauto

/-- Strings that differ compare as they do, whatever comes after them. -/
theorem append_lt_append_of_lt : ∀ {s s' : List α}, s < s' → ¬s <+: s' → ∀ l l', s ++ l < s' ++ l'
  | [], _, _, hpre, _, _ => absurd List.nil_prefix hpre
  | _ :: _, [], hlt, _, _, _ => absurd hlt (List.not_lt_nil _)
  | a :: s, b :: s', hlt, hpre, l, l' => by
    rw [List.cons_append, List.cons_append, cons_lt_cons]
    rcases cons_lt_cons.mp hlt with hab | ⟨rfl, hss⟩
    · exact .inl hab
    · refine .inr ⟨rfl, append_lt_append_of_lt hss (fun h => hpre ?_) l l'⟩
      exact List.cons_prefix_cons.mpr ⟨rfl, h⟩

/-- **What two strings begin with compares as they do**, if neither begins as the other. -/
theorem lt_of_prefix_of_lt {p q d e : List α} (hp : p <+: d) (hq : q <+: e) (hpe : ¬p <+: e)
    (hqd : ¬q <+: d) (hlt : d < e) : p < q := by
  rcases lt_trichotomy p q with h | rfl | h
  · exact h
  · exact absurd hq hpe
  · obtain ⟨l, rfl⟩ := hp
    obtain ⟨l', rfl⟩ := hq
    have hle := append_lt_append_of_lt h
      (fun hpre => hqd (hpre.trans (List.prefix_append p l))) l' l
    exact absurd hlt hle.asymm

/-- A string between two that begin with `p` begins with `p`. -/
theorem isPrefix_of_le_of_le : ∀ {p d b e : List α}, p <+: d → p <+: e → d ≤ b → b ≤ e → p <+: b
  | [], _, _, _, _, _, _, _ => List.nil_prefix
  | a :: p, d, b, e, hd, he, hdb, hbe => by
    obtain ⟨l, rfl⟩ := hd
    obtain ⟨l', rfl⟩ := he
    rw [List.cons_append] at hdb hbe
    cases b with
    | nil => exact absurd (List.nil_lt_cons a _) hdb.not_gt
    | cons c b =>
      have hac : ¬c < a := fun h => hdb.not_gt (cons_lt_cons.mpr (.inl h))
      have hca : ¬a < c := fun h => hbe.not_gt (cons_lt_cons.mpr (.inl h))
      obtain rfl : a = c := le_antisymm (not_lt.mp hac) (not_lt.mp hca)
      refine List.cons_prefix_cons.mpr ⟨rfl, isPrefix_of_le_of_le (List.prefix_append p l)
        (List.prefix_append p l') ?_ ?_⟩
      · exact not_lt.mp fun h => hdb.not_gt (cons_lt_cons.mpr (.inr ⟨rfl, h⟩))
      · exact not_lt.mp fun h => hbe.not_gt (cons_lt_cons.mpr (.inr ⟨rfl, h⟩))

end Append

namespace BigEndian

/-- A number in `w` bytes, the most significant first. -/
def bytes : ℕ → ℕ → List UInt8
  | 0, _ => []
  | w + 1, n => UInt8.ofNat (n / 256 ^ w) :: bytes w (n % 256 ^ w)

@[simp] theorem length_bytes : ∀ w n, (bytes w n).length = w
  | 0, _ => rfl
  | w + 1, n => congrArg Nat.succ (length_bytes w (n % 256 ^ w))

/-- Numbers compare by quotient first, then by remainder. -/
theorem div_mod_lt {m n p : ℕ} : m / p < n / p ∨ m / p = n / p ∧ m % p < n % p ↔ m < n := by
  have hm := Nat.div_add_mod m p
  have hn := Nat.div_add_mod n p
  constructor
  · rintro (h | ⟨h, h'⟩)
    · exact Nat.lt_of_div_lt_div h
    · rw [h] at hm
      omega
  · intro h
    rcases Nat.lt_or_eq_of_le (Nat.div_le_div_right h.le) with hlt | heq
    · exact .inl hlt
    · rw [heq] at hm
      exact .inr ⟨heq, by omega⟩

/-- **The order of the bytes is that of the numbers.** -/
theorem bytes_lt_bytes : ∀ {w m n : ℕ}, m < 256 ^ w → n < 256 ^ w →
    (bytes w m < bytes w n ↔ m < n)
  | 0, m, n, hm, hn => by
    rw [Nat.pow_zero] at hm hn
    simp only [bytes, List.lt_irrefl, false_iff]
    omega
  | w + 1, m, n, hm, hn => by
    have hpos : 0 < 256 ^ w := Nat.pow_pos (by decide)
    have hdiv : ∀ {x}, x < 256 ^ (w + 1) → x / 256 ^ w < 256 := fun hx =>
      Nat.div_lt_of_lt_mul (by rwa [Nat.pow_succ] at hx)
    rw [bytes, bytes, cons_lt_cons, bytes_lt_bytes (Nat.mod_lt m hpos) (Nat.mod_lt n hpos),
      UInt8.lt_iff_toNat_lt, ← UInt8.toNat_inj, UInt8.toNat_ofNat_of_lt' (hdiv hm),
      UInt8.toNat_ofNat_of_lt' (hdiv hn), div_mod_lt]

theorem bytes_inj {w m n : ℕ} (hm : m < 256 ^ w) (hn : n < 256 ^ w) :
    bytes w m = bytes w n ↔ m = n := by
  constructor
  · intro h
    rcases Nat.lt_trichotomy m n with hlt | heq | hlt
    · exact absurd ((bytes_lt_bytes hm hn).mpr hlt) (h ▸ List.lt_irrefl _)
    · exact heq
    · exact absurd ((bytes_lt_bytes hn hm).mpr hlt) (h ▸ List.lt_irrefl _)
  · rintro rfl
    rfl

end BigEndian

end OzoneRust
