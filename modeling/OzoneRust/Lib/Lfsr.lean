import Mathlib.Data.List.GetD
import Mathlib.Logic.Function.Iterate

/-!
# Shift registers and bursts

The remainder of a cyclic code, one bit at a time. A register of `w` bits takes a bit into its
lowest place, and is shifted down; if a one falls out, the polynomial is added
(`OzoneRust.Lfsr.feed`). The polynomial is written in reverse, without its leading term, so its
highest bit says that it has a constant term.

Everything is linear (`OzoneRust.Lfsr.run_xor`): two messages leave registers that differ by what
their difference leaves. And as long as no more than `w` bits are fed, they can be put into the
register at once and shifted afterwards (`OzoneRust.Lfsr.run_eq_iterate`). With a constant term a
shift loses nothing (`OzoneRust.Lfsr.step_eq_zero`), so a difference that is not zero, but lies
within `w` consecutive bits, leaves a register that is not zero
(`OzoneRust.Lfsr.run_ne_zero`), wherever in the message it is.
-/

namespace OzoneRust

namespace Lfsr

variable {w : ℕ} (poly : BitVec w)

/-- The register is shifted down by one. -/
def step (c : BitVec w) : BitVec w := if c.getLsbD 0 then (c >>> 1) ^^^ poly else c >>> 1

/-- A bit in the lowest place. -/
def lowest (w : ℕ) (b : Bool) : BitVec w := if b then 1#w else 0#w

/-- The register takes a bit. -/
def feed (c : BitVec w) (b : Bool) : BitVec w := step poly (c ^^^ lowest w b)

/-- The register takes a message. -/
def run (c : BitVec w) (l : List Bool) : BitVec w := l.foldl (feed poly) c

/-! ### Linearity -/

theorem step_xor (a b : BitVec w) : step poly (a ^^^ b) = step poly a ^^^ step poly b := by
  unfold step
  rw [BitVec.getLsbD_xor, BitVec.ushiftRight_xor_distrib]
  cases a.getLsbD 0 <;> cases b.getLsbD 0
  · rfl
  · exact BitVec.xor_assoc ..
  · simp only [Bool.bne_false, if_true, Bool.false_eq_true, if_false]
    ac_rfl
  · simp only [bne_self_eq_false, Bool.false_eq_true, if_false, if_true]
    rw [BitVec.xor_assoc, BitVec.xor_comm poly, BitVec.xor_assoc, BitVec.xor_self, BitVec.xor_zero]

theorem step_zero : step poly 0#w = 0#w := by
  simp [step]

theorem lowest_xor (a b : Bool) : lowest w (a ^^ b) = lowest w a ^^^ lowest w b := by
  cases a <;> cases b <;> simp [lowest]

theorem feed_xor (c d : BitVec w) (a b : Bool) :
    feed poly (c ^^^ d) (a ^^ b) = feed poly c a ^^^ feed poly d b := by
  unfold feed
  rw [lowest_xor, ← step_xor]
  congr 1
  ac_rfl

/-- **The register is linear in what it held and what it takes.** -/
theorem run_xor : ∀ {l m : List Bool} (c d : BitVec w), l.length = m.length →
    run poly (c ^^^ d) (List.zipWith (· ^^ ·) l m) = run poly c l ^^^ run poly d m
  | [], [], _, _, _ => rfl
  | a :: l, b :: m, c, d, h => by
    have hrest := run_xor (feed poly c a) (feed poly d b) (Nat.succ.inj h)
    rw [← feed_xor] at hrest
    exact hrest

theorem run_append (c : BitVec w) (l m : List Bool) :
    run poly c (l ++ m) = run poly (run poly c l) m := List.foldl_append

/-! ### Many bits at once -/

/-- The bits of a message, from the lowest place on. -/
def word (w : ℕ) : List Bool → BitVec w
  | [] => 0#w
  | b :: l => lowest w b ^^^ (word w l <<< 1)

theorem getLsbD_word : ∀ (l : List Bool) {i : ℕ}, i < w → (word w l).getLsbD i = l.getD i false
  | [], i, _ => by simp [word]
  | b :: l, i, hi => by
    rw [word, BitVec.getLsbD_xor, BitVec.getLsbD_shiftLeft]
    cases i with
    | zero => cases b <;> simp [lowest, hi]
    | succ i =>
      rw [Nat.add_sub_cancel, getLsbD_word l (by omega)]
      cases b <;> simp [lowest, hi]

/-- A word whose highest bit is not used is only moved by a shift up and a step. -/
theorem step_shiftLeft {x : BitVec w} (hx : x.getLsbD (w - 1) = false) :
    step poly (x <<< 1) = x := by
  have hlow : (x <<< 1).getLsbD 0 = false := by simp
  rw [step, if_neg (by simp [hlow])]
  refine BitVec.eq_of_getLsbD_eq fun i hi => ?_
  rw [BitVec.getLsbD_ushiftRight, BitVec.getLsbD_shiftLeft]
  by_cases hlast : 1 + i < w
  · simp [hlast]
  · obtain rfl : i = w - 1 := by omega
    simp [hlast, hx]

/-- **At most `w` bits can be taken at once**, and shifted afterwards. -/
theorem run_eq_iterate : ∀ {l : List Bool} (c : BitVec w), l.length ≤ w →
    run poly c l = (step poly)^[l.length] (c ^^^ word w l)
  | [], c, _ => by simp [run, word]
  | b :: l, c, h => by
    have hword : (word w l).getLsbD (w - 1) = false := by
      have hlen : l.length < w := h
      rw [getLsbD_word l (by omega), List.getD_eq_default _ _ (by omega)]
    have hrest := run_eq_iterate (l := l) (feed poly c b) (Nat.le_of_succ_le h)
    rw [List.length_cons, Function.iterate_succ_apply, word, ← BitVec.xor_assoc, step_xor,
      step_shiftLeft poly hword]
    exact hrest

/-! ### Bursts -/

variable {poly}

/-- With a constant term, a shift loses nothing. -/
theorem step_eq_zero (hpoly : poly.getLsbD (w - 1) = true) {c : BitVec w} (h : step poly c = 0#w) :
    c = 0#w := by
  have hw : 0 < w := by
    by_contra hw
    obtain rfl : w = 0 := by omega
    simp at hpoly
  have hget : ∀ i, (step poly c).getLsbD i = false := fun i => by simp [h]
  unfold step at hget
  cases hlow : c.getLsbD 0 with
  | true =>
    -- the highest bit comes from the polynomial alone
    have hhigh := hget (w - 1)
    rw [if_pos hlow, BitVec.getLsbD_xor, hpoly, BitVec.getLsbD_ushiftRight,
      BitVec.getLsbD_of_ge _ _ (by omega)] at hhigh
    cases hhigh
  | false =>
    refine BitVec.eq_of_getLsbD_eq fun i hi => ?_
    rw [BitVec.getLsbD_zero]
    cases i with
    | zero => exact hlow
    | succ i =>
      have hi := hget i
      rwa [if_neg (by simp [hlow]), BitVec.getLsbD_ushiftRight, Nat.add_comm] at hi

theorem iterate_step_ne_zero (hpoly : poly.getLsbD (w - 1) = true) {c : BitVec w} (hc : c ≠ 0#w) :
    ∀ n, (step poly)^[n] c ≠ 0#w
  | 0 => hc
  | n + 1 => by
    rw [Function.iterate_succ_apply']
    exact fun h => iterate_step_ne_zero hpoly hc n (step_eq_zero hpoly h)

/-- Zeros only shift. -/
theorem run_false : ∀ {l : List Bool} (c : BitVec w), true ∉ l →
    run poly c l = (step poly)^[l.length] c
  | [], _, _ => rfl
  | true :: l, _, h => absurd List.mem_cons_self h
  | false :: l, c, h => by
    have hfeed : feed poly c false = step poly c := by simp [feed, lowest]
    have hrest := run_false (l := l) (step poly c) fun hl => h (List.mem_cons_of_mem _ hl)
    rw [List.length_cons, Function.iterate_succ_apply, ← hrest, ← hfeed]
    rfl

theorem run_zero_false {l : List Bool} (h : true ∉ l) : run poly 0#w l = 0#w := by
  rw [run_false _ h]
  exact Function.iterate_fixed (step_zero poly) _

/-- **A burst is noticed**: a message with a one, all of whose ones are within `w` consecutive
places, does not leave zero. -/
theorem run_ne_zero (hpoly : poly.getLsbD (w - 1) = true) {l : List Bool} {p : ℕ} (hone : true ∈ l)
    (hin : ∀ i, l[i]? = some true → p ≤ i ∧ i < p + w) : run poly 0#w l ≠ 0#w := by
  have hsplit : l = l.take p ++ ((l.drop p).take w ++ (l.drop p).drop w) := by
    rw [List.take_append_drop, List.take_append_drop]
  have hbefore : true ∉ l.take p := by
    intro hmem
    obtain ⟨i, hi, hget⟩ := List.mem_take_iff_getElem.mp hmem
    have hlt := (hin i (by rw [List.getElem?_eq_getElem (by omega), hget])).1
    omega
  have hafter : true ∉ (l.drop p).drop w := by
    intro hmem
    rw [List.drop_drop] at hmem
    obtain ⟨i, hi⟩ := List.mem_iff_getElem?.mp hmem
    rw [List.getElem?_drop] at hi
    have hlt := (hin _ hi).2
    omega
  have hmiddle : true ∈ (l.drop p).take w := by
    rw [hsplit] at hone
    rcases List.mem_append.mp hone with hmem | hmem
    · exact absurd hmem hbefore
    · exact (List.mem_append.mp hmem).resolve_right hafter
  rw [hsplit, run_append, run_append, run_zero_false hbefore, run_false _ hafter]
  refine iterate_step_ne_zero hpoly ?_ _
  rw [run_eq_iterate poly _ (List.length_take_le ..), BitVec.zero_xor]
  refine iterate_step_ne_zero hpoly (fun hzero => ?_) _
  -- a one in the burst is a one in the word
  obtain ⟨i, hi⟩ := List.mem_iff_getElem?.mp hmiddle
  have hlt := (List.getElem?_eq_some_iff.mp hi).1
  have hbit := getLsbD_word ((l.drop p).take w) (w := w) (i := i) (by
    rw [List.length_take] at hlt
    omega)
  rw [hzero, BitVec.getLsbD_zero, List.getD_eq_getElem?_getD, hi] at hbit
  cases hbit

end Lfsr

end OzoneRust
