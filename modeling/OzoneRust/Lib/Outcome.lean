import Mathlib.Algebra.Group.Nat.Hom
import Mathlib.Data.List.Forall2
import Mathlib.Data.List.GetD
import Mathlib.Tactic.Common
import Mathlib.Tactic.Ring

/-!
# Outcomes of a Rust computation

A function of the source either returns a value, returns an error, or panics. The
panics are what the language itself checks: an arithmetic result that does not fit a
64-bit `usize`, a division by zero, an index or a slice out of bounds. They are kept
apart from the errors, since a caller can handle an error and cannot handle a panic.

Arithmetic is on `ℕ`, with every operation of the source that can overflow written
as the checked one (`OzoneRust.Outcome.add`, `OzoneRust.Outcome.mul`). A computation
that ends in `OzoneRust.Outcome.ok` under this reading has met no overflow, so it also
is what a build without overflow checks computes.

A loop of the source is a monadic fold; `OzoneRust.Outcome.foldlM_range` is its
invariant rule. Where the value does not matter, only that there is no panic and what a
returned value satisfies, the rules are those of `OzoneRust.Outcome.Safe`.
-/

namespace OzoneRust

/-- What a computation ends in: a value, an error, or a panic. -/
inductive Outcome (ε α : Type) where
  /-- The computation returned. -/
  | ok (a : α) : Outcome ε α
  /-- The computation returned an error. -/
  | err (e : ε) : Outcome ε α
  /-- The computation panicked. -/
  | panic : Outcome ε α
  deriving DecidableEq, Repr

namespace Outcome

variable {ε α β σ : Type}

/-- Sequencing: errors and panics end the computation. -/
protected def bind : Outcome ε α → (α → Outcome ε β) → Outcome ε β
  | .ok a, f => f a
  | .err e, _ => .err e
  | .panic, _ => .panic

instance : Monad (Outcome ε) where
  pure := .ok
  bind := Outcome.bind

@[simp] theorem pure_eq (a : α) : (pure a : Outcome ε α) = .ok a := rfl

@[simp] theorem ok_bind (a : α) (f : α → Outcome ε β) : (Outcome.ok a >>= f) = f a := rfl

@[simp] theorem err_bind (e : ε) (f : α → Outcome ε β) :
    ((Outcome.err e : Outcome ε α) >>= f) = .err e := rfl

@[simp] theorem panic_bind (f : α → Outcome ε β) :
    ((Outcome.panic : Outcome ε α) >>= f) = .panic := rfl

instance : LawfulMonad (Outcome ε) := LawfulMonad.mk' _
  (fun x => by cases x <;> rfl) (fun _ _ => rfl) (fun x _ _ => by cases x <;> rfl)

/-- A sequence returns exactly when both of its parts do. -/
theorem bind_eq_ok {x : Outcome ε α} {f : α → Outcome ε β} {b : β} :
    (x >>= f) = .ok b ↔ ∃ a, x = .ok a ∧ f a = .ok b := by
  cases x <;> simp

/-- Sequences with the same first part, that go on alike from what it returns. -/
theorem bind_congr_ok {x : Outcome ε α} {f g : α → Outcome ε β} (h : ∀ a, x = .ok a → f a = g a) :
    (x >>= f) = x >>= g := by
  cases x with
  | ok a => exact h a rfl
  | err e => rfl
  | panic => rfl

/-! ### Errors of a callee -/

/-- The `?` of the source: the callee's error becomes the caller's. -/
def mapErr {ε' : Type} (f : ε → ε') : Outcome ε α → Outcome ε' α
  | .ok a => .ok a
  | .err e => .err (f e)
  | .panic => .panic

@[simp] theorem mapErr_ok {ε' : Type} (f : ε → ε') (a : α) :
    mapErr f (.ok a : Outcome ε α) = .ok a := rfl

theorem mapErr_eq_ok {ε' : Type} {f : ε → ε'} {x : Outcome ε α} {a : α} :
    mapErr f x = .ok a ↔ x = .ok a := by
  cases x <;> simp [mapErr]

/-- The outcome of the first of two kinds of computations. -/
def left {ε' β : Type} : Outcome ε α → Outcome (ε ⊕ ε') (α ⊕ β)
  | .ok a => .ok (.inl a)
  | .err e => .err (.inl e)
  | .panic => .panic

/-- The outcome of the second of two kinds of computations. -/
def right {ε' β : Type} : Outcome ε α → Outcome (ε' ⊕ ε) (β ⊕ α)
  | .ok a => .ok (.inr a)
  | .err e => .err (.inr e)
  | .panic => .panic

/-- What a caller that handles errors sees; a panic is not handled. -/
def attempt {ε' : Type} : Outcome ε α → Outcome ε' (Except ε α)
  | .ok a => .ok (.ok a)
  | .err e => .ok (.error e)
  | .panic => .panic

/-- A result, with its error as one of the caller. -/
def ofExcept {ε' : Type} (f : ε → ε') : Except ε α → Outcome ε' α
  | .ok a => .ok a
  | .error e => .err (f e)

theorem eq_ok_of_ofExcept {ε' : Type} {f : ε → ε'} {r : Except ε α} {a : α}
    (h : ofExcept f r = .ok a) : r = .ok a := by
  cases r with
  | ok a' => exact congrArg Except.ok (Outcome.ok.inj h)
  | error e => cases h

theorem eq_error_of_ofExcept {r : Except ε α} {e : ε} (h : ofExcept id r = .err e) :
    r = .error e := by
  cases r with
  | ok a => cases h
  | error e' => exact congrArg Except.error (Outcome.err.inj h)

theorem ofExcept_bind (x : Except ε α) (f : α → Except ε β) :
    (ofExcept id (x >>= f) : Outcome ε β) = ofExcept id x >>= fun a => ofExcept id (f a) := by
  cases x <;> rfl

theorem ofExcept_foldlM (f : σ → β → Except ε σ) : ∀ (l : List β) (acc : σ),
    (ofExcept id (l.foldlM f acc) : Outcome ε σ) =
      l.foldlM (fun acc x => ofExcept id (f acc x)) acc
  | [], _ => rfl
  | x :: l, acc => by
    rw [List.foldlM_cons, List.foldlM_cons, ofExcept_bind]
    exact congrArg _ (funext fun acc => ofExcept_foldlM f l acc)

/-- A sequence of results is one exactly when both of its parts are. -/
theorem except_bind_eq_ok {x : Except ε α} {f : α → Except ε β} {b : β} :
    (x >>= f) = .ok b ↔ ∃ a, x = .ok a ∧ f a = .ok b := by
  cases x with
  | error e => exact ⟨nofun, nofun⟩
  | ok a => exact ⟨fun h => ⟨a, rfl, h⟩, fun ⟨_, ha, h⟩ => Except.ok.inj ha ▸ h⟩

/-! ### 64-bit arithmetic -/

/-- Addition on `usize`. -/
def add (a b : ℕ) : Outcome ε ℕ := if a + b < 2 ^ 64 then .ok (a + b) else .panic

/-- Multiplication on `usize`. -/
def mul (a b : ℕ) : Outcome ε ℕ := if a * b < 2 ^ 64 then .ok (a * b) else .panic

/-- Division on `usize`. -/
def div (a b : ℕ) : Outcome ε ℕ := if b = 0 then .panic else .ok (a / b)

/-- Remainder on `usize`. -/
def rem (a b : ℕ) : Outcome ε ℕ := if b = 0 then .panic else .ok (a % b)

/-- `usize::div_ceil`. -/
def divCeil (a b : ℕ) : Outcome ε ℕ :=
  if b = 0 then .panic else .ok (a / b + if a % b = 0 then 0 else 1)

/-- `usize::saturating_mul`. -/
def satMul (a b : ℕ) : ℕ := min (a * b) (2 ^ 64 - 1)

theorem add_eq {a b : ℕ} (h : a + b < 2 ^ 64) : (add a b : Outcome ε ℕ) = .ok (a + b) := if_pos h

theorem mul_eq {a b : ℕ} (h : a * b < 2 ^ 64) : (mul a b : Outcome ε ℕ) = .ok (a * b) := if_pos h

theorem div_eq {a b : ℕ} (h : 0 < b) : (div a b : Outcome ε ℕ) = .ok (a / b) :=
  if_neg (Nat.pos_iff_ne_zero.mp h)

theorem rem_eq {a b : ℕ} (h : 0 < b) : (rem a b : Outcome ε ℕ) = .ok (a % b) :=
  if_neg (Nat.pos_iff_ne_zero.mp h)

theorem divCeil_eq {a b : ℕ} (h : 0 < b) :
    (divCeil a b : Outcome ε ℕ) = .ok (a / b + if a % b = 0 then 0 else 1) :=
  if_neg (Nat.pos_iff_ne_zero.mp h)

theorem satMul_eq {a b : ℕ} (h : a * b < 2 ^ 64) : satMul a b = a * b :=
  Nat.min_eq_left (by omega)

/-- A value of `i64`; what is out of range panics. -/
def i64 (x : ℤ) : Outcome ε ℤ := if -2 ^ 63 ≤ x ∧ x < 2 ^ 63 then .ok x else .panic

theorem i64_eq {x : ℤ} (h : -2 ^ 63 ≤ x ∧ x < 2 ^ 63) : (i64 x : Outcome ε ℤ) = .ok x := if_pos h

/-- A value that is a natural number in range. -/
theorem i64_bind {x : ℤ} {n : ℕ} (hx : x = n) (hn : n < 2 ^ 63) (f : ℤ → Outcome ε α) :
    (i64 x >>= f) = f n := by
  rw [hx, i64_eq (by omega), ok_bind]

/-- A computation that returns `a` if it does not panic. -/
def Exactly (a : α) (x : Outcome ε α) : Prop := x = .ok a ∨ x = .panic

theorem exactly_i64 (x : ℤ) : Exactly x (i64 x : Outcome ε ℤ) := ite_eq_or_eq ..

theorem Exactly.bind {a : α} {b : β} {x : Outcome ε α} {f : α → Outcome ε β} (hx : Exactly a x)
    (hf : Exactly b (f a)) : Exactly b (x >>= f) := by
  rcases hx with rfl | rfl
  · exact hf
  · exact .inr rfl

/-! ### Indexing and slicing -/

/-- `l[i]`. -/
def index (l : List α) (i : ℕ) : Outcome ε α :=
  match l[i]? with
  | some a => .ok a
  | none => .panic

/-- `&l[i..j]`, and `&l[i..]` with `j` the length. -/
def slice (l : List α) (i j : ℕ) : Outcome ε (List α) :=
  if i ≤ j ∧ j ≤ l.length then .ok ((l.drop i).take (j - i)) else .panic

theorem index_eq {l : List α} {i : ℕ} {a : α} (h : l[i]? = some a) :
    (index l i : Outcome ε α) = .ok a := by
  rw [index, h]

theorem index_getD {l : List α} {i : ℕ} (h : i < l.length) (d : α) :
    (index l i : Outcome ε α) = .ok (l.getD i d) :=
  index_eq (by rw [List.getElem?_eq_getElem h, List.getD_eq_getElem _ _ h])

theorem index_map_range {n i : ℕ} (h : i < n) (f : ℕ → α) :
    (index ((List.range n).map f) i : Outcome ε α) = .ok (f i) := index_eq (by simp [h])

theorem slice_add_eq {l : List α} {i n : ℕ} (h : i + n ≤ l.length) :
    (slice l i (i + n) : Outcome ε (List α)) = .ok ((l.drop i).take n) := by
  rw [slice, if_pos ⟨Nat.le_add_right i n, h⟩, Nat.add_sub_cancel_left]

/-! ### Loops -/

/-- A loop that collects one value per element, none of which fails. -/
theorem mapM_eq {f : α → Outcome ε β} {g : α → β} :
    ∀ {l : List α}, (∀ a ∈ l, f a = .ok (g a)) → l.mapM f = .ok (l.map g)
  | [], _ => rfl
  | a :: l, h => by
    rw [List.mapM_cons, h a (by simp), ok_bind, mapM_eq fun b hb => h b (by simp [hb])]
    rfl

/-- What a loop that collects one value per element has collected. -/
theorem forall₂_of_mapM_eq_ok {f : α → Outcome ε β} :
    ∀ {l : List α} {bs : List β}, l.mapM f = .ok bs → List.Forall₂ (fun a b => f a = .ok b) l bs
  | [], bs, h => by
    cases h
    exact .nil
  | a :: l, bs, h => by
    rw [List.mapM_cons] at h
    obtain ⟨b, hb, h⟩ := bind_eq_ok.mp h
    obtain ⟨bs', hbs', h⟩ := bind_eq_ok.mp h
    cases h
    exact .cons hb (forall₂_of_mapM_eq_ok hbs')

/-- **The invariant rule of a counting loop**: `inv s` is the state before turn `s`. -/
theorem foldlM_range {step : σ → ℕ → Outcome ε σ} (inv : ℕ → σ) {n : ℕ}
    (h : ∀ s, s < n → step (inv s) s = .ok (inv (s + 1))) :
    (List.range n).foldlM step (inv 0) = .ok (inv n) := by
  induction n with
  | zero => rfl
  | succ n ih =>
    rw [List.range_succ, List.foldlM_append, ih fun s hs => h s (by omega), ok_bind,
      List.foldlM_cons, h n (by omega)]
    rfl

/-- A loop over `0, …, n - 1` that keeps an invariant and does not stop. -/
theorem exists_foldlM_range {step : σ → ℕ → Outcome ε σ} (inv : ℕ → σ → Prop) {n : ℕ}
    (h : ∀ s, s < n → ∀ acc, inv s acc → ∃ acc', step acc s = .ok acc' ∧ inv (s + 1) acc') {acc : σ}
    (h₀ : inv 0 acc) : ∃ acc', (List.range n).foldlM step acc = .ok acc' ∧ inv n acc' := by
  induction n with
  | zero => exact ⟨acc, rfl, h₀⟩
  | succ n ih =>
    obtain ⟨acc₁, hrun, hinv⟩ := ih fun s hs => h s (by omega)
    obtain ⟨acc₂, hstep, hinv₂⟩ := h n (by omega) acc₁ hinv
    refine ⟨acc₂, ?_, hinv₂⟩
    rw [List.range_succ, List.foldlM_append, hrun, ok_bind, List.foldlM_cons, hstep]
    rfl

/-! ### Safety

`Safe Q x`: the computation does not panic, and a value it returns satisfies `Q`. Errors are
allowed. -/

/-- No panic, and `Q` of what is returned. -/
def Safe (Q : α → Prop) : Outcome ε α → Prop
  | .ok a => Q a
  | .err _ => True
  | .panic => False

variable {Q : α → Prop} {R : β → Prop} {x : Outcome ε α}

theorem Safe.ne_panic (h : Safe Q x) : x ≠ .panic := by
  rintro rfl
  exact h

theorem Safe.of_ok {a : α} (h : Safe Q x) (hx : x = .ok a) : Q a := by
  subst hx
  exact h

theorem safe_of_eq {a : α} (hx : x = .ok a) (ha : Q a) : Safe Q x := by
  subst hx
  exact ha

theorem Safe.mono {Q' : α → Prop} (h : Safe Q x) (himp : ∀ a, Q a → Q' a) : Safe Q' x := by
  cases x with
  | ok a => exact himp a h
  | err e => exact h
  | panic => exact h

theorem Safe.bind {f : α → Outcome ε β} (hx : Safe Q x) (hf : ∀ a, Q a → Safe R (f a)) :
    Safe R (x >>= f) := by
  cases x with
  | ok a => exact hf a hx
  | err e => exact hx
  | panic => exact hx

theorem Safe.mapErr {ε' : Type} {f : ε → ε'} (h : Safe Q x) : Safe Q (x.mapErr f) := by
  cases x with
  | ok a => exact h
  | err e => exact h
  | panic => exact h

theorem safe_mapM {Q : α → β → Prop} {f : α → Outcome ε β} :
    ∀ {l : List α}, (∀ a ∈ l, Safe (Q a) (f a)) → Safe (List.Forall₂ Q l) (l.mapM f)
  | [], _ => .nil
  | a :: l, h => by
    rw [List.mapM_cons]
    refine (h a (by simp)).bind fun b hb => ?_
    exact (safe_mapM fun a' ha' => h a' (by simp [ha'])).bind fun bs hbs => .cons hb hbs

/-- A loop that collects values of one kind. -/
theorem safe_mapM_forall {R : β → Prop} {f : α → Outcome ε β} {l : List α}
    (h : ∀ a ∈ l, Safe R (f a)) :
    Safe (fun bs : List β => bs.length = l.length ∧ ∀ b ∈ bs, R b) (l.mapM f) := by
  refine (safe_mapM (Q := fun _ => R) h).mono fun bs hbs => ⟨hbs.length_eq.symm, ?_⟩
  clear h
  induction hbs with
  | nil => exact List.forall_mem_nil _
  | cons hb _ ih => exact List.forall_mem_cons.mpr ⟨hb, ih⟩

/-- The invariant rule of a counting loop, for safety. -/
theorem safe_foldlM_range {step : σ → ℕ → Outcome ε σ} (inv : ℕ → σ → Prop) {n : ℕ}
    (h : ∀ s, s < n → ∀ a, inv s a → Safe (inv (s + 1)) (step a s)) {a : σ} (h₀ : inv 0 a) :
    Safe (inv n) ((List.range n).foldlM step a) := by
  induction n with
  | zero => exact h₀
  | succ n ih =>
    rw [List.range_succ, List.foldlM_append]
    refine (ih fun s hs => h s (by omega)).bind fun b hb => ?_
    rw [List.foldlM_cons]
    exact (h n (by omega) b hb).bind fun c hc => hc

theorem safe_index {l : List α} {i : ℕ} (h : i < l.length) :
    Safe (· ∈ l) (index l i : Outcome ε α) :=
  safe_of_eq (index_eq (List.getElem?_eq_getElem h)) (List.getElem_mem h)

/-! ### Errors

Most steps of a computation can only panic. `NoErr x` says that `x` is no error; with
`OzoneRust.Outcome.Safe` it is a value. -/

/-- No error; a panic is allowed. -/
def NoErr : Outcome ε α → Prop
  | .err _ => False
  | _ => True

theorem Safe.exists_ok (h : Safe Q x) (hx : NoErr x) : ∃ a, x = .ok a ∧ Q a := by
  cases x with
  | ok a => exact ⟨a, rfl, h⟩
  | err e => exact hx.elim
  | panic => exact h.elim

theorem NoErr.bind {f : α → Outcome ε β} (hx : NoErr x) (hf : ∀ a, x = .ok a → NoErr (f a)) :
    NoErr (x >>= f) := by
  cases x with
  | ok a => exact hf a rfl
  | err e => exact hx
  | panic => trivial

theorem NoErr.ite {c : Prop} [Decidable c] {y : Outcome ε α} (hx : NoErr x) (hy : NoErr y) :
    NoErr (if c then x else y) := by
  split
  · exact hx
  · exact hy

theorem noErr_add (a b : ℕ) : NoErr (add a b : Outcome ε ℕ) := .ite trivial trivial

theorem noErr_mul (a b : ℕ) : NoErr (mul a b : Outcome ε ℕ) := .ite trivial trivial

theorem noErr_divCeil (a b : ℕ) : NoErr (divCeil a b : Outcome ε ℕ) := .ite trivial trivial

theorem noErr_index (l : List α) (i : ℕ) : NoErr (index l i : Outcome ε α) := by
  unfold index
  split <;> trivial

theorem noErr_slice (l : List α) (i j : ℕ) : NoErr (slice l i j : Outcome ε (List α)) :=
  .ite trivial trivial

theorem noErr_mapM {f : α → Outcome ε β} : ∀ {l : List α}, (∀ a ∈ l, NoErr (f a)) → NoErr (l.mapM f)
  | [], _ => trivial
  | a :: l, h => by
    rw [List.mapM_cons]
    refine (h a (by simp)).bind fun b _ => ?_
    exact (noErr_mapM fun a' ha' => h a' (by simp [ha'])).bind fun bs _ => trivial

theorem noErr_foldlM {step : σ → α → Outcome ε σ} {l : List α}
    (h : ∀ s, ∀ a ∈ l, NoErr (step s a)) (s : σ) : NoErr (l.foldlM step s) := by
  induction l generalizing s with
  | nil => trivial
  | cons a l ih =>
    rw [List.foldlM_cons]
    refine (h s a (by simp)).bind fun s' _ => ih (fun t b hb => h t b (by simp [hb])) s'

end Outcome

end OzoneRust
