import Mathlib.Logic.Function.Basic
import Mathlib.Logic.Relation
import OzoneRust.Lib.Outcome

/-!
# Interleaved programs

Sequential programs that make calls, run side by side. A program
(`OzoneRust.Prog`) is finished, with an outcome, or is a call together with what it does for
each answer. A system says which answers a call can get in a world, and what world it
leaves (`OzoneRust.System`); a pool of threads takes one call of one thread at a time
(`OzoneRust.Pool.Step`). A program that runs alone just gets one answer after the other
(`OzoneRust.Prog.Ends`).

What is proved of a thread is proved with the other threads in the way, by rely and
guarantee. Every step of thread `u` meets `Guar u`; between two calls of thread `t` the
world has changed by any number of steps that meet `Guar u` for some other `u`
(`OzoneRust.RelyGuarantee.Others`). `OzoneRust.RelyGuarantee.Safe` says that a program, from
a world on and whatever the others do, keeps the common invariant, meets its own guarantee
at each call, and ends in its postcondition. The programs being safe one by one, the pool
is (`OzoneRust.RelyGuarantee.safe_of_reachable`).

The rules follow the shape of a program: `OzoneRust.RelyGuarantee.Safe.call` for one call,
where the facts a thread keeps over the call must be stable under the others
(`OzoneRust.RelyGuarantee.Stable`), `OzoneRust.RelyGuarantee.Safe.bind` for a sequence and
`OzoneRust.RelyGuarantee.Safe.foldlM` for a loop.
-/

namespace OzoneRust

/-- The calls a program can make, and the answers each can get. -/
structure Calls where
  /-- The calls. -/
  Op : Type
  /-- The answers. -/
  Res : Op → Type

/-- A program that makes calls. -/
inductive Prog (C : Calls) (ε α : Type) : Type where
  /-- The program has ended. -/
  | done (o : Outcome ε α) : Prog C ε α
  /-- The program makes a call, and goes on with the answer. -/
  | call (op : C.Op) (next : C.Res op → Prog C ε α) : Prog C ε α

namespace Prog

variable {C : Calls} {ε ε' α β σ : Type}

/-- Sequencing: an error or a panic ends the program. -/
protected def bind : Prog C ε α → (α → Prog C ε β) → Prog C ε β
  | .done (.ok a), f => f a
  | .done (.err e), _ => .done (.err e)
  | .done .panic, _ => .done .panic
  | .call op next, f => .call op fun r => (next r).bind f

instance : Monad (Prog C ε) where
  pure a := .done (.ok a)
  bind := Prog.bind

/-- One call. -/
def perform (op : C.Op) : Prog C ε (C.Res op) := .call op fun r => .done (.ok r)

/-- A computation without calls. -/
def lift (o : Outcome ε α) : Prog C ε α := .done o

/-- The outcome of a program, for a caller that handles errors. -/
def attempt : Prog C ε α → Prog C ε' (Except ε α)
  | .done (.ok a) => .done (.ok (.ok a))
  | .done (.err e) => .done (.ok (.error e))
  | .done .panic => .done .panic
  | .call op next => .call op fun r => (next r).attempt

/-- The `?` of the source on a callee with another error type. -/
def mapErr (f : ε → ε') : Prog C ε α → Prog C ε' α
  | .done o => .done (o.mapErr f)
  | .call op next => .call op fun r => (next r).mapErr f

/-- The same calls, and another outcome. -/
def mapOutcome (f : Outcome ε α → Outcome ε' β) : Prog C ε α → Prog C ε' β
  | .done o => .done (f o)
  | .call op next => .call op fun r => (next r).mapOutcome f

/-- A program over other calls: each call is replaced by the program that makes it. -/
def interpret {C' : Calls} (h : (op : C.Op) → Prog C' ε (C.Res op)) : Prog C ε α → Prog C' ε α
  | .done o => .done o
  | .call op next => h op >>= fun r => (next r).interpret h

/-- Every call the program can make, whatever the answers, is one of `P`. -/
def Makes (P : C.Op → Prop) : Prog C ε α → Prop
  | .done _ => True
  | .call op next => P op ∧ ∀ r, (next r).Makes P

section Makes

variable {P : C.Op → Prop}

theorem Makes.bind {f : α → Prog C ε β} : ∀ {p : Prog C ε α}, p.Makes P →
    (∀ a, (f a).Makes P) → (p >>= f).Makes P
  | .done (.ok a), _, hf => hf a
  | .done (.err _), _, _ => trivial
  | .done .panic, _, _ => trivial
  | .call _ _, hp, hf => ⟨hp.1, fun r => (hp.2 r).bind hf⟩

theorem Makes.mono {P' : C.Op → Prop} (h : ∀ op, P op → P' op) : ∀ {p : Prog C ε α}, p.Makes P →
    p.Makes P'
  | .done _, _ => trivial
  | .call op _, hp => ⟨h op hp.1, fun r => (hp.2 r).mono h⟩

theorem makes_perform {op : C.Op} (h : P op) : (perform op : Prog C ε (C.Res op)).Makes P :=
  ⟨h, fun _ => trivial⟩

theorem Makes.mapErr {f : ε → ε'} : ∀ {p : Prog C ε α}, p.Makes P → (p.mapErr f).Makes P
  | .done _, _ => trivial
  | .call _ _, hp => ⟨hp.1, fun r => (hp.2 r).mapErr⟩

theorem Makes.attempt : ∀ {p : Prog C ε α}, p.Makes P →
    (p.attempt : Prog C ε' (Except ε α)).Makes P
  | .done (.ok _), _ => trivial
  | .done (.err _), _ => trivial
  | .done .panic, _ => trivial
  | .call _ _, hp => ⟨hp.1, fun r => (hp.2 r).attempt⟩

theorem Makes.mapOutcome {f : Outcome ε α → Outcome ε' β} : ∀ {p : Prog C ε α}, p.Makes P →
    (p.mapOutcome f).Makes P
  | .done _, _ => trivial
  | .call _ _, hp => ⟨hp.1, fun r => (hp.2 r).mapOutcome⟩

theorem makes_interpret {C' : Calls} {P : C'.Op → Prop} {h : (op : C.Op) → Prog C' ε (C.Res op)}
    (hh : ∀ op, (h op).Makes P) : ∀ p : Prog C ε α, (p.interpret h).Makes P
  | .done _ => trivial
  | .call op next => (hh op).bind fun r => makes_interpret hh (next r)

theorem makes_foldlM {f : σ → β → Prog C ε σ} : ∀ {l : List β},
    (∀ x ∈ l, ∀ acc, (f acc x).Makes P) → ∀ acc : σ, (l.foldlM f acc).Makes P
  | [], _, _ => trivial
  | x :: l, hf, acc => by
    rw [List.foldlM_cons]
    exact (hf x List.mem_cons_self acc).bind
      fun acc => makes_foldlM (fun y hy => hf y (List.mem_cons_of_mem x hy)) acc

end Makes

/-- What the program returns has a property, whatever the answers are. -/
def Returns (R : α → Prop) : Prog C ε α → Prop
  | .done (.ok a) => R a
  | .done _ => True
  | .call _ next => ∀ r, (next r).Returns R

section Returns

variable {R : α → Prop}

theorem returns_true : ∀ p : Prog C ε α, p.Returns fun _ => True
  | .done (.ok _) => trivial
  | .done (.err _) => trivial
  | .done .panic => trivial
  | .call _ next => fun r => returns_true (next r)

theorem returns_lift {o : Outcome ε α} (h : ∀ a, o = .ok a → R a) :
    (lift o : Prog C ε α).Returns R := by
  cases o with
  | ok a => exact h a rfl
  | err e => trivial
  | panic => trivial

theorem Returns.bind {R' : β → Prop} {f : α → Prog C ε β} : ∀ {p : Prog C ε α}, p.Returns R →
    (∀ a, R a → (f a).Returns R') → (p >>= f).Returns R'
  | .done (.ok a), hp, hf => hf a hp
  | .done (.err _), _, _ => trivial
  | .done .panic, _, _ => trivial
  | .call _ _, hp, hf => fun r => (hp r).bind hf

theorem Returns.mapErr {f : ε → ε'} : ∀ {p : Prog C ε α}, p.Returns R → (p.mapErr f).Returns R
  | .done (.ok _), hp => hp
  | .done (.err _), _ => trivial
  | .done .panic, _ => trivial
  | .call _ _, hp => fun r => (hp r).mapErr

theorem returns_foldlM {R : σ → Prop} {f : σ → β → Prog C ε σ}
    (hf : ∀ x acc, R acc → (f acc x).Returns R) : ∀ {l : List β} {acc : σ}, R acc →
    (l.foldlM f acc).Returns R
  | [], _, hacc => hacc
  | x :: l, acc, hacc => by
    rw [List.foldlM_cons]
    exact (hf x acc hacc).bind fun acc hacc => returns_foldlM hf hacc

/-- The calls of a sequence, where those of the second part depend on what the first returns. -/
theorem Makes.bind_returns {P : C.Op → Prop} {f : α → Prog C ε β} : ∀ {p : Prog C ε α},
    p.Makes P → p.Returns R → (∀ a, R a → (f a).Makes P) → (p >>= f).Makes P
  | .done (.ok a), _, ha, hf => hf a ha
  | .done (.err _), _, _, _ => trivial
  | .done .panic, _, _, _ => trivial
  | .call _ _, hp, hr, hf => ⟨hp.1, fun r => (hp.2 r).bind_returns (hr r) hf⟩

end Returns

/-- No answers make the program panic. -/
def NoPanic : Prog C ε α → Prop
  | .done o => o ≠ .panic
  | .call _ next => ∀ r, (next r).NoPanic

section NoPanic

theorem NoPanic.bind {f : α → Prog C ε β} : ∀ {p : Prog C ε α}, p.NoPanic →
    (∀ a, (f a).NoPanic) → (p >>= f).NoPanic
  | .done (.ok a), _, hf => hf a
  | .done (.err _), _, _ => nofun
  | .done .panic, hp, _ => absurd rfl hp
  | .call _ _, hp, hf => fun r => (hp r).bind hf

theorem noPanic_foldlM {f : σ → β → Prog C ε σ} : ∀ {l : List β},
    (∀ x ∈ l, ∀ acc, (f acc x).NoPanic) → ∀ acc : σ, (l.foldlM f acc).NoPanic
  | [], _, _ => nofun
  | x :: l, hf, acc => by
    rw [List.foldlM_cons]
    exact (hf x List.mem_cons_self acc).bind
      fun acc => noPanic_foldlM (fun y hy => hf y (List.mem_cons_of_mem x hy)) acc

end NoPanic

/-- A program runs to its end, alone: every call gets an answer the world allows. -/
def Ends {W : Type} (answers : W → (op : C.Op) → C.Res op → W → Prop) :
    Prog C ε α → W → Outcome ε α → W → Prop
  | .done o, w, o', w' => o' = o ∧ w' = w
  | .call op next, w, o', w' => ∃ r w₁, answers w op r w₁ ∧ (next r).Ends answers w₁ o' w'

section Ends

variable {W : Type} {answers : W → (op : C.Op) → C.Res op → W → Prop} {w w' : W}

theorem Ends.of_bind {f : α → Prog C ε β} {b : β} : ∀ {p : Prog C ε α} {w : W},
    (p >>= f).Ends answers w (.ok b) w' →
    ∃ a w₁, p.Ends answers w (.ok a) w₁ ∧ (f a).Ends answers w₁ (.ok b) w'
  | .done (.ok a), w, h => ⟨a, w, ⟨rfl, rfl⟩, h⟩
  | .done (.err _), _, h => by cases h.1
  | .done .panic, _, h => by cases h.1
  | .call _ _, _, ⟨r, w₁, hans, h⟩ =>
    let ⟨a, w₂, hp, hf⟩ := Ends.of_bind h
    ⟨a, w₂, ⟨r, w₁, hans, hp⟩, hf⟩

/-- How a sequence ends: in its second part, or where its first part fails. -/
theorem Ends.cases_bind {f : α → Prog C ε β} {o : Outcome ε β} : ∀ {p : Prog C ε α} {w : W},
    (p >>= f).Ends answers w o w' →
    (∃ a w₁, p.Ends answers w (.ok a) w₁ ∧ (f a).Ends answers w₁ o w') ∨
    (∃ e, o = .err e ∧ p.Ends answers w (.err e) w') ∨ o = .panic ∧ p.Ends answers w .panic w'
  | .done (.ok a), w, h => .inl ⟨a, w, ⟨rfl, rfl⟩, h⟩
  | .done (.err e), _, h => .inr (.inl ⟨e, h.1, rfl, h.2⟩)
  | .done .panic, _, h => .inr (.inr ⟨h.1, rfl, h.2⟩)
  | .call _ _, _, ⟨r, w₁, hans, h⟩ => by
    rcases Ends.cases_bind h with ⟨a, w₂, hp, hf⟩ | ⟨e, ho, hp⟩ | ⟨ho, hp⟩
    · exact .inl ⟨a, w₂, ⟨r, w₁, hans, hp⟩, hf⟩
    · exact .inr (.inl ⟨e, ho, r, w₁, hans, hp⟩)
    · exact .inr (.inr ⟨ho, r, w₁, hans, hp⟩)

theorem Ends.bind {f : α → Prog C ε β} {a : α} {w₁ : W} {o : Outcome ε β} :
    ∀ {p : Prog C ε α} {w : W}, p.Ends answers w (.ok a) w₁ → (f a).Ends answers w₁ o w' →
    (p >>= f).Ends answers w o w'
  | .done (.ok _), _, ⟨ha, hw⟩, hf => by
    cases ha
    exact hw ▸ hf
  | .call _ _, _, ⟨r, w₂, hans, h⟩, hf => ⟨r, w₂, hans, h.bind hf⟩

theorem Ends.bind_err {f : α → Prog C ε β} {e : ε} : ∀ {p : Prog C ε α} {w : W},
    p.Ends answers w (.err e) w' → (p >>= f).Ends answers w (.err e) w'
  | .done (.err _), _, h => ⟨by cases h.1; rfl, h.2⟩
  | .call _ _, _, ⟨r, w₁, hans, h⟩ => ⟨r, w₁, hans, h.bind_err⟩

theorem Ends.bind_panic {f : α → Prog C ε β} : ∀ {p : Prog C ε α} {w : W},
    p.Ends answers w .panic w' → (p >>= f).Ends answers w .panic w'
  | .done .panic, _, h => ⟨rfl, h.2⟩
  | .call _ _, _, ⟨r, w₁, hans, h⟩ => ⟨r, w₁, hans, h.bind_panic⟩

/-- How a program ends whose caller handles errors. -/
theorem Ends.cases_attempt {o : Outcome ε' (Except ε α)} : ∀ {p : Prog C ε α} {w : W},
    (p.attempt : Prog C ε' (Except ε α)).Ends answers w o w' →
    (∃ a, o = .ok (.ok a) ∧ p.Ends answers w (.ok a) w') ∨
    (∃ e, o = .ok (.error e) ∧ p.Ends answers w (.err e) w') ∨
    o = .panic ∧ p.Ends answers w .panic w'
  | .done (.ok a), _, h => .inl ⟨a, h.1, rfl, h.2⟩
  | .done (.err e), _, h => .inr (.inl ⟨e, h.1, rfl, h.2⟩)
  | .done .panic, _, h => .inr (.inr ⟨h.1, rfl, h.2⟩)
  | .call _ _, _, ⟨r, w₁, hans, h⟩ => by
    rcases Ends.cases_attempt h with ⟨a, ho, hp⟩ | ⟨e, ho, hp⟩ | ⟨ho, hp⟩
    · exact .inl ⟨a, ho, r, w₁, hans, hp⟩
    · exact .inr (.inl ⟨e, ho, r, w₁, hans, hp⟩)
    · exact .inr (.inr ⟨ho, r, w₁, hans, hp⟩)

theorem Ends.attempt : ∀ {p : Prog C ε α} {w : W} {o : Outcome ε α}, p.Ends answers w o w' →
    (p.attempt : Prog C ε' (Except ε α)).Ends answers w o.attempt w'
  | .done (.ok _), _, _, h => ⟨by rw [h.1]; rfl, h.2⟩
  | .done (.err _), _, _, h => ⟨by rw [h.1]; rfl, h.2⟩
  | .done .panic, _, _, h => ⟨by rw [h.1]; rfl, h.2⟩
  | .call _ _, _, _, ⟨r, w₁, hans, h⟩ => ⟨r, w₁, hans, h.attempt⟩

/-- A run is one wherever its answers are allowed. -/
theorem Ends.mono {answers' : W → (op : C.Op) → C.Res op → W → Prop}
    (h : ∀ w op r w', answers w op r w' → answers' w op r w') {o : Outcome ε α} :
    ∀ {p : Prog C ε α} {w : W}, p.Ends answers w o w' → p.Ends answers' w o w'
  | .done _, _, hp => hp
  | .call op _, w, ⟨r, w₁, hans, hp⟩ => ⟨r, w₁, h w op r w₁ hans, hp.mono h⟩

/-- Where each call has one answer, a program has one run. -/
theorem Ends.unique (hone : ∀ w op r w' r' w'', answers w op r w' → answers w op r' w'' →
    r = r' ∧ w' = w'') {o o' : Outcome ε α} {w'' : W} : ∀ {p : Prog C ε α} {w : W},
    p.Ends answers w o w' → p.Ends answers w o' w'' → o = o' ∧ w' = w''
  | .done _, _, h, h' => ⟨h.1.trans h'.1.symm, h.2.trans h'.2.symm⟩
  | .call op _, w, ⟨r, w₁, hans, h⟩, ⟨r', w₂, hans', h'⟩ => by
    obtain ⟨rfl, rfl⟩ := hone w op r w₁ r' w₂ hans hans'
    exact h.unique hone h'

/-- **Runs from related worlds**: where each call of a kind gets the same answers in related
worlds, and leaves related ones, a program with such calls has the same runs. -/
theorem Ends.related {V : Type} {answers' : V → (op : C.Op) → C.Res op → V → Prop}
    {P : C.Op → Prop} {R : W → V → Prop}
    (hstep : ∀ w v op r w', P op → R w v → answers w op r w' → ∃ v', answers' v op r v' ∧ R w' v')
    {o : Outcome ε α} : ∀ {p : Prog C ε α} {w : W} {v : V}, p.Makes P → p.Ends answers w o w' →
    R w v → ∃ v', p.Ends answers' v o v' ∧ R w' v'
  | .done _, _, v, _, h, hR => ⟨v, ⟨h.1, rfl⟩, h.2 ▸ hR⟩
  | .call op _, w, v, hp, ⟨r, w₁, hans, h⟩, hR => by
    obtain ⟨v₁, hans', hR₁⟩ := hstep w v op r w₁ hp.1 hR hans
    obtain ⟨v', h', hR'⟩ := Ends.related hstep (hp.2 r) h hR₁
    exact ⟨v', ⟨r, v₁, hans', h'⟩, hR'⟩

theorem Ends.of_mapErr {f : ε → ε'} {a : α} : ∀ {p : Prog C ε α} {w : W},
    (p.mapErr f).Ends answers w (.ok a) w' → p.Ends answers w (.ok a) w'
  | .done (.ok _), _, h => ⟨by cases h.1; rfl, h.2⟩
  | .done (.err _), _, h => by cases h.1
  | .done .panic, _, h => by cases h.1
  | .call _ _, _, ⟨r, w₁, hans, h⟩ => ⟨r, w₁, hans, Ends.of_mapErr h⟩

theorem Ends.mapOutcome {f : Outcome ε α → Outcome ε' β} {o : Outcome ε α} :
    ∀ {p : Prog C ε α} {w : W}, p.Ends answers w o w' →
    (p.mapOutcome f).Ends answers w (f o) w'
  | .done _, _, h => ⟨congrArg f h.1, h.2⟩
  | .call _ _, _, ⟨r, w₁, hans, h⟩ => ⟨r, w₁, hans, h.mapOutcome⟩

/-- Where every call gets an answer, every program comes to its end. -/
theorem exists_ends (h : ∀ w op, ∃ r w', answers w op r w') :
    ∀ (p : Prog C ε α) (w : W), ∃ o w', p.Ends answers w o w'
  | .done o, w => ⟨o, w, rfl, rfl⟩
  | .call op next, w =>
    let ⟨r, w₁, hans⟩ := h w op
    let ⟨o, w', hend⟩ := exists_ends h (next r) w₁
    ⟨o, w', r, w₁, hans, hend⟩

theorem NoPanic.not_ends : ∀ {p : Prog C ε α} {w : W}, p.NoPanic → ¬p.Ends answers w .panic w'
  | .done _, _, hp, h => hp h.1.symm
  | .call _ _, _, hp, ⟨r, _, _, h⟩ => (hp r).not_ends h

/-- What the calls of a program keep is kept by the whole program. -/
theorem Ends.of_makes {P : C.Op → Prop} {F : W → Prop}
    (hstep : ∀ w op r w', P op → F w → answers w op r w' → F w') {o : Outcome ε α} :
    ∀ {p : Prog C ε α} {w : W}, p.Makes P → p.Ends answers w o w' → F w → F w'
  | .done _, _, _, h, hw => h.2 ▸ hw
  | .call _ _, w, hp, ⟨r, w₁, hans, h⟩, hw =>
    Ends.of_makes hstep (hp.2 r) h (hstep w _ r w₁ hp.1 hw hans)

end Ends

section Exec

variable {W : Type}

/-- The run in which each call gets the answer that `serve` gives. -/
def exec (serve : W → (op : C.Op) → C.Res op × W) : Prog C ε α → W → Outcome ε α × W
  | .done o, w => (o, w)
  | .call op next, w => (next (serve w op).1).exec serve (serve w op).2

theorem ends_exec {answers : W → (op : C.Op) → C.Res op → W → Prop}
    {serve : W → (op : C.Op) → C.Res op × W}
    (h : ∀ w op, answers w op (serve w op).1 (serve w op).2) : ∀ (p : Prog C ε α) (w : W),
    p.Ends answers w (p.exec serve w).1 (p.exec serve w).2
  | .done _, _ => ⟨rfl, rfl⟩
  | .call op next, w => ⟨_, _, h w op, ends_exec h (next (serve w op).1) (serve w op).2⟩

end Exec

section Eval

variable {W : Type} (answer : (op : C.Op) → C.Res op)

/-- The outcome where a call gets the same answer whenever it is made. -/
def eval : Prog C ε α → Outcome ε α
  | .done o => o
  | .call op next => (next (answer op)).eval

theorem eval_bind (f : α → Prog C ε β) : ∀ p : Prog C ε α,
    (p >>= f).eval answer = p.eval answer >>= fun a => (f a).eval answer
  | .done (.ok _) => rfl
  | .done (.err _) => rfl
  | .done .panic => rfl
  | .call op next => eval_bind f (next (answer op))

theorem eval_foldlM (f : σ → β → Prog C ε σ) : ∀ (l : List β) (acc : σ),
    (l.foldlM f acc).eval answer = l.foldlM (fun acc x => (f acc x).eval answer) acc
  | [], _ => rfl
  | x :: l, acc => by
    rw [List.foldlM_cons, List.foldlM_cons, eval_bind]
    exact congrArg _ (funext fun acc => eval_foldlM f l acc)

end Eval

/-! ### What the answers show -/

section Traced

variable {W μ : Type} {answers : W → (op : C.Op) → C.Res op → W → Prop}

/-- Answers, and a list of what `found` has to say about each. -/
def logged (answers : W → (op : C.Op) → C.Res op → W → Prop)
    (found : W → (op : C.Op) → C.Res op → W → List μ) (w : W × List μ) (op : C.Op) (r : C.Res op)
    (w' : W × List μ) : Prop :=
  answers w.1 op r w'.1 ∧ w'.2 = w.2 ++ found w.1 op r w'.1

/-- The same calls; the program returns its outcome together with what was found in the
answers. A panic stays one. -/
def traced (found : (op : C.Op) → C.Res op → List μ) :
    Prog C ε α → List μ → Prog C ε' (Outcome ε α × List μ)
  | .done .panic, _ => .done .panic
  | .done o, seen => .done (.ok (o, seen))
  | .call op next, seen => .call op fun r => (next r).traced found (seen ++ found op r)

/-- A run without its list. -/
theorem Ends.of_logged {found : W → (op : C.Op) → C.Res op → W → List μ} {o : Outcome ε α}
    {w' : W × List μ} : ∀ {p : Prog C ε α} {w : W × List μ}, p.Ends (logged answers found) w o w' →
    p.Ends answers w.1 o w'.1
  | .done _, _, h => ⟨h.1, congrArg Prod.fst h.2⟩
  | .call _ _, _, ⟨r, w₁, hans, h⟩ => ⟨r, w₁.1, hans.1, h.of_logged⟩

end Traced

theorem bind_assoc {γ : Type} (f : α → Prog C ε β) (g : β → Prog C ε γ) : ∀ p : Prog C ε α,
    (p >>= f >>= g) = p >>= fun a => f a >>= g
  | .done (.ok _) => rfl
  | .done (.err _) => rfl
  | .done .panic => rfl
  | .call op next => congrArg (Prog.call op) (funext fun r => bind_assoc f g (next r))

theorem lift_ok_bind (a : α) (f : α → Prog C ε β) : (lift (.ok a) >>= f) = f a := rfl

end Prog

/-- What the calls of each thread can do to the world. -/
structure System (C : Calls) (T W : Type) where
  /-- Thread `t` starts. -/
  starts : T → W → W → Prop
  /-- A call of thread `t` gets an answer and leaves a world. -/
  answers : T → W → (op : C.Op) → C.Res op → W → Prop

/-- Threads and the world they share; a thread that has not started is `none`. -/
structure Pool (C : Calls) (ε α T W : Type) where
  /-- What each thread still has to do. -/
  threads : T → Option (Prog C ε α)
  /-- The world. -/
  world : W

namespace Pool

variable {C : Calls} {ε α T W : Type} [DecidableEq T]

/-- One thread starts, or has one call answered. -/
inductive Step (sys : System C T W) (prog : T → Prog C ε α) :
    Pool C ε α T W → Pool C ε α T W → Prop where
  /-- Thread `t` starts. -/
  | start {P : Pool C ε α T W} {t : T} {w : W} (ht : P.threads t = none)
      (h : sys.starts t P.world w) :
      Step sys prog P ⟨Function.update P.threads t (some (prog t)), w⟩
  /-- A call of thread `t` is answered. -/
  | call {P : Pool C ε α T W} {t : T} {op : C.Op} {next : C.Res op → Prog C ε α} {r : C.Res op}
      {w : W} (ht : P.threads t = some (.call op next)) (h : sys.answers t P.world op r w) :
      Step sys prog P ⟨Function.update P.threads t (some (next r)), w⟩

/-- The pools that are reached from a world in which no thread has started. -/
def Reachable (sys : System C T W) (prog : T → Prog C ε α) (w₀ : W) :
    Pool C ε α T W → Prop :=
  Relation.ReflTransGen (Step sys prog) ⟨fun _ => none, w₀⟩

/-- A thread can run to its end while the others wait. -/
theorem steps_of_ends {sys : System C T W} {prog : T → Prog C ε α} {t : T} {o : Outcome ε α}
    {w' : W} : ∀ {p : Prog C ε α} {P : Pool C ε α T W}, P.threads t = some p →
    p.Ends (sys.answers t) P.world o w' →
    Relation.ReflTransGen (Step sys prog) P ⟨Function.update P.threads t (some (.done o)), w'⟩
  | .done _, P, ht, ⟨ho, hw⟩ => by
    rw [ho, hw, ← ht, Function.update_eq_self]
  | .call op next, P, ht, ⟨r, w₁, hans, h⟩ => by
    have hrest : Relation.ReflTransGen (Step sys prog)
        ⟨Function.update P.threads t (some (next r)), w₁⟩
        ⟨Function.update (Function.update P.threads t (some (next r))) t (some (.done o)), w'⟩ :=
      steps_of_ends (Function.update_self ..) h
    rw [Function.update_idem] at hrest
    exact .head (.call ht hans) hrest

/-- A thread can run from its start to its end while the others wait. -/
theorem steps_of_start {sys : System C T W} {prog : T → Prog C ε α} {t : T} {o : Outcome ε α}
    {P : Pool C ε α T W} {w w' : W} (ht : P.threads t = none) (hstart : sys.starts t P.world w)
    (h : (prog t).Ends (sys.answers t) w o w') :
    Relation.ReflTransGen (Step sys prog) P ⟨Function.update P.threads t (some (.done o)), w'⟩ := by
  have hrest : Relation.ReflTransGen (Step sys prog)
      ⟨Function.update P.threads t (some (prog t)), w⟩
      ⟨Function.update (Function.update P.threads t (some (prog t))) t (some (.done o)), w'⟩ :=
    steps_of_ends (Function.update_self ..) h
  rw [Function.update_idem] at hrest
  exact .head (.start ht hstart) hrest

section Related

variable {V : Type} {sys : System C T W} {sys' : System C T V} {prog : T → Prog C ε α}
  {K : C.Op → Prop} {R : W → V → Prop}

/-- The threads of a pool only make calls of a kind. -/
def Makes (K : C.Op → Prop) (P : Pool C ε α T W) : Prop :=
  ∀ t p, P.threads t = some p → p.Makes K

/-- **A step on related worlds**: where each call of a kind gets the same answers in related
worlds, and leaves related ones, a pool whose threads make such calls has the same steps. -/
theorem Step.related
    (hstart : ∀ t w v w', R w v → sys.starts t w w' → ∃ v', sys'.starts t v v' ∧ R w' v')
    (hcall : ∀ t w v op r w', K op → R w v → sys.answers t w op r w' →
      ∃ v', sys'.answers t v op r v' ∧ R w' v')
    (hprog : ∀ t, (prog t).Makes K) {P P' : Pool C ε α T W} {v : V} (hP : P.Makes K)
    (hR : R P.world v) (h : Step sys prog P P') :
    P'.Makes K ∧ ∃ v', Step sys' prog ⟨P.threads, v⟩ ⟨P'.threads, v'⟩ ∧ R P'.world v' := by
  have hupdate : ∀ {t : T} {p : Prog C ε α}, p.Makes K → ∀ u q,
      Function.update P.threads t (some p) u = some q → q.Makes K := by
    intro t p hp u q hq
    by_cases hu : u = t
    · rw [hu, Function.update_self] at hq
      exact Option.some.inj hq ▸ hp
    · rw [Function.update_of_ne hu] at hq
      exact hP u q hq
  cases h with
  | @start t w ht hs =>
    obtain ⟨v', hs', hR'⟩ := hstart t _ v w hR hs
    exact ⟨hupdate (hprog t), v', .start ht hs', hR'⟩
  | @call t op next r w ht hans =>
    obtain ⟨hop, hnext⟩ := hP t _ ht
    obtain ⟨v', hans', hR'⟩ := hcall t _ v op r w hop hR hans
    exact ⟨hupdate (hnext r), v', .call ht hans', hR'⟩

end Related

/-- A turn of thread `t`: it starts, or its call gets the answer that `serve` gives, if there
is one. -/
def turn (prog : T → Prog C ε α) (starts : T → W → W)
    (serve : T → W → (op : C.Op) → Option (C.Res op × W)) (P : Pool C ε α T W) (t : T) :
    Pool C ε α T W :=
  match P.threads t with
  | none => ⟨Function.update P.threads t (some (prog t)), starts t P.world⟩
  | some (.done _) => P
  | some (.call op next) =>
    match serve t P.world op with
    | none => P
    | some (r, w) => ⟨Function.update P.threads t (some (next r)), w⟩

/-- A schedule is a run of the pool. -/
theorem steps_foldl_turn {sys : System C T W} {prog : T → Prog C ε α} {starts : T → W → W}
    {serve : T → W → (op : C.Op) → Option (C.Res op × W)}
    (hstarts : ∀ t w, sys.starts t w (starts t w))
    (hserve : ∀ t w op r w', serve t w op = some (r, w') → sys.answers t w op r w')
    (schedule : List T) (P : Pool C ε α T W) :
    Relation.ReflTransGen (Step sys prog) P (schedule.foldl (turn prog starts serve) P) := by
  induction schedule generalizing P with
  | nil => exact .refl
  | cons t schedule ih =>
    refine .trans ?_ (ih _)
    unfold turn
    split
    case h_1 ht => exact .single (.start ht (hstarts t _))
    case h_2 => exact .refl
    case h_3 op next ht =>
      split
      · exact .refl
      · next r w hr => exact .single (.call ht (hserve t _ op r w hr))

end Pool

/-! ### Rely and guarantee -/

/-- The common invariant of a pool, and what every step of each thread meets. -/
structure RelyGuarantee (C : Calls) (T W : Type) where
  /-- The system the threads run on. -/
  sys : System C T W
  /-- What holds between any two steps. -/
  Inv : W → Prop
  /-- What a step of thread `t` does at most. -/
  Guar : T → W → W → Prop

namespace RelyGuarantee

variable {C : Calls} {ε ε' α β σ T W : Type} (𝓡 : RelyGuarantee C T W)

/-- One step of a thread other than `t`. -/
def Other (t : T) (w w' : W) : Prop := 𝓡.Inv w ∧ 𝓡.Inv w' ∧ ∃ u, u ≠ t ∧ 𝓡.Guar u w w'

/-- Any number of steps of threads other than `t`. -/
def Others (t : T) : W → W → Prop := Relation.ReflTransGen (𝓡.Other t)

/-- A fact no other thread can spoil. -/
def Stable (t : T) (F : W → Prop) : Prop := ∀ w w', 𝓡.Other t w w' → F w → F w'

/-- **Safe**: from this world on, whatever the others do, every call keeps the invariant and
meets the guarantee, and the outcome meets the postcondition. -/
def Safe (t : T) (Q : Outcome ε α → W → Prop) : Prog C ε α → W → Prop
  | .done o, w => Q o w
  | .call op next, w => ∀ w₁, 𝓡.Others t w w₁ → 𝓡.Inv w₁ → ∀ r w₂, 𝓡.sys.answers t w₁ op r w₂ →
      𝓡.Inv w₂ ∧ 𝓡.Guar t w₁ w₂ ∧ Safe t Q (next r) w₂

/-- The postcondition of the first part of a sequence that ends in `Q`: `I` of a value, and
`Q` of what ends the whole. -/
def through (I : α → W → Prop) (Q : Outcome ε β → W → Prop) : Outcome ε α → W → Prop
  | .ok a, w => I a w
  | .err e, w => Q (.err e) w
  | .panic, w => Q .panic w

/-- The postcondition that asks nothing of errors and panics. -/
def ends (I : α → W → Prop) : Outcome ε α → W → Prop
  | .ok a, w => I a w
  | .err _, _ => True
  | .panic, _ => True

variable {𝓡} {t : T} {Q : Outcome ε α → W → Prop}

theorem Stable.others {F : W → Prop} (hF : 𝓡.Stable t F) {w w' : W} (h : 𝓡.Others t w w')
    (hw : F w) : F w' := by
  induction h with
  | refl => exact hw
  | tail _ hstep ih => exact hF _ _ hstep ih

/-- A program that is safe stays so while the others run. -/
theorem Safe.others (hQ : ∀ o, 𝓡.Stable t (Q o)) {w w' : W} (h : 𝓡.Others t w w') :
    ∀ {p : Prog C ε α}, 𝓡.Safe t Q p w → 𝓡.Safe t Q p w'
  | .done o, hp => (hQ o).others h hp
  | .call _ _, hp => fun w₁ h₁ => hp w₁ (h.trans h₁)

section Rules

variable {w : W}

/-- One call, with the facts `F` kept over it. -/
theorem Safe.call {op : C.Op} {next : C.Res op → Prog C ε α} (F : W → Prop)
    (hF : 𝓡.Stable t F) (hw : F w)
    (h : ∀ w₁, F w₁ → 𝓡.Inv w₁ → ∀ r w₂, 𝓡.sys.answers t w₁ op r w₂ →
      𝓡.Inv w₂ ∧ 𝓡.Guar t w₁ w₂ ∧ 𝓡.Safe t Q (next r) w₂) :
    𝓡.Safe t Q (.call op next) w :=
  fun w₁ h₁ hI r w₂ h₂ => h w₁ (hF.others h₁ hw) hI r w₂ h₂

theorem Safe.mono {Q' : Outcome ε α → W → Prop} (hQ : ∀ o w, Q o w → Q' o w) :
    ∀ {p : Prog C ε α} {w : W}, 𝓡.Safe t Q p w → 𝓡.Safe t Q' p w
  | .done o, w, hp => hQ o w hp
  | .call _ _, _, hp => fun w₁ h₁ hI r w₂ h₂ =>
    let ⟨hI', hG, hs⟩ := hp w₁ h₁ hI r w₂ h₂
    ⟨hI', hG, hs.mono hQ⟩

/-- What no step of any thread spoils is kept by the whole program. -/
theorem Safe.frame {K : W → Prop} (hK : ∀ u w w', 𝓡.Guar u w w' → K w → K w') :
    ∀ {p : Prog C ε α} {w : W}, K w → 𝓡.Safe t Q p w → 𝓡.Safe t (fun o w => Q o w ∧ K w) p w
  | .done _, _, hw, hp => ⟨hp, hw⟩
  | .call _ _, _, hw, hp => fun w₁ h₁ hI r w₂ h₂ =>
    let ⟨hI', hG, hs⟩ := hp w₁ h₁ hI r w₂ h₂
    have hstable : 𝓡.Stable t K := fun w w' ⟨_, _, u, _, hG⟩ => hK u w w' hG
    ⟨hI', hG, hs.frame hK (hK t w₁ w₂ hG (hstable.others h₁ hw))⟩

/-- A sequence: the first part reaches `I`, from which the second goes on. -/
theorem Safe.bind {I : α → W → Prop} {Q' : Outcome ε β → W → Prop} {f : α → Prog C ε β}
    (hf : ∀ a w, I a w → 𝓡.Safe t Q' (f a) w) :
    ∀ {p : Prog C ε α} {w : W}, 𝓡.Safe t (through I Q') p w → 𝓡.Safe t Q' (p >>= f) w
  | .done (.ok a), w, hp => hf a w hp
  | .done (.err _), _, hp => hp
  | .done .panic, _, hp => hp
  | .call _ _, _, hp => fun w₁ h₁ hI r w₂ h₂ =>
    let ⟨hI', hG, hs⟩ := hp w₁ h₁ hI r w₂ h₂
    ⟨hI', hG, Safe.bind hf hs⟩

theorem Safe.mapErr {f : ε → ε'} {Q' : Outcome ε' α → W → Prop}
    (hQ : ∀ o w, Q o w → Q' (o.mapErr f) w) :
    ∀ {p : Prog C ε α} {w : W}, 𝓡.Safe t Q p w → 𝓡.Safe t Q' (p.mapErr f) w
  | .done o, w, hp => hQ o w hp
  | .call _ _, _, hp => fun w₁ h₁ hI r w₂ h₂ =>
    let ⟨hI', hG, hs⟩ := hp w₁ h₁ hI r w₂ h₂
    ⟨hI', hG, hs.mapErr hQ⟩

theorem Safe.mapOutcome {f : Outcome ε α → Outcome ε' β} {Q' : Outcome ε' β → W → Prop}
    (hQ : ∀ o w, Q o w → Q' (f o) w) :
    ∀ {p : Prog C ε α} {w : W}, 𝓡.Safe t Q p w → 𝓡.Safe t Q' (p.mapOutcome f) w
  | .done o, w, hp => hQ o w hp
  | .call _ _, _, hp => fun w₁ h₁ hI r w₂ h₂ =>
    let ⟨hI', hG, hs⟩ := hp w₁ h₁ hI r w₂ h₂
    ⟨hI', hG, hs.mapOutcome hQ⟩

/-- A program that is safe among others is so alone. -/
theorem Safe.of_ends {o : Outcome ε α} {w' : W} : ∀ {p : Prog C ε α} {w : W}, 𝓡.Inv w →
    𝓡.Safe t Q p w → p.Ends (𝓡.sys.answers t) w o w' → 𝓡.Inv w' ∧ Q o w'
  | .done _, _, hI, hp, ⟨ho, hw⟩ => by
    rw [ho, hw]
    exact ⟨hI, hp⟩
  | .call _ _, w, hI, hp, ⟨r, w₁, hans, h⟩ =>
    let ⟨hI', _, hs⟩ := hp w .refl hI r w₁ hans
    hs.of_ends hI' h

/-- What the calls of a program keep, if the other threads do, is kept by the whole program. -/
theorem Safe.of_makes {P : C.Op → Prop} {F : W → Prop} (hF : 𝓡.Stable t F)
    (hstep : ∀ w op r w', P op → F w → 𝓡.Inv w → 𝓡.sys.answers t w op r w' →
      𝓡.Inv w' ∧ 𝓡.Guar t w w' ∧ F w') :
    ∀ {p : Prog C ε α} {w : W}, p.Makes P → F w → 𝓡.Safe t (fun _ w => F w) p w
  | .done _, _, _, hw => hw
  | .call _ _, _, hp, hw => fun w₁ h₁ hI r w₂ h₂ =>
    let ⟨hI', hG, hF'⟩ := hstep w₁ _ r w₂ hp.1 (hF.others h₁ hw) hI h₂
    ⟨hI', hG, Safe.of_makes hF hstep (hp.2 r) hF'⟩

/-- What a program returns in any case, it returns here. -/
theorem Safe.returns {R : α → Prop} : ∀ {p : Prog C ε α} {w : W}, p.Returns R →
    𝓡.Safe t Q p w → 𝓡.Safe t (fun o w => Q o w ∧ ∀ a, o = .ok a → R a) p w
  | .done (.ok _), _, hr, hp => ⟨hp, by rintro _ ⟨⟩; exact hr⟩
  | .done (.err _), _, _, hp => ⟨hp, by rintro _ ⟨⟩⟩
  | .done .panic, _, _, hp => ⟨hp, by rintro _ ⟨⟩⟩
  | .call _ _, _, hr, hp => fun w₁ h₁ hI r w₂ h₂ =>
    let ⟨hI', hG, hs⟩ := hp w₁ h₁ hI r w₂ h₂
    ⟨hI', hG, hs.returns (hr r)⟩

/-- **The invariant rule of a loop**: `I l acc` is what holds when `l` is still to come. -/
theorem Safe.foldlM {f : σ → β → Prog C ε σ} {Q : Outcome ε σ → W → Prop}
    (I : List β → σ → W → Prop)
    (hstep : ∀ x l acc w, I (x :: l) acc w → 𝓡.Safe t (through (I l) Q) (f acc x) w)
    (hend : ∀ acc w, I [] acc w → Q (.ok acc) w) :
    ∀ {l : List β} {acc : σ} {w : W}, I l acc w → 𝓡.Safe t Q (l.foldlM f acc) w
  | [], acc, w, hw => hend acc w hw
  | x :: l, acc, w, hw => by
    rw [List.foldlM_cons]
    exact Safe.bind (fun _ _ h' => Safe.foldlM I hstep hend h') (hstep x l acc w hw)

/-- The invariant rule of a loop that counts from `1` to `m`. -/
theorem Safe.foldlM_count {f : σ → ℕ → Prog C ε σ} {Q : Outcome ε σ → W → Prop} {m : ℕ}
    (I : ℕ → σ → W → Prop)
    (hstep : ∀ n < m, ∀ acc w, I n acc w → 𝓡.Safe t (through (I (n + 1)) Q) (f acc (n + 1)) w)
    (hend : ∀ acc w, I m acc w → Q (.ok acc) w) {acc : σ} (hw : I 0 acc w) :
    𝓡.Safe t Q (((List.range m).map (· + 1)).foldlM f acc) w := by
  have hlen : ∀ n, (((List.range m).map (· + 1)).drop n).length = m - n := fun n => by simp
  refine Safe.foldlM (fun l acc w => ∃ n, l = ((List.range m).map (· + 1)).drop n ∧ n ≤ m ∧
    I n acc w) ?_ ?_ ⟨0, rfl, Nat.zero_le m, hw⟩
  · rintro x l acc w ⟨n, hn, hle, hw⟩
    have hlt : n < m := by
      have h := congrArg List.length hn
      rw [hlen, List.length_cons] at h
      omega
    rw [List.drop_eq_getElem_cons (by simpa using hlt)] at hn
    simp only [List.getElem_map, List.getElem_range, List.cons.injEq] at hn
    obtain ⟨rfl, rfl⟩ := hn
    refine (hstep n hlt acc w hw).mono fun o w ho => ?_
    cases o with
    | ok _ => exact ⟨n + 1, rfl, hlt, ho⟩
    | err _ => exact ho
    | panic => exact ho
  · rintro acc w ⟨n, hn, hle, hw⟩
    have h := congrArg List.length hn
    rw [hlen, List.length_nil] at h
    obtain rfl : n = m := by omega
    exact hend acc w hw

/-! Where nothing is asked of errors: -/

theorem through_of_ends {I : α → W → Prop} {J : β → W → Prop} {o : Outcome ε α}
    (h : ends I o w) : through I (ends J : Outcome ε β → W → Prop) o w := by
  cases o with
  | ok a => exact h
  | err e => trivial
  | panic => trivial

theorem Safe.mono_ends {I J : α → W → Prop} (h : ∀ a w, I a w → J a w) {p : Prog C ε α}
    (hp : 𝓡.Safe t (ends I) p w) : 𝓡.Safe t (ends J) p w := by
  refine hp.mono fun o w ho => ?_
  cases o with
  | ok a => exact h a w ho
  | err e => trivial
  | panic => trivial

theorem Safe.bind_ends {I : α → W → Prop} {J : β → W → Prop} {f : α → Prog C ε β}
    {p : Prog C ε α} (hp : 𝓡.Safe t (ends I) p w) (hf : ∀ a w, I a w → 𝓡.Safe t (ends J) (f a) w) :
    𝓡.Safe t (ends J) (p >>= f) w :=
  Safe.bind hf (hp.mono fun _ _ => through_of_ends)

theorem Safe.foldlM_ends {f : σ → β → Prog C ε σ} (I : List β → σ → W → Prop)
    (hstep : ∀ x l acc w, I (x :: l) acc w → 𝓡.Safe t (ends (I l)) (f acc x) w) {l : List β}
    {acc : σ} (hw : I l acc w) : 𝓡.Safe t (ends (I [])) (l.foldlM f acc) w :=
  Safe.foldlM I (fun x l acc w h => (hstep x l acc w h).mono fun _ _ => through_of_ends)
    (fun _ _ h => h) hw

theorem Safe.mapErr_ends {f : ε → ε'} {I : α → W → Prop} {p : Prog C ε α}
    (hp : 𝓡.Safe t (ends I) p w) : 𝓡.Safe t (ends I) (p.mapErr f) w := by
  refine Safe.mapErr (fun o w ho => ?_) hp
  cases o with
  | ok a => exact ho
  | err e => trivial
  | panic => trivial

end Rules

/-! ### Soundness -/

section Sound

variable [DecidableEq T] {prog : T → Prog C ε α} {Qs : T → Outcome ε α → W → Prop} {w₀ : W}
  {Idle : T → W → Prop}

/-- What is known of a pool: the invariant, what each thread that waits finds, and that each
thread that runs is safe. -/
structure AllSafe (𝓡 : RelyGuarantee C T W) (Qs : T → Outcome ε α → W → Prop)
    (Idle : T → W → Prop) (P : Pool C ε α T W) : Prop where
  /-- The invariant. -/
  inv : 𝓡.Inv P.world
  /-- The threads that have not started. -/
  idle : ∀ t, P.threads t = none → Idle t P.world
  /-- The threads that have. -/
  safe : ∀ t p, P.threads t = some p → 𝓡.Safe t (Qs t) p P.world

/-- **Threads that are safe one by one stay so together**, from any pool on. A thread that
has not started finds `Idle` when it does. -/
theorem AllSafe.steps (hidle : ∀ t, 𝓡.Stable t (Idle t))
    (hstart : ∀ t w w', 𝓡.Inv w → Idle t w → 𝓡.sys.starts t w w' →
      𝓡.Inv w' ∧ 𝓡.Guar t w w' ∧ 𝓡.Safe t (Qs t) (prog t) w')
    (hQ : ∀ t o, 𝓡.Stable t (Qs t o)) {P P' : Pool C ε α T W} (hall : 𝓡.AllSafe Qs Idle P)
    (hsteps : Relation.ReflTransGen (Pool.Step 𝓡.sys prog) P P') : 𝓡.AllSafe Qs Idle P' := by
  induction hsteps with
  | refl => exact hall
  | @tail P P' _ hstep ih =>
    obtain ⟨hI, hnone, hsafe⟩ := ih
    -- a step of thread `t` is, for every other thread, a step of another thread
    have key : ∀ (t : T) (w : W) (p : Prog C ε α), 𝓡.Inv w → 𝓡.Guar t P.world w →
        𝓡.Safe t (Qs t) p w → 𝓡.AllSafe Qs Idle ⟨Function.update P.threads t (some p), w⟩ := by
      intro t w p hI' hG hp
      have hother : ∀ u, u ≠ t → 𝓡.Other u P.world w := fun u hut => ⟨hI, hI', t, hut.symm, hG⟩
      refine ⟨hI', fun u hu => ?_, fun u q hu => ?_⟩
      · by_cases hut : u = t
        · simp only [hut, Function.update_self, reduceCtorEq] at hu
        · simp only [Function.update_of_ne hut] at hu
          exact hidle u _ _ (hother u hut) (hnone u hu)
      · by_cases hut : u = t
        · subst hut
          simp only [Function.update_self, Option.some.injEq] at hu
          exact hu ▸ hp
        · simp only [Function.update_of_ne hut] at hu
          exact Safe.others (hQ u) (.single (hother u hut)) (hsafe u q hu)
    cases hstep with
    | start ht h =>
      obtain ⟨hI', hG, hs⟩ := hstart _ _ _ hI (hnone _ ht) h
      exact key _ _ _ hI' hG hs
    | call ht h =>
      obtain ⟨hI', hG, hs⟩ := hsafe _ _ ht _ .refl hI _ _ h
      exact key _ _ _ hI' hG hs

variable (𝓡) (Qs) in
/-- **Threads that are safe one by one are safe together.** -/
theorem safe_of_reachable (h₀ : 𝓡.Inv w₀) (hidle₀ : ∀ t, Idle t w₀)
    (hidle : ∀ t, 𝓡.Stable t (Idle t))
    (hstart : ∀ t w w', 𝓡.Inv w → Idle t w → 𝓡.sys.starts t w w' →
      𝓡.Inv w' ∧ 𝓡.Guar t w w' ∧ 𝓡.Safe t (Qs t) (prog t) w')
    (hQ : ∀ t o, 𝓡.Stable t (Qs t o)) {P : Pool C ε α T W}
    (hP : Pool.Reachable 𝓡.sys prog w₀ P) : 𝓡.AllSafe Qs Idle P :=
  AllSafe.steps hidle hstart hQ ⟨h₀, fun t _ => hidle₀ t, fun t p hp => by simp at hp⟩ hP

end Sound

end RelyGuarantee

/-! ### Programs that run alone -/

namespace Prog

open RelyGuarantee (through)

/-- **Total correctness**: alone, the program comes to its end whatever it is answered, and the
outcome meets the postcondition. -/
def Always {C : Calls} {ε α W : Type} (answers : W → (op : C.Op) → C.Res op → W → Prop)
    (Q : Outcome ε α → W → Prop) : Prog C ε α → W → Prop
  | .done o, w => Q o w
  | .call op next, w => (∃ r w', answers w op r w') ∧
      ∀ r w', answers w op r w' → (next r).Always answers Q w'

variable {C : Calls} {ε ε' α β σ W : Type} {answers : W → (op : C.Op) → C.Res op → W → Prop}
  {Q : Outcome ε α → W → Prop}

theorem Always.exists_ends : ∀ {p : Prog C ε α} {w : W}, p.Always answers Q w →
    ∃ o w', p.Ends answers w o w' ∧ Q o w'
  | .done o, w, h => ⟨o, w, ⟨rfl, rfl⟩, h⟩
  | .call _ _, _, h =>
    let ⟨r, w₁, hans⟩ := h.1
    let ⟨o, w', hend, hQ⟩ := (h.2 r w₁ hans).exists_ends
    ⟨o, w', ⟨r, w₁, hans, hend⟩, hQ⟩

theorem Always.of_ends {o : Outcome ε α} {w' : W} : ∀ {p : Prog C ε α} {w : W},
    p.Always answers Q w → p.Ends answers w o w' → Q o w'
  | .done _, _, h, ⟨ho, hw⟩ => by
    rw [ho, hw]
    exact h
  | .call _ _, _, h, ⟨r, w₁, hans, hend⟩ => (h.2 r w₁ hans).of_ends hend

theorem Always.mono {Q' : Outcome ε α → W → Prop} (hQ : ∀ o w, Q o w → Q' o w) :
    ∀ {p : Prog C ε α} {w : W}, p.Always answers Q w → p.Always answers Q' w
  | .done o, w, h => hQ o w h
  | .call _ _, _, h => ⟨h.1, fun r w' hans => (h.2 r w' hans).mono hQ⟩

/-- A sequence: the first part reaches `I`, from which the second goes on. -/
theorem Always.bind {I : α → W → Prop} {f : α → Prog C ε β} {Q : Outcome ε β → W → Prop}
    (hf : ∀ a w, I a w → (f a).Always answers Q w) : ∀ {p : Prog C ε α} {w : W},
    p.Always answers (through I Q) w → (p >>= f).Always answers Q w
  | .done (.ok a), w, h => hf a w h
  | .done (.err _), _, h => h
  | .done .panic, _, h => h
  | .call _ _, _, h => ⟨h.1, fun r w' hans => (h.2 r w' hans).bind hf⟩

/-- The invariant rule of a loop: `I l acc` is what holds when `l` is still to come. -/
theorem Always.foldlM {f : σ → β → Prog C ε σ} {Q : Outcome ε σ → W → Prop}
    (I : List β → σ → W → Prop)
    (hstep : ∀ x l acc w, I (x :: l) acc w → (f acc x).Always answers (through (I l) Q) w)
    (hend : ∀ acc w, I [] acc w → Q (.ok acc) w) :
    ∀ {l : List β} {acc : σ} {w : W}, I l acc w → (l.foldlM f acc).Always answers Q w
  | [], acc, w, hw => hend acc w hw
  | x :: l, acc, w, hw => by
    rw [List.foldlM_cons]
    exact Always.bind (fun _ _ h' => Always.foldlM I hstep hend h') (hstep x l acc w hw)

end Prog

end OzoneRust
