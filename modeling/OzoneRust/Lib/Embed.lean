import OzoneRust.Lib.Interleave

/-!
# Programs in a larger system

A program can run on a system that has more calls than the program makes. The calls it makes are
calls of the larger system (`OzoneRust.Calls.Embedding`), and the program is the same one
(`OzoneRust.Prog.embed`).

What was proved of the program on the smaller system holds on the larger one if the larger one
can be seen as the smaller: a function from worlds to worlds under which what the other threads do
is something other threads may do, perhaps in several steps, and under which the calls of the
program are answered as they would be there (`OzoneRust.RelyGuarantee.View`). Facts that are
stable remain so (`OzoneRust.RelyGuarantee.View.stable`), and safe programs remain safe
(`OzoneRust.RelyGuarantee.View.safe`).
-/

namespace OzoneRust

/-- Calls that are among others. -/
structure Calls.Embedding (C C' : Calls) where
  /-- The call, among the others. -/
  op : C.Op → C'.Op
  /-- Its answer. -/
  res : (o : C.Op) → C'.Res (op o) → C.Res o

namespace Prog

variable {C C' : Calls} {ε α β : Type} {e : C.Embedding C'}

/-- The same program, where there are more calls. -/
def embed (e : C.Embedding C') : Prog C ε α → Prog C' ε α
  | .done o => .done o
  | .call op next => .call (e.op op) fun r => (next (e.res op r)).embed e

theorem embed_bind {f : α → Prog C ε β} : ∀ p : Prog C ε α,
    (p >>= f).embed e = p.embed e >>= fun a => (f a).embed e
  | .done (.ok _) => rfl
  | .done (.err _) => rfl
  | .done .panic => rfl
  | .call op next => congrArg (Prog.call (e.op op)) (funext fun r => embed_bind (next (e.res op r)))

theorem Makes.embed {P : C.Op → Prop} {P' : C'.Op → Prop} (h : ∀ op, P op → P' (e.op op)) :
    ∀ {p : Prog C ε α}, p.Makes P → (p.embed e).Makes P'
  | .done _, _ => trivial
  | .call op _, hp => ⟨h op hp.1, fun r => (hp.2 (e.res op r)).embed h⟩

end Prog

namespace RelyGuarantee

variable {C C' : Calls} {ε α T T' W W' : Type}

/-- **A larger system seen as a smaller one**, by the thread `τ` of each thread and the world `π`
of each world. The calls in `P` are answered as they would be there. -/
structure View (𝓡 : RelyGuarantee C T W) (𝓡' : RelyGuarantee C' T' W') (e : C.Embedding C')
    (τ : T' → T) (π : W' → W) (P : C.Op → Prop) : Prop where
  /-- What the others do, others may do there. -/
  others : ∀ t w w', 𝓡'.Other t w w' → 𝓡.Others (τ t) (π w) (π w')
  /-- The invariant there holds here. -/
  inv : ∀ w, 𝓡'.Inv w → 𝓡.Inv (π w)
  /-- A call is answered as it would be there. -/
  answers : ∀ t w op r w', P op → 𝓡'.Inv w → 𝓡'.sys.answers t w (e.op op) r w' →
    𝓡.sys.answers (τ t) (π w) op (e.res op r) (π w')
  /-- If it keeps there what it should, it does so here. -/
  keeps : ∀ t w op r w', P op → 𝓡'.Inv w → 𝓡'.sys.answers t w (e.op op) r w' →
    𝓡.Inv (π w') → 𝓡.Guar (τ t) (π w) (π w') → 𝓡'.Inv w' ∧ 𝓡'.Guar t w w'

namespace View

variable {𝓡 : RelyGuarantee C T W} {𝓡' : RelyGuarantee C' T' W'} {e : C.Embedding C'}
  {τ : T' → T} {π : W' → W} {P : C.Op → Prop}

theorem others' (V : View 𝓡 𝓡' e τ π P) {t : T'} {w w' : W'} (h : 𝓡'.Others t w w') :
    𝓡.Others (τ t) (π w) (π w') := by
  induction h with
  | refl => exact .refl
  | tail _ hstep ih => exact ih.trans (V.others t _ _ hstep)

/-- A fact that no other thread can spoil there is not spoilt here. -/
theorem stable (V : View 𝓡 𝓡' e τ π P) {t : T'} {F : W → Prop} (hF : 𝓡.Stable (τ t) F) :
    𝓡'.Stable t fun w => F (π w) :=
  fun w w' h => hF.others (V.others t w w' h)

/-- **A program that is safe there is safe here.** -/
theorem safe (V : View 𝓡 𝓡' e τ π P) {t : T'} {Q : Outcome ε α → W → Prop} :
    ∀ {p : Prog C ε α} {w : W'}, p.Makes P → 𝓡.Safe (τ t) Q p (π w) →
      𝓡'.Safe t (fun o w => Q o (π w)) (p.embed e) w
  | .done _, _, _, h => h
  | .call op next, _, hp, h => fun w₁ h₁ hI r w₂ hans => by
    obtain ⟨hI₂, hG, hnext⟩ := h (π w₁) (V.others' h₁) (V.inv w₁ hI) (e.res op r) (π w₂)
      (V.answers t w₁ op r w₂ hp.1 hI hans)
    obtain ⟨hI', hG'⟩ := V.keeps t w₁ op r w₂ hp.1 hI hans hI₂ hG
    exact ⟨hI', hG', V.safe (hp.2 (e.res op r)) hnext⟩

end View

end RelyGuarantee

end OzoneRust
