import OzoneRust.Lib.Embed

/-!
# Calls that are carried out by programs

Where each call of a program is a program over other calls (`OzoneRust.Prog.interpret`), a call is
no longer one step: the other threads come in between. What was proved with every call as one step
is not lost. It holds if each call takes effect at one step of its program, with the answer that the
program ends with, and its other steps are not seen at all (`OzoneRust.RelyGuarantee.Performs`). The
world of the calls is again a function of that of the other calls, as for
`OzoneRust.RelyGuarantee.View`.

`OzoneRust.RelyGuarantee.CarriesOut` is a system whose calls are carried out in this way, and
`OzoneRust.RelyGuarantee.CarriesOut.safe` what it is for.
-/

namespace OzoneRust

namespace Prog

variable {C C' C'' : Calls} {ε α β : Type}

theorem bind_done : ∀ p : Prog C ε α, (p >>= fun a => .done (.ok a)) = p
  | .done (.ok _) => rfl
  | .done (.err _) => rfl
  | .done .panic => rfl
  | .call op next => congrArg (Prog.call op) (funext fun r => bind_done (next r))

theorem interpret_bind {h : (op : C.Op) → Prog C' ε (C.Res op)} {f : α → Prog C ε β} :
    ∀ p : Prog C ε α, (p >>= f).interpret h = p.interpret h >>= fun a => (f a).interpret h
  | .done (.ok _) => rfl
  | .done (.err _) => rfl
  | .done .panic => rfl
  | .call op next => by
    show (h op >>= fun r => (next r >>= f).interpret h) = _
    rw [interpret, bind_assoc]
    exact congrArg _ (funext fun r => interpret_bind (next r))

theorem interpret_embed {e : C.Embedding C'} {h : (op : C'.Op) → Prog C'' ε (C'.Res op)} :
    ∀ p : Prog C ε α, (p.embed e).interpret h =
      p.interpret fun op => h (e.op op) >>= fun r => .done (.ok (e.res op r))
  | .done _ => rfl
  | .call op next => by
    show (h (e.op op) >>= fun r => ((next (e.res op r)).embed e).interpret h) = _
    rw [interpret, bind_assoc]
    exact congrArg _ (funext fun r => interpret_embed (next (e.res op r)))

theorem interpret_foldlM {σ : Type} {h : (op : C.Op) → Prog C' ε (C.Res op)}
    {f : σ → β → Prog C ε σ} : ∀ (l : List β) (acc : σ),
      (l.foldlM f acc).interpret h = l.foldlM (fun acc x => (f acc x).interpret h) acc
  | [], _ => rfl
  | x :: l, acc => by
    rw [List.foldlM_cons, List.foldlM_cons, interpret_bind]
    exact congrArg _ (funext fun acc => interpret_foldlM l acc)

theorem Makes.interpret {P : C.Op → Prop} {P' : C'.Op → Prop}
    {h : (op : C.Op) → Prog C' ε (C.Res op)} (hh : ∀ op, P op → (h op).Makes P') :
    ∀ {p : Prog C ε α}, p.Makes P → (p.interpret h).Makes P'
  | .done _, _ => trivial
  | .call op _, hp => (hh op hp.1).bind fun r => (hp.2 r).interpret hh

end Prog

namespace RelyGuarantee

variable {C C' : Calls} {ε α T W W' : Type}

/-- **A program takes effect as one call**: from this world on, whatever the others do, at one of
its steps the call gets an answer, which the program returns; its other steps are not seen. The
answer is `d` where that step is past. -/
def Performs (𝓡 : RelyGuarantee C T W) (𝓡' : RelyGuarantee C' T W') (π : W' → W) (t : T)
    (op : C.Op) : Option (C.Res op) → Prog C' ε (C.Res op) → W' → Prop
  | d, .done o, _ => ∃ r, o = .ok r ∧ d = some r
  | d, .call op' next, w => ∀ w₁, 𝓡'.Others t w w₁ → 𝓡'.Inv w₁ →
      ∀ r' w₂, 𝓡'.sys.answers t w₁ op' r' w₂ →
        (π w₂ = π w₁ ∧ 𝓡'.Inv w₂ ∧ 𝓡'.Guar t w₁ w₂ ∧ Performs 𝓡 𝓡' π t op d (next r') w₂) ∨
        (d = none ∧ ∃ r, 𝓡.sys.answers t (π w₁) op r (π w₂) ∧
          (𝓡.Inv (π w₂) → 𝓡.Guar t (π w₁) (π w₂) → 𝓡'.Inv w₂ ∧ 𝓡'.Guar t w₁ w₂) ∧
          Performs 𝓡 𝓡' π t op (some r) (next r') w₂)

/-- **A system whose calls in `P` are carried out** by the programs `h`. -/
structure CarriesOut (𝓡 : RelyGuarantee C T W) (𝓡' : RelyGuarantee C' T W')
    (h : (op : C.Op) → Prog C' ε (C.Res op)) (π : W' → W) (P : C.Op → Prop) : Prop where
  /-- What the others do, others may do there. -/
  others : ∀ t w w', 𝓡'.Other t w w' → 𝓡.Others t (π w) (π w')
  /-- The invariant there holds here. -/
  inv : ∀ w, 𝓡'.Inv w → 𝓡.Inv (π w)
  /-- The programs take effect as the calls. -/
  performs : ∀ t op, P op → ∀ w, 𝓡.Performs 𝓡' π t op none (h op) w

namespace CarriesOut

variable {𝓡 : RelyGuarantee C T W} {𝓡' : RelyGuarantee C' T W'}
  {h : (op : C.Op) → Prog C' ε (C.Res op)} {π : W' → W} {P : C.Op → Prop} {t : T}

theorem others' (V : CarriesOut 𝓡 𝓡' h π P) {w w' : W'} (hw : 𝓡'.Others t w w') :
    𝓡.Others t (π w) (π w') := by
  induction hw with
  | refl => exact .refl
  | tail _ hstep ih => exact ih.trans (V.others t _ _ hstep)

/-- A fact that no other thread can spoil there is not spoilt here. -/
theorem stable (V : CarriesOut 𝓡 𝓡' h π P) {F : W → Prop} (hF : 𝓡.Stable t F) :
    𝓡'.Stable t fun w => F (π w) :=
  fun w w' hw => hF.others (V.others t w w' hw)

section Call

variable {op : C.Op} {next : C.Res op → Prog C ε α} {k : C.Res op → Prog C' ε α}
  {Q : Outcome ε α → W → Prop}

/-- The rest of a call that has taken effect. -/
theorem safe_answered (V : CarriesOut 𝓡 𝓡' h π P) (hQ : ∀ o, 𝓡.Stable t (Q o)) {r : C.Res op}
    (hk : ∀ w, 𝓡.Safe t Q (next r) (π w) → 𝓡'.Safe t (fun o w => Q o (π w)) (k r) w) :
    ∀ {q : Prog C' ε (C.Res op)} {w : W'}, 𝓡.Performs 𝓡' π t op (some r) q w →
      𝓡.Safe t Q (next r) (π w) → 𝓡'.Safe t (fun o w => Q o (π w)) (q >>= k) w
  | .done o, w, hq, hsafe => by
    obtain ⟨_, rfl, ⟨⟩⟩ := hq
    exact hk w hsafe
  | .call op' rest, w, hq, hsafe => by
    intro w₁ h₁ hI r' w₂ hans
    rcases hq w₁ h₁ hI r' w₂ hans with ⟨hπ, hI₂, hG, hrest⟩ | ⟨⟨⟩, -⟩
    exact ⟨hI₂, hG, V.safe_answered hQ hk hrest (hπ ▸ hsafe.others hQ (V.others' h₁))⟩

/-- A call that is still to take effect. -/
theorem safe_pending (V : CarriesOut 𝓡 𝓡' h π P) (hQ : ∀ o, 𝓡.Stable t (Q o))
    (hk : ∀ r w, 𝓡.Safe t Q (next r) (π w) → 𝓡'.Safe t (fun o w => Q o (π w)) (k r) w) :
    ∀ {q : Prog C' ε (C.Res op)} {w : W'}, 𝓡.Performs 𝓡' π t op none q w →
      𝓡.Safe t Q (.call op next) (π w) → 𝓡'.Safe t (fun o w => Q o (π w)) (q >>= k) w
  | .done o, w, hq, _ => by
    obtain ⟨_, -, ⟨⟩⟩ := hq
  | .call op' rest, w, hq, hsafe => by
    intro w₁ h₁ hI r' w₂ hans
    rcases hq w₁ h₁ hI r' w₂ hans with ⟨hπ, hI₂, hG, hrest⟩ | ⟨-, r, hans', hkeeps, hrest⟩
    · exact ⟨hI₂, hG, V.safe_pending hQ hk hrest (hπ ▸ hsafe.others hQ (V.others' h₁))⟩
    · -- here the call takes effect
      obtain ⟨hI', hG', hnext⟩ := hsafe (π w₁) (V.others' h₁) (V.inv w₁ hI) r (π w₂) hans'
      obtain ⟨hI₂, hG⟩ := hkeeps hI' hG'
      exact ⟨hI₂, hG, V.safe_answered hQ (hk r) hrest hnext⟩

end Call

/-- **A program that is safe there is safe here**, its calls carried out. -/
theorem safe (V : CarriesOut 𝓡 𝓡' h π P) {Q : Outcome ε α → W → Prop}
    (hQ : ∀ o, 𝓡.Stable t (Q o)) : ∀ {p : Prog C ε α} {w : W'}, p.Makes P →
      𝓡.Safe t Q p (π w) → 𝓡'.Safe t (fun o w => Q o (π w)) (p.interpret h) w
  | .done _, _, _, hsafe => hsafe
  | .call op _, w, hp, hsafe =>
    V.safe_pending hQ (fun r _ hnext => V.safe hQ (hp.2 r) hnext) (V.performs t op hp.1 w) hsafe

end CarriesOut

end RelyGuarantee

end OzoneRust
