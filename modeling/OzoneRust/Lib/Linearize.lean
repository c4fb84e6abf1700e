import Mathlib.Data.List.Nodup
import OzoneRust.Lib.Interleave
import OzoneRust.Lib.Trace

/-!
# Operations that take effect at one moment

Threads that work on one object, each with an operation that takes many calls. The pool is
linearizable if there is an order of the operations, growing along the run, in which each
has the outcome it has when they are run on the object one after the other
(`OzoneRust.Linearized`). The order only grows at its end, an operation that has returned
is in it and one that has not started is not: so an operation that returns before another
starts comes before it.

To show it, take the threads one at a time, by rely and guarantee:
`OzoneRust.RelyGuarantee.Linear` follows the program as `OzoneRust.RelyGuarantee.Safe` does. A
call either leaves the object alone or is the moment at which the operation of its thread takes
effect. Threads that are linear one by one are linearizable together
(`OzoneRust.RelyGuarantee.linearizable`).
-/

namespace OzoneRust

variable {C : Calls} {ε α T W A : Type}

/-! ### The order of the operations -/

/-- **The operations that have taken effect**, in order. -/
structure Linearized (step : A → T × Outcome ε α → A → Prop) (R : W → A → Prop) (a₀ : A)
    (P : Pool C ε α T W) (log : List (T × Outcome ε α)) : Prop where
  /-- They are a run of the object, and the world is one in which it can be then. -/
  run : ∃ a, Trace step a₀ log a ∧ R P.world a
  /-- None takes effect twice. -/
  once : (log.map Prod.fst).Nodup
  /-- One that has returned has taken effect, with the outcome it returned. -/
  returned : ∀ t o, P.threads t = some (.done o) → (t, o) ∈ log
  /-- None takes effect before it starts. -/
  started : ∀ t o, (t, o) ∈ log → P.threads t ≠ none

/-- The operation of thread `t` takes effect now, or nothing happens to the object. The two
options are the outcome with which it has taken effect before and after. -/
inductive TakesEffect (step : A → T × Outcome ε α → A → Prop) (t : T) (a : A) :
    Option (Outcome ε α) → Option (Outcome ε α) → A → Prop where
  /-- Nothing happens. -/
  | not {l : Option (Outcome ε α)} : TakesEffect step t a l l a
  /-- It takes effect. -/
  | now {o : Outcome ε α} {a' : A} (h : step a (t, o) a') : TakesEffect step t a none (some o) a'

namespace RelyGuarantee

/-! ### One thread -/

section Linear

variable (𝓡 : RelyGuarantee C T W) (next : A → T × Outcome ε α → A → Prop) (R : W → A → Prop)

/-- **Linear**: from this world on, whatever the others do, every call keeps the invariant and
meets the guarantee, and leaves the object alone or is the moment at which the operation
takes effect; and when the program ends, it has. -/
def Linear (t : T) : Prog C ε α → Option (Outcome ε α) → W → Prop
  | .done o, l, _ => l = some o
  | .call op rest, l, w => ∀ w₁, 𝓡.Others t w w₁ → 𝓡.Inv w₁ → ∀ r w₂, 𝓡.sys.answers t w₁ op r w₂ →
      𝓡.Inv w₂ ∧ 𝓡.Guar t w₁ w₂ ∧ ∀ a, R w₁ a →
        ∃ l' a', TakesEffect next t a l l' a' ∧ R w₂ a' ∧ Linear t (rest r) l' w₂

end Linear

variable {𝓡 : RelyGuarantee C T W} {next : A → T × Outcome ε α → A → Prop} {R : W → A → Prop}

theorem Linear.others {t : T} {l : Option (Outcome ε α)} {w w' : W} (h : 𝓡.Others t w w') :
    ∀ {p : Prog C ε α}, 𝓡.Linear next R t p l w → 𝓡.Linear next R t p l w'
  | .done _, hp => hp
  | .call _ _, hp => fun w₁ h₁ => hp w₁ (h.trans h₁)

/-- One call, with the facts `F` kept over it. -/
theorem Linear.call {t : T} {op : C.Op} {rest : C.Res op → Prog C ε α} {l : Option (Outcome ε α)}
    {w : W} (F : W → Prop) (hF : 𝓡.Stable t F) (hw : F w)
    (h : ∀ w₁, F w₁ → 𝓡.Inv w₁ → ∀ r w₂, 𝓡.sys.answers t w₁ op r w₂ →
      𝓡.Inv w₂ ∧ 𝓡.Guar t w₁ w₂ ∧ ∀ a, R w₁ a →
        ∃ l' a', TakesEffect next t a l l' a' ∧ R w₂ a' ∧ 𝓡.Linear next R t (rest r) l' w₂) :
    𝓡.Linear next R t (.call op rest) l w :=
  fun w₁ h₁ hI r w₂ h₂ => h w₁ (hF.others h₁ hw) hI r w₂ h₂

/-! ### All threads -/

/-- What is known of a thread, by the outcome with which its operation has taken effect. -/
structure Known (𝓡 : RelyGuarantee C T W) (next : A → T × Outcome ε α → A → Prop)
    (R : W → A → Prop) (P : Pool C ε α T W) (t : T) (l : Option (Outcome ε α)) : Prop where
  /-- One that has not started has not taken effect. -/
  idle : P.threads t = none → l = none
  /-- One that has started is linear. -/
  linear : ∀ p, P.threads t = some p → 𝓡.Linear next R t p l P.world

/-- What holds of a pool and the order so far. -/
structure Ordered (𝓡 : RelyGuarantee C T W) (next : A → T × Outcome ε α → A → Prop)
    (R : W → A → Prop) (a₀ : A) (P : Pool C ε α T W) (log : List (T × Outcome ε α)) : Prop where
  /-- The invariant. -/
  inv : 𝓡.Inv P.world
  /-- The order is a run. -/
  run : ∃ a, Trace next a₀ log a ∧ R P.world a
  /-- No thread is in it twice. -/
  once : (log.map Prod.fst).Nodup
  /-- A thread is in it with the outcome with which it has taken effect. -/
  known : ∀ t, ∃ l, 𝓡.Known next R P t l ∧ ∀ o, (t, o) ∈ log ↔ l = some o

variable {a₀ : A} {P P' : Pool C ε α T W} {log : List (T × Outcome ε α)}

section Move

variable [DecidableEq T] {t : T} {p : Prog C ε α} {w : W} {l l' : Option (Outcome ε α)}

/-- The threads after one has moved, and has been added to the order or not. -/
theorem Ordered.known_update (h : 𝓡.Ordered next R a₀ P log) {more : List (T × Outcome ε α)}
    (hlinear : 𝓡.Linear next R t p l w) (hlog : ∀ o, (t, o) ∈ log ++ more ↔ l = some o)
    (hmore : ∀ u o, u ≠ t → (u, o) ∉ more) (hI : 𝓡.Inv w) (hG : 𝓡.Guar t P.world w) (u : T) :
    ∃ m, 𝓡.Known next R ⟨Function.update P.threads t (some p), w⟩ u m ∧
      ∀ o, (u, o) ∈ log ++ more ↔ m = some o := by
  by_cases hut : u = t
  · subst hut
    refine ⟨l, ⟨fun hnone => ?_, fun q hq => ?_⟩, hlog⟩
    · cases (Function.update_self u (some p) P.threads).symm.trans hnone
    · cases (Function.update_self u (some p) P.threads).symm.trans hq
      exact hlinear
  · obtain ⟨m, hm, hmem⟩ := h.known u
    have hsame : Function.update P.threads t (some p) u = P.threads u :=
      Function.update_of_ne hut _ _
    have hother : 𝓡.Others u P.world w := .single ⟨h.inv, hI, t, Ne.symm hut, hG⟩
    refine ⟨m, ⟨fun hnone => hm.idle (hsame.symm.trans hnone), fun q hq =>
      (hm.linear q (hsame.symm.trans hq)).others hother⟩, fun o => ?_⟩
    rw [List.mem_append, or_iff_left (hmore u o hut)]
    exact hmem o

/-- One thread moves, and takes effect or not; the others stay where they are. -/
theorem Ordered.move (h : 𝓡.Ordered next R a₀ P log) {a a' : A} (hrun : Trace next a₀ log a)
    (hlog : ∀ o, (t, o) ∈ log ↔ l = some o) (heffect : TakesEffect next t a l l' a')
    (hR : R w a') (hlinear : 𝓡.Linear next R t p l' w) (hI : 𝓡.Inv w)
    (hG : 𝓡.Guar t P.world w) :
    ∃ more, 𝓡.Ordered next R a₀ ⟨Function.update P.threads t (some p), w⟩ (log ++ more) := by
  cases heffect with
  | not =>
    refine ⟨[], hI, ⟨a, by rwa [List.append_nil], hR⟩, by rw [List.append_nil]; exact h.once, ?_⟩
    exact h.known_update hlinear (by rwa [List.append_nil]) (fun _ _ _ => List.not_mem_nil) hI hG
  | @now o a' hstep =>
    have hnew : ∀ o', (t, o') ∉ log := fun o' hmem => by
      have hnone := (hlog o').mp hmem
      cases hnone
    refine ⟨[(t, o)], hI, ⟨a', hrun.snoc hstep, hR⟩, ?_,
      h.known_update hlinear (fun o' => ?_) ?_ hI hG⟩
    · rw [List.map_append, List.map_singleton, List.nodup_append]
      refine ⟨h.once, List.nodup_singleton _, fun u hu v hv => ?_⟩
      obtain ⟨⟨_, o'⟩, hmem, rfl⟩ := List.mem_map.mp hu
      rw [List.mem_singleton.mp hv]
      rintro rfl
      exact hnew o' hmem
    · rw [List.mem_append, or_iff_right (hnew o'), List.mem_singleton, Prod.mk.injEq,
        Option.some.injEq]
      exact ⟨fun h => h.2.symm, fun h => ⟨rfl, h.symm⟩⟩
    · intro u o' hut hmem
      exact hut (congrArg Prod.fst (List.mem_singleton.mp hmem))

end Move

theorem Ordered.linearized (h : 𝓡.Ordered next R a₀ P log) : Linearized next R a₀ P log where
  run := h.run
  once := h.once
  returned t o ht := by
    obtain ⟨l, hl, hlog⟩ := h.known t
    exact (hlog o).mpr (hl.linear _ ht)
  started t o hmem ht := by
    obtain ⟨l, hl, hlog⟩ := h.known t
    have hsome := (hlog o).mp hmem
    rw [hl.idle ht] at hsome
    cases hsome

section Run

variable [DecidableEq T] {prog : T → Prog C ε α}
  (hstart : ∀ t w w', 𝓡.Inv w → 𝓡.sys.starts t w w' → 𝓡.Inv w' ∧ 𝓡.Guar t w w' ∧ ∀ a, R w a →
    ∃ l a', TakesEffect next t a none l a' ∧ R w' a' ∧ 𝓡.Linear next R t (prog t) l w')

include hstart

/-- One step of the pool: the order grows at its end. -/
theorem Ordered.step (h : 𝓡.Ordered next R a₀ P log) (hstep : Pool.Step 𝓡.sys prog P P') :
    ∃ more, 𝓡.Ordered next R a₀ P' (log ++ more) := by
  obtain ⟨a, hrun, hR⟩ := h.run
  cases hstep with
  | @start t w ht hs =>
    obtain ⟨l, hl, hlog⟩ := h.known t
    obtain rfl := hl.idle ht
    obtain ⟨hI, hG, hnext⟩ := hstart t _ w h.inv hs
    obtain ⟨l', a', heffect, hR', hlinear⟩ := hnext a hR
    exact h.move hrun hlog heffect hR' hlinear hI hG
  | @call t op rest r w ht hans =>
    obtain ⟨l, hl, hlog⟩ := h.known t
    obtain ⟨hI, hG, hnext⟩ := hl.linear _ ht P.world .refl h.inv r w hans
    obtain ⟨l', a', heffect, hR', hlinear⟩ := hnext a hR
    exact h.move hrun hlog heffect hR' hlinear hI hG

theorem Ordered.steps (h : 𝓡.Ordered next R a₀ P log)
    (hsteps : Relation.ReflTransGen (Pool.Step 𝓡.sys prog) P P') :
    ∃ more, 𝓡.Ordered next R a₀ P' (log ++ more) := by
  induction hsteps with
  | refl => exact ⟨[], by rwa [List.append_nil]⟩
  | tail _ hstep ih =>
    obtain ⟨more, hmore⟩ := ih
    obtain ⟨more', hmore'⟩ := hmore.step hstart hstep
    exact ⟨more ++ more', by rwa [← List.append_assoc]⟩

variable (𝓡) in
/-- **Threads that are linear one by one are linearizable together**: at every moment there is
an order of the operations that have taken effect, and at every later moment there is one that goes
on from it. -/
theorem linearizable {w₀ : W} (hI : 𝓡.Inv w₀) (h₀ : R w₀ a₀)
    (hP : Pool.Reachable 𝓡.sys prog w₀ P) :
    ∃ log, Linearized next R a₀ P log ∧
      ∀ P', Relation.ReflTransGen (Pool.Step 𝓡.sys prog) P P' →
        ∃ more, Linearized next R a₀ P' (log ++ more) := by
  have hinit : 𝓡.Ordered next R a₀ (⟨fun _ => none, w₀⟩ : Pool C ε α T W) [] :=
    ⟨hI, ⟨a₀, .nil, h₀⟩, List.nodup_nil, fun t => ⟨none, ⟨fun _ => rfl, fun _ hp => by cases hp⟩,
      fun o => by simp⟩⟩
  obtain ⟨log, hlog⟩ := hinit.steps hstart hP
  rw [List.nil_append] at hlog
  refine ⟨log, hlog.linearized, fun P' hsteps => ?_⟩
  obtain ⟨more, hmore⟩ := hlog.steps hstart hsteps
  exact ⟨more, hmore.linearized⟩

end Run

end RelyGuarantee

end OzoneRust
