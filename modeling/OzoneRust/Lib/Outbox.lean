import Mathlib.Data.List.Count
import OzoneRust.Lib.Trace

/-!
# An outbox

Reports are added to a list; from time to time the whole list is taken and sent, and the
receiver accepts it or not. Nothing is sent twice: a report whose sending failed is gone.

`OzoneRust.Outbox.ledger` accounts for every report ever added, in order: it was answered
for, is being sent or is still in the list. So a report is lost if it was dropped as often as
it was added, and only then (`OzoneRust.Outbox.kept_iff`).
-/

namespace OzoneRust

variable {ρ : Type}

/-- Reports that wait, and those that are being sent. -/
structure Outbox (ρ : Type) where
  /-- What waits. -/
  pending : List ρ
  /-- What is being sent. -/
  inFlight : Option (List ρ)

namespace Outbox

/-- What happens to an outbox. -/
inductive Event (ρ : Type) where
  /-- A report is added. -/
  | push (r : ρ)
  /-- All reports are taken to be sent. -/
  | drain
  /-- The sending ends, and the receiver has accepted the reports or not. -/
  | answered (reports : List ρ) (accepted : Bool)

/-- The steps of an outbox. -/
inductive Step : Outbox ρ → Event ρ → Outbox ρ → Prop where
  /-- A report is added. -/
  | push (b : Outbox ρ) (r : ρ) : Step b (.push r) ⟨b.pending ++ [r], b.inFlight⟩
  /-- All reports are taken; nothing else is being sent. -/
  | drain (pending : List ρ) : Step ⟨pending, none⟩ .drain ⟨[], some pending⟩
  /-- The sending ends. -/
  | answered (pending reports : List ρ) (accepted : Bool) :
      Step ⟨pending, some reports⟩ (.answered reports accepted) ⟨pending, none⟩

/-- The outbox at the start. -/
def empty : Outbox ρ := ⟨[], none⟩

/-- The report an event adds. -/
def Event.pushed : Event ρ → List ρ
  | .push r => [r]
  | _ => []

/-- The reports an event hands over. -/
def Event.carried : Event ρ → List ρ
  | .answered reports true => reports
  | _ => []

/-- The reports an event loses. -/
def Event.dropped : Event ρ → List ρ
  | .answered reports false => reports
  | _ => []

/-- The reports that were added. -/
def pushed (log : List (Event ρ)) : List ρ := log.flatMap Event.pushed

/-- The reports that were accepted. -/
def carried (log : List (Event ρ)) : List ρ := log.flatMap Event.carried

/-- The reports that were sent and not accepted. -/
def dropped (log : List (Event ρ)) : List ρ := log.flatMap Event.dropped

/-- The reports whose sending has ended. -/
def settled (log : List (Event ρ)) : List ρ := log.flatMap fun e => e.carried ++ e.dropped

variable {log : List (Event ρ)} {b : Outbox ρ}

theorem count_settled [DecidableEq ρ] (r : ρ) :
    (settled log).count r = (carried log).count r + (dropped log).count r := by
  induction log with
  | nil => rfl
  | cons e log ih =>
    unfold settled carried dropped at ih ⊢
    simp only [List.flatMap_cons, List.count_append]
    omega

/-- **The ledger**: what was added was answered for, is being sent, or waits, in this
order. -/
theorem ledger (h : Trace Step empty log b) :
    pushed log = settled log ++ b.inFlight.getD [] ++ b.pending := by
  refine h.invariant
    (fun log b => pushed log = settled log ++ b.inFlight.getD [] ++ b.pending) rfl ?_
  intro log b e b' ih hs
  unfold pushed settled at ih ⊢
  rw [List.flatMap_append, List.flatMap_append, ih]
  cases hs with
  | push r => simp [Event.pushed, Event.carried, Event.dropped]
  | drain pending => simp [Event.pushed, Event.carried, Event.dropped]
  | answered pending reports accepted =>
    cases accepted <;> simp [Event.pushed, Event.carried, Event.dropped]

/-- **A report is kept** if and only if it was added more often than it was dropped. -/
theorem kept_iff [DecidableEq ρ] (h : Trace Step empty log b) (hidle : b.inFlight = none) (r : ρ) :
    r ∈ b.pending ∨ r ∈ carried log ↔ (dropped log).count r < (pushed log).count r := by
  rw [ledger h, hidle, Option.getD_none, List.append_nil, List.count_append, count_settled,
    ← List.count_pos_iff, ← List.count_pos_iff]
  omega

/-- What is dropped was added. -/
theorem count_dropped_le [DecidableEq ρ] (h : Trace Step empty log b) (r : ρ) :
    (dropped log).count r ≤ (pushed log).count r := by
  rw [ledger h, List.count_append, List.count_append, count_settled]
  omega

end Outbox

end OzoneRust
