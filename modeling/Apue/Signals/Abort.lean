import Apue.Base.Signals

/-! # Aborting a process

`abort` sends `SIGABRT` twice: once for the handler that its caller may have for it, and once with
the default action.  A handler need not come back.  If it does, every other signal is blocked, so
that nothing keeps the second one from ending the process.
-/

namespace Apue.Signals

open Apue.Base SignalM

variable {H : Type}

def isDefault : Disposition H → Bool
  | .default => true
  | _ => false

/-- "Caller can't ignore SIGABRT, if so reset to default" -/
def unignored (action : Sigaction H) : SignalM H (Sigaction H) := do
  if action.handler.isIgnore then
    let action := { action with handler := .default }
    let _ : Option (Sigaction H) ← sys (.sigaction Sig.abrt (some action))
    return action
  else return action

/-- `action₀` is what the local variable holds before the first call fills it in. -/
def abort (action₀ : Sigaction H) : SignalM H Unit := do
  let action : Option (Sigaction H) ← sys (.sigaction Sig.abrt none)
  let action := action.getD action₀
  let action ← unignored action
  let _ : Unit ← (if isDefault action.handler then sys .fflush else return () : SignalM H Unit)
  let mask := Mask.full.del Sig.abrt
  let _ : Option Mask ← sys (.sigprocmask .setmask mask)
  let _ : Unit ← sys (.kill Sig.abrt)
  let _ : Unit ← sys .fflush
  let _ : Option (Sigaction H) ← sys (.sigaction Sig.abrt
    (some { action with handler := .default }))
  let _ : Option Mask ← sys (.sigprocmask .setmask mask)
  let _ : Unit ← sys (.kill Sig.abrt)
  exit 1

/-- The process has not exited, and when it does not go on, a signal can be delivered. -/
structure Aborting (w : SignalWorld H) : Prop where
  stays : ∀ code, w.ended ≠ some (.exited code)
  goes : w.due = true → w.ended = none → ∃ sig, w.deliverable sig = true

section

variable {handlers : Handlers H} {w w' τ : SignalWorld H}
    {E : Int → SignalWorld H → Prop} {l : Unit}

theorem deliverable_generate (w : SignalWorld H) (sig : Sig) {other : Sig}
    (can : w.deliverable other = true) :
    (w.generate sig).deliverable other = true := by
  simp only [SignalWorld.deliverable, Bool.and_eq_true] at can ⊢
  unfold SignalWorld.generate
  split
  · exact can
  · refine ⟨?_, can.2⟩
    change Function.update w.pending sig true other = true
    rw [Function.update_apply]
    split
    · rfl
    · exact can.1

theorem generate_ended (w : SignalWorld H) (sig : Sig) : (w.generate sig).ended = w.ended := by
  unfold SignalWorld.generate
  split <;> rfl

theorem generate_due (w : SignalWorld H) (sig : Sig) : (w.generate sig).due = w.due := by
  unfold SignalWorld.generate
  split <;> rfl

theorem Aborting.generate (aborting : Aborting w) (sig : Sig) : Aborting (w.generate sig) := by
  refine ⟨fun code => by rw [generate_ended]; exact aborting.stays code, fun due goes => ?_⟩
  rw [generate_due] at due
  rw [generate_ended] at goes
  obtain ⟨other, can⟩ := aborting.goes due goes
  exact ⟨other, deliverable_generate w sig can⟩

end

end Apue.Signals
