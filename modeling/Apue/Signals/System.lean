import Apue.Base.Signals

/-! # Running a command

`system` ignores `SIGINT` and `SIGQUIT` and blocks `SIGCHLD` while a shell runs the command, and
sets all three back; in the child they are set back before the shell starts.  A `waitpid` that a
handler interrupts is made again.
-/

namespace Apue.Signals

open Apue.Base SignalM

/-! ## The code -/

variable {H : Type}

/-- `while (waitpid(pid, &status, 0) < 0) ...` -/
def waitFor (pid : Nat) : SignalM H Int :=
  Code.loop (fun _ : Unit => show SignalM H (Unit ⊕ Int) from do
    match ← (sys (.waitpid pid) : SignalM H Waited) with
    | .interrupted => return .inl ()
    | .failed => return .inr (-1)
    | .status status => return .inr status) ()

/-- The child, up to `execl` and what comes after it if it fails. -/
def runCommand (saveintr savequit : Sigaction H) (savemask : Mask) (cmdstring : List UInt8) :
    SignalM H Int := do
  let _ : Option (Sigaction H) ← sys (.sigaction Sig.int (some saveintr))
  let _ : Option (Sigaction H) ← sys (.sigaction Sig.quit (some savequit))
  let _ : Option Mask ← sys (.sigprocmask .setmask savemask)
  let _ : Unit ← sys (.execl cmdstring)
  exit 127

/-- "restore previous signal actions & reset signal mask" -/
def restore (saveintr savequit : Sigaction H) (savemask : Mask) (status : Int) : SignalM H Int := do
  let restored : Option (Sigaction H) ← sys (.sigaction Sig.int (some saveintr))
  if restored.isNone then return -1
  else
    let restored : Option (Sigaction H) ← sys (.sigaction Sig.quit (some savequit))
    if restored.isNone then return -1
    else
      let restored : Option Mask ← sys (.sigprocmask .setmask savemask)
      if restored.isNone then return -1
      else return status

def system (cmdstring : Option (List UInt8)) : SignalM H Int :=
  match cmdstring with
  | none => return 1
  | some cmdstring => do
    let ignore : Sigaction H := ⟨.ignore, Mask.empty, 0⟩
    match ← (sys (.sigaction Sig.int (some ignore)) : SignalM H (Option (Sigaction H))) with
    | none => return -1
    | some saveintr =>
      match ← (sys (.sigaction Sig.quit (some ignore)) : SignalM H (Option (Sigaction H))) with
      | none => return -1
      | some savequit =>
        match ← (sys (.sigprocmask .block (Mask.empty.add Sig.chld)) : SignalM H (Option Mask)) with
        | none => return -1
        | some savemask =>
          match ← (sys .fork : SignalM H Forked) with
          | .failed => restore saveintr savequit savemask (-1)
          | .child => runCommand saveintr savequit savemask cmdstring
          | .parent pid =>
            let status ← waitFor pid
            restore saveintr savequit savemask status

/-! ## What the command is run with -/

/-- A command runs with these actions and this mask. -/
def Runs (action : Sig → Sigaction H) (blocked : Mask) (w : SignalWorld H) : Prop :=
  ∀ command, w.ended = some (.executing command) → w.action = action ∧ w.blocked = blocked

section

variable {handlers : Handlers H} {w w' : SignalWorld H} {E : Int → SignalWorld H → Prop} {l : Unit}
  {action action' : Sig → Sigaction H} {blocked blocked' : Mask} {forks : List Forked}
    {waits : List Waited}

/-- What the process has, and what `fork` and `waitpid` will still answer. -/
structure Has (action : Sig → Sigaction H) (blocked : Mask) (forks : List Forked)
    (waits : List Waited) (w : SignalWorld H) : Prop where
  awake : Awake action blocked w
  forks : w.forks = forks
  waits : w.waits = waits

theorem Has.around (has : Has action blocked forks waits w) (around : Around handlers w w') :
    Has action blocked forks waits w' :=
  ⟨has.awake.around around, around.forks.trans has.forks, around.waits.trans has.waits⟩

/-- What a caller of `system` has, before and after. -/
def Calls (w₀ w : SignalWorld H) : Prop :=
  Awake w₀.action w₀.blocked w ∧ w.forks <:+ w₀.forks ∧ w.waits <:+ w₀.waits

theorem Calls.around {w₀ : SignalWorld H} (calls : Calls w₀ w) (around : Around handlers w w') :
    Calls w₀ w' :=
  ⟨calls.1.around around, around.forks ▸ calls.2.1, around.waits ▸ calls.2.2⟩

/-- The parent is interrupted while it waits. -/
def interrupted : SignalWorld Empty :=
  { SignalWorld.plain with forks := [.parent 2], waits := [.interrupted, .status 0] }

end

end Apue.Signals
