import Apue.Base.Machine
import Mathlib.Logic.Function.Basic

/-! # Terminal modes

`tty_cbreak` and `tty_raw` change the settings of a terminal and look whether the changes stuck,
since `tcsetattr` may report success when it has made only some of them.  They are one function with
two sets of changes.  The calls are made on one descriptor.  The system's answers come with a call:
`tcgetattr` may fail, a `tcsetattr` that sets a mode may fail without effect or apply any bits of
the change, one that restores the saved settings applies them all.
-/

namespace Apue.Lib

open Apue.Base

/-! ## The settings -/

def nccs : Nat := 32

/-- `struct termios`. -/
structure Termios where
  cIflag : BitVec 32
  cOflag : BitVec 32
  cCflag : BitVec 32
  cLflag : BitVec 32
  cLine : UInt8
  cCc : Fin nccs → UInt8
  cIspeed : BitVec 32
  cOspeed : BitVec 32

def vtime : Fin nccs := ⟨5, by decide⟩

def vmin : Fin nccs := ⟨6, by decide⟩

/-! Bits of `c_iflag`. -/

def brkint : BitVec 32 := 0o2
def inpck : BitVec 32 := 0o20
def istrip : BitVec 32 := 0o40
def icrnl : BitVec 32 := 0o400
def ixon : BitVec 32 := 0o2000

/-! Bits of `c_oflag`, `c_cflag` and `c_lflag`. -/

def opost : BitVec 32 := 0o1
def csize : BitVec 32 := 0o60
def cs8 : BitVec 32 := 0o60
def parenb : BitVec 32 := 0o400
def isig : BitVec 32 := 0o1
def icanon : BitVec 32 := 0o2
def echo : BitVec 32 := 0o10
def iexten : BitVec 32 := 0o100000

def einval : Int := 22

/-! ## The code -/

inductive TtyState where
  | reset
  | raw
  | cbreak
  deriving DecidableEq, Repr

/-- The settings of the terminal, the static variables, and `errno`. -/
structure Tty where
  term : Termios
  saveTermios : Termios
  ttysavefd : Int
  ttystate : TtyState
  errno : Int

/-- The part of a change that is made: bits of the flags, and the other members. -/
structure Part where
  cIflag : BitVec 32
  cOflag : BitVec 32
  cCflag : BitVec 32
  cLflag : BitVec 32
  cLine : Bool
  cCc : Fin nccs → Bool
  cIspeed : Bool
  cOspeed : Bool

/-- The settings after a part of the change from `old` to `new`. -/
def Part.apply (part : Part) (old new : Termios) : Termios where
  cIflag := old.cIflag &&& ~~~part.cIflag ||| new.cIflag &&& part.cIflag
  cOflag := old.cOflag &&& ~~~part.cOflag ||| new.cOflag &&& part.cOflag
  cCflag := old.cCflag &&& ~~~part.cCflag ||| new.cCflag &&& part.cCflag
  cLflag := old.cLflag &&& ~~~part.cLflag ||| new.cLflag &&& part.cLflag
  cLine := if part.cLine then new.cLine else old.cLine
  cCc i := if part.cCc i then new.cCc i else old.cCc i
  cIspeed := if part.cIspeed then new.cIspeed else old.cIspeed
  cOspeed := if part.cOspeed then new.cOspeed else old.cOspeed

/-- What the system does in a call that sets a mode: an error of the first `tcgetattr`, an error of
`tcsetattr` or the part of the change that it makes, and an error of the second `tcgetattr`. -/
structure Answers where
  getattr : Option Int
  setattr : Except Int Part
  verify : Option Int

/-- A mode: the changes it makes, the test whether some did not stick, and the state behind it. -/
structure Mode where
  change : Termios → Termios
  notStuck : Termios → Bool
  state : TtyState

/-- `tty_cbreak` and `tty_raw`. -/
def setMode (mode : Mode) (fd : Int) (answers : Answers) (s : Tty) : Int × Tty :=
  if s.ttystate ≠ .reset then (-1, { s with errno := einval })
  else
    match answers.getattr with
    | some err => (-1, { s with errno := err })
    | none =>
      let buf := s.term
      let s := { s with saveTermios := buf }
      let buf := mode.change buf
      match answers.setattr with
      | .error err => (-1, { s with errno := err })
      | .ok part =>
        let s := { s with term := part.apply s.term buf }
        match answers.verify with
        | some err => (-1, { s with term := s.saveTermios, errno := err })
        | none =>
          let buf := s.term
          if mode.notStuck buf then (-1, { s with term := s.saveTermios, errno := einval })
          else (0, { s with ttystate := mode.state, ttysavefd := fd })

def cbreakMode : Mode where
  change buf :=
    { buf with
      cLflag := buf.cLflag &&& ~~~(echo ||| icanon)
      cCc := Function.update (Function.update buf.cCc vmin 1) vtime 0 }
  notStuck buf := buf.cLflag &&& (echo ||| icanon) ≠ 0 || buf.cCc vmin ≠ 1 || buf.cCc vtime ≠ 0
  state := .cbreak

def rawMode : Mode where
  change buf :=
    { buf with
      cLflag := buf.cLflag &&& ~~~(echo ||| icanon ||| iexten ||| isig)
      cIflag := buf.cIflag &&& ~~~(brkint ||| icrnl ||| inpck ||| istrip ||| ixon)
      cCflag := buf.cCflag &&& ~~~(csize ||| parenb) ||| cs8
      cOflag := buf.cOflag &&& ~~~opost
      cCc := Function.update (Function.update buf.cCc vmin 1) vtime 0 }
  notStuck buf :=
    buf.cLflag &&& (echo ||| icanon ||| iexten ||| isig) ≠ 0 ||
      buf.cIflag &&& (brkint ||| icrnl ||| inpck ||| istrip ||| ixon) ≠ 0 ||
      buf.cCflag &&& (csize ||| parenb ||| cs8) ≠ cs8 ||
      buf.cOflag &&& opost ≠ 0 || buf.cCc vmin ≠ 1 || buf.cCc vtime ≠ 0
  state := .raw

def ttyCbreak : Int → Answers → Tty → Int × Tty := setMode cbreakMode

def ttyRaw : Int → Answers → Tty → Int × Tty := setMode rawMode

/-- `tty_reset`, with an error of its `tcsetattr`. -/
def ttyReset (setattr : Option Int) (s : Tty) : Int × Tty :=
  if s.ttystate = .reset then (0, s)
  else
    match setattr with
    | some err => (-1, { s with errno := err })
    | none => (0, { s with term := s.saveTermios, ttystate := .reset })

/-! ## The calls -/

inductive Call where
  | cbreak (answers : Answers)
  | raw (answers : Answers)
  | reset (setattr : Option Int)

def Tty.call (fd : Int) (s : Tty) : Call → Int × Tty
  | .cbreak answers => ttyCbreak fd answers s
  | .raw answers => ttyRaw fd answers s
  | .reset setattr => ttyReset setattr s

/-- The settings that `tty_cbreak` is to leave. -/
def IsCbreak (term : Termios) : Prop :=
  term.cLflag &&& (echo ||| icanon) = 0 ∧ term.cCc vmin = 1 ∧ term.cCc vtime = 0

/-- The settings that `tty_raw` is to leave. -/
def IsRaw (term : Termios) : Prop :=
  term.cLflag &&& (echo ||| icanon ||| iexten ||| isig) = 0 ∧
    term.cIflag &&& (brkint ||| icrnl ||| inpck ||| istrip ||| ixon) = 0 ∧
    term.cCflag &&& (csize ||| parenb ||| cs8) = cs8 ∧ term.cOflag &&& opost = 0 ∧
      term.cCc vmin = 1 ∧ term.cCc vtime = 0

/-- A terminal with the settings before the last change of its mode that succeeded. -/
structure Session where
  tty : Tty
  before : Option Termios

def Session.call (fd : Int) (s : Session) (call : Call) : Int × Session :=
  let (ret, tty) := s.tty.call fd call
  match call with
  | .cbreak _ | .raw _ =>
    (ret, { tty := tty, before := if ret = 0 then some s.tty.term else s.before })
  | .reset _ => (ret, { tty := tty, before := s.before })

/-- A failed call leaves the settings and the state. -/
def Fails (s : Tty) (result : Int × Tty) : Prop :=
  result.1 = -1 ∧ result.2.term = s.term ∧ result.2.ttystate = s.ttystate

/-- All or nothing. -/
def Session.AllOrNothing (fd : Int) (s : Session) : Call → Prop
  | .cbreak answers =>
    (ttyCbreak fd answers s.tty).1 = 0 ∧ IsCbreak (ttyCbreak fd answers s.tty).2.term ∧
      (ttyCbreak fd answers s.tty).2.ttystate = .cbreak ∨ Fails s.tty (ttyCbreak fd answers s.tty)
  | .raw answers =>
    (ttyRaw fd answers s.tty).1 = 0 ∧ IsRaw (ttyRaw fd answers s.tty).2.term ∧
      (ttyRaw fd answers s.tty).2.ttystate = .raw ∨ Fails s.tty (ttyRaw fd answers s.tty)
  | .reset setattr =>
    (ttyReset setattr s.tty).1 = 0 ∧
      (∀ settings, s.before = some settings → (ttyReset setattr s.tty).2.term = settings) ∨
      Fails s.tty (ttyReset setattr s.tty)

/-- The settings from before the last change are saved, or set again. -/
structure Session.Saved (s : Session) : Prop where
  changed : s.tty.ttystate ≠ .reset → s.before = some s.tty.saveTermios
  reset : s.tty.ttystate = .reset → ∀ settings, s.before = some settings → s.tty.term = settings

/-! ## What a call does -/

section Calls

variable {fd : Int} {s : Tty}

/-- A call that sets a mode succeeds in the state `RESET`, with the old settings saved and the
changes made, or it fails; then it has saved at most in the state `RESET`. -/
theorem setMode_cases (mode : Mode) (answers : Answers) (fd : Int) (s : Tty) :
    ((setMode mode fd answers s).1 = 0 ∧ s.ttystate = .reset ∧
      mode.notStuck (setMode mode fd answers s).2.term = false ∧
      (setMode mode fd answers s).2.ttystate = mode.state ∧
        (setMode mode fd answers s).2.saveTermios = s.term) ∨
    (Fails s (setMode mode fd answers s) ∧
      (s.ttystate ≠ .reset → (setMode mode fd answers s).2.saveTermios = s.saveTermios)) := by
  unfold setMode
  split
  next => exact Or.inr ⟨⟨rfl, rfl, rfl⟩, fun _ => rfl⟩
  next notReset =>
    have isReset : s.ttystate = .reset := by simpa using notReset
    have saves {saved : Termios} : s.ttystate ≠ .reset → saved = s.saveTermios :=
      fun different => absurd isReset different
    cases answers.getattr with
    | some err => exact Or.inr ⟨⟨rfl, rfl, rfl⟩, saves⟩
    | none =>
      cases answers.setattr with
      | error err => exact Or.inr ⟨⟨rfl, rfl, rfl⟩, saves⟩
      | ok part =>
        cases answers.verify with
        | some err => exact Or.inr ⟨⟨rfl, rfl, rfl⟩, saves⟩
        | none =>
          dsimp only
          split
          next => exact Or.inr ⟨⟨rfl, rfl, rfl⟩, saves⟩
          next stuck => exact Or.inl ⟨rfl, isReset, by simpa using stuck, rfl, rfl⟩

theorem ttyReset_cases (setattr : Option Int) (s : Tty) :
    (s.ttystate = .reset ∧ ttyReset setattr s = (0, s)) ∨
    (s.ttystate ≠ .reset ∧ (ttyReset setattr s).1 = 0 ∧
      (ttyReset setattr s).2.term = s.saveTermios ∧
      (ttyReset setattr s).2.ttystate = .reset) ∨
    (s.ttystate ≠ .reset ∧ Fails s (ttyReset setattr s) ∧
    (ttyReset setattr s).2.saveTermios = s.saveTermios) := by
  unfold ttyReset
  split
  next isReset => exact Or.inl ⟨isReset, rfl⟩
  next different =>
    cases setattr with
    | some err => exact Or.inr (Or.inr ⟨different, ⟨rfl, rfl, rfl⟩, rfl⟩)
    | none => exact Or.inr (Or.inl ⟨different, rfl, rfl, rfl⟩)

theorem isCbreak_of_stuck {term : Termios} (stuck : cbreakMode.notStuck term = false) :
    IsCbreak term := by
  simpa [cbreakMode, IsCbreak, and_assoc] using stuck

theorem isRaw_of_stuck {term : Termios} (stuck : rawMode.notStuck term = false) : IsRaw term := by
  simpa [rawMode, IsRaw, and_assoc] using stuck

end Calls

/-! ## Any series of calls -/

section Sessions

variable {fd : Int} {s : Session}

/-- A change of the mode that succeeds saves the settings, and one that fails leaves what was saved
in use. -/
theorem Session.Saved.setMode (saved : s.Saved) (mode : Mode) (other : mode.state ≠ .reset)
    (answers : Answers) :
    Session.Saved
      { tty := (setMode mode fd answers s.tty).2,
        before := if (setMode mode fd answers s.tty).1 =
          0 then some s.tty.term else s.before } := by
  obtain ⟨ret, isReset, _, state, saves⟩ | ⟨⟨ret, sameTerm, sameState⟩, sameSave⟩ :=
    setMode_cases mode answers fd s.tty
  · rw [if_pos ret]
    exact ⟨fun _ => by rw [saves], fun reset => absurd (state.symm.trans reset) other⟩
  · rw [if_neg (by rw [ret]; decide)]
    constructor
    · intro different
      rw [sameState] at different
      rw [sameSave different]
      exact saved.changed different
    · intro reset settings isBefore
      rw [sameState] at reset
      exact sameTerm.trans (saved.reset reset settings isBefore)

theorem Session.Saved.ttyReset (saved : s.Saved) (setattr : Option Int) :
    Session.Saved { tty := (ttyReset setattr s.tty).2, before := s.before } := by
  obtain ⟨_, same⟩ | ⟨different, _, restored, state⟩ | ⟨_, ⟨_, sameTerm, sameState⟩, sameSave⟩ :=
    ttyReset_cases setattr s.tty
  · rw [same]
    exact saved
  · have isBefore := saved.changed different
    refine ⟨fun notReset => absurd state notReset, fun _ settings isBefore' => ?_⟩
    exact restored.trans (Option.some.inj (isBefore.symm.trans isBefore'))
  · constructor
    · intro notReset
      rw [sameState] at notReset
      rw [sameSave]
      exact saved.changed notReset
    · intro reset settings isBefore
      rw [sameState] at reset
      exact sameTerm.trans (saved.reset reset settings isBefore)

theorem Session.Saved.call (saved : s.Saved) (fd : Int) (call : Call) :
    (s.call fd call).2.Saved := by
  cases call with
  | cbreak answers => exact saved.setMode cbreakMode (by decide) answers
  | raw answers => exact saved.setMode rawMode (by decide) answers
  | reset setattr => exact saved.ttyReset setattr

theorem Session.Saved.allOrNothing (saved : s.Saved) (call : Call) : s.AllOrNothing fd call := by
  cases call with
  | cbreak answers =>
    obtain ⟨ret, _, stuck, state, _⟩ | ⟨fails, _⟩ := setMode_cases cbreakMode answers fd s.tty
    · exact Or.inl ⟨ret, isCbreak_of_stuck stuck, state⟩
    · exact Or.inr fails
  | raw answers =>
    obtain ⟨ret, _, stuck, state, _⟩ | ⟨fails, _⟩ := setMode_cases rawMode answers fd s.tty
    · exact Or.inl ⟨ret, isRaw_of_stuck stuck, state⟩
    · exact Or.inr fails
  | reset setattr =>
    obtain ⟨isReset, same⟩ | ⟨different, ret, restored, _⟩ | ⟨_, fails, _⟩ :=
      ttyReset_cases setattr s.tty
    · left
      rw [same]
      exact ⟨rfl, saved.reset isReset⟩
    · left
      refine ⟨ret, fun settings isBefore => ?_⟩
      exact restored.trans (Option.some.inj ((saved.changed different).symm.trans isBefore))
    · exact Or.inr fails

/-- A program that has not called any of the functions yet. -/
def Session.start (term saveTermios : Termios) (errno : Int) : Session where
  tty := { term := term, saveTermios := saveTermios, ttysavefd := -1, ttystate := .reset, errno := errno }
  before := none

/-- In every series of calls, every call does all it is to do or nothing. -/
theorem modes_all_or_nothing (fd : Int) (term saveTermios : Termios) (errno : Int)
    (calls : List Call) :
    Along (fun s call => some (s.call fd call)) (Session.AllOrNothing fd)
      (Session.start term saveTermios errno) calls := by
  have start : (Session.start term saveTermios errno).Saved := by
    constructor
    · intro different
      exact absurd rfl different
    · intro _ settings isBefore
      cases isBefore
  apply along_of _ start
  intro s call saved
  refine ⟨saved.allOrNothing call, ?_⟩
  intro ret s' called
  have next := saved.call fd call
  rw [Option.some.inj called] at next
  exact next

end Sessions

end Apue.Lib
