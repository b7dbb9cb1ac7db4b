import Apue.Base.Tokens

/-! # Requests and answers of the open servers

A client asks for a descriptor with one line of text; the server answers with the descriptor or with
a message and a status byte.  `handle_request` of `opend` and of `open_server` differ only in the
`buf_args` that cuts the request into arguments, which is a parameter here.  The argument vector is
a list of strings; `open` and `strerror` are the system's.
-/

namespace Apue.Opend

open Apue.Base

def maxline : Nat := 4096

/-- `WHITE`: the characters between two arguments. -/
def white (b : UInt8) : Bool := b = 32 || b = 9 || b = 10

/-- What `snprintf` leaves in a buffer of that size. -/
def snprintf (size : Nat) (text : Bytes) : Bytes := text.take (size - 1)

/-! ## The request of the client -/

/-- `CL_OPEN`. -/
def clOpen : Bytes := ascii "open"

/-- What `csopen` writes to the server.  The text of the number passes through `buf[12]`; for
numbers below -999999999 the NUL behind it is stored one byte past the end, the bytes sent are the
same. -/
def csopenRequest (name : Bytes) (oflag : Int) : Bytes :=
  clOpen ++ 32 :: cstr name ++ 32 :: decimalInt oflag ++ [0]

/-! ## The answer of the server -/

variable {FileSystem File : Type}

/-- The two bytes of `send_fd` with what comes along: an error status that is not 0, or a
descriptor. -/
inductive Trailer (File : Type) where
  | status (code : UInt8)
  | file (descriptor : File)
  deriving DecidableEq, Repr

/-- The message that `send_err` writes before the trailer, and the trailer. -/
structure Answer (File : Type) where
  text : Bytes
  trailer : Trailer File
  deriving DecidableEq, Repr

/-- `send_fd` of a negative number. -/
def sendStatus (errcode : Int) : Trailer File :=
  let status := UInt8.ofInt (-errcode)
  .status (if status = 0 then 1 else status)

/-- `send_fd` of a descriptor. -/
def sendFd (descriptor : File) : Answer File := ⟨[], .file descriptor⟩

def sendErr (errcode : Int) (msg : Bytes) : Answer File :=
  ⟨cstr msg, sendStatus (if errcode ≥ 0 then -1 else errcode)⟩

def Answer.IsError (answer : Answer File) : Prop := ∃ code, answer.trailer = .status code ∧ code ≠ 0

/-- The error status is never 0, which would announce a descriptor. -/
theorem sendErr_isError (errcode : Int) (msg : Bytes) :
    (sendErr errcode msg : Answer File).IsError := by
  have nonzero : ∀ status : UInt8, (if status = 0 then 1 else status) ≠ 0 := by
    intro status
    split
    · decide
    · assumption
  exact ⟨_, rfl, nonzero _⟩

/-! ## One request -/

/-- The variables shared by the requests of all clients; `pathname` points into the request. -/
structure Globals where
  errmsg : Bytes := []
  pathname : Bytes := []
  oflag : Int := 0
  deriving DecidableEq, Repr

/-- The function that `buf_args` calls with the arguments. -/
abbrev OptFunc := List Bytes → Globals → Int × Globals

def usage : Bytes := ascii "usage: <pathname> <oflag>\n"

def cliArgs : OptFunc
  | [arg0, arg1, arg2], globals =>
    if strEq arg0 clOpen then (0, { globals with pathname := arg1, oflag := atoi arg2 })
    else (-1, { globals with errmsg := usage })
  | _, globals => (-1, { globals with errmsg := usage })

/-- Either the arguments name a file, or `errmsg` is the usage. -/
theorem cliArgs_cases (argv : List Bytes) :
    (∃ arg0 arg1 arg2, argv = [arg0, arg1, arg2] ∧ strEq arg0 clOpen = true ∧
      ∀ globals, cliArgs argv globals =
        (0, { globals with pathname := arg1, oflag := atoi arg2 })) ∨
    ∀ globals, cliArgs argv globals = (-1, { globals with errmsg := usage }) := by
  match argv with
  | [arg0, arg1, arg2] =>
    cases command : strEq arg0 clOpen with
    | true => exact .inl ⟨arg0, arg1, arg2, rfl, command, fun globals => by simp [cliArgs, command]⟩
    | false => exact .inr fun globals => by simp [cliArgs, command]
  | [] | [_] | [_, _] | _ :: _ :: _ :: _ :: _ => exact .inr fun globals => rfl

/-- The system calls and library functions behind a request. -/
structure Kernel (FileSystem File : Type) where
  openFile : FileSystem → Bytes → Int → Except Nat File
  strerror : Nat → Bytes

def notTerminated (buf : Bytes) (uid : Nat) : Bytes :=
  ascii "request from uid " ++ decimalInt (cInt uid) ++ ascii " not null terminated: " ++ padLeft buf.length (cstr buf) ++
    ascii "\n"

def cantOpen (kernel : Kernel FileSystem File) (pathname : Bytes) (errno : Nat) : Bytes :=
  ascii "can't open " ++ pathname ++ ascii ": " ++ kernel.strerror errno ++ ascii "\n"

/-- The answer to a request, what the server tried to open for it, the variables it leaves to the
next one, and the message that it reports behind the answer: `opend` with `log_msg(errmsg)`,
`open_server` with a `printf` of its own. -/
structure Handled (File : Type) where
  answer : Answer File
  attempt : Option (Bytes × Int)
  globals : Globals
  reported : Option Bytes
  deriving DecidableEq, Repr

/-- `buf` holds the bytes that were read, at least one. -/
def handleRequest (bufArgs : Bytes → OptFunc → Globals → Int × Globals)
    (kernel : Kernel FileSystem File)
    (files : FileSystem) (buf : Bytes) (uid : Nat) (globals : Globals) : Handled File :=
  if buf.getLast? ≠ some 0 then
    let globals := { globals with errmsg := snprintf (maxline - 1) (notTerminated buf uid) }
    ⟨sendErr (-1) globals.errmsg, none, globals, none⟩
  else
    let (parsed, globals) := bufArgs buf cliArgs globals
    if parsed < 0 then ⟨sendErr (-1) globals.errmsg, none, globals, some globals.errmsg⟩
    else
      match kernel.openFile files globals.pathname globals.oflag with
      | .error errno =>
        let attempt := some (globals.pathname, globals.oflag)
        let globals := { globals with errmsg := snprintf (maxline - 1) (cantOpen kernel
          globals.pathname errno) }
        ⟨sendErr (-1) globals.errmsg, attempt, globals, some globals.errmsg⟩
      | .ok descriptor => ⟨sendFd descriptor, some (globals.pathname, globals.oflag), globals, none⟩

end Apue.Opend
