import Apue.Lib.Descriptors

/-! # Passing a descriptor with credentials

`send_fd` of `ipc2/sendfd2.c` packs a control message for the descriptor and one with the
credentials of the sender, and `recv_ufd` of `ipc2/recvfd2.c` walks over the control messages that
arrive.  The sender leaves `cmsg_type` of the first message at 0, where the receiver looks for
`SCM_RIGHTS`, so the descriptor is not found.  The two agree on everything else.

A control message is its header and the numbers in its data; the walk with `CMSG_NXTHDR` passes all
of them, and the kernel delivers what was sent, with the descriptors of an `SCM_RIGHTS` message
renumbered for the receiver.  `setsockopt` succeeds.
-/

namespace Apue.Lib

open Apue.Base
open Apue.Opend (maxline Trailer Answer sendStatus)
open Apue.OpenServer (Wire Readable)

variable {W : Type}

/-! ## Control messages -/

def solSocket : Int := 1

def scmRights : Int := 1

/-- `SCM_CREDENTIALS`. -/
def scmCredtype : Int := 2

structure Cmsg where
  level : Int
  type : Int
  len : Nat
  data : List Int
  deriving DecidableEq, Repr

structure Control where
  controllen : Nat
  messages : List Cmsg
  deriving DecidableEq, Repr

/-- `struct ucred`. -/
structure Ucred where
  pid : Int
  uid : Int
  gid : Int
  deriving DecidableEq, Repr

/-- The kernel gives the receiver its own numbers for the descriptors that are passed. -/
def Cmsg.deliver (install : Int → Nat) (message : Cmsg) : Cmsg :=
  if message.level = solSocket ∧ message.type = scmRights then
    { message with data := message.data.map fun fd => (install fd : Int) }
  else message

def Control.deliver (install : Int → Nat) (control : Control) : Control :=
  { control with messages := control.messages.map (Cmsg.deliver install) }

def deliver (install : Int → Nat) : Trailer Control → Trailer Control
  | .status code => .status code
  | .file control => .file (control.deliver install)

section Code

-- `CMSG_LEN` of the platform
variable (cmsgLen : Nat → Nat)

def rightslen : Nat := cmsgLen 4

def credslen : Nat := cmsgLen 12

def controllen : Nat := rightslen cmsgLen + credslen cmsgLen

/-- `send_fd` of `sendfd2.c`. -/
def sendFd2 (credentials : Ucred) (fdToSend : Int) : Trailer Control :=
  if fdToSend < 0 then sendStatus fdToSend
  else
    .file ⟨controllen cmsgLen,
      [⟨solSocket, 0, rightslen cmsgLen, [fdToSend]⟩,
        ⟨solSocket, scmCredtype, credslen cmsgLen,
          [credentials.pid, credentials.uid, credentials.gid]⟩]⟩

/-- One turn of the walk in `recv_ufd`. -/
def readCmsg (registers : Registers) (cmp : Cmsg) : Registers :=
  if cmp.level ≠ solSocket then registers
  else if cmp.type = scmRights then { registers with newfd := cmp.data.headD 0 }
  else if cmp.type = scmCredtype then { registers with uid := cmp.data.getD 1 0 }
  else registers

/-- The lines of `recv_ufd` for a zero status. -/
def takeControl (control : Control) (registers : Registers) : Option Registers :=
  if control.controllen ≠
    controllen cmsgLen then none else some (control.messages.foldl readCmsg registers)

/-- `recv_ufd`, called with a variable that holds `uid`. -/
def recvUfd (userfunc : W → Bytes → Int × W) (chunks : List (Wire Control)) (uid : Int)
    (world : W) : Receipt W :=
  receive (takeControl cmsgLen) userfunc chunks world [] ⟨-1, uid⟩

end Code

section

variable {cmsgLen : Nat → Nat}

/-- The credentials are found, the descriptor is not. -/
theorem takeControl_sent (install : Int → Nat) (credentials : Ucred) (fdToSend : Int)
    (registers : Registers) :
    takeControl cmsgLen (Control.deliver install ⟨controllen cmsgLen,
      [⟨solSocket, 0, rightslen cmsgLen, [fdToSend]⟩,
        ⟨solSocket, scmCredtype, credslen cmsgLen,
          [credentials.pid, credentials.uid, credentials.gid]⟩]⟩) registers =
      some { registers with uid := credentials.uid } := by
  simp [takeControl, Control.deliver, Cmsg.deliver, readCmsg, solSocket, scmRights, scmCredtype]

/-- What is in the registers after the trailer that was sent. -/
theorem settle_sendFd2 (install : Int → Nat) (credentials : Ucred) (fdToSend : Int)
    (registers : Registers) :
    settle (takeControl cmsgLen) registers
      (deliver install (sendFd2 cmsgLen credentials fdToSend)) =
      some (if fdToSend < 0 then { registers with newfd := -errorStatus fdToSend }
        else { registers with uid := credentials.uid }) := by
  unfold sendFd2
  split
  · obtain ⟨code, status, value⟩ := sendStatus_eq (C := Control) fdToSend
    rw [status, deliver, settle, value]
  · exact takeControl_sent install credentials fdToSend registers

theorem readable_sendFd2 (install : Int → Nat) (credentials : Ucred) (fdToSend : Int) {text : Bytes}
    (clean : NulFree text) :
    Readable ⟨text, deliver install (sendFd2 cmsgLen credentials fdToSend)⟩ := by
  refine ⟨clean, ?_⟩
  unfold sendFd2
  split
  · obtain ⟨_, same, nonzero⟩ : (Opend.sendErr fdToSend [] : Answer Control).IsError :=
      Opend.sendErr_isError fdToSend []
    have negative : ¬fdToSend ≥ 0 := by omega
    simp only [Opend.sendErr, negative, if_false] at same
    rw [same, deliver]
    simpa using nonzero
  · simp [deliver]

/-- The receiver gets what was sent exactly when that is an error status: no descriptor arrives. -/
theorem descriptor_round_trip_iff (install : Int → Nat) (userfunc : W → Bytes → Int × W)
    (takes : ∀ world text, (userfunc world text).1 = text.length) (credentials : Ucred)
    (fdToSend : Int) {text : Bytes}
    (clean : NulFree text) (short : text.length ≤ maxline - 2) {chunks : List (Wire Control)}
    (segmented : Segmented
    (OpenServer.Answer.wire ⟨text, deliver install (sendFd2 cmsgLen credentials fdToSend)⟩) chunks)
    (uid : Int) (world : W) :
    let receipt := recvUfd cmsgLen userfunc chunks uid world
    (if 0 ≤ fdToSend then receipt.ended = .returned (install fdToSend) ∧
      receipt.registers.uid = credentials.uid
      else receipt.ended = .returned (-errorStatus fdToSend)) ↔ fdToSend < 0 := by
  have settled : settle (takeControl cmsgLen)
      ⟨-1, uid⟩ (deliver install (sendFd2 cmsgLen credentials fdToSend)) = _ :=
    settle_sendFd2 install credentials fdToSend ⟨-1, uid⟩
  obtain ⟨world', passed, ends, _⟩ :=
    receive_answer takes (readable_sendFd2 install credentials fdToSend clean) short
    segmented settled world []
  simp only [recvUfd, ends]
  by_cases negative : fdToSend < 0
  · have status : ¬0 ≤ fdToSend := by omega
    simp [negative, status]
  · have descriptor : 0 ≤ fdToSend := by omega
    -- `newfd` is still -1, which is no descriptor
    have missing : (-1 : Int) ≠ install fdToSend := by omega
    simp [negative, descriptor, missing]

end

/-- A receiver whose `userfunc` writes everything. -/
def appends (written text : Bytes) : Int × Bytes := (text.length, written ++ text)

theorem descriptor_round_trip_iff_status :
    (recvUfd (16 + ·) appends [[(0, none), (5, none)]] 0 []).ended = .returned (-5) := by
  have segmented : Segmented (OpenServer.Answer.wire ⟨[],
      deliver (fun _ => 4) (sendFd2 (16 + ·) ⟨10, 1000, 100⟩ (-5))⟩)
      [[(0, none), (5, none)]] := by
    refine ⟨by decide, by simp, by simp [maxline], fun before chunk after split last => ?_⟩
    have none : after = [] := by
      cases before <;> simp_all
    simp [none] at last
  have back := (descriptor_round_trip_iff (fun _ => 4) appends (fun _ _ => rfl) ⟨10, 1000,
    100⟩ (-5) (by decide) (by decide)
    segmented 0 []).mpr (by decide)
  simpa [errorStatus] using back

/-- Descriptor 3 of a sender with uid 1000: the uid arrives, and -1 is returned. -/
theorem descriptor_lost :
    let receipt := recvUfd (16 + ·) appends
      [OpenServer.Answer.wire ⟨[], deliver (fun _ => 4) (sendFd2 (16 + ·) ⟨10, 1000, 100⟩ 3)⟩] 0 []
    receipt.ended = .returned (-1) ∧ receipt.registers.uid = 1000 ∧
      ¬(receipt.ended = .returned 4 ∧ receipt.registers.uid = 1000) := by decide

end Apue.Lib
