import Apue.Base.Interleaving
import Apue.Db.Model

/-! # Processes that use one database

The library's entry points as operations, and the system of processes that call them on the same
pair of files.  A handle is the `DB` structure `db_open` returned; a process without one can only
open the database.
-/

namespace Apue.Db

open Apue.Base

inductive Flag where
  | insert
  | replace
  | store
  deriving DecidableEq, Repr

def Flag.code : Flag → Int
  | .insert => dbInsert
  | .replace => dbReplace
  | .store => dbStoreFlag

/-- `db_store` accepts the flag. -/
theorem Flag.code_known (flag : Flag) :
    ¬(flag.code ≠ dbInsert ∧ flag.code ≠ dbReplace ∧ flag.code ≠ dbStoreFlag) := by
  cases flag <;> simp [code, dbInsert, dbReplace, dbStoreFlag]

theorem Flag.code_eq_dbInsert {flag : Flag} : flag.code = dbInsert ↔ flag = .insert := by
  cases flag <;> simp [code, dbInsert, dbReplace, dbStoreFlag]

theorem Flag.code_eq_dbReplace {flag : Flag} : flag.code = dbReplace ↔ flag = .replace := by
  cases flag <;> simp [code, dbInsert, dbReplace, dbStoreFlag]

inductive Op where
  | open (oflag : Oflag)
  | fetch (key : Bytes)
  | store (key data : Bytes) (flag : Flag)
  | delete (key : Bytes)
  | rewind
  | nextrec
  deriving DecidableEq, Repr

inductive Res where
  | handle (ok : Bool)
  | data (data : Option Bytes)
  | rc (rc : Int)
  | rewound
  | record (record : Option (Bytes × Bytes))
  deriving DecidableEq, Repr

/-- The entry point an operation calls. -/
def dbCall : Op → DbM Res
  | .open oflag => do pure (.handle (← dbOpen oflag))
  | .fetch key => do pure (.data (← dbFetch key))
  | .store key data flag => do pure (.rc (← dbStore key data flag.code))
  | .delete key => do pure (.rc (← dbDelete key))
  | .rewind => do dbRewind; pure .rewound
  | .nextrec => do pure (.record (← dbNextrec))

/-- The handle a call leaves: `db_open` makes a new one or none, every other call keeps the one it
was given. -/
def handleAfter : Res → DB → Option DB
  | .handle false, _ => none
  | _, db => some db

theorem handleAfter_some {res : Res} {db db' : DB} (same : handleAfter res db = some db') :
    db' = db := by
  unfold handleAfter at same
  split at same
  · cases same
  · exact (Option.some.inj same).symm

def dbCode (op : Op) (handle : Option DB) : Prog (FileSig File) Err (Res × Option DB) :=
  (dbCall op (handle.getD {})).bind fun (res, db) => .ret (res, handleAfter res db)

/-- Only `db_open` works without a handle. -/
def HasHandle (op : Op) (handle : Option DB) : Prop := handle.isSome ∨ ∃ oflag, op = .open oflag

instance (op : Op) (handle : Option DB) : Decidable (HasHandle op handle) :=
  match op with
  | .open oflag => isTrue (.inr ⟨oflag, rfl⟩)
  | .fetch _ | .store .. | .delete _ | .rewind | .nextrec =>
    decidable_of_iff (handle.isSome = true) (by simp [HasHandle])

abbrev DbSystem (ι : Type) := System ι (FileSig File) Err (World ι File) Op (Option DB) Res

abbrev DbConfig (ι : Type) := Config ι (FileSig File) Err (World ι File) Op (Option DB) Res

abbrev DbEvent (ι : Type) := Event ι Err Op Res

variable {ι : Type}

/-- Every process idle, and none has opened the database. -/
def startOn (w : World ι File) : DbConfig ι := ⟨w, fun _ => .idle none⟩

/-- The processes `ι` on one database; `may` restricts the operations a process calls. -/
def dbSystem [DecidableEq ι] (may : ι → Op → Prop) : DbSystem ι where
  kernel := fileKernel
  exit p w := w.exit p
  code := dbCode
  may p handle op := HasHandle op handle ∧ may p op

instance [DecidableEq ι] (may : ι → Op → Prop) [∀ p op, Decidable (may p op)] (p : ι)
    (handle : Option DB) (op : Op) :
    Decidable ((dbSystem may).may p handle op) :=
      inferInstanceAs (Decidable (HasHandle op handle ∧ may p op))

end Apue.Db
