import Mathlib.Data.List.Basic

/-! # Relays

A relay reads from a source into a buffer and writes the buffer to a sink.  What it has written,
what it holds and what it has yet to read are together what the source has supplied.
-/

namespace Apue.Base

structure Relay (α : Type) where
  unread : List α
  buffer : List α
  written : List α

namespace Relay

variable {α : Type}

def empty : Relay α := ⟨[], [], []⟩

def supply (r : Relay α) (items : List α) : Relay α := { r with unread := r.unread ++ items }

/-- The next `n` of the source, over the buffer. -/
def read (r : Relay α) (n : Nat) : Relay α :=
  { r with unread := r.unread.drop n, buffer := r.unread.take n }

def write (r : Relay α) (n : Nat) : Relay α :=
  { r with buffer := r.buffer.drop n, written := r.written ++ r.buffer.take n }

/-- All that the source has supplied. -/
def stream (r : Relay α) : List α := r.written ++ (r.buffer ++ r.unread)

variable {r : Relay α} {n : Nat}

@[simp] theorem stream_empty : (empty : Relay α).stream = [] := rfl

@[simp] theorem stream_supply (items : List α) : (r.supply items).stream = r.stream ++ items := by simp [supply, stream]

theorem stream_read (done : r.buffer = []) : (r.read n).stream = r.stream := by
  simp [read, stream, done]

@[simp] theorem stream_write : (r.write n).stream = r.stream := by
  change (r.written ++ r.buffer.take n) ++ (r.buffer.drop n ++ r.unread) = r.stream
  rw [List.append_assoc, ← List.append_assoc (r.buffer.take n), List.take_append_drop, stream]

theorem written_eq_stream (done : r.buffer = []) (dry : r.unread = []) : r.written = r.stream := by
  simp [stream, done, dry]

end Relay

end Apue.Base
