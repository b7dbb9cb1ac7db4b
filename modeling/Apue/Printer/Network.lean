import Apue.Base.Text
import Apue.Base.Transfer

/-! # Timed reads from a socket

The peer has sent (or will send) a stream of bytes; how much of it one `read` returns, and when the
reads end with end of file, a timeout or an error, is up to the network.  A `Socket` is the rest of
the stream and what each of the coming reads finds; `tread` and `treadn` are those of `util.c`.
-/

namespace Apue.Printer

open Apue.Base Transfer

/-! ## Network byte order -/

def htonl (n : Nat) : Bytes := [n / 2 ^ 24, n / 2 ^ 16, n / 2 ^ 8, n].map Nat.toUInt8

/-- The number in the first four bytes. -/
def ntohl (bytes : Bytes) : Nat := (bytes.take 4).foldl (fun value b => 256 * value + b.toNat) 0

theorem htonl_length (n : Nat) : (htonl n).length = 4 := rfl

theorem ntohl_htonl (n : Nat) (rest : Bytes) : ntohl (htonl n ++ rest) = n % 2 ^ 32 := by
  simp only [ntohl, htonl, List.map_cons, List.map_nil, List.cons_append, List.nil_append,
    List.take_succ_cons,
    List.take_zero, List.foldl_cons, List.foldl_nil, Nat.toUInt8, UInt8.toNat_ofNat']
  omega

/-! ## Lines -/

def crlf : Bytes := [13, 10]

/-- The lines of an HTTP header, each with its end. -/
def headerLines (lines : List Bytes) : Bytes := lines.flatMap (· ++ crlf)

/-! ## Reads -/

def iobufsz : Nat := 8192

/-- An error number is never 0. -/
structure Errno where
  code : Nat
  positive : 0 < code
  deriving DecidableEq, Repr

inductive Arrival where
  /-- At most so many bytes are there to be read. -/
  | bytes (count : Nat)
  | eof
  /-- `select` or `read` fails; a timeout is `ETIME`. -/
  | error (errno : Errno)
  deriving DecidableEq, Repr

structure Socket where
  stream : Bytes
  arrivals : List Arrival
  deriving DecidableEq, Repr

def etime : Errno := ⟨62, by decide⟩

/-- The bytes read (none at end of file), or the error; when nothing more arrives every read times
out. -/
def tread (socket : Socket) (nbytes : Nat) : Except Errno Bytes × Socket :=
  match socket.arrivals with
  | [] => (.error etime, socket)
  | .error errno :: arrivals => (.error errno, { socket with arrivals := arrivals })
  | .eof :: arrivals => (.ok [], { socket with arrivals := arrivals })
  | .bytes count :: arrivals =>
    (.ok (socket.stream.take (min count nbytes)), ⟨socket.stream.drop (min count nbytes), arrivals⟩)

/-- The loop of `treadn`; every turn reads at least one byte, so `nbytes + 1` turns are enough. -/
def treadnLoop : Nat → Nat → Bytes → Socket → Except Errno Bytes × Socket
  | 0, _, got, socket => (.ok got, socket)
  | turns + 1, nleft, got, socket =>
    if nleft = 0 then (.ok got, socket)
    else
      match tread socket nleft with
      | (.error errno, socket) => (if got.length = 0 then .error errno else .ok got, socket)
      | (.ok chunk, socket) =>
        if chunk.length = 0 then (.ok got, socket)
        else treadnLoop turns (nleft - chunk.length) (got ++ chunk) socket

def treadn (socket : Socket) (nbytes : Nat) : Except Errno Bytes × Socket :=
  treadnLoop (nbytes + 1) nbytes [] socket

/-- A read that fails leaves the stream where it was. -/
theorem tread_error {socket socket' : Socket} {nbytes : Nat} {errno : Errno}
    (reads : tread socket nbytes = (.error errno, socket')) : socket'.stream = socket.stream := by
  unfold tread at reads
  split at reads <;> simp only [Prod.mk.injEq, Except.error.injEq, reduceCtorEq, false_and] at reads
  · rw [← reads.2]
  · rw [← reads.2]

/-- What a read returns has left the stream. -/
theorem tread_stream {socket socket' : Socket} {nbytes : Nat} {chunk : Bytes}
    (reads : tread socket nbytes = (.ok chunk, socket')) :
    chunk ++ socket'.stream = socket.stream := by
  unfold tread at reads
  split at reads <;> simp only [Prod.mk.injEq, Except.ok.injEq, reduceCtorEq, false_and] at reads
  · obtain ⟨rfl, rfl⟩ := reads
    rfl
  · obtain ⟨rfl, rfl⟩ := reads
    exact List.take_append_drop _ _

theorem tread_bounded {socket socket' : Socket} {nbytes : Nat} {chunk : Bytes}
    (reads : tread socket nbytes = (.ok chunk, socket')) : chunk.length ≤ nbytes := by
  unfold tread at reads
  split at reads <;> simp only [Prod.mk.injEq, Except.ok.injEq, reduceCtorEq, false_and] at reads
  · rw [← reads.1]
    exact Nat.zero_le _
  · rw [← reads.1, List.length_take]
    omega

/-- A call of `treadn`, with what has been read so far. -/
def treadMove : Mover (Socket × Bytes) Errno UInt8 := fun (socket, got) _ nleft =>
  match tread socket nleft with
  | (.error errno, socket) => (.error errno, (socket, got))
  | (.ok chunk, socket) => (.ok chunk, (socket, got ++ chunk))

theorem treadMove_bounded : Bounded treadMove := by
  rintro ⟨socket, got⟩ ptr nleft chunk s' moves
  unfold treadMove at moves
  dsimp only at moves
  split at moves <;> cases moves
  rename_i answer
  exact tread_bounded answer

/-- What a call delivers is behind what has been read before, and has left the stream. -/
theorem treadMove_spec {s s' : Socket × Bytes} {ptr nleft : Nat} {result : Except Errno Bytes}
    (moves : treadMove s ptr nleft = (result, s')) :
    s'.2 = s.2 ++ (Call.mk ptr nleft result).moved ∧
      s.1.stream = (Call.mk ptr nleft result).moved ++ s'.1.stream := by
  unfold treadMove at moves
  dsimp only at moves
  split at moves <;> cases moves
  · rename_i answer
    exact ⟨(List.append_nil _).symm, (tread_error answer).symm⟩
  · rename_i answer
    exact ⟨rfl, (tread_stream answer).symm⟩

/-- `treadn` is a transfer, and what it returns has been collected by its calls. -/
theorem treadnLoop_eq_loop {n nleft : Nat} {got : Bytes} (turns : Nat) (socket : Socket)
    (filled : got.length + nleft = n) :
    treadnLoop turns nleft got socket =
      ((loop treadMove n turns nleft got.length (socket, got)).1.map fun _ =>
        (loop treadMove n turns nleft got.length (socket, got)).2.2,
        (loop treadMove n turns nleft got.length (socket, got)).2.1) := by
  induction turns generalizing nleft got socket with
  | zero => rfl
  | succ turns inductionHypothesis =>
    rw [treadnLoop, loop]
    split
    · rfl
    rw [treadMove]
    cases answer : tread socket nleft with
    | mk result socket' =>
      cases result with
      | error errno =>
        have first : got.length = 0 ↔ nleft = n := by omega
        simp only [first]
        split <;> rfl
      | ok chunk =>
        have inside := tread_bounded answer
        dsimp only
        split
        · rename_i nothing
          rw [List.length_eq_zero_iff.1 nothing, List.append_nil]
          rfl
        · rw [inductionHypothesis _ (by rw [List.length_append]; omega), List.length_append]

/-- Every byte that has been read has left the stream. -/
theorem treadn_stream {n : Nat} {all : Bytes} {socket socket' : Socket}
    (reads : treadn socket n = (.ok all, socket')) :
    all ++ socket'.stream = socket.stream := by
  obtain ⟨calls, s', makes, _, ends⟩ := transfer_course treadMove_bounded n (socket, [])
  have got := makes.collects Prod.snd fun _ _ _ _ _ moves => (treadMove_spec moves).1
  have left := makes.delivers (fun s => s.1.stream) fun _ _ _ _ _ moves => (treadMove_spec moves).2
  have same : treadn socket n = _ := treadnLoop_eq_loop (n + 1) socket (Nat.zero_add n)
  rw [reads, List.length_nil, ← transfer, ends] at same
  cases ended : outcome 0 calls with
  | error errno =>
    rw [ended] at same
    cases same
  | ok count =>
    rw [ended] at same
    cases same
    rw [got, left]
    rfl

end Apue.Printer
