import Apue.Base.Files
import Mathlib.Data.List.Basic

/-! # Files of bounded length

A file holds a list and one cursor into it.  Reading stops at the end of the list, writing at the
capacity, and the cursor moves behind what was read or written; a file that is appended to is
written at its end, wherever the cursor is.
-/

namespace Apue.Base

variable {α : Type} {capacity : Nat}

/-- The elements from `i` on give way to others, and the list grows where these are more. -/
def overwrite (content : List α) (i : Nat) (piece : List α) : List α :=
  content.take i ++ piece ++ content.drop (i + piece.length)

theorem length_overwrite {content piece : List α} {i : Nat} (inside : i ≤ content.length) :
    (overwrite content i piece).length = max content.length (i + piece.length) := by
  simp only [overwrite, List.length_append, List.length_take, List.length_drop]
  omega

/-- What counts of the list is overwritten in the same way, when it begins there. -/
theorem take_overwrite (content : List α) {piece : List α} {i n : Nat} (inside : i ≤ n)
    (room : i ≤ content.length) :
    (overwrite content i piece).take (max n (i + piece.length)) = overwrite (content.take n) i
    piece := by
  have front : (content.take i ++ piece).length = i + piece.length := by
    rw [List.length_append, List.length_take, Nat.min_eq_left room]
  -- behind the piece, what counts is what counted there before
  have rest : max n (i + piece.length) - (i + piece.length) = n - (i + piece.length) := by omega
  rw [overwrite, overwrite, List.take_take, Nat.min_eq_left inside, List.drop_take,
    List.take_append, front, rest,
    List.take_of_length_le (by rw [front]; exact Nat.le_max_right _ _)]

theorem getElem?_overwrite {content piece : List α} {i : Nat} (inside : i ≤ content.length)
    {k : Nat} (before : k < piece.length) :
    (overwrite content i piece)[i + k]? = piece[k]? := by
  have front : (content.take i).length = i := by rw [List.length_take, Nat.min_eq_left inside]
  rw [overwrite, List.append_assoc, List.getElem?_append_right (by omega), front,
    Nat.add_sub_cancel_left,
    List.getElem?_append_left before]

/-- Elements outside the piece stay. -/
theorem getElem?_overwrite_outside {content piece : List α} {i : Nat}
    (inside : i ≤ content.length) {k : Nat}
    (outside : k < i ∨ i + piece.length ≤ k) : (overwrite content i piece)[k]? = content[k]? := by
  have front : (content.take i).length = i := by rw [List.length_take, Nat.min_eq_left inside]
  rw [overwrite, List.append_assoc]
  obtain before | behind := outside
  · rw [List.getElem?_append_left (by omega), List.getElem?_take_of_lt before]
  · rw [List.getElem?_append_right (by omega), front, List.getElem?_append_right (by omega),
      List.getElem?_drop]
    congr 1
    omega

/-- The position that is asked for, in a file of that length with the cursor there. -/
def seekTarget (length cursor : Nat) (pos : Int) : Whence → Int
  | .set => pos
  | .cur => cursor + pos
  | .fromEnd => length + pos

structure BoundedFile (α : Type) (capacity : Nat) where
  content : List α
  cursor : Nat
  bounded : content.length ≤ capacity
  inside : cursor ≤ content.length

namespace BoundedFile

inductive Call (α : Type) where
  | read (len : Nat)
  | write (data : List α)
  | seek (pos : Int) (whence : Whence)
  deriving Repr

inductive Answer (α : Type) where
  | bytes (piece : List α)
  | count (n : Nat)
  /-- `none` where there is no such position. -/
  | position (target : Option Nat)
  deriving DecidableEq, Repr

variable (file : BoundedFile α capacity)

def read (len : Nat) : List α × BoundedFile α capacity :=
  ((file.content.drop file.cursor).take len,
    { file with
      cursor := min (file.cursor + len) file.content.length
      inside := Nat.min_le_right _ _ })

/-- Where the next write goes. -/
def writePos (append : Bool) : Nat := if append then file.content.length else file.cursor

theorem writePos_le (append : Bool) : file.writePos append ≤ file.content.length := by
  unfold writePos
  split
  · exact Nat.le_refl _
  · exact file.inside

/-- As much of the data as there is room for. -/
def accepted (append : Bool) (data : List α) : List α := data.take (capacity - file.writePos append)

def write (append : Bool) (data : List α) : Nat × BoundedFile α capacity :=
  ((file.accepted append data).length,
    { content := overwrite file.content (file.writePos append) (file.accepted append data)
      cursor := file.writePos append + (file.accepted append data).length
      bounded := by
        have bounded := file.bounded
        have place := file.writePos_le append
        rw [length_overwrite place]
        simp only [accepted, List.length_take]
        omega
      inside := by
        rw [length_overwrite (file.writePos_le append)]
        exact Nat.le_max_right _ _ })

def seek (pos : Int) (whence : Whence) : Option Nat × BoundedFile α capacity :=
  let target := seekTarget file.content.length file.cursor pos whence
  if possible : 0 ≤ target ∧ target ≤ file.content.length then
    (some target.toNat, { file with
      cursor := target.toNat
      inside := by omega })
  else (none, file)

section Seek

variable {file} {pos : Int} {whence : Whence} {target : Int}

theorem seek_possible (asked : seekTarget file.content.length file.cursor pos whence = target)
    (possible : 0 ≤ target ∧ target ≤ file.content.length) :
    (file.seek pos whence).1 = some target.toNat ∧
      (file.seek pos whence).2.content = file.content ∧
        (file.seek pos whence).2.cursor = target.toNat := by
  subst asked
  unfold seek
  rw [dif_pos possible]
  exact ⟨rfl, rfl, rfl⟩

theorem seek_impossible (asked : seekTarget file.content.length file.cursor pos whence = target)
    (impossible : ¬(0 ≤ target ∧ target ≤ file.content.length)) :
    file.seek pos whence = (none, file) := by
  subst asked
  exact dif_neg impossible

end Seek

def step (append : Bool) (file : BoundedFile α capacity) :
    Call α → Answer α × BoundedFile α capacity
  | .read len => ((file.read len).map .bytes id)
  | .write data => ((file.write append data).map .count id)
  | .seek pos whence => ((file.seek pos whence).map .position id)

end BoundedFile

end Apue.Base
