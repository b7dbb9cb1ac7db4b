import Mathlib.Order.Lattice
import Mathlib.Data.Int.Order.Basic

/-! # A server for many addresses

`main` of `test_16.3`, `test_16.4` and `test_16.5` opens a listening socket for every address and
then watches them all with `select`.  The three loops are the same, except that the third goes on
when `select` was interrupted.  The largest descriptor is looked for with a comparison of every one,
but what is stored is `sockfd`, which holds the result for the last address; so only a last result
that is not smaller than the others makes `select` look at all sockets.
-/

namespace Apue.Exercises.Ruptimed

/-! ## The code -/

inductive Program where
  | test163
  | test164
  | test165
  deriving DecidableEq, Repr

/-- What `select` returns: the descriptors that are ready, or an error. -/
inductive Selected where
  | ready (readFds : List Int)
  | interrupted
  | failed
  deriving DecidableEq, Repr

/-- What `main` does: it calls `select` with a first argument and a set, serves a socket, or
exits. -/
inductive Event where
  | select (nfds : Int) (readFds : List Int)
  | serve (fd : Int)
  | exit
  deriving DecidableEq, Repr

/-- The loop over the addresses, with the results of `initserver` for them: `sockfd` and the
list. -/
def openAll : List Int → Int × List Int → Int × List Int
  | [], opened => opened
  | sockfd :: results, (_, fdList) =>
    openAll results (if sockfd ≥ 0 then (sockfd, fdList ++ [sockfd]) else (sockfd, fdList))

/-- The loop that computes `max_fd`. -/
def maxFd (sockfd : Int) : List Int → Int → Int
  | [], max => max
  | flSockfd :: rest, max => maxFd sockfd rest (if flSockfd > max then sockfd else max)

/-- The main loop, up to the call of `select` that has not returned. -/
def mainLoop (program : Program) (sockfd : Int) (fdList : List Int) : List Selected → List Event
  | [] => if fdList = [] then [.exit] else [.select (maxFd sockfd fdList 0 + 1) fdList]
  | selected :: later =>
    if fdList = [] then [.exit]
    else
      .select (maxFd sockfd fdList 0 + 1) fdList ::
        match selected with
        | .ready readFds =>
          (fdList.filter (· ∈ readFds)).map .serve ++ mainLoop program sockfd fdList later
        -- `test_16.3` and `test_16.4` take an interruption for an error
        | .interrupted =>
          if program = .test165 then mainLoop program sockfd fdList later else [.exit]
        | .failed => [.exit]

/-- `main`; `unset` is what `sockfd` holds before it is assigned to. -/
def main (program : Program) (unset : Int) (results : List Int) (selected : List Selected) :
    List Event :=
  let (sockfd, fdList) := openAll results (unset, [])
  mainLoop program sockfd fdList selected

/-! ## The largest descriptor -/

theorem openAll_eq (results : List Int) (opened : Int × List Int) :
    openAll results opened = (results.getLast?.getD opened.1, opened.2 ++ results.filter (0 ≤ ·)) := by
  induction results generalizing opened with
  | nil => simp [openAll]
  | cons sockfd results inductionHypothesis =>
    obtain ⟨before, fdList⟩ := opened
    have last : (sockfd :: results).getLast?.getD before = results.getLast?.getD sockfd := by
      rw [List.getLast?_cons]
      rfl
    rw [openAll, inductionHypothesis, last]
    split
    next success => simp [success]
    next failure => simp [failure]

theorem maxFd_same (sockfd : Int) (fdList : List Int) : maxFd sockfd fdList sockfd = sockfd := by
  induction fdList with
  | nil => rfl
  | cons fd rest inductionHypothesis => simp only [maxFd, ite_self, inductionHypothesis]

/-- What is computed is `sockfd` if any descriptor is positive. -/
theorem maxFd_eq (sockfd : Int) (fdList : List Int) :
    maxFd sockfd fdList 0 = if ∃ fd ∈ fdList, 0 < fd then sockfd else 0 := by
  induction fdList with
  | nil => simp [maxFd]
  | cons fd rest inductionHypothesis =>
    rw [maxFd]
    split
    next positive =>
      rw [maxFd_same, if_pos ⟨fd, List.mem_cons_self, positive⟩]
    next notPositive =>
      rw [inductionHypothesis]
      simp [notPositive]

/-- `select` looks at all of the list just when none of it is larger than `sockfd`, or than 0. -/
theorem maxFd_covers (sockfd : Int) (fdList : List Int) :
    (∀ fd ∈ fdList, fd < maxFd sockfd fdList 0 + 1) ↔ ∀ fd ∈ fdList, fd ≤ max sockfd 0 := by
  rw [maxFd_eq]
  split
  next some =>
    obtain ⟨positive, member, isPositive⟩ := some
    constructor
    · intro covered fd isFd
      have below := covered fd isFd
      omega
    · intro bounded fd isFd
      have bound := bounded fd isFd
      have bound' := bounded positive member
      omega
  next none =>
    constructor
    · intro covered fd isFd
      have below := covered fd isFd
      omega
    · intro _ fd isFd
      have notPositive : ¬0 < fd := fun positive => none ⟨fd, isFd, positive⟩
      omega

/-! ## All iterations -/

/-- Every `select` of the main loop has the same arguments. -/
theorem select_mainLoop {program : Program} {sockfd nfds : Int} {fdList readFds : List Int}
    (selected : List Selected)
    (member : .select nfds readFds ∈ mainLoop program sockfd fdList selected) :
    nfds = maxFd sockfd fdList 0 + 1 ∧ readFds = fdList := by
  have first {events : List Event} (inLater : .select nfds readFds ∈ events →
      nfds = maxFd sockfd fdList 0 + 1 ∧ readFds = fdList)
      (member : .select nfds readFds ∈ .select (maxFd sockfd fdList 0 + 1) fdList :: events) :
      nfds = maxFd sockfd fdList 0 + 1 ∧ readFds = fdList := by
    obtain here | later := List.mem_cons.mp member
    · obtain ⟨rfl, rfl⟩ := Event.select.inj here
      exact ⟨rfl, rfl⟩
    · exact inLater later
  induction selected with
  | nil =>
    rw [mainLoop] at member
    split at member
    · simp at member
    · exact first (fun absent => by cases absent) member
  | cons selected later inductionHypothesis =>
    cases selected with
    | ready ready =>
      simp only [mainLoop] at member
      split at member
      · simp at member
      · refine first (fun inLater => ?_) member
        obtain served | next := List.mem_append.mp inLater
        · simp at served
        · exact inductionHypothesis next
    | interrupted =>
      simp only [mainLoop] at member
      split at member
      · simp at member
      · refine first (fun inLater => ?_) member
        split at inLater
        · exact inductionHypothesis inLater
        · simp at inLater
    | failed =>
      simp only [mainLoop] at member
      split at member
      · simp at member
      · exact first (fun inLater => by simp at inLater) member

/-- In every iteration of the main loop `select` looks at all descriptors in the set, just when no
socket that was opened is larger than the result for the last address, or than 0. -/
theorem watches_all_iff (program : Program) (unset : Int) (results : List Int) :
    (∀ selected nfds readFds, .select nfds readFds ∈ main program unset results selected →
      ∀ fd ∈ readFds, fd < nfds) ↔
      ∀ fd ∈ results, 0 ≤ fd → fd ≤ max (results.getLast?.getD unset) 0 := by
  have inList : (∀ fd ∈ results.filter (0 ≤ ·), fd ≤ max (results.getLast?.getD unset) 0) ↔
      ∀ fd ∈ results, 0 ≤ fd → fd ≤ max (results.getLast?.getD unset) 0 := by
    simp
  rw [← inList, ← maxFd_covers]
  simp only [main, openAll_eq, List.nil_append]
  constructor
  · intro watched
    by_cases empty : results.filter (0 ≤ ·) = []
    · simp [empty]
    · apply watched [] _ (results.filter (0 ≤ ·))
      rw [mainLoop, if_neg empty]
      exact List.mem_cons_self
  · intro covered selected nfds readFds member
    obtain ⟨rfl, rfl⟩ := select_mainLoop selected member
    exact covered

/-- The second address fails: `select` looks at no descriptor at all. -/
theorem deaf_server :
    ¬∀ selected nfds readFds, .select nfds readFds ∈ main .test163 0 [3, -1] selected →
    ∀ fd ∈ readFds, fd < nfds := by
  intro watched
  have below := watched [] 0 [3] (List.mem_singleton.mpr rfl) 3 List.mem_cons_self
  exact absurd below (by decide)

end Apue.Exercises.Ruptimed
