import StateThreads.Io.Vector

/-! io.c: reading once what there is, and connecting. -/
namespace StateThreads
open Transfer

/-- The loop of the functions that return with the first answer that is no error, or -1. -/
def retry : List Call → List Polled → List Nat → Run Nat Int
  | [], _, _ => .pending
  | .failed e :: calls, polls, bytes =>
    Run.after (.call bytes []) (if e = .eintr then retry calls polls bytes else .finish (-1))
  | .notReady :: calls, polls, bytes =>
    Run.after (.call bytes []) (await polls (fun _ => .finish (-1)) fun polls => retry calls polls bytes)
  | .count n :: _, _, bytes => Run.after (.call bytes (bytes.take n)) (.finish (min n bytes.length : Nat))

def stRead (calls : List Call) (polls : List Polled) (buf nbyte : Nat) : Run Nat Int :=
  retry calls polls (List.range' buf nbyte)

def stReadv (calls : List Call) (polls : List Polled) (iov : List Iovec) : Run Nat Int := retry calls polls (spans iov)

inductive ConnectErrno where
  | eintr | einprogress | eaddrinuse | other
deriving DecidableEq, Repr

/-- err says whether connect was interrupted before. The answers of connect, of the one wait
and of getsockopt for SO_ERROR are given, none for no error and no answer in turn; the result
is whether 0 is returned, none while the call lasts. -/
def stConnect (poll : Option Polled) (soError : Option Nat) : Bool → List (Option ConnectErrno) → Option Bool
  | _, [] => none
  | _, none :: _ => some true
  | err, some errno :: calls =>
    if errno ≠ .eintr then
      if errno ≠ .einprogress ∧ (errno ≠ .eaddrinuse ∨ err = false) then some false
      else poll.map fun polled =>
        -- err is now what getsockopt has stored
        if polled ≠ none then false else soError.elim false (· = 0)
    else stConnect poll soError true calls

end StateThreads
