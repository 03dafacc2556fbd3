import Gust.Config
import Gust.Lib.IpAddr
import Gust.Lib.RoundRobin

/-!
# The TCP accept loop

`serve` accepts connections until the shutdown, handing each one to a task of its own
together with the next target. An accept error is counted and followed by a pause; it
never ends the loop.
-/

namespace Gust.Tcp

open Gust.Lib

/-- Round robin over the targets; the counter has the width of `usize`. -/
def pickTarget {w : ℕ} (targets : List Str) (rr : BitVec w) : Option (Str × BitVec w) :=
  roundRobin targets rr

inductive Loop
  | accepting
  /-- In the pause after an accept error. -/
  | pausing
  | accepted (peer : SocketAddr)
  deriving DecidableEq, Repr

structure State where
  loop : Loop
  rr : BitVec 64
  /-- How often `accept` has failed. -/
  errors : ℕ
  /-- The connections handed to tasks, with their targets. -/
  conns : List (SocketAddr × Str)
  deriving DecidableEq, Repr

inductive Act
  | accept (peer : SocketAddr)
  | acceptError
  | resume
  | dispatch
  deriving DecidableEq, Repr

def init : State := ⟨.accepting, 0, 0, []⟩

def step (targets : List Str) (s : State) : Act → Option State
  | .accept peer => if s.loop = .accepting then some { s with loop := .accepted peer } else none
  | .acceptError =>
      if s.loop = .accepting then some { s with loop := .pausing, errors := s.errors + 1 } else none
  | .resume => if s.loop = .pausing then some { s with loop := .accepting } else none
  | .dispatch =>
      match s.loop with
      | .accepted peer =>
          (pickTarget targets s.rr).map fun (target, rr) =>
            { s with loop := .accepting, rr := rr, conns := s.conns ++ [(peer, target)] }
      | _ => none

end Gust.Tcp
