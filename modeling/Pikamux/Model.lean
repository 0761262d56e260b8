import Mathlib.Tactic.Common

/-!
# Model

`model.rs`: the providers and the statuses of a session.
-/

namespace Pikamux

inductive Provider where
  | codex
  | claude
  | opencode
  | muse
  deriving DecidableEq, Repr, Inhabited

inductive Status where
  | starting
  | needsYou
  | openTwice
  | working
  | ready
  | parked
  | unbound
  | error
  deriving DecidableEq, Repr, Inhabited

end Pikamux
