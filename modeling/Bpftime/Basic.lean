import Mathlib.Data.Nat.Notation

namespace Bpftime

inductive Errno where
  | EINVAL
  | ENOENT
  | EEXIST
  | ENOSPC
  | ENOMEM
  | E2BIG
  | EBADF
  | EOPNOTSUPP
  deriving DecidableEq, Repr

def BPF_ANY : UInt64 := 0

def BPF_NOEXIST : UInt64 := 1

def BPF_EXIST : UInt64 := 2

theorem bind_eq_ok {ε α β : Type} {x : Except ε α} {f : α → Except ε β} {b : β}
    : (x >>= f) = .ok b ↔ ∃ a, x = .ok a ∧ f a = .ok b := by
  cases x with
  | error e | ok a => simp [bind, Except.bind]

theorem bind_eq_error {ε α β : Type} {x : Except ε α} {f : α → Except ε β} {e : ε}
    : (x >>= f) = .error e ↔ x = .error e ∨ ∃ a, x = .ok a ∧ f a = .error e := by
  cases x with
  | error e | ok a => simp [bind, Except.bind]

end Bpftime
