import Mathlib

/-!
# Ledgers

A ledger is a list of entries, the newest at the end. `total w l` is the sum of the weights of the
entries, and `since o l` is the part of the ledger after the last entry `o`.
-/

namespace WagoHttp.Ledger

variable {α : Type*}

/-- The sum of the weights of the entries. -/
def total (w : α → ℕ) (l : List α) : ℕ := (l.map w).sum

@[simp] theorem total_nil (w : α → ℕ) : total w [] = 0 := rfl

@[simp] theorem total_append (w : α → ℕ) (l l' : List α) :
    total w (l ++ l') = total w l + total w l' := by
  simp [total]

@[simp] theorem total_singleton (w : α → ℕ) (o : α) : total w [o] = w o := by
  simp [total]

variable [DecidableEq α]

/-- The entries after the last entry `o`, or all of them when there is none. -/
def since (o : α) (l : List α) : List α := (l.reverse.takeWhile (· ≠ o)).reverse

@[simp] theorem since_append_self (o : α) (l : List α) : since o (l ++ [o]) = [] := by
  simp [since]

theorem since_append_of_ne {o o' : α} (h : o' ≠ o) (l : List α) :
    since o (l ++ [o']) = since o l ++ [o'] := by
  simp [since, h]

end WagoHttp.Ledger
