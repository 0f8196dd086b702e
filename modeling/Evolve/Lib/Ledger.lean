import Mathlib

/-! Ledgers: balances that add up to the supply.  The operations build ledgers again, so the sum
holds after any of them. -/

/-- The balances of the accounts of a finite type, which add up to the supply. -/
structure Ledger (A : Type) [Fintype A] where
  balances : A → ℕ
  supply : ℕ
  conserved : ∑ a, balances a = supply

namespace Ledger

variable {A : Type} [Fintype A]

theorem balance_le_supply (l : Ledger A) (a : A) : l.balances a ≤ l.supply := by
  rw [← l.conserved]
  exact Finset.single_le_sum (fun _ _ => Nat.zero_le _) (Finset.mem_univ a)

def empty : Ledger A := ⟨fun _ => 0, 0, Finset.sum_const_zero⟩

variable [DecidableEq A]

theorem sum_replace (f : A → ℕ) (a : A) (x : ℕ) :
    ∑ b, Function.update f a x b + f a = ∑ b, f b + x := by
  have hsplit := Finset.add_sum_erase Finset.univ f (Finset.mem_univ a)
  rw [Finset.sum_update_of_mem (Finset.mem_univ a), Finset.sdiff_singleton_eq_erase]
  omega

def mint (l : Ledger A) (a : A) (x : ℕ) : Ledger A where
  balances := Function.update l.balances a (l.balances a + x)
  supply := l.supply + x
  conserved := by
    have h := sum_replace l.balances a (l.balances a + x)
    have hl := l.conserved
    omega

def burn (l : Ledger A) (a : A) (x : ℕ) (hx : x ≤ l.balances a) : Ledger A where
  balances := Function.update l.balances a (l.balances a - x)
  supply := l.supply - x
  conserved := by
    have h := sum_replace l.balances a (l.balances a - x)
    have hl := l.conserved
    omega

/-- A transfer is a burn and a mint, also from an account to itself. -/
def transfer (l : Ledger A) (a b : A) (x : ℕ) (hx : x ≤ l.balances a) : Ledger A :=
  (l.burn a x hx).mint b x

theorem transfer_supply (l : Ledger A) (a b : A) (x : ℕ) (hx : x ≤ l.balances a) :
    (l.transfer a b x hx).supply = l.supply := by
  have := l.balance_le_supply a
  show l.supply - x + x = l.supply
  omega

end Ledger
