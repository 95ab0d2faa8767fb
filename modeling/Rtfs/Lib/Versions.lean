import Mathlib.Data.Set.Basic
import Mathlib.Order.Basic

namespace Versions

variable {ι α : Type}

def seen (h : ℕ → ι → α → Prop) (n : ℕ) : Set α := {x | ∃ m ≤ n, ∃ i, h m i x}

structure FreshStep (s : Set α) (old new : ι → α → Prop) : Prop where
  fresh : ∀ i x, new i x → old i x ∨ x ∉ s
  single : ∀ i j x, new i x → new j x → i = j

structure FreshRun (h : ℕ → ι → α → Prop) (n : ℕ) : Prop where
  first : ∀ i j x, h 0 i x → h 0 j x → i = j
  step : ∀ m < n, FreshStep (seen h m) (h m) (h (m + 1))

variable {h : ℕ → ι → α → Prop} {n k m : ℕ} {i j : ι} {x : α}

theorem FreshRun.single (hr : FreshRun h n) (hk : k ≤ n) (hi : h k i x) (hj : h k j x) : i = j := by
  cases k with
  | zero => exact hr.first i j x hi hj
  | succ k => exact (hr.step k hk).single i j x hi hj

theorem FreshRun.dropped (hr : FreshRun h n) (hi : h k i x) (hi' : ¬ h (k + 1) i x) (hkm : k + 1 ≤ m)
    (hm : m ≤ n) (j : ι) : ¬ h m j x := by
  have hseen : ∀ m, k ≤ m → x ∈ seen h m := fun m hm => ⟨k,hm,i,hi⟩
  induction m, hkm using Nat.le_induction generalizing j with
  | base =>
    intro hj
    rcases (hr.step k hm).fresh j x hj with hold | hnew
    · obtain rfl := hr.single (Nat.le_of_lt hm) hold hi
      exact hi' hj
    · exact hnew (hseen k le_rfl)
  | succ m hkm ih =>
    intro hj
    rcases (hr.step m hm).fresh j x hj with hold | hnew
    · exact ih (Nat.le_of_succ_le hm) j hold
    · exact hnew (hseen m (by omega))

theorem FreshRun.dropped_once (hr : FreshRun h n) (hk : k < n) (hm : m < n) (hi : h k i x)
    (hi' : ¬ h (k + 1) i x) (hj : h m j x) (hj' : ¬ h (m + 1) j x) : k = m ∧ i = j := by
  rcases Nat.lt_trichotomy k m with hlt | rfl | hlt
  · exact absurd hj (hr.dropped hi hi' hlt (Nat.le_of_lt hm) j)
  · exact ⟨rfl,hr.single (Nat.le_of_lt hk) hi hj⟩
  · exact absurd hi (hr.dropped hj hj' hlt (Nat.le_of_lt hk) i)

end Versions
