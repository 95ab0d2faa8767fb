import Mathlib.Tactic

namespace Ring

variable (base size : Nat)

def slot (i : Nat) : Nat := base + i % size

def next (cur : Nat) : Nat := if base + size ≤ cur + 1 then base else cur + 1

variable {base size}

theorem base_le_slot (i : Nat) : base ≤ slot base size i := Nat.le_add_right _ _

theorem slot_lt (hs : 0 < size) (i : Nat) : slot base size i < base + size :=
  Nat.add_lt_add_left (Nat.mod_lt i hs) base

theorem slot_sub (i : Nat) : slot base size i - base = i % size := Nat.add_sub_cancel_left _ _

@[simp] theorem slot_mod (i : Nat) : slot base size (i % size) = slot base size i := by
  rw [slot,slot,Nat.mod_mod]

theorem slot_mod_add (i j : Nat) : slot base size (i % size + j) = slot base size (i + j) := by
  rw [slot,slot,Nat.mod_add_mod]

@[simp] theorem slot_add_size (i : Nat) : slot base size (i + size) = slot base size i := by
  rw [slot,slot,Nat.add_mod_right]

theorem next_slot (hs : 0 < size) (i : Nat) :
    next base size (slot base size i) = slot base size (i + 1) := by
  have hlt := Nat.mod_lt i hs
  unfold next slot
  by_cases h : i % size + 1 = size
  · have hz : (i + 1) % size = 0 := by
      rw [← Nat.mod_add_mod,h,Nat.mod_self]
    rw [if_pos (by omega),hz,Nat.add_zero]
  · have hm : (i + 1) % size = i % size + 1 := by
      rw [← Nat.mod_add_mod,Nat.mod_eq_of_lt (by omega)]
    rw [if_neg (by omega),hm,Nat.add_assoc]

theorem slot_inj {i j : Nat} (hij : i < j) (hj : j < i + size) :
    slot base size i ≠ slot base size j := by
  intro he
  have hm : i % size = j % size := Nat.add_left_cancel he
  have hd : size ∣ j - i := (Nat.modEq_iff_dvd' (le_of_lt hij)).mp hm
  have hle := Nat.le_of_dvd (by omega) hd
  omega

theorem slot_eq_iff {i j n : Nat} (hj : j < n) (hi : i < n) (hn : n ≤ size) (o : Nat) :
    slot base size (o + i) = slot base size (o + j) ↔ i = j := by
  constructor
  · intro he
    rcases Nat.lt_trichotomy i j with h | h | h
    · exact absurd he (slot_inj (by omega) (by omega))
    · exact h
    · exact absurd he.symm (slot_inj (by omega) (by omega))
  · rintro rfl
    rfl

theorem slot_near (base : Nat) (hs : 0 < size) {i j : Nat} (hij : i ≤ j) (hj : j < i + size) :
    slot base size j = slot base size i + (j - i) ∨
      slot base size j + size = slot base size i + (j - i) := by
  obtain ⟨d,rfl⟩ := Nat.exists_eq_add_of_le hij
  have hlt := Nat.mod_lt i hs
  unfold slot
  rw [← Nat.mod_add_mod]
  by_cases h : i % size + d < size
  · rw [Nat.mod_eq_of_lt h]
    omega
  · rw [Nat.mod_eq_sub_mod (by omega),Nat.mod_eq_of_lt (by omega)]
    omega

theorem slot_bounds (base : Nat) (hs : 0 < size) (i : Nat) :
    base ≤ slot base size i ∧ slot base size i < base + size := ⟨base_le_slot i,slot_lt hs i⟩

theorem next_iterate (hs : 0 < size) (i n : Nat) :
    (next base size)^[n] (slot base size i) = slot base size (i + n) := by
  induction n generalizing i with
  | zero => rfl
  | succ n ih => rw [Function.iterate_succ_apply,next_slot hs,ih,Nat.add_right_comm,Nat.add_assoc]

end Ring
