import Mathlib.Data.List.Nodup
import Mathlib.Data.List.Basic
import Mathlib.Logic.Function.Basic

namespace Rtfs

section Threaded
variable {α : Type} {next next' : α → α} {stop : α}

def Threaded (next : α → α) (stop : α) : α → List α → Prop
  | a,[] => a = stop
  | a,x :: xs => a = x ∧ x ≠ stop ∧ Threaded next stop (next x) xs

theorem Threaded.congr {a : α} {l : List α} (h : Threaded next stop a l)
    (hnext : ∀ x ∈ l, next' x = next x) : Threaded next' stop a l := by
  induction l generalizing a with
  | nil => exact h
  | cons x xs ih =>
    obtain ⟨ha,hne,hx⟩ := h
    refine ⟨ha,hne,?_⟩
    rw [hnext x List.mem_cons_self]
    exact ih hx (fun y hy => hnext y (List.mem_cons_of_mem _ hy))

theorem Threaded.ne_stop {a : α} {l : List α} (h : Threaded next stop a l) : ∀ x ∈ l, x ≠ stop := by
  induction l generalizing a with
  | nil => exact fun x hx => absurd hx List.not_mem_nil
  | cons y ys ih =>
    intro x hx
    rcases List.mem_cons.mp hx with rfl | hx
    · exact h.2.1
    · exact ih h.2.2 x hx

theorem Threaded.cons {a : α} {l : List α} (h : Threaded next stop a l) {x : α} (hx : x ≠ stop)
    (hnext : next x = a) : Threaded next stop x (x :: l) := by
  refine ⟨rfl,hx,?_⟩
  rw [hnext]
  exact h

theorem Threaded.of_ne {a : α} {l : List α} (h : Threaded next stop a l) (ha : a ≠ stop) :
    ∃ xs, l = a :: xs ∧ Threaded next stop (next a) xs := by
  cases l with
  | nil => exact absurd h ha
  | cons x xs =>
    obtain ⟨rfl,_,hx⟩ := h
    exact ⟨xs,rfl,hx⟩

theorem Threaded.unique {a : α} {l l' : List α} (h : Threaded next stop a l)
    (h' : Threaded next stop a l') : l = l' := by
  induction l generalizing a l' with
  | nil =>
    cases l' with
    | nil => rfl
    | cons y ys => exact absurd (h'.1.symm.trans h) h'.2.1
  | cons x xs ih =>
    cases l' with
    | nil => exact absurd (h.1.symm.trans h') h.2.1
    | cons y ys =>
      obtain ⟨rfl,_,hx⟩ := h
      obtain ⟨rfl,_,hy⟩ := h'
      rw [ih hx hy]

theorem Threaded.drop {a x : α} {l : List α} (h : Threaded next stop a l) (hx : x ∈ l) :
    ∃ n, n < l.length ∧ Threaded next stop x (l.drop n) := by
  induction l generalizing a with
  | nil => exact absurd hx List.not_mem_nil
  | cons y ys ih =>
    rcases List.mem_cons.mp hx with rfl | hx
    · exact ⟨0,Nat.succ_pos _,rfl,h.2⟩
    · obtain ⟨n,hn,hd⟩ := ih h.2.2 hx
      exact ⟨n + 1,Nat.succ_lt_succ hn,hd⟩

theorem Threaded.nodup {a : α} {l : List α} (h : Threaded next stop a l) : l.Nodup := by
  induction l generalizing a with
  | nil => exact List.nodup_nil
  | cons x xs ih =>
    refine List.nodup_cons.mpr ⟨fun hx => ?_,ih h.2.2⟩
    obtain ⟨n,hn,hd⟩ := h.2.2.drop hx
    have hself : Threaded next stop x (x :: xs) := ⟨rfl,h.2⟩
    have hlen := congrArg List.length (hd.unique hself)
    rw [List.length_drop,List.length_cons] at hlen
    omega

theorem threaded_of_range (f : Nat → α) {n : Nat} (hstop : f n = stop) {k : Nat} (hk : k ≤ n)
    (hne : ∀ i, k ≤ i → i < n → f i ≠ stop) (hnext : ∀ i, k ≤ i → i < n → next (f i) = f (i + 1)) :
    Threaded next stop (f k) ((List.range' k (n - k)).map f) := by
  obtain ⟨d,rfl⟩ := Nat.exists_eq_add_of_le hk
  rw [Nat.add_sub_cancel_left]
  clear hk
  induction d generalizing k with
  | zero => exact hstop
  | succ d ih =>
    refine ⟨rfl,hne k (Nat.le_refl k) (by omega),?_⟩
    rw [hnext k (Nat.le_refl k) (by omega)]
    have hkd : k + (d + 1) = k + 1 + d := by omega
    rw [hkd] at hstop hne hnext
    exact ih hstop (fun i hi => hne i (by omega)) (fun i hi => hnext i (by omega))

end Threaded

end Rtfs
