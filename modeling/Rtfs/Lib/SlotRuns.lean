import Mathlib.Data.List.Perm.Basic
import Mathlib.Data.List.Nodup
import Mathlib.Tactic

namespace SlotRuns

variable {busy : Nat → Bool} {lenAt : Nat → Nat} {n len i : Nat}

-- first fit: after a taken slot the search goes on behind it
def firstFit (busy : Nat → Bool) (n len i : Nat) : Option Nat :=
  if i + len ≤ n then
    match (List.range len).find? (fun slot => busy (i + slot)) with
    | none => some i
    | some slot => firstFit busy n len (i + slot + 1)
  else none
termination_by n + 1 - i

def starts (busy : Nat → Bool) (lenAt : Nat → Nat) (n i : Nat) : List Nat :=
  if i < n then
    if busy i then i :: starts busy lenAt n (i + max 1 (lenAt i)) else starts busy lenAt n (i + 1)
  else []
termination_by n - i

def walk {m : Type → Type} [Monad m] {σ : Type} (busy : Nat → Bool) (lenAt : Nat → Nat) (n : Nat)
    (body : σ → Nat → m σ) (i : Nat) (s : σ) : m σ :=
  if i < n then
    if busy i then do
      let s ← body s i
      walk busy lenAt n body (i + max 1 (lenAt i)) s
    else walk busy lenAt n body (i + 1) s
  else pure s
termination_by n - i

def Apart (r r' : Nat × Nat) : Prop := r.1 + r.2 ≤ r'.1 ∨ r'.1 + r'.2 ≤ r.1

instance : Std.Symm Apart := ⟨fun _ _ h => Or.symm h⟩

def Covers (r : Nat × Nat) (i : Nat) : Prop := r.1 ≤ i ∧ i < r.1 + r.2

structure Tiles (busy : Nat → Bool) (n : Nat) (runs : List (Nat × Nat)) : Prop where
  fits : ∀ r ∈ runs, 0 < r.2 ∧ r.1 + r.2 ≤ n
  apart : runs.Pairwise Apart
  exact : ∀ i < n, busy i = true ↔ ∃ r ∈ runs, Covers r i

theorem firstFit_some {s : Nat} (h : firstFit busy n len i = some s) :
    s + len ≤ n ∧ ∀ k < len, busy (s + k) = false := by
  fun_induction firstFit busy n len i with
  | case1 i hfit hfree =>
    cases h
    refine ⟨hfit,fun k hk => ?_⟩
    have hnot := List.find?_eq_none.mp hfree k (List.mem_range.mpr hk)
    simpa using hnot
  | case2 i hfit slot hslot ih => exact ih h
  | case3 i hfit => cases h

theorem firstFit_none {s : Nat} (h : firstFit busy n len i = none) (hi : i ≤ s) (hs : s + len ≤ n) :
    ∃ k < len, busy (s + k) = true := by
  fun_induction firstFit busy n len i with
  | case1 i hfit hfree => cases h
  | case2 i hfit slot hslot ih =>
    obtain ⟨hbusy,hmem⟩ := List.find?_some hslot,List.mem_of_find?_eq_some hslot
    have hlt := List.mem_range.mp hmem
    by_cases hle : s ≤ i + slot
    · refine ⟨i + slot - s,by omega,?_⟩
      rw [show s + (i + slot - s) = i + slot by omega]
      exact hbusy
    · exact ih h (by omega)
  | case3 i hfit => omega

theorem firstFit_free (hfree : ∀ k < len, busy k = false) (hlen : len ≤ n) : firstFit busy n len 0 = some 0 := by
  rw [firstFit,if_pos (by omega)]
  have hnone : (List.range len).find? (fun slot => busy (0 + slot)) = none := by
    rw [List.find?_eq_none]
    intro k hk
    simp [hfree k (List.mem_range.mp hk)]
  rw [hnone]

theorem walk_eq {m : Type → Type} [Monad m] [LawfulMonad m] {σ : Type} (body : σ → Nat → m σ) (s : σ) :
    walk busy lenAt n body i s = (starts busy lenAt n i).foldlM body s := by
  fun_induction starts busy lenAt n i generalizing s with
  | case1 i hi hb ih =>
    rw [walk,if_pos hi,if_pos hb,List.foldlM_cons]
    simp only [ih]
  | case2 i hi hb ih =>
    rw [walk,if_pos hi,if_neg hb]
    exact ih s
  | case3 i hi =>
    rw [walk,if_neg hi]
    rfl

theorem le_starts {x : Nat} (h : x ∈ starts busy lenAt n i) : i ≤ x := by
  fun_induction starts busy lenAt n i with
  | case1 i hi hb ih =>
    rcases List.mem_cons.mp h with rfl | h
    · exact le_rfl
    · have := ih h
      omega
  | case2 i hi hb ih =>
    have := ih h
    omega
  | case3 i hi => cases h

theorem starts_sorted (busy : Nat → Bool) (lenAt : Nat → Nat) (n i : Nat) :
    (starts busy lenAt n i).Pairwise (· < ·) := by
  fun_induction starts busy lenAt n i with
  | case1 i hi hb ih =>
    refine List.pairwise_cons.mpr ⟨fun x hx => ?_,ih⟩
    have := le_starts hx
    omega
  | case2 i hi hb ih => exact ih
  | case3 i hi => exact .nil

theorem starts_spaced (busy : Nat → Bool) (lenAt : Nat → Nat) (n i : Nat) :
    (starts busy lenAt n i).Pairwise (fun x y => x + max 1 (lenAt x) ≤ y) := by
  fun_induction starts busy lenAt n i with
  | case1 i hi hb ih => exact List.pairwise_cons.mpr ⟨fun x hx => le_starts hx,ih⟩
  | case2 i hi hb ih => exact ih
  | case3 i hi => exact .nil

section Clear
variable {busy' : Nat → Bool} {lenAt' : Nat → Nat} {s j : Nat}

theorem starts_congr (h : ∀ k, i ≤ k → busy' k = busy k ∧ lenAt' k = lenAt k) :
    starts busy' lenAt' n i = starts busy lenAt n i := by
  fun_induction starts busy lenAt n i with
  | case1 i hi hb ih =>
    obtain ⟨hb',hl⟩ := h i le_rfl
    rw [starts,if_pos hi,hb',if_pos hb,hl,ih (fun k hk => h k (by omega))]
  | case2 i hi hb ih =>
    rw [starts,if_pos hi,(h i le_rfl).1,if_neg hb,ih (fun k hk => h k (by omega))]
  | case3 i hi => rw [starts,if_neg hi]

theorem starts_skip (hij : i ≤ j) (h : ∀ k, i ≤ k → k < j → busy k = false) :
    starts busy lenAt n i = starts busy lenAt n j := by
  obtain ⟨d,rfl⟩ := Nat.exists_eq_add_of_le hij
  clear hij
  induction d with
  | zero => rfl
  | succ d ih =>
    rw [ih (fun k hlo hhi => h k hlo (by omega)),starts]
    have hfree := h (i + d) (by omega) (by omega)
    split
    · rw [if_neg (by simp [hfree])]
      rfl
    · rw [starts,if_neg (by omega)]

theorem starts_clear (hs : s ∈ starts busy lenAt n i) (hin : ∀ k, s ≤ k → k < s + max 1 (lenAt s) → busy' k = false)
    (hout : ∀ k, k < s ∨ s + max 1 (lenAt s) ≤ k → busy' k = busy k ∧ lenAt' k = lenAt k) :
    starts busy' lenAt' n i = (starts busy lenAt n i).filter (fun k => decide (k ≠ s)) := by
  fun_induction starts busy lenAt n i with
  | case1 i hi hb ih =>
    by_cases he : s = i
    · subst he
      have hrest : ∀ k ∈ starts busy lenAt n (s + max 1 (lenAt s)), decide (k ≠ s) = true := fun k hk => by
        have := le_starts hk
        exact decide_eq_true (by omega)
      rw [starts_skip (by omega) hin,starts_congr (fun k hk => hout k (.inr hk)),
        List.filter_cons_of_neg (by simp),List.filter_eq_self.mpr hrest]
    · have hin' := (List.mem_cons.mp hs).resolve_left he
      have hle := le_starts hin'
      obtain ⟨hb',hl⟩ := hout i (.inl (by omega))
      rw [starts,if_pos hi,hb',if_pos hb,hl,ih hin',List.filter_cons_of_pos (by simpa using Ne.symm he)]
  | case2 i hi hb ih =>
    have hle := le_starts hs
    rw [starts,if_pos hi,(hout i (.inl (by omega))).1,if_neg hb,ih hs]
  | case3 i hi => cases hs

end Clear

namespace Tiles
variable {runs : List (Nat × Nat)}

theorem mem_starts (h : Tiles busy n runs) (hlen : ∀ r ∈ runs, lenAt r.1 = r.2)
    (hin : ∀ r ∈ runs, r.1 < i → r.1 + r.2 ≤ i) (x : Nat) :
    x ∈ starts busy lenAt n i ↔ i ≤ x ∧ x ∈ runs.map Prod.fst := by
  fun_induction starts busy lenAt n i with
  | case1 i hi hb ih =>
    obtain ⟨r,hr,hcov⟩ := (h.exact i hi).mp hb
    have hstart : r.1 = i := by
      have hle := hin r hr
      obtain ⟨h1,h2⟩ := hcov
      omega
    have hpos := (h.fits r hr).1
    have hstep : max 1 (lenAt i) = r.2 := by
      rw [← hstart,hlen r hr]
      omega
    have hnext (r' : Nat × Nat) (hr' : r' ∈ runs) (hlt : r'.1 < i + max 1 (lenAt i)) :
        r'.1 + r'.2 ≤ i + max 1 (lenAt i) := by
      rw [hstep] at hlt ⊢
      by_cases heq : r' = r
      · rw [heq,hstart]
      · have hap := h.apart.forall hr hr' (Ne.symm heq)
        unfold Apart at hap
        omega
    rw [List.mem_cons,ih hnext,hstep]
    constructor
    · rintro (rfl | ⟨hle,hx⟩)
      · exact ⟨le_rfl,List.mem_map.mpr ⟨r,hr,hstart⟩⟩
      · exact ⟨by omega,hx⟩
    · rintro ⟨hle,hx⟩
      by_cases hxi : x = i
      · exact .inl hxi
      · refine .inr ⟨?_,hx⟩
        obtain ⟨r',hr',rfl⟩ := List.mem_map.mp hx
        have hne : r' ≠ r := by
          rintro rfl
          exact hxi hstart
        have hap := h.apart.forall hr hr' hne.symm
        have hpos' := (h.fits r' hr').1
        unfold Apart at hap
        omega
  | case2 i hi hb ih =>
    have hfree (r : Nat × Nat) (hr : r ∈ runs) : ¬ Covers r i := fun hc => hb ((h.exact i hi).mpr ⟨r,hr,hc⟩)
    have hnext (r : Nat × Nat) (hr : r ∈ runs) (hlt : r.1 < i + 1) : r.1 + r.2 ≤ i + 1 := by
      have hc := hfree r hr
      unfold Covers at hc
      omega
    rw [ih hnext]
    refine and_congr_left (fun hx => ⟨fun hle => by omega,fun hle => ?_⟩)
    obtain ⟨r,hr,rfl⟩ := List.mem_map.mp hx
    have hpos := (h.fits r hr).1
    have hc := hfree r hr
    unfold Covers at hc
    omega
  | case3 i hi =>
    refine iff_of_false List.not_mem_nil ?_
    rintro ⟨hle,hx⟩
    obtain ⟨r,hr,rfl⟩ := List.mem_map.mp hx
    have hfit := h.fits r hr
    omega

theorem starts_nodup (h : Tiles busy n runs) : (runs.map Prod.fst).Nodup := by
  refine List.pairwise_map.mpr (h.apart.imp_of_mem ?_)
  intro r r' hr hr' hap heq
  have hpos := (h.fits r hr).1
  have hpos' := (h.fits r' hr').1
  unfold Apart at hap
  omega

theorem starts_perm (h : Tiles busy n runs) (hlen : ∀ r ∈ runs, lenAt r.1 = r.2) :
    (starts busy lenAt n 0).Perm (runs.map Prod.fst) := by
  refine (List.perm_ext_iff_of_nodup ((starts_sorted busy lenAt n 0).imp Nat.ne_of_lt) h.starts_nodup).mpr
    (fun x => ?_)
  rw [h.mem_starts hlen (fun _ _ hlt => absurd hlt (Nat.not_lt_zero _))]
  simp

end Tiles

end SlotRuns
