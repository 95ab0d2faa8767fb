import Mathlib.Data.List.Nodup
import Mathlib.Logic.Function.Basic
import Mathlib.Tactic

namespace Updates

variable {ι β : Type} [DecidableEq ι]

def applyAll (f : ι → β) (us : List (ι × β)) : ι → β :=
  us.foldl (fun g u => Function.update g u.1 u.2) f

def last (k : ι) (us : List (ι × β)) : Option β :=
  ((us.filter (fun u => decide (u.1 = k))).getLast?).map Prod.snd

@[simp] theorem applyAll_nil (f : ι → β) : applyAll f [] = f := rfl

theorem applyAll_cons (f : ι → β) (u : ι × β) (us : List (ι × β)) :
    applyAll f (u :: us) = applyAll (Function.update f u.1 u.2) us := rfl

theorem applyAll_append (f : ι → β) (us vs : List (ι × β)) :
    applyAll f (us ++ vs) = applyAll (applyAll f us) vs := List.foldl_append ..

theorem applyAll_last (f : ι → β) (us : List (ι × β)) (k : ι) :
    applyAll f us k = (last k us).getD (f k) := by
  induction us using List.reverseRecOn generalizing f with
  | nil => rfl
  | append_singleton us u ih =>
    rw [applyAll_append,applyAll_cons,applyAll_nil,last,List.filter_append]
    by_cases hk : u.1 = k
    · subst hk
      simp [Function.update_self]
    · rw [Function.update_of_ne (Ne.symm hk),ih]
      simp [hk,last]

theorem applyAll_of_notMem {f : ι → β} {us : List (ι × β)} {k : ι} (h : k ∉ us.map Prod.fst) :
    applyAll f us k = f k := by
  induction us generalizing f with
  | nil => rfl
  | cons u us ih =>
    rw [List.map_cons,List.mem_cons,not_or] at h
    rw [applyAll_cons,ih h.2,Function.update_of_ne h.1]

theorem applyAll_of_mem {f : ι → β} {us : List (ι × β)} (hn : (us.map Prod.fst).Nodup) {u : ι × β}
    (hu : u ∈ us) : applyAll f us u.1 = u.2 := by
  induction us generalizing f with
  | nil => cases hu
  | cons v us ih =>
    obtain ⟨hv,hns⟩ := List.nodup_cons.mp hn
    rw [applyAll_cons]
    rcases List.mem_cons.mp hu with rfl | hu
    · rw [applyAll_of_notMem hv,Function.update_self]
    · exact ih hns hu

theorem applyAll_of_fun (F : ι → β) {f : ι → β} {us : List (ι × β)} (h : ∀ u ∈ us, u.2 = F u.1) (k : ι) :
    applyAll f us k = if k ∈ us.map Prod.fst then F k else f k := by
  induction us using List.reverseRecOn with
  | nil => rfl
  | append_singleton us u ih =>
    rw [applyAll_append,applyAll_cons,applyAll_nil]
    by_cases hk : k = u.1
    · subst hk
      rw [Function.update_self,if_pos (by simp)]
      exact h u (by simp)
    · rw [Function.update_of_ne hk,ih (fun v hv => h v (List.mem_append_left _ hv))]
      have hm : k ∈ (us ++ [u]).map Prod.fst ↔ k ∈ us.map Prod.fst := by
        rw [List.map_append,List.mem_append,List.map_singleton,List.mem_singleton,or_iff_left hk]
      by_cases hin : k ∈ us.map Prod.fst
      · rw [if_pos hin,if_pos (hm.mpr hin)]
      · rw [if_neg hin,if_neg (fun hc => hin (hm.mp hc))]

theorem applyAll_filter (f : ι → β) (P : ι → Bool) (us : List (ι × β)) (k : ι) :
    applyAll f (us.filter (fun u => P u.1)) k = if P k then applyAll f us k else f k := by
  induction us using List.reverseRecOn with
  | nil => simp
  | append_singleton us u ih =>
    rw [List.filter_append,applyAll_append,applyAll_append,applyAll_cons,applyAll_nil]
    by_cases hk : k = u.1
    · subst hk
      cases hu : P u.1 with
      | true => simp [hu,applyAll_cons]
      | false =>
        rw [hu] at ih
        simpa [hu] using ih
    · cases hu : P u.1 with
      | true => simpa [hu,applyAll_cons,Function.update_of_ne hk] using ih
      | false => simpa [hu,Function.update_of_ne hk] using ih

end Updates
