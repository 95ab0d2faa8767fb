import Mathlib.Data.List.Nodup
import Mathlib.Tactic

namespace CursorScan

variable {α : Type} [DecidableEq α]

-- a scan by position over a list that loses elements while it goes on
structure State (α : Type) where
  items : List α
  pos : Nat
  out : List α

def State.read (s : State α) (n : Nat) : State α :=
  ⟨s.items,s.pos + ((s.items.drop s.pos).take n).length,s.out ++ (s.items.drop s.pos).take n⟩

def State.remove (s : State α) (x : α) : State α := { s with items := s.items.filter (fun y => decide (y ≠ x)) }

def State.AtEnd (s : State α) : Prop := s.items.length ≤ s.pos

inductive Run (l : List α) : List (State α × α) → State α → Prop
  | start : Run l [] ⟨l,0,[]⟩
  | read {us : List (State α × α)} {s : State α} (n : Nat) (h : Run l us s) : Run l us (s.read n)
  | remove {us : List (State α × α)} {s : State α} {x : α} (h : Run l us s) (hx : x ∈ s.out)
      (hin : x ∈ s.items) : Run l (us ++ [(s,x)]) (s.remove x)

structure Inv (l : List α) (us : List (State α × α)) (s : State α) : Prop where
  mem : ∀ x, x ∈ s.items ↔ x ∈ l ∧ x ∉ us.map Prod.snd
  nodup : s.items.Nodup
  once : s.out.Nodup
  behind : ∀ x ∈ s.out, x ∈ s.items → x ∈ s.items.take s.pos

def Skipped (s : State α) (x : α) : Prop := x ∈ s.items.take s.pos ∧ x ∉ s.out

section Steps
variable {l : List α} {us : List (State α × α)} {s : State α} {x y : α}

omit [DecidableEq α] in
theorem take_read (s : State α) (n : Nat) :
    (s.read n).items.take (s.read n).pos = s.items.take s.pos ++ (s.items.drop s.pos).take n := by
  change s.items.take (s.pos + ((s.items.drop s.pos).take n).length) = _
  rw [List.take_add]
  congr 1
  rw [List.length_take]
  by_cases hn : n ≤ (s.items.drop s.pos).length
  · rw [Nat.min_eq_left hn]
  · rw [Nat.min_eq_right (by omega),List.take_length,List.take_of_length_le (by omega)]

theorem items_remove (s : State α) (x : α) : (s.remove x).items =
    (s.items.take s.pos).filter (fun y => decide (y ≠ x)) ++ (s.items.drop s.pos).filter (fun y => decide (y ≠ x)) := by
  rw [← List.filter_append,List.take_append_drop]
  rfl

theorem take_remove (s : State α) (hy : y ∈ s.items.take s.pos) (hne : y ≠ x) :
    y ∈ (s.remove x).items.take (s.remove x).pos := by
  have hshort : ((s.items.take s.pos).filter (fun y => decide (y ≠ x))).length ≤ s.pos :=
    (List.length_filter_le _ _).trans (List.length_take_le _ _)
  rw [items_remove,List.take_append]
  refine List.mem_append_left _ ?_
  change y ∈ ((s.items.take s.pos).filter _).take s.pos
  rw [List.take_of_length_le hshort]
  exact List.mem_filter.mpr ⟨hy,decide_eq_true hne⟩

omit [DecidableEq α] in
theorem ahead_not_behind (h : s.items.Nodup) (hy : y ∈ s.items.drop s.pos) : y ∉ s.items.take s.pos := by
  rw [← List.take_append_drop s.pos s.items] at h
  exact fun hin => (List.nodup_append.mp h).2.2 y hin y hy rfl

omit [DecidableEq α] in
theorem Inv.start (h : l.Nodup) : Inv l [] ⟨l,0,[]⟩ :=
  ⟨fun x => by simp,h,.nil,fun x hx => absurd hx List.not_mem_nil⟩

omit [DecidableEq α] in
theorem Inv.read (h : Inv l us s) (n : Nat) : Inv l us (s.read n) := by
  refine ⟨h.mem,h.nodup,List.nodup_append.mpr ⟨h.once,?_,?_⟩,fun x hx hin => ?_⟩
  · exact h.nodup.sublist ((List.take_sublist _ _).trans (List.drop_sublist _ _))
  · rintro x hx y hy rfl
    have hahead := List.mem_of_mem_take hy
    exact ahead_not_behind h.nodup hahead (h.behind x hx (List.mem_of_mem_drop hahead))
  · rw [take_read]
    rcases List.mem_append.mp hx with hx | hx
    · exact List.mem_append_left _ (h.behind x hx hin)
    · exact List.mem_append_right _ hx

theorem Inv.remove (h : Inv l us s) : Inv l (us ++ [(s,x)]) (s.remove x) := by
  refine ⟨fun y => ?_,h.nodup.filter _,h.once,fun y hy hin => ?_⟩
  · simp only [State.remove,List.mem_filter,h.mem,List.map_append,List.map_cons,List.map_nil,List.mem_append,
      List.mem_singleton,decide_eq_true_eq,not_or,and_assoc]
  · obtain ⟨hin,hne⟩ := List.mem_filter.mp hin
    exact take_remove s (h.behind y hy hin) (of_decide_eq_true hne)

theorem Run.inv (hl : l.Nodup) (h : Run l us s) : Inv l us s := by
  induction h with
  | start => exact .start hl
  | read n _ ih => exact ih.read n
  | remove _ _ _ ih => exact ih.remove

theorem Run.returned (h : Run l us s) (hlate : ∀ u ∈ us, u.1.AtEnd) : ∀ x ∈ s.items.take s.pos, x ∈ s.out := by
  induction h with
  | start => simp
  | @read us s n _ ih =>
    intro x hx
    rw [take_read] at hx
    rcases List.mem_append.mp hx with hx | hx
    · exact List.mem_append_left _ (ih hlate x hx)
    · exact List.mem_append_right _ hx
  | @remove us s x _ _ _ ih =>
    intro y hy
    have hend : s.AtEnd := hlate (s,x) (List.mem_append_right _ List.mem_cons_self)
    have hin := (List.mem_filter.mp (List.mem_of_mem_take hy)).1
    refine ih (fun u hu => hlate u (List.mem_append_left _ hu)) y ?_
    rwa [List.take_of_length_le hend]

omit [DecidableEq α] in
theorem Skipped.read (h : Inv l us s) (hs : Skipped s y) (n : Nat) : Skipped (s.read n) y := by
  refine ⟨?_,fun hin => ?_⟩
  · rw [take_read]
    exact List.mem_append_left _ hs.1
  · rcases List.mem_append.mp hin with hin | hin
    · exact hs.2 hin
    · exact ahead_not_behind h.nodup (List.mem_of_mem_take hin) hs.1

theorem skipped_of_early (h : Inv l us s) (hx : x ∈ s.out) (hin : x ∈ s.items) (hearly : ¬ s.AtEnd) :
    ∃ y, Skipped (s.remove x) y := by
  have hlt : s.pos < s.items.length := Nat.not_le.mp hearly
  have hbehind := h.behind x hx hin
  obtain ⟨y,rest,hahead⟩ : ∃ y rest, s.items.drop s.pos = y :: rest := ⟨_,_,List.drop_eq_getElem_cons hlt⟩
  have hy : y ∈ s.items.drop s.pos := by
    rw [hahead]
    exact List.mem_cons_self
  have hnot := ahead_not_behind h.nodup hy
  have hne : y ≠ x := fun he => hnot (he ▸ hbehind)
  refine ⟨y,?_,fun hout => hnot (h.behind y hout (List.mem_of_mem_drop hy))⟩
  -- the removed element leaves a place among the first pos
  have hshort : ((s.items.take s.pos).filter (fun y => decide (y ≠ x))).length < s.pos :=
    lt_of_lt_of_le (List.length_filter_lt_length_iff_exists.mpr ⟨x,hbehind,by simp⟩) (List.length_take_le _ _)
  have hkeep : (y :: rest).filter (fun y => decide (y ≠ x)) = y :: rest.filter (fun y => decide (y ≠ x)) :=
    List.filter_cons_of_pos (by simpa using hne)
  rw [items_remove,List.take_append,hahead,hkeep]
  refine List.mem_append_right _ ?_
  change y ∈ List.take (s.pos - _) _
  obtain ⟨k,hk⟩ := Nat.exists_eq_add_of_lt hshort
  rw [show s.pos - ((s.items.take s.pos).filter (fun y => decide (y ≠ x))).length = k + 1 by omega,
    List.take_succ_cons]
  exact List.mem_cons_self

theorem Run.skipped (hl : l.Nodup) (h : Run l us s) (hearly : ∃ u ∈ us, ¬ u.1.AtEnd) : ∃ y, Skipped s y := by
  induction h with
  | start =>
    obtain ⟨u,hu,-⟩ := hearly
    cases hu
  | read n hrun ih =>
    obtain ⟨y,hy⟩ := ih hearly
    exact ⟨y,hy.read (hrun.inv hl) n⟩
  | @remove us s x hrun hx hin ih =>
    by_cases hend : s.AtEnd
    · obtain ⟨u,hu,hnot⟩ := hearly
      rcases List.mem_append.mp hu with hu | hu
      · obtain ⟨y,hy⟩ := ih ⟨u,hu,hnot⟩
        exact ⟨y,take_remove s hy.1 (fun he => hy.2 (he ▸ hx)),hy.2⟩
      · rw [List.mem_singleton] at hu
        subst hu
        exact absurd hend hnot
    · exact skipped_of_early (hrun.inv hl) hx hin hend

end Steps

theorem Run.complete_iff {l : List α} {us : List (State α × α)} {s : State α} (hl : l.Nodup) (h : Run l us s)
    (hend : s.AtEnd) : (∀ x ∈ l, x ∉ us.map Prod.snd → x ∈ s.out) ↔ ∀ u ∈ us, u.1.AtEnd := by
  have hinv := h.inv hl
  constructor
  · intro hall
    by_contra hnot
    push Not at hnot
    obtain ⟨y,hy,hout⟩ := h.skipped hl hnot
    obtain ⟨hin,hkept⟩ := (hinv.mem y).mp (List.mem_of_mem_take hy)
    exact hout (hall y hin hkept)
  · intro hlate x hx hkept
    have hin := (hinv.mem x).mpr ⟨hx,hkept⟩
    refine h.returned hlate x ?_
    rwa [List.take_of_length_le hend]

end CursorScan
