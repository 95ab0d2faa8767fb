import Mathlib.Logic.Relation
import Mathlib.Logic.Function.Basic

namespace Rtfs

section ParentTree
variable {α : Type}

inductive Rooted (parent : α → α) (root : α) : α → Prop
  | root : Rooted parent root root
  | up {x : α} (h : Rooted parent root (parent x)) : Rooted parent root x

inductive Above (parent : α → α) (root a : α) : α → Prop
  | here : Above parent root a a
  | up {x : α} (hx : x ≠ root) (h : Above parent root a (parent x)) : Above parent root a x

variable {parent parent' : α → α} {root : α}

theorem Rooted.acyclic {x : α} (h : Rooted parent root x) :
    ¬ Relation.TransGen (fun c p => parent c = p ∧ c ≠ root) x x := by
  induction h with
  | root =>
    intro hc
    obtain ⟨y,⟨_,hne⟩,_⟩ := Relation.TransGen.head'_iff.mp hc
    exact hne rfl
  | @up x _ ih =>
    intro hc
    obtain ⟨y,⟨rfl,hne⟩,hback⟩ := Relation.TransGen.head'_iff.mp hc
    exact ih (Relation.TransGen.tail'_iff.mpr ⟨x,hback,rfl,hne⟩)

theorem Rooted.congr {x : α} (h : Rooted parent root x) (P : α → Prop) (hx : P x)
    (hup : ∀ y, P y → y ≠ root → P (parent y) ∧ parent' y = parent y) : Rooted parent' root x := by
  classical
  induction h with
  | root => exact .root
  | @up x _ ih =>
    by_cases hr : x = root
    · rw [hr]
      exact .root
    · obtain ⟨hp,he⟩ := hup x hx hr
      refine .up ?_
      rw [he]
      exact ih hp

theorem Above.congr {a x : α} (h : Above parent root a x) (P : α → Prop) (hx : P x)
    (hup : ∀ y, P y → y ≠ root → P (parent y) ∧ parent' y = parent y) : Above parent' root a x := by
  induction h with
  | here => exact .here
  | @up x hr _ ih =>
    obtain ⟨hp,he⟩ := hup x hx hr
    refine .up hr ?_
    rw [he]
    exact ih hp

variable [DecidableEq α]

theorem Rooted.move_target {c p q : α} (h : Rooted parent root q) (hq : ¬ Above parent root c q) :
    Rooted (Function.update parent c p) root q := by
  induction h with
  | root => exact .root
  | @up x _ ih =>
    by_cases hr : x = root
    · rw [hr]
      exact .root
    · have hne : x ≠ c := by
        rintro rfl
        exact hq .here
      refine .up ?_
      rw [Function.update_of_ne hne]
      exact ih (fun ha => hq (.up hr ha))

theorem Rooted.move {c p x : α} (h : Rooted parent root x) (hp : Rooted parent root p)
    (hout : ¬ Above parent root c p) : Rooted (Function.update parent c p) root x := by
  induction h with
  | root => exact .root
  | @up x _ ih =>
    by_cases hc : x = c
    · refine .up ?_
      rw [hc,Function.update_self]
      exact hp.move_target hout
    · refine .up ?_
      rw [Function.update_of_ne hc]
      exact ih

end ParentTree

end Rtfs
