import Mathlib.Data.List.Nodup
import Mathlib.Logic.Function.Basic

namespace Rtfs

-- least recently used replacement with pinning, stated by the times of use
namespace Lru

structure Slot (α : Type) where
  value : α
  pinned : Bool
  used : Nat

structure State (K α : Type) where
  slot : K → Option (Slot α)
  clock : Nat

inductive Op (K α : Type)
  | add (key : K) (value : α)
  | get (key : K) (isAccess : Bool)
  | pin (key : K)
  | unpin (key : K)
  | remove (key : K)
  | replaceOne

section
variable {K α : Type}

def State.init : State K α := ⟨fun _ => none,0⟩

def State.tick (s : State K α) : State K α := ⟨s.slot,s.clock + 1⟩

def State.Unpinned (s : State K α) (key : K) (x : Slot α) : Prop := s.slot key = some x ∧ x.pinned = false

def usedAt (s : State K α) (key : K) : Nat := ((s.slot key).map Slot.used).getD 0

structure Ordered (s : State K α) (keys : List K) : Prop where
  mem : ∀ key, key ∈ keys ↔ ∃ x, s.Unpinned key x
  sorted : keys.Pairwise (fun key key' => usedAt s key < usedAt s key')
  past : ∀ key, s.slot key ≠ none → usedAt s key < s.clock

namespace Ordered
variable {s : State K α} {keys : List K} {key : K}

theorem init : Ordered (State.init : State K α) [] :=
  ⟨fun _ => iff_of_false List.not_mem_nil (fun ⟨_,h,_⟩ => nomatch h),.nil,fun _ h => absurd rfl h⟩

theorem nodup (h : Ordered s keys) : keys.Nodup := h.sorted.imp (fun hlt heq => by simp [heq] at hlt)

theorem keep (h : Ordered s keys) {s' : State K α} (hs : s'.slot = s.slot) (hc : s.clock ≤ s'.clock) :
    Ordered s' keys := by
  have hu (k : K) : usedAt s' k = usedAt s k := by
    unfold usedAt
    rw [hs]
  refine ⟨fun k => ?_,h.sorted.imp (fun hlt => by rw [hu,hu]; exact hlt),fun k hk => ?_⟩
  · rw [h.mem]
    unfold State.Unpinned
    rw [hs]
  · rw [hu]
    exact Nat.lt_of_lt_of_le (h.past k (hs ▸ hk)) hc

theorem head_oldest {rest : List K} (h : Ordered s (key :: rest)) {key' : K} {x x' : Slot α} (hx : s.Unpinned key x)
    (hx' : s.Unpinned key' x') (hne : key' ≠ key) : x.used < x'.used := by
  have hmem := (List.mem_cons.mp ((h.mem key').mpr ⟨x',hx'⟩)).resolve_left hne
  have hlt := (List.pairwise_cons.mp h.sorted).1 key' hmem
  unfold usedAt at hlt
  rwa [hx.1,hx'.1] at hlt

end Ordered

variable [DecidableEq K]

namespace State

def put (s : State K α) (key : K) (x : Option (Slot α)) : State K α :=
  ⟨Function.update s.slot key x,s.clock + 1⟩

-- an access of a pinned key is no use
def touch (s : State K α) (key : K) : State K α :=
  s.put key ((s.slot key).map (fun x => if x.pinned then x else { x with used := s.clock }))

def pin (s : State K α) (key : K) : State K α :=
  s.put key ((s.slot key).map (fun x => { x with pinned := true }))

def unpin (s : State K α) (key : K) : State K α :=
  s.put key ((s.slot key).map (fun x => if x.pinned then { x with pinned := false,used := s.clock } else x))

end State

inductive Step : State K α → Op K α → Option α → State K α → Prop
  | add {s : State K α} {key : K} (value : α) (h : s.slot key = none) :
      Step s (.add key value) none (s.put key (some ⟨value,false,s.clock⟩))
  | get (s : State K α) (key : K) (isAccess : Bool) :
      Step s (.get key isAccess) ((s.slot key).map Slot.value) (if isAccess then s.touch key else s.tick)
  | pin (s : State K α) (key : K) : Step s (.pin key) none (s.pin key)
  | unpin (s : State K α) (key : K) : Step s (.unpin key) none (s.unpin key)
  | remove {s : State K α} {key : K} {x : Slot α} (h : s.slot key = some x) :
      Step s (.remove key) (some x.value) (s.put key none)
  | evict {s : State K α} {key : K} {x : Slot α} (h : s.Unpinned key x)
      (oldest : ∀ key' x', s.Unpinned key' x' → key' ≠ key → x.used < x'.used) :
      Step s .replaceOne (some x.value) (s.put key none)
  | full {s : State K α} (h : ∀ key x, ¬ s.Unpinned key x) : Step s .replaceOne none s.tick

inductive Run : State K α → List (Op K α) → List (Option α) → State K α → Prop
  | nil (s : State K α) : Run s [] [] s
  | cons {s s₁ s₂ : State K α} {op : Op K α} {out : Option α} {ops : List (Op K α)} {outs : List (Option α)}
      (h : Step s op out s₁) (hr : Run s₁ ops outs s₂) : Run s (op :: ops) (out :: outs) s₂

namespace Ordered
variable {s : State K α} {keys : List K} {key : K}

theorem slot_put (s : State K α) (key : K) (x : Option (Slot α)) (k : K) :
    (s.put key x).slot k = if k = key then x else s.slot k := Function.update_apply ..

theorem usedAt_put (s : State K α) (key : K) (x : Option (Slot α)) (k : K) :
    usedAt (s.put key x) k = if k = key then (x.map Slot.used).getD 0 else usedAt s k := by
  unfold usedAt
  rw [slot_put]
  split <;> rfl

theorem unpinned_put (s : State K α) (key : K) (x : Option (Slot α)) (k : K) (y : Slot α) :
    (s.put key x).Unpinned k y ↔ if k = key then x = some y ∧ y.pinned = false else s.Unpinned k y := by
  unfold State.Unpinned
  rw [slot_put]
  split <;> rfl

theorem past_put (h : Ordered s keys) {x : Option (Slot α)} (hx : ∀ y, x = some y → y.used ≤ s.clock) (k : K)
    (hk : (s.put key x).slot k ≠ none) : usedAt (s.put key x) k < (s.put key x).clock := by
  rw [slot_put] at hk
  rw [usedAt_put]
  change _ < s.clock + 1
  split at hk
  · obtain ⟨y,rfl⟩ := Option.ne_none_iff_exists'.mp hk
    rename_i hkk
    rw [if_pos hkk]
    exact Nat.lt_succ_of_le (hx y rfl)
  · rename_i hkk
    rw [if_neg hkk]
    exact Nat.lt_succ_of_lt (h.past k hk)

theorem drop (h : Ordered s keys) (key : K) {x : Option (Slot α)} (hx : ∀ y, x = some y → y.pinned = true ∧ y.used ≤ s.clock) :
    Ordered (s.put key x) (keys.erase key) := by
  refine ⟨fun k => ?_,?_,h.past_put (fun y hy => (hx y hy).2)⟩
  · rw [h.nodup.mem_erase_iff,h.mem]
    simp only [unpinned_put]
    by_cases hk : k = key
    · subst hk
      simp only [if_true]
      refine iff_of_false (fun hc => hc.1 rfl) (fun ⟨y,hy,hp⟩ => ?_)
      exact absurd ((hx y hy).1.symm.trans hp) (by decide)
    · simp only [if_neg hk]
      exact and_iff_right hk
  · refine (h.sorted.sublist List.erase_sublist).imp_of_mem (fun ha hb hlt => ?_)
    rw [usedAt_put,usedAt_put,if_neg (h.nodup.mem_erase_iff.mp ha).1,if_neg (h.nodup.mem_erase_iff.mp hb).1]
    exact hlt

theorem use (h : Ordered s keys) (key : K) {x : Slot α} (hp : x.pinned = false) (hu : x.used = s.clock) :
    Ordered (s.put key (some x)) (keys.erase key ++ [key]) := by
  refine ⟨fun k => ?_,?_,h.past_put (fun y hy => Option.some.inj hy ▸ Nat.le_of_eq hu)⟩
  · rw [List.mem_append,h.nodup.mem_erase_iff,List.mem_singleton,h.mem]
    simp only [unpinned_put]
    by_cases hk : k = key
    · subst hk
      simp [hp]
    · simp only [if_neg hk,or_iff_left hk]
      exact and_iff_right hk
  · refine List.pairwise_append.mpr ⟨?_,List.pairwise_singleton _ _,fun a ha b hb => ?_⟩
    · refine (h.sorted.sublist List.erase_sublist).imp_of_mem (fun ha hb hlt => ?_)
      rw [usedAt_put,usedAt_put,if_neg (h.nodup.mem_erase_iff.mp ha).1,if_neg (h.nodup.mem_erase_iff.mp hb).1]
      exact hlt
    · obtain ⟨hne,hmem⟩ := h.nodup.mem_erase_iff.mp ha
      obtain ⟨y,hy,-⟩ := (h.mem a).mp hmem
      rw [List.mem_singleton.mp hb,usedAt_put,usedAt_put,if_neg hne,if_pos rfl]
      change _ < x.used
      rw [hu]
      exact h.past a (by rw [hy]; exact Option.some_ne_none _)

end Ordered

end

end Lru

end Rtfs
