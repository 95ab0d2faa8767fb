import Mathlib.Data.List.Nodup
import Mathlib.Data.List.Infix

structure GrowArray (α : Type) where
  items : List α
  capacity : Nat

namespace GrowArray

section Push
variable {α : Type}

def empty : GrowArray α := ⟨[],0⟩

def nextCapacity (first capacity : Nat) : Nat := if capacity = 0 then first else capacity * 2

-- realloc answers for a capacity; none: it could not be had and the array stays as it was
def push (first : Nat) (realloc : Nat → Bool) (a : GrowArray α) (x : α) : Option (GrowArray α) :=
  if a.items.length = a.capacity then
    if realloc (nextCapacity first a.capacity) then some ⟨a.items ++ [x],nextCapacity first a.capacity⟩ else none
  else some ⟨a.items ++ [x],a.capacity⟩

theorem push_items {first : Nat} {realloc : Nat → Bool} {a a' : GrowArray α} {x : α}
    (h : a.push first realloc x = some a') : a'.items = a.items ++ [x] := by
  unfold push at h
  split at h
  · split at h
    · cases h
      rfl
    · cases h
  · cases h
    rfl

theorem push_granted (first : Nat) {realloc : Nat → Bool} (hr : ∀ n, realloc n = true) (a : GrowArray α) (x : α) :
    ∃ a', a.push first realloc x = some a' := by
  unfold push
  rw [if_pos (hr _)]
  split
  · exact ⟨_,rfl⟩
  · exact ⟨_,rfl⟩

end Push

section PushNew
variable {α : Type} [DecidableEq α] {first : Nat} {realloc : Nat → Bool} {a a' : GrowArray α}

def pushNew (first : Nat) (realloc : Nat → Bool) (a : GrowArray α) (x : α) : Option (GrowArray α) :=
  if x ∈ a.items then some a else a.push first realloc x

def addNew (l : List α) (x : α) : List α := if x ∈ l then l else l ++ [x]

theorem pushNew_items {x : α} (h : a.pushNew first realloc x = some a') : a'.items = addNew a.items x := by
  unfold pushNew at h
  unfold addNew
  split at h
  · rename_i hin
    cases h
    rw [if_pos hin]
  · rename_i hin
    rw [if_neg hin]
    exact push_items h

theorem pushNew_granted (first : Nat) (hr : ∀ n, realloc n = true) (a : GrowArray α) (x : α) :
    ∃ a', a.pushNew first realloc x = some a' := by
  unfold pushNew
  split
  · exact ⟨a,rfl⟩
  · exact push_granted first hr a x

theorem mem_addNew {l : List α} {x y : α} : y ∈ addNew l x ↔ y ∈ l ∨ y = x := by
  unfold addNew
  split
  · rename_i hin
    refine ⟨Or.inl,fun h => h.elim id (fun he => ?_)⟩
    rw [he]
    exact hin
  · rw [List.mem_append,List.mem_singleton]

theorem nodup_addNew {l : List α} (h : l.Nodup) (x : α) : (addNew l x).Nodup := by
  unfold addNew
  split
  · exact h
  · rename_i hin
    refine List.nodup_append.mpr ⟨h,List.nodup_singleton x,?_⟩
    rintro y hy z hz rfl
    rw [List.mem_singleton] at hz
    exact hin (hz ▸ hy)

theorem addNew_of_notMem {l : List α} {x : α} (h : x ∉ l) : addNew l x = l ++ [x] := if_neg h

theorem mem_foldl_addNew {l xs : List α} {y : α} : y ∈ xs.foldl addNew l ↔ y ∈ l ∨ y ∈ xs := by
  induction xs generalizing l with
  | nil => exact ⟨Or.inl,fun h => h.elim id nofun⟩
  | cons x xs ih =>
    rw [List.foldl_cons,ih,mem_addNew,List.mem_cons,or_assoc]

theorem nodup_foldl_addNew {l : List α} (h : l.Nodup) (xs : List α) : (xs.foldl addNew l).Nodup := by
  induction xs generalizing l with
  | nil => exact h
  | cons x xs ih => exact ih (nodup_addNew h x)

theorem foldl_addNew_eq {l xs : List α} (hd : xs.Nodup) (hn : ∀ x ∈ xs, x ∉ l) : xs.foldl addNew l = l ++ xs := by
  induction xs generalizing l with
  | nil => exact (List.append_nil l).symm
  | cons x xs ih =>
    obtain ⟨hx,hxs⟩ := List.nodup_cons.mp hd
    rw [List.foldl_cons,addNew_of_notMem (hn x List.mem_cons_self),ih hxs,List.append_assoc]
    · rfl
    · intro y hy hin
      rcases List.mem_append.mp hin with hin | hin
      · exact hn y (List.mem_cons_of_mem _ hy) hin
      · rw [List.mem_singleton] at hin
        exact hx (hin ▸ hy)

end PushNew

end GrowArray
