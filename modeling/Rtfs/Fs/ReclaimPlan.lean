import Rtfs.Fs.Types
import Rtfs.Lib.GrowArray
import Rtfs.Lib.Outcome

namespace Rtfs

-- realloc answers for a capacity of the array whether it could be had
def rtfsAppendUniqueUint32 (realloc : Nat → Bool) (array : GrowArray UInt32) (value : UInt32) :
    Except Errno (GrowArray UInt32) :=
  if value = invalidLpa ∨ value = invalidNid then .ok array
  else if 0x80000000 ≤ value then .ok array
  else
    match array.pushNew 8 realloc value with
    | none => .error .enomem
    | some array => .ok array

def rtfsAppendUniqueLpasToArray (realloc : Nat → Bool) (src : List UInt32) (dst : GrowArray UInt32) :
    Except Errno (GrowArray UInt32) :=
  src.foldlM (rtfsAppendUniqueUint32 realloc) dst

def Appendable (value : UInt32) : Prop := value ≠ invalidLpa ∧ value < 0x80000000

instance (value : UInt32) : Decidable (Appendable value) :=
  inferInstanceAs (Decidable (value ≠ invalidLpa ∧ value < 0x80000000))

section Append
variable {realloc : Nat → Bool} {array array' : GrowArray UInt32} {value : UInt32}

theorem appendUnique_dropped (h : ¬ Appendable value) : rtfsAppendUniqueUint32 realloc array value = .ok array := by
  unfold rtfsAppendUniqueUint32
  split
  · rfl
  · rename_i hz
    rw [if_pos (UInt32.not_lt.mp (fun hlt => h ⟨fun hv => hz (Or.inl hv),hlt⟩))]

theorem appendUnique_kept (h : Appendable value) : rtfsAppendUniqueUint32 realloc array value =
    (array.pushNew 8 realloc value).elim (.error .enomem) .ok := by
  unfold rtfsAppendUniqueUint32
  rw [if_neg (fun hz => hz.elim h.1 h.1),if_neg (UInt32.not_le.mpr h.2)]
  cases array.pushNew 8 realloc value <;> rfl

theorem appendUnique_items (h : rtfsAppendUniqueUint32 realloc array value = .ok array') :
    array'.items = (if Appendable value then GrowArray.addNew array.items value else array.items) := by
  by_cases hk : Appendable value
  · rw [appendUnique_kept hk] at h
    rw [if_pos hk]
    cases hp : array.pushNew 8 realloc value with
    | none =>
      rw [hp] at h
      cases h
    | some a =>
      rw [hp] at h
      cases h
      exact GrowArray.pushNew_items hp
  · rw [appendUnique_dropped hk] at h
    cases h
    rw [if_neg hk]

theorem appendUnique_granted (hr : ∀ n, realloc n = true) (array : GrowArray UInt32) (value : UInt32) :
    ∃ array', rtfsAppendUniqueUint32 realloc array value = .ok array' := by
  by_cases hk : Appendable value
  · obtain ⟨a,ha⟩ := GrowArray.pushNew_granted 8 hr array value
    rw [appendUnique_kept hk,ha]
    exact ⟨a,rfl⟩
  · exact ⟨array,appendUnique_dropped hk⟩

theorem appendLpas_items {src : List UInt32} (h : rtfsAppendUniqueLpasToArray realloc src array = .ok array') :
    array'.items = (src.filter (fun v => decide (Appendable v))).foldl GrowArray.addNew array.items := by
  unfold rtfsAppendUniqueLpasToArray at h
  induction src generalizing array with
  | nil =>
    cases h
    rfl
  | cons v src ih =>
    rw [List.foldlM_cons] at h
    cases hv : rtfsAppendUniqueUint32 realloc array v with
    | error e =>
      rw [hv] at h
      cases h
    | ok a =>
      rw [hv] at h
      rw [ih h,appendUnique_items hv]
      by_cases hk : Appendable v
      · rw [if_pos hk,List.filter_cons_of_pos (by exact decide_eq_true hk)]
        rfl
      · rw [if_neg hk,List.filter_cons_of_neg (by simpa using hk)]

theorem appendLpas_granted (hr : ∀ n, realloc n = true) (src : List UInt32) (array : GrowArray UInt32) :
    ∃ array', rtfsAppendUniqueLpasToArray realloc src array = .ok array' := by
  induction src generalizing array with
  | nil => exact ⟨array,rfl⟩
  | cons v src ih =>
    obtain ⟨a,ha⟩ := appendUnique_granted hr array v
    obtain ⟨a',ha'⟩ := ih a
    refine ⟨a',?_⟩
    unfold rtfsAppendUniqueLpasToArray at ha' ⊢
    rw [List.foldlM_cons,ha]
    exact ha'

end Append

end Rtfs
