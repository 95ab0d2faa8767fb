import Mathlib.Data.List.Perm.Basic
import Mathlib.Data.List.Nodup
import Mathlib.Logic.Function.Basic

namespace Rtfs

structure CacheLruReplacer where
  lru : List UInt32
  pinned : List UInt32
  nodup : (lru ++ pinned).Nodup

namespace CacheLruReplacer

theorem erase_append_perm {l : List UInt32} {k : UInt32} (h : k ∈ l) : (l.erase k ++ [k]).Perm l :=
  List.perm_append_comm.trans (List.perm_cons_erase h).symm

theorem pin_perm {l p : List UInt32} {k : UInt32} (h : k ∈ l) :
    (l.erase k ++ (p ++ [k])).Perm (l ++ p) := by
  have h1 : (l.erase k ++ (p ++ [k])).Perm (l.erase k ++ ([k] ++ p)) :=
    List.Perm.append_left _ List.perm_append_comm
  have h2 : (l.erase k ++ ([k] ++ p)).Perm (l ++ p) := by
    rw [← List.append_assoc]
    exact (erase_append_perm h).append_right p
  exact h1.trans h2

theorem unpin_perm {l p : List UInt32} {k : UInt32} (h : k ∈ p) :
    (l ++ [k] ++ p.erase k).Perm (l ++ p) := by
  rw [List.append_assoc]
  exact List.Perm.append_left l (List.perm_cons_erase h).symm

variable (r : CacheLruReplacer)

def keys : List UInt32 := r.lru ++ r.pinned

def init : CacheLruReplacer := ⟨[],[],List.nodup_nil⟩

def add (key : UInt32) (h : key ∉ r.keys) : CacheLruReplacer :=
  ⟨r.lru ++ [key],r.pinned,by
    rw [List.append_assoc]
    exact (List.perm_middle.nodup_iff).mpr (List.nodup_cons.mpr ⟨h,r.nodup⟩)⟩

def access (key : UInt32) : CacheLruReplacer :=
  if h : key ∈ r.pinned then
    ⟨r.lru,r.pinned.erase key ++ [key],
      ((List.Perm.append_left r.lru (erase_append_perm h)).nodup_iff).mpr r.nodup⟩
  else if h : key ∈ r.lru then
    ⟨r.lru.erase key ++ [key],r.pinned,
      ((List.Perm.append_right r.pinned (erase_append_perm h)).nodup_iff).mpr r.nodup⟩
  else r

def pop : Option (UInt32 × CacheLruReplacer) :=
  match hl : r.lru with
  | [] => none
  | key :: rest => some (key,⟨rest,r.pinned,by
      have hn := r.nodup
      rw [hl] at hn
      exact (List.nodup_cons.mp hn).2⟩)

def pin (key : UInt32) : CacheLruReplacer :=
  if h : key ∈ r.lru then
    ⟨r.lru.erase key,r.pinned ++ [key],((pin_perm h).nodup_iff).mpr r.nodup⟩
  else r

def remove (key : UInt32) : CacheLruReplacer :=
  ⟨r.lru.erase key,r.pinned.erase key,
    r.nodup.sublist (List.erase_sublist.append List.erase_sublist)⟩

def unpin (key : UInt32) : CacheLruReplacer :=
  if h : key ∈ r.pinned then
    ⟨r.lru ++ [key],r.pinned.erase key,((unpin_perm h).nodup_iff).mpr r.nodup⟩
  else r

variable {r}

theorem keys_nodup : r.keys.Nodup := r.nodup

theorem access_keys (key : UInt32) : (r.access key).keys.Perm r.keys := by
  unfold access
  split
  · rename_i h
    exact List.Perm.append_left r.lru (erase_append_perm h)
  · split
    · rename_i h
      exact List.Perm.append_right r.pinned (erase_append_perm h)
    · exact List.Perm.refl _

theorem pin_keys (key : UInt32) : (r.pin key).keys.Perm r.keys := by
  unfold pin
  split
  · rename_i h
    exact pin_perm h
  · exact List.Perm.refl _

theorem unpin_keys (key : UInt32) : (r.unpin key).keys.Perm r.keys := by
  unfold unpin
  split
  · rename_i h
    exact unpin_perm h
  · exact List.Perm.refl _

theorem mem_remove_keys (key x : UInt32) : x ∈ (r.remove key).keys ↔ x ∈ r.keys ∧ x ≠ key := by
  obtain ⟨hl,hp,_⟩ := List.nodup_append.mp r.nodup
  simp only [remove,keys,List.mem_append,hl.mem_erase_iff,hp.mem_erase_iff]
  tauto

theorem add_keys {key : UInt32} (h : key ∉ r.keys) : (r.add key h).keys.Perm (key :: r.keys) := by
  unfold add keys
  rw [List.append_assoc]
  exact List.perm_middle

theorem pop_none_iff : r.pop = none ↔ r.lru = [] := by
  unfold pop
  split
  · rename_i hl
    exact ⟨fun _ => hl,fun _ => rfl⟩
  · rename_i hl
    exact ⟨fun h => absurd h (Option.some_ne_none _),
      fun h => absurd (hl.symm.trans h) (List.cons_ne_nil _ _)⟩

theorem pop_lru {key : UInt32} {r' : CacheLruReplacer} (h : r.pop = some (key,r')) :
    r.lru = key :: r'.lru ∧ r'.pinned = r.pinned := by
  unfold pop at h
  split at h
  · cases h
  · rename_i hl
    cases h
    exact ⟨hl,rfl⟩

theorem pop_keys {key : UInt32} {r' : CacheLruReplacer} (h : r.pop = some (key,r')) :
    r.keys = key :: r'.keys := by
  obtain ⟨h1,h2⟩ := pop_lru h
  unfold keys
  rw [h1,h2]
  rfl

theorem mem_access_lru (key x : UInt32) : x ∈ (r.access key).lru ↔ x ∈ r.lru := by
  unfold access
  split
  · rfl
  · split
    · rename_i h
      exact (erase_append_perm h).mem_iff
    · rfl

theorem mem_pin_lru (key x : UInt32) : x ∈ (r.pin key).lru ↔ x ∈ r.lru ∧ x ≠ key := by
  have hn : r.lru.Nodup := (List.nodup_append.mp r.nodup).1
  unfold pin
  split
  · rw [List.Nodup.mem_erase_iff hn,and_comm]
  · rename_i h
    constructor
    · intro hx
      refine ⟨hx,?_⟩
      rintro rfl
      exact h hx
    · exact fun hx => hx.1

theorem mem_unpin_lru {key x : UInt32} (hx : x ∈ (r.unpin key).lru) : x ∈ r.lru ∨ x = key := by
  unfold unpin at hx
  split at hx
  · rcases List.mem_append.mp hx with hx | hx
    · exact Or.inl hx
    · exact Or.inr (List.mem_singleton.mp hx)
  · exact Or.inl hx

theorem mem_access_pinned (key x : UInt32) : x ∈ (r.access key).pinned ↔ x ∈ r.pinned := by
  unfold access
  split
  · rename_i h
    exact (erase_append_perm h).mem_iff
  · split <;> rfl

theorem mem_pin_pinned (key x : UInt32) :
    x ∈ (r.pin key).pinned ↔ x ∈ r.pinned ∨ (x = key ∧ key ∈ r.lru) := by
  unfold pin
  split
  · rename_i h
    simp [h]
  · rename_i h
    simp [h]

theorem mem_unpin_pinned (key x : UInt32) : x ∈ (r.unpin key).pinned ↔ x ∈ r.pinned ∧ x ≠ key := by
  have hn : r.pinned.Nodup := (List.nodup_append.mp r.nodup).2.1
  unfold unpin
  split
  · rw [List.Nodup.mem_erase_iff hn,and_comm]
  · rename_i h
    refine ⟨fun hx => ⟨hx,?_⟩,fun hx => hx.1⟩
    rintro rfl
    exact h hx

theorem mem_pinned_iff (x : UInt32) : x ∈ r.pinned ↔ x ∈ r.keys ∧ x ∉ r.lru := by
  unfold keys
  rw [List.mem_append]
  constructor
  · intro hx
    exact ⟨Or.inr hx,fun hl => (List.nodup_append.mp r.nodup).2.2 x hl x hx rfl⟩
  · rintro ⟨hl | hp,hn⟩
    · exact absurd hl hn
    · exact hp

end CacheLruReplacer

structure GenericCacheManager (α : Type) where
  index : UInt32 → Option α
  replacer : CacheLruReplacer
  sync : ∀ key, index key ≠ none ↔ key ∈ replacer.keys

namespace GenericCacheManager
variable {α : Type}

def init : GenericCacheManager α :=
  ⟨fun _ => none,CacheLruReplacer.init,fun _ => ⟨fun h => absurd rfl h,fun h => absurd h List.not_mem_nil⟩⟩

variable (m : GenericCacheManager α)

theorem notMem_of_none {m : GenericCacheManager α} {key : UInt32} (h : m.index key = none) :
    key ∉ m.replacer.keys := fun hin => (m.sync key).mpr hin h

def add (key : UInt32) (entry : α) (h : m.index key = none) : GenericCacheManager α where
  index := Function.update m.index key (some entry)
  replacer := m.replacer.add key (notMem_of_none h)
  sync := fun k => by
    rw [(CacheLruReplacer.add_keys _).mem_iff,List.mem_cons,← m.sync k]
    by_cases hk : k = key
    · subst hk
      rw [Function.update_self]
      simp
    · rw [Function.update_of_ne hk]
      simp [hk]

def access (key : UInt32) : GenericCacheManager α :=
  ⟨m.index,m.replacer.access key,fun k => by
    rw [(CacheLruReplacer.access_keys key).mem_iff]
    exact m.sync k⟩

def pin (key : UInt32) : GenericCacheManager α :=
  ⟨m.index,m.replacer.pin key,fun k => by
    rw [(CacheLruReplacer.pin_keys key).mem_iff]
    exact m.sync k⟩

def unpin (key : UInt32) : GenericCacheManager α :=
  ⟨m.index,m.replacer.unpin key,fun k => by
    rw [(CacheLruReplacer.unpin_keys key).mem_iff]
    exact m.sync k⟩

def modify (key : UInt32) (f : α → α) : GenericCacheManager α :=
  ⟨Function.update m.index key ((m.index key).map f),m.replacer,fun k => by
    rw [← m.sync k]
    by_cases hk : k = key
    · subst hk
      rw [Function.update_self]
      simp
    · rw [Function.update_of_ne hk]⟩

def drop (key : UInt32) (r : CacheLruReplacer) (h : m.replacer.pop = some (key,r)) :
    GenericCacheManager α :=
  ⟨Function.update m.index key none,r,fun k => by
    have hs := m.sync k
    have hn := m.replacer.keys_nodup
    rw [CacheLruReplacer.pop_keys h] at hs hn
    by_cases hk : k = key
    · subst hk
      rw [Function.update_self]
      exact ⟨fun h => absurd rfl h,fun h => absurd h (List.nodup_cons.mp hn).1⟩
    · rw [Function.update_of_ne hk,hs]
      simp [hk]⟩

def remove (key : UInt32) : GenericCacheManager α :=
  ⟨Function.update m.index key none,m.replacer.remove key,fun k => by
    rw [CacheLruReplacer.mem_remove_keys,← m.sync k]
    by_cases hk : k = key
    · subst hk
      simp
    · rw [Function.update_of_ne hk]
      simp [hk]⟩

def replaceOne : Option (UInt32 × α × GenericCacheManager α) :=
  match h : m.replacer.pop with
  | none => none
  | some (key,r) =>
    match m.index key with
    | none => none
    | some e => some (key,e,m.drop key r h)

variable {m} {m' : GenericCacheManager α}

theorem replaceOne_nil (h : m.replacer.lru = []) : m.replaceOne = none := by
  unfold replaceOne
  split
  · rfl
  · rename_i hp
    rw [CacheLruReplacer.pop_none_iff.mpr h] at hp
    cases hp

theorem replaceOne_spec {key : UInt32} {e : α} (h : m.replaceOne = some (key,e,m')) :
    m.index key = some e ∧ m'.index = Function.update m.index key none ∧
      m.replacer.lru = key :: m'.replacer.lru ∧ m'.replacer.pinned = m.replacer.pinned := by
  unfold replaceOne at h
  split at h
  · cases h
  · rename_i hp
    split at h
    · cases h
    · rename_i he
      cases h
      obtain ⟨h1,h2⟩ := CacheLruReplacer.pop_lru hp
      exact ⟨he,rfl,h1,h2⟩

theorem replaceOne_keys {key : UInt32} {e : α} (h : m.replaceOne = some (key,e,m')) :
    m.replacer.keys = key :: m'.replacer.keys := by
  obtain ⟨_,_,h1,h2⟩ := replaceOne_spec h
  unfold CacheLruReplacer.keys
  rw [h1,h2]
  rfl

theorem replaceOne_cons {key : UInt32} {rest : List UInt32} (h : m.replacer.lru = key :: rest) :
    ∃ e m', m.replaceOne = some (key,e,m') := by
  unfold replaceOne
  split
  · rename_i hp
    rw [CacheLruReplacer.pop_none_iff.mp hp] at h
    cases h
  · rename_i key' r hp
    have h1 := (CacheLruReplacer.pop_lru hp).1
    rw [h] at h1
    cases h1
    cases he : m.index key with
    | none =>
      have hin : key ∈ m.replacer.keys := by
        rw [CacheLruReplacer.pop_keys hp]
        exact List.mem_cons_self
      exact absurd he ((m.sync key).mpr hin)
    | some e => exact ⟨e,_,rfl⟩

end GenericCacheManager

end Rtfs
