import Rtfs.Lib.Lru
import Rtfs.Cache.GenericCacheManager

namespace Rtfs

namespace CacheCode

-- the nodes in list order by their keys; the table keeps isPinned of a key's node
structure CacheLruReplacer where
  lruHead : List UInt32
  pinHead : List UInt32
  table : UInt32 → Option Bool
  size : Nat

-- deleting a node of another list is undefined
def dlDelete (head : List UInt32) (key : UInt32) : Option (List UInt32) :=
  if key ∈ head then some (head.erase key) else none

def dlAppend (head : List UInt32) (key : UInt32) : List UInt32 := head ++ [key]

section Replacer
variable (this : CacheLruReplacer) (key : UInt32)

def cacheLruReplacerAdd : Option CacheLruReplacer :=
  if this.table key ≠ none then none
  else some { this with
    lruHead := dlAppend this.lruHead key
    table := Function.update this.table key (some false)
    size := this.size + 1 }

def cacheLruReplacerAccess : Option CacheLruReplacer :=
  match this.table key with
  | none => none
  | some true =>
    if this.pinHead.getLast? = some key then some this
    else (dlDelete this.pinHead key).map (fun head => { this with pinHead := dlAppend head key })
  | some false =>
    if this.lruHead.getLast? = some key then some this
    else (dlDelete this.lruHead key).map (fun head => { this with lruHead := dlAppend head key })

def cacheLruReplacerCanReplace : Bool := decide (0 < this.size)

def cacheLruReplacerPop : Option (UInt32 × CacheLruReplacer) :=
  if this.size = 0 then none
  else
    match this.lruHead with
    | [] => none
    | key :: rest =>
      if this.table key = none then none
      else some (key,{ this with
        lruHead := rest
        table := Function.update this.table key none
        size := this.size - 1 })

def cacheLruReplacerRemove : Option CacheLruReplacer :=
  match this.table key with
  | none => none
  | some true => (dlDelete this.pinHead key).map (fun head => { this with
      pinHead := head
      table := Function.update this.table key none })
  | some false => (dlDelete this.lruHead key).map (fun head => { this with
      lruHead := head
      size := this.size - 1
      table := Function.update this.table key none })

def cacheLruReplacerPin : Option CacheLruReplacer :=
  match this.table key with
  | none => some this
  | some true => some this
  | some false => (dlDelete this.lruHead key).map (fun head => { this with
      lruHead := head
      table := Function.update this.table key (some true)
      pinHead := dlAppend this.pinHead key
      size := this.size - 1 })

def cacheLruReplacerUnpin : Option CacheLruReplacer :=
  match this.table key with
  | none => some this
  | some false => some this
  | some true => (dlDelete this.pinHead key).map (fun head => { this with
      pinHead := head
      table := Function.update this.table key (some false)
      lruHead := dlAppend this.lruHead key
      size := this.size + 1 })

end Replacer

structure GenericCacheManager (α : Type) where
  index : UInt32 → Option α
  replacer : CacheLruReplacer

section Manager
variable {α : Type}

def cacheIndexManagerAdd (index : UInt32 → Option α) (key : UInt32) (value : α) : Option (UInt32 → Option α) :=
  if (index key).isSome then none else some (Function.update index key (some value))

def cacheIndexManagerRemove (index : UInt32 → Option α) (key : UInt32) : Option α × (UInt32 → Option α) :=
  (index key,Function.update index key none)

def genericCacheManagerInit : GenericCacheManager α := ⟨fun _ => none,⟨[],[],fun _ => none,0⟩⟩

variable (this : GenericCacheManager α) (key : UInt32)

def genericCacheManagerAdd (entry : α) : Option (GenericCacheManager α) :=
  (cacheIndexManagerAdd this.index key entry).bind (fun index =>
    (cacheLruReplacerAdd this.replacer key).map (fun replacer => ⟨index,replacer⟩))

def genericCacheManagerGet (isAccess : Bool) : Option (Option α × GenericCacheManager α) :=
  if (this.index key).isSome ∧ isAccess = true then
    (cacheLruReplacerAccess this.replacer key).map (fun replacer => (this.index key,{ this with replacer := replacer }))
  else some (this.index key,this)

def genericCacheManagerReplaceOne : Option (Option α × GenericCacheManager α) :=
  if cacheLruReplacerCanReplace this.replacer = false then some (none,this)
  else (cacheLruReplacerPop this.replacer).map (fun popped =>
    ((cacheIndexManagerRemove this.index popped.1).1,
      ⟨(cacheIndexManagerRemove this.index popped.1).2,popped.2⟩))

def genericCacheManagerRemove : Option (Option α × GenericCacheManager α) :=
  (cacheLruReplacerRemove this.replacer key).map (fun replacer =>
    ((cacheIndexManagerRemove this.index key).1,⟨(cacheIndexManagerRemove this.index key).2,replacer⟩))

def genericCacheManagerPin : Option (GenericCacheManager α) :=
  (cacheLruReplacerPin this.replacer key).map (fun replacer => { this with replacer := replacer })

def genericCacheManagerUnpin : Option (GenericCacheManager α) :=
  (cacheLruReplacerUnpin this.replacer key).map (fun replacer => { this with replacer := replacer })

def apply : Lru.Op UInt32 α → Option (Option α × GenericCacheManager α)
  | .add key value => (genericCacheManagerAdd this key value).map (fun m => (none,m))
  | .get key isAccess => genericCacheManagerGet this key isAccess
  | .pin key => (genericCacheManagerPin this key).map (fun m => (none,m))
  | .unpin key => (genericCacheManagerUnpin this key).map (fun m => (none,m))
  | .remove key => genericCacheManagerRemove this key
  | .replaceOne => genericCacheManagerReplaceOne this

-- none: an assertion fails or a list is broken
def run (this : GenericCacheManager α) : List (Lru.Op UInt32 α) → Option (List (Option α) × GenericCacheManager α)
  | [] => some ([],this)
  | op :: ops => (apply this op).bind (fun r => (run r.2 ops).map (fun q => (r.1 :: q.1,q.2)))

def Legal : Lru.Op UInt32 α → Prop
  | .add key _ => this.index key = none
  | .remove key => this.index key ≠ none
  | _ => True

def LegalRun (this : GenericCacheManager α) : List (Lru.Op UInt32 α) → Prop
  | [] => True
  | op :: ops => Legal this op ∧ ∀ out this', apply this op = some (out,this') → LegalRun this' ops

end Manager

section Lists
variable {α : Type}

structure Holds (this : CacheLruReplacer) (r : Rtfs.CacheLruReplacer) : Prop where
  lru : this.lruHead = r.lru
  pin : this.pinHead = r.pinned
  unpinned : ∀ key, this.table key = some false ↔ key ∈ r.lru
  pinned : ∀ key, this.table key = some true ↔ key ∈ r.pinned
  size : this.size = r.lru.length

variable {this : CacheLruReplacer} {r : Rtfs.CacheLruReplacer} {key : UInt32}

theorem erase_getLast {l : List UInt32} (hn : l.Nodup) (h : l.getLast? = some key) : l.erase key ++ [key] = l := by
  obtain ⟨l',rfl⟩ := List.getLast?_eq_some_iff.mp h
  have hnot : key ∉ l' := fun hmem => (List.nodup_append.mp hn).2.2 key hmem key List.mem_cons_self rfl
  rw [List.erase_append_right _ hnot,List.erase_cons_head,List.append_nil]

theorem Holds.lru_nodup (h : Holds this r) : this.lruHead.Nodup := h.lru ▸ (List.nodup_append.mp r.nodup).1

theorem Holds.pin_nodup (h : Holds this r) : this.pinHead.Nodup := h.pin ▸ (List.nodup_append.mp r.nodup).2.1

theorem Holds.table_none (h : Holds this r) : this.table key = none ↔ key ∉ r.keys := by
  unfold Rtfs.CacheLruReplacer.keys
  rw [List.mem_append,← h.unpinned,← h.pinned]
  cases this.table key with
  | none => simp
  | some b => cases b <;> simp

theorem Holds.not_both (_ : Holds this r) (hl : key ∈ r.lru) : key ∉ r.pinned := fun hp =>
  (List.nodup_append.mp r.nodup).2.2 key hl key hp rfl

theorem dlDelete_mem {head : List UInt32} (h : key ∈ head) : dlDelete head key = some (head.erase key) := if_pos h

theorem holds_add (h : Holds this r) (hk : key ∉ r.keys) :
    ∃ this', cacheLruReplacerAdd this key = some this' ∧ Holds this' (r.add key hk) := by
  have hnone := h.table_none.mpr hk
  have hpin : key ∉ r.pinned := fun hp => hk (List.mem_append_right _ hp)
  unfold cacheLruReplacerAdd
  rw [if_neg (not_not.mpr hnone)]
  refine ⟨_,rfl,congrArg (· ++ [key]) h.lru,h.pin,fun k => ?_,fun k => ?_,?_⟩
  · change Function.update this.table key (some false) k = some false ↔ k ∈ r.lru ++ [key]
    rw [Function.update_apply,List.mem_append,List.mem_singleton,← h.unpinned]
    split <;> simp_all
  · change Function.update this.table key (some false) k = some true ↔ k ∈ r.pinned
    rw [Function.update_apply,← h.pinned]
    split <;> simp_all
  · change this.size + 1 = (r.lru ++ [key]).length
    rw [List.length_append,h.size]
    rfl

theorem access_pinned (hp : key ∈ r.pinned) :
    (r.access key).lru = r.lru ∧ (r.access key).pinned = r.pinned.erase key ++ [key] := by
  unfold Rtfs.CacheLruReplacer.access
  rw [dif_pos hp]
  exact ⟨rfl,rfl⟩

theorem access_lru (hp : key ∉ r.pinned) (hl : key ∈ r.lru) :
    (r.access key).lru = r.lru.erase key ++ [key] ∧ (r.access key).pinned = r.pinned := by
  unfold Rtfs.CacheLruReplacer.access
  rw [dif_neg hp,dif_pos hl]
  exact ⟨rfl,rfl⟩

theorem holds_access (h : Holds this r) (hk : key ∈ r.keys) :
    ∃ this', cacheLruReplacerAccess this key = some this' ∧ Holds this' (r.access key) := by
  have hsize : this.size = (r.access key).lru.length := by
    by_cases hp : key ∈ r.pinned
    · rw [(access_pinned hp).1,h.size]
    · have hl := (List.mem_append.mp hk).resolve_right hp
      rw [(access_lru hp hl).1,h.size]
      exact (Rtfs.CacheLruReplacer.erase_append_perm hl).length_eq.symm
  have hunpinned (k : UInt32) : this.table k = some false ↔ k ∈ (r.access key).lru := by
    rw [Rtfs.CacheLruReplacer.mem_access_lru,h.unpinned]
  have hpinned (k : UInt32) : this.table k = some true ↔ k ∈ (r.access key).pinned := by
    rw [Rtfs.CacheLruReplacer.mem_access_pinned,h.pinned]
  unfold cacheLruReplacerAccess
  by_cases hp : key ∈ r.pinned
  · obtain ⟨hl',hp'⟩ := access_pinned hp
    simp only [(h.pinned key).mpr hp]
    by_cases hlast : this.pinHead.getLast? = some key
    · rw [if_pos hlast]
      refine ⟨_,rfl,h.lru.trans hl'.symm,?_,hunpinned,hpinned,hsize⟩
      rw [hp',← h.pin,erase_getLast h.pin_nodup hlast]
    · rw [if_neg hlast,dlDelete_mem (h.pin ▸ hp)]
      refine ⟨_,rfl,h.lru.trans hl'.symm,?_,hunpinned,hpinned,hsize⟩
      rw [hp',← h.pin]
      rfl
  · have hl := (List.mem_append.mp hk).resolve_right hp
    obtain ⟨hl',hp'⟩ := access_lru hp hl
    simp only [(h.unpinned key).mpr hl]
    by_cases hlast : this.lruHead.getLast? = some key
    · rw [if_pos hlast]
      refine ⟨_,rfl,?_,h.pin.trans hp'.symm,hunpinned,hpinned,hsize⟩
      rw [hl',← h.lru,erase_getLast h.lru_nodup hlast]
    · rw [if_neg hlast,dlDelete_mem (h.lru ▸ hl)]
      refine ⟨_,rfl,?_,h.pin.trans hp'.symm,hunpinned,hpinned,hsize⟩
      rw [hl',← h.lru]
      rfl

theorem holds_pop (h : Holds this r) {r' : Rtfs.CacheLruReplacer} (hpop : r.pop = some (key,r')) :
    ∃ this', cacheLruReplacerPop this = some (key,this') ∧ Holds this' r' := by
  obtain ⟨hl,hp⟩ := Rtfs.CacheLruReplacer.pop_lru hpop
  have hn := (List.nodup_cons.mp (hl ▸ (List.nodup_append.mp r.nodup).1)).1
  have hmem : key ∈ r.lru := hl ▸ List.mem_cons_self
  have hpin := h.not_both hmem
  have hsize : this.size = r'.lru.length + 1 := by
    rw [h.size,hl]
    rfl
  unfold cacheLruReplacerPop
  rw [if_neg (by omega),h.lru,hl]
  simp only
  rw [if_neg (by rw [(h.unpinned key).mpr hmem]; exact Option.some_ne_none _)]
  refine ⟨_,rfl,rfl,h.pin.trans hp.symm,fun k => ?_,fun k => ?_,by change this.size - 1 = _; omega⟩
  · change Function.update this.table key none k = some false ↔ _
    rw [Function.update_apply]
    split
    · rename_i hk
      exact iff_of_false nofun (hk ▸ hn)
    · rename_i hk
      rw [h.unpinned,hl,List.mem_cons,or_iff_right hk]
  · change Function.update this.table key none k = some true ↔ _
    rw [Function.update_apply,hp]
    split
    · rename_i hk
      exact iff_of_false nofun (hk ▸ hpin)
    · exact h.pinned k

theorem holds_remove (h : Holds this r) (hk : key ∈ r.keys) :
    ∃ this', cacheLruReplacerRemove this key = some this' ∧ Holds this' (r.remove key) := by
  have hunpinned (k : UInt32) : Function.update this.table key none k = some false ↔ k ∈ r.lru.erase key := by
    rw [Function.update_apply,(List.nodup_append.mp r.nodup).1.mem_erase_iff,← h.unpinned]
    split <;> simp_all
  have hpinned (k : UInt32) : Function.update this.table key none k = some true ↔ k ∈ r.pinned.erase key := by
    rw [Function.update_apply,(List.nodup_append.mp r.nodup).2.1.mem_erase_iff,← h.pinned]
    split <;> simp_all
  unfold cacheLruReplacerRemove
  by_cases hp : key ∈ r.pinned
  · have hl : key ∉ r.lru := fun hl => h.not_both hl hp
    simp only [(h.pinned key).mpr hp]
    rw [dlDelete_mem (h.pin ▸ hp)]
    refine ⟨_,rfl,h.lru.trans (List.erase_of_not_mem hl).symm,congrArg (·.erase key) h.pin,hunpinned,hpinned,?_⟩
    exact h.size.trans (congrArg List.length (List.erase_of_not_mem hl).symm)
  · have hl := (List.mem_append.mp hk).resolve_right hp
    simp only [(h.unpinned key).mpr hl]
    rw [dlDelete_mem (h.lru ▸ hl)]
    refine ⟨_,rfl,congrArg (·.erase key) h.lru,h.pin.trans (List.erase_of_not_mem hp).symm,hunpinned,hpinned,?_⟩
    exact (congrArg (· - 1) h.size).trans (List.length_erase_of_mem hl).symm

theorem holds_pin (h : Holds this r) (key : UInt32) :
    ∃ this', cacheLruReplacerPin this key = some this' ∧ Holds this' (r.pin key) := by
  unfold cacheLruReplacerPin Rtfs.CacheLruReplacer.pin
  by_cases hl : key ∈ r.lru
  · rw [dif_pos hl]
    simp only [(h.unpinned key).mpr hl]
    rw [dlDelete_mem (h.lru ▸ hl)]
    refine ⟨_,rfl,congrArg (·.erase key) h.lru,congrArg (· ++ [key]) h.pin,fun k => ?_,fun k => ?_,?_⟩
    · change Function.update this.table key (some true) k = some false ↔ k ∈ r.lru.erase key
      rw [Function.update_apply,(List.nodup_append.mp r.nodup).1.mem_erase_iff,← h.unpinned]
      split <;> simp_all
    · change Function.update this.table key (some true) k = some true ↔ k ∈ r.pinned ++ [key]
      rw [Function.update_apply,List.mem_append,List.mem_singleton,← h.pinned]
      split <;> simp_all
    · exact (congrArg (· - 1) h.size).trans (List.length_erase_of_mem hl).symm
  · rw [dif_neg hl]
    cases ht : this.table key with
    | none => exact ⟨_,rfl,h⟩
    | some b =>
      cases b with
      | false => exact absurd ((h.unpinned key).mp ht) hl
      | true => exact ⟨_,rfl,h⟩

theorem holds_unpin (h : Holds this r) (key : UInt32) :
    ∃ this', cacheLruReplacerUnpin this key = some this' ∧ Holds this' (r.unpin key) := by
  unfold cacheLruReplacerUnpin Rtfs.CacheLruReplacer.unpin
  by_cases hp : key ∈ r.pinned
  · rw [dif_pos hp]
    simp only [(h.pinned key).mpr hp]
    rw [dlDelete_mem (h.pin ▸ hp)]
    refine ⟨_,rfl,congrArg (· ++ [key]) h.lru,congrArg (·.erase key) h.pin,fun k => ?_,fun k => ?_,?_⟩
    · change Function.update this.table key (some false) k = some false ↔ k ∈ r.lru ++ [key]
      rw [Function.update_apply,List.mem_append,List.mem_singleton,← h.unpinned]
      split <;> simp_all
    · change Function.update this.table key (some false) k = some true ↔ k ∈ r.pinned.erase key
      rw [Function.update_apply,(List.nodup_append.mp r.nodup).2.1.mem_erase_iff,← h.pinned]
      split <;> simp_all
    · change this.size + 1 = (r.lru ++ [key]).length
      rw [List.length_append,h.size]
      rfl
  · rw [dif_neg hp]
    cases ht : this.table key with
    | none => exact ⟨_,rfl,h⟩
    | some b =>
      cases b with
      | false => exact ⟨_,rfl,h⟩
      | true => exact absurd ((h.pinned key).mp ht) hp

end Lists

end CacheCode

end Rtfs
