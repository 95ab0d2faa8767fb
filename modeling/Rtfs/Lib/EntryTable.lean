import Mathlib.Logic.Function.Basic

namespace Rtfs

structure EntryTable (β α : Type) where
  perBlock : UInt32
  pos : 0 < perBlock.toNat
  get : β → Nat → α
  set : β → Nat → α → β
  get_set_self : ∀ b i e, i < perBlock.toNat → get (set b i e) i = e
  get_set_ne : ∀ b i k e, k ≠ i → get (set b i e) k = get b k

namespace EntryTable
variable {β α : Type} (T : EntryTable β α)

def blockOf (start key : UInt32) : UInt32 := start + key / T.perBlock

def indexOf (key : UInt32) : Nat := (key % T.perBlock).toNat

def read (start : UInt32) (content : UInt32 → β) (key : UInt32) : α :=
  T.get (content (T.blockOf start key)) (T.indexOf key)

theorem indexOf_lt (key : UInt32) : T.indexOf key < T.perBlock.toNat := by
  unfold indexOf
  rw [UInt32.toNat_mod]
  exact Nat.mod_lt _ T.pos

theorem key_ext {start key key' : UInt32} (hb : T.blockOf start key' = T.blockOf start key)
    (hi : T.indexOf key' = T.indexOf key) : key' = key := by
  have hdiv : key' / T.perBlock = key / T.perBlock := by
    have hsub := congrArg (fun x => x - start) hb
    simpa [blockOf,UInt32.add_comm start] using hsub
  have hdiv' := congrArg UInt32.toNat hdiv
  unfold indexOf at hi
  rw [UInt32.toNat_div,UInt32.toNat_div] at hdiv'
  rw [UInt32.toNat_mod,UInt32.toNat_mod] at hi
  apply UInt32.toNat_inj.mp
  rw [← Nat.div_add_mod key'.toNat T.perBlock.toNat,hdiv',hi,Nat.div_add_mod]

theorem read_write {start key : UInt32} {content content' : UInt32 → β} {e : α}
    (h : ∀ x, content' x = if x = T.blockOf start key then
      T.set (content (T.blockOf start key)) (T.indexOf key) e else content x) :
    T.read start content' = Function.update (T.read start content) key e := by
  funext k
  unfold read
  rw [h]
  by_cases hk : k = key
  · subst hk
    rw [if_pos rfl,Function.update_self]
    exact T.get_set_self _ _ _ (T.indexOf_lt k)
  · rw [Function.update_of_ne hk]
    by_cases hb : T.blockOf start k = T.blockOf start key
    · rw [if_pos hb,T.get_set_ne _ _ _ _ (fun hi => hk (T.key_ext hb hi)),← hb]
    · rw [if_neg hb]

theorem read_congr {start : UInt32} {content content' : UInt32 → β} (h : ∀ x, content' x = content x) :
    T.read start content' = T.read start content := by
  funext k
  unfold read
  rw [h]

end EntryTable

end Rtfs
