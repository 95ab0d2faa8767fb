import Rtfs.Cache.SitNatCache
import Rtfs.Lib.CallLog

namespace Rtfs

-- what the caller of sitNatCacheGet does with its reference: it is never given back, it is
-- given back after a host version was added, or it is just given back
inductive CacheUse
  | kept
  | versioned
  | released
  deriving DecidableEq

structure CacheAccess where
  lpa : UInt32
  use : CacheUse
  deriving DecidableEq

inductive MetaCache
  | nat
  | sit
  deriving DecidableEq

structure CacheCall where
  cache : MetaCache
  access : CacheAccess
  deriving DecidableEq

namespace SitNatCache

theorem size_replaced {c : SitNatCache} {key : UInt32} {e : SitNatCacheEntry}
    {m : GenericCacheManager SitNatCacheEntry} (h : c.cacheManager.replaceOne = some (key,e,m)) :
    c.curSize - 1 = m.replacer.keys.length := by
  rw [c.curSize_eq,GenericCacheManager.replaceOne_keys h]
  rfl

def replaceLoop : Nat → SitNatCache → Outcome SitNatCache
  | 0, _ => .running
  | fuel + 1, c =>
    match h : c.cacheManager.replaceOne with
    | some (_,e,m) =>
      if e.refCount = 0 then .returned ⟨m,c.expectSize,c.curSize - 1,size_replaced h⟩
      else .aborted
    | none => if c.curSize ≤ c.expectSize then .returned c else replaceLoop fuel c

variable (c : SitNatCache)

def doReplaceRun (fuel : Nat) : Outcome SitNatCache :=
  if c.curSize ≤ c.expectSize then .returned c else replaceLoop fuel c

def subRefcountRun (fuel : Nat) (lpa : UInt32) : Outcome SitNatCache :=
  match c.entry lpa with
  | none => .aborted
  | some e =>
    let c' := c.modify lpa (fun e => ⟨e.refCount - 1,e.cache⟩)
    if e.refCount - 1 = 0 then (c'.unpin lpa).doReplaceRun fuel else .returned c'

-- a call is logged once its block has been read
def getRun (fuel : Nat) (d : CommDev) (which : MetaCache) (a : CacheAccess) : Logged CacheCall SitNatCache :=
  match c.getCacheEntryInner d a.lpa with
  | none => .abort
  | some c' => ⟨[⟨which,a⟩],(c'.addRefcount a.lpa).doReplaceRun fuel⟩

def handleDestroyRun (fuel : Nat) (lpa : UInt32) : Logged CacheCall SitNatCache :=
  .quiet (c.subRefcountRun fuel lpa)

section Same
variable {c} {lpa : UInt32} {fuel : Nat}

theorem replaceLoop_forever (h : c.cacheManager.replaceOne = none) (hover : c.expectSize < c.curSize)
    (fuel : Nat) : replaceLoop fuel c = .running := by
  induction fuel with
  | zero => rfl
  | succ fuel ih =>
    rw [replaceLoop]
    split
    · rename_i hs
      rw [h] at hs
      cases hs
    · rw [if_neg (Nat.not_le.mpr hover)]
      exact ih

theorem doReplace_full (hfit : ¬ c.curSize ≤ c.expectSize) {key : UInt32} {e : SitNatCacheEntry}
    {m : GenericCacheManager SitNatCacheEntry} (h : c.cacheManager.replaceOne = some (key,e,m)) :
    c.doReplace = if e.refCount = 0 then some ⟨m,c.expectSize,c.curSize - 1,size_replaced h⟩ else none := by
  unfold doReplace
  rw [if_neg hfit]
  split
  · rename_i hn
    rw [hn] at h
    cases h
  · rename_i hs
    cases h.symm.trans hs
    rfl

theorem doReplaceRun_result (c : SitNatCache) (fuel : Nat) :
    (c.doReplaceRun (fuel + 1)).toOption = c.doReplace := by
  unfold doReplaceRun
  by_cases hfit : c.curSize ≤ c.expectSize
  · rw [if_pos hfit,doReplace_fits hfit]
    rfl
  · rw [if_neg hfit,replaceLoop]
    split
    · rename_i e m hs
      rw [doReplace_full hfit hs]
      split <;> rfl
    · rename_i hn
      rw [if_neg hfit,replaceLoop_forever hn (Nat.not_le.mp hfit)]
      unfold doReplace
      rw [if_neg hfit]
      split
      · rfl
      · rename_i hs
        rw [hn] at hs
        cases hs

theorem subRefcountRun_result (c : SitNatCache) (fuel : Nat) (lpa : UInt32) :
    (c.subRefcountRun (fuel + 1) lpa).toOption = c.subRefcount lpa := by
  unfold subRefcountRun subRefcount
  cases c.entry lpa with
  | none => rfl
  | some e =>
    simp only
    split
    · exact doReplaceRun_result _ fuel
    · rfl

theorem doReplaceRun_rounds (c : SitNatCache) (fuel : Nat) : c.doReplaceRun (fuel + 1) = c.doReplaceRun 1 := by
  unfold doReplaceRun
  by_cases hfit : c.curSize ≤ c.expectSize
  · rw [if_pos hfit,if_pos hfit]
  · rw [if_neg hfit,if_neg hfit,replaceLoop,replaceLoop]
    split
    · rfl
    · rename_i hn
      rw [replaceLoop_forever hn (Nat.not_le.mp hfit),replaceLoop_forever hn (Nat.not_le.mp hfit)]

theorem getRun_rounds (c : SitNatCache) (fuel : Nat) (d : CommDev) (which : MetaCache) (a : CacheAccess) :
    c.getRun (fuel + 1) d which a = c.getRun 1 d which a := by
  unfold getRun
  simp only [doReplaceRun_rounds _ fuel]

theorem handleDestroyRun_rounds (c : SitNatCache) (fuel : Nat) (lpa : UInt32) :
    c.handleDestroyRun (fuel + 1) lpa = c.handleDestroyRun 1 lpa := by
  unfold handleDestroyRun subRefcountRun
  simp only [doReplaceRun_rounds _ fuel]

theorem getRun_readable {d : CommDev} {a : CacheAccess} (hd : d.Holds a.lpa.toNat) (fuel : Nat)
    (which : MetaCache) : ∃ o, c.getRun fuel d which a = ⟨[⟨which,a⟩],o⟩ := by
  unfold getRun getCacheEntryInner
  split
  · rename_i hn
    split at hn
    · cases hn
    · rw [readLpa_ok hd] at hn
      cases hn
  · exact ⟨_,rfl⟩

theorem getRun_result (c : SitNatCache) (fuel : Nat) (d : CommDev) (which : MetaCache) (a : CacheAccess) :
    (c.getRun (fuel + 1) d which a).result = c.get d a.lpa := by
  unfold getRun get
  cases c.getCacheEntryInner d a.lpa with
  | none => rfl
  | some c' => exact doReplaceRun_result _ fuel

theorem handleDestroyRun_result (c : SitNatCache) (fuel : Nat) (lpa : UInt32) :
    (c.handleDestroyRun (fuel + 1) lpa).result = c.handleDestroy lpa := subRefcountRun_result c fuel lpa

end Same

end SitNatCache

end Rtfs
