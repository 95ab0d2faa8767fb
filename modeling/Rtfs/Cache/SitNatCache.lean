import Rtfs.Cache.GenericCacheManager
import Rtfs.Comm.Device

namespace Rtfs

structure SitNatCacheEntry where
  refCount : UInt32
  cache : Block

structure SitNatCache where
  cacheManager : GenericCacheManager SitNatCacheEntry
  expectSize : Nat
  curSize : Nat
  curSize_eq : curSize = cacheManager.replacer.keys.length

namespace SitNatCache

def init (expectSize : Nat) : SitNatCache := ⟨GenericCacheManager.init,expectSize,0,rfl⟩

variable (c : SitNatCache)

def entry (lpa : UInt32) : Option SitNatCacheEntry := c.cacheManager.index lpa

def lru : List UInt32 := c.cacheManager.replacer.lru

def keys : List UInt32 := c.cacheManager.replacer.keys

def access (lpa : UInt32) : SitNatCache :=
  ⟨c.cacheManager.access lpa,c.expectSize,c.curSize,
    c.curSize_eq.trans (CacheLruReplacer.access_keys lpa).length_eq.symm⟩

def add (lpa : UInt32) (b : Block) (h : c.entry lpa = none) : SitNatCache :=
  ⟨c.cacheManager.add lpa ⟨0,b⟩ h,c.expectSize,c.curSize + 1,by
    rw [c.curSize_eq]
    exact (CacheLruReplacer.add_keys (GenericCacheManager.notMem_of_none h)).length_eq.symm⟩

def getCacheEntryInner (d : CommDev) (lpa : UInt32) : Option SitNatCache :=
  match h : c.entry lpa with
  | some _ => some (c.access lpa)
  | none =>
    match commRecoveryReadLpa d lpa with
    | .error _ => none
    | .ok b => some (c.add lpa b h)

def modify (lpa : UInt32) (f : SitNatCacheEntry → SitNatCacheEntry) : SitNatCache :=
  ⟨c.cacheManager.modify lpa f,c.expectSize,c.curSize,c.curSize_eq⟩

def pin (lpa : UInt32) : SitNatCache :=
  ⟨c.cacheManager.pin lpa,c.expectSize,c.curSize,
    c.curSize_eq.trans (CacheLruReplacer.pin_keys lpa).length_eq.symm⟩

def unpin (lpa : UInt32) : SitNatCache :=
  ⟨c.cacheManager.unpin lpa,c.expectSize,c.curSize,
    c.curSize_eq.trans (CacheLruReplacer.unpin_keys lpa).length_eq.symm⟩

def doReplace : Option SitNatCache :=
  if c.curSize ≤ c.expectSize then some c
  else
    match h : c.cacheManager.replaceOne with
    | none => none
    | some (_,e,m) =>
      if e.refCount = 0 then some ⟨m,c.expectSize,c.curSize - 1,by
        rw [c.curSize_eq,GenericCacheManager.replaceOne_keys h]
        rfl⟩
      else none

def addRefcount (lpa : UInt32) : SitNatCache :=
  match c.entry lpa with
  | none => c
  | some e =>
    let c' := c.modify lpa (fun e => ⟨e.refCount + 1,e.cache⟩)
    if e.refCount + 1 = 1 then c'.pin lpa else c'

def subRefcount (lpa : UInt32) : Option SitNatCache :=
  match c.entry lpa with
  | none => none
  | some e =>
    let c' := c.modify lpa (fun e => ⟨e.refCount - 1,e.cache⟩)
    if e.refCount - 1 = 0 then (c'.unpin lpa).doReplace else some c'

def get (d : CommDev) (lpa : UInt32) : Option SitNatCache :=
  (c.getCacheEntryInner d lpa).bind (fun c' => (c'.addRefcount lpa).doReplace)

def handleAddHostVersion (lpa : UInt32) : SitNatCache := c.addRefcount lpa

def handleDestroy (lpa : UInt32) : Option SitNatCache := c.subRefcount lpa

def writeBlock (lpa : UInt32) (b : Block) : SitNatCache := c.modify lpa (fun e => ⟨e.refCount,b⟩)

def writeAllSync (order : List UInt32) (d : CommDev) : CommDev :=
  order.foldl (fun d lpa =>
    match c.entry lpa with
    | none => d
    | some e =>
      match commRecoveryWriteLpa d lpa e.cache with
      | .error _ => d
      | .ok d' => d') d

def content (d : CommDev) (lpa : UInt32) : Block :=
  match c.entry lpa with
  | some e => e.cache
  | none => d.blocks lpa.toNat

variable {c} {c' : SitNatCache} {d : CommDev} {lpa : UInt32}

theorem init_entry (n : Nat) (x : UInt32) : (init n).entry x = none := rfl

theorem curSize_keys : c.curSize = c.keys.length := c.curSize_eq

theorem doReplace_fits (h : c.curSize ≤ c.expectSize) : c.doReplace = some c := if_pos h

theorem doReplace_evicts {v : UInt32} {rest : List UInt32} (hfull : c.expectSize < c.curSize)
    (hl : c.lru = v :: rest) (hrc : ∀ e, c.entry v = some e → e.refCount = 0) :
    ∃ c', c.doReplace = some c' ∧ c'.cacheManager.index = Function.update c.cacheManager.index v none ∧
      c'.lru = rest ∧ c'.expectSize = c.expectSize ∧ c.keys = v :: c'.keys := by
  obtain ⟨e,m,hm⟩ := GenericCacheManager.replaceOne_cons hl
  obtain ⟨he,hidx,hlru,_⟩ := GenericCacheManager.replaceOne_spec hm
  have hkeys := GenericCacheManager.replaceOne_keys hm
  have hrest : m.replacer.lru = rest := by
    rw [show c.cacheManager.replacer.lru = v :: rest from hl] at hlru
    exact (List.cons.inj hlru).2.symm
  unfold doReplace
  rw [if_neg (Nat.not_le.mpr hfull)]
  split
  · rename_i hnone
    rw [hm] at hnone
    cases hnone
  · rename_i hsome
    rw [hm] at hsome
    cases hsome
    rw [if_pos (hrc _ he)]
    exact ⟨_,rfl,hidx,hrest,rfl,hkeys⟩

theorem entry_modify (c : SitNatCache) (lpa : UInt32) (f : SitNatCacheEntry → SitNatCacheEntry)
    (x : UInt32) : (c.modify lpa f).entry x = if x = lpa then (c.entry lpa).map f else c.entry x := by
  change Function.update c.cacheManager.index lpa _ x = _
  rw [Function.update_apply]
  rfl

theorem addRefcount_some {e : SitNatCacheEntry} (h : c.entry lpa = some e) (x : UInt32) :
    (c.addRefcount lpa).entry x = if x = lpa then some ⟨e.refCount + 1,e.cache⟩ else c.entry x := by
  have hm := entry_modify c lpa (fun e => ⟨e.refCount + 1,e.cache⟩) x
  rw [h] at hm
  unfold addRefcount
  rw [h]
  simp only
  split
  · exact hm
  · exact hm

theorem content_modify (c : SitNatCache) (d : CommDev) {lpa : UInt32}
    {f : SitNatCacheEntry → SitNatCacheEntry} (hf : ∀ e, (f e).cache = e.cache) (x : UInt32) :
    (c.modify lpa f).content d x = c.content d x := by
  unfold content
  rw [entry_modify]
  split_ifs with hx
  · subst hx
    cases c.entry x with
    | none => rfl
    | some e => exact hf e
  · rfl

def LruFree (c : SitNatCache) : Prop := ∀ k ∈ c.lru, ∀ e, c.entry k = some e → e.refCount = 0

def Held (c : SitNatCache) (lpa : UInt32) : Prop := (∃ e, c.entry lpa = some e) ∧ lpa ∉ c.lru

structure CacheOk (c : SitNatCache) : Prop where
  fits : c.curSize ≤ c.expectSize
  free : c.LruFree

structure SameContent (d : CommDev) (c c' : SitNatCache) : Prop where
  expectSize : c'.expectSize = c.expectSize
  content : ∀ x, c'.content d x = c.content d x

theorem SameContent.trans {c c' c'' : SitNatCache} (h : SameContent d c c') (h' : SameContent d c' c'') :
    SameContent d c c'' :=
  ⟨h'.expectSize.trans h.expectSize,fun x => (h'.content x).trans (h.content x)⟩

theorem lruFree_modify {c : SitNatCache} {lpa : UInt32} {f : SitNatCacheEntry → SitNatCacheEntry}
    (h : c.LruFree) (hl : lpa ∉ c.lru) : (c.modify lpa f).LruFree := by
  intro k hk e he
  rw [entry_modify,if_neg] at he
  · exact h k hk e he
  · rintro rfl
    exact hl hk

theorem addRefcount_spec (h : c.LruFree) {e : SitNatCacheEntry} (he : c.entry lpa = some e) :
    (c.addRefcount lpa).LruFree ∧ (c.addRefcount lpa).Held lpa ∧ SameContent d c (c.addRefcount lpa) ∧
      (c.addRefcount lpa).curSize = c.curSize ∧ (c.addRefcount lpa).keys.Perm c.keys ∧
      ∀ x, x ∈ (c.addRefcount lpa).lru → x ∈ c.lru := by
  have hent (x : UInt32) := entry_modify c lpa (fun e => ⟨e.refCount + 1,e.cache⟩) x
  have hself : (c.modify lpa (fun e => ⟨e.refCount + 1,e.cache⟩)).entry lpa =
      some ⟨e.refCount + 1,e.cache⟩ := by
    rw [hent,if_pos rfl,he]
    rfl
  have hsame : SameContent d c (c.modify lpa (fun e => ⟨e.refCount + 1,e.cache⟩)) :=
    ⟨rfl,content_modify c d (fun _ => rfl)⟩
  unfold addRefcount
  rw [he]
  simp only
  split
  · -- the count was zero: the block leaves the list of replaceable ones
    have hlru (x : UInt32) : x ∈ ((c.modify lpa (fun e => ⟨e.refCount + 1,e.cache⟩)).pin lpa).lru ↔
        x ∈ c.lru ∧ x ≠ lpa := CacheLruReplacer.mem_pin_lru lpa x
    refine ⟨fun k hk e' he' => ?_,⟨⟨_,hself⟩,fun hin => ((hlru lpa).mp hin).2 rfl⟩,
      ⟨rfl,hsame.content⟩,rfl,
      CacheLruReplacer.pin_keys lpa,fun x hx => ((hlru x).mp hx).1⟩
    obtain ⟨hk1,hk2⟩ := (hlru k).mp hk
    have hek : c.entry k = some e' := by
      rw [← he']
      exact ((hent k).trans (if_neg hk2)).symm
    exact h k hk1 e' hek
  · rename_i hne
    have hnotin : lpa ∉ c.lru := by
      intro hin
      rw [h lpa hin e he] at hne
      exact hne rfl
    exact ⟨lruFree_modify h hnotin,⟨⟨_,hself⟩,hnotin⟩,hsame,rfl,List.Perm.refl _,fun _ hx => hx⟩

theorem handleDestroy_spec (h : c.CacheOk) (hh : c.Held lpa) (d : CommDev) :
    ∃ c', c.handleDestroy lpa = some c' ∧ c'.CacheOk ∧ SameContent d c c' ∧ c'.keys.Perm c.keys := by
  obtain ⟨⟨e,he⟩,hl⟩ := hh
  have hent (x : UInt32) := entry_modify c lpa (fun e => ⟨e.refCount - 1,e.cache⟩) x
  have hsame : SameContent d c (c.modify lpa (fun e => ⟨e.refCount - 1,e.cache⟩)) :=
    ⟨rfl,content_modify c d (fun _ => rfl)⟩
  unfold handleDestroy subRefcount
  rw [he]
  simp only
  split
  · rename_i hz
    rw [doReplace_fits (by exact h.fits)]
    refine ⟨_,rfl,⟨h.fits,fun k hk e' he' => ?_⟩,⟨rfl,hsame.content⟩,
      CacheLruReplacer.unpin_keys lpa⟩
    have he'' : (c.modify lpa (fun e => ⟨e.refCount - 1,e.cache⟩)).entry k = some e' := he'
    rw [hent] at he''
    by_cases hkl : k = lpa
    · rw [if_pos hkl,he] at he''
      cases he''
      exact hz
    · rw [if_neg hkl] at he''
      rcases CacheLruReplacer.mem_unpin_lru hk with hk | hk
      · exact h.free k hk e' he''
      · exact absurd hk hkl
  · exact ⟨_,rfl,⟨h.fits,lruFree_modify h.free hl⟩,hsame,List.Perm.refl _⟩

theorem handleDestroy_last (h : c.CacheOk) (hh : c.Held lpa) {b : Block}
    (he : c.entry lpa = some ⟨1,b⟩) :
    ∃ c', c.handleDestroy lpa = some c' ∧ c'.lru = c.lru ++ [lpa] ∧ c'.curSize = c.curSize := by
  have hpinned : lpa ∈ c.cacheManager.replacer.pinned := by
    have hin := (c.cacheManager.sync lpa).mp (fun hn => Option.some_ne_none _ (he.symm.trans hn))
    rcases List.mem_append.mp hin with hin | hin
    · exact absurd hin hh.2
    · exact hin
  unfold handleDestroy subRefcount
  rw [he]
  simp only
  rw [if_pos (by decide),doReplace_fits (by exact h.fits)]
  refine ⟨_,rfl,?_,rfl⟩
  change (c.cacheManager.replacer.unpin lpa).lru = _
  unfold CacheLruReplacer.unpin
  rw [dif_pos hpinned]
  rfl

theorem writeBlock_spec (h : c.CacheOk) (hh : c.Held lpa) (d : CommDev) (b : Block) :
    (c.writeBlock lpa b).CacheOk ∧ (c.writeBlock lpa b).Held lpa ∧
      (∀ x, (c.writeBlock lpa b).content d x = if x = lpa then b else c.content d x) ∧
      (c.writeBlock lpa b).keys = c.keys ∧ (c.writeBlock lpa b).expectSize = c.expectSize := by
  obtain ⟨⟨e,he⟩,hl⟩ := hh
  have hent (x : UInt32) := entry_modify c lpa (fun e => ⟨e.refCount,b⟩) x
  refine ⟨⟨h.fits,lruFree_modify h.free hl⟩,⟨⟨⟨e.refCount,b⟩,?_⟩,hl⟩,fun x => ?_,rfl,rfl⟩
  · exact (hent lpa).trans (by rw [if_pos rfl,he]; rfl)
  · unfold content writeBlock
    rw [hent]
    by_cases hx : x = lpa
    · rw [if_pos hx,if_pos hx,he]
      rfl
    · rw [if_neg hx,if_neg hx]

def Room (c : SitNatCache) (d : CommDev) (lpa : UInt32) : Prop :=
  lpa ∈ c.keys ∨ c.curSize < c.expectSize ∨
    ∃ v rest, c.lru = v :: rest ∧ c.content d v = d.blocks v.toNat

theorem mem_keys_iff : lpa ∈ c.keys ↔ c.entry lpa ≠ none := (c.cacheManager.sync lpa).symm

theorem mem_keys_of_mem_lru {k : UInt32} (h : k ∈ c.lru) : k ∈ c.keys := List.mem_append_left _ h

theorem get_hit (h : c.CacheOk) {e : SitNatCacheEntry} (he : c.entry lpa = some e) :
    ∃ c', c.get d lpa = some c' ∧ c'.CacheOk ∧ c'.Held lpa ∧ SameContent d c c' ∧
      c'.keys.Perm c.keys := by
  have hfree : (c.access lpa).LruFree :=
    fun k hk e' he' => h.free k ((CacheLruReplacer.mem_access_lru lpa k).mp hk) e' he'
  have hea : (c.access lpa).entry lpa = some e := he
  obtain ⟨h1,h2,h3,h4,h5,_⟩ := addRefcount_spec (d := d) hfree hea
  have hinner : c.getCacheEntryInner d lpa = some (c.access lpa) := by
    unfold getCacheEntryInner
    split
    · rfl
    · rename_i hn
      rw [he] at hn
      cases hn
  have hfits : ((c.access lpa).addRefcount lpa).curSize ≤ ((c.access lpa).addRefcount lpa).expectSize := by
    rw [h4,h3.expectSize]
    exact h.fits
  refine ⟨(c.access lpa).addRefcount lpa,?_,⟨hfits,h1⟩,h2,⟨h3.expectSize,h3.content⟩,
    h5.trans (CacheLruReplacer.access_keys lpa)⟩
  unfold get
  rw [hinner,Option.bind_some,doReplace_fits hfits]

theorem add_content (hn : c.entry lpa = none) (d : CommDev) (x : UInt32) :
    (c.add lpa (d.blocks lpa.toNat) hn).content d x = c.content d x := by
  have hent : (c.add lpa (d.blocks lpa.toNat) hn).entry x =
      if x = lpa then some ⟨0,d.blocks lpa.toNat⟩ else c.entry x := by
    change Function.update c.cacheManager.index lpa _ x = _
    rw [Function.update_apply]
    rfl
  unfold content
  rw [hent]
  by_cases hx : x = lpa
  · subst hx
    rw [if_pos rfl,hn]
  · rw [if_neg hx]

theorem addRefcount_add_lru {b : Block} (hn : c.entry lpa = none) :
    ((c.add lpa b hn).addRefcount lpa).lru = c.lru := by
  have hlru : lpa ∉ c.cacheManager.replacer.lru :=
    fun hin => GenericCacheManager.notMem_of_none hn (mem_keys_of_mem_lru hin)
  have hent : (c.add lpa b hn).entry lpa = some ⟨0,b⟩ := by
    change Function.update c.cacheManager.index lpa _ lpa = _
    rw [Function.update_self]
  have hin : lpa ∈ (c.add lpa b hn).cacheManager.replacer.lru :=
    List.mem_append_right _ List.mem_cons_self
  have hpin : ((c.add lpa b hn).cacheManager.replacer.pin lpa).lru =
      (c.cacheManager.replacer.lru ++ [lpa]).erase lpa := by
    unfold CacheLruReplacer.pin
    rw [dif_pos hin]
    rfl
  unfold addRefcount
  rw [hent]
  simp only
  rw [if_pos (by decide)]
  refine hpin.trans ?_
  rw [List.erase_append_right _ hlru,List.erase_cons_head,List.append_nil]
  rfl

theorem added_entry (hn : c.entry lpa = none) (b : Block) (x : UInt32) :
    (c.add lpa b hn).entry x = if x = lpa then some ⟨0,b⟩ else c.entry x := by
  change Function.update c.cacheManager.index lpa _ x = _
  rw [Function.update_apply]
  rfl

def loaded (c : SitNatCache) (d : CommDev) (lpa : UInt32) (hn : c.entry lpa = none) : SitNatCache :=
  (c.add lpa (d.blocks lpa.toNat) hn).addRefcount lpa

structure Loaded (d : CommDev) (c c' : SitNatCache) (lpa : UInt32) : Prop where
  free : c'.LruFree
  held : c'.Held lpa
  same : SameContent d c c'
  curSize : c'.curSize = c.curSize + 1
  keys : c'.keys.Perm (lpa :: c.keys)
  lru : c'.lru = c.lru

theorem loaded_spec (h : c.CacheOk) (hn : c.entry lpa = none) : Loaded d c (c.loaded d lpa hn) lpa := by
  have hkey : lpa ∉ c.keys := GenericCacheManager.notMem_of_none hn
  have hent := added_entry hn (d.blocks lpa.toNat)
  have hfree : (c.add lpa (d.blocks lpa.toNat) hn).LruFree := by
    intro k hk e he
    rw [hent] at he
    by_cases hkl : k = lpa
    · rw [if_pos hkl] at he
      cases he
      rfl
    · rw [if_neg hkl] at he
      rcases List.mem_append.mp hk with hk | hk
      · exact h.free k hk e he
      · exact absurd (List.mem_singleton.mp hk) hkl
  obtain ⟨h1,h2,h3,h4,h5,_⟩ := addRefcount_spec (d := d) hfree ((hent lpa).trans (if_pos rfl))
  exact ⟨h1,h2,⟨h3.expectSize,fun x => (h3.content x).trans (add_content hn d x)⟩,h4,
    h5.trans (CacheLruReplacer.add_keys hkey),addRefcount_add_lru hn⟩

theorem loaded_entry (hn : c.entry lpa = none) :
    (c.loaded d lpa hn).entry lpa = some ⟨1,d.blocks lpa.toNat⟩ := by
  have ha := addRefcount_some ((added_entry hn (d.blocks lpa.toNat) lpa).trans (if_pos rfl)) lpa
  exact ha.trans (if_pos rfl)

theorem get_loads (hn : c.entry lpa = none) (hd : d.Holds lpa.toNat) :
    c.get d lpa = (c.loaded d lpa hn).doReplace := by
  unfold get getCacheEntryInner
  split
  · rename_i he
    rw [hn] at he
    cases he
  · rw [readLpa_ok hd]
    rfl

theorem get_fresh (h : c.CacheOk) (hn : c.entry lpa = none) (hd : d.Holds lpa.toNat)
    (hlt : c.curSize < c.expectSize) : ∃ c', c.get d lpa = some c' ∧ c'.CacheOk ∧ Loaded d c c' lpa := by
  have hl := loaded_spec (d := d) h hn
  have hfits : (c.loaded d lpa hn).curSize ≤ (c.loaded d lpa hn).expectSize := by
    rw [hl.curSize,hl.same.expectSize]
    exact hlt
  refine ⟨c.loaded d lpa hn,?_,⟨hfits,hl.free⟩,hl⟩
  rw [get_loads hn hd,doReplace_fits hfits]

theorem get_evicts (h : c.CacheOk) (hn : c.entry lpa = none) (hd : d.Holds lpa.toNat)
    (hfull : ¬ c.curSize < c.expectSize) {v : UInt32} {rest : List UInt32} (hv : c.lru = v :: rest) :
    ∃ c', c.get d lpa = some c' ∧ c'.CacheOk ∧ c'.Held lpa ∧ c'.expectSize = c.expectSize ∧
      (∀ x, c'.content d x = if x = v then d.blocks v.toNat else c.content d x) ∧
      (lpa :: c.keys).Perm (v :: c'.keys) := by
  have hl := loaded_spec (d := d) h hn
  have hlru : (c.loaded d lpa hn).lru = v :: rest := hl.lru.trans hv
  have hover : (c.loaded d lpa hn).expectSize < (c.loaded d lpa hn).curSize := by
    rw [hl.curSize,hl.same.expectSize]
    omega
  have hvin : v ∈ (c.loaded d lpa hn).lru := by
    rw [hlru]
    exact List.mem_cons_self
  obtain ⟨c',hc',hidx,hrest,hexp,hvk⟩ := doReplace_evicts hover hlru (fun e he => hl.free v hvin e he)
  have hvl : lpa ≠ v := fun he => hl.held.2 (he ▸ hvin)
  have hent (x : UInt32) : c'.entry x = if x = v then none else (c.loaded d lpa hn).entry x := by
    change c'.cacheManager.index x = _
    rw [hidx,Function.update_apply]
    rfl
  have hsub : ∀ k ∈ c'.lru, k ∈ (c.loaded d lpa hn).lru := by
    intro k hk
    rw [hlru]
    rw [hrest] at hk
    exact List.mem_cons_of_mem _ hk
  refine ⟨c',(get_loads hn hd).trans hc',⟨?_,fun k hk e he => ?_⟩,⟨?_,fun hin => hl.held.2 (hsub _ hin)⟩,
    hexp.trans hl.same.expectSize,fun x => ?_,?_⟩
  · have hlen := congrArg List.length hvk
    rw [List.length_cons,← curSize_keys,← curSize_keys,hl.curSize] at hlen
    have hle := h.fits
    rw [hexp,hl.same.expectSize]
    omega
  · rw [hent] at he
    split at he
    · cases he
    · exact hl.free k (hsub k hk) e he
  · obtain ⟨e,he⟩ := hl.held.1
    exact ⟨e,(hent lpa).trans ((if_neg hvl).trans he)⟩
  · by_cases hx : x = v
    · subst hx
      unfold content
      rw [hent,if_pos rfl,if_pos rfl]
    · have hkeep : c'.content d x = (c.loaded d lpa hn).content d x := by
        unfold content
        rw [hent,if_neg hx]
      rw [if_neg hx,hkeep,hl.same.content]
  · rw [← hvk]
    exact hl.keys.symm

theorem get_miss (h : c.CacheOk) (hn : c.entry lpa = none) (hd : d.Holds lpa.toNat)
    (hroom : c.Room d lpa) : ∃ c', c.get d lpa = some c' ∧ c'.CacheOk ∧ c'.Held lpa ∧
      SameContent d c c' ∧ ∀ x ∈ c'.keys, x = lpa ∨ x ∈ c.keys := by
  by_cases hfull : c.curSize < c.expectSize
  · obtain ⟨c',hc',hok,hl⟩ := get_fresh (d := d) h hn hd hfull
    exact ⟨c',hc',hok,hl.held,hl.same,fun x hx => List.mem_cons.mp (hl.keys.mem_iff.mp hx)⟩
  · obtain ⟨v,rest,hv,hclean⟩ : ∃ v rest, c.lru = v :: rest ∧ c.content d v = d.blocks v.toNat := by
      rcases hroom with hin | hlt | hvict
      · exact absurd hin (GenericCacheManager.notMem_of_none hn)
      · exact absurd hlt hfull
      · exact hvict
    obtain ⟨c',hc',hok,hheld,hexp,hcont,hkeys⟩ := get_evicts (d := d) h hn hd hfull hv
    refine ⟨c',hc',hok,hheld,⟨hexp,fun x => ?_⟩,fun x hx => ?_⟩
    · rw [hcont]
      by_cases hx : x = v
      · rw [if_pos hx,hx,hclean]
      · rw [if_neg hx]
    · exact List.mem_cons.mp (hkeys.mem_iff.mpr (List.mem_cons_of_mem _ hx))

structure Written (d : CommDev) (c c' : SitNatCache) (lpa : UInt32) (b : Block) : Prop where
  ok : c'.CacheOk
  expectSize : c'.expectSize = c.expectSize
  content : ∀ x, c'.content d x = if x = lpa then b else c.content d x
  keys : ∀ x ∈ c'.keys, x = lpa ∨ x ∈ c.keys

theorem get_spec (h : c.CacheOk) (hd : d.Holds lpa.toNat) (hroom : c.Room d lpa) :
    ∃ c', c.get d lpa = some c' ∧ c'.CacheOk ∧ c'.Held lpa ∧ SameContent d c c' ∧
      ∀ x ∈ c'.keys, x = lpa ∨ x ∈ c.keys := by
  cases he : c.entry lpa with
  | none => exact get_miss h he hd hroom
  | some e =>
    obtain ⟨c',hc',h1,h2,h3,h4⟩ := get_hit (d := d) h he
    exact ⟨c',hc',h1,h2,h3,fun x hx => Or.inr (h4.mem_iff.mp hx)⟩

theorem write_release {c₀ : SitNatCache} (hs : SameContent d c₀ c)
    (hk : ∀ x ∈ c.keys, x = lpa ∨ x ∈ c₀.keys) (h : c.CacheOk) (hh : c.Held lpa) (b : Block) :
    ∃ c', (c.writeBlock lpa b).handleDestroy lpa = some c' ∧ Written d c₀ c' lpa b := by
  obtain ⟨h1,h2,h3,h4,h5⟩ := writeBlock_spec h hh d b
  obtain ⟨c',hc',k1,k2,k3⟩ := handleDestroy_spec h1 h2 d
  refine ⟨c',hc',k1,k2.expectSize.trans (h5.trans hs.expectSize),fun x => ?_,fun x hx => hk x ?_⟩
  · rw [k2.content,h3,hs.content]
  · rw [← h4]
    exact k3.mem_iff.mp hx

theorem write_pin_release {c₀ : SitNatCache} (hs : SameContent d c₀ c)
    (hk : ∀ x ∈ c.keys, x = lpa ∨ x ∈ c₀.keys) (h : c.CacheOk) (hh : c.Held lpa) (b : Block) :
    ∃ c', ((c.writeBlock lpa b).handleAddHostVersion lpa).handleDestroy lpa = some c' ∧
      Written d c₀ c' lpa b := by
  obtain ⟨h1,h2,h3,h4,h5⟩ := writeBlock_spec h hh d b
  obtain ⟨e,he⟩ := h2.1
  obtain ⟨a1,a2,a3,a4,a5,_⟩ := addRefcount_spec (d := d) h1.free he
  have aok : ((c.writeBlock lpa b).handleAddHostVersion lpa).CacheOk := by
    refine ⟨?_,a1⟩
    change ((c.writeBlock lpa b).addRefcount lpa).curSize ≤ ((c.writeBlock lpa b).addRefcount lpa).expectSize
    rw [a4,a3.expectSize]
    exact h1.fits
  obtain ⟨c',hc',k1,k2,k3⟩ := handleDestroy_spec aok a2 d
  refine ⟨c',hc',k1,k2.expectSize.trans (a3.expectSize.trans (h5.trans hs.expectSize)),fun x => ?_,
    fun x hx => hk x ?_⟩
  · rw [k2.content]
    exact (a3.content x).trans ((h3 x).trans (by rw [hs.content]))
  · rw [← h4]
    exact a5.mem_iff.mp (k3.mem_iff.mp hx)

theorem writeAllSync_blocks (order : List UInt32) (d : CommDev) (hd : ∀ k ∈ order, d.Holds k.toNat) :
    ∃ f, c.writeAllSync order d = d.withBlocks f ∧
      (∀ x ∈ order, f x.toNat = c.content d x) ∧ ∀ n, (∀ x ∈ order, x.toNat ≠ n) → f n = d.blocks n := by
  induction order using List.reverseRecOn with
  | nil => exact ⟨d.blocks,rfl,fun x hx => absurd hx List.not_mem_nil,fun _ _ => rfl⟩
  | append_singleton ks k ih =>
    obtain ⟨f,hf,hin,hout⟩ := ih (fun x hx => hd x (List.mem_append_left _ hx))
    have hk : (d.withBlocks f).Holds k.toNat := hd k (List.mem_append_right _ List.mem_cons_self)
    have hstep : c.writeAllSync (ks ++ [k]) d = (d.withBlocks
        (Function.update f k.toNat (match c.entry k with | none => f k.toNat | some e => e.cache))) := by
      unfold writeAllSync at hf ⊢
      rw [List.foldl_append,hf,List.foldl_cons,List.foldl_nil]
      cases c.entry k with
      | none => exact congrArg d.withBlocks (Function.update_eq_self _ _).symm
      | some e =>
        simp only [writeLpa_ok hk]
        rfl
    refine ⟨_,hstep,fun x hx => ?_,fun n hn => ?_⟩
    · by_cases hxk : x = k
      · subst hxk
        rw [Function.update_self]
        unfold content
        cases he : c.entry x with
        | some e => rfl
        | none =>
          simp only
          by_cases hxs : x ∈ ks
          · rw [hin x hxs,content,he]
          · refine hout _ (fun y hy heq => hxs ?_)
            rwa [← UInt32.toNat_inj.mp heq]
      · have hne : x.toNat ≠ k.toNat := fun he => hxk (UInt32.toNat_inj.mp he)
        rw [Function.update_of_ne hne]
        rcases List.mem_append.mp hx with hx | hx
        · exact hin x hx
        · exact absurd (List.mem_singleton.mp hx) hxk
    · have hnk : n ≠ k.toNat := (hn k (List.mem_append_right _ List.mem_cons_self)).symm
      rw [Function.update_of_ne hnk]
      exact hout n (fun x hx => hn x (List.mem_append_left _ hx))

end SitNatCache

end Rtfs
