import Rtfs.Fs.TwoDirCommit
import Rtfs.Inode.DirListing

namespace Rtfs

namespace DirEntries

-- the size of struct dirent
structure DirentLayout where
  size : Nat
  pos : 0 < size

structure Dirent where
  dIno : UInt64
  dOff : Nat
  dReclen : Nat
  dNamlen : Nat
  dName : List UInt8
  deriving DecidableEq

section Read
variable (layout : DirentLayout) (img : DirImage) (parentIno : UInt64)

def rtfsDirFillDirent (ino : UInt64) (name : List UInt8) : Except Errno Dirent :=
  if BadLength name then .error .einval else .ok ⟨ino,0,layout.size,name.length,name⟩

def rtfsDirGetEntryByIndex (d : RtfsDirInode) (index : Nat) : Except Errno Dirent :=
  if index = 0 then rtfsDirFillDirent layout img.ino.toUInt64 [46]
  else if index = 1 then rtfsDirFillDirent layout parentIno [46,46]
  else
    match d.entries[index - 2]? with
    | none => .error .enoent
    | some e => rtfsDirFillDirent layout e.ino e.name

def readFrom (d : RtfsDirInode) : Nat → Nat → Except Errno (List Dirent)
  | _, 0 => .ok []
  | entryIndex, n + 1 =>
    match rtfsDirGetEntryByIndex layout img parentIno d entryIndex with
    | .error e => if e = .enoent then .ok [] else .error e
    | .ok current => (readFrom d (entryIndex + 1) n).map
        (fun rest => { current with dOff := (entryIndex + 1) * layout.size } :: rest)

def rtfsDirInodeReadEntries (d : RtfsDirInode) (offset count : Nat) : Except Errno (List Dirent × Nat) :=
  let entryIndex := offset / layout.size
  (readFrom layout img parentIno d entryIndex (count / layout.size)).map
    (fun read => (read,(entryIndex + read.length) * layout.size))

inductive ReadIter
  | stop (r : Except Errno (List Dirent × Nat))
  | next (d : RtfsDirInode) (offset : Nat) (result : List Dirent)

-- one iteration of the loop in rtfsDirRead, result is what the buffer holds so far
def readIter (count : Nat) (d : RtfsDirInode) (offset : Nat) (result : List Dirent) : ReadIter :=
  if count - result.length * layout.size < layout.size then .stop (.ok (result,offset))
  else
    match rtfsDirInodeReadEntries layout img parentIno d offset (count - result.length * layout.size) with
    | .error e => .stop (.error e)
    | .ok ([],offset) =>
      if d.isFullyLoaded then .stop (.ok (result,offset))
      else
        match rtfsDirInodeResolveOnDemand img d with
        | .error e => .stop (.error e)
        | .ok d' =>
          if d'.isFullyLoaded = false ∧ d'.loadedBlockCount = d.loadedBlockCount then .stop (.error .eio)
          else .next d' offset result
    | .ok (read,offset) =>
      if count ≤ (result ++ read).length * layout.size ∨ d.isFullyLoaded = true then
        .stop (.ok (result ++ read,offset))
      else
        match rtfsDirInodeResolveOnDemand img d with
        | .error e => .stop (.error e)
        | .ok d' => .next d' offset (result ++ read)

-- none: not finished
def readLoop (count : Nat) : Nat → RtfsDirInode → Nat → List Dirent → Option (Except Errno (List Dirent × Nat))
  | 0, _, _, _ => none
  | fuel + 1, d, offset, result =>
    match readIter layout img parentIno count d offset result with
    | .stop r => some r
    | .next d offset result => readLoop count fuel d offset result

-- the dirents and the new offset, for a buffer that takes a dirent at least
def rtfsDirRead (fuel offset count : Nat) : Option (Except Errno (List Dirent × Nat)) :=
  match rtfsDirInodeResolve img with
  | .error e => some (.error e)
  | .ok d => readLoop layout img parentIno count fuel d offset []

end Read

inductive Loaded (img : DirImage) (d : RtfsDirInode) : Prop
  | inline (hi : img.isInline = true) (h : BuiltInline img d)
  | regular (k : Nat) (h : LoadedAt img k d)

section Objects
variable {img : DirImage} {d d' : RtfsDirInode}

theorem Loaded.names (h : Loaded img d) :
    ∃ rest, dirNames img = d.names ++ rest ∧ (d.isFullyLoaded = true → rest = []) := by
  cases h with
  | inline hi h =>
    refine ⟨[],?_,fun _ => rfl⟩
    rw [dirNames,if_pos hi,h.names,List.append_nil]
  | regular k h =>
    obtain ⟨rest,hrest⟩ := loadedTo_prefix h.regular h.le h.loaded
    refine ⟨rest,hrest,fun hfull => ?_⟩
    rw [h.full] at hfull
    have hk : k = sizeToBlock img.iSize := Nat.le_antisymm h.le (of_decide_eq_true hfull)
    have hcount : blockCount img = k := by
      rw [blockCount,h.regular,hk]
      rfl
    have hall : d.names = dirNames img := loadedTo_names (by rw [hcount]; exact h.loaded)
    rw [hall] at hrest
    exact List.append_right_eq_self.mp hrest.symm

theorem Loaded.le (h : Loaded img d) (hfull : d.isFullyLoaded = false) :
    d.loadedBlockCount < sizeToBlock img.iSize := by
  cases h with
  | inline hi h => exact absurd (h.full.symm.trans hfull) (by decide)
  | regular k h =>
    rw [h.full] at hfull
    rw [h.count]
    exact Nat.not_le.mp (of_decide_eq_false hfull)

theorem Loaded.next (h : Loaded img d) (hfull : d.isFullyLoaded = false)
    (hr : rtfsDirInodeResolveOnDemand img d = .ok d') :
    Loaded img d' ∧ (d' = d ∨ d'.loadedBlockCount = d.loadedBlockCount + 1) := by
  have hlt := h.le hfull
  cases h with
  | inline hi h => exact absurd (h.full.symm.trans hfull) (by decide)
  | regular k h =>
    rw [h.count] at hlt
    rw [h.resolveNext hlt] at hr
    rcases loadBlock_cases img d k with ⟨-,hl⟩ | ⟨hm,⟨e,hl⟩ | ⟨d₁,d₂,ha,rfl,hl⟩⟩
    · cases hr.symm.trans hl
      exact ⟨.regular k h,.inl rfl⟩
    · cases hr.symm.trans hl
    · cases hr.symm.trans hl
      have hnext := h.next hlt hm ha hl
      exact ⟨.regular (k + 1) hnext,.inr (by rw [hnext.count,h.count])⟩

theorem resolve_loaded (h : rtfsDirInodeResolve img = .ok d) : Loaded img d := by
  unfold rtfsDirInodeResolve at h
  cases hb : rtfsDirInodeBuildFromCache img with
  | error e =>
    rw [hb] at h
    cases h
  | ok d₀ =>
    rw [hb] at h
    change rtfsDirInodeResolveOnDemand img d₀ = .ok d at h
    have hstart : Loaded img d₀ := by
      cases hi : img.isInline with
      | true => exact .inline hi (build_inline hi hb)
      | false => exact .regular 0 (build_loadedAt hi hb)
    cases hfull : d₀.isFullyLoaded with
    | true =>
      unfold rtfsDirInodeResolveOnDemand at h
      rw [if_pos hfull] at h
      cases h
      exact hstart
    | false => exact (hstart.next hfull h).1

end Objects

def dirItems (img : DirImage) : List (List UInt8) := [46] :: [46,46] :: dirNames img

section Entries
variable {layout : DirentLayout} {img : DirImage} {parentIno : UInt64} {d : RtfsDirInode}

theorem getEntry_ok {index : Nat} {e : Dirent}
    (h : rtfsDirGetEntryByIndex layout img parentIno d index = .ok e) :
    ([46] :: [46,46] :: d.names)[index]? = some e.dName := by
  have hfill {ino : UInt64} {name : List UInt8} (h : rtfsDirFillDirent layout ino name = .ok e) : name = e.dName := by
    unfold rtfsDirFillDirent at h
    split at h
    · cases h
    · cases h
      rfl
  unfold rtfsDirGetEntryByIndex at h
  match index with
  | 0 => exact congrArg some (hfill h)
  | 1 => exact congrArg some (hfill h)
  | index + 2 =>
    rw [if_neg (by omega),if_neg (by omega),Nat.add_sub_cancel] at h
    change d.names[index]? = _
    unfold RtfsDirInode.names
    rw [List.getElem?_map]
    cases he : d.entries[index]? with
    | none =>
      rw [he] at h
      cases h
    | some x =>
      rw [he] at h
      exact congrArg some (hfill h)

theorem getEntry_enoent {index : Nat}
    (h : rtfsDirGetEntryByIndex layout img parentIno d index = .error .enoent) :
    ([46] :: [46,46] :: d.names).length ≤ index := by
  have hfill {ino : UInt64} {name : List UInt8} : rtfsDirFillDirent layout ino name ≠ .error .enoent := by
    unfold rtfsDirFillDirent
    split <;> exact nofun
  unfold rtfsDirGetEntryByIndex at h
  match index with
  | 0 =>
    rw [if_pos rfl] at h
    exact (hfill h).elim
  | 1 =>
    rw [if_neg (by decide),if_pos rfl] at h
    exact (hfill h).elim
  | index + 2 =>
    rw [if_neg (by omega),if_neg (by omega),Nat.add_sub_cancel] at h
    cases he : d.entries[index]? with
    | none =>
      have hlen := List.getElem?_eq_none_iff.mp he
      simpa [RtfsDirInode.names] using hlen
    | some x =>
      rw [he] at h
      exact absurd h hfill

theorem readFrom_names {entryIndex n : Nat} {read : List Dirent}
    (h : readFrom layout img parentIno d entryIndex n = .ok read) :
    read.map Dirent.dName = (([46] :: [46,46] :: d.names).drop entryIndex).take n := by
  induction n generalizing entryIndex read with
  | zero =>
    cases h
    rfl
  | succ n ih =>
    rw [readFrom] at h
    cases he : rtfsDirGetEntryByIndex layout img parentIno d entryIndex with
    | error e =>
      rw [he] at h
      simp only at h
      by_cases hn : e = .enoent
      · rw [if_pos hn] at h
        cases h
        rw [hn] at he
        rw [List.drop_of_length_le (getEntry_enoent he)]
        rfl
      · rw [if_neg hn] at h
        cases h
    | ok current =>
      rw [he] at h
      obtain ⟨rest,hrest,rfl⟩ := Except.map_ok h
      obtain ⟨hlt,hget⟩ := List.getElem?_eq_some_iff.mp (getEntry_ok he)
      rw [List.drop_eq_getElem_cons hlt,List.take_succ_cons,hget,← ih hrest]
      rfl

end Entries

section Loop
variable {layout : DirentLayout} {img : DirImage} {parentIno : UInt64} {d : RtfsDirInode}

def dNames (read : List Dirent) : List (List UInt8) := read.map Dirent.dName

structure Chunk (img : DirImage) (d : RtfsDirInode) (pos n : Nat) (read : List Dirent) : Prop where
  names : dNames read = ((dirItems img).drop pos).take read.length
  le : read.length ≤ n
  last : d.isFullyLoaded = true ∨ n ≤ read.length → dNames read = ((dirItems img).drop pos).take n

theorem readEntries_chunk (h : Loaded img d) {pos count offset : Nat} {read : List Dirent}
    (hr : rtfsDirInodeReadEntries layout img parentIno d (pos * layout.size) count = .ok (read,offset)) :
    Chunk img d pos (count / layout.size) read ∧ offset = (pos + read.length) * layout.size := by
  unfold rtfsDirInodeReadEntries at hr
  simp only [Nat.mul_div_cancel _ layout.pos] at hr
  obtain ⟨read',hread,heq⟩ := Except.map_ok hr
  cases heq
  obtain ⟨rest,hrest,hfull⟩ := h.names
  have hnames := readFrom_names hread
  have hitems : dirItems img = ([46] :: [46,46] :: d.names) ++ rest := by
    rw [dirItems,hrest]
    rfl
  have hlen : read.length ≤ count / layout.size := by
    have := congrArg List.length hnames
    rw [List.length_map,List.length_take] at this
    omega
  have hpre : dNames read = ((dirItems img).drop pos).take read.length := by
    have hp : dNames read <+: (dirItems img).drop pos := by
      unfold dNames
      rw [hnames,hitems]
      exact (List.take_prefix _ _).trans ((List.prefix_append _ _).drop pos)
    rw [List.prefix_iff_eq_take.mp hp]
    congr 1
    exact List.length_map _
  refine ⟨⟨hpre,hlen,fun hlast => ?_⟩,rfl⟩
  rcases hlast with hf | hge
  · rw [hitems,hfull hf,List.append_nil]
    exact hnames
  · rw [hpre,Nat.le_antisymm hge hlen]

theorem take_chunk {l : List (List UInt8)} {pos m n : Nat} (hle : m ≤ n) :
    (l.drop pos).take m ++ (l.drop (pos + m)).take (n - m) = (l.drop pos).take n := by
  rw [← List.drop_drop,← List.take_add,Nat.add_sub_cancel' hle]

inductive IterSpec (layout : DirentLayout) (img : DirImage) (d : RtfsDirInode) (pos count : Nat)
    (result : List Dirent) : ReadIter → Prop
  | failed (e : Errno) : IterSpec layout img d pos count result (.stop (.error e))
  | ended (read : List Dirent)
      (h : dNames read = ((dirItems img).drop pos).take (count / layout.size - result.length)) :
      IterSpec layout img d pos count result (.stop (.ok (result ++ read,(pos + read.length) * layout.size)))
  | more (d' : RtfsDirInode) (read : List Dirent) (hd : Loaded img d')
      (h : dNames read = ((dirItems img).drop pos).take read.length)
      (hle : read.length ≤ count / layout.size - result.length)
      (hprogress : sizeToBlock img.iSize - d'.loadedBlockCount + (count - (result ++ read).length * layout.size) <
        sizeToBlock img.iSize - d.loadedBlockCount + (count - result.length * layout.size)) :
      IterSpec layout img d pos count result (.next d' ((pos + read.length) * layout.size) (result ++ read))

theorem readIter_spec (layout : DirentLayout) (parentIno : UInt64) (h : Loaded img d) (pos count : Nat)
    (result : List Dirent) :
    IterSpec layout img d pos count result
      (readIter layout img parentIno count d (pos * layout.size) result) := by
  have hroom : (count - result.length * layout.size) / layout.size = count / layout.size - result.length := by
    rw [Nat.mul_comm,Nat.sub_mul_div]
  unfold readIter
  by_cases hend : count - result.length * layout.size < layout.size
  · rw [if_pos hend]
    have hzero : count / layout.size - result.length = 0 := by
      rw [← hroom]
      exact Nat.div_eq_of_lt hend
    have hstop : IterSpec layout img d pos count result
        (.stop (.ok (result ++ [],(pos + ([] : List Dirent).length) * layout.size))) := .ended [] (by rw [hzero]; rfl)
    rwa [List.append_nil] at hstop
  · rw [if_neg hend]
    cases hread : rtfsDirInodeReadEntries layout img parentIno d (pos * layout.size)
        (count - result.length * layout.size) with
    | error e => exact .failed e
    | ok r =>
      obtain ⟨read,offset⟩ := r
      obtain ⟨hchunk,rfl⟩ := readEntries_chunk h hread
      rw [hroom] at hchunk
      cases read with
      | nil =>
        simp only
        cases hfull : d.isFullyLoaded with
        | true =>
          have hstop : IterSpec layout img d pos count result
              (.stop (.ok (result ++ [],(pos + ([] : List Dirent).length) * layout.size))) :=
            .ended [] (hchunk.last (.inl hfull))
          rwa [List.append_nil] at hstop
        | false =>
          rw [if_neg (by decide)]
          cases hres : rtfsDirInodeResolveOnDemand img d with
          | error e => exact .failed e
          | ok d' =>
            simp only
            split
            · exact .failed .eio
            · rename_i hmoved
              obtain ⟨hd',hsame | hstep⟩ := h.next hfull hres
              · rw [hsame] at hmoved
                exact absurd ⟨hfull,rfl⟩ hmoved
              · have hmore : IterSpec layout img d pos count result
                    (.next d' ((pos + ([] : List Dirent).length) * layout.size) (result ++ [])) := by
                  refine .more d' [] hd' rfl (Nat.zero_le _) ?_
                  have hlt := h.le hfull
                  rw [List.append_nil,hstep]
                  omega
                rwa [List.append_nil] at hmore
      | cons x read =>
        simp only
        by_cases hstop : count ≤ (result ++ x :: read).length * layout.size ∨ d.isFullyLoaded = true
        · rw [if_pos hstop]
          refine .ended (x :: read) (hchunk.last ?_)
          rcases hstop with hcount | hfull
          · right
            have hle : count / layout.size ≤ (result ++ x :: read).length :=
              Nat.div_le_of_le_mul (by rwa [Nat.mul_comm])
            rw [List.length_append] at hle
            omega
          · exact .inl hfull
        · rw [if_neg hstop]
          rw [not_or,Bool.not_eq_true] at hstop
          cases hres : rtfsDirInodeResolveOnDemand img d with
          | error e => exact .failed e
          | ok d' =>
            obtain ⟨hd',hstep⟩ := h.next hstop.2 hres
            refine .more d' (x :: read) hd' hchunk.names hchunk.le ?_
            have hgrown : result.length * layout.size < (result ++ x :: read).length * layout.size := by
              refine Nat.mul_lt_mul_of_pos_right ?_ layout.pos
              simp
            have hloaded : d.loadedBlockCount ≤ d'.loadedBlockCount := by
              rcases hstep with rfl | hstep
              · exact le_rfl
              · omega
            omega

theorem readLoop_spec {fuel : Nat} (h : Loaded img d) {pos count offset : Nat} {result read : List Dirent}
    (hr : readLoop layout img parentIno count fuel d (pos * layout.size) result = some (.ok (read,offset))) :
    ∃ new, read = result ++ new ∧ offset = (pos + new.length) * layout.size ∧
      dNames new = ((dirItems img).drop pos).take (count / layout.size - result.length) := by
  induction fuel generalizing d pos result with
  | zero => cases hr
  | succ fuel ih =>
    rw [readLoop] at hr
    have hspec := readIter_spec layout parentIno h pos count result
    cases hiter : readIter layout img parentIno count d (pos * layout.size) result with
    | stop r =>
      rw [hiter] at hspec hr
      cases hspec with
      | failed e => cases hr
      | ended new hnew =>
        cases hr
        exact ⟨new,rfl,rfl,hnew⟩
    | next d' offset' result' =>
      rw [hiter] at hspec hr
      cases hspec with
      | more _ chunk hd hnames hle _ =>
        obtain ⟨new,rfl,rfl,hnew⟩ := ih hd hr
        refine ⟨chunk ++ new,List.append_assoc _ _ _,by rw [List.length_append,Nat.add_assoc],?_⟩
        rw [List.length_append,← Nat.sub_sub] at hnew
        unfold dNames at hnames hnew ⊢
        rw [List.map_append,hnames,hnew,take_chunk hle]

theorem dirRead_spec {fuel pos count offset : Nat} {read : List Dirent}
    (hr : rtfsDirRead layout img parentIno fuel (pos * layout.size) count = some (.ok (read,offset))) :
    offset = (pos + read.length) * layout.size ∧
      dNames read = ((dirItems img).drop pos).take (count / layout.size) := by
  unfold rtfsDirRead at hr
  cases hd : rtfsDirInodeResolve img with
  | error e =>
    rw [hd] at hr
    cases hr
  | ok d =>
    rw [hd] at hr
    obtain ⟨new,rfl,rfl,hnew⟩ := readLoop_spec (resolve_loaded hd) hr
    exact ⟨rfl,hnew⟩

end Loop

end DirEntries

end Rtfs
