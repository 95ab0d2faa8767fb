import Rtfs.Inode.FileDurable
import Rtfs.Lib.OpenFile

namespace Rtfs

namespace FileHandler

inductive HandleError
  | ebadf
  | einval
  | eoverflow
  | eacces
  | errno (e : Errno)
  | file (e : FileError)
  deriving DecidableEq

structure OpenFlags where
  access : AccessMode
  append : Bool
  trunc : Bool

-- the handle of an iop, with the offset of the iop
structure RtfsFileHandle where
  s : FileState
  oflag : OpenFlags
  syncFailed : Bool
  offset : Int64

-- negated one above delta, as -delta overflows at the least off_t
def seekDistance (delta : Int64) : UInt64 := (-(delta + 1)).toUInt64 + 1

def rtfsFileComputeSeekOffset (base delta : Int64) : Except HandleError Int64 :=
  if base < 0 then .error .einval
  else if 0 ≤ delta then
    if Int64.maxValue - delta < base then .error .eoverflow else .ok (base + delta)
  else if base.toUInt64 < seekDistance delta then .error .einval
  else .ok (base.toUInt64 - seekDistance delta).toInt64

def RtfsFileHandle.withFile (h : RtfsFileHandle) (f : RtfsFileInode) : RtfsFileHandle :=
  { h with s := { h.s with file := f } }

def RtfsFileHandle.at (h : RtfsFileHandle) (f : RtfsFileInode) (curOffset : Nat) : RtfsFileHandle :=
  { h with s := { h.s with file := f }, offset := Int64.ofNat curOffset }

def rtfsFileRead (env : FileEnv) (h : RtfsFileHandle) (count : Nat) :
    Except HandleError (List UInt8) × RtfsFileHandle :=
  if h.oflag.access = .wronly then (.error .ebadf,h)
  else if h.offset < 0 then (.error .einval,h)
  else
    match rtfsFileInodeRead env h.s.file h.offset.toUInt64.toNat count with
    | (.error e,f) => (.error (.file e),h.withFile f)
    | (.ok bytes,f) => (.ok bytes,h.at f (h.offset.toUInt64.toNat + bytes.length))

def RtfsFileHandle.writeStart (h : RtfsFileHandle) : Int64 :=
  if h.oflag.append then h.s.file.iSize.toInt64 else h.offset

def rtfsFileWrite (env : FileEnv) (h : RtfsFileHandle) (buffer : List UInt8) :
    Except HandleError Nat × RtfsFileHandle :=
  if h.oflag.access = .rdonly then (.error .ebadf,h)
  else if h.writeStart < 0 then (.error .einval,h)
  else
    match rtfsFileInodeWrite env h.s.file h.writeStart.toUInt64.toNat buffer with
    | (.error e,f) => (.error (.file e),h.withFile f)
    | (.ok n,f) => (.ok n,h.at f (h.writeStart.toUInt64.toNat + n))

def RtfsFileHandle.seekBase (h : RtfsFileHandle) : Whence → Int64
  | .set => 0
  | .cur => h.offset
  | .fromEnd => h.s.file.iSize.toInt64

def rtfsFileLseek (h : RtfsFileHandle) (offset : Int64) (whence : Whence) :
    Except HandleError Int64 × RtfsFileHandle :=
  match rtfsFileComputeSeekOffset (h.seekBase whence) offset with
  | .error e => (.error e,h)
  | .ok newOffset => (.ok newOffset,{ h with offset := newOffset })

def rtfsFileFtruncate (env : FileEnv) (h : RtfsFileHandle) (length : Int64) :
    Except HandleError Unit × RtfsFileHandle :=
  if length < 0 then (.error .einval,h)
  else if h.oflag.access = .rdonly then (.error .ebadf,h)
  else
    match rtfsFileInodeTruncate env h.s.file length.toUInt64 with
    | (.error e,f) => (.error (.file e),h.withFile f)
    | (.ok _,f) => (.ok (),h.withFile f)

-- drained: how cowReclaimRegistryDrainCompleted ends, which fdatasync leaves out
structure SyncEnv where
  drained : Option Errno
  commit : FileCommitEnv

def rtfsFileInodeCommitCowWriteback (env : SyncEnv) (dirtyPages : DirtyPages) (s : FileState) :
    Option (Except Errno (List UInt32) × FileState) :=
  match env.drained with
  | some e => some (.error e,s)
  | none => rtfsFileInodeCommitCowWritebackInternal env.commit dirtyPages s

def RtfsFileHandle.synced (h : RtfsFileHandle) :
    Except Errno (List UInt32) × FileState → Except HandleError Unit × RtfsFileHandle
  | (.error e,s) => (.error (.errno e),{ h with s := s, syncFailed := true })
  | (.ok _,s) => (.ok (),{ h with s := s, syncFailed := false })

def rtfsFileFsync (env : SyncEnv) (dirtyPages : DirtyPages) (h : RtfsFileHandle) :
    Option (Except HandleError Unit × RtfsFileHandle) :=
  (rtfsFileInodeCommitCowWriteback env dirtyPages h.s).map h.synced

def rtfsFileFdatasync (env : FileCommitEnv) (dirtyPages : DirtyPages) (h : RtfsFileHandle) :
    Option (Except HandleError Unit × RtfsFileHandle) :=
  (rtfsFileInodeCommitCowWritebackInternal env dirtyPages h.s).map h.synced

-- the object is dropped; the next open builds it anew
def rtfsFileClose (env : SyncEnv) (dirtyPages : DirtyPages) (h : RtfsFileHandle) :
    Option (Except Errno Unit × FileState) :=
  if h.syncFailed then some (.ok (),h.s)
  else (rtfsFileInodeCommitCowWriteback env dirtyPages h.s).map (fun r => (r.1.map (fun _ => ()),r.2))

def openedHandle (oflag : OpenFlags) (s : FileState) : RtfsFileHandle :=
  ⟨s,oflag,false,if oflag.append then s.file.iSize.toInt64 else 0⟩

-- over the volume that the last close left
def rtfsFileOpen (fileEnv : FileEnv) (env : SyncEnv) (dirtyPages : DirtyPages) (oflag : OpenFlags) (s : FileState) :
    Option (Except HandleError RtfsFileHandle) :=
  if oflag.trunc ∧ oflag.access = .rdonly then some (.error .eacces)
  else if oflag.trunc then
    match rtfsFileInodeTruncate fileEnv s.rtfsFileInodeBuild.file 0 with
    | (.error e,_) => some (.error (.file e))
    | (.ok _,f) =>
      (rtfsFileInodeCommitCowWriteback env dirtyPages { s.rtfsFileInodeBuild with file := f }).map (fun r =>
        match r with
        | (.error e,_) => .error (.errno e)
        | (.ok _,s) => .ok (openedHandle oflag s))
  else some (.ok (openedHandle oflag s.rtfsFileInodeBuild))

section Seek
variable {base delta : Int64}

theorem toUInt64_toNat {x : Int64} (h : 0 ≤ x.toInt) : (x.toUInt64.toNat : Int) = x.toInt := by
  rw [Int64.toNat_toUInt64_of_le (Int64.le_iff_toInt_le.mpr h)]
  exact Int.toNat_of_nonneg h

theorem not_negative {x : Int64} (h : 0 ≤ x.toInt) : ¬ x < 0 := fun hlt =>
  absurd (Int64.lt_iff_toInt_lt.mp hlt) (not_lt.mpr h)

theorem seekDistance_eq (h : delta.toInt < 0) : ((seekDistance delta).toNat : Int) = -delta.toInt ∧
    (seekDistance delta).toInt64 = -delta := by
  have hlo := delta.le_toInt
  have hsum : (delta + 1).toInt = delta.toInt + 1 := by
    rw [Int64.toInt_add,Int64.toInt_one]
    exact Int.bmod_eq_of_le (by omega) (by omega)
  have hneg : (-(delta + 1)).toInt = -(delta.toInt + 1) := by
    rw [Int64.toInt_neg,hsum]
    exact Int.bmod_eq_of_le (by omega) (by omega)
  have hnat := toUInt64_toNat (x := -(delta + 1)) (by omega)
  constructor
  · rw [seekDistance,UInt64.toNat_add,UInt64.toNat_one,Nat.mod_eq_of_lt (by omega)]
    omega
  · rw [seekDistance,UInt64.toInt64_add,Int64.toInt64_toUInt64,Int64.neg_add]
    exact Int64.sub_add_cancel _ 1

theorem seek_spec (h : 0 ≤ base.toInt) :
    (base.toInt + delta.toInt < 0 → rtfsFileComputeSeekOffset base delta = .error .einval) ∧
    (2 ^ 63 ≤ base.toInt + delta.toInt → rtfsFileComputeSeekOffset base delta = .error .eoverflow) ∧
    (0 ≤ base.toInt + delta.toInt → base.toInt + delta.toInt < 2 ^ 63 →
      rtfsFileComputeSeekOffset base delta = .ok (base + delta) ∧ (base + delta).toInt = base.toInt + delta.toInt) := by
  have hbase := base.toInt_lt
  have hbnat := toUInt64_toNat h
  have hsum (h0 : 0 ≤ base.toInt + delta.toInt) (hlt : base.toInt + delta.toInt < 2 ^ 63) :
      (base + delta).toInt = base.toInt + delta.toInt := by
    rw [Int64.toInt_add]
    exact Int.bmod_eq_of_le (by omega) (by omega)
  unfold rtfsFileComputeSeekOffset
  rw [if_neg (not_negative h)]
  by_cases hd : 0 ≤ delta
  · rw [if_pos hd]
    have hdelta : 0 ≤ delta.toInt := Int64.le_iff_toInt_le.mp hd
    have hroom : (Int64.maxValue - delta).toInt = 2 ^ 63 - 1 - delta.toInt := by
      rw [Int64.toInt_sub,Int64.toInt_maxValue]
      have hlt := delta.toInt_lt
      exact Int.bmod_eq_of_le (by omega) (by omega)
    have hiff : Int64.maxValue - delta < base ↔ 2 ^ 63 ≤ base.toInt + delta.toInt := by
      rw [Int64.lt_iff_toInt_lt,hroom]
      omega
    refine ⟨fun hneg => by omega,fun hbig => if_pos (hiff.mpr hbig),fun h0 hlt => ⟨?_,hsum h0 hlt⟩⟩
    exact if_neg (fun hbig => absurd (hiff.mp hbig) (not_le.mpr hlt))
  · rw [if_neg hd]
    have hdelta : delta.toInt < 0 := not_le.mp (fun hge => hd (Int64.le_iff_toInt_le.mpr hge))
    obtain ⟨hdist,hback⟩ := seekDistance_eq hdelta
    have hiff : base.toUInt64 < seekDistance delta ↔ base.toInt + delta.toInt < 0 := by
      rw [UInt64.lt_iff_toNat_lt]
      omega
    refine ⟨fun hneg => if_pos (hiff.mpr hneg),fun hbig => by omega,fun h0 hlt => ⟨?_,hsum h0 hlt⟩⟩
    rw [if_neg (fun hlt => absurd (hiff.mp hlt) (not_lt.mpr h0)),UInt64.toInt64_sub,hback,Int64.toInt64_toUInt64,
      Int64.sub_eq_add_neg,Int64.neg_neg]

end Seek

end FileHandler

end Rtfs
