import Rtfs.Lib.ByteFile

inductive AccessMode
  | rdonly
  | wronly
  | rdwr
  deriving DecidableEq

inductive Whence
  | set
  | cur
  | fromEnd

-- current: the bytes that the calls see; saved: those that the next open finds
structure OpenFile where
  current : ByteFile
  saved : ByteFile
  access : AccessMode
  append : Bool
  offset : Nat
  syncFailed : Bool

namespace OpenFile

def start (f : OpenFile) : Nat := if f.append then f.current.size else f.offset

def base (f : OpenFile) : Whence → Nat
  | .set => 0
  | .cur => f.offset
  | .fromEnd => f.current.size

def opened (F : ByteFile) (access : AccessMode) (append : Bool) : OpenFile :=
  ⟨F,F,access,append,if append then F.size else 0,false⟩

inductive Event
  | read (count : Nat) (served : Bool) (r : Option (List UInt8))
  | readDenied
  | write (bs : List UInt8) (served : Bool) (r : Option Nat)
  | changeDenied
  | seek (whence : Whence) (delta : Int) (r : Option Nat)
  | truncate (n : Nat)
  | sync (ok : Bool)
  | reopen (ok : Bool) (access : AccessMode) (append : Bool) (trunc : Bool)
  | keep

def truncated (trunc : Bool) (F : ByteFile) : ByteFile := if trunc then .empty else F

-- blocks of k bytes; offsets are below limit
inductive Step (k limit : Nat) (f : OpenFile) : Event → OpenFile → Prop
  | read {count : Nat} {served : Bool} {bytes : List UInt8} (ha : f.access ≠ .wronly)
      (hp : bytes <+: f.current.read f.offset count)
      (hs : served = true → bytes = f.current.read f.offset count) :
      Step k limit f (.read count served (some bytes)) { f with offset := f.offset + bytes.length }
  | readFailed {count : Nat} (ha : f.access ≠ .wronly) : Step k limit f (.read count false none) f
  | readDenied (ha : f.access = .wronly) : Step k limit f .readDenied f
  | write {bs : List UInt8} {served : Bool} {n : Nat} (ha : f.access ≠ .rdonly) (hn : n ≤ bs.length)
      (hs : served = true → n = bs.length) :
      Step k limit f (.write bs served (some n))
        { f with current := f.current.write f.start (bs.take n), offset := f.start + n }
  | writeFailed {bs : List UInt8} (ha : f.access ≠ .rdonly) : Step k limit f (.write bs false none) f
  | changeDenied (ha : f.access = .rdonly) : Step k limit f .changeDenied f
  | seek {whence : Whence} {delta : Int} {n : Nat} (hn : (f.base whence : Int) + delta = n) (hlt : n < limit) :
      Step k limit f (.seek whence delta (some n)) { f with offset := n }
  | seekRefused {whence : Whence} {delta : Int}
      (h : (f.base whence : Int) + delta < 0 ∨ limit ≤ (f.base whence : Int) + delta) :
      Step k limit f (.seek whence delta none) f
  | truncate {n : Nat} (ha : f.access ≠ .rdonly) : Step k limit f (.truncate n)
      { f with current := f.current.resize n, saved := f.saved.zeroFrom (k * ((n + k - 1) / k)) }
  | synced : Step k limit f (.sync true) { f with saved := f.current, syncFailed := false }
  | syncFailed : Step k limit f (.sync false) { f with syncFailed := true }
  | syncLost : Step k limit f (.sync false) { f with saved := f.current, syncFailed := true }
  | closed {access : AccessMode} {append trunc : Bool} (h : f.syncFailed = false)
      (ht : trunc = true → access ≠ .rdonly) :
      Step k limit f (.reopen true access append trunc) (opened (truncated trunc f.current) access append)
  | closeFailed {access : AccessMode} {append trunc : Bool} (h : f.syncFailed = false)
      (ht : trunc = true → access ≠ .rdonly) :
      Step k limit f (.reopen false access append trunc) (opened (truncated trunc f.saved) access append)
  | closeLost {access : AccessMode} {append trunc : Bool} (h : f.syncFailed = false)
      (ht : trunc = true → access ≠ .rdonly) :
      Step k limit f (.reopen false access append trunc) (opened (truncated trunc f.current) access append)
  | dropped {access : AccessMode} {append trunc : Bool} (h : f.syncFailed = true)
      (ht : trunc = true → access ≠ .rdonly) :
      Step k limit f (.reopen true access append trunc) (opened (truncated trunc f.saved) access append)
  | keep : Step k limit f .keep f

end OpenFile
