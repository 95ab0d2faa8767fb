import Rtfs.Fs.Types

namespace Rtfs

inductive JournalType
  | nats
  | sits
  | superBlock
  | nop
  | fin
  deriving DecidableEq, Repr

def JournalType.code : JournalType → UInt8
  | .nats => 0
  | .sits => 1
  | .superBlock => 2
  | .nop => 0x7e
  | .fin => 0x7f

def JournalType.ofCode (c : UInt8) : Option JournalType :=
  if c = 0 then some .nats
  else if c = 1 then some .sits
  else if c = 2 then some .superBlock
  else if c = 0x7e then some .nop
  else if c = 0x7f then some .fin
  else none

@[simp] theorem JournalType.ofCode_code (ty : JournalType) : ofCode ty.code = some ty := by
  cases ty <;> rfl

structure MetaJournalEntry where
  len : UInt16
  type : UInt8

def metaJournalEntryCodec : Codec MetaJournalEntry where
  size := 4
  encode := fun e => Codec.u16Bytes e.len ++ [e.type,0]
  decode := fun bs => ⟨Codec.u16OfBytes bs,bs.getD 2 0⟩
  length_encode := fun _ => rfl
  decode_encode := fun e => by
    obtain ⟨len,ty⟩ := e
    have h := Codec.u16_decode_encode len
    simp only [Codec.u16OfBytes,Codec.u16Bytes,List.cons_append,List.nil_append,
      List.getD_cons_zero,List.getD_cons_succ,MetaJournalEntry.mk.injEq,and_true] at h ⊢
    exact h

def headerAt (b : Block) (off : Nat) : MetaJournalEntry := Buf.getAs metaJournalEntryCodec b off

structure SuperBlockJournalEntry where
  off : UInt32
  newVal : UInt32
  deriving DecidableEq

structure NatJournalEntry where
  nid : UInt32
  newValue : RtfsNatEntry
  deriving DecidableEq

structure SitJournalEntry where
  segID : UInt32
  newValue : RtfsSitEntry
  deriving DecidableEq

def superEntryCodec : Codec SuperBlockJournalEntry :=
  (Codec.u32.pair Codec.u32).iso (fun p => ⟨p.1,p.2⟩) (fun e => (e.off,e.newVal)) (fun _ => rfl)

def natJournalCodec : Codec NatJournalEntry :=
  (Codec.u32.pair natEntryCodec).iso (fun p => ⟨p.1,p.2⟩) (fun e => (e.nid,e.newValue))
    (fun _ => rfl)

def sitJournalCodec : Codec SitJournalEntry :=
  (Codec.u32.pair sitEntryCodec).iso (fun p => ⟨p.1,p.2⟩) (fun e => (e.segID,e.newValue))
    (fun _ => rfl)

@[simp] theorem superEntryCodec_size : superEntryCodec.size = 8 := rfl
@[simp] theorem natJournalCodec_size : natJournalCodec.size = 12 := rfl
@[simp] theorem sitJournalCodec_size : sitJournalCodec.size = 72 := rfl

structure JournalContainer where
  superBlockJournal : List SuperBlockJournalEntry
  natJournal : List NatJournalEntry
  sitJournal : List SitJournalEntry
  txId : Nat

namespace JournalContainer

def init : JournalContainer := ⟨[],[],[],0⟩

def appendSuperBlockJournalEntry (j : JournalContainer) (e : SuperBlockJournalEntry) :
    JournalContainer :=
  { j with superBlockJournal := j.superBlockJournal ++ [e] }

def appendNatJournalEntry (j : JournalContainer) (e : NatJournalEntry) : JournalContainer :=
  { j with natJournal := j.natJournal ++ [e] }

def appendSitJournalEntry (j : JournalContainer) (e : SitJournalEntry) : JournalContainer :=
  { j with sitJournal := j.sitJournal ++ [e] }

def isEmpty (j : JournalContainer) : Bool :=
  j.superBlockJournal.isEmpty && j.natJournal.isEmpty && j.sitJournal.isEmpty

end JournalContainer

end Rtfs
