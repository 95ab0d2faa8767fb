import Rtfs.Journal.Writer

namespace Rtfs

inductive JournalRecord
  | super (es : List SuperBlockJournalEntry)
  | nats (es : List NatJournalEntry)
  | sits (es : List SitJournalEntry)

namespace JournalRecord

def type : JournalRecord → JournalType
  | super _ => .superBlock
  | nats _ => .nats
  | sits _ => .sits

def payload : JournalRecord → List UInt8
  | super es => superEntryCodec.encodeList es
  | nats es => natJournalCodec.encodeList es
  | sits es => sitJournalCodec.encodeList es

def len (r : JournalRecord) : Nat := 4 + r.payload.length

def header (r : JournalRecord) : MetaJournalEntry := ⟨UInt16.ofNat r.len,r.type.code⟩

def bytes (r : JournalRecord) : List UInt8 := metaJournalEntryCodec.encode r.header ++ r.payload

theorem length_bytes (r : JournalRecord) : r.bytes.length = r.len := by
  simp only [bytes,List.length_append,metaJournalEntryCodec.length_encode,len]
  rfl

end JournalRecord

def recordsBytes (rs : List JournalRecord) : List UInt8 := rs.flatMap JournalRecord.bytes

def recordsLen (rs : List JournalRecord) : Nat := (recordsBytes rs).length

@[simp] theorem recordsLen_nil : recordsLen [] = 0 := rfl

theorem recordsLen_append (rs qs : List JournalRecord) :
    recordsLen (rs ++ qs) = recordsLen rs + recordsLen qs := by
  simp [recordsLen,recordsBytes]

theorem recordsLen_cons (r : JournalRecord) (rs : List JournalRecord) :
    recordsLen (r :: rs) = r.len + recordsLen rs := by
  simp [recordsLen,recordsBytes,JournalRecord.length_bytes]

def Tiles (b : Block) (rs : List JournalRecord) : Prop :=
  recordsLen rs ≤ 4096 ∧ b.read 0 (recordsLen rs) = recordsBytes rs

def nopHeader (gap : Nat) : MetaJournalEntry := ⟨UInt16.ofNat gap,JournalType.nop.code⟩

def endHeader : MetaJournalEntry := ⟨4,JournalType.fin.code⟩

structure FullBlock (b : Block) (rs : List JournalRecord) : Prop where
  tiles : Tiles b rs
  padded : recordsLen rs = 4096 ∨
    recordsLen rs + 4 ≤ 4096 ∧ headerAt b (recordsLen rs) = nopHeader (4096 - recordsLen rs)

structure LastBlock (b : Block) (rs : List JournalRecord) : Prop where
  tiles : Tiles b rs
  room : recordsLen rs + 4 ≤ 4096
  ended : headerAt b (recordsLen rs) = endHeader

structure Tx where
  full : List (List JournalRecord)
  last : List JournalRecord

def Tx.blockNum (tx : Tx) : Nat := 1 + tx.full.length

def Tx.records (tx : Tx) : List JournalRecord := tx.full.flatten ++ tx.last

structure TxImage (blocks : Nat → Block) (tx : Tx) : Prop where
  full : ∀ i rs, tx.full[i]? = some rs → FullBlock (blocks i) rs
  last : LastBlock (blocks tx.full.length) tx.last

theorem TxImage.congr {f g : Nat → Block} {tx : Tx} (h : TxImage f tx)
    (he : ∀ i < tx.blockNum, g i = f i) : TxImage g tx := by
  have hb : tx.full.length < tx.blockNum := by
    unfold Tx.blockNum
    omega
  constructor
  · intro i rs hi
    rw [he i (lt_trans (List.getElem?_eq_some_iff.mp hi).1 hb)]
    exact h.full i rs hi
  · rw [he _ hb]
    exact h.last

def txBlocks (txs : List Tx) : Nat := (txs.map Tx.blockNum).sum

def Tiled (f : Nat → Block) : Nat → List Tx → Prop
  | _, [] => True
  | o, tx :: txs => TxImage (fun i => f (o + i)) tx ∧ Tiled f (o + tx.blockNum) txs

@[simp] theorem txBlocks_nil : txBlocks [] = 0 := rfl

@[simp] theorem txBlocks_cons (tx : Tx) (txs : List Tx) :
    txBlocks (tx :: txs) = tx.blockNum + txBlocks txs := rfl

theorem Tx.blockNum_pos (tx : Tx) : 0 < tx.blockNum := by
  unfold Tx.blockNum
  omega

theorem Tiled.congr {f g : Nat → Block} {o : Nat} {txs : List Tx} (h : Tiled f o txs)
    (he : ∀ i < txBlocks txs, g (o + i) = f (o + i)) : Tiled g o txs := by
  induction txs generalizing o with
  | nil => trivial
  | cons tx txs ih =>
    rw [txBlocks_cons] at he
    refine ⟨h.1.congr (fun i hi => he i (by omega)),ih h.2 (fun i hi => ?_)⟩
    rw [Nat.add_assoc]
    exact he _ (by omega)

structure EntryKind (α : Type) where
  type : JournalType
  codec : Codec α
  record : List α → JournalRecord
  type_record : ∀ es, (record es).type = type
  payload_record : ∀ es, (record es).payload = codec.encodeList es
  size_pos : 0 < codec.size
  size_le : codec.size ≤ 4088
  size_dvd : 4 ∣ codec.size

def superKind : EntryKind SuperBlockJournalEntry :=
  ⟨.superBlock,superEntryCodec,.super,fun _ => rfl,fun _ => rfl,by decide,by decide,by decide⟩

def natKind : EntryKind NatJournalEntry :=
  ⟨.nats,natJournalCodec,.nats,fun _ => rfl,fun _ => rfl,by decide,by decide,by decide⟩

def sitKind : EntryKind SitJournalEntry :=
  ⟨.sits,sitJournalCodec,.sits,fun _ => rfl,fun _ => rfl,by decide,by decide,by decide⟩

structure Framed (w : JournalWriter) (full : List (List JournalRecord))
    (cur : List JournalRecord) : Prop where
  idx : w.bufferTailIdx = full.length
  off : w.bufferTailOff = recordsLen cur
  done : ∀ i rs, full[i]? = some rs → FullBlock (w.journalBuffer i) rs
  tail : Tiles (w.journalBuffer w.bufferTailIdx) cur
  room : w.bufferTailOff < 4096
  aligned : 4 ∣ w.bufferTailOff

theorem writable_spec (bufferSize entrySize n : Nat) (he : 0 < entrySize) :
    genericCalculateWritableEntryNum bufferSize entrySize n ≤ n ∧
    (genericCalculateWritableEntryNum bufferSize entrySize n ≠ 0 →
      4 + genericCalculateWritableEntryNum bufferSize entrySize n * entrySize ≤ bufferSize) := by
  induction n using genericCalculateWritableEntryNum.induct bufferSize entrySize with
  | case1 n h1 h2 =>
    rw [genericCalculateWritableEntryNum,if_pos h1,if_pos h2]
    exact ⟨le_rfl,fun _ => le_of_lt h1⟩
  | case2 n h1 h2 h3 =>
    rw [genericCalculateWritableEntryNum,if_pos h1,if_neg h2,if_pos h3]
    have hm : (bufferSize - 2 * 4) / entrySize * entrySize ≤ bufferSize - 2 * 4 :=
      Nat.div_mul_le_self _ _
    constructor
    · apply Nat.le_of_lt_succ
      apply Nat.div_lt_of_lt_mul
      have hs : entrySize * n.succ = n * entrySize + entrySize := by
        rw [Nat.mul_succ,Nat.mul_comm]
      omega
    · intro _
      omega
  | case3 n h1 h2 h3 =>
    rw [genericCalculateWritableEntryNum,if_pos h1,if_neg h2,if_neg h3]
    exact ⟨Nat.zero_le _,fun h => absurd rfl h⟩
  | case4 n h1 h2 =>
    rw [genericCalculateWritableEntryNum,if_neg h1,if_pos h2]
    exact ⟨le_rfl,fun _ => le_of_eq h2⟩
  | case5 n h1 h2 h3 =>
    rw [genericCalculateWritableEntryNum,if_neg h1,if_neg h2,if_pos h3]
    exact ⟨Nat.zero_le _,fun h => absurd rfl h⟩
  | case6 n h1 h2 h3 ih =>
    rw [genericCalculateWritableEntryNum,if_neg h1,if_neg h2,if_neg h3]
    obtain ⟨hle,hfit⟩ := ih
    refine ⟨le_trans hle (le_of_lt ?_),hfit⟩
    apply Nat.div_lt_of_lt_mul
    rw [Nat.mul_comm]
    omega

theorem writable_pos (entrySize n : Nat) (he : 0 < entrySize) (hle : entrySize ≤ 4088)
    (hn : 0 < n) : genericCalculateWritableEntryNum 4096 entrySize n ≠ 0 := by
  induction n using genericCalculateWritableEntryNum.induct 4096 entrySize with
  | case1 n h1 h2 =>
    rw [genericCalculateWritableEntryNum,if_pos h1,if_pos h2]
    exact Nat.pos_iff_ne_zero.mp hn
  | case2 n h1 h2 h3 =>
    rw [genericCalculateWritableEntryNum,if_pos h1,if_neg h2,if_pos h3]
    exact Nat.pos_iff_ne_zero.mp (Nat.div_pos (by omega) he)
  | case3 n h1 h2 h3 => exact absurd (by decide) h3
  | case4 n h1 h2 =>
    rw [genericCalculateWritableEntryNum,if_neg h1,if_pos h2]
    exact Nat.pos_iff_ne_zero.mp hn
  | case5 n h1 h2 h3 => exact absurd h3 (by decide)
  | case6 n h1 h2 h3 ih =>
    rw [genericCalculateWritableEntryNum,if_neg h1,if_neg h2,if_neg h3]
    exact ih (Nat.div_pos (by omega) he)

theorem writable_all {bufferSize entrySize n : Nat} (h : 4 + n * entrySize + 4 ≤ bufferSize) :
    genericCalculateWritableEntryNum bufferSize entrySize n = n := by
  rw [genericCalculateWritableEntryNum,if_pos (by omega),if_pos (by omega)]

theorem headerAt_setAs (b : Block) (off : Nat) (h : MetaJournalEntry) (hr : off + 4 ≤ 4096) :
    headerAt (Buf.setAs metaJournalEntryCodec b off h) off = h :=
  Buf.getAs_setAs_self metaJournalEntryCodec b off h hr

theorem tiles_setAs {b : Block} {rs : List JournalRecord} (h : Tiles b rs) (off : Nat)
    (e : MetaJournalEntry) (ho : recordsLen rs ≤ off) :
    Tiles (Buf.setAs metaJournalEntryCodec b off e) rs := by
  refine ⟨h.1,?_⟩
  rw [Buf.setAs,Buf.read_write_disjoint b off _ 0 (recordsLen rs) (Or.inl (by omega))]
  exact h.2

theorem tiles_snoc {b : Block} {rs : List JournalRecord} (h : Tiles b rs) (r : JournalRecord)
    (hr : recordsLen rs + r.len ≤ 4096) :
    Tiles ((Buf.setAs metaJournalEntryCodec b (recordsLen rs) r.header).write
      (recordsLen rs + 4) r.payload) (rs ++ [r]) := by
  have hl : recordsLen (rs ++ [r]) = recordsLen rs + (4 + r.payload.length) := by
    rw [recordsLen_append,recordsLen_cons,recordsLen_nil,Nat.add_zero]
    rfl
  have hr' : recordsLen rs + (4 + r.payload.length) ≤ 4096 := hr
  refine ⟨hl ▸ hr',?_⟩
  rw [hl,Buf.read_add,Buf.read_add,Nat.zero_add]
  have hold : ((Buf.setAs metaJournalEntryCodec b (recordsLen rs) r.header).write
      (recordsLen rs + 4) r.payload).read 0 (recordsLen rs) = recordsBytes rs := by
    rw [Buf.read_write_disjoint _ _ _ _ _ (Or.inl (by omega))]
    exact (tiles_setAs h _ _ le_rfl).2
  have hhead : ((Buf.setAs metaJournalEntryCodec b (recordsLen rs) r.header).write
      (recordsLen rs + 4) r.payload).read (recordsLen rs) 4 =
      metaJournalEntryCodec.encode r.header := by
    rw [Buf.read_write_disjoint _ _ _ _ _ (Or.inl le_rfl)]
    exact Buf.read_write_self b _ (metaJournalEntryCodec.encode r.header)
      (by rw [metaJournalEntryCodec.length_encode]; exact le_trans (by change _ + 4 ≤ _; omega) hr')
  rw [hold,hhead,Buf.read_write_self _ _ _ (by omega)]
  simp [recordsBytes,JournalRecord.bytes]

theorem tiles_update_ne {w : Nat → Block} {i j : Nat} {b : Block} {rs : List JournalRecord}
    (hij : i ≠ j) (h : FullBlock (w i) rs) : FullBlock (Function.update w j b i) rs := by
  rwa [Function.update_of_ne hij]

section Loop
variable {α : Type} (k : EntryKind α)

theorem record_len (es : List α) : (k.record es).len = 4 + es.length * k.codec.size := by
  rw [JournalRecord.len,k.payload_record,Codec.length_encodeList]

theorem record_header (es : List α) :
    (k.record es).header = recordHeader k.type k.codec es.length := by
  rw [JournalRecord.header,record_len,k.type_record,recordHeader]

theorem framed_next {w : JournalWriter} {full : List (List JournalRecord)}
    {cur rs : List JournalRecord} (h : Framed w full cur) (b : Block) (hb : FullBlock b rs) :
    Framed (w.setIthBufferBlock b 4096).nextBlockIfFull (full ++ [rs]) [] := by
  have hfull : 4096 = (w.setIthBufferBlock b 4096).bufferTailOff := rfl
  rw [JournalWriter.nextBlockIfFull,if_pos hfull]
  refine ⟨?_,rfl,?_,⟨Nat.zero_le _,rfl⟩,Nat.zero_lt_succ _,Nat.dvd_zero 4⟩
  · simp [JournalWriter.setIthBufferBlock,h.idx]
  · intro i qs hq
    change FullBlock (Function.update w.journalBuffer w.bufferTailIdx b i) qs
    rw [h.idx]
    rcases Nat.lt_trichotomy i full.length with hi | hi | hi
    · rw [List.getElem?_append_left hi] at hq
      exact tiles_update_ne (Nat.ne_of_lt hi) (h.done i qs hq)
    · subst hi
      rw [List.getElem?_append_right le_rfl,Nat.sub_self] at hq
      obtain rfl : rs = qs := by simpa using hq
      rwa [Function.update_self]
    · rw [List.getElem?_eq_none (by simpa using hi)] at hq
      cases hq

theorem framed_ok {w : JournalWriter} {full : List (List JournalRecord)}
    {cur : List JournalRecord} (h : Framed w full cur) (es : List α) (b : Block)
    (hb : Tiles b (cur ++ [k.record es])) :
    ∃ full' cur', Framed (w.setIthBufferBlock b
        (w.bufferTailOff + 4 + es.length * k.codec.size)).nextBlockIfFull full' cur' ∧
      full'.flatten ++ cur' = full.flatten ++ cur ++ [k.record es] := by
  have hlen : recordsLen (cur ++ [k.record es]) =
      w.bufferTailOff + 4 + es.length * k.codec.size := by
    rw [recordsLen_append,recordsLen_cons,recordsLen_nil,record_len,h.off]
    omega
  rcases Nat.lt_or_eq_of_le hb.1 with hlt | heq
  · refine ⟨full,cur ++ [k.record es],?_,by simp⟩
    rw [JournalWriter.nextBlockIfFull,if_neg]
    · refine ⟨h.idx,hlen.symm,?_,?_,?_,?_⟩
      · intro i qs hq
        have hi : i < full.length := (List.getElem?_eq_some_iff.mp hq).1
        exact tiles_update_ne (by rw [h.idx]; exact Nat.ne_of_lt hi) (h.done i qs hq)
      · change Tiles (Function.update w.journalBuffer w.bufferTailIdx b w.bufferTailIdx) _
        rwa [Function.update_self]
      · change w.bufferTailOff + 4 + es.length * k.codec.size < 4096
        rwa [← hlen]
      · change 4 ∣ w.bufferTailOff + 4 + es.length * k.codec.size
        exact Nat.dvd_add (Nat.dvd_add h.aligned (Nat.dvd_refl 4))
          (Dvd.dvd.mul_left k.size_dvd es.length)
    · change ¬ 4096 = w.bufferTailOff + 4 + es.length * k.codec.size
      omega
  · refine ⟨full ++ [cur ++ [k.record es]],[],?_,by simp⟩
    rw [← hlen,heq]
    exact framed_next h b ⟨hb,Or.inl heq⟩

theorem framed_nop {w : JournalWriter} {full : List (List JournalRecord)}
    {cur : List JournalRecord} (h : Framed w full cur) :
    ∃ b, fillBufferWithNop (w.journalBuffer w.bufferTailIdx) w.bufferTailOff = some b ∧
      Framed (w.setIthBufferBlock b 4096).nextBlockIfFull (full ++ [cur]) [] := by
  have hroom : w.bufferTailOff + 4 ≤ 4096 := by
    have h1 := h.room
    obtain ⟨m,hm⟩ := h.aligned
    omega
  rw [fillBufferWithNop,if_neg (by omega)]
  refine ⟨_,rfl,framed_next h _ ⟨tiles_setAs h.tail _ _ (le_of_eq h.off.symm),Or.inr ?_⟩⟩
  rw [← h.off]
  exact ⟨hroom,headerAt_setAs _ _ _ hroom⟩

theorem writeEntries_spec (fuel : Nat) (w : JournalWriter) (rest : List α)
    (full : List (List JournalRecord)) (cur : List JournalRecord) (h : Framed w full cur)
    (hf : 2 * rest.length + (if w.bufferTailOff = 0 then 0 else 1) < fuel) :
    ∃ w' full' cur', ∃ chunks : List (List α), writeEntries k.type k.codec fuel w rest = some w' ∧
      Framed w' full' cur' ∧ chunks.flatten = rest ∧
      full'.flatten ++ cur' = full.flatten ++ cur ++ chunks.map k.record := by
  induction fuel generalizing w rest full cur with
  | zero => exact absurd hf (Nat.not_lt_zero _)
  | succ fuel ih =>
    rw [writeEntries,outputToBuffer]
    by_cases hn : rest.length = 0
    · rw [if_pos hn]
      refine ⟨w.nextBlockIfFull,full,cur,[],rfl,?_,?_,by simp⟩
      · rwa [JournalWriter.nextBlockIfFull,if_neg (Nat.ne_of_gt h.room)]
      · exact (List.length_eq_zero_iff.mp hn).symm
    · rw [if_neg hn]
      obtain ⟨hle,hfit⟩ := writable_spec (4096 - w.bufferTailOff) k.codec.size rest.length k.size_pos
      by_cases hz : genericCalculateWritableEntryNum (4096 - w.bufferTailOff) k.codec.size
          rest.length = 0
      · have hoff : w.bufferTailOff ≠ 0 := by
          intro ho
          rw [ho] at hz
          exact writable_pos _ _ k.size_pos k.size_le (Nat.pos_of_ne_zero hn) hz
        obtain ⟨b,hb,hnext⟩ := framed_nop h
        simp only [hz,if_true,hb,Option.bind_some]
        rw [if_neg hoff] at hf
        have hzero : (w.setIthBufferBlock b 4096).nextBlockIfFull.bufferTailOff = 0 := by
          rw [hnext.off,recordsLen_nil]
        obtain ⟨w',full',cur',chunks,h1,h2,h3,h4⟩ := ih _ rest _ _ hnext (by
          rw [hzero,if_pos rfl]
          omega)
        exact ⟨w',full',cur',chunks,h1,h2,h3,by simpa using h4⟩
      · simp only [hz,if_false]
        generalize hm : genericCalculateWritableEntryNum (4096 - w.bufferTailOff) k.codec.size
          rest.length = m at *
        have htake : (rest.take m).length = m := by
          rw [List.length_take]
          exact min_eq_left hle
        have hb := tiles_snoc h.tail (k.record (rest.take m)) (by
          rw [record_len,htake,← h.off]
          have h1 := hfit hz
          have h2 := h.room
          omega)
        rw [record_header,k.payload_record,htake,← h.off] at hb
        obtain ⟨full₁,cur₁,hf₁,hr₁⟩ := framed_ok k h (rest.take m) _ hb
        rw [htake] at hf₁
        have hdrop : (rest.drop m).length = rest.length - m := List.length_drop
        obtain ⟨w',full',cur',chunks,h1,h2,h3,h4⟩ := ih _ (rest.drop m) _ _ hf₁ (by
          rw [hdrop]
          split <;> omega)
        refine ⟨w',full',cur',rest.take m :: chunks,h1,h2,?_,?_⟩
        · rw [List.flatten_cons,h3,List.take_append_drop]
        · rw [h4,hr₁]
          simp

def JournalWriter.SameArea (w w' : JournalWriter) : Prop :=
  w'.startLpa = w.startLpa ∧ w'.endLpa = w.endLpa

theorem nextBlockIfFull_sameArea (w : JournalWriter) (b : Block) (off : Nat) :
    w.SameArea (w.setIthBufferBlock b off).nextBlockIfFull := by
  unfold JournalWriter.nextBlockIfFull
  split <;> exact ⟨rfl,rfl⟩

theorem writeEntries_sameArea (ty : JournalType) (c : Codec α) (fuel : Nat) (w w' : JournalWriter)
    (rest : List α) (h : writeEntries ty c fuel w rest = some w') : w.SameArea w' := by
  induction fuel generalizing w rest with
  | zero => cases h
  | succ fuel ih =>
    rw [writeEntries] at h
    split at h
    · obtain ⟨h1,h2⟩ := ih _ _ h
      obtain ⟨h3,h4⟩ := nextBlockIfFull_sameArea w _ _
      exact ⟨h1.trans h3,h2.trans h4⟩
    · obtain ⟨b,_,hb⟩ := Option.bind_eq_some_iff.mp h
      obtain ⟨h1,h2⟩ := ih _ _ hb
      obtain ⟨h3,h4⟩ := nextBlockIfFull_sameArea w b 4096
      exact ⟨h1.trans h3,h2.trans h4⟩
    · cases h
      unfold JournalWriter.nextBlockIfFull
      split <;> exact ⟨rfl,rfl⟩

theorem writeEntries_framed (w : JournalWriter) (es : List α) (full : List (List JournalRecord))
    (cur : List JournalRecord) (h : Framed w full cur) :
    ∃ w' full' cur', ∃ chunks : List (List α),
      writeEntries k.type k.codec (writeFuel es) w es = some w' ∧
      Framed w' full' cur' ∧ chunks.flatten = es ∧
      full'.flatten ++ cur' = full.flatten ++ cur ++ chunks.map k.record := by
  apply writeEntries_spec k (writeFuel es) w es full cur h
  unfold writeFuel
  split <;> omega

theorem writeEntries_small (w : JournalWriter) (es : List α)
    (h : w.bufferTailOff + (4 + es.length * k.codec.size) + 4 ≤ 4096) :
    ∃ w', writeEntries k.type k.codec (writeFuel es) w es = some w' ∧
      w'.bufferTailIdx = w.bufferTailIdx ∧
      w'.bufferTailOff ≤ w.bufferTailOff + (4 + es.length * k.codec.size) := by
  have hnext (v : JournalWriter) (hv : v.bufferTailOff + 4 ≤ 4096) : v.nextBlockIfFull = v := by
    rw [JournalWriter.nextBlockIfFull,if_neg (by omega)]
  rw [writeFuel,writeEntries,outputToBuffer]
  by_cases hn : es.length = 0
  · rw [if_pos hn]
    refine ⟨w,?_,rfl,by omega⟩
    simp only [hnext w (by omega)]
  · rw [if_neg hn,writable_all (by omega)]
    simp only [hn,if_false,List.drop_length]
    generalize hv : w.setIthBufferBlock _ _ = v
    have hoff : v.bufferTailOff = w.bufferTailOff + 4 + es.length * k.codec.size := by
      rw [← hv]
      rfl
    have hidx : v.bufferTailIdx = w.bufferTailIdx := by
      rw [← hv]
      rfl
    refine ⟨v,?_,hidx,by omega⟩
    rw [hnext v (by omega),writeEntries,outputToBuffer,if_pos List.length_nil]
    simp only
    rw [hnext v (by omega)]

end Loop

theorem collect_eq (kh : Khash) (w : JournalWriter) (j : JournalContainer) {w₁ w₂ w₃ : JournalWriter}
    (e₁ : writeSuperEntries { w with bufferTailIdx := 0,bufferTailOff := 0 }
      (superJournalOutputVector kh j.superBlockJournal) = some w₁)
    (e₂ : writeNatEntries w₁ (natJournalOutputVector j.natJournal) = some w₂)
    (e₃ : writeSitEntries w₂ (sitJournalOutputVector j.sitJournal) = some w₃) :
    journalWriterCollectPendingJournalToWriteBuffer kh w j =
      some (journalWriterAppendEndEntry w₃,1 + w₃.bufferTailIdx) := by
  unfold journalWriterCollectPendingJournalToWriteBuffer
  simp only [e₁,e₂,e₃,Option.bind_eq_bind,Option.bind_some]
  rfl

theorem collect_small (kh : Khash) (w : JournalWriter) (j : JournalContainer)
    (h : 16 + 8 * (superJournalOutputVector kh j.superBlockJournal).length +
      12 * (natJournalOutputVector j.natJournal).length +
      72 * (sitJournalOutputVector j.sitJournal).length ≤ 4096) :
    ∃ w', journalWriterCollectPendingJournalToWriteBuffer kh w j = some (w',1) := by
  obtain ⟨w₁,e₁,i₁,o₁⟩ := writeEntries_small superKind
    { w with bufferTailIdx := 0,bufferTailOff := 0 }
    (superJournalOutputVector kh j.superBlockJournal) (by
      change 0 + (4 + _ * 8) + 4 ≤ 4096
      omega)
  change _ ≤ 0 + (4 + _ * 8) at o₁
  obtain ⟨w₂,e₂,i₂,o₂⟩ := writeEntries_small natKind w₁ (natJournalOutputVector j.natJournal) (by
      change _ + (4 + _ * 12) + 4 ≤ 4096
      omega)
  change _ ≤ _ + (4 + _ * 12) at o₂
  obtain ⟨w₃,e₃,i₃,_⟩ := writeEntries_small sitKind w₂ (sitJournalOutputVector j.sitJournal) (by
      change _ + (4 + _ * 72) + 4 ≤ 4096
      omega)
  have hidx : w₃.bufferTailIdx = 0 := i₃.trans (i₂.trans i₁)
  refine ⟨journalWriterAppendEndEntry w₃,?_⟩
  rw [collect_eq kh w j e₁ e₂ e₃,hidx]

def Tx.Carries (tx : Tx) (ss : List SuperBlockJournalEntry) (ns : List NatJournalEntry)
    (cs : List SitJournalEntry) : Prop :=
  ∃ (sc : List (List SuperBlockJournalEntry)) (nc : List (List NatJournalEntry))
    (cc : List (List SitJournalEntry)),
    tx.records = sc.map .super ++ nc.map .nats ++ cc.map .sits ∧
    sc.flatten = ss ∧ nc.flatten = ns ∧ cc.flatten = cs

theorem appendEnd_image {w : JournalWriter} {full : List (List JournalRecord)}
    {cur : List JournalRecord} (h : Framed w full cur) :
    TxImage (journalWriterAppendEndEntry w).journalBuffer ⟨full,cur⟩ := by
  have hroom : w.bufferTailOff + 4 ≤ 4096 := by
    have h1 := h.room
    obtain ⟨m,hm⟩ := h.aligned
    omega
  constructor
  · intro i rs hi
    have hlt : i < full.length := (List.getElem?_eq_some_iff.mp hi).1
    exact tiles_update_ne (by rw [h.idx]; exact Nat.ne_of_lt hlt) (h.done i rs hi)
  · change LastBlock (Function.update w.journalBuffer w.bufferTailIdx _ full.length) cur
    rw [← h.idx,Function.update_self]
    refine ⟨tiles_setAs h.tail _ _ (le_of_eq h.off.symm),h.off ▸ hroom,?_⟩
    rw [← h.off]
    exact headerAt_setAs _ _ _ hroom

theorem collect_spec (kh : Khash) (w : JournalWriter) (j : JournalContainer) :
    ∃ w' tx, journalWriterCollectPendingJournalToWriteBuffer kh w j = some (w',tx.blockNum) ∧
      1 + w'.bufferTailIdx = tx.blockNum ∧ w.SameArea w' ∧ TxImage w'.journalBuffer tx ∧
      tx.Carries (superJournalOutputVector kh j.superBlockJournal)
        (natJournalOutputVector j.natJournal) (sitJournalOutputVector j.sitJournal) := by
  have h0 : Framed { w with bufferTailIdx := 0,bufferTailOff := 0 } [] [] :=
    ⟨rfl,rfl,fun i rs h => by simp at h,⟨Nat.zero_le _,rfl⟩,Nat.zero_lt_succ _,Nat.dvd_zero 4⟩
  obtain ⟨w₁,f₁,c₁,sc,e₁,h₁,hs,r₁⟩ := writeEntries_framed superKind _
    (superJournalOutputVector kh j.superBlockJournal) [] [] h0
  obtain ⟨w₂,f₂,c₂,nc,e₂,h₂,hn,r₂⟩ := writeEntries_framed natKind w₁
    (natJournalOutputVector j.natJournal) f₁ c₁ h₁
  obtain ⟨w₃,f₃,c₃,cc,e₃,h₃,hc,r₃⟩ := writeEntries_framed sitKind w₂
    (sitJournalOutputVector j.sitJournal) f₂ c₂ h₂
  have hidx : (journalWriterAppendEndEntry w₃).bufferTailIdx = f₃.length := h₃.idx
  have ha₁ := writeEntries_sameArea _ _ _ _ _ _ e₁
  have ha₂ := writeEntries_sameArea _ _ _ _ _ _ e₂
  have ha₃ := writeEntries_sameArea _ _ _ _ _ _ e₃
  refine ⟨journalWriterAppendEndEntry w₃,⟨f₃,c₃⟩,?_,?_,?_,appendEnd_image h₃,?_⟩
  · rw [collect_eq kh w j e₁ e₂ e₃,h₃.idx]
    rfl
  · rw [hidx]
    rfl
  · exact ⟨ha₃.1.trans (ha₂.1.trans ha₁.1),ha₃.2.trans (ha₂.2.trans ha₁.2)⟩
  · refine ⟨sc,nc,cc,?_,hs,hn,hc⟩
    change f₃.flatten ++ c₃ = _
    rw [r₃,r₂,r₁]
    rfl

end Rtfs
