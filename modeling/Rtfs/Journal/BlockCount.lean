import Rtfs.Journal.History

namespace Rtfs

def nextBlockPos (idx off : Nat) : Nat × Nat := if off = 4096 then (idx + 1,0) else (idx,off)

-- where the writer stands after n more entries of one size: they fill the room left in the
-- current block, then whole blocks
def packEntries (size : Nat) (pos : Nat × Nat) (n : Nat) : Nat × Nat :=
  let room := (4092 - pos.2) / size
  let perBlock := 4092 / size
  if n = 0 then pos
  else if n ≤ room then nextBlockPos pos.1 (pos.2 + 4 + n * size)
  else
    let full := (n - room - 1) / perBlock
    nextBlockPos (pos.1 + 1 + full) (4 + (n - room - full * perBlock) * size)

def containerBlockNum (superNum natNum sitNum : Nat) : Nat :=
  1 + (packEntries 72 (packEntries 12 (packEntries 8 (0,0) superNum) natNum) sitNum).1

section Writable

theorem writable_aligned {buf size n : Nat} (hb : 4 ∣ buf) (hs : 4 ∣ size) (hpos : 0 < size)
    (hbuf : 4 ≤ buf) : genericCalculateWritableEntryNum buf size n = min n ((buf - 4) / size) := by
  have hfit (m : Nat) (hm : 4 + m * size ≤ buf) :
      genericCalculateWritableEntryNum buf size m = m := by
    obtain ⟨c,hc⟩ := Dvd.dvd.mul_left hs m
    obtain ⟨b,hb⟩ := hb
    rw [genericCalculateWritableEntryNum]
    split_ifs <;> first | rfl | omega
  by_cases hle : 4 + n * size ≤ buf
  · rw [hfit n hle,min_eq_left]
    exact (Nat.le_div_iff_mul_le hpos).mpr (by omega)
  · have hdiv : (buf - 4) / size * size ≤ buf - 4 := Nat.div_mul_le_self _ _
    rw [genericCalculateWritableEntryNum,if_neg (by omega),if_neg (by omega),if_neg (by omega),
      hfit _ (by omega),min_eq_right]
    apply Nat.le_of_lt
    exact Nat.div_lt_of_lt_mul (by rw [Nat.mul_comm]; omega)

end Writable

section Pack
variable {size : Nat}

theorem packEntries_zero (pos : Nat × Nat) : packEntries size pos 0 = pos := by
  rw [packEntries,if_pos rfl]

theorem packEntries_fit {idx off n : Nat} (hn : n ≠ 0) (hle : n ≤ (4092 - off) / size) :
    packEntries size (idx,off) n = nextBlockPos idx (off + 4 + n * size) := by
  simp only [packEntries]
  rw [if_neg hn,if_pos hle]

theorem packEntries_over (idx : Nat) {off n : Nat} (hs : 0 < size) (hle : size ≤ 4092)
    (hn : (4092 - off) / size < n) :
    packEntries size (idx,off) n = packEntries size (idx + 1,0) (n - (4092 - off) / size) := by
  have hper : 0 < 4092 / size := Nat.div_pos hle hs
  have hn0 : n ≠ 0 := Nat.ne_zero_of_lt hn
  have hm0 : n - (4092 - off) / size ≠ 0 := Nat.sub_ne_zero_of_lt hn
  simp only [packEntries,Nat.sub_zero]
  rw [if_neg hn0,if_neg (Nat.not_le.mpr hn),if_neg hm0]
  generalize n - (4092 - off) / size = m at *
  generalize 4092 / size = per at *
  by_cases hfit : m ≤ per
  · rw [if_pos hfit,Nat.div_eq_of_lt (by omega),Nat.zero_mul,Nat.sub_zero,Nat.add_zero,Nat.zero_add]
  · have hq : (m - 1) / per = (m - per - 1) / per + 1 := by
      rw [← Nat.add_div_right _ hper]
      congr 1
      omega
    rw [if_neg hfit,hq,Nat.add_mul,Nat.one_mul]
    generalize (m - per - 1) / per = q
    have hsub : m - (q * per + per) = m - per - q * per := by omega
    rw [hsub,Nat.add_assoc (idx + 1),Nat.add_comm q 1]

end Pack

section Loop
variable {α : Type} (k : EntryKind α)

def JournalWriter.pos (w : JournalWriter) : Nat × Nat := (w.bufferTailIdx,w.bufferTailOff)

theorem placed_pos (w : JournalWriter) (b : Block) (off : Nat) :
    (w.setIthBufferBlock b off).nextBlockIfFull.pos = nextBlockPos w.bufferTailIdx off := by
  unfold JournalWriter.nextBlockIfFull JournalWriter.setIthBufferBlock nextBlockPos JournalWriter.pos
  by_cases h : off = 4096
  · rw [if_pos h.symm,if_pos h]
  · rw [if_neg (Ne.symm h),if_neg h]

theorem nextBlockPos_aligned (idx : Nat) {off : Nat} (hle : off ≤ 4096) (hal : 4 ∣ off) :
    (nextBlockPos idx off).2 < 4096 ∧ 4 ∣ (nextBlockPos idx off).2 := by
  unfold nextBlockPos
  by_cases h : off = 4096
  · rw [if_pos h]
    exact ⟨Nat.zero_lt_succ _,Nat.dvd_zero 4⟩
  · rw [if_neg h]
    exact ⟨Nat.lt_of_le_of_ne hle h,hal⟩

theorem packEntries_filled {size idx off n : Nat} (hs : 0 < size) (hle : size ≤ 4088) (hoff : off + 4 ≤ 4096)
    (hn : (4092 - off) / size < n) :
    packEntries size (nextBlockPos idx (off + 4 + (4092 - off) / size * size)) (n - (4092 - off) / size) =
      packEntries size (idx,off) n := by
  rw [packEntries_over idx hs (by omega) hn]
  have hdiv := Nat.div_add_mod (4092 - off) size
  have hmod := Nat.mod_lt (4092 - off) hs
  rw [Nat.mul_comm] at hdiv
  have hpos := Nat.sub_pos_of_lt hn
  generalize (4092 - off) / size = room at *
  unfold nextBlockPos
  by_cases hf : off + 4 + room * size = 4096
  · rw [if_pos hf]
  · have hno : (4092 - (off + 4 + room * size)) / size = 0 := Nat.div_eq_of_lt (by omega)
    rw [if_neg hf,packEntries_over idx hs (by omega) (by omega),hno,Nat.sub_zero]

theorem writeEntries_pos (fuel : Nat) (w w' : JournalWriter) (rest : List α)
    (hoff : w.bufferTailOff < 4096) (hal : 4 ∣ w.bufferTailOff)
    (h : writeEntries k.type k.codec fuel w rest = some w') :
    w'.pos = packEntries k.codec.size w.pos rest.length ∧ w'.bufferTailOff < 4096 ∧ 4 ∣ w'.bufferTailOff := by
  induction fuel generalizing w rest with
  | zero => cases h
  | succ fuel ih =>
    have hroom : w.bufferTailOff + 4 ≤ 4096 := by
      obtain ⟨c,hc⟩ := hal
      omega
    have hbuf : 4 ∣ 4096 - w.bufferTailOff := Nat.dvd_sub (by decide) hal
    have hwr := writable_aligned (n := rest.length) hbuf k.size_dvd k.size_pos (by omega)
    rw [show 4096 - w.bufferTailOff - 4 = 4092 - w.bufferTailOff by omega] at hwr
    have hsz := k.size_le
    rw [writeEntries,outputToBuffer] at h
    by_cases hn : rest.length = 0
    · rw [if_pos hn] at h
      cases h
      rw [hn,packEntries_zero,JournalWriter.nextBlockIfFull,if_neg (by omega)]
      exact ⟨rfl,hoff,hal⟩
    · rw [if_neg hn,hwr] at h
      by_cases hz : min rest.length ((4092 - w.bufferTailOff) / k.codec.size) = 0
      · simp only [if_pos hz] at h
        obtain ⟨b,_,hb⟩ := Option.bind_eq_some_iff.mp h
        have hcap : (4092 - w.bufferTailOff) / k.codec.size = 0 := by omega
        have hpos := ih _ _ (by exact Nat.zero_lt_succ _) (by exact Nat.dvd_zero 4) hb
        have hover := packEntries_over w.bufferTailIdx k.size_pos (by omega)
          (show (4092 - w.bufferTailOff) / k.codec.size < rest.length by omega)
        rw [hcap,Nat.sub_zero] at hover
        exact ⟨hpos.1.trans hover.symm,hpos.2⟩
      · simp only [if_neg hz] at h
        generalize hm : min rest.length ((4092 - w.bufferTailOff) / k.codec.size) = m at *
        have hdiv : (4092 - w.bufferTailOff) / k.codec.size * k.codec.size ≤ 4092 - w.bufferTailOff :=
          Nat.div_mul_le_self _ _
        have hmle : m * k.codec.size ≤ (4092 - w.bufferTailOff) / k.codec.size * k.codec.size :=
          Nat.mul_le_mul_right _ (by omega)
        have hnext := placed_pos w ((Buf.setAs metaJournalEntryCodec (w.journalBuffer w.bufferTailIdx)
          w.bufferTailOff (recordHeader k.type k.codec m)).write (w.bufferTailOff + 4)
          (k.codec.encodeList (rest.take m))) (w.bufferTailOff + 4 + m * k.codec.size)
        have hal' := nextBlockPos_aligned w.bufferTailIdx
          (show w.bufferTailOff + 4 + m * k.codec.size ≤ 4096 by omega)
          (Nat.dvd_add (Nat.dvd_add hal (Nat.dvd_refl 4)) (Dvd.dvd.mul_left k.size_dvd m))
        rw [← hnext] at hal'
        obtain ⟨hpos,hlt,hdvd⟩ := ih _ _ hal'.1 hal'.2 h
        refine ⟨?_,hlt,hdvd⟩
        rw [hpos,hnext,List.length_drop]
        by_cases hfit : rest.length ≤ (4092 - w.bufferTailOff) / k.codec.size
        · rw [show m = rest.length by omega,Nat.sub_self,packEntries_zero]
          exact (packEntries_fit hn hfit).symm
        · rw [show m = (4092 - w.bufferTailOff) / k.codec.size by omega]
          exact packEntries_filled k.size_pos hsz hroom (by omega)

end Loop

theorem journalBlockNum_pack (kh : Khash) (j : JournalContainer) :
    journalBlockNum kh j = containerBlockNum (superJournalOutputVector kh j.superBlockJournal).length
      j.natJournal.length j.sitJournal.length := by
  obtain ⟨w',tx,hcol,_⟩ := collect_spec kh ⟨0,0,fun _ => Buf.zero,0,0⟩ j
  rw [journalBlockNum_eq hcol]
  unfold journalWriterCollectPendingJournalToWriteBuffer at hcol
  obtain ⟨w₁,h₁,hcol⟩ := Option.bind_eq_some_iff.mp hcol
  obtain ⟨w₂,h₂,hcol⟩ := Option.bind_eq_some_iff.mp hcol
  obtain ⟨w₃,h₃,hcol⟩ := Option.bind_eq_some_iff.mp hcol
  obtain ⟨p₁,hlt₁,hal₁⟩ := writeEntries_pos superKind _ _ _ _ (Nat.zero_lt_succ _) (Nat.dvd_zero 4) h₁
  obtain ⟨p₂,hlt₂,hal₂⟩ := writeEntries_pos natKind _ _ _ _ hlt₁ hal₁ h₂
  obtain ⟨p₃,_,_⟩ := writeEntries_pos sitKind _ _ _ _ hlt₂ hal₂ h₃
  have hn : tx.blockNum = 1 + w₃.pos.1 := (congrArg Prod.snd (Option.some.inj hcol)).symm
  have hnat := (treeOutput_perm NatJournalEntry.nid j.natJournal).length_eq
  have hsit := (treeOutput_perm SitJournalEntry.segID j.sitJournal).length_eq
  rw [hn,p₃,p₂,p₁]
  rw [natJournalOutputVector,hnat,sitJournalOutputVector,hsit]
  rfl

def JournalContainer.fieldNum (j : JournalContainer) : Nat :=
  (j.superBlockJournal.map (·.off)).dedup.length

def JournalContainer.Fits (total : Nat) (j : JournalContainer) : Prop :=
  containerBlockNum j.fieldNum j.natJournal.length j.sitJournal.length ≤ total

theorem blockNum_fits (kh : Khash) (j : JournalContainer) (total : Nat) :
    journalBlockNum kh j ≤ total ↔ j.Fits total := by
  rw [journalBlockNum_pack,superOutput_length]
  rfl

theorem nextBlockPos_le (idx off : Nat) : (nextBlockPos idx off).1 ≤ idx + 1 := by
  unfold nextBlockPos
  split
  · exact le_rfl
  · exact Nat.le_succ idx

theorem packEntries_le (size : Nat) (pos : Nat × Nat) (n : Nat) :
    (packEntries size pos n).1 ≤ pos.1 + n + 1 := by
  simp only [packEntries]
  split_ifs with hz hroom
  · omega
  · have h := nextBlockPos_le pos.1 (pos.2 + 4 + n * size)
    omega
  · have hdiv := Nat.div_le_self (n - (4092 - pos.2) / size - 1) (4092 / size)
    generalize (4092 - pos.2) / size = room at *
    generalize (n - room - 1) / (4092 / size) = full at *
    refine (nextBlockPos_le _ _).trans ?_
    omega

theorem fits_of_few {total : Nat} {j : JournalContainer}
    (h : j.superBlockJournal.length + j.natJournal.length + j.sitJournal.length + 4 ≤ total) : j.Fits total := by
  have hfield : j.fieldNum ≤ j.superBlockJournal.length := by
    have hsub := (List.dedup_sublist (j.superBlockJournal.map (·.off))).length_le
    rwa [List.length_map] at hsub
  have h₁ := packEntries_le 8 (0,0) j.fieldNum
  have h₂ := packEntries_le 12 (packEntries 8 (0,0) j.fieldNum) j.natJournal.length
  have h₃ := packEntries_le 72 (packEntries 12 (packEntries 8 (0,0) j.fieldNum) j.natJournal.length)
    j.sitJournal.length
  unfold JournalContainer.Fits containerBlockNum
  omega

def sitUpdates (n txId : Nat) : JournalContainer :=
  ⟨[],[],(List.range n).map (fun i => ⟨UInt32.ofNat i,⟨0,Buf.zero⟩⟩),txId⟩

theorem sitUpdates_blockNum (kh : Khash) (n txId : Nat) :
    journalBlockNum kh (sitUpdates n txId) = containerBlockNum 0 0 n := by
  rw [journalBlockNum_pack,superOutput_length]
  simp only [sitUpdates,List.map_nil,List.dedup_nil,List.length_nil,List.length_map,List.length_range]

theorem sitUpdates_loggable {L : Layout} {d : CommDev} {n : Nat} (txId : Nat) (h32 : n ≤ 2 ^ 32)
    (hn : n ≤ L.segmentCountSit * blockPerSegment * sitEntryPerBlock) :
    (sitUpdates n txId).Loggable L d := by
  refine ⟨fun e he => absurd he List.not_mem_nil,fun e he => absurd he List.not_mem_nil,fun e he => ?_⟩
  obtain ⟨i,hi,rfl⟩ := List.mem_map.mp he
  have hi' := List.mem_range.mp hi
  have hlt : i < 2 ^ 32 := lt_of_lt_of_le hi' h32
  have he : (UInt32.ofNat i).toNat = i := by
    rw [UInt32.toNat_ofNat',Nat.mod_eq_of_lt hlt]
  change (UInt32.ofNat i).toNat / sitEntryPerBlock < _
  rw [he]
  exact Nat.div_lt_of_lt_mul (lt_of_lt_of_le hi' (hn.trans (le_of_eq (Nat.mul_comm _ _))))

end Rtfs
