import Rtfs.Fs.Format

namespace Rtfs

section Nat
variable {options : RtfsMkfsOptions} {layout : RtfsMkfsLayout}

theorem natEntryAt_setNatEntry (b : Block) {i k : Nat} (hi : i < natEntryPerBlock) (e : RtfsNatEntry) :
    natEntryAt (setNatEntry b i e) k = if k = i then e else natEntryAt b k := by
  split
  · rename_i he
    subst he
    exact natEntryAt_set_self b hi e
  · rename_i hne
    exact natEntryAt_set_ne b hne e

theorem natEntryAt_filled (f : Nat → RtfsNatEntry) (b : Block) (n : Nat) (hn : n ≤ natEntryPerBlock)
    (k : Nat) : natEntryAt ((List.range n).foldl (fun b i => setNatEntry b i (f i)) b) k =
      if k < n then f k else natEntryAt b k := by
  induction n with
  | zero => rfl
  | succ n ih =>
    rw [List.range_succ,List.foldl_append]
    simp only [List.foldl_cons,List.foldl_nil]
    rw [natEntryAt_setNatEntry _ (by omega),ih (by omega)]
    by_cases hk : k = n
    · subst hk
      rw [if_pos rfl,if_pos (Nat.lt_succ_self k)]
    · rw [if_neg hk]
      by_cases hlt : k < n
      · rw [if_pos hlt,if_pos (by omega)]
      · rw [if_neg hlt,if_neg (by omega)]

theorem natEntryAt_plain (nid : Nat) :
    natEntryAt (plainNatBlock layout (nid / natEntryPerBlock)) (nid % natEntryPerBlock) =
      initialNatEntry layout nid := by
  have hlt : nid % natEntryPerBlock < natEntryPerBlock := Nat.mod_lt _ (by decide)
  rw [plainNatBlock,natEntryAt_filled _ _ _ le_rfl,if_pos hlt,Nat.div_add_mod']

theorem div_mod_inj {m n k : Nat} (h1 : m / k = n / k) (h2 : m % k = n % k) : m = n := by
  rw [← Nat.div_add_mod m k,← Nat.div_add_mod n k,h1,h2]

theorem succ_toNat {nid : UInt32} {n : Nat} (h : nid.toNat + 1 < n) (hn : n ≤ 4294967296) :
    (nid + 1).toNat = nid.toNat + 1 := by
  rw [UInt32.toNat_add]
  change (nid.toNat + 1) % 4294967296 = _
  omega

theorem nextFree_entry : (⟨invalidNid,if (options.rootIno + 1 + 1).toNat < layout.blockCount then
      options.rootIno + 1 + 1 else invalidNid⟩ : RtfsNatEntry) =
    initialNatEntry layout (options.rootIno + 1).toNat := by
  generalize options.rootIno + 1 = nid
  have hn : (nid + 1).toNat = (nid.toNat + 1) % 4294967296 := UInt32.toNat_add nid 1
  have hlt : nid.toNat < 4294967296 := nid.toNat_lt
  rw [initialNatEntry]
  congr 1
  apply UInt32.toNat_inj.mp
  by_cases hwrap : nid.toNat + 1 < 4294967296
  · rw [hn,Nat.mod_eq_of_lt hwrap]
    split
    · rw [hn,UInt32.toNat_ofNat']
    · rfl
  · -- the last nid has no successor, the sum is 0 again
    have hz : nid.toNat + 1 = 4294967296 := by omega
    have hz' : nid + 1 = invalidNid := UInt32.toNat_inj.mp (by rw [hn,hz]; rfl)
    rw [hz',hz,ite_self]
    split <;> rfl

theorem initialNat_entry (nid : Nat) :
    natEntryAt (initialNatBlock options layout (nid / natEntryPerBlock)) (nid % natEntryPerBlock) =
      if nid = options.rootIno.toNat then ⟨options.rootIno,layout.mainStartLpa⟩
      else initialNatEntry layout nid := by
  have hlt : ∀ n, n % natEntryPerBlock < natEntryPerBlock := fun n => Nat.mod_lt _ (by decide)
  have hrooted : natEntryAt (if nid / natEntryPerBlock = options.rootIno.toNat / natEntryPerBlock then
      setNatEntry (plainNatBlock layout (nid / natEntryPerBlock))
        (options.rootIno.toNat % natEntryPerBlock) ⟨options.rootIno,layout.mainStartLpa⟩
      else plainNatBlock layout (nid / natEntryPerBlock)) (nid % natEntryPerBlock) =
      if nid = options.rootIno.toNat then ⟨options.rootIno,layout.mainStartLpa⟩
      else initialNatEntry layout nid := by
    by_cases hd : nid / natEntryPerBlock = options.rootIno.toNat / natEntryPerBlock
    · rw [if_pos hd,natEntryAt_setNatEntry _ (hlt _),natEntryAt_plain]
      by_cases hm : nid % natEntryPerBlock = options.rootIno.toNat % natEntryPerBlock
      · rw [if_pos hm,if_pos (div_mod_inj hd hm)]
      · rw [if_neg hm,if_neg (fun he => hm (by rw [he]))]
    · rw [if_neg hd,natEntryAt_plain,if_neg (fun he => hd (by rw [he]))]
  unfold initialNatBlock
  simp only
  by_cases hd : (options.rootIno + 1).toNat / natEntryPerBlock = nid / natEntryPerBlock
  · rw [if_pos hd,natEntryAt_setNatEntry _ (hlt _)]
    by_cases hm : nid % natEntryPerBlock = (options.rootIno + 1).toNat % natEntryPerBlock
    · -- the entry of next_free_nid is written once more, with the value it already has
      have he : nid = (options.rootIno + 1).toNat := div_mod_inj hd.symm hm
      have hne : nid ≠ options.rootIno.toNat := by
        have hadd : (options.rootIno + 1).toNat = (options.rootIno.toNat + 1) % 4294967296 := UInt32.toNat_add ..
        omega
      rw [if_pos hm,if_neg hne,he,nextFree_entry]
    · rw [if_neg hm,hrooted]
  · rw [if_neg hd,hrooted]

end Nat

section Sit
variable {layout : RtfsMkfsLayout}

theorem sitEntryAt_modifySit (b : Block) (segId : Nat) (f : RtfsSitEntry → RtfsSitEntry) (i : Nat) :
    sitEntryAt (modifySit b segId f) i =
      if i = segId % sitEntryPerBlock then f (sitEntryAt b i) else sitEntryAt b i := by
  unfold modifySit
  split
  · rename_i he
    subst he
    exact sitEntryAt_set_self b (Nat.mod_lt _ (by decide)) _
  · rename_i hne
    exact sitEntryAt_set_ne b hne _

theorem foldl_keeps {α : Type} (f : Block → α → Block) (xs : List α) (i : Nat)
    (h : ∀ x ∈ xs, ∀ b, sitEntryAt (f b x) i = sitEntryAt b i) (b : Block) :
    sitEntryAt (xs.foldl f b) i = sitEntryAt b i := by
  induction xs generalizing b with
  | nil => rfl
  | cons x xs ih =>
    rw [List.foldl_cons,ih (fun y hy => h y (List.mem_cons_of_mem _ hy)),h x List.mem_cons_self]

theorem sitEntryAt_validateSegment (b : Block) {segId i : Nat} (h : i ≠ segId % sitEntryPerBlock) :
    sitEntryAt (validateSegment b segId) i = sitEntryAt b i := by
  refine foldl_keeps _ _ i (fun off _ b => ?_) b
  rw [sitEntryAt_modifySit,if_neg h]

def chainedEntry (layout : RtfsMkfsLayout) (segId : Nat) : RtfsSitEntry :=
  if segId + 1 < layout.segmentCount.toNat then
    rtfsMkfsSitSetNextSegment RtfsSitEntry.zero (UInt32.ofNat (segId + 1))
  else RtfsSitEntry.zero

theorem sitEntryAt_zero (i : Nat) : sitEntryAt (Buf.zero : Block) i = RtfsSitEntry.zero := by
  unfold sitEntryAt Buf.getAs
  have hread : (Buf.zero : Block).read (68 * i) sitEntryCodec.size = List.replicate 68 0 :=
    List.map_eq_replicate_iff.mpr (fun k _ => Buf.get_zero _)
  have hmap : (Buf.ofBytes (List.replicate 64 0) : Buf 64) = Buf.zero := by
    funext k
    unfold Buf.ofBytes Buf.zero
    rw [List.getElem?_replicate,if_pos k.isLt]
    rfl
  rw [hread]
  change (⟨0,Buf.ofBytes (List.replicate 64 0)⟩ : RtfsSitEntry) = _
  rw [hmap]
  rfl

theorem sitEntryAt_chained {segId : Nat} (hN : layout.segmentCount.toNat ≤ 8388608)
    (hseg : segId < layout.segmentCount.toNat) :
    sitEntryAt (chainedSitBlock layout (segId / sitEntryPerBlock)) (segId % sitEntryPerBlock) =
      chainedEntry layout segId := by
  have hmod : segId % sitEntryPerBlock = segId % 60 := rfl
  have hlo : segId / sitEntryPerBlock * sitEntryPerBlock % 4294967296 = segId / 60 * 60 := by
    unfold sitEntryPerBlock
    omega
  have hhi : min ((segId / sitEntryPerBlock + 1) * sitEntryPerBlock) layout.segmentCount.toNat -
      segId / 60 * 60 = (segId % 60) + 1 + (min ((segId / 60 + 1) * 60) layout.segmentCount.toNat -
      (segId + 1)) := by
    unfold sitEntryPerBlock
    omega
  unfold chainedSitBlock
  simp only [hlo,hhi]
  rw [← List.range'_append_1,List.foldl_append,List.range'_concat,List.foldl_append]
  -- the entries written after segId's lie at other indices of the block
  rw [foldl_keeps]
  · simp only [List.foldl_cons,List.foldl_nil,Nat.one_mul]
    have hid : segId / 60 * 60 + segId % 60 = segId := by omega
    rw [hid]
    have hbefore : sitEntryAt ((List.range' (segId / 60 * 60) (segId % 60)).foldl (fun b segId =>
        if segId + 1 < layout.segmentCount.toNat then
          modifySit b segId (fun e => rtfsMkfsSitSetNextSegment e (UInt32.ofNat (segId + 1)))
        else b) Buf.zero) (segId % sitEntryPerBlock) = RtfsSitEntry.zero := by
      rw [foldl_keeps,sitEntryAt_zero]
      intro x hx b
      rw [List.mem_range'_1] at hx
      split
      · rw [sitEntryAt_modifySit,if_neg]
        unfold sitEntryPerBlock
        omega
      · rfl
    unfold chainedEntry
    split
    · rw [sitEntryAt_modifySit,if_pos rfl,hbefore]
    · exact hbefore
  · intro x hx b
    rw [List.mem_range'_1] at hx
    split
    · rw [sitEntryAt_modifySit,if_neg]
      unfold sitEntryPerBlock
      omega
    · rfl

theorem initialSit_entry {segId : Nat} (hN : layout.segmentCount.toNat ≤ 8388608)
    (hseg : segId < layout.segmentCount.toNat) (hpos : 0 < layout.mainStartSegment.toNat)
    (hmain : layout.mainStartSegment.toNat ≤ segId) :
    sitEntryAt (initialSitBlock layout (segId / sitEntryPerBlock)) (segId % sitEntryPerBlock) =
      if segId = layout.mainStartSegment.toNat then rtfsMkfsSitSetValid (chainedEntry layout segId) 0
      else chainedEntry layout segId := by
  have hchain := sitEntryAt_chained hN hseg
  have hfilled : sitEntryAt ((List.range' 1 (layout.mainStartSegment.toNat - 1)).foldl (fun b seg =>
      if seg / sitEntryPerBlock = segId / sitEntryPerBlock then validateSegment b seg else b)
      (if segId / sitEntryPerBlock = 0 then
        modifySit (chainedSitBlock layout (segId / sitEntryPerBlock)) 0 (fun e => rtfsMkfsSitSetValid e 0)
      else chainedSitBlock layout (segId / sitEntryPerBlock))) (segId % sitEntryPerBlock) =
      chainedEntry layout segId := by
    rw [foldl_keeps]
    · split
      · rename_i hz
        rw [sitEntryAt_modifySit,if_neg,hchain]
        unfold sitEntryPerBlock at hz ⊢
        omega
      · exact hchain
    · intro x hx b
      rw [List.mem_range'_1] at hx
      split
      · rename_i hdiv
        apply sitEntryAt_validateSegment
        unfold sitEntryPerBlock at hdiv ⊢
        omega
      · rfl
  unfold initialSitBlock
  simp only
  by_cases hd : layout.mainStartSegment.toNat / sitEntryPerBlock = segId / sitEntryPerBlock
  · rw [if_pos hd,sitEntryAt_modifySit,hfilled]
    by_cases hm : segId % sitEntryPerBlock = layout.mainStartSegment.toNat % sitEntryPerBlock
    · rw [if_pos hm,if_pos (div_mod_inj hd.symm hm)]
    · rw [if_neg hm,if_neg (fun he => hm (by rw [he]))]
  · rw [if_neg hd,hfilled,if_neg (fun he => hd (by rw [he]))]

end Sit

section JournalPos
variable (options : RtfsMkfsOptions) (layout : RtfsMkfsLayout)

theorem get_writeWords_zero (b : Block) (ws : List (Nat × UInt32)) (i : Nat) (hb : b.get i = 0)
    (hw : ∀ w ∈ ws, w.1 ≤ i → i < w.1 + 4 → w.2 = 0) : (writeWords b ws).get i = 0 := by
  induction ws generalizing b with
  | nil => exact hb
  | cons w ws ih =>
    refine ih (setU32 b w.1 w.2) ?_ (fun v hv => hw v (List.mem_cons_of_mem _ hv))
    unfold setU32 Buf.setAs
    by_cases hin : w.1 ≤ i ∧ i < w.1 + 4
    · rw [hw w List.mem_cons_self hin.1 hin.2]
      by_cases hn : i < 4096
      · rw [Buf.get_write _ _ _ hn,if_pos hin.1]
        have hk : i - w.1 < 4 := by omega
        change ([0,0,0,0] : List UInt8)[i - w.1]?.getD _ = 0
        generalize i - w.1 = k at hk
        interval_cases k <;> rfl
      · unfold Buf.get
        rw [dif_neg hn]
    · rw [Buf.get_write_frame]
      · exact hb
      · change i < w.1 ∨ w.1 + 4 ≤ i
        omega

theorem journalPos_initialSuper {off : Nat} (hl : 120 ≤ off) (hu : off ≤ 122) :
    u16At (initialSuper options layout) off = 0 := by
  have hpos : (superWords options layout).filter (fun w => decide (w.1 = 120)) = [(120,0)] := rfl
  have hword : ∀ i, 120 ≤ i → i < 124 → ∀ w ∈ superWords options layout,
      w.1 ≤ i → i < w.1 + 4 → w.2 = 0 := by
    intro i h1 h2 w hw ha hb
    have h4 := (superWords_aligned options layout w hw).1
    have hm : w ∈ (superWords options layout).filter (fun w => decide (w.1 = 120)) :=
      List.mem_filter.mpr ⟨hw,decide_eq_true (by omega)⟩
    rw [hpos,List.mem_singleton] at hm
    rw [hm]
  have hbyte (i : Nat) (h1 : 120 ≤ i) (h2 : i < 124) : (initialSuper options layout).get i = 0 :=
    get_writeWords_zero _ _ i (Buf.get_zero i) (hword i h1 h2)
  have hread : (initialSuper options layout).read off 2 = List.replicate 2 0 := by
    refine List.map_eq_replicate_iff.mpr (fun i hi => hbyte (off + i) (by omega) ?_)
    rw [List.mem_range] at hi
    omega
  unfold u16At Buf.getAs
  change Codec.u16OfBytes ((initialSuper options layout).read off 2) = 0
  rw [hread]
  rfl

theorem endBlkoff_initialSuper :
    RtfsSuperBlock.metaJournalEndBlkoff (initialSuper options layout) = 0 :=
  journalPos_initialSuper options layout (by decide) le_rfl

theorem startBlkoff_initialSuper :
    RtfsSuperBlock.metaJournalStartBlkoff (initialSuper options layout) = 0 :=
  journalPos_initialSuper options layout le_rfl (by decide)

end JournalPos

@[irreducible] def smallDisk : CommDev :=
  match rtfsMkfsFormat smallOptions (smallDev fun _ => Buf.zero) with
  | .ok (_,d) => d
  | .error _ => smallDev fun _ => Buf.zero

theorem format_small : ∃ f, rtfsMkfsFormat smallOptions (smallDev fun _ => Buf.zero) =
      .ok (smallLayout,(smallDev fun _ => Buf.zero).withBlocks f) ∧
      Formatted smallOptions smallLayout f := by
  have hd : ∀ lpa < smallOptions.lpaCount, (smallDev fun _ => Buf.zero).Holds lpa :=
    smallDev_holds fun _ => Buf.zero
  obtain ⟨f,hf,hform,_⟩ := format_spec hd (by decide) calculateLayout_small
  exact ⟨f,hf,hform⟩

theorem smallDisk_format : ∃ f, rtfsMkfsFormat smallOptions (smallDev fun _ => Buf.zero) = .ok (smallLayout,smallDisk) ∧
    smallDisk = smallDev f ∧ Formatted smallOptions smallLayout f := by
  obtain ⟨f,hf,hform⟩ := format_small
  have hdisk : smallDisk = (smallDev fun _ => Buf.zero).withBlocks f := by
    unfold smallDisk
    rw [hf]
  exact ⟨f,by rw [hf,hdisk],hdisk,hform⟩

theorem smallDisk_formatted :
    ∃ f, smallDisk = smallDev f ∧ Formatted smallOptions smallLayout f := by
  obtain ⟨f,_,hdisk,hform⟩ := smallDisk_format
  exact ⟨f,hdisk,hform⟩

end Rtfs
