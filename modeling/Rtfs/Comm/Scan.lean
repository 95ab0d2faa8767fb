import Rtfs.Comm.Recovery
import Rtfs.Journal.Framing
import Rtfs.Lib.Ring

namespace Rtfs

section Handler
variable {σ : Type} (h : Handler σ)

def Handler.apply (s : σ) : JournalRecord → Except Errno σ
  | .super es => h.super s es
  | .nats es => h.nats s es
  | .sits es => h.sits s es

def BlockOutcome.continue (k : σ → BlockOutcome σ) : Except Errno σ → BlockOutcome σ
  | .error e => .failed e
  | .ok s => k s

theorem headerAt_record {b : Block} {off : Nat} {r : JournalRecord}
    (hat : b.read off r.len = r.bytes) : headerAt b off = r.header := by
  have hp := Buf.read_prefix hat
  rw [metaJournalEntryCodec.length_encode] at hp
  rw [headerAt,Buf.getAs,hp,metaJournalEntryCodec.decode_encode]

theorem payload_record {b : Block} {off : Nat} {r : JournalRecord}
    (hat : b.read off r.len = r.bytes) : b.read (off + 4) (r.len - 4) = r.payload := by
  have hp := Buf.read_suffix hat
  rw [metaJournalEntryCodec.length_encode] at hp
  rwa [JournalRecord.len,Nat.add_sub_cancel_left]

theorem header_len {r : JournalRecord} (hle : r.len ≤ 4096) : r.header.len.toNat = r.len := by
  rw [JournalRecord.header,UInt16.toNat_ofNat',Nat.mod_eq_of_lt (by omega)]

theorem payload_entries {α : Type} (k : EntryKind α) (es : List α) :
    ((k.record es).len - 4) % k.codec.size = 0 ∧
    k.codec.decodeList (((k.record es).len - 4) / k.codec.size) (k.record es).payload = es := by
  have hl : (k.record es).len - 4 = es.length * k.codec.size := by
    rw [record_len,Nat.add_sub_cancel_left]
  have hd := k.codec.decodeList_encodeList es []
  rw [List.append_nil] at hd
  rw [hl,Nat.mul_mod_left,Nat.mul_div_cancel _ k.size_pos,k.payload_record]
  exact ⟨rfl,hd⟩

theorem scanBlock_record {b : Block} {off : Nat} {r : JournalRecord}
    (hat : b.read off r.len = r.bytes) (hle : off + r.len ≤ 4096) (s : σ) :
    scanBlock h b off s = BlockOutcome.continue (scanBlock h b (off + r.len)) (h.apply s r) := by
  have h4 : 4 ≤ r.len := Nat.le_add_right 4 _
  have hlen : (headerAt b off).len.toNat = r.len := by
    rw [headerAt_record hat,header_len (by omega)]
  have hty : JournalType.ofCode (headerAt b off).type = some r.type := by
    rw [headerAt_record hat]
    exact JournalType.ofCode_code r.type
  rw [scanBlock,if_pos (by omega),hty]
  simp only [hlen]
  rw [if_neg (by omega),if_neg (by omega),payload_record hat]
  cases r with
  | super es =>
    obtain ⟨hm,hd⟩ := payload_entries superKind es
    change ((JournalRecord.super es).len - 4) % 8 = 0 at hm
    change superEntryCodec.decodeList (((JournalRecord.super es).len - 4) / 8)
      (JournalRecord.super es).payload = es at hd
    simp only [JournalRecord.type,hm,hd,ne_eq,not_true,if_false]
    rfl
  | nats es =>
    obtain ⟨hm,hd⟩ := payload_entries natKind es
    change ((JournalRecord.nats es).len - 4) % 12 = 0 at hm
    change natJournalCodec.decodeList (((JournalRecord.nats es).len - 4) / 12)
      (JournalRecord.nats es).payload = es at hd
    simp only [JournalRecord.type,hm,hd,ne_eq,not_true,if_false]
    rfl
  | sits es =>
    obtain ⟨hm,hd⟩ := payload_entries sitKind es
    change ((JournalRecord.sits es).len - 4) % 72 = 0 at hm
    change sitJournalCodec.decodeList (((JournalRecord.sits es).len - 4) / 72)
      (JournalRecord.sits es).payload = es at hd
    simp only [JournalRecord.type,hm,hd,ne_eq,not_true,if_false]
    rfl

theorem scanBlock_records {b : Block} {off : Nat} {rs : List JournalRecord}
    (hat : b.read off (recordsLen rs) = recordsBytes rs) (hle : off + recordsLen rs ≤ 4096) (s : σ) :
    scanBlock h b off s =
      BlockOutcome.continue (scanBlock h b (off + recordsLen rs)) (rs.foldlM h.apply s) := by
  induction rs generalizing off s with
  | nil => rfl
  | cons r rs ih =>
    have hb : recordsBytes (r :: rs) = r.bytes ++ recordsBytes rs := rfl
    rw [hb] at hat
    have h1 := Buf.read_prefix hat
    have h2 := Buf.read_suffix hat
    rw [JournalRecord.length_bytes] at h1 h2
    rw [recordsLen_cons] at hle ⊢
    rw [scanBlock_record h h1 (by omega),List.foldlM_cons]
    cases hr : h.apply s r with
    | error e => rfl
    | ok s' =>
      change scanBlock h b (off + r.len) s' = _
      rw [ih h2 (by omega),Nat.add_assoc]
      rfl

theorem scanBlock_header {b : Block} {off : Nat} (hoff : off + 4 ≤ 4096) (s : σ) :
    (∀ gap, 4 ≤ gap → off + gap ≤ 4096 → headerAt b off = nopHeader gap →
      scanBlock h b off s = .through s) ∧
    (headerAt b off = endHeader → scanBlock h b off s = .ended s) ∧
    ((headerAt b off).len = 0 → scanBlock h b off s = .stopped) := by
  refine ⟨fun gap h4 hg hh => ?_,fun hh => ?_,fun hh => ?_⟩
  · have hlen : (headerAt b off).len.toNat = gap := by
      rw [hh,nopHeader,UInt16.toNat_ofNat',Nat.mod_eq_of_lt (by omega)]
    have hty : JournalType.ofCode (headerAt b off).type = some .nop := by
      rw [hh]
      rfl
    rw [scanBlock,if_pos hoff,hty]
    simp only [hlen]
    rw [if_neg (by omega),if_neg (by omega)]
  · have hlen : (headerAt b off).len.toNat = 4 := by
      rw [hh]
      rfl
    have hty : JournalType.ofCode (headerAt b off).type = some .fin := by
      rw [hh]
      rfl
    rw [scanBlock,if_pos hoff,hty]
    simp only [hlen]
    rw [if_neg (by omega),if_neg (by omega),if_neg (by omega)]
  · have hlen : (headerAt b off).len.toNat = 0 := by
      rw [hh]
      rfl
    rw [scanBlock,if_pos hoff]
    simp only [hlen,if_true]

theorem scanBlock_full {b : Block} {rs : List JournalRecord} (hb : FullBlock b rs) (s : σ) :
    scanBlock h b 0 s = BlockOutcome.continue .through (rs.foldlM h.apply s) := by
  rw [scanBlock_records h hb.tiles.2 (by simpa using hb.tiles.1),Nat.zero_add]
  cases rs.foldlM h.apply s with
  | error e => rfl
  | ok s' =>
    change scanBlock h b (recordsLen rs) s' = .through s'
    rcases hb.padded with hfull | ⟨hroom,hnop⟩
    · rw [scanBlock,if_neg (by omega)]
    · exact (scanBlock_header h hroom s').1 _ (by omega) (by omega) hnop

theorem scanBlock_last {b : Block} {rs : List JournalRecord} (hb : LastBlock b rs) (s : σ) :
    scanBlock h b 0 s = BlockOutcome.continue .ended (rs.foldlM h.apply s) := by
  rw [scanBlock_records h hb.tiles.2 (by simpa using hb.tiles.1),Nat.zero_add]
  cases rs.foldlM h.apply s with
  | error e => rfl
  | ok s' => exact (scanBlock_header h hb.room s').2.1 hb.ended

end Handler

section Ring
variable {σ : Type} (h : Handler σ) {d : CommDev} {base size : Nat}

structure RingOk (d : CommDev) (base size : Nat) : Prop where
  pos : 0 < size
  addr : ∀ lpa, base ≤ lpa → lpa < base + size → d.Holds lpa

def ringBlock (d : CommDev) (base size i : Nat) : Block := d.blocks (Ring.slot base size i)

theorem nextJournalLpa_slot (hr : RingOk d base size) (i : Nat) :
    commRecoveryNextJournalLpa (Ring.slot base size i) base (base + size) =
      Ring.slot base size (i + 1) := Ring.next_slot hr.pos i

theorem read_slot (hr : RingOk d base size) (i : Nat) :
    commRecoveryReadLpa d (UInt32.ofNat (Ring.slot base size i)) = .ok (ringBlock d base size i) := by
  have ha := hr.addr _ (Ring.base_le_slot i) (Ring.slot_lt hr.pos i)
  have hn : (UInt32.ofNat (Ring.slot base size i)).toNat = Ring.slot base size i := by
    have hlt := ha.lt
    rw [UInt32.toNat_ofNat',Nat.mod_eq_of_lt (by omega)]
  rw [readLpa_ok (by rwa [hn]),hn]
  rfl

def TxOutcome.finish (lpa : Nat) : Except Errno σ → TxOutcome σ
  | .error e => .failed e
  | .ok s => .ended s lpa

theorem scanTx_image (hr : RingOk d base size) (full : List (List JournalRecord))
    (last : List JournalRecord) (o n : Nat)
    (him : TxImage (fun i => ringBlock d base size (o + i)) ⟨full,last⟩)
    (hn : full.length < n) (s : σ) :
    scanTx h d base (base + size) n (Ring.slot base size o) s =
      TxOutcome.finish (Ring.slot base size (o + full.length))
        ((full.flatten ++ last).foldlM h.apply s) := by
  induction full generalizing o n s with
  | nil =>
    obtain ⟨n,rfl⟩ : ∃ m, n = m + 1 := ⟨n - 1,by simp at hn; omega⟩
    have hl : LastBlock (ringBlock d base size o) last := him.last
    rw [scanTx,read_slot hr]
    simp only [scanBlock_last h hl]
    change _ = TxOutcome.finish (Ring.slot base size o) (last.foldlM h.apply s)
    cases last.foldlM h.apply s <;> rfl
  | cons rs full ih =>
    obtain ⟨n,rfl⟩ : ∃ m, n = m + 1 := ⟨n - 1,by simp at hn; omega⟩
    have hf : FullBlock (ringBlock d base size o) rs := him.full 0 rs rfl
    have him' : TxImage (fun i => ringBlock d base size (o + 1 + i)) ⟨full,last⟩ := by
      constructor
      · intro i qs hq
        have hfi := him.full (i + 1) qs hq
        rwa [show o + (i + 1) = o + 1 + i by omega] at hfi
      · have hla := him.last
        simp only [List.length_cons] at hla
        rwa [show o + (full.length + 1) = o + 1 + full.length by omega] at hla
    rw [scanTx,read_slot hr]
    simp only [scanBlock_full h hf]
    rw [List.flatten_cons,List.append_assoc,List.foldlM_append]
    cases rs.foldlM h.apply s with
    | error e => rfl
    | ok s' =>
      change scanTx h d base (base + size) n _ s' = _
      rw [nextJournalLpa_slot hr,ih (o + 1) n him' (by simpa using hn)]
      rw [List.length_cons,show o + 1 + full.length = o + (full.length + 1) by omega]
      rfl

theorem scanTx_torn (hr : RingOk d base size) (full : List (List JournalRecord)) (o n : Nat)
    (him : ∀ i rs, full[i]? = some rs → FullBlock (ringBlock d base size (o + i)) rs)
    (hz : (headerAt (ringBlock d base size (o + full.length)) 0).len = 0) (s s' : σ)
    (hok : full.flatten.foldlM h.apply s = .ok s') :
    scanTx h d base (base + size) n (Ring.slot base size o) s = .stopped := by
  induction full generalizing o n s with
  | nil =>
    cases n with
    | zero => rfl
    | succ n =>
      have hst := (scanBlock_header h (b := ringBlock d base size o) (by decide) s).2.2 hz
      rw [scanTx,read_slot hr]
      simp only [hst]
  | cons rs full ih =>
    cases n with
    | zero => rfl
    | succ n =>
      have hf : FullBlock (ringBlock d base size o) rs := him 0 rs rfl
      rw [List.flatten_cons,List.foldlM_append] at hok
      rw [scanTx,read_slot hr]
      simp only [scanBlock_full h hf]
      cases hrs : rs.foldlM h.apply s with
      | error e =>
        rw [hrs] at hok
        cases hok
      | ok s₁ =>
        rw [hrs] at hok
        change scanTx h d base (base + size) n _ s₁ = _
        rw [nextJournalLpa_slot hr]
        refine ih (o + 1) n (fun i qs hq => ?_) ?_ s₁ hok
        · have hfi := him (i + 1) qs hq
          rwa [show o + (i + 1) = o + 1 + i by omega] at hfi
        · rw [List.length_cons] at hz
          rwa [show o + 1 + full.length = o + (full.length + 1) by omega]

theorem scanTx_stopped (hr : RingOk d base size) (o n : Nat) (s : σ)
    (hz : (headerAt (ringBlock d base size o) 0).len = 0) :
    scanTx h d base (base + size) n (Ring.slot base size o) s = .stopped :=
  scanTx_torn h hr [] o n (fun i rs hi => by simp at hi) hz s s rfl

end Ring

end Rtfs
