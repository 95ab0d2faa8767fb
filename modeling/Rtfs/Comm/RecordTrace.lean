import Rtfs.Comm.Parse
import Rtfs.Comm.Restart

namespace Rtfs

structure HeaderAt (b : Block) (off : Nat) (type : JournalType) (len : Nat) : Prop where
  room : off + 4 ≤ 4096
  kind : JournalType.ofCode (headerAt b off).type = some type
  length : (headerAt b off).len.toNat = len
  min : 4 ≤ len
  inside : off + len ≤ 4096

inductive BlockTrace (b : Block) : Nat → List JournalRecord → BlockEnd → Prop
  | stop {off : Nat} : BlockTrace b off [] .stopped
  | super {off len : Nat} {rs : List JournalRecord} {e : BlockEnd} (h : HeaderAt b off .superBlock len)
      (whole : (len - 4) % 8 = 0) (rest : BlockTrace b (off + len) rs e) :
      BlockTrace b off (.super (superEntryCodec.decodeList ((len - 4) / 8) (b.read (off + 4) (len - 4))) :: rs) e
  | nats {off len : Nat} {rs : List JournalRecord} {e : BlockEnd} (h : HeaderAt b off .nats len)
      (whole : (len - 4) % 12 = 0) (rest : BlockTrace b (off + len) rs e) :
      BlockTrace b off (.nats (natJournalCodec.decodeList ((len - 4) / 12) (b.read (off + 4) (len - 4))) :: rs) e
  | sits {off len : Nat} {rs : List JournalRecord} {e : BlockEnd} (h : HeaderAt b off .sits len)
      (whole : (len - 4) % 72 = 0) (rest : BlockTrace b (off + len) rs e) :
      BlockTrace b off (.sits (sitJournalCodec.decodeList ((len - 4) / 72) (b.read (off + 4) (len - 4))) :: rs) e
  | nop {off len : Nat} (h : HeaderAt b off .nop len) : BlockTrace b off [] .through
  | full {off : Nat} (h : 4096 < off + 4) : BlockTrace b off [] .through
  | fin {off : Nat} (h : HeaderAt b off .fin 4) : BlockTrace b off [] .ended

inductive TxTrace (f : Nat → Block) (base size : Nat) :
    Nat → Nat → List JournalRecord → Option Nat → Prop
  | out {lpa : Nat} : TxTrace f base size 0 lpa [] none
  | stop {n lpa : Nat} {rs : List JournalRecord} (h : BlockTrace (f lpa) 0 rs .stopped) :
      TxTrace f base size (n + 1) lpa rs none
  | last {n lpa : Nat} {rs : List JournalRecord} (h : BlockTrace (f lpa) 0 rs .ended) :
      TxTrace f base size (n + 1) lpa rs (some lpa)
  | next {n lpa : Nat} {rs qs : List JournalRecord} {e : Option Nat}
      (h : BlockTrace (f lpa) 0 rs .through) (rest : TxTrace f base size n (Ring.next base size lpa) qs e) :
      TxTrace f base size (n + 1) lpa (rs ++ qs) e

section Block
variable {b : Block}

theorem BlockTrace.stopped {off : Nat} {rs : List JournalRecord} {e : BlockEnd} (h : BlockTrace b off rs e) :
    BlockTrace b off rs .stopped := by
  induction h with
  | stop => exact .stop
  | super h whole _ ih => exact .super h whole ih
  | nats h whole _ ih => exact .nats h whole ih
  | sits h whole _ ih => exact .sits h whole ih
  | nop => exact .stop
  | full => exact .stop
  | fin => exact .stop

theorem HeaderAt.parse {off len : Nat} {type : JournalType} (h : HeaderAt b off type len) :
    off + 4 ≤ 4096 ∧ (headerAt b off).len.toNat ≠ 0 ∧
      ¬ ((headerAt b off).len.toNat < 4 ∨ 4096 < off + (headerAt b off).len.toNat) := by
  have hmin := h.min
  have hin := h.inside
  rw [h.length]
  exact ⟨h.room,by omega,by omega⟩

theorem parse_trace {off : Nat} {rs : List JournalRecord} {e : BlockEnd} (h : BlockTrace b off rs e)
    (he : e ≠ .stopped) : parseBlock b off = (rs,e) := by
  induction h with
  | stop => exact absurd rfl he
  | super h whole rest ih =>
    obtain ⟨h1,h2,h3⟩ := h.parse
    rw [parseBlock,if_pos h1]
    simp only [h2,h3,if_false,h.kind]
    rw [h.length,if_neg (not_not.mpr whole),ih he]
    rfl
  | nats h whole rest ih =>
    obtain ⟨h1,h2,h3⟩ := h.parse
    rw [parseBlock,if_pos h1]
    simp only [h2,h3,if_false,h.kind]
    rw [h.length,if_neg (not_not.mpr whole),ih he]
    rfl
  | sits h whole rest ih =>
    obtain ⟨h1,h2,h3⟩ := h.parse
    rw [parseBlock,if_pos h1]
    simp only [h2,h3,if_false,h.kind]
    rw [h.length,if_neg (not_not.mpr whole),ih he]
    rfl
  | nop h =>
    obtain ⟨h1,h2,h3⟩ := h.parse
    rw [parseBlock,if_pos h1]
    simp only [h2,h3,if_false,h.kind]
  | full h => rw [parseBlock,if_neg (by omega)]
  | fin h =>
    obtain ⟨h1,h2,h3⟩ := h.parse
    rw [parseBlock,if_pos h1]
    simp only [h2,h3,if_false,h.kind]
    rw [h.length,if_neg (not_not.mpr rfl)]

theorem trace_parse (b : Block) (off : Nat) : BlockTrace b off (parseBlock b off).1 (parseBlock b off).2 := by
  induction off using parseBlock.induct b with
  | case1 off h1 len h2 =>
    simp only [len] at h2
    rw [parseBlock,if_pos h1]
    simp only [h2,if_true]
    exact .stop
  | case2 off h1 len h2 h3 =>
    simp only [len] at h2 h3
    rw [parseBlock,if_pos h1]
    simp only [h2,h3,if_true,if_false]
    exact .stop
  | case3 off h1 len h2 h3 h4 h5 =>
    simp only [len] at h2 h3 h5
    rw [parseBlock,if_pos h1]
    simp only [h2,h3,h4,if_false]
    rw [if_pos h5]
    exact .stop
  | case4 off h1 len h2 h3 h4 h5 ih =>
    simp only [len] at h2 h3 h5 ih
    rw [parseBlock,if_pos h1]
    simp only [h2,h3,h4,if_false]
    rw [if_neg h5]
    exact .super ⟨h1,h4,rfl,by omega,by omega⟩ (not_not.mp h5) ih
  | case5 off h1 len h2 h3 h4 h5 =>
    simp only [len] at h2 h3 h5
    rw [parseBlock,if_pos h1]
    simp only [h2,h3,h4,if_false]
    rw [if_pos h5]
    exact .stop
  | case6 off h1 len h2 h3 h4 h5 ih =>
    simp only [len] at h2 h3 h5 ih
    rw [parseBlock,if_pos h1]
    simp only [h2,h3,h4,if_false]
    rw [if_neg h5]
    exact .nats ⟨h1,h4,rfl,by omega,by omega⟩ (not_not.mp h5) ih
  | case7 off h1 len h2 h3 h4 h5 =>
    simp only [len] at h2 h3 h5
    rw [parseBlock,if_pos h1]
    simp only [h2,h3,h4,if_false]
    rw [if_pos h5]
    exact .stop
  | case8 off h1 len h2 h3 h4 h5 ih =>
    simp only [len] at h2 h3 h5 ih
    rw [parseBlock,if_pos h1]
    simp only [h2,h3,h4,if_false]
    rw [if_neg h5]
    exact .sits ⟨h1,h4,rfl,by omega,by omega⟩ (not_not.mp h5) ih
  | case9 off h1 len h2 h3 h4 =>
    simp only [len] at h2 h3
    rw [parseBlock,if_pos h1]
    simp only [h2,h3,h4,if_false]
    exact .nop ⟨h1,h4,rfl,by omega,by omega⟩
  | case10 off h1 len h2 h3 h4 h5 =>
    simp only [len] at h2 h3 h5
    rw [parseBlock,if_pos h1]
    simp only [h2,h3,h4,if_false]
    rw [if_pos h5]
    exact .stop
  | case11 off h1 len h2 h3 h4 h5 =>
    simp only [len] at h2 h3 h5
    rw [parseBlock,if_pos h1]
    simp only [h2,h3,h4,if_false]
    rw [if_neg h5]
    exact .fin ⟨h1,h4,not_not.mp h5,le_rfl,by omega⟩
  | case12 off h1 len h2 h3 h4 =>
    simp only [len] at h2 h3
    rw [parseBlock,if_pos h1]
    simp only [h2,h3,h4,if_false]
    exact .stop
  | case13 off h1 =>
    rw [parseBlock,if_neg h1]
    exact .full (by omega)

theorem BlockTrace.isPrefix {off : Nat} {rs : List JournalRecord} (h : BlockTrace b off rs .stopped) :
    rs <+: (parseBlock b off).1 := by
  generalize he : BlockEnd.stopped = e at h
  induction h with
  | stop => exact List.nil_prefix
  | super h whole _ ih =>
    obtain ⟨h1,h2,h3⟩ := h.parse
    rw [parseBlock,if_pos h1]
    simp only [h2,h3,if_false,h.kind]
    rw [h.length,if_neg (not_not.mpr whole)]
    exact (List.prefix_cons_inj _).mpr (ih he)
  | nats h whole _ ih =>
    obtain ⟨h1,h2,h3⟩ := h.parse
    rw [parseBlock,if_pos h1]
    simp only [h2,h3,if_false,h.kind]
    rw [h.length,if_neg (not_not.mpr whole)]
    exact (List.prefix_cons_inj _).mpr (ih he)
  | sits h whole _ ih =>
    obtain ⟨h1,h2,h3⟩ := h.parse
    rw [parseBlock,if_pos h1]
    simp only [h2,h3,if_false,h.kind]
    rw [h.length,if_neg (not_not.mpr whole)]
    exact (List.prefix_cons_inj _).mpr (ih he)
  | nop => cases he
  | full => cases he
  | fin => cases he

end Block

section Tx
variable {d : CommDev} {base size : Nat}

theorem TxTrace.unfinished {f : Nat → Block} {n lpa : Nat} {rs : List JournalRecord} {e : Option Nat}
    (h : TxTrace f base size n lpa rs e) : TxTrace f base size n lpa rs none := by
  induction h with
  | out => exact .out
  | stop h => exact .stop h
  | last h => exact .stop h.stopped
  | next h _ ih => exact .next h ih

theorem read_ring (hr : RingOk d base size) {lpa : Nat} (h1 : base ≤ lpa) (h2 : lpa < base + size) :
    commRecoveryReadLpa d (UInt32.ofNat lpa) = .ok (d.blocks lpa) := by
  have hh := hr.addr lpa h1 h2
  have hto : (UInt32.ofNat lpa).toNat = lpa := by
    rw [UInt32.toNat_ofNat',Nat.mod_eq_of_lt (lt_trans hh.lt (by decide))]
  have hread := readLpa_ok (hto.symm ▸ hh)
  rwa [hto] at hread

theorem ring_next_in (hs : 0 < size) {lpa : Nat} (h1 : base ≤ lpa) (h2 : lpa < base + size) :
    base ≤ Ring.next base size lpa ∧ Ring.next base size lpa < base + size := by
  unfold Ring.next
  split <;> omega

theorem trace_parseTx (hr : RingOk d base size) (n : Nat) {lpa : Nat} (h1 : base ≤ lpa)
    (h2 : lpa < base + size) :
    TxTrace d.blocks base size n lpa (parseTx d base (base + size) n lpa).1 none ∧
      ∀ k, (parseTx d base (base + size) n lpa).2 = .ended k →
        TxTrace d.blocks base size n lpa (parseTx d base (base + size) n lpa).1
          (some ((nextJournal base (base + size))^[k] lpa)) := by
  induction n generalizing lpa with
  | zero => exact ⟨.out,fun k hk => by cases hk⟩
  | succ n ih =>
    obtain ⟨hn1,hn2⟩ := ring_next_in hr.pos h1 h2
    obtain ⟨ih1,ih2⟩ := ih hn1 hn2
    have hblock := trace_parse (d.blocks lpa) 0
    rw [parseTx,read_ring hr h1 h2]
    cases hend : (parseBlock (d.blocks lpa) 0).2 with
    | stopped =>
      simp only [hend]
      rw [hend] at hblock
      exact ⟨.stop hblock,fun k hk => by cases hk⟩
    | ended =>
      simp only [hend]
      rw [hend] at hblock
      refine ⟨.stop hblock.stopped,fun k hk => ?_⟩
      cases hk
      exact .last hblock
    | through =>
      simp only [hend]
      rw [hend] at hblock
      refine ⟨.next hblock ih1,fun k hk => ?_⟩
      cases hp : (parseTx d base (base + size) n (nextJournal base (base + size) lpa)).2 with
      | failed e => rw [hp] at hk; cases hk
      | stopped => rw [hp] at hk; cases hk
      | ended j =>
        rw [hp] at hk
        cases hk
        rw [Function.iterate_succ_apply]
        exact .next hblock (ih2 j hp)

theorem parseTx_trace (hr : RingOk d base size) {n lpa fin : Nat} {rs : List JournalRecord}
    (h1 : base ≤ lpa) (h2 : lpa < base + size) (h : TxTrace d.blocks base size n lpa rs (some fin)) :
    ∃ k, parseTx d base (base + size) n lpa = (rs,.ended k) ∧
      (nextJournal base (base + size))^[k] lpa = fin := by
  generalize he : some fin = e at h
  induction h with
  | out => cases he
  | stop => cases he
  | last h =>
    cases he
    refine ⟨0,?_,rfl⟩
    rw [parseTx,read_ring hr h1 h2]
    simp only [parse_trace h (by decide)]
  | @next n lpa rs qs e h rest ih =>
    obtain ⟨hn1,hn2⟩ := ring_next_in hr.pos h1 h2
    obtain ⟨k,hk,hfin⟩ := ih hn1 hn2 he
    refine ⟨k + 1,?_,?_⟩
    · have hk' : parseTx d base (base + size) n (nextJournal base (base + size) lpa) = (qs,.ended k) := hk
      rw [parseTx,read_ring hr h1 h2]
      simp only [parse_trace h (by decide),hk']
      rfl
    · rw [Function.iterate_succ_apply]
      exact hfin

theorem TxTrace.isPrefix (hr : RingOk d base size) {n lpa : Nat} {rs : List JournalRecord}
    (h1 : base ≤ lpa) (h2 : lpa < base + size) (h : TxTrace d.blocks base size n lpa rs none) :
    rs <+: (parseTx d base (base + size) n lpa).1 := by
  generalize he : (none : Option Nat) = e at h
  induction h with
  | out => exact List.nil_prefix
  | @stop n lpa rs h =>
    have hp := h.isPrefix
    rw [parseTx,read_ring hr h1 h2]
    cases hend : (parseBlock (d.blocks lpa) 0).2 with
    | stopped => simpa only [hend] using hp
    | ended => simpa only [hend] using hp
    | through =>
      simp only [hend]
      exact hp.trans (List.prefix_append _ _)
  | last => cases he
  | @next n lpa rs qs e h _ ih =>
    obtain ⟨hn1,hn2⟩ := ring_next_in hr.pos h1 h2
    rw [parseTx,read_ring hr h1 h2]
    simp only [parse_trace h (by decide)]
    exact (List.prefix_append_right_inj rs).mpr (ih hn1 hn2 he)

end Tx

end Rtfs
