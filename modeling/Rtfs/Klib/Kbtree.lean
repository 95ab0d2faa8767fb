import Mathlib.Data.List.Basic
import Mathlib.Data.List.Pairwise
import Mathlib.Order.Basic
import Mathlib.Tactic

namespace Kbtree

def Node (κ : Type) : Nat → Type
  | 0 => List κ
  | h + 1 => List κ × List (Node κ h)

variable {κ ι : Type}

def keys : (h : Nat) → Node κ h → List κ
  | 0, ks => ks
  | _ + 1, x => x.1

structure Tree (κ : Type) where
  height : Nat
  root : Node κ height
  nKeys : Nat

def kbInit : Tree κ := ⟨0,([] : List κ),0⟩

def kbSize (b : Tree κ) : Nat := b.nKeys

section Search
variable [LinearOrder ι] (key : κ → ι)

def Sorted (l : List κ) : Prop := l.Pairwise (fun a b => key a ≤ key b)

def lowerBound (ks : List κ) (k : ι) (lo hi : Nat) : Nat :=
  if lo < hi then
    if ks[(lo + hi) / 2]?.any (fun a => key a < k) then lowerBound ks k ((lo + hi) / 2 + 1) hi
    else lowerBound ks k lo ((lo + hi) / 2)
  else lo
termination_by hi - lo

def getpAux (ks : List κ) (k : ι) : Int × Ordering :=
  if ks.length = 0 then (-1,.eq)
  else
    let lo := lowerBound key ks k 0 ks.length
    match ks[lo]? with
    | none => ((ks.length : Int) - 1,.gt)
    | some a => if k < key a then ((lo : Int) - 1,.lt) else (lo,compare k (key a))

def slot (ks : List κ) (k : ι) : Nat := ((getpAux key ks k).1 + 1).toNat

theorem lowerBound_spec (ks : List κ) (hs : Sorted key ks) (k : ι) (lo hi : Nat)
    (hlh : lo ≤ hi) (hhi : hi ≤ ks.length)
    (hb : ∀ i (hl : i < ks.length), i < lo → key (ks.get ⟨i,hl⟩) < k)
    (ha : ∀ i (hl : i < ks.length), hi ≤ i → k ≤ key (ks.get ⟨i,hl⟩)) :
    lowerBound key ks k lo hi ≤ ks.length ∧
    (∀ i (hl : i < ks.length), i < lowerBound key ks k lo hi → key (ks.get ⟨i,hl⟩) < k) ∧
    (∀ i (hl : i < ks.length), lowerBound key ks k lo hi ≤ i → k ≤ key (ks.get ⟨i,hl⟩)) := by
  induction lo, hi using lowerBound.induct key ks k with
  | case1 lo hi hlt hmid ih =>
    rw [lowerBound,if_pos hlt,if_pos hmid]
    have hm : (lo + hi) / 2 < ks.length := by omega
    have hk : key (ks.get ⟨_,hm⟩) < k := by
      simpa [List.getElem?_eq_getElem hm] using hmid
    refine ih (by omega) hhi (fun i hi' hlt' => ?_) ha
    rcases Nat.lt_or_eq_of_le (Nat.lt_succ_iff.mp hlt') with h | h
    · exact lt_of_le_of_lt (List.pairwise_iff_get.mp hs ⟨i,hi'⟩ ⟨_,hm⟩ h) hk
    · subst h
      exact hk
  | case2 lo hi hlt hmid ih =>
    rw [lowerBound,if_pos hlt,if_neg hmid]
    have hm : (lo + hi) / 2 < ks.length := by omega
    have hk : k ≤ key (ks.get ⟨_,hm⟩) := by
      simpa [List.getElem?_eq_getElem hm] using hmid
    refine ih (by omega) (by omega) hb (fun i hi' hle => ?_)
    rcases Nat.lt_or_eq_of_le hle with h | h
    · exact le_trans hk (List.pairwise_iff_get.mp hs ⟨_,hm⟩ ⟨i,hi'⟩ h)
    · subst h
      exact hk
  | case3 lo hi hge =>
    rw [lowerBound,if_neg hge]
    exact ⟨by omega,hb,fun i hi' hle => ha i hi' (by omega)⟩

theorem slot_spec (ks : List κ) (hs : Sorted key ks) (k : ι) :
    slot key ks k ≤ ks.length ∧ (∀ b ∈ ks.take (slot key ks k), key b ≤ k) ∧
    (∀ b ∈ ks.drop (slot key ks k), k ≤ key b) := by
  have hlb := lowerBound_spec key ks hs k 0 ks.length (Nat.zero_le _) le_rfl
    (fun i _ h => absurd h (Nat.not_lt_zero i)) (fun i hi h => absurd hi (by omega))
  obtain ⟨hle,hbelow,habove⟩ := hlb
  have split (s : Nat) (h1 : ∀ i (hi : i < ks.length), i < s → key (ks.get ⟨i,hi⟩) ≤ k)
      (h2 : ∀ i (hi : i < ks.length), s ≤ i → k ≤ key (ks.get ⟨i,hi⟩)) :
      (∀ b ∈ ks.take s, key b ≤ k) ∧ (∀ b ∈ ks.drop s, k ≤ key b) := by
    constructor
    · intro b hb
      obtain ⟨i,hi,rfl⟩ := List.mem_iff_getElem.mp hb
      simp only [List.length_take,lt_min_iff] at hi
      simpa using h1 i hi.2 hi.1
    · intro b hb
      obtain ⟨i,hi,rfl⟩ := List.mem_iff_getElem.mp hb
      simp only [List.length_drop] at hi
      simpa using h2 (s + i) (by omega) (by omega)
  unfold slot getpAux
  by_cases hn : ks.length = 0
  · simp [List.length_eq_zero_iff.mp hn]
  · simp only [hn,if_false]
    by_cases hlt : lowerBound key ks k 0 ks.length < ks.length
    · simp only [List.getElem?_eq_getElem hlt]
      by_cases hk : k < key (ks.get ⟨_,hlt⟩)
      · have hk' : k < key ks[lowerBound key ks k 0 ks.length] := hk
        simp only [hk',if_true,Int.sub_add_cancel,Int.toNat_natCast]
        exact ⟨hle,split _ (fun i hi h => le_of_lt (hbelow i hi h)) habove⟩
      · have hk' : ¬ k < key ks[lowerBound key ks k 0 ks.length] := hk
        simp only [hk',if_false]
        rw [show ((lowerBound key ks k 0 ks.length : Int) + 1).toNat =
          lowerBound key ks k 0 ks.length + 1 by omega]
        refine ⟨hlt,split _ (fun i hi h => ?_) (fun i hi h => habove i hi (by omega))⟩
        rcases Nat.lt_or_eq_of_le (Nat.lt_succ_iff.mp h) with h' | h'
        · exact le_of_lt (hbelow i hi h')
        · subst h'
          exact not_lt.mp hk
    · rw [List.getElem?_eq_none (by omega)]
      simp only [Int.sub_add_cancel,Int.toNat_natCast]
      exact ⟨le_rfl,split _ (fun i hi _ => le_of_lt (hbelow i hi (by omega)))
        (fun i hi h => absurd hi (by omega))⟩

end Search

section Put

def splitLeft (t : Nat) : (h : Nat) → Node κ h → Node κ h
  | 0, ks => (List.take (t - 1) ks : List κ)
  | _ + 1, y => (y.1.take (t - 1),y.2.take t)

def splitRight (t : Nat) : (h : Nat) → Node κ h → Node κ h
  | 0, ks => (List.drop t ks : List κ)
  | _ + 1, y => (y.1.drop t,y.2.drop t)

def kbSplit (t : Nat) {h : Nat} (x : Node κ (h + 1)) (i : Nat) (y : Node κ h) : Node κ (h + 1) :=
  match (keys h y)[t - 1]? with
  | none => x
  | some m => (x.1.take i ++ m :: x.1.drop i,
      x.2.take i ++ splitLeft t h y :: splitRight t h y :: x.2.drop (i + 1))

variable [LinearOrder ι] (key : κ → ι) (t : Nat)

def route (k : ι) {h : Nat} (x : Node κ (h + 1)) : Node κ (h + 1) × Nat :=
  let i := slot key x.1 k
  match x.2[i]? with
  | none => (x,i)
  | some y =>
    if (keys h y).length = 2 * t - 1 then
      let x' := kbSplit t x i y
      (x',if x'.1[i]?.any (fun m => key m < k) then i + 1 else i)
    else (x,i)

def putpAux (a : κ) : (h : Nat) → Node κ h → Node κ h
  | 0, ks => (List.take (slot key ks (key a)) ks ++ a :: List.drop (slot key ks (key a)) ks : List κ)
  | h + 1, x =>
    let p := route key t (key a) x
    match p.1.2[p.2]? with
    | none => p.1
    | some z => (p.1.1,p.1.2.set p.2 (putpAux a h z))

def growRoot (b : Tree κ) : Tree κ :=
  if (keys b.height b.root).length = 2 * t - 1 then
    ⟨b.height + 1,kbSplit t (([],[b.root]) : Node κ (b.height + 1)) 0 b.root,b.nKeys⟩
  else b

def kbPutp (b : Tree κ) (a : κ) : Tree κ :=
  let b' := growRoot t b
  ⟨b'.height,putpAux key t a b'.height b'.root,b.nKeys + 1⟩

end Put

end Kbtree
