import Mathlib.Data.List.Basic
import Mathlib.Tactic

structure ByteFile where
  size : Nat
  byte : Nat → UInt8
  past : ∀ i, size ≤ i → byte i = 0

namespace ByteFile

def empty : ByteFile := ⟨0,fun _ => 0,fun _ _ => rfl⟩

def write (F : ByteFile) (off : Nat) (bs : List UInt8) : ByteFile where
  size := if bs = [] then F.size else max F.size (off + bs.length)
  byte i := if off ≤ i then bs[i - off]?.getD (F.byte i) else F.byte i
  past i hi := by
    split_ifs at hi with hnil
    · simp [hnil,F.past i hi]
    · split_ifs with hoff
      · rw [List.getElem?_eq_none (by omega)]
        exact F.past i (by omega)
      · exact F.past i (by omega)

def resize (F : ByteFile) (n : Nat) : ByteFile where
  size := n
  byte i := if i < n then F.byte i else 0
  past _ hi := if_neg (Nat.not_lt.mpr hi)

def zeroFrom (F : ByteFile) (n : Nat) : ByteFile where
  size := F.size
  byte i := if i < n then F.byte i else 0
  past i hi := by
    split_ifs
    · exact F.past i hi
    · rfl

def read (F : ByteFile) (off count : Nat) : List UInt8 :=
  (List.range (min (F.size - off) count)).map (fun i => F.byte (off + i))

-- a served call got all that it needed
inductive Event
  | read (off count : Nat) (served : Bool) (r : Option (List UInt8))
  | write (off : Nat) (bs : List UInt8) (served : Bool) (r : Option Nat)
  | resize (n : Nat)
  | keep

inductive Step (F : ByteFile) : Event → ByteFile → Prop
  | read {off count : Nat} {served : Bool} {bytes : List UInt8} (hp : bytes <+: F.read off count)
      (hs : served = true → bytes = F.read off count) : Step F (.read off count served (some bytes)) F
  | readFailed {off count : Nat} : Step F (.read off count false none) F
  | write {off : Nat} {bs : List UInt8} {served : Bool} {n : Nat} (hn : n ≤ bs.length)
      (hs : served = true → n = bs.length) : Step F (.write off bs served (some n)) (F.write off (bs.take n))
  | writeFailed {off : Nat} {bs : List UInt8} : Step F (.write off bs false none) F
  | resize {n : Nat} : Step F (.resize n) (F.resize n)
  | keep : Step F .keep F

section Bytes
variable (F : ByteFile)

@[ext] theorem ext {F G : ByteFile} (hsize : F.size = G.size) (hbyte : ∀ i, F.byte i = G.byte i) : F = G := by
  obtain ⟨size,byte,past⟩ := F
  obtain ⟨size',byte',past'⟩ := G
  have hb : byte = byte' := funext hbyte
  have hs : size = size' := hsize
  subst hb
  subst hs
  rfl

theorem write_nil (off : Nat) : F.write off [] = F := by
  refine ext (by simp [write]) (fun i => ?_)
  simp [write]

theorem write_append (off : Nat) {xs : List UInt8} (hne : xs ≠ []) (ys : List UInt8) :
    (F.write off xs).write (off + xs.length) ys = F.write off (xs ++ ys) := by
  have hpos := List.length_pos_of_ne_nil hne
  refine ext ?_ (fun i => ?_)
  · by_cases hys : ys = []
    · subst hys
      rw [write_nil,List.append_nil]
    · simp only [write,if_neg hys,List.append_eq_nil_iff,hne,false_and,if_false,List.length_append]
      omega
  · simp only [write]
    by_cases hoff : off ≤ i
    · simp only [if_pos hoff]
      by_cases hin : off + xs.length ≤ i
      · rw [if_pos hin,List.getElem?_append_right (by omega),show i - off - xs.length = i - (off + xs.length) by omega,
          List.getElem?_eq_none (l := xs) (by omega)]
        rfl
      · rw [if_neg hin,List.getElem?_append_left (by omega)]
    · rw [if_neg hoff,if_neg hoff,if_neg (by omega)]

theorem write_inside (off : Nat) {i : Nat} {bs : List UInt8} (h : i < bs.length) : (F.write off bs).byte (off + i) = bs[i] := by
  simp [write,h]

theorem write_outside {off i : Nat} {bs : List UInt8} (h : i < off ∨ off + bs.length ≤ i) :
    (F.write off bs).byte i = F.byte i := by
  simp only [write]
  split
  · rw [List.getElem?_eq_none (by omega)]
    rfl
  · rfl

theorem read_add (off n k : Nat) (h : off + n ≤ F.size) :
    F.read off (n + k) = F.read off n ++ F.read (off + n) k := by
  unfold read
  rw [show min (F.size - off) (n + k) = n + min (F.size - (off + n)) k by omega,
    show min (F.size - off) n = n by omega,List.range_add,List.map_append,List.map_map]
  simp only [Function.comp_def,Nat.add_assoc]

end Bytes

end ByteFile
