import Mathlib.Data.List.Basic
import Mathlib.Tactic

def Buf (n : Nat) : Type := Fin n → UInt8

namespace Buf
variable {n : Nat}

def get (b : Buf n) (i : Nat) : UInt8 := if h : i < n then b ⟨i,h⟩ else 0

def write (b : Buf n) (off : Nat) (bs : List UInt8) : Buf n :=
  fun i => if off ≤ i.val then bs[i.val - off]?.getD (b i) else b i

def read (b : Buf n) (off len : Nat) : List UInt8 :=
  (List.range len).map (fun i => b.get (off + i))

def zero : Buf n := fun _ => 0

instance : DecidableEq (Buf n) := inferInstanceAs (DecidableEq (Fin n → UInt8))

theorem ext_get {b c : Buf n} (h : ∀ i < n, b.get i = c.get i) : b = c := by
  funext i
  simpa [get,i.isLt] using h i.val i.isLt

@[simp] theorem get_zero (i : Nat) : (zero : Buf n).get i = 0 := by
  unfold get zero
  split <;> rfl

theorem get_write (b : Buf n) (off : Nat) (bs : List UInt8) {i : Nat} (hi : i < n) :
    (b.write off bs).get i = if off ≤ i then bs[i - off]?.getD (b.get i) else b.get i := by
  simp [get,write,hi]

theorem get_write_frame (b : Buf n) (off : Nat) (bs : List UInt8) {i : Nat}
    (hi : i < off ∨ off + bs.length ≤ i) : (b.write off bs).get i = b.get i := by
  by_cases hn : i < n
  · rw [get_write b off bs hn]
    split
    · rw [List.getElem?_eq_none (by omega)]
      rfl
    · rfl
  · simp [get,hn]

theorem get_write_inside (b : Buf n) (off : Nat) (bs : List UInt8) {i : Nat}
    (hb : i < bs.length) (hn : off + i < n) :
    (b.write off bs).get (off + i) = bs.get ⟨i,hb⟩ := by
  rw [get_write b off bs hn]
  simp [hb]

@[simp] theorem length_read (b : Buf n) (off len : Nat) : (b.read off len).length = len := by
  simp [read]

@[simp] theorem read_nil (b : Buf n) (off : Nat) : b.read off 0 = [] := rfl

theorem read_add (b : Buf n) (off m k : Nat) :
    b.read off (m + k) = b.read off m ++ b.read (off + m) k := by
  simp [read,List.range_add,List.map_map,Function.comp_def,Nat.add_assoc]

theorem read_congr {b c : Buf n} {off len : Nat}
    (h : ∀ i, off ≤ i → i < off + len → b.get i = c.get i) : b.read off len = c.read off len := by
  simp only [read,List.map_inj_left,List.mem_range]
  intro i hi
  exact h (off + i) (by omega) (by omega)

theorem read_write_self (b : Buf n) (off : Nat) (bs : List UInt8) (h : off + bs.length ≤ n) :
    (b.write off bs).read off bs.length = bs := by
  apply List.ext_getElem (by simp)
  intro i h1 h2
  simp only [read,List.getElem_map,List.getElem_range]
  exact get_write_inside b off bs h2 (by omega)

theorem read_write_disjoint (b : Buf n) (off : Nat) (bs : List UInt8) (off' len : Nat)
    (h : off' + len ≤ off ∨ off + bs.length ≤ off') :
    (b.write off bs).read off' len = b.read off' len :=
  read_congr (fun i h1 h2 => get_write_frame b off bs (by omega))

theorem read_prefix {b : Buf n} {off : Nat} {xs ys : List UInt8} {len : Nat}
    (h : b.read off len = xs ++ ys) : b.read off xs.length = xs := by
  have hl : len = xs.length + ys.length := by simpa using congrArg List.length h
  rw [hl,read_add] at h
  exact (List.append_inj h (by simp)).1

theorem read_suffix {b : Buf n} {off : Nat} {xs ys : List UInt8} {len : Nat}
    (h : b.read off len = xs ++ ys) : b.read (off + xs.length) ys.length = ys := by
  have hl : len = xs.length + ys.length := by simpa using congrArg List.length h
  rw [hl,read_add] at h
  exact (List.append_inj h (by simp)).2

def ofBytes (bs : List UInt8) : Buf n := fun i => bs[i.val]?.getD 0

theorem ofBytes_read (b : Buf n) : ofBytes (b.read 0 n) = b := by
  funext i
  simp [ofBytes,read,get,i.isLt]

end Buf

structure Codec (α : Type) where
  size : Nat
  encode : α → List UInt8
  decode : List UInt8 → α
  length_encode : ∀ a, (encode a).length = size
  decode_encode : ∀ a, decode (encode a) = a

namespace Codec
variable {α β : Type}

attribute [simp] length_encode decode_encode

def u32Bytes (x : UInt32) : List UInt8 :=
  [UInt8.ofNat x.toNat,UInt8.ofNat (x.toNat / 256),UInt8.ofNat (x.toNat / 65536),
    UInt8.ofNat (x.toNat / 16777216)]

def u32OfBytes (bs : List UInt8) : UInt32 :=
  UInt32.ofNat ((bs.getD 0 0).toNat + 256 * (bs.getD 1 0).toNat + 65536 * (bs.getD 2 0).toNat +
    16777216 * (bs.getD 3 0).toNat)

theorem u32_decode_encode (x : UInt32) : u32OfBytes (u32Bytes x) = x := by
  apply UInt32.toNat_inj.mp
  have hx := x.toNat_lt
  simp only [u32OfBytes,u32Bytes,List.getD_cons_zero,List.getD_cons_succ,UInt8.toNat_ofNat',
    UInt32.toNat_ofNat']
  omega

def u16Bytes (x : UInt16) : List UInt8 := [UInt8.ofNat x.toNat,UInt8.ofNat (x.toNat / 256)]

def u16OfBytes (bs : List UInt8) : UInt16 :=
  UInt16.ofNat ((bs.getD 0 0).toNat + 256 * (bs.getD 1 0).toNat)

theorem u16_decode_encode (x : UInt16) : u16OfBytes (u16Bytes x) = x := by
  apply UInt16.toNat_inj.mp
  have hx := x.toNat_lt
  simp only [u16OfBytes,u16Bytes,List.getD_cons_zero,List.getD_cons_succ,UInt8.toNat_ofNat',
    UInt16.toNat_ofNat']
  omega

def u32 : Codec UInt32 where
  size := 4
  encode := u32Bytes
  decode := u32OfBytes
  length_encode := fun _ => rfl
  decode_encode := u32_decode_encode

def u16 : Codec UInt16 where
  size := 2
  encode := u16Bytes
  decode := u16OfBytes
  length_encode := fun _ => rfl
  decode_encode := u16_decode_encode

def buf (n : Nat) : Codec (Buf n) where
  size := n
  encode := fun b => b.read 0 n
  decode := Buf.ofBytes
  length_encode := fun b => b.length_read 0 n
  decode_encode := Buf.ofBytes_read

def pair (c : Codec α) (d : Codec β) : Codec (α × β) where
  size := c.size + d.size
  encode := fun p => c.encode p.1 ++ d.encode p.2
  decode := fun bs => (c.decode (bs.take c.size),d.decode (bs.drop c.size))
  length_encode := fun p => by simp
  decode_encode := fun p => by
    rw [List.take_left' (c.length_encode p.1),List.drop_left' (c.length_encode p.1)]
    simp

def iso (c : Codec α) (f : α → β) (g : β → α) (h : ∀ b, f (g b) = b) : Codec β where
  size := c.size
  encode := fun b => c.encode (g b)
  decode := fun bs => f (c.decode bs)
  length_encode := fun b => c.length_encode (g b)
  decode_encode := fun b => by rw [c.decode_encode,h]

variable (c : Codec α)

def encodeList (es : List α) : List UInt8 := es.flatMap c.encode

def decodeList : Nat → List UInt8 → List α
  | 0, _ => []
  | k + 1, bs => c.decode (bs.take c.size) :: decodeList k (bs.drop c.size)

@[simp] theorem length_encodeList (es : List α) :
    (c.encodeList es).length = es.length * c.size := by
  induction es with
  | nil => simp [encodeList]
  | cons e es ih =>
    simp only [encodeList,List.flatMap_cons,List.length_append,length_encode,List.length_cons] at ih ⊢
    rw [ih,Nat.add_mul,Nat.one_mul,Nat.add_comm]

theorem decodeList_encodeList (es : List α) (tail : List UInt8) :
    c.decodeList es.length (c.encodeList es ++ tail) = es := by
  induction es with
  | nil => rfl
  | cons e es ih =>
    have hs : c.encodeList (e :: es) ++ tail = c.encode e ++ (c.encodeList es ++ tail) := by
      simp [encodeList]
    rw [List.length_cons,decodeList,hs,List.take_left' (c.length_encode e),
      List.drop_left' (c.length_encode e),c.decode_encode,ih]

end Codec

namespace Buf
variable {n : Nat} {α : Type}

def getAs (c : Codec α) (b : Buf n) (off : Nat) : α := c.decode (b.read off c.size)

def setAs (c : Codec α) (b : Buf n) (off : Nat) (a : α) : Buf n := b.write off (c.encode a)

theorem getAs_setAs_self (c : Codec α) (b : Buf n) (off : Nat) (a : α) (h : off + c.size ≤ n) :
    getAs c (setAs c b off a) off = a := by
  unfold getAs setAs
  have hr := read_write_self b off (c.encode a) (by simpa using h)
  rw [c.length_encode] at hr
  rw [hr,c.decode_encode]

theorem getAs_setAs_disjoint {β : Type} (c : Codec α) (d : Codec β) (b : Buf n) (off off' : Nat)
    (a : α) (h : off' + d.size ≤ off ∨ off + c.size ≤ off') :
    getAs d (setAs c b off a) off' = getAs d b off' := by
  unfold getAs setAs
  rw [read_write_disjoint b off (c.encode a) off' d.size (by simpa using h)]

end Buf
