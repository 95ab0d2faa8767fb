import Rtfs.Klib.KbtreeOrder

namespace Kbtree
variable {κ ι : Type}

-- what to take out of a subtree: a key (s = 0), its last (s = 1) or its first one (s = 2)
inductive Pick (κ : Type)
  | key (k : κ)
  | last
  | first

section Nodes

def size (h : Nat) (x : Node κ h) : Nat := (keys h x).length

def kbMerge : (h : Nat) → Node κ h → κ → Node κ h → Node κ h
  | 0, y, m, z => (keys 0 y ++ m :: keys 0 z : List κ)
  | _ + 1, y, m, z => (y.1 ++ m :: z.1,y.2 ++ z.2)

-- the last key of y moves up, m moves down in front of z
def shiftRight : (h : Nat) → Node κ h → κ → Node κ h → Option (Node κ h × κ × Node κ h)
  | 0, y, m, z => (keys 0 y).getLast?.map (fun a => ((keys 0 y).dropLast,a,m :: keys 0 z))
  | _ + 1, y, m, z => y.1.getLast?.bind (fun a => y.2.getLast?.map (fun c =>
      ((y.1.dropLast,y.2.dropLast),a,(m :: z.1,c :: z.2))))

-- the first key of z moves up, m moves down behind y
def shiftLeft : (h : Nat) → Node κ h → κ → Node κ h → Option (Node κ h × κ × Node κ h)
  | 0, y, m, z => (keys 0 z).head?.map (fun a => (keys 0 y ++ [m],a,(keys 0 z).tail))
  | _ + 1, y, m, z => z.1.head?.bind (fun a => z.2.head?.map (fun c =>
      ((y.1 ++ [m],y.2 ++ [c]),a,(z.1.tail,z.2.tail))))

variable {h : Nat} (x : Node κ (h + 1)) (i : Nat)

def childSize : Nat := (x.2[i]?.map (size h)).getD 0

def around : Option (Node κ h × κ × Node κ h) :=
  x.2[i]?.bind (fun y => x.1[i]?.bind (fun m => x.2[i + 1]?.map (fun z => (y,m,z))))

def setAround (p : Node κ h × κ × Node κ h) : Node κ (h + 1) :=
  (x.1.set i p.2.1,(x.2.set i p.1).set (i + 1) p.2.2)

-- key i goes, the children around it become one
def joinAround (y : Node κ h) : Node κ (h + 1) := (x.1.eraseIdx i,(x.2.eraseIdx (i + 1)).set i y)

variable (t : Nat)

-- child i gets a key from a sibling, or is merged with one, before it is entered
def refill : Option (Node κ (h + 1) × Nat) :=
  if childSize x i ≠ t - 1 then some (x,i)
  else if 0 < i ∧ t ≤ childSize x (i - 1) then
    (around x (i - 1)).bind (fun p => (shiftRight h p.1 p.2.1 p.2.2).map (fun q => (setAround x (i - 1) q,i)))
  else if i < x.1.length ∧ t ≤ childSize x (i + 1) then
    (around x i).bind (fun p => (shiftLeft h p.1 p.2.1 p.2.2).map (fun q => (setAround x i q,i)))
  else if 0 < i ∧ childSize x (i - 1) = t - 1 then
    (around x (i - 1)).map (fun p => (joinAround x (i - 1) (kbMerge h p.1 p.2.1 p.2.2),i - 1))
  else if i < x.1.length ∧ childSize x (i + 1) = t - 1 then
    (around x i).map (fun p => (joinAround x i (kbMerge h p.1 p.2.1 p.2.2),i))
  else some (x,i)

end Nodes

section Del
variable [LinearOrder ι] (key : κ → ι) (t : Nat)

-- no key is given for s = 1 and s = 2
def place (ks : List κ) : Pick κ → Int × Ordering
  | .key k => getpAux key ks (key k)
  | .last => ((ks.length : Int) - 1,.gt)
  | .first => (-1,.lt)

-- none: an access outside a node
def delpAux : (h : Nat) → Node κ h → Pick κ → Option (κ × Node κ h)
  | 0, ks, s =>
    let i : Int := match s with
      | .first => (place key (keys 0 ks) s).1 + 1
      | _ => (place key (keys 0 ks) s).1
    if i < 0 then none
    else (keys 0 ks)[i.toNat]?.map (fun a => (a,((keys 0 ks).eraseIdx i.toNat : List κ)))
  | h + 1, x, s =>
    let i := (place key x.1 s).1
    let descend (j : Nat) : Option (κ × Node κ (h + 1)) :=
      (refill x j t).bind (fun q => q.1.2[q.2]?.bind (fun c =>
        (delpAux h c s).map (fun r => (r.1,(q.1.1,q.1.2.set q.2 r.2)))))
    if (place key x.1 s).2 = .eq then
      if i < 0 then none
      else
        (around x i.toNat).bind (fun p =>
          if t ≤ size h p.1 then (delpAux h p.1 .last).map (fun r => (p.2.1,setAround x i.toNat (r.2,r.1,p.2.2)))
          else if t ≤ size h p.2.2 then
            (delpAux h p.2.2 .first).map (fun r => (p.2.1,setAround x i.toNat (p.1,r.1,r.2)))
          else if size h p.1 = t - 1 ∧ size h p.2.2 = t - 1 then
            match s with
            | .key k => (delpAux h (kbMerge h p.1 k p.2.2) s).map (fun r => (r.1,joinAround x i.toNat r.2))
            | _ => none
          else descend (i.toNat + 1))
    else descend (i + 1).toNat

-- an inner root without a key gives way to its only child
def dropRoot : Tree κ → Tree κ
  | ⟨h + 1,([],c :: _),n⟩ => ⟨h,c,n⟩
  | b => b

def kbDelp (b : Tree κ) (k : κ) : Option (Tree κ) :=
  (delpAux key t b.height b.root (.key k)).map (fun r => dropRoot ⟨b.height,r.2,b.nKeys - 1⟩)

end Del

section Interval
variable [LinearOrder ι] (key : κ → ι)

def narrow (ks : List κ) (i : Int) (lu : Option κ × Option κ) : Option κ × Option κ :=
  (if 0 ≤ i then ks[i.toNat]? else lu.1,if i < (ks.length : Int) - 1 then ks[(i + 1).toNat]? else lu.2)

def intervalpAux (k : ι) : (h : Nat) → Node κ h → Option κ × Option κ → Option κ × Option κ
  | 0, ks, lu =>
    let p := getpAux key (keys 0 ks) k
    if 0 ≤ p.1 ∧ p.2 = .eq then ((keys 0 ks)[p.1.toNat]?,(keys 0 ks)[p.1.toNat]?)
    else narrow (keys 0 ks) p.1 lu
  | h + 1, x, lu =>
    let p := getpAux key x.1 k
    if 0 ≤ p.1 ∧ p.2 = .eq then (x.1[p.1.toNat]?,x.1[p.1.toNat]?)
    else
      match x.2[(p.1 + 1).toNat]? with
      | none => narrow x.1 p.1 lu
      | some c => intervalpAux k h c (narrow x.1 p.1 lu)

def kbIntervalp (b : Tree κ) (k : ι) : Option κ × Option κ := intervalpAux key k b.height b.root (none,none)

end Interval

end Kbtree
