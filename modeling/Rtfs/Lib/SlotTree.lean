import Mathlib.Logic.Function.Basic
import Mathlib.Data.List.Basic
import Mathlib.Tactic

namespace SlotTree

-- nodes are named by words, their cells hold words, and 0 names no node
abbrev Heap (W : Type) := W → Option (Nat → W)

inductive Found (W : Type)
  | hole
  | lost
  | node (n : W)

inductive PutError
  | lost
  | missing
  | full
  deriving DecidableEq

variable {W : Type} [DecidableEq W] [Zero W]

def step (h : Heap W) : Found W → Nat → Found W
  | .hole, _ => .hole
  | .lost, _ => .lost
  | .node n, i =>
    match h n with
    | none => .lost
    | some c => if c i = 0 then .hole else .node (c i)

def reach (h : Heap W) (root : W) (p : List Nat) : Found W := p.foldl (step h) (.node root)

def value (h : Heap W) (i : Nat) : Found W → Option W
  | .hole => some 0
  | .lost => none
  | .node n => (h n).map (fun c => c i)

def read (h : Heap W) (root : W) (p : List Nat) (i : Nat) : Option W := value h i (reach h root p)

def write (h : Heap W) (n : W) (i : Nat) (v : W) : Heap W :=
  fun n' => (h n').map (fun c => if n' = n then Function.update c i v else c)

def link (h : Heap W) (n : W) (i : Nat) (m : W) : Heap W :=
  write (Function.update h m (some (fun _ => 0))) n i m

def put (h : Heap W) (fresh : List W) (n v : W) (create : Bool) :
    List Nat → Nat → Except PutError W × Heap W × List W
  | [], i =>
    match h n with
    | none => (.error .lost,h,fresh)
    | some c => (.ok (c i),write h n i v,fresh)
  | j :: p, i =>
    match h n with
    | none => (.error .lost,h,fresh)
    | some c =>
      if c j ≠ 0 then put h fresh (c j) v create p i
      else if v = 0 then (.ok 0,h,fresh)
      else if create = false then (.error .missing,h,fresh)
      else
        match fresh with
        | [] => (.error .full,h,fresh)
        | m :: fresh => put (link h n j m) fresh m v create p i

structure Shape (Index : List Nat → Prop) : Prop where
  closed : ∀ p i, Index (p ++ [i]) → Index p

structure Slot (Index : List Nat → Prop) (p : List Nat) (i : Nat) : Prop where
  index : Index p
  leaf : ¬ Index (p ++ [i])

structure Tree (Index : List Nat → Prop) (h : Heap W) (root : W) (fresh : List W) : Prop where
  inj : ∀ p q n, Index p → Index q → reach h root p = .node n → reach h root q = .node n → p = q
  nonzero : ∀ m ∈ fresh, m ≠ 0
  nodup : fresh.Nodup
  unused : ∀ m ∈ fresh, ∀ p, Index p → reach h root p ≠ .node m

section Steps
variable {h : Heap W} {root n : W} {p q : List Nat} {i j : Nat}

theorem reach_concat (h : Heap W) (root : W) (p : List Nat) (i : Nat) :
    reach h root (p ++ [i]) = step h (reach h root p) i := by
  simp [reach]

theorem reach_child {c : Nat → W} (hp : reach h root p = .node n) (hc : h n = some c)
    (hi : c i ≠ 0) : reach h root (p ++ [i]) = .node (c i) := by
  simp [reach_concat,hp,step,hc,hi]

theorem reach_hole {c : Nat → W} (hp : reach h root p = .node n) (hc : h n = some c)
    (hi : c i = 0) : reach h root (p ++ [i]) = .hole := by
  simp [reach_concat,hp,step,hc,hi]

theorem reach_hole_append (hp : reach h root p = .hole) (q : List Nat) :
    reach h root (p ++ q) = .hole := by
  induction q using List.reverseRecOn with
  | nil => simpa using hp
  | append_singleton q j ih => rw [← List.append_assoc,reach_concat,ih,step]

theorem reach_lost_append (hp : reach h root p = .lost) (q : List Nat) :
    reach h root (p ++ q) = .lost := by
  induction q using List.reverseRecOn with
  | nil => simpa using hp
  | append_singleton q j ih => rw [← List.append_assoc,reach_concat,ih,step]

omit [Zero W] in
theorem write_self (h : Heap W) (n : W) (i : Nat) (v : W) :
    write h n i v n = (h n).map (fun c => Function.update c i v) := by
  simp [write]

omit [Zero W] in
theorem write_ne (h : Heap W) {n n' : W} (i : Nat) (v : W) (hne : n' ≠ n) :
    write h n i v n' = h n' := by
  simp [write,hne]

theorem link_new (h : Heap W) {n m : W} (i : Nat) (hne : m ≠ n) :
    link h n i m m = some (fun _ => 0) := by
  rw [link,write_ne _ _ _ hne,Function.update_self]

theorem link_self (h : Heap W) {n m : W} (i : Nat) (hne : m ≠ n) :
    link h n i m n = (h n).map (fun c => Function.update c i m) := by
  rw [link,write_self,Function.update_of_ne hne.symm]

theorem link_ne (h : Heap W) {n m n' : W} (i : Nat) (hn : n' ≠ n) (hm : n' ≠ m) :
    link h n i m n' = h n' := by
  rw [link,write_ne _ _ _ hn,Function.update_of_ne hm]

end Steps

section Updates
variable {Index : List Nat → Prop} {h : Heap W} {root n m v : W} {fresh : List W}
  {p : List Nat} {i : Nat}

theorem write_reach (hs : Shape Index) (ht : Tree Index h root fresh) (hp : Slot Index p i)
    (hn : reach h root p = .node n) (v : W) :
    ∀ q, Index q → reach (write h n i v) root q = reach h root q := by
  intro q hq
  induction q using List.reverseRecOn with
  | nil => rfl
  | append_singleton q j ih =>
    have hq' := hs.closed q j hq
    rw [reach_concat,reach_concat,ih hq']
    cases hr : reach h root q with
    | hole => rfl
    | lost => rfl
    | node n' =>
      by_cases he : n' = n
      · subst he
        have hqp : q = p := ht.inj q p n' hq' hp.index hr hn
        have hj : j ≠ i := by
          rintro rfl
          exact hp.leaf (hqp ▸ hq)
        simp only [step,write_self]
        cases h n' with
        | none => rfl
        | some c => simp [hj]
      · simp only [step,write_ne _ _ _ he]

theorem write_read (hs : Shape Index) (ht : Tree Index h root fresh) (hp : Slot Index p i)
    (hn : reach h root p = .node n) {c : Nat → W} (hc : h n = some c) (v : W) {q : List Nat} {j : Nat}
    (hq : Slot Index q j) :
    read (write h n i v) root q j = if q = p ∧ j = i then some v else read h root q j := by
  unfold read
  rw [write_reach hs ht hp hn v q hq.index]
  cases hr : reach h root q with
  | hole =>
    have hne : ¬ (q = p ∧ j = i) := by
      rintro ⟨rfl,_⟩
      exact absurd (hr.symm.trans hn) (by simp)
    rw [if_neg hne]
    rfl
  | lost =>
    have hne : ¬ (q = p ∧ j = i) := by
      rintro ⟨rfl,_⟩
      exact absurd (hr.symm.trans hn) (by simp)
    rw [if_neg hne]
    rfl
  | node n' =>
    by_cases he : n' = n
    · subst he
      have hqp : q = p := ht.inj q p n' hq.index hp.index hr hn
      simp only [value,write_self,hc,Option.map_some,hqp,true_and]
      by_cases hj : j = i
      · simp [hj]
      · simp [hj]
    · have hne : ¬ (q = p ∧ j = i) := by
        rintro ⟨rfl,_⟩
        exact he (Found.node.inj (hr.symm.trans hn))
      rw [if_neg hne]
      simp only [value,write_ne _ _ _ he]

theorem write_tree (hs : Shape Index) (ht : Tree Index h root fresh) (hp : Slot Index p i)
    (hn : reach h root p = .node n) (v : W) : Tree Index (write h n i v) root fresh := by
  have hr := write_reach hs ht hp hn v
  refine ⟨fun q q' n' hq hq' h1 h2 => ?_,ht.nonzero,ht.nodup,fun m hm q hq => ?_⟩
  · rw [hr q hq] at h1
    rw [hr q' hq'] at h2
    exact ht.inj q q' n' hq hq' h1 h2
  · rw [hr q hq]
    exact ht.unused m hm q hq

variable {c : Nat → W}

theorem link_reach (hs : Shape Index) (ht : Tree Index h root (m :: fresh)) (hp : Index (p ++ [i]))
    (hn : reach h root p = .node n) (hc : h n = some c) (hi : c i = 0) :
    ∀ q, Index q → reach (link h n i m) root q =
      if q = p ++ [i] then .node m else reach h root q := by
  have hm0 := ht.nonzero m List.mem_cons_self
  have hmn : m ≠ n := by
    rintro rfl
    exact ht.unused m List.mem_cons_self p (hs.closed p i hp) hn
  intro q hq
  induction q using List.reverseRecOn with
  | nil =>
    rw [if_neg (by simp)]
    rfl
  | append_singleton q j ih =>
    have hq' := hs.closed q j hq
    rw [reach_concat,ih hq']
    by_cases hqp : q = p ++ [i]
    -- below the new node there was a hole, and the new node is all zero
    · have hne : q ++ [j] ≠ p ++ [i] := by
        rw [hqp]
        simp
      rw [if_pos hqp,if_neg hne,reach_concat,hqp,reach_hole hn hc hi]
      simp only [step,link_new h i hmn,if_true]
    · rw [if_neg hqp,reach_concat]
      cases hr : reach h root q with
      | hole =>
        have hne : q ++ [j] ≠ p ++ [i] := by
          intro he
          have hqp' := (List.append_inj' he rfl).1
          rw [hqp',hn] at hr
          cases hr
        rw [if_neg hne]
        rfl
      | lost =>
        have hne : q ++ [j] ≠ p ++ [i] := by
          intro he
          have hqp' := (List.append_inj' he rfl).1
          rw [hqp',hn] at hr
          cases hr
        rw [if_neg hne]
        rfl
      | node n' =>
        have hnm : n' ≠ m := by
          rintro rfl
          exact ht.unused n' List.mem_cons_self q hq' hr
        by_cases he : n' = n
        · subst he
          have hqp' : q = p := ht.inj q p n' hq' (hs.closed p i hp) hr hn
          subst hqp'
          simp only [step,link_self h i hmn,hc,Option.map_some]
          by_cases hj : j = i
          · simp [hj,hm0]
          · simp [hj]
        · have hne : q ++ [j] ≠ p ++ [i] := by
            intro heq
            have hqp' := (List.append_inj' heq rfl).1
            rw [hqp',hn] at hr
            exact he (Found.node.inj hr).symm
          rw [if_neg hne]
          simp only [step,link_ne h i he hnm]

theorem link_read (hs : Shape Index) (ht : Tree Index h root (m :: fresh)) (hp : Index (p ++ [i]))
    (hn : reach h root p = .node n) (hc : h n = some c) (hi : c i = 0) {q : List Nat} {j : Nat}
    (hq : Slot Index q j) : read (link h n i m) root q j = read h root q j := by
  have hmn : m ≠ n := by
    rintro rfl
    exact ht.unused m List.mem_cons_self p (hs.closed p i hp) hn
  unfold read
  rw [link_reach hs ht hp hn hc hi q hq.index]
  by_cases hqp : q = p ++ [i]
  · rw [if_pos hqp,hqp,reach_hole hn hc hi]
    simp only [value,link_new h i hmn,Option.map_some]
  · rw [if_neg hqp]
    cases hr : reach h root q with
    | hole => rfl
    | lost => rfl
    | node n' =>
      have hnm : n' ≠ m := by
        rintro rfl
        exact ht.unused n' List.mem_cons_self q hq.index hr
      by_cases he : n' = n
      · subst he
        have hqp' : q = p := ht.inj q p n' hq.index (hs.closed p i hp) hr hn
        have hj : j ≠ i := by
          rintro rfl
          exact hq.leaf (hqp' ▸ hp)
        simp only [value,link_self h i hmn,hc,Option.map_some,Function.update_of_ne hj]
      · simp only [value,link_ne h i he hnm]

theorem link_tree (hs : Shape Index) (ht : Tree Index h root (m :: fresh)) (hp : Index (p ++ [i]))
    (hn : reach h root p = .node n) (hc : h n = some c) (hi : c i = 0) :
    Tree Index (link h n i m) root fresh := by
  have hr := link_reach hs ht hp hn hc hi
  obtain ⟨hm,hnodup⟩ := List.nodup_cons.mp ht.nodup
  refine ⟨fun q q' n' hq hq' h1 h2 => ?_,fun m' hm' => ht.nonzero m' (List.mem_cons_of_mem _ hm'),
    hnodup,fun m' hm' q hq => ?_⟩
  · rw [hr q hq] at h1
    rw [hr q' hq'] at h2
    have hfresh := ht.unused m List.mem_cons_self
    split at h1
    · rename_i he
      cases h1
      split at h2
      · rename_i he'
        rw [he,he']
      · exact absurd h2 (hfresh q' hq')
    · split at h2
      · cases h2
        exact absurd h1 (hfresh q hq)
      · exact ht.inj q q' n' hq hq' h1 h2
  · rw [hr q hq]
    split
    · intro he
      exact hm (Found.node.inj he ▸ hm')
    · exact ht.unused m' (List.mem_cons_of_mem _ hm') q hq

end Updates

structure Put (Index : List Nat → Prop) (h : Heap W) (root : W) (p : List Nat) (i : Nat) (v : W)
    (r : Except PutError W × Heap W × List W) : Prop where
  tree : Tree Index r.2.1 root r.2.2
  kept : ∀ q j, Slot Index q j → ¬ (q = p ∧ j = i) → read r.2.1 root q j = read h root q j
  old : ∀ old, r.1 = .ok old → read h root p i = some old ∧ read r.2.1 root p i = some v
  failed : ∀ e, r.1 = .error e → read r.2.1 root p i = read h root p i

omit [Zero W] in
theorem write_isSome {h : Heap W} {n' : W} (n : W) (i : Nat) (v : W) (hs : (h n').isSome) :
    (write h n i v n').isSome := by
  simpa [write] using hs

theorem link_isSome {h : Heap W} {n' : W} (n : W) (i : Nat) (m : W) (hs : (h n').isSome) :
    (link h n i m n').isSome := by
  apply write_isSome
  by_cases hm : n' = m
  · simp [hm]
  · rwa [Function.update_of_ne hm]

theorem put_isSome {h : Heap W} {n' : W} (fresh : List W) (n v : W) (create : Bool) (p : List Nat)
    (i : Nat) (hs : (h n').isSome) : ((put h fresh n v create p i).2.1 n').isSome := by
  induction p generalizing h fresh n with
  | nil =>
    cases hc : h n with
    | none => simpa [put,hc] using hs
    | some c =>
      simp only [put,hc]
      exact write_isSome n i v hs
  | cons j p ih =>
    cases hc : h n with
    | none => simpa [put,hc] using hs
    | some c =>
      simp only [put,hc]
      split
      · exact ih fresh (c j) hs
      · split
        · exact hs
        · split
          · exact hs
          · cases fresh with
            | nil => exact hs
            | cons m fresh => exact ih fresh m (link_isSome n j m hs)

theorem tree_of_zero {Index : List Nat → Prop} (hs : Shape Index) {h : Heap W} {root : W}
    {c : Nat → W} {fresh : List W} (hc : h root = some c) (hz : ∀ i, Index [i] → c i = 0)
    (hnodup : fresh.Nodup) (hnz : ∀ m ∈ fresh, m ≠ 0 ∧ m ≠ root) : Tree Index h root fresh := by
  have hhole : ∀ p, Index p → p ≠ [] → reach h root p = .hole := by
    intro p hp hne
    induction p using List.reverseRecOn with
    | nil => exact absurd rfl hne
    | append_singleton p i ih =>
      by_cases hp0 : p = []
      · subst hp0
        exact reach_hole (p := []) rfl hc (hz i hp)
      · exact reach_hole_append (ih (hs.closed p i hp) hp0) [i]
  have hroot : ∀ p n, Index p → reach h root p = .node n → p = [] ∧ n = root := by
    intro p n hp hn
    by_cases hp0 : p = []
    · subst hp0
      exact ⟨rfl,(Found.node.inj hn).symm⟩
    · rw [hhole p hp hp0] at hn
      cases hn
  refine ⟨fun p q n hp hq h1 h2 => ?_,fun m hm => (hnz m hm).1,hnodup,fun m hm p hp hn => ?_⟩
  · rw [(hroot p n hp h1).1,(hroot q n hq h2).1]
  · exact (hnz m hm).2 (hroot p m hp hn).2

theorem index_append {Index : List Nat → Prop} (hs : Shape Index) {p q : List Nat}
    (h : Index (p ++ q)) : Index p := by
  induction q using List.reverseRecOn with
  | nil => simpa using h
  | append_singleton q i ih => exact ih (hs.closed _ i (by simpa using h))

theorem put_spec {Index : List Nat → Prop} (hs : Shape Index) {h : Heap W} {root n : W}
    {fresh : List W} (ht : Tree Index h root fresh) (pre : List Nat) {p : List Nat} {i : Nat} (v : W)
    (create : Bool) (hp : Slot Index (pre ++ p) i) (hn : reach h root pre = .node n) :
    Put Index h root (pre ++ p) i v (put h fresh n v create p i) := by
  induction p generalizing h fresh n pre with
  | nil =>
    rw [List.append_nil] at hp ⊢
    rw [put]
    cases hc : h n with
    | none => exact ⟨ht,fun _ _ _ _ => rfl,(fun _ ho => nomatch ho),fun _ _ => rfl⟩
    | some c =>
      have hread : read h root pre i = some (c i) := by simp [read,hn,value,hc]
      have hw {q : List Nat} {j : Nat} (hq : Slot Index q j) := write_read hs ht hp hn hc v hq
      refine ⟨write_tree hs ht hp hn v,fun q j hq hne => ?_,fun old ho => ?_,fun _ he => nomatch he⟩
      · exact (hw hq).trans (if_neg hne)
      · cases ho
        exact ⟨hread,(hw hp).trans (if_pos ⟨rfl,rfl⟩)⟩
  | cons j p ih =>
    have hassoc : pre ++ j :: p = (pre ++ [j]) ++ p := by simp
    rw [hassoc] at hp ⊢
    have hj : Index (pre ++ [j]) := index_append hs hp.index
    cases hc : h n with
    | none =>
      simp only [put,hc]
      exact ⟨ht,fun _ _ _ _ => rfl,(fun _ ho => nomatch ho),fun _ _ => rfl⟩
    | some c =>
      simp only [put,hc]
      split
      · rename_i hnz
        exact ih ht (pre ++ [j]) hp (reach_child hn hc hnz)
      · rename_i hz
        rw [not_not] at hz
        split
        · rename_i hv
          have hread : read h root ((pre ++ [j]) ++ p) i = some 0 := by
            rw [read,reach_hole_append (reach_hole hn hc hz)]
            rfl
          refine ⟨ht,fun _ _ _ _ => rfl,fun old ho => ?_,fun _ _ => rfl⟩
          cases ho
          exact ⟨hread,hread.trans (congrArg some hv.symm)⟩
        · split
          · exact ⟨ht,fun _ _ _ _ => rfl,(fun _ ho => nomatch ho),fun _ _ => rfl⟩
          · cases fresh with
            | nil => exact ⟨ht,fun _ _ _ _ => rfl,(fun _ ho => nomatch ho),fun _ _ => rfl⟩
            | cons m fresh =>
              have hl {q : List Nat} {k : Nat} (hq : Slot Index q k) := link_read hs ht hj hn hc hz hq
              have hm : reach (link h n j m) root (pre ++ [j]) = .node m := by
                rw [link_reach hs ht hj hn hc hz _ hj,if_pos rfl]
              have hrest := ih (link_tree hs ht hj hn hc hz) (pre ++ [j]) hp hm
              refine ⟨hrest.tree,fun q k hq hne => (hrest.kept q k hq hne).trans (hl hq),
                fun old ho => ?_,fun e he => (hrest.failed e he).trans (hl hp)⟩
              obtain ⟨hold,hnew⟩ := hrest.old old ho
              exact ⟨(hl hp).symm.trans hold,hnew⟩

-- nothing is created on the way to a slot that is cleared
theorem put_clear (h : Heap W) (fresh : List W) (n : W) (create : Bool) (p : List Nat) (i : Nat) :
    (put h fresh n 0 create p i).1 = (read h n p i).elim (.error .lost) .ok := by
  induction p generalizing n with
  | nil =>
    simp only [put,read,reach,List.foldl_nil,value]
    cases h n with
    | none => rfl
    | some c => rfl
  | cons j p ih =>
    cases hc : h n with
    | none =>
      have hlost : reach h n ([j] ++ p) = .lost := reach_lost_append (by simp [reach,step,hc]) p
      rw [List.singleton_append] at hlost
      simp only [put,hc,read,hlost,value]
      rfl
    | some c =>
      by_cases hj : c j = 0
      · have hhole : reach h n ([] ++ [j] ++ p) = .hole := reach_hole_append (reach_hole rfl hc hj) p
        rw [List.nil_append,List.singleton_append] at hhole
        simp only [put,hc,hj,ne_eq,not_true_eq_false,if_false,if_true,read,hhole,value]
        rfl
      · have hchild : read h n (j :: p) i = read h (c j) p i := by
          unfold read
          congr 1
          simp [reach,step,hc,hj]
        simp only [put,hc,ne_eq,hj,not_false_eq_true,if_true,hchild]
        exact ih (c j)

end SlotTree
