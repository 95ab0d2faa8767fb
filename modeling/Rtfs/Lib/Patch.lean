import Mathlib.Logic.Function.Basic
import Rtfs.Lib.ByteBuf

structure Patch (κ : Type) where
  block : κ
  off : Nat
  bytes : List UInt8

namespace Patch

variable {κ : Type} {n : Nat}

def Covers (w : Patch κ) (k : κ) (i : Nat) : Prop :=
  w.block = k ∧ w.off ≤ i ∧ i < w.off + w.bytes.length

def Covered (ws : List (Patch κ)) (k : κ) (i : Nat) : Prop := ∃ w ∈ ws, w.Covers k i

def AgreeOff (S : κ → Nat → Prop) (f g : κ → Buf n) : Prop :=
  ∀ k i, ¬ S k i → (f k).get i = (g k).get i

theorem AgreeOff.refl (S : κ → Nat → Prop) (f : κ → Buf n) : AgreeOff S f f := fun _ _ _ => rfl

theorem AgreeOff.trans {S : κ → Nat → Prop} {f g h : κ → Buf n} (hf : AgreeOff S f g)
    (hg : AgreeOff S g h) : AgreeOff S f h := fun k i hs => (hf k i hs).trans (hg k i hs)

theorem AgreeOff.mono {S T : κ → Nat → Prop} {f g : κ → Buf n} (h : AgreeOff S f g)
    (hst : ∀ k i, S k i → T k i) : AgreeOff T f g := fun k i ht => h k i (fun hs => ht (hst k i hs))

theorem AgreeOff.eq {S : κ → Nat → Prop} {f g : κ → Buf n} (h : AgreeOff S f g) {k : κ}
    (hk : ∀ i, ¬ S k i) : f k = g k := Buf.ext_get (fun i _ => h k i (hk i))

theorem covered_append (us ws : List (Patch κ)) (k : κ) (i : Nat) :
    Covered (us ++ ws) k i ↔ Covered us k i ∨ Covered ws k i := by
  simp only [Covered,List.mem_append,or_and_right,exists_or]

variable [DecidableEq κ]

def put (f : κ → Buf n) (w : Patch κ) : κ → Buf n :=
  Function.update f w.block ((f w.block).write w.off w.bytes)

def putAll (f : κ → Buf n) (ws : List (Patch κ)) : κ → Buf n := ws.foldl put f

theorem putAll_append (f : κ → Buf n) (us ws : List (Patch κ)) :
    putAll f (us ++ ws) = putAll (putAll f us) ws := List.foldl_append ..

theorem get_put_outside (f : κ → Buf n) (w : Patch κ) {k : κ} {i : Nat} (h : ¬ w.Covers k i) :
    (put f w k).get i = (f k).get i := by
  unfold put
  rcases eq_or_ne k w.block with rfl | hne
  · rw [Function.update_self]
    apply Buf.get_write_frame
    unfold Covers at h
    simp only [true_and] at h
    omega
  · rw [Function.update_of_ne hne]

theorem get_put_inside (f g : κ → Buf n) (w : Patch κ) {k : κ} {i : Nat} (h : w.Covers k i) :
    (put f w k).get i = (put g w k).get i := by
  obtain ⟨rfl,hoff,hlt⟩ := h
  unfold put
  rw [Function.update_self,Function.update_self]
  obtain ⟨j,rfl⟩ := Nat.exists_eq_add_of_le hoff
  rcases Nat.lt_or_ge (w.off + j) n with hn | hn
  · rw [Buf.get_write_inside _ _ _ (by omega) hn,Buf.get_write_inside _ _ _ (by omega) hn]
  · simp [Buf.get,Nat.not_lt.mpr hn]

theorem put_agree {S : κ → Nat → Prop} {f g : κ → Buf n} (h : AgreeOff S f g) (w : Patch κ) :
    AgreeOff (fun k i => S k i ∧ ¬ w.Covers k i) (put f w) (put g w) := by
  intro k i hs
  by_cases hc : w.Covers k i
  · exact get_put_inside f g w hc
  · rw [get_put_outside f w hc,get_put_outside g w hc]
    exact h k i (fun hk => hs ⟨hk,hc⟩)

theorem putAll_agree {S : κ → Nat → Prop} {f g : κ → Buf n} (h : AgreeOff S f g) (ws : List (Patch κ)) :
    AgreeOff (fun k i => S k i ∧ ¬ Covered ws k i) (putAll f ws) (putAll g ws) := by
  induction ws generalizing S f g with
  | nil => exact h.mono (fun k i hs => ⟨hs,by simp [Covered]⟩)
  | cons w ws ih =>
    refine (ih (put_agree h w)).mono (fun k i hs => ⟨hs.1.1,?_⟩)
    rintro ⟨v,hv,hc⟩
    rcases List.mem_cons.mp hv with rfl | hv
    · exact hs.1.2 hc
    · exact hs.2 ⟨v,hv,hc⟩

theorem putAll_absorb {f g : κ → Buf n} {ws : List (Patch κ)} (h : AgreeOff (Covered ws) f g) :
    putAll f ws = putAll g ws := by
  funext k
  exact (putAll_agree h ws).eq (fun i hs => hs.2 hs.1)

theorem putAll_outside (f : κ → Buf n) (ws : List (Patch κ)) : AgreeOff (Covered ws) (putAll f ws) f := by
  induction ws generalizing f with
  | nil => exact .refl _ f
  | cons w ws ih =>
    refine ((ih (put f w)).mono (fun k i ⟨v,hv,hc⟩ => ⟨v,List.mem_cons_of_mem _ hv,hc⟩)).trans ?_
    intro k i hs
    exact get_put_outside f w (fun hc => hs ⟨w,List.mem_cons_self,hc⟩)

theorem putAll_again (f : κ → Buf n) (ws : List (Patch κ)) :
    putAll (putAll f ws) ws = putAll f ws := putAll_absorb (putAll_outside f ws)

end Patch
