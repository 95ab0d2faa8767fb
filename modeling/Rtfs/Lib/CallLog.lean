import Mathlib.Tactic

-- what a run has come to when its loops have been given some number of rounds
inductive Outcome (α : Type)
  | returned (a : α)
  | aborted
  | running

def Outcome.toOption {α : Type} : Outcome α → Option α
  | .returned a => some a
  | _ => none

structure Logged (κ α : Type) where
  calls : List κ
  outcome : Outcome α

namespace Logged

variable {κ α β : Type}

def done (a : α) : Logged κ α := ⟨[],.returned a⟩

def abort : Logged κ α := ⟨[],.aborted⟩

def quiet (o : Outcome α) : Logged κ α := ⟨[],o⟩

def bind (x : Logged κ α) (f : α → Logged κ β) : Logged κ β :=
  match x.outcome with
  | .returned a => ⟨x.calls ++ (f a).calls,(f a).outcome⟩
  | .aborted => ⟨x.calls,.aborted⟩
  | .running => ⟨x.calls,.running⟩

def map (g : α → β) (x : Logged κ α) : Logged κ β := x.bind (fun a => done (g a))

def result (x : Logged κ α) : Option α := x.outcome.toOption

@[simp] theorem result_done (a : α) : (done a : Logged κ α).result = some a := rfl

@[simp] theorem result_abort : (abort : Logged κ α).result = none := rfl

theorem result_bind (x : Logged κ α) (f : α → Logged κ β) :
    (x.bind f).result = x.result.bind (fun a => (f a).result) := by
  unfold bind result
  cases x.outcome <;> rfl

theorem result_map (g : α → β) (x : Logged κ α) : (x.map g).result = x.result.map g := by
  unfold map
  rw [result_bind]
  cases x.result <;> rfl

def AllGood (Good : List κ → κ → Prop) (h calls : List κ) : Prop :=
  ∀ h1 a h2, calls = h1 ++ a :: h2 → Good (h ++ h1) a

section Good
variable {Good : List κ → κ → Prop} {h : List κ}

theorem allGood_nil : AllGood Good h [] := fun h1 a h2 he => by simp at he

theorem allGood_cons (a : κ) (calls : List κ) :
    AllGood Good h (a :: calls) ↔ Good h a ∧ AllGood Good (h ++ [a]) calls := by
  constructor
  · intro hg
    refine ⟨by simpa using hg [] a calls rfl,fun h1 b h2 he => ?_⟩
    have hb := hg (a :: h1) b h2 (by rw [he]; rfl)
    rwa [List.append_assoc]
  · rintro ⟨ha,hrest⟩ h1 b h2 he
    cases h1 with
    | nil =>
      cases he
      simpa using ha
    | cons c h1 =>
      cases he
      have hb := hrest h1 b h2 rfl
      rwa [List.append_assoc] at hb

theorem allGood_append (us ws : List κ) :
    AllGood Good h (us ++ ws) ↔ AllGood Good h us ∧ AllGood Good (h ++ us) ws := by
  induction us generalizing h with
  | nil => simp [allGood_nil]
  | cons u us ih =>
    rw [List.cons_append,allGood_cons,allGood_cons,ih,List.append_assoc,and_assoc]
    rfl

theorem allGood_single (a : κ) : AllGood Good h [a] ↔ Good h a := by
  rw [allGood_cons]
  exact and_iff_left allGood_nil

end Good

structure Obeys (Good : List κ → κ → Prop) (x : Logged κ α) (h : List κ) (Post : α → List κ → Prop) : Prop where
  running : x.outcome = .running ↔ ¬ AllGood Good h x.calls
  post : ∀ a, x.outcome = .returned a → Post a (h ++ x.calls)

section Obeys
variable {Good : List κ → κ → Prop} {h : List κ} {Post : α → List κ → Prop} {Next : β → List κ → Prop}

theorem obeys_done {a : α} (hp : Post a h) : Obeys Good (done a) h Post := by
  refine ⟨iff_of_false (fun he => by cases he) (not_not.mpr allGood_nil),fun b hb => ?_⟩
  cases hb
  rw [done,List.append_nil]
  exact hp

theorem obeys_abort : Obeys Good (abort : Logged κ α) h Post :=
  ⟨iff_of_false (fun he => by cases he) (not_not.mpr allGood_nil),fun b hb => by cases hb⟩

theorem Obeys.bind {x : Logged κ α} {f : α → Logged κ β} (hx : Obeys Good x h Post)
    (hf : ∀ a h', Post a h' → Obeys Good (f a) h' Next) : Obeys Good (x.bind f) h Next := by
  obtain ⟨calls,outcome⟩ := x
  cases outcome with
  | aborted => exact ⟨iff_of_false (fun he => by cases he) (fun hn => by cases hx.running.mpr hn),fun b hb => by cases hb⟩
  | running => exact ⟨iff_of_true rfl (hx.running.mp rfl),fun b hb => by cases hb⟩
  | returned a =>
    have hgood : AllGood Good h calls := by
      by_contra hn
      cases hx.running.mpr hn
    have ha := hf a _ (hx.post a rfl)
    refine ⟨?_,fun b hb => ?_⟩
    · change (f a).outcome = _ ↔ ¬ AllGood Good h (calls ++ (f a).calls)
      rw [allGood_append,and_iff_right hgood]
      exact ha.running
    · change Next b (h ++ (calls ++ (f a).calls))
      rw [← List.append_assoc]
      exact ha.post b hb

theorem Obeys.map {x : Logged κ α} {g : α → β} (hx : Obeys Good x h Post)
    (hg : ∀ a h', Post a h' → Next (g a) h') : Obeys Good (x.map g) h Next :=
  hx.bind (fun a h' hp => obeys_done (hg a h' hp))

end Obeys

end Logged
