import Mathlib.Tactic

-- runs of a system whose steps carry a label
namespace Labelled

inductive Run {S L : Type} (step : S → L → S → Prop) : S → List L → S → Prop
  | nil {s : S} : Run step s [] s
  | cons {s s₁ s' : S} {l : L} {ls : List L} (h : step s l s₁) (hr : Run step s₁ ls s') : Run step s (l :: ls) s'

section Run
variable {S T L : Type} {step : S → L → S → Prop} {stepT : T → L → T → Prop}

theorem Run.keeps {I : S → Prop} {P : L → Prop} (h : ∀ s l s₁, P l → I s → step s l s₁ → I s₁) {s s' : S}
    {ls : List L} (hr : Run step s ls s') (hp : ∀ l ∈ ls, P l) (hs : I s) : I s' := by
  induction hr with
  | nil => exact hs
  | cons hstep _ ih =>
    exact ih (fun l hl => hp l (List.mem_cons_of_mem _ hl)) (h _ _ _ (hp _ List.mem_cons_self) hs hstep)

theorem Run.simulates {R : S → T → Prop}
    (h : ∀ s t l s₁, R s t → step s l s₁ → ∃ t₁, stepT t l t₁ ∧ R s₁ t₁) {s s' : S} {t : T} {ls : List L}
    (hr : Run step s ls s') (hst : R s t) : ∃ t', Run stepT t ls t' ∧ R s' t' := by
  induction hr generalizing t with
  | nil => exact ⟨t,.nil,hst⟩
  | cons hs _ ih =>
    obtain ⟨t₁,ht,hst₁⟩ := h _ _ _ _ hst hs
    obtain ⟨t',hrun,hst'⟩ := ih hst₁
    exact ⟨t',.cons ht hrun,hst'⟩

theorem Run.append {s s₁ s' : S} {ls ls' : List L} (hr : Run step s ls s₁) (hr' : Run step s₁ ls' s') :
    Run step s (ls ++ ls') s' := by
  induction hr with
  | nil => exact hr'
  | cons h _ ih => exact .cons h (ih hr')

theorem Run.relabel {M : Type} {f : L → M} {stepM : S → M → S → Prop} (h : ∀ s l s₁, step s l s₁ → stepM s (f l) s₁)
    {s s' : S} {ls : List L} (hr : Run step s ls s') : Run stepM s (ls.map f) s' := by
  induction hr with
  | nil => exact .nil
  | cons hs _ ih => exact .cons (h _ _ _ hs) ih

theorem Run.balanced {β : Type} {I : S → Prop} {held : S → List β} {taken returned : L → List β}
    (h : ∀ s l s₁, I s → step s l s₁ → I s₁ ∧ (held s₁ ++ returned l).Perm (held s ++ taken l)) {s s' : S}
    {ls : List L} (hr : Run step s ls s') (hs : I s) :
    (held s' ++ ls.flatMap returned).Perm (held s ++ ls.flatMap taken) := by
  induction hr with
  | nil => exact .refl _
  | @cons _ _ _ l ls hstep _ ih =>
    obtain ⟨hs₁,hone⟩ := h _ _ _ hs hstep
    rw [List.flatMap_cons,List.flatMap_cons]
    refine (List.perm_append_comm_assoc _ _ _).trans (((ih hs₁).append_left _).trans ?_)
    refine (List.perm_append_comm_assoc _ _ _).trans ?_
    rw [← List.append_assoc,← List.append_assoc]
    exact hone.append_right _

end Run

end Labelled
