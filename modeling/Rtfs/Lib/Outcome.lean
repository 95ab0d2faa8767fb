namespace Rtfs

section Outcome
variable {ε α β : Type} {x : Except ε α}

theorem Except.bind_ok {f : α → Except ε β} {r : β} (h : (x >>= f) = .ok r) : ∃ a, x = .ok a ∧ f a = .ok r := by
  cases x with
  | error e => cases h
  | ok a => exact ⟨a,rfl,h⟩

theorem Except.map_ok {f : α → β} {r : β} (h : x.map f = .ok r) : ∃ a, x = .ok a ∧ f a = r := by
  cases x with
  | error e => cases h
  | ok a =>
    cases h
    exact ⟨a,rfl,rfl⟩

theorem ok_of_toOption {a : α} (h : x.toOption = some a) : x = .ok a := by
  cases x with
  | error e => cases h
  | ok b => exact congrArg _ (Option.some.inj h)

theorem Except.bind_ne {f : α → Except ε β} {e : ε} (hx : x ≠ .error e) (hf : ∀ a, f a ≠ .error e) :
    x.bind f ≠ .error e := by
  cases x with
  | error e' => exact fun h => hx (congrArg Except.error (Except.error.inj h))
  | ok a => exact hf a

theorem Except.map_ne {f : α → β} {e : ε} (hx : x ≠ .error e) : x.map f ≠ .error e := by
  cases x with
  | error e' => exact fun h => hx (congrArg Except.error (Except.error.inj h))
  | ok a => exact nofun

theorem foldlM_ne {f : β → α → Except ε β} {e : ε} (hf : ∀ b a, f b a ≠ .error e) (l : List α) (b : β) :
    l.foldlM f b ≠ .error e := by
  induction l generalizing b with
  | nil => exact nofun
  | cons a l ih => exact Except.bind_ne (hf b a) ih

end Outcome

theorem foldlM_simulates {σ τ α : Type} {view : σ → τ} {f : σ → α → Option σ} {g : τ → α → Option τ}
    {I : List α → σ → Prop} (hstep : ∀ a l s, I (a :: l) s → (f s a).map view = g (view s) a ∧
      ∀ s', f s a = some s' → I l s') (l : List α) {s : σ} (h : I l s) :
    (l.foldlM f s).map view = l.foldlM g (view s) ∧ ∀ s', l.foldlM f s = some s' → I [] s' := by
  induction l generalizing s with
  | nil =>
    refine ⟨rfl,fun s' hs' => ?_⟩
    cases hs'
    exact h
  | cons a l ih =>
    obtain ⟨hview,hnext⟩ := hstep a l s h
    rw [List.foldlM_cons,List.foldlM_cons,← hview]
    cases hf : f s a with
    | none => exact ⟨rfl,nofun⟩
    | some s₁ => exact ih (hnext s₁ hf)

end Rtfs
