/-
Runs of a labelled step function `step : σ → α → Option σ`: the label carries
every choice the environment makes, so a concrete run can be evaluated.

`Reaches step ok s₀ s` restricts the runs to those whose every step meets `ok`;
a property of all runs takes `ok := Any`.
-/
import Mathlib.Logic.Basic

namespace InferenceScheduler

section Run

variable {σ α : Type*}

/-- Some run from `s₀`, each of whose steps meets `ok`, ends in the state. -/
inductive Reaches (step : σ → α → Option σ) (ok : σ → α → Prop) (s₀ : σ) : σ → Prop
  | init : Reaches step ok s₀ s₀
  | next {s a s'} : Reaches step ok s₀ s → ok s a → step s a = some s' → Reaches step ok s₀ s'

/-- No condition on the steps. -/
def Any : σ → α → Prop := fun _ _ => True

variable {step : σ → α → Option σ} {ok ok' : σ → α → Prop} {s₀ s s' : σ}

theorem Reaches.invariant (I : σ → Prop) (h₀ : I s₀)
    (hstep : ∀ s a s', I s → ok s a → step s a = some s' → I s') (h : Reaches step ok s₀ s) : I s := by
  induction h with
  | init => exact h₀
  | next _ hok hs ih => exact hstep _ _ _ ih hok hs

theorem Reaches.mono (I : σ → Prop) (hI : ∀ s, Reaches step ok s₀ s → I s)
    (hok : ∀ s a, I s → ok s a → ok' s a) (h : Reaches step ok s₀ s) : Reaches step ok' s₀ s := by
  induction h with
  | init => exact .init
  | next hr h hs ih => exact .next ih (hok _ _ (hI _ hr) h) hs

theorem Reaches.project {τ β : Type*} {step' : τ → β → Option τ} {okPart : τ → β → Prop} (f : σ → τ)
    (hf : ∀ s a s', ok s a → step s a = some s' →
      f s' = f s ∨ ∃ b, okPart (f s) b ∧ step' (f s) b = some (f s'))
    (h : Reaches step ok s₀ s) : Reaches step' okPart (f s₀) (f s) := by
  induction h with
  | init => exact .init
  | next _ hok hs ih =>
    rcases hf _ _ _ hok hs with he | ⟨b, hb, hs'⟩
    · rw [he]
      exact ih
    · exact .next ih hb hs'

/-- Running a list of labels. -/
def run (step : σ → α → Option σ) : σ → List α → Option σ
  | s, [] => some s
  | s, a :: as => (step s a).bind (run step · as)

theorem Reaches.trans (h : Reaches step ok s₀ s) (h' : Reaches step ok s s') : Reaches step ok s₀ s' := by
  induction h' with
  | init => exact h
  | next _ hok hs ih => exact .next ih hok hs

theorem reaches_of_run : ∀ {as : List α} {s₀ s : σ}, run step s₀ as = some s → Reaches step Any s₀ s
  | [], _, _, h => by
    simp only [run] at h
    cases h
    exact .init
  | a :: as, s₀, s, h => by
    simp only [run, Option.bind_eq_some_iff] at h
    obtain ⟨s₁, hs, hr⟩ := h
    exact (Reaches.next .init trivial hs).trans (reaches_of_run hr)

/-- Running a list of labels as long as every step meets the condition. -/
def runIf (step : σ → α → Option σ) (ok : σ → α → Prop) [∀ s a, Decidable (ok s a)] : σ → List α → Option σ
  | s, [] => some s
  | s, a :: as => if ok s a then (step s a).bind (runIf step ok · as) else none

theorem reaches_of_runIf [∀ s a, Decidable (ok s a)] : ∀ {as : List α} {s₀ s : σ},
    runIf step ok s₀ as = some s → Reaches step ok s₀ s
  | [], _, _, h => by
    simp only [runIf] at h
    cases h
    exact .init
  | a :: as, s₀, s, h => by
    simp only [runIf] at h
    split at h
    · rename_i hok
      obtain ⟨s₁, hs, hr⟩ := Option.bind_eq_some_iff.mp h
      exact (Reaches.next .init hok hs).trans (reaches_of_runIf hr)
    · cases h

theorem exists_of_run (step : σ → α → Option σ) (s₀ : σ) (as : List α) (p : σ → Prop) [DecidablePred p]
    (h : (run step s₀ as).any (p ·) = true) : ∃ s, Reaches step Any s₀ s ∧ p s := by
  obtain ⟨s, hs, hp⟩ := (Option.any_eq_true ..).mp h
  exact ⟨s, reaches_of_run hs, of_decide_eq_true hp⟩

theorem exists_of_runIf (step : σ → α → Option σ) (ok : σ → α → Prop) [∀ s a, Decidable (ok s a)] (s₀ : σ)
    (as : List α) (p : σ → Prop) [DecidablePred p] (h : (runIf step ok s₀ as).any (p ·) = true) :
    ∃ s, Reaches step ok s₀ s ∧ p s := by
  obtain ⟨s, hs, hp⟩ := (Option.any_eq_true ..).mp h
  exact ⟨s, reaches_of_runIf hs, of_decide_eq_true hp⟩

end Run

end InferenceScheduler
