/-
Calls in flight over a shared state. A call is the list of the atomic steps it
still has to make; making one may change the shared state and put further steps
in front. In a run calls start at any time and make their steps in any order.
`total w` adds up a weight of the steps that are still to be made.
-/
import InferenceScheduler.Lib.Count
import InferenceScheduler.Lib.Run
import Mathlib.Algebra.Order.Ring.Int

namespace InferenceScheduler.Interleave

/-- The shared state, and the steps the calls still have to make; a call that has
returned keeps its place. -/
structure State (σ ι : Type*) where
  shared : σ
  calls : List (List ι)

/-- A call starts, or the one at a place makes a step; `κ` is what the environment
decides. -/
inductive Label (β κ : Type*)
  | start (b : β)
  | run (call : Nat) (choice : κ)
  deriving DecidableEq

/-- Starting a call and making a step; `none` where it is not possible or the process
ends in a panic. -/
structure Machine (σ ι β κ : Type*) where
  start : σ → β → Option (σ × List ι)
  exec : σ → ι → κ → Option (σ × List ι)

section

variable {σ ι β κ : Type*} (M : Machine σ ι β κ)

def step (s : State σ ι) : Label β κ → Option (State σ ι)
  | .start b => (M.start s.shared b).map fun r => { shared := r.1, calls := s.calls ++ [r.2] }
  | .run call choice =>
    match s.calls[call]? with
    | some (i :: todo) =>
      (M.exec s.shared i choice).map fun r => { shared := r.1, calls := s.calls.set call (r.2 ++ todo) }
    | _ => none

end

section

variable {σ ι β κ : Type*} {M : Machine σ ι β κ} {s s' : State σ ι}

/-- Some call is going to make the step. -/
def Pending (s : State σ ι) (i : ι) : Prop := ∃ c ∈ s.calls, i ∈ c

/-- **What a step of the system is.** -/
theorem step_cases {l : Label β κ} (h : step M s l = some s') :
    (∃ b x todo, l = .start b ∧ M.start s.shared b = some (x, todo) ∧
      s' = { shared := x, calls := s.calls ++ [todo] }) ∨
    (∃ k choice i todo x more, l = .run k choice ∧ s.calls[k]? = some (i :: todo) ∧
      M.exec s.shared i choice = some (x, more) ∧ s' = { shared := x, calls := s.calls.set k (more ++ todo) }) := by
  cases l with
  | start b =>
    obtain ⟨⟨x, todo⟩, hb, rfl⟩ := Option.map_eq_some_iff.mp h
    exact .inl ⟨b, x, todo, rfl, hb, rfl⟩
  | run k choice =>
    simp only [step] at h
    split at h
    · rename_i i todo hk
      obtain ⟨⟨x, more⟩, hx, rfl⟩ := Option.map_eq_some_iff.mp h
      exact .inr ⟨k, choice, i, todo, x, more, rfl, hk, hx, rfl⟩
    · cases h

variable {i : ι} {k : Nat} {todo c : List ι}

theorem Pending.of_getElem? (h : s.calls[k]? = some (i :: todo)) : Pending s i :=
  ⟨_, List.mem_of_getElem? h, .head _⟩

variable {x : σ}

theorem pending_start (h : Pending ⟨x, s.calls ++ [todo]⟩ i) : Pending s i ∨ i ∈ todo := by
  obtain ⟨c, hc, hi⟩ := h
  rcases List.mem_append.mp hc with hc | hc
  · exact .inl ⟨c, hc, hi⟩
  · rw [List.mem_singleton.mp hc] at hi
    exact .inr hi

theorem pending_run {j : ι} {more : List ι} (hk : s.calls[k]? = some (i :: todo))
    (h : Pending ⟨x, s.calls.set k (more ++ todo)⟩ j) : Pending s j ∨ j ∈ more := by
  obtain ⟨c, hc, hj⟩ := h
  rcases List.mem_or_eq_of_mem_set hc with hc | rfl
  · exact .inl ⟨c, hc, hj⟩
  · rcases List.mem_append.mp hj with hj | hj
    · exact .inr hj
    · exact .inl ⟨_, List.mem_of_getElem? hk, .tail _ hj⟩

theorem call_start (h : s.calls[k]? = some c) : (s.calls ++ [todo])[k]? = some c := by
  rw [List.getElem?_append_left (List.getElem?_eq_some_iff.mp h).1, h]

theorem call_run {k' : Nat} {c' : List ι} (h : s.calls[k]? = some c) (hne : k' ≠ k) :
    (s.calls.set k' c')[k]? = some c := by
  rw [List.getElem?_set_ne hne, h]

theorem call_run_self {c' : List ι} (h : s.calls[k]? = some c) : (s.calls.set k c')[k]? = some c' :=
  List.getElem?_set_self (List.getElem?_eq_some_iff.mp h).1

theorem reaches_run {choice : κ} {more : List ι} (hk : s.calls[k]? = some (i :: todo))
    (hx : M.exec s.shared i choice = some (x, more)) :
    Reaches (step M) Any s { shared := x, calls := s.calls.set k (more ++ todo) } := by
  refine .next .init (a := .run k choice) trivial ?_
  rw [step, hk]
  exact congrArg (Option.map _) hx

/-! ## Weights -/

/-- The weight of the steps a call still has to make. -/
def callWeight (w : ι → Int) (c : List ι) : Int := (c.map w).sum

/-- The weight of all steps that are still to be made. -/
def total (w : ι → Int) (s : State σ ι) : Int := (s.calls.map (callWeight w)).sum

theorem callWeight_append (w : ι → Int) (c c' : List ι) :
    callWeight w (c ++ c') = callWeight w c + callWeight w c' := by
  simp only [callWeight, List.map_append, List.sum_append]

variable {w : ι → Int}

theorem total_start : total w ⟨x, s.calls ++ [todo]⟩ = total w s + callWeight w todo := by
  simp only [total, List.map_append, List.map_cons, List.map_nil, List.sum_append, List.sum_cons, List.sum_nil]
  omega

theorem total_run {more : List ι} (hk : s.calls[k]? = some (i :: todo)) :
    total w ⟨x, s.calls.set k (more ++ todo)⟩ = total w s - w i + callWeight w more := by
  simp only [total]
  rw [sum_map_set (callWeight w) hk, callWeight_append]
  simp only [callWeight, List.map_cons, List.sum_cons]
  omega

theorem Pending.le_total (hw : ∀ i, 0 ≤ w i) (h : Pending s i) : w i ≤ total w s := by
  obtain ⟨c, hc, hi⟩ := h
  have hcall : w i ≤ callWeight w c := by
    refine List.single_le_sum (fun v hv => ?_) _ (List.mem_map_of_mem hi)
    obtain ⟨j, -, rfl⟩ := List.mem_map.mp hv
    exact hw j
  refine hcall.trans (List.single_le_sum (fun v hv => ?_) _ (List.mem_map_of_mem hc))
  obtain ⟨c', -, rfl⟩ := List.mem_map.mp hv
  refine List.sum_nonneg fun v hv => ?_
  obtain ⟨j, -, rfl⟩ := List.mem_map.mp hv
  exact hw j

/-- No call is in flight. -/
def quiescent (s : State σ ι) : Bool := s.calls.all List.isEmpty

theorem total_of_quiescent (h : quiescent s = true) : total w s = 0 := by
  have hzero : ∀ v ∈ s.calls.map (callWeight w), v = 0 := by
    intro v hv
    obtain ⟨c, hc, rfl⟩ := List.mem_map.mp hv
    have := List.all_eq_true.mp h c hc
    rw [List.isEmpty_iff] at this
    rw [this]
    rfl
  exact List.sum_eq_zero hzero

end

end InferenceScheduler.Interleave
