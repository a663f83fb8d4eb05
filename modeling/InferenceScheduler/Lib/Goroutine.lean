/-
Programs of goroutines that call their environment, and what a panic does to the
process that runs them. A program is a tree: at a call it waits for a reply,
which selects the branch it goes on with; `go` starts a goroutine.

A panic ends its goroutine and, unless recovered, the process. `contained_iff`
rests on `Occurs`: what goroutines come to are the subtrees of the first
program.
-/
import InferenceScheduler.Lib.Run
import Mathlib.Data.List.Basic

namespace InferenceScheduler

/-- `R c` are the replies to the call `c`. -/
inductive Prog (C : Type) (R : C → Type)
  | done
  | panic
  | call (c : C) (next : R c → Prog C R)
  /-- `recovers`: the new goroutine has a deferred function that recovers. -/
  | go (recovers : Bool) (child next : Prog C R)

namespace Prog

variable {C : Type} {R : C → Type}

/-- The goroutine's own calls when `answer` replies (a call without an answer
panics), and whether it panics. -/
def eval (answer : (c : C) → Option (R c)) : Prog C R → List C × Bool
  | .done => ([], false)
  | .panic => ([], true)
  | .call c next =>
    match answer c with
    | none => ([c], true)
    | some r => ((next r).eval answer).map (c :: ·) id
  | .go _ _ next => next.eval answer

/-- No call that may panic, and no panic, where nothing recovers. -/
def Contained (panics : C → Prop) (guarded : Bool) : Prog C R → Prop
  | .done => True
  | .panic => guarded
  | .call c next => (panics c → guarded) ∧ ∀ r, (next r).Contained panics guarded
  | .go recovers child next => child.Contained panics recovers ∧ next.Contained panics guarded

/-- The next step may be a panic. -/
def Risky (panics : C → Prop) : Prog C R → Prop
  | .panic => True
  | .call c _ => panics c
  | _ => False

/-! ## Subtrees -/

/-- A goroutine that runs `p` comes to run `q`, or starts one that does; the flags
tell which recover. -/
inductive Occurs : Bool → Prog C R → Bool → Prog C R → Prop
  | here {guarded : Bool} {p : Prog C R} : Occurs guarded p guarded p
  | reply {guarded guarded' : Bool} {c : C} {next : R c → Prog C R} {q : Prog C R} (r : R c) :
    Occurs guarded (next r) guarded' q → Occurs guarded (.call c next) guarded' q
  | child {guarded recovers guarded' : Bool} {child next q : Prog C R} :
    Occurs recovers child guarded' q → Occurs guarded (.go recovers child next) guarded' q
  | next {guarded recovers guarded' : Bool} {child next q : Prog C R} :
    Occurs guarded next guarded' q → Occurs guarded (.go recovers child next) guarded' q

theorem Occurs.trans {b b' b'' : Bool} {p q t : Prog C R} (h : Occurs b p b' q) (h' : Occurs b' q b'' t) :
    Occurs b p b'' t := by
  induction h with
  | here => exact h'
  | reply r _ ih => exact .reply r (ih h')
  | child _ ih => exact .child (ih h')
  | next _ ih => exact .next (ih h')

/-- Every subtree satisfies `Q`. -/
def Always (Q : Bool → Prog C R → Prop) (guarded : Bool) (p : Prog C R) : Prop :=
  ∀ guarded' q, Occurs guarded p guarded' q → Q guarded' q

section

variable {Q : Bool → Prog C R → Prop} {guarded : Bool}

@[simp] theorem always_done : Always Q guarded .done ↔ Q guarded .done :=
  ⟨fun h => h _ _ .here, fun h _ _ hq => by cases hq; exact h⟩

@[simp] theorem always_panic : Always Q guarded .panic ↔ Q guarded .panic :=
  ⟨fun h => h _ _ .here, fun h _ _ hq => by cases hq; exact h⟩

@[simp] theorem always_call {c : C} {next : R c → Prog C R} :
    Always Q guarded (.call c next) ↔ Q guarded (.call c next) ∧ ∀ r, Always Q guarded (next r) := by
  constructor
  · intro h
    exact ⟨h _ _ .here, fun r _ _ hq => h _ _ (.reply r hq)⟩
  · intro h _ _ hq
    cases hq with
    | here => exact h.1
    | reply r hq => exact h.2 r _ _ hq

@[simp] theorem always_go {recovers : Bool} {child next : Prog C R} :
    Always Q guarded (.go recovers child next) ↔
      Q guarded (.go recovers child next) ∧ Always Q recovers child ∧ Always Q guarded next := by
  constructor
  · intro h
    exact ⟨h _ _ .here, fun _ _ hq => h _ _ (.child hq), fun _ _ hq => h _ _ (.next hq)⟩
  · intro h _ _ hq
    cases hq with
    | here => exact h.1
    | child hq => exact h.2.1 _ _ hq
    | next hq => exact h.2.2 _ _ hq

end

theorem contained_iff_always {panics : C → Prop} {p : Prog C R} {guarded : Bool} :
    p.Contained panics guarded ↔ Always (fun b q => q.Risky panics → b) guarded p := by
  induction p generalizing guarded with
  | done | panic => simp [Contained, Risky]
  | call c next ih => simp [Contained, Risky, ih]
  | go recovers child next ihc ihn => simp [Contained, Risky, ihc, ihn]

end Prog

/-! ## The process -/

structure Goroutine (C : Type) (R : C → Type) where
  guarded : Bool
  prog : Prog C R

structure Process (C : Type) (R : C → Type) where
  goroutines : List (Goroutine C R)
  crashed : Bool := false

namespace Process

variable {C : Type} {R : C → Type}

/-- What the goroutine at an index does next. -/
inductive Event (C : Type) (R : C → Type)
  | reply (i : Nat) (r : (c : C) → R c)
  | panic (i : Nat)
  | spawn (i : Nat)

/-- A panic of the goroutine `i`. -/
def unwind (s : Process C R) (i : Nat) (guarded : Bool) : Process C R :=
  if guarded then { s with goroutines := s.goroutines.set i { guarded, prog := .done } }
  else { s with crashed := true }

def step (panics : C → Prop) [DecidablePred panics] (s : Process C R) : Event C R → Option (Process C R)
  | .reply i r =>
    match s.crashed, s.goroutines[i]? with
    | false, some ⟨guarded, .call c next⟩ =>
      some { s with goroutines := s.goroutines.set i { guarded, prog := next (r c) } }
    | _, _ => none
  | .panic i =>
    match s.crashed, s.goroutines[i]? with
    | false, some ⟨guarded, .call c _⟩ => if panics c then some (s.unwind i guarded) else none
    | false, some ⟨guarded, .panic⟩ => some (s.unwind i guarded)
    | _, _ => none
  | .spawn i =>
    match s.crashed, s.goroutines[i]? with
    | false, some ⟨guarded, .go recovers child next⟩ =>
      some { s with goroutines := s.goroutines.set i { guarded, prog := next } ++ [{ guarded := recovers, prog := child }] }
    | _, _ => none

/-- A process that runs `p` on a goroutine that recovers. -/
def start (p : Prog C R) : Process C R := { goroutines := [{ guarded := true, prog := p }] }

open Prog (Occurs Always)

variable {panics : C → Prop} [DecidablePred panics] {s s' : Process C R}

theorem step_cases {e : Event C R} (hs : s.step panics e = some s') :
    s.crashed = false ∧ ∃ i guarded p, s.goroutines[i]? = some ⟨guarded, p⟩ ∧
      ((∃ c next r, p = .call c next ∧ s' = { s with goroutines := s.goroutines.set i ⟨guarded, next r⟩ }) ∨
        (p.Risky panics ∧ s' = s.unwind i guarded) ∨
        ∃ recovers child next, p = .go recovers child next ∧
          s' = { s with goroutines := s.goroutines.set i ⟨guarded, next⟩ ++ [⟨recovers, child⟩] }) := by
  cases e with
  | reply i r =>
    simp only [step] at hs
    split at hs
    · rename_i guarded c next hc hi
      cases hs
      exact ⟨hc, i, guarded, _, hi, .inl ⟨c, next, r c, rfl, rfl⟩⟩
    · cases hs
  | panic i =>
    simp only [step] at hs
    split at hs
    · rename_i guarded c next hc hi
      split_ifs at hs with hp
      cases hs
      exact ⟨hc, i, guarded, _, hi, .inr (.inl ⟨hp, rfl⟩)⟩
    · rename_i guarded hc hi
      cases hs
      exact ⟨hc, i, guarded, _, hi, .inr (.inl ⟨trivial, rfl⟩)⟩
    · cases hs
  | spawn i =>
    simp only [step] at hs
    split at hs
    · rename_i guarded recovers child next hc hi
      cases hs
      exact ⟨hc, i, guarded, _, hi, .inr (.inr ⟨recovers, child, next, rfl, rfl⟩)⟩
    · cases hs

/-- A goroutine that has not panicked runs a subtree of `p`. -/
def Within (p : Prog C R) (s : Process C R) : Prop :=
  ∀ g ∈ s.goroutines, g.prog = .done ∨ Occurs true p g.guarded g.prog

variable {i : Nat} {p : Prog C R}

theorem Within.set {g : Goroutine C R} (h : Within p s) (hg : g.prog = .done ∨ Occurs true p g.guarded g.prog) :
    Within p { s with goroutines := s.goroutines.set i g } :=
  fun g' hg' => (List.mem_or_eq_of_mem_set hg').elim (h g') fun he => he ▸ hg

theorem Within.step {e : Event C R} (h : Within p s) (hs : s.step panics e = some s') : Within p s' := by
  obtain ⟨-, i, guarded, q, hi, hcases⟩ := step_cases hs
  have hq := h _ (List.mem_of_getElem? hi)
  rcases hcases with ⟨c, next, r, rfl, rfl⟩ | ⟨-, rfl⟩ | ⟨recovers, child, next, rfl, rfl⟩
  · have hocc : Occurs true p guarded (.call c next) := by simpa using hq
    exact h.set (.inr (hocc.trans (.reply r .here)))
  · unfold unwind
    split_ifs
    · exact h.set (.inl rfl)
    · exact h
  · have hocc : Occurs true p guarded (.go recovers child next) := by simpa using hq
    intro g hg
    rcases List.mem_append.mp hg with hg | hg
    · exact h.set (g := ⟨guarded, next⟩) (.inr (hocc.trans (.next .here))) g hg
    · rw [List.mem_singleton.mp hg]
      exact .inr (hocc.trans (.child .here))

theorem within_start (p : Prog C R) : Within p (start p) := by
  intro g hg
  rw [List.mem_singleton.mp hg]
  exact .inr .here

variable (panics) in
theorem exists_of_occurs {b b' : Bool} {q : Prog C R} [∀ c, Nonempty (R c)] (h : Occurs b p b' q)
    (hi : s.goroutines[i]? = some ⟨b, p⟩) (hs : s.crashed = false) :
    ∃ (s' : Process C R) (j : Nat), Reaches (step panics) Any s s' ∧ s'.crashed = false ∧ s'.goroutines[j]? = some ⟨b', q⟩ := by
  induction h generalizing s i with
  | here => exact ⟨s, i, .init, hs, hi⟩
  | @reply guarded _ c next _ r _ ih =>
    have hlt : i < s.goroutines.length := (List.getElem?_eq_some_iff.mp hi).1
    obtain ⟨s', j, hreach, hs', hj⟩ := ih
      (s := { s with goroutines := s.goroutines.set i { guarded, prog := next r } }) (i := i) (by simp [hlt]) hs
    classical
    let answer : (c : C) → R c := fun c' => if h : c = c' then h ▸ r else Classical.arbitrary _
    have hans : answer c = r := by simp [answer]
    refine ⟨s', j, (Reaches.next .init (a := .reply i answer) trivial ?_).trans hreach, hs', hj⟩
    simp [step, hs, hi, hans]
  | @child guarded recovers _ child next _ _ ih =>
    obtain ⟨s', j, hreach, hs', hj⟩ := ih
      (s := { s with goroutines := s.goroutines.set i ⟨guarded, next⟩ ++ [⟨recovers, child⟩] })
      (i := s.goroutines.length) (by simp) hs
    exact ⟨s', j, (Reaches.next .init (a := .spawn i) trivial (by simp [step, hs, hi])).trans hreach, hs', hj⟩
  | @next guarded recovers _ child next _ _ ih =>
    have hlt : i < s.goroutines.length := (List.getElem?_eq_some_iff.mp hi).1
    obtain ⟨s', j, hreach, hs', hj⟩ := ih
      (s := { s with goroutines := s.goroutines.set i ⟨guarded, next⟩ ++ [⟨recovers, child⟩] }) (i := i)
      (by simp [List.getElem?_append, hlt]) hs
    exact ⟨s', j, (Reaches.next .init (a := .spawn i) trivial (by simp [step, hs, hi])).trans hreach, hs', hj⟩

theorem step_panic {guarded : Bool} (hi : s.goroutines[i]? = some ⟨guarded, p⟩)
    (hs : s.crashed = false) (hp : p.Risky panics) : s.step panics (.panic i) = some (s.unwind i guarded) := by
  cases p with
  | done | go recovers child next => exact hp.elim
  | panic => simp [step, hs, hi]
  | call c next => simp [step, hs, hi, show panics c from hp]

/-- **A program on a recovering goroutine never ends the process exactly when
it is contained.** -/
theorem contained_iff [∀ c, Nonempty (R c)] :
    (∀ s, Reaches (step panics) Any (start p) s → s.crashed = false) ↔ p.Contained panics true := by
  rw [Prog.contained_iff_always]
  constructor
  · intro h b q hq hrisky
    obtain ⟨s, i, hreach, hs, hi⟩ := exists_of_occurs panics (s := start p) (i := 0) hq rfl rfl
    have hcrash := h _ (hreach.next (a := .panic i) trivial (step_panic hi hs hrisky))
    cases b with
    | true => rfl
    | false => exact hcrash.symm
  · intro hp s hs
    have hinv := hs.invariant (fun s => s.crashed = false ∧ Within p s) ⟨rfl, within_start p⟩ fun s e s' hI _ hstep => by
      refine ⟨?_, hI.2.step hstep⟩
      obtain ⟨hc, i, guarded, q, hi, hcases⟩ := step_cases hstep
      rcases hcases with ⟨c, next, r, rfl, rfl⟩ | ⟨hrisky, rfl⟩ | ⟨recovers, child, next, rfl, rfl⟩
      · exact hc
      · -- the goroutine that panics recovers
        have hocc : Occurs true p guarded q := (hI.2 _ (List.mem_of_getElem? hi)).resolve_left fun hq => by
          cases hq
          exact hrisky
        rw [unwind, if_pos (hp _ _ hocc hrisky)]
        exact hc
      · exact hc
    exact hinv.1

end Process

end InferenceScheduler
