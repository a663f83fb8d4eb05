/-
One call of `EvictN` with no other call running
(`pkg/epp/flowcontrol/eviction/plugin.go`): in each round it pops a request and
evicts it, and tracks it again where `Evict` returned an error. What fails is
therefore back at the head of the queue in the next round. The rounds are the
steps of the interleaved evictor, made with no step of another call between them.
-/
import InferenceScheduler.Eviction.RequestEvictor

namespace InferenceScheduler.Eviction

namespace EvictionQueue

/-- One call of `Evict`: the request, and whether an error came back. -/
structure Attempt where
  item : EvictionItem
  failed : Bool
  deriving DecidableEq

section Definitions

variable (p : Policies) (maxCap : Nat) (fails : Nat → Bool)

/-- The rounds of `EvictN` that are left; the next `Evict` is the `k`-th. -/
def evictRounds : (rounds k : Nat) → EvictionQueue → Option (List Attempt × EvictionQueue)
  | 0, _, q => some ([], q)
  | rounds + 1, k, q => do
    let (items, q) ← q.popN p maxCap 1
    match items with
    | [] => some ([], q)
    | item :: _ =>
      let q ← if fails k then q.track p item else some q
      let (attempts, q) ← evictRounds rounds (k + 1) q
      some (⟨item, fails k⟩ :: attempts, q)

/-- `EvictN`: the attempts it makes, in order, and the queue after. -/
def evictN (q : EvictionQueue) (n : Int) : Option (List Attempt × EvictionQueue) :=
  if makes maxCap n then evictRounds p maxCap fails n.toNat 0 q else none

/-- The items evicted. -/
def evicted (attempts : List Attempt) : List EvictionItem :=
  (attempts.filter fun a => !a.failed).map (·.item)

end Definitions

/-! ## The same call in the interleaved evictor -/

section Interleaved

open Interleave (State)

variable {cfg : Config} {fails : Nat → Bool}

variable {call : Nat} {s : State Evicting Instr} {done : List String}

/-- One round on a request: the steps are `popN`, `Evict` and, after an error, `Track`. -/
theorem reaches_round (he : cfg.evictor = .external) {rounds : Nat} {item : EvictionItem} {rest : List EvictionItem}
    {q₁ q₂ : EvictionQueue} {failed : Bool} (hcall : s.calls[call]? = some [.pop (rounds + 1) done])
    (hpop : s.shared.queue.popN cfg.policies cfg.maxCap 1 = some (item :: rest, q₁))
    (hback : (if failed then q₁.track cfg.policies item else some q₁) = some q₂) :
    Reaches (Interleave.step (machine cfg)) Any s
      { shared := { s.shared with queue := q₂ }
        calls := s.calls.set call [.pop rounds (done ++ if failed then [] else [item.requestID])] } := by
  have hpopped : (machine cfg).exec s.shared (.pop (rounds + 1) done) false =
      some ({ s.shared with queue := q₁ }, [.evict item rounds done]) := by
    simp only [machine, Evicting.exec, hpop, Option.map_some]
  refine (Interleave.reaches_run hcall hpopped).trans ?_
  have hevict : (machine cfg).exec { s.shared with queue := q₁ } (.evict item rounds done) failed =
      some ({ s.shared with queue := q₁ },
        if failed then [.track item, .pop rounds done] else [.pop rounds (done ++ [item.requestID])]) := by
    cases failed <;> simp [machine, Evicting.exec, Evicting.evict, he]
  refine (Interleave.reaches_run (Interleave.call_run_self hcall) hevict).trans ?_
  simp only [List.append_nil, List.set_set]
  cases failed with
  | false =>
    cases hback
    exact .init
  | true =>
    have htrack : (machine cfg).exec { s.shared with queue := q₁ } (.track item) false =
        some ({ s.shared with queue := q₂ }, []) := by
      simp only [machine, Evicting.exec]
      rw [if_pos rfl] at hback
      rw [hback, Option.map_some]
    have hlast := Interleave.reaches_run
      (s := { shared := { s.shared with queue := q₁ }, calls := s.calls.set call [.track item, .pop rounds done] })
      (Interleave.call_run_self hcall) htrack
    simpa using hlast

/-- **The rounds are steps of the evictor**: alone, a call takes the queue where
`evictRounds` takes it and returns what that evicts. -/
theorem reaches_evictRounds (he : cfg.evictor = .external) {rounds k : Nat} {attempts : List Attempt}
    {q' : EvictionQueue} (hcall : s.calls[call]? = some [.pop rounds done])
    (h : evictRounds cfg.policies cfg.maxCap fails rounds k s.shared.queue = some (attempts, q')) :
    Reaches (Interleave.step (machine cfg)) Any s
      { shared := { s.shared with
          queue := q', returned := (done ++ (evicted attempts).map (·.requestID)) :: s.shared.returned }
        calls := s.calls.set call [] } := by
  induction rounds generalizing k s done attempts with
  | zero =>
    cases h
    simpa [evicted] using Interleave.reaches_run hcall (show (machine cfg).exec s.shared _ false = _ from rfl)
  | succ rounds ih =>
    rw [evictRounds, Option.bind_eq_bind, Option.bind_eq_some_iff] at h
    obtain ⟨⟨items, q₁⟩, hpop, h⟩ := h
    cases items with
    | nil =>
      cases h
      have hempty : (machine cfg).exec s.shared (.pop (rounds + 1) done) false =
          some ({ s.shared with queue := q', returned := done :: s.shared.returned }, []) := by
        simp only [machine, Evicting.exec, hpop, Option.map_some]
      simpa [evicted] using Interleave.reaches_run hcall hempty
    | cons item rest =>
      obtain ⟨q₂, attempts', hback, hrest, rfl⟩ : ∃ q₂ attempts',
          (if fails k then q₁.track cfg.policies item else some q₁) = some q₂ ∧
          evictRounds cfg.policies cfg.maxCap fails rounds (k + 1) q₂ = some (attempts', q') ∧
          ⟨item, fails k⟩ :: attempts' = attempts := by
        cases hf : fails k <;>
          simp_all [Option.bind_eq_some_iff]
      have hround := reaches_round he hcall hpop hback
      refine hround.trans ?_
      have hlater := ih (s := ⟨{ s.shared with queue := q₂ }, s.calls.set call
        [.pop rounds (done ++ if fails k then [] else [item.requestID])]⟩) (Interleave.call_run_self hcall) hrest
      cases hf : fails k <;> simpa [evicted, hf] using hlater

/-- **`EvictN` in the interleaved evictor**, from any state and with no step of
another call in between. -/
theorem reaches_evictN (he : cfg.evictor = .external) {n : Int} {attempts : List Attempt} {q' : EvictionQueue}
    (h : evictN cfg.policies cfg.maxCap fails s.shared.queue n = some (attempts, q')) :
    Reaches (Interleave.step (machine cfg)) Any s
      { shared := { s.shared with
          queue := q', returned := (evicted attempts).map (·.requestID) :: s.shared.returned }
        calls := s.calls ++ [[]] } := by
  unfold evictN at h
  split at h
  · rename_i hn
    have hstart : Interleave.step (machine cfg) s (.start (.evictN n)) =
        some { shared := s.shared, calls := s.calls ++ [[.pop n.toNat []]] } := by
      simp [Interleave.step, machine, Evicting.start, hn]
    have hcall : (s.calls ++ [[Instr.pop n.toNat []]])[s.calls.length]? = some [.pop n.toNat []] := by simp
    have hrounds := reaches_evictRounds he (s := ⟨s.shared, s.calls ++ [[.pop n.toNat []]]⟩) hcall h
    simpa using (Reaches.next .init trivial hstart).trans hrounds
  · cases h

end Interleaved

/-- **A call gets past failures**: it attempts the first `n` requests in eviction
order, each once, and exactly the evicted ones have left. -/
structure PastFailures (p : Policies) (n : Nat) (q : EvictionQueue) (attempts : List Attempt) (q' : EvictionQueue) :
    Prop where
  length : attempts.length = min n q.entries.size
  distinct : (attempts.map fun a => a.item.requestID).Nodup
  queued : ∀ a ∈ attempts, a.item ∈ q.items
  sorted : attempts.Pairwise fun a b => p.less b.item a.item = false
  least : ∀ a ∈ attempts, ∀ y ∈ q.items, y ∉ attempts.map (·.item) → p.less y a.item = false
  left : ∀ y, y ∈ q'.items ↔ y ∈ q.items ∧ y ∉ evicted attempts
  inFlight : q'.allInFlight = released q.allInFlight (evicted attempts)

/-- None of the rounds fails but the last one of the call. -/
def NoEarlyFailure (fails : Nat → Bool) (n size : Nat) : Prop :=
  ∀ k, k < size → k + 1 < n → fails k = false

/-- The ordering policy tells the queued requests apart. -/
def Strict (p : Policies) (q : EvictionQueue) : Prop :=
  ∀ x ∈ q.items, ∀ y ∈ q.items, x ≠ y → p.less x y = true ∨ p.less y x = true

section Rounds

variable {p : Policies} [p.WeakOrder] {maxCap : Nat} {fails : Nat → Bool} {q q' : EvictionQueue}
  {tracked : String → Option EvictionItem} {n k : Nat} {attempts : List Attempt}

omit [p.WeakOrder] in
theorem size_eq_length (q : EvictionQueue) : q.entries.size = q.items.length := by
  simp [EvictionQueue.items]

/-- **One round on a request**: no other comes before it, and after an error it is
back in the queue. -/
structure Round (p : Policies) (q : EvictionQueue) (tracked : String → Option EvictionItem) (x : EvictionItem)
    (failed : Bool) (q' : EvictionQueue) : Prop where
  mem : x ∈ q.items
  least : ∀ y ∈ q.items, p.less y x = false
  represents : Represents p q' (if failed then tracked else Function.update tracked x.requestID none)
  sorted : Sorted p q'
  unique : ∀ y ∈ q.items, y.requestID = x.requestID → y = x
  items : ∀ y, y ∈ q'.items ↔ y ∈ q.items ∧ (failed = false → y ≠ x)
  size : failed = false → q.entries.size = q'.entries.size + 1

theorem makes_one (hcap : 0 < maxCap) : makes maxCap 1 = true := by
  simp only [makes, decide_eq_true_eq]
  omega

theorem Represents.round (h : Represents p q tracked) (ho : Sorted p q) (hpos : 0 < q.entries.size)
    (hcap : 0 < maxCap) (failed : Bool) :
    ∃ x q₁ q', q.popN p maxCap 1 = some ([x], q₁) ∧ (if failed then q₁.track p x else some q₁) = some q' ∧
      Round p q tracked x failed q' := by
  obtain ⟨x, q₁, hpop, hrep, hperm, hsorted⟩ := h.popEntry hpos
  obtain ⟨ho₁, hleast⟩ := hsorted inferInstance ho
  have hx : x ∈ q.items := hperm.mem_iff.mpr (.head _)
  have hunique : ∀ y ∈ q.items, y.requestID = x.requestID → y = x := fun y hy hid => by
    have hyt := ((h.contents y).mp hy).1
    rw [hid, ((h.contents x).mp hx).1] at hyt
    exact (Option.some.inj hyt).symm
  have hpopN : q.popN p maxCap 1 = some ([x], q₁) := by
    rw [EvictionQueue.popN, if_pos (makes_one hcap)]
    simp only [Int.toNat_one, EvictionQueue.popLoop, hpos, if_true, hpop, Option.bind_eq_bind, Option.bind_some]
  cases failed with
  | false =>
    refine ⟨x, q₁, q₁, hpopN, rfl, hx, hleast, hrep, ho₁, hunique, fun y => ?_, fun _ => ?_⟩
    · have hgone : x ∉ q₁.items := fun hx₁ => by simpa using ((hrep.contents x).mp hx₁).1
      rw [hperm.mem_iff, List.mem_cons]
      refine ⟨fun hy => ⟨.inr hy, fun _ he => hgone (he ▸ hy)⟩, fun hy => hy.1.resolve_left (hy.2 rfl)⟩
    · rw [size_eq_length, size_eq_length, hperm.length_eq, List.length_cons]
  | true =>
    obtain ⟨q₂, htrack, hrep₂, hsorted₂⟩ := hrep.track x
    have hback : Function.update (Function.update tracked x.requestID none) x.requestID (some x) = tracked := by
      rw [Function.update_idem, Function.update_eq_self_iff]
      exact ((h.contents x).mp hx).1.symm
    rw [hback] at hrep₂
    have hsame : ∀ y, y ∈ q₂.items ↔ y ∈ q.items := fun y => (hrep₂.contents y).trans (h.contents y).symm
    exact ⟨x, q₁, q₂, hpopN, htrack, hx, hleast, hrep₂, hsorted₂ inferInstance ho₁, hunique, by simp [hsame], by simp⟩

variable (fails) in
/-- **What a call does first**: nothing on an empty queue, otherwise a round. -/
theorem Represents.evictRounds_cases (h : Represents p q tracked) (ho : Sorted p q) (hcap : 0 < maxCap) (n k : Nat) :
    (q.entries.size = 0 ∧ evictRounds p maxCap fails (n + 1) k q = some ([], q)) ∨
      ∃ x q', Round p q tracked x (fails k) q' ∧ evictRounds p maxCap fails (n + 1) k q =
        (evictRounds p maxCap fails n (k + 1) q').map fun r => (⟨x, fails k⟩ :: r.1, r.2) := by
  by_cases hpos : 0 < q.entries.size
  · obtain ⟨x, q₁, q', hpop, hback, hround⟩ := h.round ho hpos hcap (fails k)
    refine .inr ⟨x, q', hround, ?_⟩
    rw [evictRounds, hpop]
    simp only [Option.bind_eq_bind, Option.bind_some, Option.map_eq_bind]
    cases hf : fails k with
    | false =>
      rw [hf] at hback
      cases hback
      rfl
    | true =>
      rw [hf, if_pos rfl] at hback
      rw [if_pos rfl, hback]
      rfl
  · refine .inl ⟨by omega, ?_⟩
    rw [evictRounds, EvictionQueue.popN, if_pos (makes_one hcap)]
    simp only [Int.toNat_one, EvictionQueue.popLoop, hpos, if_false]
    rfl

theorem mem_evicted_cons {x y : EvictionItem} {failed : Bool} :
    y ∈ evicted (⟨x, failed⟩ :: attempts) ↔ failed = false ∧ y = x ∨ y ∈ evicted attempts := by
  cases failed <;> simp [evicted]

variable (fails) in
/-- **Every call goes through**, with attempts on queued requests only, and exactly
the evicted ones leave the queue. -/
theorem Represents.evictRounds (hcap : 0 < maxCap) (n k : Nat) (h : Represents p q tracked) (ho : Sorted p q) :
    ∃ attempts q', evictRounds p maxCap fails n k q = some (attempts, q') ∧
      (∀ a ∈ attempts, a.item ∈ q.items) ∧ Represents p q' (released tracked (evicted attempts)) ∧
      ∀ y, y ∈ q'.items ↔ y ∈ q.items ∧ y ∉ evicted attempts := by
  induction n generalizing k q tracked with
  | zero => exact ⟨[], q, rfl, by simp, h, by simp [evicted]⟩
  | succ n ih =>
    rcases h.evictRounds_cases fails ho hcap n k with ⟨-, heq⟩ | ⟨x, q₁, hround, heq⟩
    · exact ⟨[], q, heq, by simp, h, by simp [evicted]⟩
    · obtain ⟨attempts, q', hrest, hqueued, hrep, hleft⟩ := ih (k + 1) hround.represents hround.sorted
      refine ⟨⟨x, fails k⟩ :: attempts, q', by rw [heq, hrest]; rfl, ?_, ?_, fun y => ?_⟩
      · intro a ha
        rcases List.mem_cons.mp ha with rfl | ha
        · exact hround.mem
        · exact ((hround.items _).mp (hqueued a ha)).1
      · cases hf : fails k <;> rw [hf] at hrep <;> exact hrep
      · rw [hleft, hround.items, mem_evicted_cons, not_or, not_and, and_assoc]

theorem Represents.evictRounds_order (hcap : 0 < maxCap) (h : Represents p q tracked) (ho : Sorted p q)
    (hnone : ∀ j, j < q.entries.size → j + 1 < n → fails (k + j) = false)
    (heq : EvictionQueue.evictRounds p maxCap fails n k q = some (attempts, q')) :
    attempts.length = min n q.entries.size ∧ (attempts.map fun a => a.item.requestID).Nodup ∧
      (attempts.Pairwise fun a b => p.less b.item a.item = false) ∧
      ∀ a ∈ attempts, ∀ y ∈ q.items, y ∉ attempts.map (·.item) → p.less y a.item = false := by
  induction n generalizing k q tracked attempts with
  | zero =>
    cases heq
    simp
  | succ n ih =>
    rcases h.evictRounds_cases fails ho hcap n k with ⟨hempty, heq'⟩ | ⟨x, q₁, hround, heq'⟩
    · rw [heq'] at heq
      cases heq
      simp [hempty]
    · rw [heq', Option.map_eq_some_iff] at heq
      obtain ⟨⟨rest, q''⟩, hrest, heq⟩ := heq
      cases heq
      have hpos : 0 < q.entries.size := by
        rw [size_eq_length]
        exact List.length_pos_of_mem hround.mem
      by_cases hn : n = 0
      · -- the last round
        subst hn
        cases hrest
        refine ⟨?_, by simp, by simp, ?_⟩
        · simp only [List.length_singleton]
          omega
        · intro a ha y hy _
          rw [List.mem_singleton.mp ha]
          exact hround.least y hy
      · have hf : fails k = false := hnone 0 hpos (by omega)
        have hsize := hround.size hf
        obtain ⟨hlen, hdistinct, hsorted, hleast⟩ := ih hround.represents hround.sorted (fun j hj hjn => by
          rw [show k + 1 + j = k + (j + 1) by omega]
          exact hnone (j + 1) (by omega) (by omega)) hrest
        obtain ⟨_, _, hgo, hqueued, -⟩ := Represents.evictRounds fails hcap n (k + 1) hround.represents hround.sorted
        rw [hrest] at hgo
        cases hgo
        have hother : ∀ a ∈ rest, a.item ∈ q.items ∧ a.item.requestID ≠ x.requestID := fun a ha => by
          obtain ⟨hmem, hne⟩ := (hround.items _).mp (hqueued a ha)
          exact ⟨hmem, fun hid => hne hf (hround.unique _ hmem hid)⟩
        refine ⟨?_, ?_, ?_, ?_⟩
        · rw [List.length_cons, hlen, hsize, Nat.succ_min_succ]
        · rw [List.map_cons, List.nodup_cons]
          refine ⟨fun hid => ?_, hdistinct⟩
          obtain ⟨a, ha, hid⟩ := List.mem_map.mp hid
          exact (hother a ha).2 hid
        · exact .cons (fun a ha => hround.least a.item (hother a ha).1) hsorted
        · intro a ha y hy hnot
          rw [List.map_cons, List.mem_cons, not_or] at hnot
          rcases List.mem_cons.mp ha with rfl | ha
          · exact hround.least y hy
          · exact hleast a ha y ((hround.items y).mpr ⟨hy, fun _ => hnot.1⟩) hnot.2

/-- **A failure before the last round is tried again in the next one**, where
no two queued requests tie. -/
theorem Represents.evictRounds_repeats (hcap : 0 < maxCap) (h : Represents p q tracked) (ho : Sorted p q)
    (hstrict : Strict p q) {j : Nat} (hjs : j < q.entries.size) (hjn : j + 1 < n) (hfail : fails (k + j) = true)
    (heq : EvictionQueue.evictRounds p maxCap fails n k q = some (attempts, q')) :
    ¬(attempts.map fun a => a.item.requestID).Nodup := by
  induction n generalizing k q tracked attempts j with
  | zero => omega
  | succ n ih =>
    rcases h.evictRounds_cases fails ho hcap n k with ⟨hempty, -⟩ | ⟨x, q₁, hround, heq'⟩
    · omega
    rw [heq', Option.map_eq_some_iff] at heq
    obtain ⟨⟨rest, q''⟩, hrest, heq⟩ := heq
    cases heq
    obtain ⟨m, rfl⟩ : ∃ m, n = m + 1 := ⟨n - 1, by omega⟩
    cases hf : fails k with
    | true =>
      -- the request is back, and nothing else may come before it
      have hx : x ∈ q₁.items := (hround.items x).mpr ⟨hround.mem, by simp [hf]⟩
      rcases hround.represents.evictRounds_cases fails hround.sorted hcap m (k + 1) with
        ⟨hempty, -⟩ | ⟨y, q₂, hround₂, heq₂⟩
      · rw [size_eq_length, List.length_eq_zero_iff] at hempty
        simp [hempty] at hx
      · have hy : y ∈ q.items := ((hround.items y).mp hround₂.mem).1
        have hyx : y = x := by
          by_contra hne
          rcases hstrict y hy x hround.mem hne with hlt | hlt
          · rw [hround.least y hy] at hlt
            cases hlt
          · rw [hround₂.least x hx] at hlt
            cases hlt
        rw [heq₂, Option.map_eq_some_iff] at hrest
        obtain ⟨⟨rest', q₅⟩, -, hrest⟩ := hrest
        cases hrest
        simp [hyx]
    | false =>
      obtain ⟨i, rfl⟩ : ∃ i, j = i + 1 := by
        refine ⟨j - 1, ?_⟩
        rcases Nat.eq_zero_or_pos j with rfl | hj
        · rw [Nat.add_zero, hf] at hfail
          cases hfail
        · omega
      have hsize := hround.size hf
      have hsub : ∀ y ∈ q₁.items, y ∈ q.items := fun y hy => ((hround.items y).mp hy).1
      have hrec := ih hround.represents hround.sorted (fun y hy z hz => hstrict y (hsub y hy) z (hsub z hz))
        (j := i) (by omega) (by omega) (by rwa [show k + 1 + i = k + (i + 1) by omega]) hrest
      rw [List.map_cons, List.nodup_cons]
      exact fun hd => hrec hd.2

end Rounds

/-! ## The call -/

/-- `EvictN` returns, past the failures. -/
def EvictsPastFailures (p : Policies) (maxCap : Nat) (fails : Nat → Bool) (q : EvictionQueue) (n : Int) : Prop :=
  ∃ attempts q', evictN p maxCap fails q n = some (attempts, q') ∧ PastFailures p n.toNat q attempts q'

section Call

variable {p : Policies} [p.WeakOrder] {maxCap : Nat} {q : EvictionQueue} {tracked : String → Option EvictionItem}

theorem Represents.evictsPastFailures (h : Represents p q tracked) (ho : Sorted p q) (n : Int) (fails : Nat → Bool)
    (hn : makes maxCap n = true) (hnone : NoEarlyFailure fails n.toNat q.entries.size) :
    EvictsPastFailures p maxCap fails q n := by
  have hbound : 0 ≤ n ∧ n ≤ maxCap := by simpa only [makes, decide_eq_true_eq] using hn
  unfold EvictsPastFailures evictN
  rw [if_pos hn]
  by_cases hzero : n.toNat = 0
  · rw [hzero]
    exact ⟨[], q, rfl, by simp, by simp, by simp, .nil, by simp, by simp [evicted], rfl⟩
  · have hcap : 0 < maxCap := by omega
    obtain ⟨attempts, q', hgo, hqueued, hrep, hleft⟩ := Represents.evictRounds fails hcap n.toNat 0 h ho
    obtain ⟨hlen, hdistinct, hsorted, hleast⟩ := h.evictRounds_order hcap ho
      (fun j hj hjn => by rw [Nat.zero_add]; exact hnone j hj hjn) hgo
    exact ⟨attempts, q', hgo, hlen, hdistinct, hqueued, hsorted, hleast, hleft, by rw [hrep.inFlight, h.inFlight]⟩

theorem Represents.noEarlyFailure (h : Represents p q tracked) (ho : Sorted p q) (hstrict : Strict p q) {n : Int}
    {fails : Nat → Bool} (hpast : EvictsPastFailures p maxCap fails q n) :
    makes maxCap n = true ∧ NoEarlyFailure fails n.toNat q.entries.size := by
  obtain ⟨attempts, q', hgo, hpast⟩ := hpast
  unfold evictN at hgo
  split at hgo
  · rename_i hn
    refine ⟨hn, ?_⟩
    intro j hj hjn
    by_contra hfail
    have hbound : 0 ≤ n ∧ n ≤ maxCap := by simpa only [makes, decide_eq_true_eq] using hn
    refine h.evictRounds_repeats (by omega) ho hstrict hj hjn ?_ hgo hpast.distinct
    rw [Nat.zero_add]
    exact (Bool.not_eq_false _).mp hfail
  · cases hgo

/-- **When `EvictN` gets past failures.** On every queue that calls can make
and for every pattern of failures: it does if `make` accepts the count and no
round before the last fails; and only then, where the ordering policy tells
the queued requests apart. -/
theorem evictN_past_failures_iff {s : Recorded} (h : Reaches (step p maxCap) Any Recorded.new s) (n : Int)
    (fails : Nat → Bool) :
    (makes maxCap n = true ∧ NoEarlyFailure fails n.toNat s.queue.entries.size →
      EvictsPastFailures p maxCap fails s.queue n) ∧
    (Strict p s.queue →
      (EvictsPastFailures p maxCap fails s.queue n ↔
        makes maxCap n = true ∧ NoEarlyFailure fails n.toNat s.queue.entries.size)) := by
  obtain ⟨hrep, ho⟩ := represents_sorted_of_reaches h
  have henough : makes maxCap n = true ∧ NoEarlyFailure fails n.toNat s.queue.entries.size →
      EvictsPastFailures p maxCap fails s.queue n :=
    fun hc => hrep.evictsPastFailures ho n fails hc.1 hc.2
  exact ⟨henough, fun hstrict => ⟨hrep.noEarlyFailure ho hstrict, henough⟩⟩

end Call

/-- Requests of three priorities. -/
def threeCalls : List Op :=
  [.track ⟨"a", -3, 10, "http://10.0.0.1:8000", some 0⟩, .track ⟨"b", -2, 20, "http://10.0.0.2:8000", some 1⟩,
    .track ⟨"c", -1, 30, "http://10.0.0.1:8000", some 2⟩]

/-- Two rounds on three requests, the second of which fails. -/
theorem evictN_past_failures_iff_last_fails :
    ∃ s, Reaches (step priorityThenTime 1024) Any Recorded.new s ∧ s.queue.entries.size = 3 ∧
      EvictsPastFailures priorityThenTime 1024 (fun k => k = 1) s.queue 2 := by
  obtain ⟨s, hs, hp⟩ := exists_of_run (step priorityThenTime 1024) Recorded.new threeCalls
    (fun s => s.queue.entries.size = 3) (by decide +kernel)
  refine ⟨s, hs, hp, (evictN_past_failures_iff hs 2 _).1 ⟨by decide, ?_⟩⟩
  intro k _ hk
  have hk' : k + 1 < 2 := hk
  exact decide_eq_false (by omega)

/-- Two rounds on three requests with an evictor that fails on the first
request: it is attempted twice, the second request not at all. -/
theorem failed_request_uses_up_attempts :
    ∃ s, Reaches (step priorityThenTime 1024) Any Recorded.new s ∧
      (evictN priorityThenTime 1024 (fun _ => true) s.queue 2).map
        (fun r => r.1.map fun a => a.item.requestID) = some ["a", "a"] ∧
      ¬EvictsPastFailures priorityThenTime 1024 (fun _ => true) s.queue 2 := by
  obtain ⟨s, hs, htwice⟩ := exists_of_run (step priorityThenTime 1024) Recorded.new threeCalls
    (fun s => (evictN priorityThenTime 1024 (fun _ => true) s.queue 2).map
      (fun r => r.1.map fun a => a.item.requestID) = some ["a", "a"]) (by decide +kernel)
  refine ⟨s, hs, htwice, ?_⟩
  rintro ⟨attempts, q', hgo, hpast⟩
  rw [hgo, Option.map_some, Option.some.injEq] at htwice
  have hdistinct := hpast.distinct
  rw [htwice] at hdistinct
  revert hdistinct
  decide

end EvictionQueue

end InferenceScheduler.Eviction
