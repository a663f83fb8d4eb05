/-
The leasing protocol of `registry/leasing.go` by itself: any number of
goroutines that pin objects of one map with `pinLeasedResource` and unpin them,
and one that runs `collectLeasedResources` again and again.

Only the collector removes entries, so what it deletes is what it has marked
(`LeasesSound.current`); an object that is held is unmarked, and one that is
unmarked is in the map (`LeasesSound.gone`).
-/
import InferenceScheduler.Lib.Count
import InferenceScheduler.Registry.Refs

namespace InferenceScheduler.Registry

open Function (update update_apply update_of_ne update_self)

/-! ## The system -/

/-- Where a goroutine stands. -/
inductive ThreadPc (K : Type)
  | idle
  | pinning (key : K) (pc : PinPc)
  | holding (key : K) (v : Nat)
  deriving DecidableEq

structure Protocol (Tid K : Type) where
  leases : Leases K
  threads : Tid → ThreadPc K
  collector : Option (CollectPc K)
  collected : List Nat
  reported : List Nat

/-- Who moves; a reading of the clock where the code takes one. -/
inductive ProtocolAct (Tid K : Type)
  | pin (t : Tid) (key : K)
  | step (t : Tid) (now : Time)
  | unpin (t : Tid) (now : Time)
  | collect (now : Time)
  | visit (key : K)
  | collectStep
  | endRange
  deriving DecidableEq

namespace Protocol

variable {Tid K : Type} [DecidableEq Tid] [DecidableEq K]

def init [Inhabited K] : Protocol Tid K :=
  { leases := .empty, threads := fun _ => .idle, collector := none, collected := [], reported := [] }

def setThread (s : Protocol Tid K) (t : Tid) (pc : ThreadPc K) : Protocol Tid K :=
  { s with threads := update s.threads t pc }

/-- What a step of the loop leads to: `pinLeasedResource` goes on or returns. -/
def out (s : Protocol Tid K) (t : Tid) (key : K) : PinOut → Protocol Tid K
  | .goOn pc => s.setThread t (.pinning key pc)
  | .pinned v isNew => { s.setThread t (.holding key v) with reported := if isNew then v :: s.reported else s.reported }

def step (timeout : Int) (s : Protocol Tid K) : ProtocolAct Tid K → Option (Protocol Tid K)
  | .pin t key =>
    match s.threads t with
    | .idle => some (s.setThread t (.pinning key .load))
    | _ => none
  | .step t now =>
    match s.threads t with
    | .pinning key pc =>
      let r := pinStep s.leases key now pc
      some ({ s with leases := r.1 }.out t key r.2)
    | _ => none
  | .unpin t now =>
    match s.threads t with
    | .holding _ v => some ({ s with leases := s.leases.setObj v ((s.leases.obj v).unpin now) }.setThread t .idle)
    | _ => none
  | .collect now =>
    match s.collector with
    | none => some { s with collector := some (.range { now }) }
    | some _ => none
  | .visit key => s.collector.bind fun pc => (collectVisit s.leases key pc).map fun pc => { s with collector := some pc }
  | .collectStep =>
    s.collector.bind fun pc => (Registry.collectStep s.leases timeout pc).map fun r =>
      { s with leases := r.1, collector := some r.2 }
  | .endRange =>
    match s.collector with
    | some (.range sc) => some { s with collector := none, collected := s.collected ++ sc.found }
    | _ => none

end Protocol

/-! ## What a step can do -/

section

variable {Tid K : Type} [DecidableEq Tid] [DecidableEq K]

/-- The transitions, one constructor each. -/
inductive ProtocolMoves (timeout : Int) (s : Protocol Tid K) : Protocol Tid K → Prop
  | start {t key} (ht : s.threads t = .idle) : ProtocolMoves timeout s (s.setThread t (.pinning key .load))
  | found {t key pc v} (ht : s.threads t = .pinning key pc) (hpc : pc = .load ∨ pc = .loadOrStore)
      (hv : s.leases.table key = some v) : ProtocolMoves timeout s (s.setThread t (.pinning key (.tryPin v false)))
  | absent {t key} (ht : s.threads t = .pinning key .load) (hv : s.leases.table key = none) :
      ProtocolMoves timeout s (s.setThread t (.pinning key .loadOrStore))
  | create {t key} (ht : s.threads t = .pinning key .loadOrStore) (hv : s.leases.table key = none) :
      ProtocolMoves timeout s
        ({ s with leases := s.leases.create key }.setThread t (.pinning key (.tryPin s.leases.next true)))
  | refused {t key v isNew} (ht : s.threads t = .pinning key (.tryPin v isNew)) :
      ProtocolMoves timeout s (s.setThread t (.pinning key .load))
  | pinned {t key v isNew} (ht : s.threads t = .pinning key (.tryPin v isNew))
      (hm : (s.leases.obj v).markedForDeletion = false) :
      ProtocolMoves timeout s ({ s with leases := s.leases.setObj v (s.leases.obj v).pinned }.setThread t
        (.pinning key (.recheck v isNew)))
  | confirmed {t key v isNew} (ht : s.threads t = .pinning key (.recheck v isNew))
      (hv : s.leases.table key = some v) :
      ProtocolMoves timeout s
        { s.setThread t (.holding key v) with reported := if isNew then v :: s.reported else s.reported }
  | lost {t key v isNew} (ht : s.threads t = .pinning key (.recheck v isNew))
      (hv : s.leases.table key ≠ some v) :
      ProtocolMoves timeout s (s.setThread t (.pinning key (.backOff v)))
  | backedOff {t key v now} (ht : s.threads t = .pinning key (.backOff v)) :
      ProtocolMoves timeout s
        ({ s with leases := s.leases.setObj v ((s.leases.obj v).unpin now) }.setThread t (.pinning key .load))
  | unpinned {t key v now} (ht : s.threads t = .holding key v) :
      ProtocolMoves timeout s ({ s with leases := s.leases.setObj v ((s.leases.obj v).unpin now) }.setThread t .idle)
  | collect {now} (hc : s.collector = none) :
      ProtocolMoves timeout s { s with collector := some (.range { now }) }
  | visit {sc key v} (hc : s.collector = some (.range sc)) (hv : s.leases.table key = some v) :
      ProtocolMoves timeout s { s with collector := some (.visit { sc with seen := key :: sc.seen } key v) }
  | spared {sc key v ls} (hc : s.collector = some (.visit sc key v))
      (hl : ls.leaseCount = (s.leases.obj v).leaseCount)
      (hm : ls.markedForDeletion = (s.leases.obj v).markedForDeletion) :
      ProtocolMoves timeout s { s with leases := s.leases.setObj v ls, collector := some (.range sc) }
  | marked {sc key v ls} (hc : s.collector = some (.visit sc key v)) (hfree : (s.leases.obj v).leaseCount ≤ 0)
      (hl : ls.leaseCount = (s.leases.obj v).leaseCount) (hm : ls.markedForDeletion = true) :
      ProtocolMoves timeout s { s with leases := s.leases.setObj v ls, collector := some (.delete sc key v) }
  | deleted {sc key v w} (hc : s.collector = some (.delete sc key v)) (hw : s.leases.table key = some w) :
      ProtocolMoves timeout s
        { s with leases := s.leases.erase key, collector := some (.range { sc with found := sc.found ++ [w] }) }
  | missed {sc key v} (hc : s.collector = some (.delete sc key v)) (hw : s.leases.table key = none) :
      ProtocolMoves timeout s { s with collector := some (.range sc) }
  | ended {sc} (hc : s.collector = some (.range sc)) :
      ProtocolMoves timeout s { s with collector := none, collected := s.collected ++ sc.found }

variable {timeout : Int} {s s' : Protocol Tid K}

theorem pinStep_moves {t : Tid} {key : K} {pc : PinPc} {now : Time} (ht : s.threads t = .pinning key pc) :
    ProtocolMoves timeout s
      ({ s with leases := (pinStep s.leases key now pc).1 }.out t key (pinStep s.leases key now pc).2) := by
  cases pc with
  | load =>
    cases hv : s.leases.table key with
    | none =>
      simp only [pinStep, hv]
      exact .absent ht hv
    | some v =>
      simp only [pinStep, hv]
      exact .found ht (.inl rfl) hv
  | loadOrStore =>
    cases hv : s.leases.table key with
    | none =>
      simp only [pinStep, hv]
      exact .create ht hv
    | some v =>
      simp only [pinStep, hv]
      exact .found ht (.inr rfl) hv
  | tryPin v isNew =>
    rcases (s.leases.obj v).tryPin_cases with ⟨-, hp⟩ | ⟨hm, hp⟩
    · simp only [pinStep, hp, Bool.false_eq_true, if_false]
      exact .refused ht
    · simp only [pinStep, hp, if_true]
      exact .pinned ht hm
  | recheck v isNew =>
    by_cases hv : s.leases.table key = some v
    · simp only [pinStep, hv, if_true]
      exact .confirmed ht hv
    · simp only [pinStep, hv, if_false]
      exact .lost ht hv
  | backOff v => exact .backedOff ht

theorem collectStep_moves {pc : CollectPc K} {r : Leases K × CollectPc K} (hc : s.collector = some pc)
    (hr : collectStep s.leases timeout pc = some r) :
    ProtocolMoves timeout s { s with leases := r.1, collector := some r.2 } := by
  cases pc with
  | range sc => cases hr
  | visit sc key v =>
    cases hr
    cases hcheck : ((s.leases.obj v).checkAndMarkForDeletion timeout sc.now).1 with
    | true =>
      obtain ⟨hfree, hm⟩ := LeasedState.check_of_true hcheck
      exact .marked hc hfree (LeasedState.check_leaseCount ..) hm
    | false => exact .spared hc (LeasedState.check_leaseCount ..) (LeasedState.check_marked_of_false hcheck)
  | delete sc key v =>
    simp only [collectStep] at hr
    split at hr
    · rename_i w hw
      cases hr
      exact .deleted hc hw
    · rename_i hw
      cases hr
      exact .missed hc hw

theorem protocol_moves {a : ProtocolAct Tid K} (h : s.step timeout a = some s') : ProtocolMoves timeout s s' := by
  cases a with
  | pin t key =>
    simp only [Protocol.step] at h
    split at h
    · rename_i ht
      cases h
      exact .start ht
    · cases h
  | step t now =>
    simp only [Protocol.step] at h
    split at h
    · rename_i key pc ht
      cases h
      exact pinStep_moves ht
    · cases h
  | unpin t now =>
    simp only [Protocol.step] at h
    split at h
    · rename_i key v ht
      cases h
      exact .unpinned ht
    · cases h
  | collect now =>
    simp only [Protocol.step] at h
    split at h
    · rename_i hc
      cases h
      exact .collect hc
    · cases h
  | visit key =>
    obtain ⟨pc, hc, h⟩ := Option.bind_eq_some_iff.mp h
    obtain ⟨pc', hv, rfl⟩ := Option.map_eq_some_iff.mp h
    cases pc with
    | range sc =>
      simp only [collectVisit] at hv
      split at hv
      · cases hv
      · obtain ⟨v, htable, rfl⟩ := Option.map_eq_some_iff.mp hv
        exact .visit hc htable
    | visit sc key' v | delete sc key' v => cases hv
  | collectStep =>
    obtain ⟨pc, hc, h⟩ := Option.bind_eq_some_iff.mp h
    obtain ⟨r, hr, rfl⟩ := Option.map_eq_some_iff.mp h
    exact collectStep_moves hc hr
  | endRange =>
    simp only [Protocol.step] at h
    split at h
    · rename_i sc hc
      cases h
      exact .ended hc
    · cases h

end

/-! ## Leases -/

namespace ThreadPc

variable {K : Type}

/-- The object a goroutine refers to, with the key it uses it under. -/
def ref : ThreadPc K → Option (K × Nat)
  | .idle => none
  | .pinning key pc => pc.ref.map (key, ·)
  | .holding key v => some (key, v)

/-- The object a goroutine has a lease on. -/
def held : ThreadPc K → Option Nat
  | .idle => none
  | .pinning _ pc => pc.held
  | .holding _ v => some v

/-- The object a goroutine has created and not returned or given up. -/
def made : ThreadPc K → Option Nat
  | .pinning _ pc => pc.made
  | _ => none

def holds (v : Nat) (pc : ThreadPc K) : Bool := pc.held = some v

variable {pc : ThreadPc K}

theorem holds_of_held_none (h : pc.held = none) (v : Nat) : pc.holds v = false := by
  rw [holds, h]
  rfl

theorem holds_of_held {v : Nat} (h : pc.held = some v) (w : Nat) : pc.holds w = decide (w = v) := by
  rw [holds, h]
  by_cases hw : w = v
  · simp [hw]
  · simp [hw, Ne.symm hw]

theorem ref_of_held {v : Nat} (h : pc.held = some v) : ∃ key, pc.ref = some (key, v) := by
  cases pc with
  | idle => cases h
  | holding key w =>
    cases h
    exact ⟨key, rfl⟩
  | pinning key pc =>
    cases pc with
    | recheck w isNew | backOff w =>
      cases h
      exact ⟨key, rfl⟩
    | _ => cases h

end ThreadPc

/-- The object the collector is looking at, with its key. -/
def CollectPc.ref {K : Type} : CollectPc K → Option (K × Nat)
  | .range _ => none
  | .visit _ key v | .delete _ key v => some (key, v)

section Leasing

variable {Tid K : Type} [Fintype Tid]

/-- What holds of leases, marks and the map in every state. -/
structure LeasesSound (s : Protocol Tid K) : Prop where
  table : ∀ k v, s.leases.table k = some v → s.leases.Has k v
  refs : ∀ t k v, (s.threads t).ref = some (k, v) → s.leases.Has k v
  counts : ∀ v, (s.leases.obj v).leaseCount = count (ThreadPc.holds v) s.threads
  free : ∀ v, (s.leases.obj v).markedForDeletion = true → (s.leases.obj v).leaseCount ≤ 0
  gone : ∀ v, v < s.leases.next → ¬s.leases.Live v → (s.leases.obj v).markedForDeletion = true
  current : ∀ pc k v, s.collector = some pc → pc.ref = some (k, v) → s.leases.table k = some v
  doomed : ∀ sc k v, s.collector = some (.delete sc k v) → (s.leases.obj v).markedForDeletion = true

variable {s : Protocol Tid K} {t : Tid} {key : K} {v : Nat}

/-- **What a goroutine has a lease on is in the map.** -/
theorem LeasesSound.table_of_held (h : LeasesSound s) (ht : (s.threads t).held = some v) (hr : (s.threads t).ref = some (key, v)) :
    s.leases.table key = some v := by
  have hpos : 0 < count (ThreadPc.holds v) s.threads := count_pos (decide_eq_true ht)
  have hhas := h.refs t key v hr
  have hmarked : (s.leases.obj v).markedForDeletion ≠ true := by
    intro hm
    have := h.free v hm
    rw [h.counts v] at this
    omega
  rw [← hhas.live_iff]
  by_contra hlive
  exact hmarked (h.gone v hhas.1 hlive)

theorem LeasesSound.setCollector (h : LeasesSound s) {c : Option (CollectPc K)} {collected : List Nat}
    (hcurrent : ∀ pc k v, c = some pc → pc.ref = some (k, v) → s.leases.table k = some v)
    (hdoomed : ∀ sc k v, c = some (.delete sc k v) → (s.leases.obj v).markedForDeletion = true) :
    LeasesSound { s with collector := c, collected } :=
  ⟨h.table, h.refs, h.counts, h.free, h.gone, hcurrent, hdoomed⟩

theorem LeasesSound.check (h : LeasesSound s) {ls : LeasedState} {c : CollectPc K}
    (hl : ls.leaseCount = (s.leases.obj v).leaseCount)
    (hm : (s.leases.obj v).markedForDeletion = true → ls.markedForDeletion = true)
    (hfree : ls.markedForDeletion = true → ls.leaseCount ≤ 0)
    (hcurrent : ∀ k w, c.ref = some (k, w) → s.leases.table k = some w)
    (hdoomed : ∀ sc k w, c = .delete sc k w → w = v ∧ ls.markedForDeletion = true) :
    LeasesSound { s with leases := s.leases.setObj v ls, collector := some c } where
  table := h.table
  refs := h.refs
  counts := fun w => by
    simp only [Leases.setObj_obj]
    by_cases he : w = v
    · subst he
      rw [update_self, hl, h.counts w]
    · rw [update_of_ne he, h.counts w]
  free := fun w hw => by
    simp only [Leases.setObj_obj] at hw ⊢
    by_cases he : w = v
    · subst he
      rw [update_self] at hw ⊢
      exact hfree hw
    · rw [update_of_ne he] at hw ⊢
      exact h.free w hw
  gone := fun w hw hlive => by
    have := h.gone w hw hlive
    simp only [Leases.setObj_obj]
    by_cases he : w = v
    · subst he
      rw [update_self]
      exact hm this
    · rw [update_of_ne he, this]
  current := fun pc k w hpc hr => hcurrent k w (Option.some.inj hpc ▸ hr)
  doomed := fun sc k w hc => by
    obtain ⟨rfl, hmarked⟩ := hdoomed sc k w (Option.some.inj hc)
    simp only [Leases.setObj_obj, update_self]
    exact hmarked

variable [DecidableEq Tid] {pc : ThreadPc K}

theorem LeasesSound.setThread (h : LeasesSound s) (hr : ∀ k v, pc.ref = some (k, v) → s.leases.Has k v)
    (hh : ∀ v, pc.holds v = (s.threads t).holds v) : LeasesSound (s.setThread t pc) where
  table := h.table
  refs := fun u k v hu => by
    by_cases he : u = t
    · subst he
      simp only [Protocol.setThread, update_self] at hu
      exact hr k v hu
    · simp only [Protocol.setThread, update_of_ne he] at hu
      exact h.refs u k v hu
  counts := fun v => by rw [Protocol.setThread, count_update_same (hh v), h.counts v]
  free := h.free
  gone := h.gone
  current := h.current
  doomed := h.doomed

theorem LeasesSound.setObj (h : LeasesSound s) {ls : LeasedState}
    (hr : ∀ k v, pc.ref = some (k, v) → s.leases.Has k v)
    (hcount : ls.leaseCount = count (ThreadPc.holds v) (update s.threads t pc))
    (hother : ∀ w, w ≠ v → pc.holds w = (s.threads t).holds w)
    (hm : ls.markedForDeletion = (s.leases.obj v).markedForDeletion)
    (hfree : ls.markedForDeletion = true → ls.leaseCount ≤ 0) :
    LeasesSound ({ s with leases := s.leases.setObj v ls }.setThread t pc) where
  table := h.table
  refs := fun u k w hu => by
    by_cases he : u = t
    · subst he
      simp only [Protocol.setThread, update_self] at hu
      exact hr k w hu
    · simp only [Protocol.setThread, update_of_ne he] at hu
      exact h.refs u k w hu
  counts := fun w => by
    simp only [Protocol.setThread, Leases.setObj_obj]
    by_cases hw : w = v
    · subst hw
      rw [update_self, hcount]
    · rw [update_of_ne hw, count_update_same (hother w hw), h.counts w]
  free := fun w hw => by
    simp only [Protocol.setThread, Leases.setObj_obj] at hw ⊢
    by_cases he : w = v
    · subst he
      rw [update_self] at hw ⊢
      exact hfree hw
    · rw [update_of_ne he] at hw ⊢
      exact h.free w hw
  gone := fun w hw hlive => by
    have := h.gone w hw hlive
    simp only [Protocol.setThread, Leases.setObj_obj]
    by_cases he : w = v
    · subst he
      rw [update_self, hm, this]
    · rw [update_of_ne he, this]
  current := h.current
  doomed := fun sc k w hc => by
    have := h.doomed sc k w hc
    simp only [Protocol.setThread, Leases.setObj_obj]
    by_cases he : w = v
    · subst he
      rw [update_self, hm, this]
    · rw [update_of_ne he, this]

theorem LeasesSound.unpin (h : LeasesSound s) {now : Time} (ht : (s.threads t).held = some v)
    (hr : ∀ k v, pc.ref = some (k, v) → s.leases.Has k v) (hpc : pc.held = none) :
    LeasesSound ({ s with leases := s.leases.setObj v ((s.leases.obj v).unpin now) }.setThread t pc) := by
  refine h.setObj hr ?_ (fun w hw => ?_) rfl fun hm => ?_
  · rw [LeasedState.unpin_leaseCount, h.counts v, count_update, ThreadPc.holds_of_held_none hpc,
      ThreadPc.holds_of_held ht]
    simp
  · rw [ThreadPc.holds_of_held_none hpc, ThreadPc.holds_of_held ht]
    simp [hw]
  · have := h.free v hm
    rw [LeasedState.unpin_leaseCount]
    omega

variable [DecidableEq K]

theorem LeasesSound.create (h : LeasesSound s) (hk : s.leases.table key = none) (ht : (s.threads t).held = none) :
    LeasesSound ({ s with leases := s.leases.create key }.setThread t (.pinning key (.tryPin s.leases.next true))) where
  table := fun k v hv => by
    simp only [Protocol.setThread, Leases.create_table, update_apply] at hv ⊢
    split at hv
    · rename_i he
      cases hv
      subst he
      exact Leases.has_next
    · exact (h.table k v hv).create
  refs := fun u k v hu => by
    by_cases he : u = t
    · subst he
      simp only [Protocol.setThread, update_self, ThreadPc.ref, PinPc.ref, Option.map_some,
        Option.some.injEq, Prod.mk.injEq] at hu
      obtain ⟨rfl, rfl⟩ := hu
      exact Leases.has_next
    · simp only [Protocol.setThread, update_of_ne he] at hu
      exact (h.refs u k v hu).create
  counts := fun v => by
    have hhold : ThreadPc.holds v (.pinning key (.tryPin s.leases.next true)) = (s.threads t).holds v := by
      rw [ThreadPc.holds_of_held_none ht]
      rfl
    simp only [Protocol.setThread, Leases.create_obj]
    rw [count_update_same hhold]
    by_cases hv : v = s.leases.next
    · subst hv
      rw [update_self]
      symm
      refine count_eq_zero.mpr fun u => ?_
      by_contra hu
      obtain ⟨k, hr⟩ := ThreadPc.ref_of_held (of_decide_eq_true ((Bool.not_eq_false _).mp hu))
      exact absurd (h.refs u k _ hr).1 (Nat.lt_irrefl _)
    · rw [update_of_ne hv, h.counts v]
  free := fun v hv => by
    simp only [Protocol.setThread, Leases.create_obj] at hv ⊢
    by_cases he : v = s.leases.next
    · subst he
      rw [update_self]
    · rw [update_of_ne he] at hv ⊢
      exact h.free v hv
  gone := fun v hv hlive => by
    simp only [Protocol.setThread] at hv hlive ⊢
    rw [Leases.live_create hk] at hlive
    obtain ⟨hne, hold⟩ := not_or.mp hlive
    rw [Leases.create_next] at hv
    rw [Leases.create_obj, update_of_ne hne]
    exact h.gone v (by omega) hold
  current := fun pc k v hc hr => by
    have := h.current pc k v hc hr
    have hne : k ≠ key := by
      rintro rfl
      rw [hk] at this
      cases this
    simp only [Protocol.setThread, Leases.create_table, update_of_ne hne, this]
  doomed := fun sc k v hc => by
    have hmarked := h.doomed sc k v hc
    have hlt := (h.table k v (h.current _ k v hc rfl)).1
    simp only [Protocol.setThread, Leases.create_obj]
    rw [update_of_ne (Nat.ne_of_lt hlt), hmarked]

omit [DecidableEq Tid] in
theorem LeasesSound.delete (h : LeasesSound s) {sc sc' : Scan K} (hc : s.collector = some (.delete sc key v)) :
    LeasesSound { s with leases := s.leases.erase key, collector := some (.range sc') } where
  table := fun k w hw => by
    simp only [Leases.erase_table, update_apply] at hw
    split at hw
    · cases hw
    · exact h.table k w hw
  refs := h.refs
  counts := h.counts
  free := h.free
  gone := fun w hw hlive => by
    simp only [Leases.live_erase, not_and_or, not_not] at hlive
    rcases hlive with hlive | hkey
    · exact h.gone w hw hlive
    · by_cases hl : s.leases.Live w
      · -- The key's current object is the one the collector has marked.
        have hcurrent := h.current _ key v hc rfl
        rw [Leases.Live, hkey, hcurrent] at hl
        cases hl
        exact h.doomed sc key v hc
      · exact h.gone w hw hl
  current := fun pc k w hpc hr => by
    cases hpc
    cases hr
  doomed := nofun

theorem LeasesSound.moves {timeout : Int} {s' : Protocol Tid K} (h : LeasesSound s) (hmove : ProtocolMoves timeout s s') :
    LeasesSound s' := by
  cases hmove with
  | start ht | absent ht hv | refused ht =>
    refine h.setThread (nofun) fun v => ?_
    rw [ht]
    rfl
  | found ht hpc hv =>
    refine h.setThread (fun k w hr => ?_) fun w => ?_
    · cases hr
      exact h.table _ _ hv
    · rw [ht]
      rcases hpc with rfl | rfl <;> rfl
  | create ht hv =>
    refine h.create hv ?_
    rw [ht]
    rfl
  | @pinned t key v isNew ht hm =>
    have hheld : (s.threads t).held = none := by
      rw [ht]
      rfl
    refine h.setObj (fun k w hr => ?_) ?_ (fun w hw => ?_) rfl fun hmarked => ?_
    · cases hr
      exact h.refs t key v (by rw [ht]; rfl)
    · have hnew : ThreadPc.held (.pinning key (.recheck v isNew)) = some v := rfl
      rw [LeasedState.pinned_leaseCount, h.counts v, count_update, ThreadPc.holds_of_held_none hheld,
        ThreadPc.holds_of_held hnew]
      simp
    · have hnew : ThreadPc.held (.pinning key (.recheck v isNew)) = some v := rfl
      rw [ThreadPc.holds_of_held_none hheld, ThreadPc.holds_of_held hnew]
      simp [hw]
    · rw [LeasedState.pinned_markedForDeletion, hm] at hmarked
      cases hmarked
  | @confirmed t key v isNew ht hv =>
    have hthread : LeasesSound (s.setThread t (.holding key v)) := by
      refine h.setThread (fun k w hr => ?_) fun w => ?_
      · cases hr
        exact h.table _ _ hv
      · rw [ht]
        rfl
    exact ⟨hthread.table, hthread.refs, hthread.counts, hthread.free, hthread.gone, hthread.current, hthread.doomed⟩
  | @lost t key v isNew ht hv =>
    refine h.setThread (fun k w hr => ?_) fun w => ?_
    · cases hr
      exact h.refs t key v (by rw [ht]; rfl)
    · rw [ht]
      rfl
  | backedOff ht | unpinned ht => exact h.unpin (by rw [ht]; rfl) (nofun) rfl
  | collect hc | missed hc hw =>
    refine h.setCollector (fun pc k v hpc hr => ?_) nofun
    cases hpc
    cases hr
  | visit hc hv =>
    refine h.setCollector (fun pc k v hpc hr => ?_) nofun
    cases hpc
    cases hr
    exact hv
  | spared hc hl hm =>
    refine h.check hl (fun hmarked => hm.trans hmarked) (fun hmarked => ?_) (nofun)
      nofun
    rw [hl]
    exact h.free _ (hm ▸ hmarked)
  | marked hc hfree hl hm =>
    refine h.check hl (fun _ => hm) (fun _ => hl ▸ hfree) (fun k w hr => ?_) fun sc k w hpc => ?_
    · cases hr
      exact h.current _ _ _ hc rfl
    · cases hpc
      exact ⟨rfl, hm⟩
  | deleted hc hw => exact h.delete hc
  | ended hc => exact h.setCollector (nofun) nofun

end Leasing

/-! ## Collections and reports -/

/-- What this run of the collector has removed. -/
def CollectPc.found {K : Type} : CollectPc K → List Nat
  | .range sc | .visit sc _ _ | .delete sc _ _ => sc.found

section Once

variable {Tid K : Type}

/-- All that was ever collected. -/
def Protocol.everCollected (s : Protocol Tid K) : List Nat :=
  s.collected ++ (s.collector.map CollectPc.found).getD []

/-- What was collected is out of the map for good. -/
structure CollectedOnce (s : Protocol Tid K) : Prop where
  nodup : s.everCollected.Nodup
  gone : ∀ v ∈ s.everCollected, v < s.leases.next ∧ ¬s.leases.Live v

/-- What was returned as new is an object whose maker has returned. -/
structure ReportedOnce (s : Protocol Tid K) : Prop where
  nodup : s.reported.Nodup
  old : ∀ v ∈ s.reported, v < s.leases.next
  made : ∀ t v, (s.threads t).made = some v → v < s.leases.next ∧ v ∉ s.reported
  unique : ∀ t u v, (s.threads t).made = some v → (s.threads u).made = some v → t = u

variable {s s' : Protocol Tid K} {t : Tid} {key : K} {v : Nat}

theorem CollectedOnce.congr (h : CollectedOnce s) (he : s'.everCollected = s.everCollected)
    (hn : s'.leases.next = s.leases.next) (hl : ∀ v, s'.leases.Live v → s.leases.Live v) : CollectedOnce s' := by
  refine ⟨he ▸ h.nodup, fun v hv => ?_⟩
  obtain ⟨hlt, hgone⟩ := h.gone v (he ▸ hv)
  exact ⟨hn ▸ hlt, fun hlive => hgone (hl v hlive)⟩

variable [DecidableEq K]

theorem CollectedOnce.create (h : CollectedOnce s) (hk : s.leases.table key = none)
    (he : s'.everCollected = s.everCollected) (hl : s'.leases = s.leases.create key) : CollectedOnce s' := by
  refine ⟨he ▸ h.nodup, fun v hv => ?_⟩
  obtain ⟨hlt, hgone⟩ := h.gone v (he ▸ hv)
  rw [hl, Leases.create_next, Leases.live_create hk, not_or]
  exact ⟨by omega, by omega, hgone⟩

theorem CollectedOnce.delete (h : CollectedOnce s) {sc : Scan K} (hc : s.collector = some (.delete sc key v)) {w : Nat}
    (hhas : s.leases.Has key w) (hw : s.leases.table key = some w) :
    CollectedOnce
      { s with leases := s.leases.erase key, collector := some (.range { sc with found := sc.found ++ [w] }) } := by
  have hlive : s.leases.Live w := hhas.live_iff.mpr hw
  have hever : s.everCollected = s.collected ++ sc.found := by
    rw [Protocol.everCollected, hc]
    rfl
  have hnew : w ∉ s.collected ++ sc.found := fun hmem => (h.gone w (hever ▸ hmem)).2 hlive
  have hlist : Protocol.everCollected
      { s with leases := s.leases.erase key, collector := some (.range { sc with found := sc.found ++ [w] }) } =
      (s.collected ++ sc.found) ++ [w] := (List.append_assoc ..).symm
  constructor
  · rw [hlist, List.nodup_append]
    refine ⟨hever ▸ h.nodup, List.nodup_singleton w, fun a ha b hb => ?_⟩
    rintro rfl
    rw [List.mem_singleton.mp hb] at ha
    exact hnew ha
  · intro u hu
    rw [hlist] at hu
    rw [Leases.live_erase, Leases.erase_next]
    rcases List.mem_append.mp hu with hu | hu
    · obtain ⟨hlt, hgone⟩ := h.gone u (hever ▸ hu)
      exact ⟨hlt, fun hl => hgone hl.1⟩
    · rw [List.mem_singleton.mp hu]
      exact ⟨hhas.1, fun hl => hl.2 hhas.2⟩

variable [DecidableEq Tid]

theorem CollectedOnce.moves {timeout : Int} (h : CollectedOnce s)
    (htable : ∀ k v, s.leases.table k = some v → s.leases.Has k v) (hmove : ProtocolMoves timeout s s') :
    CollectedOnce s' := by
  cases hmove with
  | create ht hv => exact h.create hv rfl rfl
  | deleted hc hw => exact h.delete hc (htable _ _ hw) hw
  | start | found | absent | refused | pinned | confirmed | lost | backedOff | unpinned =>
    exact h.congr rfl rfl fun v hl => hl
  | collect hc | visit hc | spared hc | marked hc | missed hc =>
    refine h.congr ?_ rfl fun v hl => hl
    simp only [Protocol.everCollected, hc]
    rfl
  | ended hc =>
    refine h.congr ?_ rfl fun v hl => hl
    simp only [Protocol.everCollected, hc, Option.map_none, Option.getD_none, List.append_nil]
    rfl

omit [DecidableEq K] in
theorem ReportedOnce.setThread (h : ReportedOnce s) {pc : ThreadPc K} {leases : Leases K}
    (hn : leases.next = s.leases.next) (hm : pc.made = none ∨ pc.made = (s.threads t).made) :
    ReportedOnce ({ s with leases }.setThread t pc) := by
  have hmade : ∀ u v, ((update s.threads t pc) u).made = some v → (s.threads u).made = some v := by
    intro u v hu
    by_cases he : u = t
    · subst he
      rw [update_self] at hu
      rcases hm with hm | hm
      · rw [hm] at hu
        cases hu
      · exact hm ▸ hu
    · rwa [update_of_ne he] at hu
  exact ⟨h.nodup, fun v hv => hn ▸ h.old v hv, fun u v hu => hn ▸ h.made u v (hmade u v hu),
    fun u w v hu hw => h.unique u w v (hmade u v hu) (hmade w v hw)⟩

omit [DecidableEq K] in
theorem ReportedOnce.report (h : ReportedOnce s) (ht : (s.threads t).made = some v) :
    ReportedOnce { s.setThread t (.holding key v) with reported := v :: s.reported } := by
  have hmade : ∀ u w, ((update s.threads t (.holding key v)) u).made = some w →
      u ≠ t ∧ (s.threads u).made = some w := by
    intro u w hu
    by_cases he : u = t
    · subst he
      rw [update_self] at hu
      cases hu
    · rw [update_of_ne he] at hu
      exact ⟨he, hu⟩
  obtain ⟨hlt, hnew⟩ := h.made t v ht
  refine ⟨List.nodup_cons.mpr ⟨hnew, h.nodup⟩, fun w hw => ?_, fun u w hu => ?_, fun u x w hu hx => ?_⟩
  · rcases List.mem_cons.mp hw with rfl | hw
    · exact hlt
    · exact h.old w hw
  · obtain ⟨hne, hold⟩ := hmade u w hu
    refine ⟨(h.made u w hold).1, fun hmem => ?_⟩
    rcases List.mem_cons.mp hmem with rfl | hmem
    · exact hne (h.unique u t w hold ht)
    · exact (h.made u w hold).2 hmem
  · exact h.unique u x w (hmade u w hu).2 (hmade x w hx).2

theorem ReportedOnce.create (h : ReportedOnce s) :
    ReportedOnce ({ s with leases := s.leases.create key }.setThread t (.pinning key (.tryPin s.leases.next true))) := by
  have hmade : ∀ u v, ((update s.threads t (.pinning key (.tryPin s.leases.next true))) u).made = some v →
      (u = t ∧ v = s.leases.next) ∨ (s.threads u).made = some v := by
    intro u v hu
    by_cases he : u = t
    · subst he
      rw [update_self] at hu
      cases hu
      exact .inl ⟨rfl, rfl⟩
    · rw [update_of_ne he] at hu
      exact .inr hu
  refine ⟨h.nodup, fun v hv => Nat.lt_succ_of_lt (h.old v hv), fun u v hu => ?_, fun u w v hu hw => ?_⟩
  · rcases hmade u v hu with ⟨-, rfl⟩ | hu
    · exact ⟨Nat.lt_succ_self _, fun hmem => Nat.lt_irrefl _ (h.old _ hmem)⟩
    · exact ⟨Nat.lt_succ_of_lt (h.made u v hu).1, (h.made u v hu).2⟩
  · rcases hmade u v hu with ⟨rfl, rfl⟩ | hold
    · rcases hmade w _ hw with ⟨rfl, -⟩ | hold'
      · rfl
      · exact absurd (h.made w _ hold').1 (Nat.lt_irrefl _)
    · rcases hmade w v hw with ⟨rfl, rfl⟩ | hold'
      · exact absurd (h.made u _ hold).1 (Nat.lt_irrefl _)
      · exact h.unique u w v hold hold'

theorem ReportedOnce.moves {timeout : Int} (h : ReportedOnce s) (hmove : ProtocolMoves timeout s s') :
    ReportedOnce s' := by
  cases hmove with
  | create ht hv => exact h.create
  | @confirmed t key v isNew ht hv =>
    cases isNew with
    | true => exact h.report (by rw [ht]; rfl)
    | false => exact h.setThread rfl (.inl rfl)
  | @pinned t key v isNew ht hm =>
    refine h.setThread rfl (.inr ?_)
    rw [ht]
    cases isNew <;> rfl
  | start | found | absent | refused | lost | backedOff | unpinned => exact h.setThread rfl (.inl rfl)
  | collect | visit | spared | marked | missed | deleted | ended => exact ⟨h.nodup, h.old, h.made, h.unique⟩

end Once

/-! ## Runs -/

section Runs

variable {Tid K : Type} [Fintype Tid] [Inhabited K]

theorem leasesSound_init : LeasesSound (Protocol.init : Protocol Tid K) where
  table := nofun
  refs := nofun
  counts := fun _ => (count_eq_zero.mpr fun _ => rfl).symm
  free := nofun
  gone := fun v h => absurd h (Nat.not_lt_zero v)
  current := nofun
  doomed := nofun

variable [DecidableEq Tid] [DecidableEq K] {timeout : Int} {s : Protocol Tid K}

/-- **The leasing protocol is safe by itself.** In every state of every run, an
object that was returned by `pinLeasedResource` and not unpinned is the current
object of its key; no object is collected twice; and no object is returned as
new twice. -/
theorem leasing_protocol_safe (h : Reaches (Protocol.step timeout) Any Protocol.init s) :
    (∀ t key v, s.threads t = .holding key v → s.leases.table key = some v) ∧
    s.everCollected.Nodup ∧ s.reported.Nodup := by
  have hinv : LeasesSound s ∧ CollectedOnce s ∧ ReportedOnce s := by
    refine h.invariant (fun s => LeasesSound s ∧ CollectedOnce s ∧ ReportedOnce s) ?_ ?_
    · refine ⟨leasesSound_init, ⟨List.nodup_nil, fun v hv => ?_⟩, List.nodup_nil, fun v hv => ?_, fun t v hv => ?_,
        fun t u v hv => ?_⟩
      · cases hv
      · cases hv
      · cases hv
      · cases hv
    · rintro s a s' ⟨hsound, hcollected, hreported⟩ - hstep
      have hmove := protocol_moves hstep
      exact ⟨hsound.moves hmove, hcollected.moves hsound.table hmove, hreported.moves hmove⟩
  refine ⟨fun t key v ht => ?_, hinv.2.1.nodup, hinv.2.2.nodup⟩
  exact hinv.1.table_of_held (by rw [ht]; rfl) (by rw [ht]; rfl)

end Runs

/-- The object of a key is collected while one goroutine is about to pin it; the
goroutine stores a new one and holds it. -/
theorem leasing_protocol_safe_after_collection :
    ∃ s : Protocol Unit Unit, Reaches (Protocol.step 1) Any Protocol.init s ∧ s.everCollected = [0] ∧
      s.threads () = .holding () 1 ∧ s.leases.table () = some 1 := by
  obtain ⟨s, hs, hc, ht⟩ := exists_of_run (Protocol.step 1) (Protocol.init : Protocol Unit Unit)
    [.pin () (), .step () 1, .step () 1, .collect 1, .visit (), .collectStep, .endRange, .collect 3, .visit (),
      .collectStep, .collectStep, .step () 3, .step () 3, .step () 3, .step () 3, .step () 3]
    (fun s => s.everCollected = [0] ∧ s.threads () = .holding () 1) (by decide +kernel)
  exact ⟨s, hs, hc, ht, (leasing_protocol_safe hs).1 () () 1 ht⟩

end InferenceScheduler.Registry
