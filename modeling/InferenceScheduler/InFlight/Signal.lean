/-
What the saturation signal says about the tracked load. The producer writes the
load to the scheduling snapshot of a request, whose attribute maps are copies
(`Separate`). The dispatch cycle reads the datastore's endpoints, where no load
was ever written.
-/
import InferenceScheduler.InFlight.Director
import Mathlib.Algebra.Order.Ring.Cast
import Mathlib.Data.Rat.Cast.Defs

namespace InferenceScheduler.InFlight

variable {Rid : Type}

/-- The scheduling endpoints of some request. -/
inductive Snapshot (s : State Rid) (e : Endpoint) : Prop
  | held {t} : e ∈ s.snapshots t → Snapshot s e
  | preparing {t} : e ∈ s.preparing t → Snapshot s e
  | cloning {t r todo made} : s.requests t = .cloning r todo made → e ∈ made → Snapshot s e

/-- The endpoints of the datastore have no load attribute, and share no
attribute map with a snapshot. -/
structure Separate (s : State Rid) : Prop where
  allocated : ∀ v < s.servers.next, (s.servers.obj v).attributes < s.attrs.next
  unloaded : ∀ v < s.servers.next, s.attrs.obj (s.servers.obj v).attributes inFlightLoadKey = none
  bound : ∀ {e}, Snapshot s e → e.attributes < s.attrs.next
  apart : ∀ {e}, Snapshot s e → ∀ v < s.servers.next, (s.servers.obj v).attributes ≠ e.attributes
  pods : ∀ x ∈ s.pods, x.2 < s.servers.next
  pool : ∀ v ∈ s.pool, v < s.servers.next

section Separate

variable {s s' : State Rid}

theorem Separate.frame (h : Separate s) (hattrs : s'.attrs = s.attrs) (hservers : s'.servers = s.servers)
    (hpods : ∀ x ∈ s'.pods, x ∈ s.pods) (hpool : ∀ v ∈ s'.pool, v < s.servers.next)
    (hsnap : ∀ e, Snapshot s' e → Snapshot s e) : Separate s' where
  allocated := by rw [hattrs, hservers]; exact h.allocated
  unloaded := by rw [hattrs, hservers]; exact h.unloaded
  bound he := by rw [hattrs]; exact h.bound (hsnap _ he)
  apart he := by rw [hservers]; exact h.apart (hsnap _ he)
  pods x hx := by rw [hservers]; exact h.pods x (hpods x hx)
  pool := by rw [hservers]; exact hpool

theorem Snapshot.congr {e : Endpoint} (h : Snapshot s' e) (hrequests : s'.requests = s.requests)
    (hsnapshots : s'.snapshots = s.snapshots) (hpreparing : s'.preparing = s.preparing) : Snapshot s e := by
  cases h with
  | held h => exact .held (hsnapshots ▸ h)
  | preparing h => exact .preparing (hpreparing ▸ h)
  | cloning h he => exact .cloning (hrequests ▸ h) he

theorem Separate.put {a : Nat} {key : String} {value : Attribute} (h : Separate s)
    (ha : (∀ v < s.servers.next, (s.servers.obj v).attributes ≠ a) ∨ key ≠ inFlightLoadKey) :
    Separate (s.put a key value) where
  allocated := h.allocated
  unloaded v hv := by
    simp only [State.put]
    by_cases hva : (s.servers.obj v).attributes = a
    · rw [hva, Heap.set_obj_self, Function.update_of_ne, ← hva]
      · exact h.unloaded v hv
      · exact fun he => ha.elim (fun ha => ha v hv hva) fun hk => hk he.symm
    · rw [Heap.set_obj_of_ne _ hva]
      exact h.unloaded v hv
  bound he := h.bound (he.congr rfl rfl rfl)
  apart he := h.apart (he.congr rfl rfl rfl)
  pods := h.pods
  pool := h.pool

theorem Separate.setMetadata {v : Nat} {m : EndpointMetadata} (h : Separate s) :
    Separate { s with servers := s.servers.set v { s.servers.obj v with metadata := some m } } := by
  have hattr : ∀ u, ((s.servers.set v { s.servers.obj v with metadata := some m }).obj u).attributes =
      (s.servers.obj u).attributes := fun u => by
    by_cases hu : u = v
    · subst hu
      rw [Heap.set_obj_self]
    · rw [Heap.set_obj_of_ne _ hu]
  refine ⟨fun u hu => ?_, fun u hu => ?_, fun he => h.bound (he.congr rfl rfl rfl), fun he u hu => ?_, h.pods, h.pool⟩
  · rw [hattr]
    exact h.allocated u hu
  · rw [hattr]
    exact h.unloaded u hu
  · rw [hattr]
    exact h.apart (he.congr rfl rfl rfl) u hu

theorem Separate.addServer {m : EndpointMetadata} (h : Separate s) : Separate { s with
    attrs := s.attrs.alloc fun _ => none
    servers := s.servers.alloc { metadata := some m, attributes := s.attrs.next }
    pods := (m.namespacedName, s.servers.next) :: s.pods } := by
  -- a server below the new bound is an old one or the new one
  have hcases : ∀ v < s.servers.next + 1, v < s.servers.next ∨ v = s.servers.next := fun v hv => by omega
  refine ⟨fun v hv => ?_, fun v hv => ?_, fun he => ?_, fun he v hv => ?_, fun x hx => ?_, fun v hv => ?_⟩
  · rcases hcases v hv with hv | rfl
    · rw [Heap.alloc_obj_of_lt _ hv, Heap.alloc_next]
      have := h.allocated v hv
      omega
    · simp
  · rcases hcases v hv with hv | rfl
    · rw [Heap.alloc_obj_of_lt _ hv, Heap.alloc_obj_of_lt _ (h.allocated v hv)]
      exact h.unloaded v hv
    · simp
  · have := h.bound (he.congr rfl rfl rfl)
    rw [Heap.alloc_next]
    omega
  · have he : Snapshot s _ := he.congr rfl rfl rfl
    rcases hcases v hv with hv | rfl
    · rw [Heap.alloc_obj_of_lt _ hv]
      exact h.apart he v hv
    · rw [Heap.alloc_obj_self]
      exact (Nat.ne_of_lt (h.bound he)).symm
  · rcases List.mem_cons.mp hx with rfl | hx
    · exact Nat.lt_succ_self _
    · exact Nat.lt_succ_of_lt (h.pods x hx)
  · exact Nat.lt_succ_of_lt (h.pool v hv)

/-- The counters and a crash are apart from all endpoints. -/
theorem Separate.unrelated (h : Separate s) (producer : Producer) (deleting : List (List (TrackerId × String)))
    (crashed : Bool) : Separate { s with producer, deleting, crashed } :=
  h.frame rfl rfl (fun _ => id) h.pool fun _ he => he.congr rfl rfl rfl

theorem Separate.podUpdate (h : Separate s) (m : EndpointMetadata) (made : Bool) : Separate (podUpdate s m made) := by
  unfold InFlight.podUpdate
  split
  · exact h.setMetadata
  · split
    · exact h.addServer
    · exact h

theorem Separate.podRemove {name : NamespacedName} (h : Separate s) (hs : podRemove s name = some s') : Separate s' := by
  obtain ⟨v, -, rfl⟩ := Option.map_eq_some_iff.mp hs
  have hsub : ∀ x ∈ s.pods.filter (·.1 ≠ name), x ∈ s.pods := fun x hx => (List.mem_filter.mp hx).1
  simp only
  split <;> exact h.frame rfl rfl hsub h.pool fun e he => he.congr rfl rfl rfl

variable [DecidableEq Rid]

theorem Snapshot.of_goto {t : Rid} {pc : RequestPc} {e : Endpoint} (h : Snapshot (s.goto t pc) e) :
    Snapshot s e ∨ ∃ r todo made, pc = .cloning r todo made ∧ e ∈ made := by
  cases h with
  | held h => exact .inl (.held h)
  | preparing h => exact .inl (.preparing h)
  | @cloning u r todo made h he =>
    simp only [State.goto, Function.update_apply] at h
    split at h
    · exact .inr ⟨r, todo, made, h, he⟩
    · exact .inl (.cloning h he)

theorem Separate.goto {t : Rid} {pc : RequestPc} (h : Separate s)
    (hpc : ∀ r todo made, pc = .cloning r todo made → ∀ e ∈ made, Snapshot s e) : Separate (s.goto t pc) := by
  refine h.frame rfl rfl (fun _ => id) h.pool fun e he => ?_
  rcases he.of_goto with he | ⟨r, todo, made, hpc', he⟩
  · exact he
  · exact hpc r todo made hpc' e he

theorem Separate.copy {t : Rid} {r : Request} {v : Nat} {todo : List Nat} {made : List Endpoint} (h : Separate s)
    (hpc : s.requests t = .cloning r (v :: todo) made) {x : AttributeMap} {m : Option EndpointMetadata} :
    Separate (State.goto { s with attrs := s.attrs.alloc x } t
      (.cloning r todo (made ++ [{ metadata := m, attributes := s.attrs.next }]))) := by
  -- a snapshot's endpoint is an old one or the new copy
  have hcases : ∀ {e}, Snapshot (State.goto { s with attrs := s.attrs.alloc x } t
      (.cloning r todo (made ++ [{ metadata := m, attributes := s.attrs.next }]))) e →
      Snapshot s e ∨ e.attributes = s.attrs.next := fun he => by
    rcases he.of_goto with he | ⟨r', todo', made', hpc', he⟩
    · exact .inl (he.congr rfl rfl rfl)
    · cases hpc'
      rcases List.mem_append.mp he with he | he
      · exact .inl (.cloning hpc he)
      · rw [List.mem_singleton.mp he]
        exact .inr rfl
  refine ⟨fun u hu => Nat.lt_succ_of_lt (h.allocated u hu), fun u hu => ?_, fun he => ?_, fun he u hu => ?_, h.pods, h.pool⟩
  · simp only [State.goto]
    rw [Heap.alloc_obj_of_lt _ (h.allocated u hu)]
    exact h.unloaded u hu
  · rcases hcases he with he | he
    · exact Nat.lt_succ_of_lt (h.bound he)
    · rw [he]
      exact Nat.lt_succ_self _
  · rcases hcases he with he | he
    · exact h.apart he u hu
    · rw [he]
      exact Nat.ne_of_lt (h.allocated u hu)

theorem Separate.leave {t : Rid} {pc : RequestPc} (h : Separate s) (hpc : ∀ r todo made, pc ≠ .cloning r todo made) :
    Separate (s.goto t pc) :=
  h.goto fun r todo made he => absurd he (hpc r todo made)

theorem Separate.clone {t : Rid} (h : Separate s) (hs : clone s t = some s') : Separate s' := by
  unfold InFlight.clone at hs
  split at hs
  · cases hs
    exact h.copy ‹_›
  · rename_i r made hpc
    cases hs
    refine Separate.leave (h.frame rfl rfl (fun _ => id) h.pool fun e he => ?_) (by simp)
    cases he with
    | cloning hc he => exact .cloning hc he
    | held he | preparing he =>
      simp only [Function.update_apply] at he
      split at he
      · exact .cloning hpc he
      · first | exact .held he | exact .preparing he
  · cases hs

theorem Separate.prepare {t : Rid} (h : Separate s) (hs : prepare s t = some s') : Separate s' := by
  unfold InFlight.prepare at hs
  split at hs
  · rename_i e rest hprep
    split at hs
    · cases hs
      refine Separate.put ?_ (.inl (h.apart (.preparing (t := t) (by rw [hprep]; exact List.mem_cons_self))))
      refine h.frame rfl rfl (fun _ => id) h.pool fun e' he => ?_
      cases he with
      | cloning hc he => exact .cloning hc he
      | held he => exact .held he
      | preparing he =>
        simp only [Function.update_apply] at he
        split at he
        · exact .preparing (t := t) (by rw [hprep]; exact List.mem_cons_of_mem _ he)
        · exact .preparing he
    · cases hs
      exact h.unrelated ..
  · cases hs

theorem Separate.schedule {t : Rid} {result : SchedulingResult} (h : Separate s)
    (hs : schedule s t result = some s') : Separate s' := by
  unfold InFlight.schedule at hs
  split at hs
  · obtain ⟨-, hs⟩ := Option.ite_none_right_eq_some.mp hs
    split at hs
    · cases hs
      exact h.leave (by simp)
    · split at hs
      · cases hs
        exact h.leave (by simp)
      · cases hs
        exact h.unrelated ..
  · cases hs

theorem Separate.track {t : Rid} (h : Separate s) (hs : track s t = some s') : Separate s' := by
  unfold InFlight.track at hs
  split at hs
  · cases hs
    refine (h.unrelated ..).leave ?_
    split <;> simp
  · cases hs
    refine h.leave ?_
    split <;> simp
  · cases hs

theorem Separate.chunk {t : Rid} {eos : Bool} {order : List (String × Option TargetEndpoints)} (h : Separate s)
    (hs : chunk s t eos order = some s') : Separate s' := by
  unfold InFlight.chunk at hs
  split at hs
  · obtain ⟨-, hs⟩ := Option.ite_none_right_eq_some.mp hs
    split at hs
    · cases hs
      exact h.leave (by simp)
    · cases hs
      exact h.unrelated ..
  · cases hs

theorem Separate.step {a : Act Rid} (h : Separate s) (hs : step s a = some s') : Separate s' := by
  unfold InFlight.step at hs
  split at hs
  · cases hs
  · cases a with
    | podUpdate m made =>
      cases hs
      exact h.podUpdate m made
    | podRemove name => exact h.podRemove hs
    | deleteEndpoint event =>
      simp only [deleteEndpoint] at hs
      split at hs
      · cases hs
        exact h.unrelated ..
      · cases hs
    | extractModels v =>
      obtain ⟨hv, hs⟩ := Option.ite_none_right_eq_some.mp hs
      cases hs
      exact h.put (.inr (by decide))
    | refresh pool =>
      obtain ⟨hperm, hs⟩ := Option.ite_none_right_eq_some.mp hs
      cases hs
      refine h.frame rfl rfl (fun _ => id) (fun v hv => ?_) fun e he => he.congr rfl rfl rfl
      obtain ⟨x, hx, rfl⟩ := List.mem_map.mp (hperm.mem_iff.mp hv)
      exact h.pods x hx
    | start t r candidates =>
      simp only at hs
      split at hs
      · obtain ⟨-, hs⟩ := Option.ite_none_right_eq_some.mp hs
        cases hs
        split
        · exact h.leave (by simp)
        · exact h.goto fun r todo made he e hm => by cases he; cases hm
      · cases hs
    | clone t => exact h.clone hs
    | prepare t => exact h.prepare hs
    | put t i key value =>
      obtain ⟨e, he, rfl⟩ := Option.map_eq_some_iff.mp hs
      exact h.put (.inl (h.apart (.held (List.mem_of_getElem? he))))
    | schedule t result => exact h.schedule hs
    | fail t =>
      simp only at hs
      split at hs
      · cases hs
        exact h.leave (by simp)
      · cases hs
    | track t => exact h.track hs
    | chunk t eos order => exact h.chunk hs

theorem separate_reaches {ok : State Rid → Act Rid → Prop} (h : Reaches step ok {} s) : Separate s := by
  refine h.invariant Separate ?_ fun _ _ _ hi _ hs => hi.step hs
  refine ⟨nofun, nofun, fun he => ?_, fun he => ?_, nofun, nofun⟩
  all_goals cases he with
    | held h | preparing h | cloning h => cases h

/-! ## The signal -/

/-- The signal is the tracked load over the capacity; an empty pool has no quotient. -/
def Reflects (s : State Rid) (c : Config) : Prop :=
  s.capacity c ≠ 0 → s.saturation c = (s.trackedLoad c : Rat) / s.capacity c

omit [DecidableEq Rid] in
theorem Separate.saturation_eq (h : Separate s) (c : Config) :
    s.saturation c = if int64 (s.capacity c) = 0 then 1 else 0 := by
  have hnone : ∀ e ∈ s.pool.map s.view, e.2 inFlightLoadKey = none := fun e he => by
    obtain ⟨v, hv, rfl⟩ := List.mem_map.mp he
    exact h.unloaded v (h.pool v hv)
  rw [State.saturation, InFlight.saturation, foldl_accumulate hnone]
  simp only [Int.cast_zero, zero_div]
  rfl

/-- **The saturation signal does not reflect the load**: in every state
reached it is the tracked load over the capacity exactly when there is no
endpoint or no tracked load (or, where the `int64` sum of the capacities is
zero, when the tracked load is the whole capacity). -/
theorem saturation_reflects_load_iff (c : Config) (h : Reaches step Any {} s) :
    Reflects s c ↔ s.capacity c = 0 ∨ s.trackedLoad c = if int64 (s.capacity c) = 0 then s.capacity c else 0 := by
  unfold Reflects
  rw [(separate_reaches h).saturation_eq]
  by_cases hcap : s.capacity c = 0
  · simp [hcap]
  · have hne : (s.capacity c : Rat) ≠ 0 := by exact_mod_cast hcap
    rw [forall_prop_of_true hcap, or_iff_right hcap]
    split
    · rw [eq_div_iff hne, one_mul, Int.cast_inj, eq_comm]
    · rw [eq_comm, div_eq_zero_iff, or_iff_left hne, Int.cast_eq_zero]

end Separate

/-- What `buildConfig` makes of an empty configuration. -/
def defaultConfig : Config := ⟨100, 0, .requests, 1000000, by decide, by decide, by decide⟩

example : buildConfig {} = .ok defaultConfig := rfl

def onePod : List (Act Unit) := [.podUpdate ⟨⟨"default", "pod-a"⟩⟩ true, .refresh [0]]

/-- It is the target of the only profile. -/
def onPod : List (String × Option TargetEndpoints) := [("decode", some [some ⟨some ⟨⟨"default", "pod-a"⟩⟩, 1⟩])]

/-- A request of 40 bytes is routed to it, with its `PreRequest`. -/
def oneRequest : List (Act Unit) :=
  [.start () ⟨40, -1, 0⟩ [0], .clone (), .clone (), .prepare (), .schedule () ⟨onPod, "decode"⟩] ++
  List.replicate 5 (.track ())

/-- When the request is served the signal is right again. -/
theorem saturation_reflects_load_idle : ∃ s : State Unit, Reaches step Any {} s ∧ s.capacity defaultConfig = 100 ∧
    (s.producer.requestTracker.counts "default/pod-a").isSome ∧ Reflects s defaultConfig := by
  obtain ⟨s, hs, hcap, hcounter, hload⟩ := exists_of_run step {}
    (onePod ++ oneRequest ++ .chunk () true onPod :: List.replicate 5 (.track ()))
    (fun s => s.capacity defaultConfig = 100 ∧ (s.producer.requestTracker.counts "default/pod-a").isSome ∧
      s.trackedLoad defaultConfig = 0)
    (by decide +kernel)
  refine ⟨s, hs, hcap, hcounter, (saturation_reflects_load_iff defaultConfig hs).mpr (.inr ?_)⟩
  rw [hcap, hload]
  decide

/-- **A request in flight that the signal does not see.** -/
theorem saturation_blind : ∃ s : State Unit, Reaches step Any {} s ∧ s.saturation defaultConfig = 0 ∧
    s.trackedLoad defaultConfig = 1 ∧ s.capacity defaultConfig = 100 ∧ ¬ Reflects s defaultConfig := by
  obtain ⟨s, hs, hsat, hload, hcap⟩ := exists_of_run step {} (onePod ++ oneRequest)
    (fun s => s.saturation defaultConfig = 0 ∧ s.trackedLoad defaultConfig = 1 ∧ s.capacity defaultConfig = 100)
    (by decide +kernel)
  refine ⟨s, hs, hsat, hload, hcap, fun h => ?_⟩
  have hval := h (by rw [hcap]; decide)
  rw [hsat, hload, hcap] at hval
  exact absurd hval (by decide +kernel)

end InferenceScheduler.InFlight
