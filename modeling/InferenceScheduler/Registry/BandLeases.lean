/-
Band lease accounting. A band state's `leaseCount` is the number of charged flow
states of its priority (`Charges`) plus the number of calls that are between
pinning it and finding it current. When nothing is in progress the charged flow
states are the ones in `flowStates`, as `WithConnection` states in its comment.
-/
import InferenceScheduler.Registry.Charges

namespace InferenceScheduler.Registry

open Function (update_apply update_of_ne)

/-- The band state a call holds a lease on for itself. -/
def CallPc.bandPin : CallPc → Option Nat
  | .pinBand _ pc => pc.held
  | _ => none

def CallPc.holdsBand (b : Nat) (pc : CallPc) : Bool := pc.bandPin = some b

/-- The band state a call has looked up to give a lease back. -/
def CallPc.bandLoaded : CallPc → Option (Int × Nat)
  | .unpinBand c _ b => some (c.key.priority, b)
  | _ => none

/-- The band state the collector has marked and is about to remove. -/
def GcPc.bandMarking : GcPc → Option Nat
  | .bands (.delete _ _ b) => some b
  | _ => none

variable {b : Nat} {pc pc' : CallPc}

theorem CallPc.bandRef_of_bandPin (h : pc.bandPin = some b) : ∃ p, pc.bandRef = some (p, b) := by
  cases pc with
  | pinBand c pc => cases pc <;> simp_all [bandPin, bandRef, PinPc.held, PinPc.ref]
  | _ => simp [bandPin] at h

/-- How many flow states of a priority are charged. -/
def charges (flowKey : Nat → FlowKey) (ch : Finset Nat) (p : Int) : Int :=
  (ch.filter fun v => (flowKey v).priority = p).card

section Charges

variable {flowKey : Nat → FlowKey} {ch : Finset Nat} {p : Int} {v : Nat}

theorem charges_nonneg (flowKey : Nat → FlowKey) (ch : Finset Nat) (p : Int) : 0 ≤ charges flowKey ch p := by
  simp [charges]

theorem charges_insert (h : v ∉ ch) :
    charges flowKey (insert v ch) p = charges flowKey ch p + if (flowKey v).priority = p then 1 else 0 := by
  unfold charges
  rw [Finset.filter_insert]
  split
  · rw [Finset.card_insert_of_notMem (by simp [h])]
    simp
  · simp

theorem charges_erase (h : v ∈ ch) :
    charges flowKey (ch.erase v) p = charges flowKey ch p - if (flowKey v).priority = p then 1 else 0 := by
  have hi : charges flowKey (insert v (ch.erase v)) p = _ := charges_insert (Finset.notMem_erase v ch)
  rw [Finset.insert_erase h] at hi
  omega

theorem charges_pos (h : v ∈ ch) : 0 < charges flowKey ch (flowKey v).priority := by
  have he : charges flowKey (ch.erase v) (flowKey v).priority = _ := charges_erase h
  have := charges_nonneg flowKey (ch.erase v) (flowKey v).priority
  rw [if_pos rfl] at he
  omega

theorem charges_eq_zero (h : ∀ v ∈ ch, (flowKey v).priority ≠ p) : charges flowKey ch p = 0 := by
  rw [charges, Finset.filter_false_of_mem h]
  rfl

theorem charges_congr {flowKey' : Nat → FlowKey} (h : ∀ v ∈ ch, flowKey' v = flowKey v) :
    charges flowKey' ch p = charges flowKey ch p := by
  rw [charges, charges, Finset.filter_congr fun v hv => by rw [h v hv]]

end Charges

/-! ## The count -/

variable {Tid : Type} [Fintype Tid]

/-- What the charged flow states owe a band state while it is the current one. -/
def State.owed {Tid : Type} (s : State Tid) (ch : Finset Nat) (b : Nat) : Int :=
  if s.bands.table (s.bands.key b) = some b then charges s.flows.key ch (s.bands.key b) else 0

structure BandLeases (s : State Tid) (ch : Finset Nat) : Prop where
  leases : ∀ b, (s.bands.obj b).leaseCount = s.owed ch b + count (CallPc.holdsBand b) s.calls
  marked : ∀ b, (s.bands.obj b).markedForDeletion = true → (s.bands.obj b).leaseCount = 0
  charged : ∀ v ∈ ch, (s.bands.table (s.flows.key v).priority).isSome
  loaded : ∀ t p b, (s.calls t).bandLoaded = some (p, b) → s.bands.table p = some b
  gcBand : ∀ p b, s.gc.bandRef s.flows.key = some (p, b) → s.bands.table p = some b
  gcMarking : ∀ b, s.gc.bandMarking = some b → (s.bands.obj b).markedForDeletion = true

variable {s s' : State Tid} {t : Tid} {ch : Finset Nat}

section Owed

omit [Fintype Tid]

theorem owed_nonneg (s : State Tid) (ch : Finset Nat) (b : Nat) : 0 ≤ s.owed ch b := by
  unfold State.owed
  split
  · exact charges_nonneg ..
  · exact le_refl 0

theorem owed_current {p : Int} {b : Nat} (hr : Refs s) (hb : s.bands.table p = some b) :
    s.owed ch b = charges s.flows.key ch p := by
  rw [State.owed, (hr.bandTable p b hb).2, if_pos hb]

theorem owed_congr {p : Int} {b c : Nat} {ch' : Finset Nat} (hb : s.bands.table p = some b) (hc : c ≠ b)
    (hch : ∀ q, q ≠ p → charges s.flows.key ch' q = charges s.flows.key ch q) : s.owed ch' c = s.owed ch c := by
  unfold State.owed
  split
  · rename_i hcur
    refine hch _ fun e => hc ?_
    rw [e, hb, Option.some.injEq] at hcur
    exact hcur.symm
  · rfl

end Owed

theorem BandLeases.nonneg (h : BandLeases s ch) (b : Nat) : 0 ≤ (s.bands.obj b).leaseCount := by
  rw [h.leases b]
  have := count_nonneg (p := CallPc.holdsBand b) (f := s.calls)
  have := owed_nonneg s ch b
  omega

theorem BandLeases.not_marked {v : Nat} (h : BandLeases s ch) (hr : Refs s) (hv : v ∈ ch)
    (hb : s.bands.table (s.flows.key v).priority = some b) :
    (s.bands.obj b).markedForDeletion = false := by
  have hl := h.leases b
  rw [owed_current hr hb] at hl
  have hpos : 0 < charges s.flows.key ch (s.flows.key v).priority := charges_pos hv
  have := count_nonneg (p := CallPc.holdsBand b) (f := s.calls)
  by_contra hm
  have := h.marked b (by simpa using hm)
  omega

theorem BandLeases.frame (h : BandLeases s ch) (hbands : s'.bands = s.bands)
    (hkey : ∀ v ∈ ch, s'.flows.key v = s.flows.key v)
    (hpin : ∀ b, count (CallPc.holdsBand b) s'.calls = count (CallPc.holdsBand b) s.calls)
    (hloaded : ∀ t p b, (s'.calls t).bandLoaded = some (p, b) → s.bands.table p = some b)
    (hgc : ∀ p b, s'.gc.bandRef s'.flows.key = some (p, b) → s.bands.table p = some b)
    (hmarking : ∀ b, s'.gc.bandMarking = some b → (s.bands.obj b).markedForDeletion = true) :
    BandLeases s' ch := by
  constructor
  · intro b
    rw [hbands, hpin, h.leases b, State.owed, State.owed, hbands, charges_congr hkey]
  · rw [hbands]
    exact h.marked
  · intro v hv
    rw [hbands, hkey v hv]
    exact h.charged v hv
  · rw [hbands]
    exact hloaded
  · rw [hbands]
    exact hgc
  · rw [hbands]
    exact hmarking

variable {gc : GcPc} {now : Time}

theorem BandLeases.check {timeout : Int} (h : BandLeases s ch)
    (hgc : ∀ p b, gc.bandRef s.flows.key = some (p, b) → s.bands.table p = some b)
    (hmarking : ∀ c, gc.bandMarking = some c →
      c = b ∧ ((s.bands.obj b).checkAndMarkForDeletion timeout now).1 = true) :
    BandLeases { s with
      bands := s.bands.setObj b ((s.bands.obj b).checkAndMarkForDeletion timeout now).2, gc } ch := by
  constructor
  case leases =>
    intro c
    refine Eq.trans ?_ (h.leases c)
    simp only [Leases.setObj_obj, update_apply]
    split
    · rename_i e; rw [LeasedState.check_leaseCount, e]
    · rfl
  case marked =>
    intro c hc
    simp only [Leases.setObj_obj, update_apply] at hc ⊢
    split at hc
    · rename_i e
      subst e
      simp only [if_true, LeasedState.check_leaseCount]
      cases hm : ((s.bands.obj c).checkAndMarkForDeletion timeout now).1 with
      | true => exact le_antisymm (LeasedState.check_of_true hm).1 (h.nonneg c)
      | false => exact h.marked c (by rwa [← LeasedState.check_marked_of_false hm])
    · rename_i e
      rw [if_neg e]
      exact h.marked c hc
  case charged => exact h.charged
  case loaded => exact h.loaded
  case gcBand => exact hgc
  case gcMarking =>
    intro c hc
    obtain ⟨rfl, hm⟩ := hmarking c hc
    simp [(LeasedState.check_of_true hm).2]

theorem BandLeases.remove {p : Int} (h : BandLeases s ch) (hr : Refs s)
    (hb : s.bands.table p = some b) (hm : (s.bands.obj b).markedForDeletion = true)
    (hgc : gc.bandRef s.flows.key = none) (hmarking : gc.bandMarking = none)
    (hloaded : ∀ t q c, (s.calls t).bandLoaded = some (q, c) → ∃ v ∈ ch, (s.flows.key v).priority = q) :
    BandLeases { s with bands := s.bands.erase p, gc } ch := by
  have hkey := (hr.bandTable _ _ hb).2
  have hno : ∀ v ∈ ch, (s.flows.key v).priority ≠ p := fun v hv e => by
    have := h.not_marked hr hv (e ▸ hb)
    rw [hm] at this
    cases this
  constructor
  case leases =>
    intro c
    rw [Leases.erase_obj, h.leases c]
    congr 1
    simp only [State.owed, Leases.erase_key, Leases.erase_table, update_apply]
    by_cases hc : s.bands.key c = p
    · simp only [hc, if_true, reduceCtorEq, if_false]
      split
      · exact charges_eq_zero hno
      · rfl
    · simp [hc]
  case marked => exact h.marked
  case charged =>
    intro v hv
    simp only [Leases.erase_table, update_of_ne (hno v hv)]
    exact h.charged v hv
  case loaded =>
    intro t q c hq
    obtain ⟨v, hv, hvq⟩ := hloaded t q c hq
    simp only [Leases.erase_table, update_of_ne (hvq ▸ hno v hv)]
    exact h.loaded t q c hq
  case gcBand => simp [hgc]
  case gcMarking => simp [hmarking]

theorem BandLeases.giveBack {v : Nat} {calls : Tid → CallPc} (h : BandLeases s ch)
    (hr : Refs s) (hv : v ∈ ch) (hb : s.bands.table (s.flows.key v).priority = some b)
    (hpin : ∀ b, count (CallPc.holdsBand b) calls = count (CallPc.holdsBand b) s.calls)
    (hloaded : ∀ t p b, (calls t).bandLoaded = some (p, b) → s.bands.table p = some b)
    (hgc : ∀ p b, gc.bandRef s.flows.key = some (p, b) → s.bands.table p = some b)
    (hmarking : ∀ b, gc.bandMarking = some b → (s.bands.obj b).markedForDeletion = true) :
    BandLeases { s with bands := s.bands.setObj b ((s.bands.obj b).unpin now), calls, gc } (ch.erase v) := by
  have hkey := (hr.bandTable _ _ hb).2
  have hmb := h.not_marked hr hv hb
  constructor
  case leases =>
    intro c
    change _ = s.owed (ch.erase v) c + count (CallPc.holdsBand c) calls
    have hl := h.leases c
    simp only [Leases.setObj_obj, hpin, update_apply]
    by_cases hc : c = b
    · subst hc
      rw [owed_current hr hb] at hl ⊢
      simp only [charges_erase hv, if_true, LeasedState.unpin_leaseCount]
      omega
    · rw [if_neg hc, hl, owed_congr hb hc fun q hq => by rw [charges_erase hv, if_neg (Ne.symm hq), sub_zero]]
  case marked =>
    intro c hc
    simp only [Leases.setObj_obj, update_apply] at hc ⊢
    split at hc
    · simp [hmb] at hc
    · rename_i e
      rw [if_neg e]
      exact h.marked c hc
  case charged => exact fun w hw => h.charged w (Finset.mem_of_mem_erase hw)
  case loaded => exact hloaded
  case gcBand => exact hgc
  case gcMarking =>
    intro c hc
    have hm := hmarking c hc
    have hne : c ≠ b := fun e => by rw [e, hmb] at hm; cases hm
    simpa [hne] using hm

theorem BandLeases.create {p : Int} (h : BandLeases s ch) (hr : Refs s) (hp : s.bands.table p = none) :
    BandLeases { s with bands := s.bands.create p } ch := by
  have hno : ∀ v ∈ ch, (s.flows.key v).priority ≠ p := fun v hv e => by
    have := h.charged v hv
    rw [e, hp] at this
    cases this
  have h0 : count (CallPc.holdsBand s.bands.next) s.calls = 0 := by
    rw [count_eq_zero]
    intro u
    simp only [CallPc.holdsBand, decide_eq_false_iff_not]
    intro hu
    obtain ⟨q, hq⟩ := CallPc.bandRef_of_bandPin hu
    exact absurd (hr.callBand u q _ hq).1 (by omega)
  have hkeep : ∀ q b, s.bands.table q = some b → (s.bands.create p).table q = some b := fun q b hq => by
    have hne : q ≠ p := fun e => by rw [e, hp] at hq; cases hq
    simpa [hne] using hq
  constructor
  case leases =>
    intro c
    by_cases hc : c = s.bands.next
    · subst hc
      simp [State.owed, h0, charges_eq_zero hno]
    · have hlive := Leases.live_create (m := s.bands) (v := c) hp
      have hk : (s.bands.create p).key c = s.bands.key c := by simp [hc]
      simp only [Leases.Live, hc, false_or, hk] at hlive
      simp only [State.owed, hk, hlive, h.leases c, Leases.create_obj, update_of_ne hc]
  case marked =>
    intro c hc
    simp only [Leases.create_obj, update_apply] at hc ⊢
    split at hc
    · cases hc
    · rename_i e
      rw [if_neg e]
      exact h.marked c hc
  case charged =>
    intro v hv
    simpa [hno v hv] using h.charged v hv
  case loaded => exact fun t q b hq => hkeep q b (h.loaded t q b hq)
  case gcBand => exact fun q b hq => hkeep q b (h.gcBand q b hq)
  case gcMarking =>
    intro b hb
    have hlt : b ≠ s.bands.next := by
      cases hgc : s.gc with
      | bands pc =>
        cases pc with
        | delete sc q c =>
          have := (hr.gcBand q c (by rw [hgc]; rfl)).1
          rw [hgc] at hb
          cases hb
          omega
        | _ => simp [hgc, GcPc.bandMarking] at hb
      | _ => simp [hgc, GcPc.bandMarking] at hb
    simpa [hlt] using h.gcMarking b hb

variable [DecidableEq Tid]

theorem BandLeases.loaded_goto (h : BandLeases s ch) (hpc : pc.bandLoaded = none) :
    ∀ u p b, ((s.goto t pc).calls u).bandLoaded = some (p, b) → s.bands.table p = some b :=
  (Function.forall_update_iff s.calls
    fun _ pc => ∀ p b, pc.bandLoaded = some (p, b) → s.bands.table p = some b).mpr
    ⟨fun p b hp => (by rw [hpc] at hp; cases hp), fun u _ => h.loaded u⟩

theorem holdsBand_goto (hpc : s.calls t = pc) (h : pc'.bandPin = pc.bandPin) (b : Nat) :
    count (CallPc.holdsBand b) (s.goto t pc').calls = count (CallPc.holdsBand b) s.calls := by
  rw [State.goto_calls, count_update_same (by rw [CallPc.holdsBand, h, hpc]; rfl)]

theorem BandLeases.goto (h : BandLeases s ch) (hpc : s.calls t = pc)
    (hpin : pc'.bandPin = pc.bandPin) (hl : pc'.bandLoaded = none) : BandLeases (s.goto t pc') ch :=
  h.frame rfl (fun _ _ => rfl) (holdsBand_goto hpc hpin) (h.loaded_goto hl) h.gcBand h.gcMarking

/-- A call pins or unpins `b`: what it holds afterwards is in the count. -/
theorem BandLeases.repin {ls : LeasedState} (h : BandLeases s ch) (hpc : s.calls t = pc)
    (hm : (s.bands.obj b).markedForDeletion = false) (hm' : ls.markedForDeletion = false)
    (hother : ∀ c ≠ b, pc.bandPin ≠ some c ∧ pc'.bandPin ≠ some c) (hl : pc'.bandLoaded = none)
    (hls : ls.leaseCount = (s.bands.obj b).leaseCount - (if pc.bandPin = some b then 1 else 0) +
      if pc'.bandPin = some b then 1 else 0) :
    BandLeases ({ s with bands := s.bands.setObj b ls }.goto t pc') ch := by
  constructor
  case leases =>
    intro c
    change _ = s.owed ch c + _
    rw [State.goto_calls, count_update, hpc]
    simp only [State.goto_bands, Leases.setObj_obj, update_apply, CallPc.holdsBand, decide_eq_true_eq]
    by_cases hc : c = b
    · rw [if_pos hc, hls, hc, h.leases b]
      omega
    · simp [hc, hother c hc, h.leases c]
  case marked =>
    intro c hc
    simp only [State.goto_bands, Leases.setObj_obj, update_apply] at hc ⊢
    split at hc
    · simp [hm'] at hc
    · rename_i e
      rw [if_neg e]
      exact h.marked c hc
  case charged => exact h.charged
  case loaded => exact h.loaded_goto hl
  case gcBand => exact h.gcBand
  case gcMarking =>
    intro c hc
    have hmark := h.gcMarking c hc
    have hne : c ≠ b := fun e => by rw [e, hm] at hmark; cases hmark
    simpa [hne] using hmark

theorem BandLeases.pin (h : BandLeases s ch) (hpc : s.calls t = pc)
    (hm : (s.bands.obj b).markedForDeletion = false) (hn : pc.bandPin = none) (hp : pc'.bandPin = some b)
    (hl : pc'.bandLoaded = none) :
    BandLeases ({ s with bands := s.bands.setObj b (s.bands.obj b).pinned }.goto t pc') ch :=
  h.repin hpc hm hm (fun c hc => by simp [hn, hp, hc.symm]) hl (by simp [hn, hp])

theorem BandLeases.unpin (h : BandLeases s ch) (hpc : s.calls t = pc)
    (hp : pc.bandPin = some b) (hn : pc'.bandPin = none) (hl : pc'.bandLoaded = none) :
    BandLeases ({ s with bands := s.bands.setObj b ((s.bands.obj b).unpin now) }.goto t pc') ch := by
  have hm : (s.bands.obj b).markedForDeletion = false := by
    have hpos : 0 < count (CallPc.holdsBand b) s.calls := count_pos (i := t) (by simp [CallPc.holdsBand, hpc, hp])
    have := h.leases b
    have := owed_nonneg s ch b
    by_contra hm
    have := h.marked b (by simpa using hm)
    omega
  exact h.repin hpc hm hm (fun c hc => by simp [hn, hp, hc.symm]) hl (by simp [hn, hp])

theorem BandLeases.charge {v : Nat} (h : BandLeases s ch) (hr : Refs s)
    (hpc : s.calls t = pc) (hp : pc.bandPin = some b) (hn : pc'.bandPin = none) (hl : pc'.bandLoaded = none)
    (hv : v ∉ ch) (hb : s.bands.table (s.flows.key v).priority = some b) :
    BandLeases (s.goto t pc') (insert v ch) := by
  have hkey := (hr.bandTable _ _ hb).2
  constructor
  case leases =>
    intro c
    change _ = s.owed (insert v ch) c + _
    rw [State.goto_calls, State.goto_bands, count_update, hpc, h.leases c]
    simp only [CallPc.holdsBand, hn, hp, Option.some.injEq]
    by_cases hc : c = b
    · subst hc
      rw [owed_current hr hb, owed_current hr hb, charges_insert hv]
      simp
    · rw [owed_congr hb hc fun q hq => by rw [charges_insert hv, if_neg (Ne.symm hq), add_zero]]
      simp [Ne.symm hc]
  case marked => exact h.marked
  case charged =>
    intro w hw
    rcases Finset.mem_insert.mp hw with rfl | hw
    · simp [hb]
    · exact h.charged w hw
  case loaded => exact h.loaded_goto hl
  case gcBand => exact h.gcBand
  case gcMarking => exact h.gcMarking

/-! ## What a step does to the accounts -/

/-- Everything that is known of a state in which `ch` is charged. -/
structure Ledger (s : State Tid) (ch : Finset Nat) : Prop where
  refs : Refs s
  flowLeases : FlowLeases s
  once : Once s
  creators : BandsByCreators s
  charged : Charged s ch
  bandLeases : BandLeases s ch

omit [DecidableEq Tid] in
/-- A provisioned state that is not marked is in the map. -/
theorem Ledger.live_of_unmarked {v : Nat} (h : Ledger s ch) (hlt : v < s.flows.next) (hi : s.init v = .done none)
    (hm : (s.flows.obj v).markedForDeletion = false) : s.flows.Live v := by
  by_contra hl
  rcases h.charged.gone v hlt hl with hm' | ⟨e, he⟩
  · rw [hm] at hm'
    cases hm'
  · rw [hi] at he
    cases he

omit [DecidableEq Tid] in
theorem Ledger.live_of_pinned {v : Nat} (h : Ledger s ch) (ht : (s.calls t).flowPin = some v)
    (hi : s.init v = .done none) : s.flows.Live v := by
  obtain ⟨k, hk⟩ := CallPc.flowRef_of_flowPin ht
  exact h.live_of_unmarked (h.refs.callFlow t k v hk).1 hi (h.flowLeases.not_marked ht)

theorem CallMoves.accounts {made : Bool} (h : Ledger s ch) (hok : RemovesOwn s (.call t now made))
    (m : CallMoves s t now made s') : ∃ ch', Charged s' ch' ∧ BandLeases s' ch' := by
  have hc := h.charged
  have hb := h.bandLeases
  have hr := h.refs
  cases m with
  | flowFound hpc hl _ | bandFound hpc hl _ =>
    rcases hl with rfl | rfl <;> exact ⟨ch, hc.goto hpc rfl rfl, hb.goto hpc rfl rfl⟩
  | @flowCreate key hpc hk =>
    have hkey : ∀ v ∈ ch, (s.flows.create key).key v = s.flows.key v := fun v hv =>
      Leases.create_key_of_lt (hc.lt v hv)
    refine ⟨ch, hc.create hr hpc rfl hk rfl rfl, hb.frame rfl hkey (holdsBand_goto hpc rfl) (hb.loaded_goto rfl)
      (fun p b hp => hb.gcBand p b ?_) hb.gcMarking⟩
    rwa [← GcPc.bandRef_congr fun v hv => Leases.create_key_of_lt (hr.pending v hv)]
  | @flowPin key v isNew hpc hm =>
    exact ⟨ch, hc.setFlow rfl hpc (by cases isNew <;> rfl) rfl, hb.frame rfl (fun _ _ => rfl) (holdsBand_goto hpc rfl)
      (hb.loaded_goto rfl) hb.gcBand hb.gcMarking⟩
  | @flowRefused key v isNew hpc hm =>
    cases isNew with
    | true =>
      -- the creator's own state is never marked before it is charged
      have := hc.unmarked t v (by rw [hpc]; rfl)
      rw [hm] at this
      cases this
    | false => exact ⟨ch, hc.goto hpc rfl rfl, hb.goto hpc rfl rfl⟩
  | @flowStale key v isNew hpc hv =>
    have hkey := hr.callFlow t key v (by rw [hpc]; rfl)
    cases isNew with
    | true => exact ⟨ch, hc.settle hpc rfl rfl rfl (by simpa [hkey.live_iff] using hv), hb.goto hpc rfl rfl⟩
    | false => exact ⟨ch, hc.goto hpc rfl rfl, hb.goto hpc rfl rfl⟩
  | flowBackOff hpc | release hpc =>
    exact ⟨ch, hc.setFlow rfl hpc rfl rfl, hb.frame rfl (fun _ _ => rfl) (holdsBand_goto hpc rfl)
      (hb.loaded_goto rfl) hb.gcBand hb.gcMarking⟩
  | bandCreate hpc hp => exact ⟨ch, hc.goto hpc rfl rfl, (hb.create hr hp).goto hpc rfl rfl⟩
  | bandPin hpc hm => exact ⟨ch, hc.goto hpc rfl rfl, hb.pin hpc hm rfl rfl rfl⟩
  | bandBackOff hpc => exact ⟨ch, hc.goto hpc rfl rfl, hb.unpin hpc rfl rfl rfl⟩
  | @bandKept c b isNew hpc hp =>
    have hnew : c.isNew = true := by simpa [hpc, CallPc.bandByCreator] using h.creators t
    have hkey := hr.callFlow t c.key c.state (by rw [hpc]; rfl)
    have hv : c.state ∉ ch := fun hv => by
      have := (hc.maker t c.state false (by rw [hpc]; rfl)).mp hv
      cases this
    exact ⟨insert c.state ch, hc.charge hpc rfl hkey.1 (by simp [CallPc.maker, hnew]) rfl,
      hb.charge hr hpc rfl rfl rfl hv (by rw [hkey.2]; exact hp)⟩
  | enterFirst hpc hi =>
    exact ⟨ch, (hc.setInit (by simp [hi])).goto hpc rfl rfl, hb.frame rfl (fun _ _ => rfl)
      (holdsBand_goto hpc rfl) (hb.loaded_goto rfl) hb.gcBand hb.gcMarking⟩
  | bandThere hpc hpcs =>
    subst hpc
    rcases hpcs with hpc | hpc <;> exact ⟨ch, hc.goto hpc rfl rfl, hb.goto hpc rfl rfl⟩
  | @ensureBand c topo bands hpc _ _ hbands =>
    refine ⟨ch, hc.goto hpc rfl rfl, ?_⟩
    have hb' : BandLeases { s with topo, bands } ch := by
      subst hbands
      split
      · exact { hb with }
      · exact { hb.create hr (by simp_all) with }
    exact hb'.goto hpc rfl rfl
  | @syncFail c e hpc _ | @syncOk c band topo hpc _ _ =>
    have hi : s.init c.state = .running := h.once.body t c.state (by rw [hpc]; rfl)
    exact ⟨ch, (hc.setInit (by simp [hi])).goto hpc rfl rfl, hb.frame rfl (fun _ _ => rfl)
      (holdsBand_goto hpc rfl) (hb.loaded_goto rfl) hb.gcBand hb.gcMarking⟩
  | crash => exact ⟨ch, { hc with }, { hb with }⟩
  | @checkOk c hpc hi =>
    have hlive := h.live_of_pinned (t := t) (by rw [hpc]; rfl) hi
    refine ⟨ch, ?_, hb.goto hpc rfl rfl⟩
    cases hn : c.isNew with
    | true => exact hc.settle hpc (v := c.state) (b := true) (by simp [CallPc.maker, hn]) rfl rfl ⟨hi, hlive⟩
    | false => exact hc.goto hpc (by simp [CallPc.maker, hn]) rfl
  | @dropNew c e hpc hn =>
    have hown := hok.1 (c.key, c.state) (by simp [State.flowDrop, hpc])
    exact ⟨ch, hc.drop hr h.once hpc hown (by simp [CallPc.maker, hn]) (by simp [CallPc.dropped, eq_comm]),
      hb.frame rfl (fun _ _ => rfl) (holdsBand_goto hpc rfl) (hb.loaded_goto rfl) hb.gcBand hb.gcMarking⟩
  | @dropOld c e hpc hn =>
    have hown := hok.1 (c.key, c.state) (by simp [State.flowDrop, hpc])
    exact ⟨ch, hc.drop hr h.once hpc hown (by simp [CallPc.maker, hn]) (by simp [CallPc.dropped]),
      hb.frame rfl (fun _ _ => rfl) (holdsBand_goto hpc rfl) (hb.loaded_goto rfl) hb.gcBand hb.gcMarking⟩
  | @loadBand c e b hpc hp =>
    refine ⟨ch, hc.goto hpc rfl rfl, hb.frame rfl (fun _ _ => rfl) (holdsBand_goto hpc rfl) ?_ hb.gcBand
      hb.gcMarking⟩
    refine (Function.forall_update_iff s.calls
      fun _ pc => ∀ p b, pc.bandLoaded = some (p, b) → s.bands.table p = some b).mpr
      ⟨fun p b' he => ?_, fun u _ => hb.loaded u⟩
    cases he
    exact hp
  | @noBand c e hpc hp =>
    have hkey := hr.callFlow t c.key c.state (by rw [hpc]; rfl)
    have := hb.charged c.state ((hc.maker t c.state true (by rw [hpc]; rfl)).mpr rfl)
    rw [hkey.2, hp] at this
    cases this
  | @unpinBand c e b hpc =>
    have hkey := hr.callFlow t c.key c.state (by rw [hpc]; rfl)
    have hv := (hc.maker t c.state true (by rw [hpc]; rfl)).mpr rfl
    have hp := hb.loaded t c.key.priority b (by rw [hpc]; rfl)
    exact ⟨ch.erase c.state, hc.giveBack hpc rfl rfl rfl, hb.giveBack hr hv (by rw [hkey.2]; exact hp)
      (holdsBand_goto hpc rfl) (hb.loaded_goto rfl) hb.gcBand hb.gcMarking⟩
  | _ hpc => exact ⟨ch, hc.goto hpc rfl rfl, hb.goto hpc rfl rfl⟩

omit [DecidableEq Tid] in
theorem BandLeases.gcGoto {flows : Leases FlowKey} {topo : Topology} (h : BandLeases s ch)
    (hkey : flows.key = s.flows.key) (hg : gc.bandRef s.flows.key = none) (hm : gc.bandMarking = none) :
    BandLeases { s with flows, topo, gc } ch := by
  refine h.frame rfl (fun _ _ => by rw [hkey]) (fun _ => rfl) h.loaded (fun p b hp => ?_) fun b hb => ?_
  · rw [hkey, hg] at hp
    cases hp
  · rw [hm] at hb
    cases hb

omit [DecidableEq Tid] in
theorem GcMoves.accounts {a : Act Tid} (h : Ledger s ch) (hok : KeepsLeases s a) (m : GcMoves s a s') :
    ∃ ch', Charged s' ch' ∧ BandLeases s' ch' := by
  have hc := h.charged
  have hb := h.bandLeases
  have hr := h.refs
  cases m with
  | @keepFlow sc k v now hpc hi =>
    refine ⟨ch, ?_, hb.gcGoto rfl rfl rfl⟩
    refine hc.frame rfl rfl rfl (fun w => ?_) (fun _ _ he => he) (fun _ => rfl) (fun _ => rfl)
      (by rw [hpc]; rfl) (.inl rfl)
    simp only [Leases.setObj_obj, update_apply]
    split
    · rename_i e; rw [LeasedState.check_marked_of_false hi, e]
    · rfl
  | @markFlow sc k v now hpc hi =>
    have hidle := LeasedState.check_iff.mp hi
    have hno : ∀ t b, (s.calls t).maker ≠ some (v, b) := by
      intro t b ht
      cases b with
      | false => exact hok.1 (v, sc.now) (by simp [State.flowCheck, hpc]) hidle t ht
      | true =>
        have hpos : 0 < count (CallPc.holdsFlow v) s.calls :=
          count_pos (i := t) (by simp [CallPc.holdsFlow, CallPc.flowPin_of_maker ht])
        have := h.flowLeases.leases v
        have := hidle.1
        omega
    exact ⟨ch, hc.mark hno (LeasedState.check_of_true hi).2 (by rw [hpc]; rfl) rfl, hb.gcGoto rfl rfl rfl⟩
  | @deleteFlow sc k v w now hpc hw =>
    have hwv : w = v := hok.2.2 (k, v) (by simp [State.flowDelete, hpc]) w hw
    subst hwv
    have hk := hr.flowTable k w hw
    have hrem : Charged { s with
        flows := s.flows.erase (s.flows.key w)
        gc := .flows (.range { sc with found := sc.found ++ [w] }) } ch :=
      hc.remove (by rw [hpc]; rfl) (hk.live_iff.mpr hw) (by rw [hpc]; rfl) rfl
    rw [hk.2] at hrem
    exact ⟨ch, hrem, hb.gcGoto rfl rfl rfl⟩
  | loadBand hpc hp | visitBand hpc hp =>
    refine ⟨ch, hc.gcGoto (by rw [hpc]; rfl) rfl, hb.frame rfl (fun _ _ => rfl) (fun _ => rfl) hb.loaded ?_
      fun _ e => by cases e⟩
    intro p b e
    cases e
    exact hp
  | @noBand v todo keys now hpc hp =>
    have hv := (hc.pending v (by simp [hpc, GcPc.pending])).1
    have := hb.charged v hv
    rw [hp] at this
    cases this
  | @unpinBand b v todo keys now hpc =>
    have hv := (hc.pending v (by simp [hpc, GcPc.pending])).1
    have hp := hb.gcBand (s.flows.key v).priority b (by rw [hpc]; rfl)
    exact ⟨ch.erase v, hc.release (by rw [hpc]; rfl) rfl rfl, hb.giveBack hr hv hp (fun _ => rfl) hb.loaded
      (fun _ _ e => by cases e) fun _ e => by cases e⟩
  | @keepBand sc p b now hpc hi =>
    exact ⟨ch, hc.gcGoto (by rw [hpc]; rfl) rfl, hb.check (fun _ _ e => by cases e) fun _ e => by cases e⟩
  | @markBand sc p b now hpc hi =>
    have hp := hb.gcBand p b (by rw [hpc]; rfl)
    refine ⟨ch, hc.gcGoto (by rw [hpc]; rfl) rfl, hb.check ?_ ?_⟩
    · intro q c e
      cases e
      exact hp
    · intro c e
      cases e
      exact ⟨rfl, hi⟩
  | @deleteBand sc p b w now hpc hw =>
    have hp := hb.gcBand p b (by rw [hpc]; rfl)
    have hm := hb.gcMarking b (by rw [hpc]; rfl)
    refine ⟨ch, hc.gcGoto (by rw [hpc]; rfl) rfl, hb.remove hr hp hm rfl rfl ?_⟩
    intro t q c hq
    cases ht : s.calls t with
    | unpinBand d e b' =>
      rw [ht] at hq
      cases hq
      have hkey := hr.callFlow t d.key d.state (by rw [ht]; rfl)
      exact ⟨d.state, (hc.maker t d.state true (by rw [ht]; rfl)).mpr rfl, by rw [hkey.2]⟩
    | _ => simp [ht, CallPc.bandLoaded] at hq
  | noFlows hpc hf | noBands hpc hf =>
    exact ⟨ch, hc.gcGoto (by rw [hpc]; simp [GcPc.pending, hf]) rfl, hb.gcGoto rfl rfl rfl⟩
  | _ hpc => exact ⟨ch, hc.gcGoto (by rw [hpc]; rfl) rfl, hb.gcGoto rfl rfl rfl⟩

theorem Ledger.step {a : Act Tid} (h : Ledger s ch) (hok : KeepsLeases s a) (m : Moves s a s') :
    ∃ ch', Ledger s' ch' := by
  have hacc : ∃ ch', Charged s' ch' ∧ BandLeases s' ch' := by
    cases m with
    | start hpc | refuse hpc =>
      rcases hpc with hpc | ⟨r, hpc⟩ <;>
        exact ⟨ch, h.charged.goto hpc rfl rfl, h.bandLeases.goto hpc rfl rfl⟩
    | finish hpc => exact ⟨ch, h.charged.goto hpc rfl rfl, h.bandLeases.goto hpc rfl rfl⟩
    | call m => exact m.accounts h hok.2
    | gc m => exact m.accounts h hok
    | stats => exact ⟨ch, { h.charged with }, { h.bandLeases with }⟩
  obtain ⟨ch', hc, hb⟩ := hacc
  exact ⟨ch', m.refs h.refs, m.flowLeases h.refs h.flowLeases, m.once h.refs h.once,
    m.bandsByCreators h.creators, hc, hb⟩

omit [DecidableEq Tid] in
theorem ledger_new (cfg : InitialConfig) : Ledger (State.new cfg : State Tid) ∅ where
  refs := refs_new cfg
  flowLeases := ⟨fun v => (count_eq_zero.mpr fun _ => rfl).symm, nofun⟩
  once := ⟨fun _ _ => rfl, nofun, nofun, nofun⟩
  creators := fun _ => rfl
  charged := by
    constructor <;> simp [State.new, CallPc.maker, CallPc.dropped, GcPc.pending, GcPc.marking, Leases.Live,
      Leases.empty]
  bandLeases := by
    refine ⟨fun b => ?_, ?_, ?_, ?_, ?_, ?_⟩
    · rw [show count (CallPc.holdsBand b) (State.new cfg : State Tid).calls = 0 from
        count_eq_zero.mpr fun _ => rfl]
      simp [State.new, State.owed, Leases.empty]
    all_goals simp [State.new, CallPc.bandLoaded, GcPc.bandRef, GcPc.bandMarking, Leases.empty]

theorem ledger_reaches {cfg : InitialConfig} (h : Reaches step KeepsLeases (State.new cfg) s) :
    ∃ ch, Ledger s ch :=
  h.invariant (fun s => ∃ ch, Ledger s ch) ⟨∅, ledger_new cfg⟩
    fun _ _ _ ⟨_, hi⟩ hok hs => hi.step hok (step_moves hs)

/-! ## When nothing is in progress -/

def CallPc.atRest : CallPc → Bool
  | .idle | .returned _ => true
  | _ => false

def GcPc.atRest : GcPc → Bool
  | .idle => true
  | _ => false

/-- No call and no collector cycle is in progress. -/
def Quiescent {Tid : Type} (s : State Tid) : Prop := (∀ t, (s.calls t).atRest = true) ∧ s.gc.atRest = true

instance (s : State Tid) : Decidable (Quiescent s) := inferInstanceAs (Decidable (_ ∧ _))

/-- The number of flow states of a priority in `flowStates`. -/
def flowsOf {Tid : Type} (s : State Tid) (p : Int) : Nat :=
  ((Finset.range s.flows.next).filter fun v => s.flows.Live v ∧ (s.flows.key v).priority = p).card

/-- "bandState.leaseCount = number of active flows at this priority", and
every priority with a flow state has a band state. -/
structure Balanced {Tid : Type} (s : State Tid) : Prop where
  leases : ∀ p b, s.bands.table p = some b → (s.bands.obj b).leaseCount = flowsOf s p
  bands : ∀ k, (s.flows.table k).isSome → (s.bands.table k.priority).isSome

omit [DecidableEq Tid] in
theorem Ledger.mem_iff {v : Nat} (h : Ledger s ch) (hq : Quiescent s) : v ∈ ch ↔ s.flows.Live v := by
  have hm : ∀ t x, (s.calls t).maker ≠ some x := fun t x => by
    have := hq.1 t
    cases ht : s.calls t <;> simp_all [CallPc.atRest, CallPc.maker]
  have hp : s.gc.pending = [] := by
    have := hq.2
    cases hg : s.gc <;> simp_all [GcPc.atRest, GcPc.pending]
  constructor
  · intro hv
    rcases h.charged.source v hv with hv | ⟨t, ht⟩ | hv
    · simp [hp] at hv
    · exact absurd ht (hm t _)
    · exact hv.2
  · intro hl
    rcases h.charged.live v hl with hv | ⟨t, ht⟩
    · exact hv
    · exact absurd ht (hm t _)

omit [DecidableEq Tid] in
theorem Ledger.balanced (h : Ledger s ch) (hq : Quiescent s) : Balanced s := by
  constructor
  · intro p b hb
    have hpins : count (CallPc.holdsBand b) s.calls = 0 := by
      rw [count_eq_zero]
      intro t
      have := hq.1 t
      cases ht : s.calls t <;> simp_all [CallPc.atRest, CallPc.holdsBand, CallPc.bandPin]
    rw [h.bandLeases.leases b, owed_current h.refs hb, hpins, add_zero, charges, flowsOf]
    congr 2
    ext v
    simp only [Finset.mem_filter, Finset.mem_range, h.mem_iff hq]
    exact ⟨fun hv => ⟨Leases.has_of_live h.refs.flowTable hv.1, hv⟩, fun hv => hv.2⟩
  · intro k hk
    obtain ⟨v, hv⟩ := Option.isSome_iff_exists.mp hk
    have hkey := h.refs.flowTable k v hv
    have := h.bandLeases.charged v ((h.mem_iff hq).mpr (hkey.live_iff.mpr hv))
    rwa [hkey.2] at this

/-- **Band lease accounting**, in every run in which no flow state is marked
before its creator has taken the band lease and no removal by key hits
another state than its own. -/
theorem band_leases_balanced {cfg : InitialConfig} (h : Reaches step KeepsLeases (State.new cfg) s) :
    (Quiescent s → Balanced s) ∧ (∀ v, 0 ≤ (s.flows.obj v).leaseCount) ∧
      ∀ b, 0 ≤ (s.bands.obj b).leaseCount := by
  obtain ⟨ch, hl⟩ := ledger_reaches h
  exact ⟨hl.balanced, hl.flowLeases.nonneg, hl.bandLeases.nonneg⟩

/-- The hypothesis is met by a run that ends with one flow and its lease. -/
theorem band_leases_balanced_one_flow : ∃ s : State Bool,
    Reaches step KeepsLeases (State.new smallConfig) s ∧ Quiescent s ∧ flowsOf s 1 = 1 ∧ Balanced s := by
  obtain ⟨s, hs, hp⟩ := exists_of_runIf step KeepsLeases (State.new smallConfig)
    (.start true ⟨"f", 1⟩ :: List.replicate 14 (.call true 1 true) ++ [.finish true none, .call true 1 true,
      .gcBegin 1, .gcVisitFlow ⟨"f", 1⟩, .gcStep 1, .gcEndRange, .gcStep 1, .gcVisitBand 1, .gcStep 1, .gcEndRange])
    (fun s => Quiescent s ∧ flowsOf s 1 = 1) (by decide +kernel)
  exact ⟨s, hs, hp.1, hp.2, (band_leases_balanced hs).1 hp.1⟩

/-! ## Runs with a stray lease -/

/-- A call has put its flow state in the map and not pinned it; a second call
provisions the flow and returns; the collector gives back a lease never taken. -/
def collectUncharged : List (Act Bool) :=
  .start true ⟨"f", 1⟩ :: List.replicate 2 (.call true 1 true) ++
  .start false ⟨"f", 1⟩ :: List.replicate 9 (.call false 1 true) ++ [.finish false none, .call false 1 true,
    .gcBegin 2, .gcVisitFlow ⟨"f", 1⟩, .gcStep 2, .gcStep 2, .gcEndRange, .gcStep 2, .gcStep 2]

/-- The collector's cycle ends and the first call runs to its end. -/
def finishFirst : List (Act Bool) :=
  [.gcStep 2, .gcStep 2, .gcEndRange] ++ List.replicate 13 (.call true 2 true) ++
    [.finish true none, .call true 2 true]

/-- **A stray lease**: the band's `leaseCount` becomes negative, and when
everything has returned it is 0 with one flow in the map. -/
theorem band_lease_uncharged :
    (∃ s : State Bool, Reaches step Any (State.new smallConfig) s ∧ (s.bands.obj 0).leaseCount < 0) ∧
    ∃ s : State Bool, Reaches step Any (State.new smallConfig) s ∧ Quiescent s ∧
      s.bands.table 1 = some 0 ∧ (s.bands.obj 0).leaseCount = 0 ∧ flowsOf s 1 = 1 ∧ ¬Balanced s := by
  constructor
  · exact exists_of_run step (State.new smallConfig) collectUncharged _ (by decide +kernel)
  · obtain ⟨s, hs, hq, hb, hl, hf⟩ := exists_of_run step (State.new smallConfig) (collectUncharged ++ finishFirst)
      (fun s => Quiescent s ∧ s.bands.table 1 = some 0 ∧ (s.bands.obj 0).leaseCount = 0 ∧ flowsOf s 1 = 1)
      (by decide +kernel)
    refine ⟨s, hs, hq, hb, hl, hf, fun h => ?_⟩
    have := h.leases 1 0 hb
    omega

end InferenceScheduler.Registry
