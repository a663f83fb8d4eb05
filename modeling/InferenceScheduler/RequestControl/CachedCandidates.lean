/-
The cache in front of the locator of endpoint candidates, with any number of
requests at once, each in the steps of `CachedEndpointCandidates.Locate`. The
datastore may change and time may pass between any two steps.

An entry carries, beside what the code stores, which request fetched it, when it
was stored, and the datastore's content at that moment. `Justified` says that an
answer is one the delegate would have given for the request's own metadata since
then.
-/
import InferenceScheduler.Lib.Run
import InferenceScheduler.RequestControl.Candidates

namespace InferenceScheduler.RequestControl

structure Entry (N : Type) where
  pods : List Endpoint
  expiry : Nat
  request : Metadata N
  storedAt : Nat
  /-- The position, in the datastore's history, of the content when it was stored. -/
  position : Nat

/-- Where a call of `Locate` stands. -/
inductive Thread (N : Type)
  | lookup (m : Metadata N)
  | tested (m : Metadata N) (entry : Option (Entry N))
  | waiting (m : Metadata N)
  | locked (m : Metadata N)
  | fetching (m : Metadata N)
  | storing (m : Metadata N) (freshPods : List Endpoint)
  /-- Returned, with the entry the answer comes from and the clock's reading. -/
  | done (m : Metadata N) (pods : List Endpoint) (entry : Entry N) (now : Nat)

structure Locator (N : Type) where
  threads : List (Thread N) := []
  cache : Text → Option (Entry N) := fun _ => none
  /-- The call that holds the write lock. -/
  lock : Option Nat := none
  past : List (List Endpoint) := []
  datastore : List Endpoint
  now : Nat := 0

inductive Event (N : Type)
  | call (m : Metadata N)
  | step (i : Nat)
  | change (datastore : List Endpoint)
  | tick (d : Nat)
  | cleanup

def defaultCacheTTL : Nat := 50000000

/-- The time an entry is valid, in nanoseconds. -/
def effectiveTTL (ttl : Int) : Nat := if ttl ≤ 0 then defaultCacheTTL else ttl.toNat

theorem effectiveTTL_pos (ttl : Int) : 0 < effectiveTTL ttl := by
  unfold effectiveTTL defaultCacheTTL
  split <;> omega

namespace Locator

variable {N : Type}

/-- The contents the datastore has had. -/
def history (s : Locator N) : List (List Endpoint) := s.past ++ [s.datastore]

def setThread (s : Locator N) (i : Nat) (t : Thread N) : Locator N := { s with threads := s.threads.set i t }

/-- The entry is there and has not expired. -/
def fresh (s : Locator N) (entry : Option (Entry N)) : Option (Entry N) := entry.filter fun e => s.now < e.expiry

/-- One step of a call. -/
def stepThread (disable : Bool) (ttl : Int) (s : Locator N) (i : Nat) : Thread N → Option (Locator N)
  | .lookup m =>
    if s.lock = none then some (s.setThread i (.tested m (s.cache (generateCacheKey m)))) else none
  | .tested m entry =>
    match s.fresh entry with
    | some e => some (s.setThread i (.done m e.pods e s.now))
    | none => some (s.setThread i (.waiting m))
  | .waiting m => if s.lock = none then some { s.setThread i (.locked m) with lock := some i } else none
  | .locked m =>
    match s.fresh (s.cache (generateCacheKey m)) with
    | some e => some { s.setThread i (.done m e.pods e s.now) with lock := none }
    | none => some (s.setThread i (.fetching m))
  | .fetching m => some (s.setThread i (.storing m (locate disable s.datastore m)))
  | .storing m freshPods =>
    let entry : Entry N := {
      pods := freshPods
      expiry := s.now + effectiveTTL ttl
      request := m
      storedAt := s.now
      position := s.past.length }
    some { s.setThread i (.done m freshPods entry s.now) with
      cache := Function.update s.cache (generateCacheKey m) (some entry)
      lock := none }
  | .done _ _ _ _ => none

def step (disable : Bool) (ttl : Int) (s : Locator N) : Event N → Option (Locator N)
  | .call m => some { s with threads := s.threads ++ [.lookup m] }
  | .step i => (s.threads[i]?).bind (s.stepThread disable ttl i)
  | .change datastore => some { s with past := s.past ++ [s.datastore], datastore }
  | .tick d => some { s with now := s.now + d }
  | .cleanup =>
    if s.lock = none then
      some { s with cache := fun k => (s.cache k).filter fun e => ¬ e.expiry < s.now }
    else none

/-- The entry that is found was not stored for a request that clashes. -/
def Hits (disable : Bool) (s : Locator N) (m : Metadata N) (entry : Option (Entry N)) : Prop :=
  ∀ e ∈ s.fresh entry, NoClash disable e.request m

/-- A call whose entry is stored next has the same candidates afterwards. -/
def Unaffected (disable : Bool) (before after : List Endpoint) : Thread N → Prop
  | .storing m _ => ∀ e ∈ before ++ after, e ∈ locate disable before m ↔ e ∈ locate disable after m
  | _ => True

/-- No call finds the entry of a request that it clashes with, and no change of the
datastore comes between the fetch and the store of a call that it is a change for. -/
def Apart (disable : Bool) (s : Locator N) : Event N → Prop
  | .step i =>
    match s.threads[i]? with
    | some (.tested m entry) => s.Hits disable m entry
    | some (.locked m) => s.Hits disable m (s.cache (generateCacheKey m))
    | _ => True
  | .change datastore => ∀ t ∈ s.threads, Unaffected disable s.datastore datastore t
  | _ => True

instance (disable : Bool) (s : Locator N) (m : Metadata N) (entry : Option (Entry N)) : Decidable (s.Hits disable m entry) :=
  inferInstanceAs (Decidable (∀ e ∈ s.fresh entry, _))

instance (disable : Bool) (before after : List Endpoint) (t : Thread N) :
    Decidable (Unaffected disable before after t) := by
  cases t <;> unfold Unaffected <;> infer_instance

instance (disable : Bool) (s : Locator N) (e : Event N) : Decidable (Apart disable s e) := by
  cases e with
  | step i =>
    unfold Apart
    dsimp only
    split <;> infer_instance
  | _ =>
    unfold Apart
    infer_instance

/-- The answer was stored less than its time to live ago, and is what the delegate
returns for these metadata from a content of the datastore since. -/
def Justified (disable : Bool) (ttl : Int) (s : Locator N) (m : Metadata N) (pods : List Endpoint) (entry : Entry N)
    (now : Nat) : Prop :=
  entry.storedAt ≤ now ∧ now < entry.storedAt + effectiveTTL ttl ∧
    ∃ k datastore, entry.position ≤ k ∧ s.history[k]? = some datastore ∧ SameSet pods (locate disable datastore m)

/-- Every answer is justified. -/
def Right (disable : Bool) (ttl : Int) (s : Locator N) : Prop :=
  ∀ m pods entry now, .done m pods entry now ∈ s.threads → s.Justified disable ttl m pods entry now

/-! ## What a run never takes back -/

/-- Contents stay in the history, and time goes on. -/
structure Grows (s s' : Locator N) : Prop where
  history : s.history <+: s'.history
  now : s.now ≤ s'.now

theorem Grows.getElem? {s s' : Locator N} (h : Grows s s') {k : Nat} {ds : List Endpoint}
    (hk : s.history[k]? = some ds) : s'.history[k]? = some ds := by
  obtain ⟨rest, hrest⟩ := h.history
  rw [← hrest, List.getElem?_append_left (List.getElem?_eq_some_iff.mp hk).1, hk]

/-- What holds of an entry under a key. -/
structure EntryOK (disable : Bool) (ttl : Int) (s : Locator N) (key : Text) (e : Entry N) : Prop where
  key : generateCacheKey e.request = key
  storedAt : e.storedAt ≤ s.now
  expiry : e.expiry = e.storedAt + effectiveTTL ttl
  stored : ∃ ds, s.history[e.position]? = some ds ∧ SameSet e.pods (locate disable ds e.request)

def ThreadOK (disable : Bool) (ttl : Int) (s : Locator N) : Thread N → Prop
  | .tested m entry => ∀ e, entry = some e → EntryOK disable ttl s (generateCacheKey m) e
  | .storing m freshPods => SameSet freshPods (locate disable s.datastore m)
  | .done m pods entry now => s.Justified disable ttl m pods entry now
  | _ => True

variable {disable : Bool} {ttl : Int} {s s' : Locator N} {e : Entry N}

theorem EntryOK.grows {key : Text} (h : EntryOK disable ttl s key e) (hg : Grows s s') :
    EntryOK disable ttl s' key e := by
  obtain ⟨ds, hds, hpods⟩ := h.stored
  exact ⟨h.key, h.storedAt.trans hg.now, h.expiry, ds, hg.getElem? hds, hpods⟩

variable {t : Thread N}

theorem mem_of_mem_locate {ds : List Endpoint} {m : Metadata N} {e : Endpoint} (h : e ∈ locate disable ds m) : e ∈ ds := by
  cases disable with
  | true => exact h
  | false => exact (mem_locate.mp h).1

theorem ThreadOK.grows (h : ThreadOK disable ttl s t) (hg : Grows s s')
    (hds : Unaffected disable s.datastore s'.datastore t) : ThreadOK disable ttl s' t := by
  cases t with
  | tested m entry => exact fun e he => (h e he).grows hg
  | storing m freshPods =>
    intro e
    refine (h e).trans ?_
    by_cases he : e ∈ s.datastore ++ s'.datastore
    · exact hds e he
    · rw [List.mem_append, not_or] at he
      exact iff_of_false (fun hmem => he.1 (mem_of_mem_locate hmem)) fun hmem => he.2 (mem_of_mem_locate hmem)
  | done m pods entry now =>
    obtain ⟨hle, hlt, k, ds, hk, hds, hsame⟩ := h
    exact ⟨hle, hlt, k, ds, hk, hg.getElem? hds, hsame⟩
  | _ => trivial

/-! ## The invariant -/

structure Inv (disable : Bool) (ttl : Int) (s : Locator N) : Prop where
  cache : ∀ key e, s.cache key = some e → EntryOK disable ttl s key e
  threads : ∀ t ∈ s.threads, ThreadOK disable ttl s t

theorem unaffected_refl (ds : List Endpoint) (t : Thread N) : Unaffected disable ds ds t := by
  cases t with
  | storing m freshPods => exact fun _ _ => Iff.rfl
  | _ => trivial

theorem Inv.grows (h : Inv disable ttl s) (hg : Grows s s')
    (hds : ∀ t ∈ s.threads, Unaffected disable s.datastore s'.datastore t)
    (hcache : ∀ key e, s'.cache key = some e → s.cache key = some e ∨ EntryOK disable ttl s' key e)
    (hthreads : ∀ t ∈ s'.threads, t ∈ s.threads ∨ ThreadOK disable ttl s' t) : Inv disable ttl s' := by
  refine ⟨fun key e he => ?_, fun t ht => ?_⟩
  · exact (hcache key e he).elim (fun hold => (h.cache key e hold).grows hg) id
  · exact (hthreads t ht).elim (fun hold => (h.threads t hold).grows hg (hds t hold)) id

theorem init_inv (datastore : List Endpoint) : Inv disable ttl ({ datastore } : Locator N) := by
  refine ⟨?_, ?_⟩ <;> simp

/-- **An entry that is found** justifies the answer, if its request does not clash. -/
theorem EntryOK.justified {m : Metadata N} (h : EntryOK disable ttl s (generateCacheKey m) e)
    (hfresh : s.now < e.expiry) (hapart : NoClash disable e.request m) :
    s.Justified disable ttl m e.pods e s.now := by
  obtain ⟨ds, hds, hpods⟩ := h.stored
  refine ⟨h.storedAt, h.expiry ▸ hfresh, e.position, ds, le_rfl, hds, fun endpoint => (hpods endpoint).trans ?_⟩
  exact (keySound_iff ..).mpr hapart ds h.key endpoint

theorem Inv.setThread {i : Nat} {t' : Thread N} (h : Inv disable ttl s) (hthreads : s'.threads = s.threads.set i t')
    (hpast : s'.past = s.past) (hdatastore : s'.datastore = s.datastore) (hnow : s'.now = s.now)
    (hcache : ∀ key e, s'.cache key = some e → s.cache key = some e ∨ EntryOK disable ttl s' key e)
    (ht' : Grows s s' → ThreadOK disable ttl s' t') : Inv disable ttl s' := by
  have hsame : s'.history = s.history := by rw [history, history, hpast, hdatastore]
  have hg : Grows s s' := ⟨hsame ▸ List.prefix_refl _, hnow.ge⟩
  refine h.grows hg (fun t _ => hdatastore ▸ unaffected_refl _ t) hcache fun u hu => ?_
  rcases List.mem_or_eq_of_mem_set (hthreads ▸ hu) with hu | rfl
  · exact .inl hu
  · exact .inr (ht' hg)

theorem fresh_eq_some {o : Option (Entry N)} (h : s.fresh o = some e) : o = some e ∧ s.now < e.expiry := by
  simpa [fresh, Option.filter_eq_some_iff] using h

/-- **One step of a call keeps the invariant.** -/
theorem Inv.stepThread {i : Nat} (h : Inv disable ttl s) (hi : s.threads[i]? = some t) (hok : Apart disable s (.step i))
    (hs : s.stepThread disable ttl i t = some s') : Inv disable ttl s' := by
  have ht : t ∈ s.threads := List.mem_of_getElem? hi
  simp only [Apart, hi] at hok
  cases t with
  | lookup m =>
    simp only [Locator.stepThread] at hs
    split at hs <;> cases hs
    exact h.setThread rfl rfl rfl rfl (fun _ _ he => .inl he) fun hg e he => (h.cache _ e he).grows hg
  | tested m entry =>
    simp only [Locator.stepThread] at hs
    split at hs <;> cases hs
    · next e hfresh =>
      have hapart := hok e hfresh
      obtain ⟨rfl, hlt⟩ := fresh_eq_some hfresh
      exact h.setThread rfl rfl rfl rfl (fun _ _ he => .inl he) fun _ => (h.threads _ ht e rfl).justified hlt hapart
    · exact h.setThread rfl rfl rfl rfl (fun _ _ he => .inl he) fun _ => trivial
  | waiting m =>
    simp only [Locator.stepThread] at hs
    split at hs <;> cases hs
    exact h.setThread rfl rfl rfl rfl (fun _ _ he => .inl he) fun _ => trivial
  | locked m =>
    simp only [Locator.stepThread] at hs
    split at hs <;> cases hs
    · next e hfresh =>
      obtain ⟨hfound, hlt⟩ := fresh_eq_some hfresh
      exact h.setThread rfl rfl rfl rfl (fun _ _ he => .inl he) fun _ => (h.cache _ e hfound).justified hlt (hok e hfresh)
    · exact h.setThread rfl rfl rfl rfl (fun _ _ he => .inl he) fun _ => trivial
  | fetching m =>
    cases hs
    exact h.setThread rfl rfl rfl rfl (fun _ _ he => .inl he) fun _ _ => Iff.rfl
  | storing m freshPods =>
    cases hs
    have hpods : SameSet freshPods (locate disable s.datastore m) := h.threads _ ht
    have hposition : s.history[s.past.length]? = some s.datastore := by simp [history]
    refine h.setThread rfl rfl rfl rfl (fun key e he => ?_) fun _ => ?_
    · by_cases hkey : key = generateCacheKey m
      · subst hkey
        obtain rfl : _ = e := by simpa using he
        exact .inr ⟨rfl, le_rfl, rfl, s.datastore, hposition, hpods⟩
      · exact .inl ((Function.update_of_ne hkey ..).symm.trans he)
    · exact ⟨le_rfl, Nat.lt_add_of_pos_right (effectiveTTL_pos ttl), s.past.length, s.datastore, le_rfl, hposition, hpods⟩
  | done m pods entry now => cases hs

theorem Inv.step {e : Event N} (h : Inv disable ttl s) (hapart : Apart disable s e)
    (hs : s.step disable ttl e = some s') : Inv disable ttl s' := by
  cases e with
  | call m =>
    cases hs
    refine h.grows ⟨List.prefix_refl _, le_rfl⟩ (fun t _ => unaffected_refl _ t) (fun _ _ he => .inl he) fun t ht => ?_
    refine (List.mem_append.mp ht).imp_right fun ht => ?_
    rw [List.mem_singleton.mp ht]
    trivial
  | step i =>
    obtain ⟨t, hi, hs⟩ := Option.bind_eq_some_iff.mp hs
    exact h.stepThread hi hapart hs
  | change datastore =>
    cases hs
    exact h.grows ⟨⟨[datastore], by simp [history]⟩, le_rfl⟩ hapart (fun _ _ he => .inl he) fun t ht => .inl ht
  | tick d =>
    cases hs
    exact h.grows ⟨List.prefix_refl _, Nat.le_add_right ..⟩ (fun t _ => unaffected_refl _ t) (fun _ _ he => .inl he)
      fun t ht => .inl ht
  | cleanup =>
    simp only [Locator.step] at hs
    split at hs <;> cases hs
    refine h.grows ⟨List.prefix_refl _, le_rfl⟩ (fun t _ => unaffected_refl _ t) (fun key e he => .inl ?_)
      fun t ht => .inl ht
    exact (Option.filter_eq_some_iff.mp he).1

theorem Inv.right (h : Inv disable ttl s) : Right disable ttl s := fun _ _ _ _ hd => h.threads _ hd

end Locator

/-- **When the cache of candidates is sound**: a key stands for one set of
candidates exactly for requests that do not clash; and as long as no call finds
the entry of a request that it clashes with, or stores what has changed since it
was fetched, every answer is one the delegate gives for the request's own metadata
within the time to live. Requests with plain lists do not clash. -/
theorem cache_sound_iff {N : Type} (disable : Bool) :
    (∀ m m' : Metadata N, KeySound disable m m' ↔ NoClash disable m m') ∧
      (∀ m m' : Metadata N, (subsetOf m).Plain → (subsetOf m').Plain → NoClash disable m m') ∧
      ∀ (ttl : Int) (datastore : List Endpoint) (s : Locator N),
        Reaches (Locator.step disable ttl) (Locator.Apart disable) { datastore } s → s.Right disable ttl := by
  refine ⟨keySound_iff disable, fun _ _ hm hm' => .inr (Subset.not_clash_of_plain hm hm'), fun ttl datastore s h => ?_⟩
  exact (h.invariant (Locator.Inv disable ttl) (Locator.init_inv datastore) fun _ _ _ hI => hI.step).right

/-! ## Three runs -/

/-- Metadata that list one value. -/
def listing (v : Json Nat) : Metadata Nat := some [(subsetFilterNamespace, .object [(subsetFilterKey, .array [v])])]

def podOne : Endpoint := ⟨"pod-1".toList, some "10.0.0.1".toList⟩

/-- One call fetches, the datastore is emptied, and a second call finds the entry. -/
def fetchThenHit (m m' : Metadata Nat) (datastore : List Endpoint) : List (Event Nat) :=
  .call m :: List.replicate 6 (.step 0) ++ [.change datastore, .tick 3, .call m', .step 1, .step 1]

/-- The call has returned these endpoints. -/
def Locator.returned (s : Locator Nat) (i : Nat) (pods : List Endpoint) : Bool :=
  match s.threads[i]? with
  | some (.done _ pods' _ _) => pods' = pods
  | _ => false

theorem cache_sound_hit : ∃ s : Locator Nat,
    Reaches (Locator.step false 10) (Locator.Apart false) { datastore := [podOne] } s ∧ s.datastore = [] ∧
      s.returned 1 [podOne] ∧ s.Right false 10 := by
  obtain ⟨s, hs, hempty, hreturned⟩ := exists_of_runIf (Locator.step false 10) (Locator.Apart false) { datastore := [podOne] }
    (fetchThenHit (listing (.string "10.0.0.1:80".toList)) (listing (.string "10.0.0.1:80".toList)) [])
    (fun s => s.datastore = [] ∧ s.returned 1 [podOne]) (by decide +kernel)
  exact ⟨s, hs, hempty, hreturned, (cache_sound_iff false).2.2 10 [podOne] s hs⟩

/-- The last call, without metadata, has returned nothing, from an entry stored when
the datastore had the content it still has. -/
def Locator.poisoned (s : Locator Nat) (i : Nat) : Bool :=
  decide (s.datastore = [podOne]) &&
    match s.threads[i]? with
    | some (Thread.done none [] entry _) => entry.position = s.past.length
    | _ => false

/-- The answer is none of a content since the entry was stored. -/
theorem Locator.not_right_of_poisoned {s : Locator Nat} {i : Nat} (h : s.poisoned i) : ¬ s.Right false 10 := by
  intro hright
  simp only [Locator.poisoned, Bool.and_eq_true, decide_eq_true_eq] at h
  obtain ⟨hds, hdone⟩ := h
  split at hdone
  · next entry now ht =>
    obtain ⟨-, -, k, ds, hle, hk, hsame⟩ := hright _ _ _ _ (List.mem_of_getElem? ht)
    rw [of_decide_eq_true hdone] at hle
    have hds' : ds = [podOne] := by
      rw [Locator.history, List.getElem?_append_right hle, hds] at hk
      simpa using List.mem_of_getElem? hk
    subst hds'
    exact absurd ((hsame podOne).mpr (by decide)) (by simp)
  · cases hdone

/-- **A cache that is not sound**: a list of one element that is no string has the
key of requests without a list, and no candidates; and what a call has fetched is
stored after the datastore has changed. -/
theorem malformed_poisons_default :
    ¬ KeySound false (none : Metadata Nat) (listing (.number 5)) ∧
      (∃ s : Locator Nat, Reaches (Locator.step false 10) Any { datastore := [podOne] } s ∧ ¬ s.Right false 10) ∧
      ∃ s : Locator Nat, Reaches (Locator.step false 10) Any { datastore := [] } s ∧ s.threads.length = 1 ∧
        ¬ s.Right false 10 := by
  refine ⟨fun h => ?_, ?_, ?_⟩
  · have hmem := (h [podOne] (by decide) podOne).mp (by decide)
    exact absurd hmem (by decide)
  · obtain ⟨s, hs, hp⟩ := exists_of_run (Locator.step false 10) { datastore := [podOne] }
      (.call (listing (.number 5)) :: List.replicate 6 (.step 0) ++ [.call none, .step 1, .step 1]) (·.poisoned 1)
      (by decide +kernel)
    exact ⟨s, hs, Locator.not_right_of_poisoned hp⟩
  · obtain ⟨s, hs, hone, hpoisoned⟩ := exists_of_run (Locator.step false 10) { datastore := [] }
      (.call none :: List.replicate 5 (.step 0) ++ [.change [podOne], .step 0])
      (fun s => s.threads.length = 1 ∧ s.poisoned 0) (by decide +kernel)
    exact ⟨s, hs, hone, Locator.not_right_of_poisoned hpoisoned⟩

end InferenceScheduler.RequestControl
