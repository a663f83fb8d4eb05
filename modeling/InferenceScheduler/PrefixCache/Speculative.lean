/-
Speculative entries of the precise prefix cache
(`scorer/preciseprefixcache/precise_prefix_cache.go`): `PreRequest` adds the
block keys of a request to the index, for one target pod after the other, and
then keeps them in a cache under the request's ID; when that entry expires, its
callback evicts those pairs from the index key by key, also what another request
has added since. A request ID that comes again replaces the entry, whose pairs
then have no callback.
-/
import InferenceScheduler.Lib.Run
import Mathlib.Data.List.Basic

namespace InferenceScheduler.PrecisePrefixCache

/-! ## The index and the cache -/

section Model

variable (κ : Type)

/-- A `kvblock.PodEntry`. -/
structure PodEntry where
  podIdentifier : String
  speculative : Bool
  deriving DecidableEq

/-- `speculativeEntries`: what a `PreRequest` has added. -/
structure SpeculativeEntries where
  blockKeys : List κ
  podEntries : List PodEntry

/-- An item of the cache, under the request's ID. -/
structure Item where
  id : String
  entries : SpeculativeEntries κ
  expiresAt : Nat

/-- The ID, the block keys in the plugin state, and the targets of the primary and
of the prefill profile; `none` if missing. -/
structure Request where
  id : String
  blockKeys : Option (List κ)
  primary : Option (List String)
  prefill : Option (List String)

/-- A `PreRequest` that runs: the pods for which it has added the block keys, and
those it has still to add. -/
structure PreRequestCall where
  id : String
  blockKeys : List κ
  added : List PodEntry
  toAdd : List PodEntry

/-- A pair added to the index, with the time of its `index.Add`, and again with that
of the `speculativeCache.Set`. -/
structure Addition where
  key : κ
  pod : String
  time : Nat

/-- The index, the cache, the calls that run, the callbacks with what they have still
to evict, and the clock; beside them the additions and the confirmed pairs so far. -/
structure State where
  index : List (κ × PodEntry)
  cache : List (Item κ)
  calls : List (PreRequestCall κ)
  callbacks : List (SpeculativeEntries κ)
  now : Nat
  additions : List (Addition κ)
  confirmed : List (κ × String)

end Model

section Steps

variable {κ : Type} [DecidableEq κ]

def State.init : State κ :=
  { index := [], cache := [], calls := [], callbacks := [], now := 0, additions := [], confirmed := [] }

/-- The pair is one of the entries. -/
def SpeculativeEntries.lists (e : SpeculativeEntries κ) (pair : κ × PodEntry) : Bool :=
  decide (pair.1 ∈ e.blockKeys) && decide (pair.2 ∈ e.podEntries)

/-- The entry of a target pod. -/
def speculativePod (pod : String) : PodEntry := ⟨pod, true⟩

/-- Nothing without block keys or without a target; otherwise the first target, and
the first one for prefill. -/
def speculativeEntries (request : Request κ) : Option (SpeculativeEntries κ) :=
  match request.blockKeys, request.primary with
  | some (key :: keys), some (target :: _) =>
    let prefill := match request.prefill with
      | some (pod :: _) => [speculativePod pod]
      | _ => []
    some ⟨key :: keys, speculativePod target :: prefill⟩
  | _, _ => none

/-- What the call has in the index. -/
def PreRequestCall.held (c : PreRequestCall κ) : SpeculativeEntries κ := ⟨c.blockKeys, c.added⟩

/-- The pairs of the entries, as additions at a time. -/
def SpeculativeEntries.at (e : SpeculativeEntries κ) (time : Nat) : List (Addition κ) :=
  e.podEntries.flatMap fun pod => e.blockKeys.map fun key => ⟨key, pod.podIdentifier, time⟩

namespace State

variable (s : State κ)

/-- `index.Add`. -/
def add (e : SpeculativeEntries κ) : State κ :=
  { s with
    index := e.podEntries.flatMap (fun pod => e.blockKeys.map fun key => (key, pod)) ++ s.index
    additions := e.at s.now ++ s.additions }

/-- `speculativeCache.Set`: an item of the same ID is replaced. -/
def set (id : String) (e : SpeculativeEntries κ) (ttl : Nat) : State κ :=
  { s with
    cache := ⟨id, e, s.now + ttl⟩ :: s.cache.filter (·.id ≠ id)
    additions := e.at s.now ++ s.additions }

/-- `index.Evict` of one block key. -/
def evict (key : κ) (pods : List PodEntry) : State κ :=
  { s with index := s.index.filter fun pair => ¬(pair.1 = key ∧ pair.2 ∈ pods) }

end State

/-- A `PreRequest`, its `index.Add` for the next pod and its `speculativeCache.Set`; an
expiry, and the eviction of the next key by its callback; an event that adds or
removes a confirmed entry; and time. -/
inductive Label (κ : Type)
  | preRequest (request : Request κ)
  | add (place : Nat)
  | set (place : Nat)
  | expire (place : Nat)
  | callback (place : Nat)
  | confirm (key : κ) (pod : String)
  | remove (key : κ) (pod : String)
  | wait (time : Nat)

/-- `ttl` is the `speculativeTTL`; nothing is added when speculative indexing is off. -/
def step (enabled : Bool) (ttl : Nat) (s : State κ) : Label κ → Option (State κ)
  | .preRequest request =>
    if enabled then
      match speculativeEntries request with
      | some e => some { s with calls := s.calls ++ [⟨request.id, e.blockKeys, [], e.podEntries⟩] }
      | none => some s
    else some s
  | .add place =>
    match s.calls[place]? with
    | some ⟨id, blockKeys, added, pod :: toAdd⟩ =>
      some { s.add ⟨blockKeys, [pod]⟩ with calls := s.calls.set place ⟨id, blockKeys, added ++ [pod], toAdd⟩ }
    | _ => none
  | .set place =>
    match s.calls[place]? with
    | some ⟨id, blockKeys, added, []⟩ =>
      some { s.set id ⟨blockKeys, added⟩ ttl with calls := s.calls.eraseIdx place }
    | _ => none
  | .expire place =>
    match s.cache[place]? with
    | some item =>
      if item.expiresAt ≤ s.now then
        some { s with cache := s.cache.eraseIdx place, callbacks := s.callbacks ++ [item.entries] }
      else none
    | none => none
  | .callback place =>
    match s.callbacks[place]? with
    | some ⟨key :: keys, pods⟩ => some { s.evict key pods with callbacks := s.callbacks.set place ⟨keys, pods⟩ }
    | _ => none
  | .confirm key pod =>
    some { s with index := (key, ⟨pod, false⟩) :: s.index, confirmed := (key, pod) :: s.confirmed }
  | .remove key pod => some { s with index := s.index.filter (· ≠ (key, ⟨pod, false⟩)) }
  | .wait time => some { s with now := s.now + time }

/-! ## What is claimed, and when -/

/-- **Speculative entries live for their TTL**: a key is in the index for a pod as
long as the TTL of one of its additions runs, and gone when all are over, no call
is about to store it, the callbacks of its items have run, and no event has
confirmed it. -/
structure Lives (ttl : Nat) (s : State κ) : Prop where
  stays : ∀ a ∈ s.additions, s.now < a.time + ttl → ∃ e, (a.key, e) ∈ s.index ∧ e.podIdentifier = a.pod
  gone : ∀ key pod, (∀ a ∈ s.additions, a.key = key → a.pod = pod → a.time + ttl ≤ s.now) →
    (∀ c ∈ s.calls, c.held.lists (key, speculativePod pod) = false) →
    (∀ item ∈ s.cache, item.entries.lists (key, speculativePod pod) = true → s.now < item.expiresAt) →
    (∀ e ∈ s.callbacks, e.lists (key, speculativePod pod) = false) → (key, pod) ∉ s.confirmed →
    ∀ e, (key, e) ∈ s.index → e.podIdentifier ≠ pod

/-- All pairs of the entries are among those of others. -/
def SpeculativeEntries.within (e e' : SpeculativeEntries κ) : Bool :=
  e.blockKeys.all fun key => e.podEntries.all fun pod => e'.lists (key, pod)

/-- **The condition**: a `PreRequest` replaces no item with a pair that it does not
add itself; a callback evicts a key while no live item and no call has it
for one of the callback's pods. -/
def separate (s : State κ) : Label κ → Bool
  | .set place =>
    match s.calls[place]? with
    | some c => s.cache.all fun item => item.id ≠ c.id || item.entries.within c.held
    | none => true
  | .callback place =>
    match s.callbacks[place]? with
    | some ⟨key :: _, pods⟩ =>
      (s.cache.all fun item => item.expiresAt ≤ s.now || pods.all fun pod => ¬item.entries.lists (key, pod)) &&
        s.calls.all fun c => pods.all fun pod => ¬c.held.lists (key, pod)
    | _ => true
  | _ => true

/-! ## The invariant -/

/-- A call has the pair, or an item that lasts until a time. -/
def State.Keeps (s : State κ) (pair : κ × PodEntry) (time : Nat) : Prop :=
  (∃ c ∈ s.calls, c.held.lists pair = true) ∨
    ∃ item ∈ s.cache, item.entries.lists pair = true ∧ time ≤ item.expiresAt

/-- **The invariant**: an addition whose TTL runs is in the index, and with a call
or in an item that lasts at least as long; each speculative pair of the index has
a call, an item or a callback, and each item has the additions it is for. -/
structure Inv (ttl : Nat) (s : State κ) : Prop where
  past : ∀ a ∈ s.additions, a.time ≤ s.now
  kept : ∀ a ∈ s.additions, s.now < a.time + ttl →
    (a.key, speculativePod a.pod) ∈ s.index ∧ s.Keeps (a.key, speculativePod a.pod) (a.time + ttl)
  owned : ∀ key pod, (key, speculativePod pod) ∈ s.index →
    s.Keeps (key, speculativePod pod) 0 ∨ ∃ e ∈ s.callbacks, e.lists (key, speculativePod pod) = true
  added : ∀ item ∈ s.cache, ∀ key pod, item.entries.lists (key, speculativePod pod) = true →
    ∃ a ∈ s.additions, a.key = key ∧ a.pod = pod ∧ item.expiresAt = a.time + ttl
  held : ∀ c ∈ s.calls, ∀ pair, c.held.lists pair = true → pair ∈ s.index
  speculative : ∀ c ∈ s.calls, ∀ pod ∈ c.added ++ c.toAdd, pod = speculativePod pod.podIdentifier
  confirmed : ∀ key pod, (key, ⟨pod, false⟩) ∈ s.index → (key, pod) ∈ s.confirmed

variable {ttl : Nat} {s s' : State κ}

theorem Inv.init : Inv ttl (State.init : State κ) where
  past := nofun
  kept := nofun
  owned := nofun
  added := nofun
  held := nofun
  speculative := nofun
  confirmed := nofun

variable {e : SpeculativeEntries κ} {pair : κ × PodEntry}

theorem lists_iff : e.lists pair = true ↔ pair.1 ∈ e.blockKeys ∧ pair.2 ∈ e.podEntries := by
  simp [SpeculativeEntries.lists]

variable {request : Request κ}

omit [DecidableEq κ] in
theorem speculative_of_mem (h : speculativeEntries request = some e)
    {pod : PodEntry} (hpod : pod ∈ e.podEntries) : pod = speculativePod pod.podIdentifier := by
  unfold speculativeEntries at h
  split at h
  · cases h
    rcases List.mem_cons.mp hpod with rfl | hpod
    · rfl
    · split at hpod
      · rw [List.mem_singleton.mp hpod]
        rfl
      · cases hpod
  · cases h

theorem mem_add_index : pair ∈ (s.add e).index ↔ e.lists pair = true ∨ pair ∈ s.index := by
  unfold State.add
  rw [List.mem_append, lists_iff, List.mem_flatMap]
  refine or_congr_left ⟨?_, ?_⟩
  · intro ⟨pod, hpod, hmem⟩
    obtain ⟨key, hkey, rfl⟩ := List.mem_map.mp hmem
    exact ⟨hkey, hpod⟩
  · intro ⟨hkey, hpod⟩
    exact ⟨pair.2, hpod, List.mem_map.mpr ⟨pair.1, hkey, rfl⟩⟩

theorem mem_at (h : ∀ pod ∈ e.podEntries, pod = speculativePod pod.podIdentifier) {a : Addition κ} {time : Nat} :
    a ∈ e.at time ↔ e.lists (a.key, speculativePod a.pod) = true ∧ a.time = time := by
  rw [SpeculativeEntries.at, lists_iff, List.mem_flatMap]
  refine ⟨?_, ?_⟩
  · intro ⟨pod, hpod, hmem⟩
    obtain ⟨key, hkey, rfl⟩ := List.mem_map.mp hmem
    exact ⟨⟨hkey, h pod hpod ▸ hpod⟩, rfl⟩
  · intro ⟨⟨hkey, hpod⟩, htime⟩
    refine ⟨_, hpod, List.mem_map.mpr ⟨a.key, hkey, ?_⟩⟩
    rw [← htime]
    rfl

theorem lists_of_within {e' : SpeculativeEntries κ} (h : e.within e' = true)
    (hpair : e.lists pair = true) : e'.lists pair = true := by
  obtain ⟨hkey, hpod⟩ := lists_iff.mp hpair
  exact List.all_eq_true.mp (List.all_eq_true.mp h _ hkey) _ hpod

omit [DecidableEq κ] in
theorem mem_of_getElem? {α : Type} {l : List α} {place : Nat} {x y : α} (hx : l[place]? = some x) (hy : y ∈ l) :
    y = x ∨ y ∈ l.eraseIdx place ∧ ∀ z, y ∈ l.set place z := by
  obtain ⟨n, hn⟩ := List.getElem?_of_mem hy
  by_cases hsame : n = place
  · subst hsame
    exact .inl (Option.some.inj (hn.symm.trans hx))
  · refine .inr ⟨List.mem_eraseIdx_iff_getElem?.mpr ⟨n, hsame, hn⟩, fun z => List.mem_of_getElem? (i := n) ?_⟩
    rw [List.getElem?_set_ne (Ne.symm hsame), hn]

/-! ## The steps -/

variable {id : String} {blockKeys : List κ} {added toAdd : List PodEntry} {pod : PodEntry} {place : Nat}

theorem Inv.preRequest (h : Inv ttl s) (he : speculativeEntries request = some e) :
    Inv ttl { s with calls := s.calls ++ [⟨request.id, e.blockKeys, [], e.podEntries⟩] } := by
  have hkeeps : ∀ {pair time}, s.Keeps pair time →
      State.Keeps { s with calls := s.calls ++ [⟨request.id, e.blockKeys, [], e.podEntries⟩] } pair time :=
    Or.imp_left fun ⟨c, hc, hlists⟩ => ⟨c, List.mem_append_left _ hc, hlists⟩
  refine ⟨h.past, fun a ha hlive => (h.kept a ha hlive).imp_right hkeeps,
    fun key pod hmem => (h.owned key pod hmem).imp_left hkeeps, h.added, fun c hc pair hpair => ?_,
    fun c hc pod hpod => ?_, h.confirmed⟩
  · rcases List.mem_append.mp hc with hc | hc
    · exact h.held c hc pair hpair
    · -- the new call has added nothing
      rw [List.mem_singleton.mp hc] at hpair
      simp [PreRequestCall.held, SpeculativeEntries.lists] at hpair
  · rcases List.mem_append.mp hc with hc | hc
    · exact h.speculative c hc pod hpod
    · rw [List.mem_singleton.mp hc] at hpod
      exact speculative_of_mem he hpod

theorem Inv.past_append (h : Inv ttl s) (hpods : ∀ pod ∈ e.podEntries, pod = speculativePod pod.podIdentifier)
    {a : Addition κ} (ha : a ∈ e.at s.now ++ s.additions) : a.time ≤ s.now := by
  rcases List.mem_append.mp ha with ha | ha
  · exact Nat.le_of_eq ((mem_at hpods).mp ha).2
  · exact h.past a ha

theorem Inv.add (h : Inv ttl s) (hplace : s.calls[place]? = some ⟨id, blockKeys, added, pod :: toAdd⟩) :
    Inv ttl { s.add ⟨blockKeys, [pod]⟩ with calls := s.calls.set place ⟨id, blockKeys, added ++ [pod], toAdd⟩ } := by
  have hcall := List.mem_of_getElem? hplace
  have hnew : ⟨id, blockKeys, added ++ [pod], toAdd⟩ ∈ s.calls.set place ⟨id, blockKeys, added ++ [pod], toAdd⟩ :=
    List.mem_set (List.getElem?_eq_some_iff.mp hplace).1 _
  have hspec : pod = speculativePod pod.podIdentifier := h.speculative _ hcall pod (by simp)
  have hpods : ∀ p ∈ [pod], p = speculativePod p.podIdentifier := fun p hp => List.mem_singleton.mp hp ▸ hspec
  let s' : State κ := { s.add ⟨blockKeys, [pod]⟩ with
    calls := s.calls.set place ⟨id, blockKeys, added ++ [pod], toAdd⟩ }
  -- What a call had in the index it still has.
  have hkeeps : ∀ {pair time}, s.Keeps pair time → s'.Keeps pair time := by
    refine Or.imp_left fun ⟨c, hc, hlists⟩ => ?_
    rcases mem_of_getElem? hplace hc with rfl | ⟨-, hc⟩
    · exact ⟨_, hnew, lists_iff.mpr ⟨(lists_iff.mp hlists).1, List.mem_append_left _ (lists_iff.mp hlists).2⟩⟩
    · exact ⟨c, hc _, hlists⟩
  have hadded : ∀ {pair time}, (SpeculativeEntries.mk blockKeys [pod]).lists pair = true → s'.Keeps pair time :=
    fun hpair => .inl ⟨_, hnew, lists_iff.mpr ⟨(lists_iff.mp hpair).1, List.mem_append_right _ (lists_iff.mp hpair).2⟩⟩
  refine ⟨fun a ha => h.past_append hpods ha, fun a ha hlive => ?_, fun key pod hmem => ?_,
    fun item hmem key pod hlists => ?_,
    fun c hc pair hpair => ?_, fun c hc p hp => ?_, fun key p hmem => ?_⟩
  · rcases List.mem_append.mp ha with ha | ha
    · have hlists := ((mem_at hpods).mp ha).1
      exact ⟨mem_add_index.mpr (.inl hlists), hadded hlists⟩
    · exact (h.kept a ha hlive).imp (fun hindex => mem_add_index.mpr (.inr hindex)) hkeeps
  · rcases mem_add_index.mp hmem with hlists | hmem
    · exact .inl (hadded hlists)
    · exact (h.owned key pod hmem).imp_left hkeeps
  · obtain ⟨a, ha, hrest⟩ := h.added item hmem key pod hlists
    exact ⟨a, List.mem_append_right _ ha, hrest⟩
  · rcases List.mem_or_eq_of_mem_set hc with hc | rfl
    · exact mem_add_index.mpr (.inr (h.held c hc pair hpair))
    · obtain ⟨hkey, hpod⟩ := lists_iff.mp hpair
      rcases List.mem_append.mp hpod with hpod | hpod
      · exact mem_add_index.mpr (.inr (h.held _ hcall pair (lists_iff.mpr ⟨hkey, hpod⟩)))
      · exact mem_add_index.mpr (.inl (lists_iff.mpr ⟨hkey, hpod⟩))
  · rcases List.mem_or_eq_of_mem_set hc with hc | rfl
    · exact h.speculative c hc p hp
    · exact h.speculative _ hcall p (by simpa using hp)
  · rcases mem_add_index.mp hmem with hlists | hmem
    · have := hpods _ (lists_iff.mp hlists).2
      cases this
    · exact h.confirmed key p hmem

theorem Inv.set (h : Inv ttl s) (hplace : s.calls[place]? = some ⟨id, blockKeys, added, []⟩)
    (hok : ∀ item ∈ s.cache, item.id = id → item.entries.within ⟨blockKeys, added⟩ = true) :
    Inv ttl { s.set id ⟨blockKeys, added⟩ ttl with calls := s.calls.eraseIdx place } := by
  have hcall := List.mem_of_getElem? hplace
  have hpods : ∀ p ∈ added, p = speculativePod p.podIdentifier := fun p hp =>
    h.speculative _ hcall p (List.mem_append_left _ hp)
  have hnew : (⟨id, ⟨blockKeys, added⟩, s.now + ttl⟩ : Item κ) ∈ (s.set id ⟨blockKeys, added⟩ ttl).cache :=
    List.mem_cons_self
  -- The pairs of the call, and those of an item that it replaces, are in the new one.
  have hkeeps : ∀ {pair time}, time ≤ s.now + ttl → s.Keeps pair time →
      State.Keeps { s.set id ⟨blockKeys, added⟩ ttl with calls := s.calls.eraseIdx place } pair time := by
    rintro pair time hle (⟨c, hc, hlists⟩ | ⟨item, hmem, hlists, hlasts⟩)
    · rcases mem_of_getElem? hplace hc with rfl | ⟨hc, -⟩
      · exact .inr ⟨_, hnew, hlists, hle⟩
      · exact .inl ⟨c, hc, hlists⟩
    · by_cases hid : item.id = id
      · exact .inr ⟨_, hnew, lists_of_within (hok item hmem hid) hlists, hle⟩
      · exact .inr ⟨item, List.mem_cons_of_mem _ (List.mem_filter.mpr ⟨hmem, by simpa using hid⟩), hlists, hlasts⟩
  refine ⟨fun a ha => h.past_append hpods ha, fun a ha hlive => ?_, fun key pod hmem => ?_,
    fun item hmem key pod hlists => ?_,
    fun c hc => h.held c (List.mem_of_mem_eraseIdx hc), fun c hc => h.speculative c (List.mem_of_mem_eraseIdx hc),
    h.confirmed⟩
  · rcases List.mem_append.mp ha with ha | ha
    · obtain ⟨hlists, htime⟩ := (mem_at hpods).mp ha
      exact ⟨h.held _ hcall _ hlists, .inr ⟨_, hnew, hlists, by simp [htime]⟩⟩
    · exact (h.kept a ha hlive).imp_right (hkeeps (Nat.add_le_add_right (h.past a ha) ttl))
  · exact (h.owned key pod hmem).imp_left (hkeeps (Nat.zero_le _))
  · rcases List.mem_cons.mp hmem with rfl | hmem
    · exact ⟨⟨key, pod, s.now⟩, List.mem_append_left _ ((mem_at hpods).mpr ⟨hlists, rfl⟩), rfl, rfl, rfl⟩
    · obtain ⟨a, ha, hrest⟩ := h.added item (List.mem_filter.mp hmem).1 key pod hlists
      exact ⟨a, List.mem_append_right _ ha, hrest⟩

theorem Inv.expire (h : Inv ttl s) {item : Item κ} (hplace : s.cache[place]? = some item)
    (hexpired : item.expiresAt ≤ s.now) :
    Inv ttl { s with cache := s.cache.eraseIdx place, callbacks := s.callbacks ++ [item.entries] } := by
  have hkeeps : ∀ {pair time}, s.Keeps pair time → State.Keeps
      { s with cache := s.cache.eraseIdx place, callbacks := s.callbacks ++ [item.entries] } pair time ∨
        time ≤ s.now ∧ item.entries.lists pair = true := by
    rintro pair time (hcall | ⟨item', hmem, hlists, hlasts⟩)
    · exact .inl (.inl hcall)
    · rcases mem_of_getElem? hplace hmem with rfl | ⟨hmem, -⟩
      · exact .inr ⟨Nat.le_trans hlasts hexpired, hlists⟩
      · exact .inl (.inr ⟨item', hmem, hlists, hlasts⟩)
  refine ⟨h.past, fun a ha hlive => ?_, fun key pod hmem => ?_,
    fun item' hmem => h.added item' (List.mem_of_mem_eraseIdx hmem), h.held, h.speculative, h.confirmed⟩
  · exact (h.kept a ha hlive).imp_right fun hkept => (hkeeps hkept).resolve_right fun hover =>
      absurd hlive (Nat.not_lt.mpr hover.1)
  · rcases h.owned key pod hmem with hkept | ⟨e, he, hlists⟩
    · exact (hkeeps hkept).imp_right fun hover => ⟨_, List.mem_append_right _ List.mem_cons_self, hover.2⟩
    · exact .inr ⟨e, List.mem_append_left _ he, hlists⟩

theorem Inv.callback (h : Inv ttl s) {key : κ} {keys : List κ} {pods : List PodEntry}
    (hplace : s.callbacks[place]? = some ⟨key :: keys, pods⟩)
    (hitems : ∀ item ∈ s.cache, item.expiresAt ≤ s.now ∨ ∀ pod ∈ pods, item.entries.lists (key, pod) = false)
    (hcalls : ∀ c ∈ s.calls, ∀ pod ∈ pods, c.held.lists (key, pod) = false) :
    Inv ttl { s.evict key pods with callbacks := s.callbacks.set place ⟨keys, pods⟩ } := by
  -- A pair that a call has is none of those evicted.
  have hcall : ∀ c ∈ s.calls, ∀ pair, c.held.lists pair = true → ¬(pair.1 = key ∧ pair.2 ∈ pods) := by
    rintro c hc pair hlists ⟨rfl, hpod⟩
    rw [hcalls c hc pair.2 hpod] at hlists
    cases hlists
  refine ⟨h.past, fun a ha hlive => ?_, fun key' pod hmem => ?_, h.added, fun c hc pair hpair => ?_, h.speculative,
    fun key' pod hmem => h.confirmed key' pod (List.mem_filter.mp hmem).1⟩
  · obtain ⟨hindex, ⟨c, hc, hlists⟩ | ⟨item, hmem, hlists, hlasts⟩⟩ := h.kept a ha hlive
    · exact ⟨List.mem_filter.mpr ⟨hindex, decide_eq_true (hcall c hc _ hlists)⟩, .inl ⟨c, hc, hlists⟩⟩
    · refine ⟨List.mem_filter.mpr ⟨hindex, decide_eq_true ?_⟩, .inr ⟨item, hmem, hlists, hlasts⟩⟩
      rintro ⟨rfl, hpod⟩
      rcases hitems item hmem with hexpired | hnone
      · dsimp only [State.evict] at hlive
        omega
      · rw [hnone _ hpod] at hlists
        cases hlists
  · obtain ⟨hmem, hkept⟩ := List.mem_filter.mp hmem
    rcases h.owned key' pod hmem with hkept | ⟨e, he, hlists⟩
    · exact .inl hkept
    · refine .inr ?_
      rcases mem_of_getElem? hplace he with rfl | ⟨-, he⟩
      · -- what the callback has still to evict
        obtain ⟨hkey, hpod⟩ := lists_iff.mp hlists
        refine ⟨_, List.mem_set (List.getElem?_eq_some_iff.mp hplace).1 _, lists_iff.mpr ⟨?_, hpod⟩⟩
        rcases List.mem_cons.mp hkey with rfl | hkey
        · exact absurd ⟨rfl, hpod⟩ (of_decide_eq_true hkept)
        · exact hkey
      · exact ⟨e, he _, hlists⟩
  · exact List.mem_filter.mpr ⟨h.held c hc pair hpair, decide_eq_true (hcall c hc pair hpair)⟩

/-- An event changes only what the index has of entries that are not speculative. -/
theorem Inv.event (h : Inv ttl s) {index : List (κ × PodEntry)} {confirmed : List (κ × String)}
    (hspec : ∀ key pod, (key, speculativePod pod) ∈ index ↔ (key, speculativePod pod) ∈ s.index)
    (hconf : ∀ key pod, (key, ⟨pod, false⟩) ∈ index → (key, pod) ∈ confirmed) :
    Inv ttl { s with index := index, confirmed := confirmed } := by
  refine ⟨h.past, fun a ha hlive => (h.kept a ha hlive).imp_left (hspec _ _).mpr,
    fun key pod hmem => h.owned key pod ((hspec key pod).mp hmem), h.added, fun c hc pair hpair => ?_, h.speculative, hconf⟩
  have hmem := h.held c hc pair hpair
  obtain ⟨key, pod⟩ := pair
  rw [h.speculative c hc pod (List.mem_append_left _ (lists_iff.mp hpair).2)] at hmem ⊢
  exact (hspec _ _).mpr hmem

theorem Inv.step {enabled : Bool} {l : Label κ} (h : Inv ttl s) (hok : separate s l = true)
    (hstep : step enabled ttl s l = some s') : Inv ttl s' := by
  cases l with
  | preRequest request =>
    simp only [PrecisePrefixCache.step] at hstep
    split at hstep
    · split at hstep
      · rename_i e he
        cases hstep
        exact h.preRequest he
      · cases hstep
        exact h
    · cases hstep
      exact h
  | add place =>
    simp only [PrecisePrefixCache.step] at hstep
    split at hstep
    · rename_i hplace
      cases hstep
      exact h.add hplace
    · cases hstep
  | set place =>
    simp only [PrecisePrefixCache.step] at hstep
    split at hstep
    · rename_i hplace
      cases hstep
      refine h.set hplace fun item hmem hid => ?_
      simp only [separate, hplace, List.all_eq_true] at hok
      simpa [hid, PreRequestCall.held] using hok item hmem
    · cases hstep
  | expire place =>
    simp only [PrecisePrefixCache.step] at hstep
    split at hstep
    · rename_i item hplace
      split at hstep
      · rename_i hexpired
        cases hstep
        exact h.expire hplace hexpired
      · cases hstep
    · cases hstep
  | callback place =>
    simp only [PrecisePrefixCache.step] at hstep
    split at hstep
    · rename_i hplace
      cases hstep
      simp only [separate, hplace, Bool.and_eq_true, List.all_eq_true] at hok
      refine h.callback hplace (fun item hmem => ?_) fun c hc => ?_
      · simpa using hok.1 item hmem
      · simpa using hok.2 c hc
    · cases hstep
  | confirm key pod =>
    cases hstep
    refine h.event (by simp [speculativePod]) fun key' pod' hmem => ?_
    rcases List.mem_cons.mp hmem with heq | hmem
    · cases heq
      exact List.mem_cons_self
    · exact List.mem_cons_of_mem _ (h.confirmed key' pod' hmem)
  | remove key pod =>
    cases hstep
    exact h.event (by simp [speculativePod]) fun key' pod' hmem => h.confirmed key' pod' (List.mem_filter.mp hmem).1
  | wait time =>
    cases hstep
    refine ⟨fun a ha => Nat.le_trans (h.past a ha) (Nat.le_add_right _ _), fun a ha hlive => ?_, h.owned, h.added, h.held,
      h.speculative, h.confirmed⟩
    refine h.kept a ha ?_
    dsimp only at hlive
    omega

theorem Inv.lives (h : Inv ttl s) : Lives ttl s := by
  refine ⟨fun a ha hlive => ⟨_, (h.kept a ha hlive).1, rfl⟩, ?_⟩
  intro key pod hover hcalls hitems hcallbacks hconfirmed e hmem hpod
  obtain ⟨pod', speculative⟩ := e
  cases hpod
  cases speculative with
  | false => exact hconfirmed (h.confirmed key pod' hmem)
  | true =>
    rcases h.owned key pod' hmem with (⟨c, hc, hlists⟩ | ⟨item, hitem, hlists, -⟩) | ⟨e, he, hlists⟩
    · rw [hcalls c hc] at hlists
      cases hlists
    · obtain ⟨a, ha, hkey, hpod, htime⟩ := h.added item hitem key pod' hlists
      have := hover a ha hkey hpod
      have := hitems item hitem hlists
      omega
    · rw [hcallbacks e he] at hlists
      cases hlists

/-- **Speculative index entries live for their TTL**, in every run in which no
item of the cache is replaced by one without its pairs, and no callback evicts
a pair that an item that has not expired, or a call that runs, has. -/
theorem speculative_entries_live {enabled : Bool}
    (h : Reaches (PrecisePrefixCache.step enabled ttl) (fun s l => separate s l = true) State.init s) : Lives ttl s :=
  (h.invariant (Inv ttl) .init fun _ _ _ hs hok hstep => hs.step hok hstep).lives

end Steps

/-! ## Runs -/

/-- A request for some block keys on a pod. -/
def requestFor (id : String) (blockKeys : List Nat) (pod : String) : Request Nat :=
  ⟨id, some blockKeys, some [pod], none⟩

/-- The pairs of the index. -/
def pairs (s : State Nat) : List (Nat × String) := s.index.map fun pair => (pair.1, pair.2.podIdentifier)

/-- A request ID comes again with a longer prompt while its first entry is in
the cache, and another call runs beside it: all lives until the second expires. -/
theorem speculative_entries_live_longer_prompt : ∃ s : State Nat,
    Lives 2 s ∧ s.now = 3 ∧ pairs s = [(1, "pod-0"), (2, "pod-0"), (1, "pod-0")] := by
  obtain ⟨s, hs, hp⟩ := exists_of_runIf (step true 2) (fun s l => separate s l = true) (State.init : State Nat)
    [.preRequest (requestFor "a" [1] "pod-0"), .add 0, .set 0, .wait 1, .preRequest (requestFor "b" [5] "pod-1"), .add 0,
      .preRequest (requestFor "a" [1, 2] "pod-0"), .add 1, .set 0, .set 0, .wait 2, .expire 1, .callback 0]
    (fun s => s.now = 3 ∧ pairs s = [(1, "pod-0"), (2, "pod-0"), (1, "pod-0")])
    (by decide +kernel)
  exact ⟨s, speculative_entries_live hs, hp⟩

/-- **Entries that do not live for their TTL**: the first of two requests with
a block in common expires, and the block is gone although the TTL of the second
runs, also while the second has not yet stored its entry; a request ID comes again
with another prompt, and the block of the first one stays when all has expired. -/
theorem shared_block_evicted_early :
    (∃ s, Reaches (step true 2) Any (State.init : State Nat) s ∧ s.now = 2 ∧ pairs s = [] ∧ s.calls.length = 0 ∧
      ∃ a ∈ s.additions, a.key = 1 ∧ a.pod = "pod-0" ∧ a.time = 1) ∧
    (∃ s, Reaches (step true 2) Any (State.init : State Nat) s ∧ s.now = 2 ∧ pairs s = [] ∧ s.calls.length = 1 ∧
      ∃ a ∈ s.additions, a.key = 1 ∧ a.pod = "pod-0" ∧ a.time = 2) ∧
    ∃ s, Reaches (step true 2) Any (State.init : State Nat) s ∧ s.now = 3 ∧ pairs s = [(1, "pod-0")] ∧
      (∀ a ∈ s.additions, a.time ≤ 1) ∧ s.cache.length + s.calls.length + s.confirmed.length = 0 ∧
      ∀ e ∈ s.callbacks, e.blockKeys = [] := by
  refine ⟨?_, ?_, ?_⟩
  · exact exists_of_run (step true 2) (State.init : State Nat)
      [.preRequest (requestFor "a" [1] "pod-0"), .add 0, .set 0, .wait 1, .preRequest (requestFor "b" [1] "pod-0"), .add 0,
        .set 0, .wait 1, .expire 1, .callback 0] _ (by decide +kernel)
  · exact exists_of_run (step true 2) (State.init : State Nat)
      [.preRequest (requestFor "a" [1] "pod-0"), .add 0, .set 0, .wait 2, .preRequest (requestFor "b" [1] "pod-0"), .add 0,
        .expire 0, .callback 0] _ (by decide +kernel)
  · exact exists_of_run (step true 2) (State.init : State Nat)
      [.preRequest (requestFor "a" [1] "pod-0"), .add 0, .set 0, .wait 1, .preRequest (requestFor "a" [2] "pod-0"), .add 0,
        .set 0, .wait 2, .expire 0, .callback 0] _ (by decide +kernel)

end InferenceScheduler.PrecisePrefixCache
