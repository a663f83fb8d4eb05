/-
The index of the approximate prefix cache: which pods have a block, by the
block's hash, and for every pod an LRU of its blocks that takes it out of the
index when it drops one. `Add` puts all hashes into the LRU first and then all
of them into the index, so the two sides stay in agreement (`Consistent`)
exactly when the hashes fit into the LRU.
-/
import InferenceScheduler.Lib.Lru

namespace InferenceScheduler.PrefixCache

open Function (update update_of_ne update_self)

variable {Hash Pod : Type}

/-- The map from blocks to pods; a hash without an entry is absent. -/
abbrev HashToPods (Hash Pod : Type) := Hash → Option (Finset Pod)

structure Server (Pod : Type) where
  serverID : Pod
  numOfGPUBlocks : Int

structure Indexer (Hash Pod : Type) where
  hashToPods : HashToPods Hash Pod
  podToLRU : Pod → Option (Lru Hash)
  defaultLRUSize : Nat
  pos : 0 < defaultLRUSize

def newIndexer (defaultLRUSize : Nat) (pos : 0 < defaultLRUSize) : Indexer Hash Pod :=
  ⟨fun _ => none, fun _ => none, defaultLRUSize, pos⟩

/-- The size of a new LRU. -/
def Indexer.lruSize (i : Indexer Hash Pod) (pod : Server Pod) : Nat :=
  if pod.numOfGPUBlocks ≤ 0 then i.defaultLRUSize else pod.numOfGPUBlocks.toNat

theorem Indexer.lruSize_pos (i : Indexer Hash Pod) (pod : Server Pod) : 0 < i.lruSize pod := by
  unfold Indexer.lruSize
  split
  · exact i.pos
  · omega

/-- The pod's LRU, a new one if it has none. -/
def Indexer.lruFor (i : Indexer Hash Pod) (pod : Server Pod) : Lru Hash :=
  match i.podToLRU pod.serverID with
  | some lru => lru
  | none => .new (i.lruSize pod) (i.lruSize_pos pod)

/-! ## Agreement -/

/-- The pods of a block. -/
def podsAt (m : HashToPods Hash Pod) (hash : Hash) : Finset Pod := (m hash).getD ∅

/-- A pod's blocks. -/
def Indexer.InLRU (i : Indexer Hash Pod) (pod : Pod) (hash : Hash) : Prop :=
  ∃ lru, i.podToLRU pod = some lru ∧ hash ∈ lru.keys

/-- A pod is listed for a block exactly when its LRU holds the block. -/
def Consistent (i : Indexer Hash Pod) : Prop :=
  ∀ pod hash, pod ∈ podsAt i.hashToPods hash ↔ i.InLRU pod hash

theorem consistent_newIndexer (n : Nat) (pos : 0 < n) : Consistent (newIndexer n pos : Indexer Hash Pod) := by
  intro p h
  simp [newIndexer, podsAt, Indexer.InLRU]

theorem inLRU_iff_lruFor (i : Indexer Hash Pod) (pod : Server Pod) {h : Hash} : i.InLRU pod.serverID h ↔ h ∈ (i.lruFor pod).keys := by
  unfold Indexer.InLRU Indexer.lruFor
  cases i.podToLRU pod.serverID with
  | none => simp [Lru.new]
  | some lru => simp

/-! ## The code -/

variable [DecidableEq Hash] [DecidableEq Pod]

/-- The eviction callback of a pod's LRU. -/
def evict (pod : Pod) (m : HashToPods Hash Pod) (hash : Hash) : HashToPods Hash Pod :=
  match m hash with
  | none => m
  | some podSet =>
    if podSet.erase pod = ∅ then update m hash none
    else update m hash (some (podSet.erase pod))

/-- An addition to a pod's LRU, with its callback. -/
def addToLRU (pod : Pod) (s : Lru Hash × HashToPods Hash Pod) (hash : Hash) : Lru Hash × HashToPods Hash Pod :=
  (s.1.add hash,
    match s.1.evicted hash with
    | none => s.2
    | some old => evict pod s.2 old)

/-- An entry of the index. -/
def addToIndex (pod : Pod) (m : HashToPods Hash Pod) (hash : Hash) : HashToPods Hash Pod :=
  update m hash (some (insert pod ((m hash).getD ∅)))

/-- A removal from a pod's LRU, with its callback. -/
def removeFromLRU (pod : Pod) (s : Lru Hash × HashToPods Hash Pod) (hash : Hash) : Lru Hash × HashToPods Hash Pod :=
  if hash ∈ s.1.keys then (s.1.remove hash, evict pod s.2 hash) else s

namespace Indexer

def add (i : Indexer Hash Pod) (hashes : List Hash) (pod : Server Pod) : Indexer Hash Pod :=
  let (lru, m) := hashes.foldl (addToLRU pod.serverID) (i.lruFor pod, i.hashToPods)
  { i with
    hashToPods := hashes.foldl (addToIndex pod.serverID) m
    podToLRU := update i.podToLRU pod.serverID (some lru) }

def get (i : Indexer Hash Pod) (hash : Hash) : Option (Finset Pod) := i.hashToPods hash

def removePod (i : Indexer Hash Pod) (pod : Pod) : Indexer Hash Pod :=
  match i.podToLRU pod with
  | none => i
  | some lru =>
    -- the keys are listed from the oldest on
    { i with
      hashToPods := (lru.keys.reverse.foldl (removeFromLRU pod) (lru, i.hashToPods)).2
      podToLRU := update i.podToLRU pod none }

end Indexer

/-- The calls that change the index; each runs under its lock. -/
inductive Call (Hash Pod : Type)
  | add (hashes : List Hash) (pod : Server Pod)
  | removePod (pod : Pod)

def Indexer.call (i : Indexer Hash Pod) : Call Hash Pod → Indexer Hash Pod
  | .add hashes pod => i.add hashes pod
  | .removePod pod => i.removePod pod

/-! ## Soundness -/

/-- The two sides agree, and no block lists a pod that is removed now. -/
def Sound (i : Indexer Hash Pod) : Prop :=
  Consistent i ∧ ∀ pod hash podSet, (i.removePod pod).get hash = some podSet → pod ∉ podSet

/-- The hashes fit into the pod's LRU. -/
def Fits (i : Indexer Hash Pod) : Call Hash Pod → Prop
  | .add hashes pod => hashes.toFinset.card ≤ (i.lruFor pod).cap
  | .removePod _ => True

instance (i : Indexer Hash Pod) (c : Call Hash Pod) : Decidable (Fits i c) :=
  match c with
  | .add _ _ => inferInstanceAs (Decidable (_ ≤ _))
  | .removePod _ => .isTrue trivial

/-! ## Single entries -/

section Entries

variable {m : HashToPods Hash Pod} {p q : Pod} {h x : Hash}

theorem mem_podsAt_evict : q ∈ podsAt (evict p m x) h ↔ q ∈ podsAt m h ∧ ¬ (q = p ∧ h = x) := by
  unfold evict
  split
  · next hm =>
    refine ⟨fun hq => ⟨hq, fun ⟨_, hx⟩ => ?_⟩, And.left⟩
    simp [podsAt, hx, hm] at hq
  · next podSet hm =>
    by_cases hx : h = x
    · subst hx
      have hold : podsAt m h = podSet := by simp [podsAt, hm]
      have hnew : ∀ o : Option (Finset Pod), podsAt (update m h o) h = o.getD ∅ := fun o => by simp [podsAt]
      split_ifs with he
      · rw [hnew, hold, Option.getD_none]
        have hq : q ∈ podSet.erase p ↔ q ∈ (∅ : Finset Pod) := by rw [he]
        simpa [Finset.mem_erase, and_comm] using hq.symm
      · rw [hnew, hold, Option.getD_some, Finset.mem_erase]
        simp [and_comm]
    · split_ifs <;> simp [podsAt, hx]

theorem mem_podsAt_addToIndex : q ∈ podsAt (addToIndex p m x) h ↔ q ∈ podsAt m h ∨ q = p ∧ h = x := by
  by_cases hx : h = x
  · subst hx
    simp [podsAt, addToIndex, or_comm]
  · simp [podsAt, addToIndex, hx]

theorem mem_podsAt_foldl_addToIndex (hashes : List Hash) :
    q ∈ podsAt (hashes.foldl (addToIndex p) m) h ↔ q ∈ podsAt m h ∨ q = p ∧ h ∈ hashes := by
  induction hashes generalizing m with
  | nil => simp
  | cons x hashes ih =>
    rw [List.foldl_cons, ih, mem_podsAt_addToIndex, List.mem_cons]
    tauto

end Entries

/-! ## The loops -/

section Loops

variable {p q : Pod} {h : Hash} {s : Lru Hash × HashToPods Hash Pod}

theorem mem_podsAt_addToLRU {x : Hash} :
    q ∈ podsAt (addToLRU p s x).2 h ↔ q ∈ podsAt s.2 h ∧ ¬ (q = p ∧ s.1.evicted x = some h) := by
  unfold addToLRU
  cases hev : s.1.evicted x with
  | none => simp
  | some old => simp [mem_podsAt_evict, eq_comm]

theorem fst_foldl_addToLRU (hashes : List Hash) (s : Lru Hash × HashToPods Hash Pod) :
    (hashes.foldl (addToLRU p) s).1 = hashes.foldl Lru.add s.1 := by
  induction hashes generalizing s with
  | nil => rfl
  | cons x hashes ih => rw [List.foldl_cons, ih, List.foldl_cons, addToLRU]

theorem mem_podsAt_foldl_addToLRU_other (hne : q ≠ p) (hashes : List Hash) (s : Lru Hash × HashToPods Hash Pod) :
    q ∈ podsAt (hashes.foldl (addToLRU p) s).2 h ↔ q ∈ podsAt s.2 h := by
  induction hashes generalizing s with
  | nil => rfl
  | cons x hashes ih => rw [List.foldl_cons, ih, mem_podsAt_addToLRU, and_iff_left (by simp [hne])]

theorem mem_podsAt_foldl_addToLRU_self (hashes : List Hash) (hh : h ∉ hashes) (hs : p ∈ podsAt s.2 h ↔ h ∈ s.1.keys) :
    p ∈ podsAt (hashes.foldl (addToLRU p) s).2 h ↔ h ∈ (hashes.foldl (addToLRU p) s).1.keys := by
  induction hashes generalizing s with
  | nil => exact hs
  | cons x hashes ih =>
    obtain ⟨hx, hh⟩ : h ≠ x ∧ h ∉ hashes := by simpa using hh
    refine ih hh ?_
    rw [mem_podsAt_addToLRU, show (addToLRU p s x).1 = s.1.add x from rfl, Lru.mem_add, hs]
    simp [hx]

theorem mem_podsAt_foldl_removeFromLRU_other (hne : q ≠ p) (hashes : List Hash) (s : Lru Hash × HashToPods Hash Pod) :
    q ∈ podsAt (hashes.foldl (removeFromLRU p) s).2 h ↔ q ∈ podsAt s.2 h := by
  induction hashes generalizing s with
  | nil => rfl
  | cons x hashes ih =>
    rw [List.foldl_cons, ih]
    unfold removeFromLRU
    split
    · rw [mem_podsAt_evict, and_iff_left (by simp [hne])]
    · rfl

theorem mem_podsAt_foldl_removeFromLRU_self (hashes : List Hash)
    (hs : p ∈ podsAt s.2 h → h ∈ s.1.keys ∧ h ∈ hashes) : p ∉ podsAt (hashes.foldl (removeFromLRU p) s).2 h := by
  induction hashes generalizing s with
  | nil => exact fun hp => (List.not_mem_nil (hs hp).2)
  | cons x hashes ih =>
    refine ih fun hp => ?_
    unfold removeFromLRU at hp ⊢
    split at hp
    · next hx =>
      rw [mem_podsAt_evict] at hp
      obtain ⟨hmem, hne⟩ := hp
      obtain ⟨hkey, hh⟩ := hs hmem
      have hne : h ≠ x := fun he => hne ⟨rfl, he⟩
      rw [if_pos hx, Lru.keys_remove, s.1.nodup.mem_erase_iff]
      exact ⟨⟨hne, hkey⟩, (List.mem_cons.mp hh).resolve_left hne⟩
    · next hx =>
      obtain ⟨hkey, hh⟩ := hs hp
      rw [if_neg hx]
      exact ⟨hkey, (List.mem_cons.mp hh).resolve_left fun he => hx (he ▸ hkey)⟩

end Loops

/-! ## Calls -/

section Calls

variable {i : Indexer Hash Pod}

/-- **What an addition does to the agreement**: it holds after it exactly when
the hashes fit into the LRU. -/
theorem consistent_add_iff (hi : Consistent i) (hashes : List Hash) (pod : Server Pod) :
    Consistent (i.add hashes pod) ↔ hashes.toFinset.card ≤ (i.lruFor pod).cap := by
  rw [← Lru.mem_foldl_add]
  have hfst : (hashes.foldl (addToLRU pod.serverID) (i.lruFor pod, i.hashToPods)).1 =
      hashes.foldl Lru.add (i.lruFor pod) := fst_foldl_addToLRU ..
  constructor
  · intro hc h hh
    -- the second loop lists the pod for every hash
    have hlisted : pod.serverID ∈ podsAt (i.add hashes pod).hashToPods h :=
      (mem_podsAt_foldl_addToIndex hashes).mpr (.inr ⟨rfl, hh⟩)
    obtain ⟨lru, hlru, hkey⟩ := (hc _ _).mp hlisted
    simp only [Indexer.add, update_self, Option.some.injEq] at hlru
    rwa [← hlru, hfst] at hkey
  · intro hall p h
    by_cases hp : p = pod.serverID
    · subst hp
      have hin : (i.add hashes pod).InLRU pod.serverID h ↔ h ∈ (hashes.foldl Lru.add (i.lruFor pod)).keys := by
        rw [Indexer.add, ← hfst]
        simp [Indexer.InLRU]
      rw [hin, Indexer.add]
      by_cases hh : h ∈ hashes
      · exact iff_of_true ((mem_podsAt_foldl_addToIndex hashes).mpr (.inr ⟨rfl, hh⟩)) (hall h hh)
      · rw [mem_podsAt_foldl_addToIndex, or_iff_left (fun hm => hh hm.2), ← hfst]
        exact mem_podsAt_foldl_addToLRU_self hashes hh ((hi _ _).trans (inLRU_iff_lruFor i pod))
    · have hin : (i.add hashes pod).InLRU p h ↔ i.InLRU p h := by
        simp [Indexer.add, Indexer.InLRU, update_of_ne hp]
      rw [hin, ← hi, Indexer.add, mem_podsAt_foldl_addToIndex, or_iff_left (fun hm => hp hm.1),
        mem_podsAt_foldl_addToLRU_other hp]

theorem not_mem_podsAt_removePod (hi : Consistent i) (p : Pod) (h : Hash) :
    p ∉ podsAt (i.removePod p).hashToPods h := by
  unfold Indexer.removePod
  split
  · next hnone =>
    rw [hi]
    rintro ⟨lru, hlru, -⟩
    simp [hnone] at hlru
  · next lru hlru =>
    refine mem_podsAt_foldl_removeFromLRU_self _ fun hp => ?_
    obtain ⟨lru', hlru', hkey⟩ := (hi _ _).mp hp
    obtain rfl : lru = lru' := by simpa [hlru] using hlru'
    exact ⟨hkey, List.mem_reverse.mpr hkey⟩

theorem consistent_removePod (hi : Consistent i) (p : Pod) : Consistent (i.removePod p) := by
  intro q h
  by_cases hq : q = p
  · subst hq
    refine iff_of_false (not_mem_podsAt_removePod hi q h) ?_
    rintro ⟨lru, hlru, -⟩
    unfold Indexer.removePod at hlru
    split at hlru
    · next hnone => simp [hnone] at hlru
    · simp at hlru
  · unfold Indexer.removePod
    split
    · exact hi q h
    · rw [mem_podsAt_foldl_removeFromLRU_other hq, hi]
      simp [Indexer.InLRU, update_of_ne hq]

theorem consistent_call_iff (hi : Consistent i) (c : Call Hash Pod) : Consistent (i.call c) ↔ Fits i c := by
  cases c with
  | add hashes pod => exact consistent_add_iff hi hashes pod
  | removePod pod => exact iff_of_true (consistent_removePod hi pod) trivial

theorem Consistent.sound (hi : Consistent i) : Sound i := by
  refine ⟨hi, fun p h podSet hget hp => not_mem_podsAt_removePod hi p h ?_⟩
  rw [Indexer.get] at hget
  simpa [podsAt, hget] using hp

/-! ## Runs -/

/-- Every call of a run meets `Fits` where it is made. -/
def AllFit : Indexer Hash Pod → List (Call Hash Pod) → Prop
  | _, [] => True
  | i, c :: calls => Fits i c ∧ AllFit (i.call c) calls

instance decidableAllFit : ∀ (i : Indexer Hash Pod) (calls : List (Call Hash Pod)), Decidable (AllFit i calls)
  | _, [] => .isTrue trivial
  | i, c :: calls => @instDecidableAnd _ _ _ (decidableAllFit (i.call c) calls)

theorem consistent_run_iff (hi : Consistent i) (calls : List (Call Hash Pod)) :
    (∀ before, before <+: calls → Consistent (before.foldl Indexer.call i)) ↔ AllFit i calls := by
  induction calls generalizing i with
  | nil => simp [AllFit, hi]
  | cons c calls ih =>
    rw [AllFit, ← consistent_call_iff hi c]
    constructor
    · intro h
      have hc : Consistent (i.call c) := h [c] (by simp)
      exact ⟨hc, (ih hc).mp fun before hb => h (c :: before) (List.cons_prefix_cons.mpr ⟨rfl, hb⟩)⟩
    · rintro ⟨hc, hfit⟩ before hb
      cases before with
      | nil => exact hi
      | cons c' before =>
        obtain ⟨rfl, hrest⟩ := List.cons_prefix_cons.mp hb
        exact (ih hc).mpr hfit before hrest

/-- **When the index is right**: between any two calls of a run, exactly if
every call's hashes fit into the LRU of the pod they are added for. -/
theorem index_sound_iff (defaultLRUSize : Nat) (pos : 0 < defaultLRUSize) (calls : List (Call Hash Pod)) :
    (∀ before, before <+: calls → Sound (before.foldl Indexer.call (newIndexer defaultLRUSize pos))) ↔
      AllFit (newIndexer defaultLRUSize pos) calls := by
  rw [← consistent_run_iff (consistent_newIndexer _ pos)]
  exact forall_congr' fun before => forall_congr' fun _ => ⟨And.left, Consistent.sound⟩

/-! ## Runs whose hashes need not fit -/

/-- What a pod's LRU holds lists the pod. -/
def Covers (i : Indexer Hash Pod) : Prop := ∀ pod hash, i.InLRU pod hash → pod ∈ podsAt i.hashToPods hash

theorem mem_podsAt_of_foldl_addToLRU {p : Pod} {h : Hash} (hashes : List Hash) (hh : h ∉ hashes)
    {s : Lru Hash × HashToPods Hash Pod} (hs : h ∈ s.1.keys → p ∈ podsAt s.2 h) :
    h ∈ (hashes.foldl (addToLRU p) s).1.keys → p ∈ podsAt (hashes.foldl (addToLRU p) s).2 h := by
  induction hashes generalizing s with
  | nil => exact hs
  | cons x hashes ih =>
    obtain ⟨hx, hh⟩ : h ≠ x ∧ h ∉ hashes := by simpa using hh
    refine ih hh fun hk => ?_
    rw [show (addToLRU p s x).1 = s.1.add x from rfl, Lru.mem_add] at hk
    obtain ⟨hk, hne⟩ := hk.resolve_left hx
    exact mem_podsAt_addToLRU.mpr ⟨hs hk, fun he => hne he.2⟩

theorem Covers.add (hi : Covers i) (hashes : List Hash) (pod : Server Pod) : Covers (i.add hashes pod) := by
  rintro p h ⟨lru, hlru, hkey⟩
  refine (mem_podsAt_foldl_addToIndex hashes).mpr ?_
  by_cases hp : p = pod.serverID
  · subst hp
    by_cases hh : h ∈ hashes
    · exact .inr ⟨rfl, hh⟩
    · simp only [Indexer.add, update_self] at hlru
      cases hlru
      exact .inl (mem_podsAt_of_foldl_addToLRU hashes hh (fun hk => hi _ _ ((inLRU_iff_lruFor i pod).mpr hk)) hkey)
  · simp only [Indexer.add, update_of_ne hp] at hlru
    exact .inl ((mem_podsAt_foldl_addToLRU_other hp hashes _).mpr (hi p h ⟨lru, hlru, hkey⟩))

theorem Covers.removePod (hi : Covers i) (p : Pod) : Covers (i.removePod p) := by
  unfold Indexer.removePod
  split
  · exact hi
  · rintro q h ⟨lru', hlru', hkey⟩
    by_cases hq : q = p
    · simp [hq] at hlru'
    · simp only [update_of_ne hq] at hlru'
      exact (mem_podsAt_foldl_removeFromLRU_other hq _ _).mpr (hi q h ⟨lru', hlru', hkey⟩)

theorem covers_run (defaultLRUSize : Nat) (pos : 0 < defaultLRUSize) (calls : List (Call Hash Pod)) :
    Covers (calls.foldl Indexer.call (newIndexer defaultLRUSize pos)) := by
  refine List.foldlRecOn (motive := Covers) calls _ (fun p h => (consistent_newIndexer _ pos p h).mpr) fun i hi c _ => ?_
  cases c with
  | add hashes pod => exact hi.add hashes pod
  | removePod pod => exact hi.removePod pod

end Calls

/-- A pod of the default size. -/
def podZero : Server Nat := ⟨0, 0⟩

/-- A run that drops a block, lists a pod again and removes it. -/
def refillCalls : List (Call Nat Nat) :=
  [.add [1, 2] podZero, .add [3, 2] podZero, .add [3] ⟨1, 5⟩, .removePod 0, .add [1] podZero]

theorem index_sound_refill : Sound (refillCalls.foldl Indexer.call (newIndexer 2 Nat.two_pos)) :=
  (index_sound_iff 2 Nat.two_pos refillCalls).mpr (by decide) refillCalls (List.prefix_refl _)

/-- Two blocks added to an LRU of one. -/
def overfull : Indexer Nat Nat := (newIndexer 1 Nat.one_pos).add [1, 2] podZero

theorem not_sound_overfull :
    overfull.get 1 = some {0} ∧ (overfull.removePod 0).get 1 = some {0} ∧ ¬ Sound overfull := by
  have hremoved : (overfull.removePod 0).get 1 = some {0} := by decide
  exact ⟨by decide, hremoved, fun h => h.2 0 1 _ hremoved (by decide)⟩

end InferenceScheduler.PrefixCache
