/-
`matchLongestPrefix` of the approximate prefix cache. The loop goes over the
hashes up to the first that no server has and counts, for each server, the
hashes it is listed for. That is the length of the server's own prefix as long
as nobody who lacks a block is listed for a later one; an eviction from one
server's LRU is enough to leave such a hole.
-/
import InferenceScheduler.PrefixCache.Indexer
import Mathlib.Data.List.TakeWhile
import Mathlib.Order.Bounds.Basic

namespace InferenceScheduler.PrefixCache

/-! ## Prefixes on which a predicate holds -/

section Prefix

variable {α : Type*} {p : α → Bool}

theorem countP_eq_length_takeWhile_iff {l : List α} :
    l.countP p = (l.takeWhile p).length ↔ l.Pairwise fun a b => p b = true → p a = true := by
  induction l with
  | nil => exact ⟨fun _ => .nil, fun _ => rfl⟩
  | cons a l ih =>
    rw [List.pairwise_cons]
    cases ha : p a with
    | true =>
      rw [List.countP_cons_of_pos ha, List.takeWhile_cons_of_pos ha, List.length_cons, Nat.add_right_cancel_iff, ih]
      exact ⟨fun h => ⟨fun _ _ _ => rfl, h⟩, fun h => h.2⟩
    | false =>
      have hneg : ¬p a = true := by rw [ha]; exact Bool.false_ne_true
      rw [List.countP_cons_of_neg hneg, List.takeWhile_cons_of_neg hneg, List.length_nil, List.countP_eq_zero]
      constructor
      · intro h
        refine ⟨fun b hb hpb => absurd hpb (h b hb), ?_⟩
        exact List.Pairwise.imp_of_mem (fun _ hb _ hpb => absurd hpb (h _ hb)) (List.pairwise_of_forall fun _ _ => trivial)
      · intro h b hb hpb
        exact Bool.false_ne_true (h.1 b hb hpb)

theorem takeWhile_takeWhile_of_imp {q : α → Bool} (h : ∀ a, p a = true → q a = true) (l : List α) :
    (l.takeWhile q).takeWhile p = l.takeWhile p := by
  rw [List.takeWhile_takeWhile]
  refine congrArg (List.takeWhile · l) (funext fun a => ?_)
  cases ha : p a with
  | false => simp
  | true => simp [h a ha]

end Prefix

/-! ## The code -/

section Match

variable {Hash Pod : Type} [DecidableEq Pod]

/-- The loop, with the map it has filled. -/
def matchLoop (i : Indexer Hash Pod) (res : Pod → Option Nat) : List Hash → Pod → Option Nat
  | [] => res
  | hash :: hashes =>
    let cachedServers := (i.get hash).getD ∅
    if cachedServers = ∅ then res
    else matchLoop i (fun server => if server ∈ cachedServers then some ((res server).getD 0 + 1) else res server) hashes

def matchLongestPrefix (i : Indexer Hash Pod) (hashes : List Hash) : Pod → Option Nat :=
  matchLoop i (fun _ => none) hashes

/-- The index lists the server for the block. -/
def lists (i : Indexer Hash Pod) (server : Pod) (hash : Hash) : Bool := server ∈ podsAt i.hashToPods hash

/-- The hashes up to the first that no server has. -/
def scanned (i : Indexer Hash Pod) (hashes : List Hash) : List Hash :=
  hashes.takeWhile fun hash => decide (podsAt i.hashToPods hash ≠ ∅)

/-- `k` is the largest number of leading hashes the server is listed for. -/
def IsLongestPrefix (i : Indexer Hash Pod) (hashes : List Hash) (server : Pod) (k : Nat) : Prop :=
  IsGreatest { n | n ≤ hashes.length ∧ ∀ hash ∈ hashes.take n, lists i server hash = true } k

variable {i : Indexer Hash Pod} {hashes : List Hash} {server : Pod}

theorem isLongestPrefix_takeWhile :
    IsLongestPrefix i hashes server (hashes.takeWhile (lists i server)).length := by
  constructor
  · refine ⟨(List.takeWhile_sublist _).length_le, fun hash hmem => ?_⟩
    rw [← List.prefix_iff_eq_take.mp (List.takeWhile_prefix _)] at hmem
    exact List.mem_takeWhile_imp hmem
  · rintro n ⟨hle, hall⟩
    have hsplit : hashes.takeWhile (lists i server) = hashes.take n ++ (hashes.drop n).takeWhile (lists i server) := by
      rw [← List.takeWhile_append_of_pos hall, List.take_append_drop]
    rw [hsplit, List.length_append, List.length_take_of_le hle]
    exact Nat.le_add_right ..

theorem scanned_cons_of_empty {hash : Hash} (h : podsAt i.hashToPods hash = ∅) : scanned i (hash :: hashes) = [] :=
  List.takeWhile_cons_of_neg (by simp [h])

theorem scanned_cons_of_ne {hash : Hash} (h : podsAt i.hashToPods hash ≠ ∅) :
    scanned i (hash :: hashes) = hash :: scanned i hashes :=
  List.takeWhile_cons_of_pos (by simp [h])

/-- A count that has gone up by a number. -/
def counted (old : Option Nat) (n : Nat) : Option Nat := if n = 0 then old else some (old.getD 0 + n)

theorem counted_succ (old : Option Nat) (n : Nat) : counted (some (old.getD 0 + 1)) n = counted old (n + 1) := by
  unfold counted
  rw [if_neg (Nat.succ_ne_zero n)]
  split
  · rename_i hzero
    rw [hzero]
  · rw [Option.getD_some, Nat.add_assoc, Nat.add_comm 1 n]

theorem matchLoop_eq (res : Pod → Option Nat) :
    matchLoop i res hashes server = counted (res server) ((scanned i hashes).countP (lists i server)) := by
  induction hashes generalizing res with
  | nil => rfl
  | cons hash hashes ih =>
    have hget : (i.get hash).getD ∅ = podsAt i.hashToPods hash := rfl
    simp only [matchLoop, hget]
    by_cases hempty : podsAt i.hashToPods hash = ∅
    · rw [if_pos hempty, scanned_cons_of_empty hempty]
      rfl
    · rw [if_neg hempty, ih, scanned_cons_of_ne hempty]
      by_cases hlist : server ∈ podsAt i.hashToPods hash
      · have hpos : lists i server hash = true := decide_eq_true hlist
        rw [if_pos hlist, List.countP_cons_of_pos hpos, counted_succ]
      · have hneg : ¬lists i server hash = true := fun hpos => hlist (of_decide_eq_true hpos)
        rw [if_neg hlist, List.countP_cons_of_neg hneg]

/-- **`matchLongestPrefix` reports the longest prefixes exactly if no server
that lacks a hash has a later one that is scanned.** -/
theorem match_longest_prefix_iff (i : Indexer Hash Pod) (hashes : List Hash) :
    (∀ server, ∃ k, IsLongestPrefix i hashes server k ∧
      matchLongestPrefix i hashes server = if k = 0 then none else some k) ↔
    ∀ server, (scanned i hashes).Pairwise fun earlier later =>
      lists i server later = true → lists i server earlier = true := by
  refine forall_congr' fun server => ?_
  obtain ⟨n, hn⟩ : ∃ n, n = (hashes.takeWhile (lists i server)).length := ⟨_, rfl⟩
  have hlongest : IsLongestPrefix i hashes server n := hn ▸ isLongestPrefix_takeWhile
  have hscanned : (scanned i hashes).takeWhile (lists i server) = hashes.takeWhile (lists i server) := by
    refine takeWhile_takeWhile_of_imp (fun hash hlist => ?_) hashes
    have hmem : server ∈ podsAt i.hashToPods hash := of_decide_eq_true hlist
    exact decide_eq_true (Finset.ne_empty_of_mem hmem)
  have hvalue : matchLongestPrefix i hashes server = counted none ((scanned i hashes).countP (lists i server)) :=
    matchLoop_eq _
  rw [← countP_eq_length_takeWhile_iff, hscanned, ← hn, hvalue]
  obtain ⟨m, hm⟩ : ∃ m, m = (scanned i hashes).countP (lists i server) := ⟨_, rfl⟩
  rw [← hm]
  simp only [counted, Option.getD_none, Nat.zero_add]
  constructor
  · rintro ⟨k, hk, heq⟩
    obtain rfl : k = n := hk.unique hlongest
    split at heq
    · split at heq
      · omega
      · cases heq
    · split at heq
      · cases heq
      · exact Option.some.inj heq
  · intro heq
    exact ⟨n, hlongest, by rw [heq]⟩

/-- **A cached prefix is never missed.** After any calls, also ones with more hashes
than an LRU holds, a server whose LRU has the first `k` blocks of a prompt is
reported with `k` blocks at least. -/
theorem cached_prefix_reported [DecidableEq Hash] (defaultLRUSize : Nat) (pos : 0 < defaultLRUSize)
    (calls : List (Call Hash Pod)) (hashes : List Hash) (server : Pod) (k : Nat) (hpos : 0 < k) (hk : k ≤ hashes.length)
    (hcached : ∀ hash ∈ hashes.take k,
      (calls.foldl Indexer.call (newIndexer defaultLRUSize pos)).InLRU server hash) :
    ∃ n, matchLongestPrefix (calls.foldl Indexer.call (newIndexer defaultLRUSize pos)) hashes server = some n ∧ k ≤ n := by
  obtain ⟨i, hi⟩ : ∃ i, i = calls.foldl Indexer.call (newIndexer defaultLRUSize pos) := ⟨_, rfl⟩
  have hcovers : Covers i := hi ▸ covers_run defaultLRUSize pos calls
  rw [← hi] at hcached ⊢
  have hlisted : ∀ hash ∈ hashes.take k, server ∈ podsAt i.hashToPods hash := fun hash hmem =>
    hcovers server hash (hcached hash hmem)
  have hsplit : scanned i hashes = hashes.take k ++ scanned i (hashes.drop k) := by
    rw [scanned, scanned, ← List.takeWhile_append_of_pos, List.take_append_drop]
    exact fun hash hmem => decide_eq_true (Finset.ne_empty_of_mem (hlisted hash hmem))
  have hall : (hashes.take k).countP (lists i server) = k := by
    rw [List.countP_eq_length.mpr, List.length_take_of_le hk]
    exact fun hash hmem => decide_eq_true (hlisted hash hmem)
  have hcount : k ≤ (scanned i hashes).countP (lists i server) := by
    rw [hsplit, List.countP_append, hall]
    exact Nat.le_add_right ..
  exact ⟨_, (matchLoop_eq _).trans (if_neg (by omega)), by simpa using hcount⟩

end Match

/-- Pod 0 has an LRU of two, in which block 1 has made room for block 9; pod 1
has both blocks. -/
def holedIndex : Indexer Nat Nat :=
  [.add [1, 2] ⟨0, 2⟩, .add [2, 9] ⟨0, 2⟩, .add [1, 2] ⟨1, 2⟩].foldl Indexer.call (newIndexer 2 Nat.two_pos)

/-- **A server without the first block is reported with a prefix.** -/
theorem hole_is_counted :
    matchLongestPrefix holedIndex [1, 2] 0 = some 1 ∧ IsLongestPrefix holedIndex [1, 2] 0 0 := by
  refine ⟨by decide, ?_⟩
  have hzero : ([1, 2].takeWhile (lists holedIndex 0)).length = 0 := by decide
  exact hzero ▸ isLongestPrefix_takeWhile

/-- Three blocks are added to an LRU of two: the last two are in it, and are reported. -/
theorem cached_prefix_reported_overfull :
    ∃ n, matchLongestPrefix ([Call.add [1, 2, 3] ⟨0, 2⟩].foldl Indexer.call (newIndexer 2 Nat.two_pos)) [2, 3, 4] 0 =
      some n ∧ 2 ≤ n :=
  cached_prefix_reported 2 Nat.two_pos [.add [1, 2, 3] ⟨0, 2⟩] [2, 3, 4] 0 2 Nat.two_pos (by decide) fun hash hmem => by
    rcases List.mem_pair.mp hmem with rfl | rfl
    · exact ⟨_, rfl, by decide⟩
    · exact ⟨_, rfl, by decide⟩

end InferenceScheduler.PrefixCache
