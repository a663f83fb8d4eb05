/-
The endpoint candidates of a request: the endpoints of the datastore, or those
of them whose address is in the subset the request's metadata lists, and the key
under which the cache keeps them.

Locator and cache key read the same metadata, each in its own way. `Clash` lists
the pairs of subsets that have one key and do not select the same endpoints: the
key joins strings with a bar that the strings can hold themselves, and is also
that of a single string. Lists of strings without a bar that are no reserved key
do not clash (`not_clash_of_plain`).
-/
import InferenceScheduler.Lib.Json
import InferenceScheduler.Lib.Text
import Mathlib.Data.List.Sort

namespace InferenceScheduler.RequestControl

/-- The metadata of a request; a request may come without. -/
abbrev Metadata (N : Type) := Option (List (Text × Json N))

/-- An endpoint of the datastore, by its key; one without metadata has no
address. -/
structure Endpoint where
  name : Text
  ipAddress : Option Text
  deriving DecidableEq, Repr

def subsetFilterNamespace : Text := "envoy.lb.subset_hint".toList
def subsetFilterKey : Text := "x-gateway-destination-endpoint-subset".toList
def defaultCacheKey : Text := "__default__".toList
def emptySubsetCacheKey : Text := "__explicit_empty__".toList

section Code

variable {N : Type}

/-- The list of endpoints in the metadata, where both functions look for it. -/
def endpointSubsetList (requestMetadata : Metadata N) : Option (List (Json N)) :=
  match requestMetadata with
  | none => none
  | some fields =>
    match SortedMap.get? fields subsetFilterNamespace with
    | some (.object subsetMap) =>
      match SortedMap.get? subsetMap subsetFilterKey with
      | some (.array endpoints) => some endpoints
      | _ => none
    | _ => none

/-- The assertion `v.(string)`. -/
def stringOf : Json N → Option Text
  | .string s => some s
  | _ => none

/-- The address of `<address>:<port>`. -/
def addressOf (endpoint : Text) : Text :=
  match cutLast ':' endpoint with
  | some (address, _) => address
  | none => endpoint

/-- `DatastoreEndpointCandidates.Locate`. -/
def locate (disableEndpointSubsetFilter : Bool) (datastore : List Endpoint) (requestMetadata : Metadata N) :
    List Endpoint :=
  if disableEndpointSubsetFilter then datastore
  else
    match endpointSubsetList requestMetadata with
    | none => datastore
    | some [] => []
    | some list =>
      let endpoints := (list.filterMap stringOf).map addressOf
      datastore.filter fun pm => pm.ipAddress.any fun ip => ip ∈ endpoints

/-- `strings.Join(endpoints, "|")` after `sort.Strings(endpoints)`. -/
def joinSorted (endpoints : List Text) : Text := ['|'].intercalate (endpoints.insertionSort (· ≤ ·))

def generateCacheKey (reqMetadata : Metadata N) : Text :=
  match endpointSubsetList reqMetadata with
  | none => defaultCacheKey
  | some [] => emptySubsetCacheKey
  | some [endpoint] =>
    match stringOf endpoint with
    | some s => s
    | none => defaultCacheKey
  | some list => joinSorted (list.filterMap stringOf)

end Code

/-! ## What a request asks for -/

/-- The subset a request's metadata lists. -/
inductive Subset
  | all
  | empty
  /-- One element that is no string. -/
  | malformed
  | strings (endpoints : List Text)
  deriving DecidableEq, Repr

def subsetOf {N : Type} (m : Metadata N) : Subset :=
  match endpointSubsetList m with
  | none => .all
  | some [] => .empty
  | some [endpoint] =>
    match stringOf endpoint with
    | some s => .strings [s]
    | none => .malformed
  | some list => .strings (list.filterMap stringOf)

namespace Subset

def key : Subset → Text
  | .all | .malformed => defaultCacheKey
  | .empty => emptySubsetCacheKey
  | .strings endpoints => joinSorted endpoints

/-- The endpoint belongs to the subset. -/
def selects : Subset → Endpoint → Bool
  | .all, _ => true
  | .empty, _ | .malformed, _ => false
  | .strings endpoints, e => e.ipAddress.any fun ip => ip ∈ endpoints.map addressOf

/-- Two lists of endpoints have the same addresses. -/
def SameAddresses (endpoints endpoints' : List Text) : Prop :=
  endpoints.map addressOf ⊆ endpoints'.map addressOf ∧ endpoints'.map addressOf ⊆ endpoints.map addressOf

instance (a b : List Text) : Decidable (SameAddresses a b) := inferInstanceAs (Decidable (_ ∧ _))

/-- The parts between the bars of the strings, in the order of the strings. -/
def pieces (endpoints : List Text) : List Text := (endpoints.insertionSort (· ≤ ·)).flatMap (List.splitOn '|')

/-- A reserved key that is also the key of an ill-formed list or of a list with just
this string; and lists of other addresses whose strings have the same parts, or of
which one has no string and the other only the empty one. -/
def Clash : Subset → Subset → Prop
  | .all, .malformed | .malformed, .all => True
  | .all, .strings endpoints | .strings endpoints, .all => endpoints = [defaultCacheKey]
  | .malformed, .strings endpoints | .strings endpoints, .malformed => endpoints = [defaultCacheKey]
  | .empty, .strings endpoints | .strings endpoints, .empty => endpoints = [emptySubsetCacheKey]
  | .strings endpoints, .strings endpoints' =>
    (pieces endpoints = pieces endpoints' ∨ endpoints = [] ∧ endpoints' = [[]] ∨ endpoints = [[]] ∧ endpoints' = []) ∧
      ¬ SameAddresses endpoints endpoints'
  | .all, .all | .all, .empty | .empty, .all | .empty, .empty | .empty, .malformed | .malformed, .empty
  | .malformed, .malformed => False

instance (a b : Subset) : Decidable (Clash a b) := by
  cases a <;> cases b <;> unfold Clash <;> infer_instance

/-- Some endpoint is in one of the subsets only. -/
def Differ (a b : Subset) : Prop := ∃ e, a.selects e ≠ b.selects e

end Subset

/-! ## Both functions read the subset -/

section Read

variable {N : Type}

theorem generateCacheKey_eq (m : Metadata N) : generateCacheKey m = (subsetOf m).key := by
  unfold generateCacheKey subsetOf
  split
  · rfl
  · rfl
  · split
    · simp [Subset.key, joinSorted]
    · rfl
  · rfl

theorem mem_locate {ds : List Endpoint} {m : Metadata N} {e : Endpoint} :
    e ∈ locate false ds m ↔ e ∈ ds ∧ (subsetOf m).selects e := by
  unfold locate subsetOf
  rw [if_neg (by simp)]
  cases endpointSubsetList m with
  | none => simp [Subset.selects]
  | some list =>
    match list with
    | [] => simp [Subset.selects]
    | [v] => cases hv : stringOf v <;> simp [Subset.selects, hv]
    | v :: w :: list => simp [Subset.selects]

end Read

/-! ## Joined texts -/

theorem joinSorted_eq_iff {endpoints : List Text} {k : Text} (hk : k ≠ []) (hsep : '|' ∉ k) :
    joinSorted endpoints = k ↔ endpoints = [k] := by
  constructor
  · intro h
    have hperm := List.perm_insertionSort (· ≤ ·) endpoints
    unfold joinSorted at h
    match hsorted : endpoints.insertionSort (· ≤ ·) with
    | [] =>
      rw [hsorted] at h
      exact absurd h.symm hk
    | [s] =>
      rw [hsorted, List.intercalate_singleton] at h
      rw [hsorted, h] at hperm
      exact List.perm_singleton.mp hperm.symm
    | s :: t :: list =>
      rw [hsorted, List.intercalate_cons_cons] at h
      exact absurd (by simp [← h]) hsep
  · rintro rfl
    simp [joinSorted]

theorem joinSorted_eq_nil {endpoints : List Text} : joinSorted endpoints = [] ↔ endpoints = [] ∨ endpoints = [[]] := by
  constructor
  · intro h
    have hperm := List.perm_insertionSort (· ≤ ·) endpoints
    unfold joinSorted at h
    match hsorted : endpoints.insertionSort (· ≤ ·) with
    | [] =>
      rw [hsorted] at hperm
      exact .inl (List.nil_perm.mp hperm)
    | [s] =>
      rw [hsorted, List.intercalate_singleton] at h
      rw [hsorted, h] at hperm
      exact .inr (List.perm_singleton.mp hperm.symm)
    | s :: t :: list =>
      rw [hsorted, List.intercalate_cons_cons] at h
      simp at h
  · rintro (rfl | rfl) <;> simp [joinSorted]

/-- The joined text, cut at its bars, is the parts of the strings. -/
theorem splitOn_joinSorted {endpoints : List Text} (h : endpoints ≠ []) :
    (joinSorted endpoints).splitOn '|' = Subset.pieces endpoints := by
  have hsorted : endpoints.insertionSort (· ≤ ·) ≠ [] := fun hnil =>
    h (List.nil_perm.mp (hnil ▸ List.perm_insertionSort (· ≤ ·) endpoints))
  unfold joinSorted Subset.pieces
  generalize endpoints.insertionSort (· ≤ ·) = sorted at hsorted ⊢
  induction sorted with
  | nil => exact absurd rfl hsorted
  | cons s rest ih =>
    cases rest with
    | nil => simp
    | cons s' rest =>
      rw [List.intercalate_cons_cons, List.append_assoc, List.singleton_append, List.flatMap_cons, ← ih (by simp)]
      exact List.splitOnP_append_cons _ _ (by simp)

theorem pieces_eq_nil {endpoints : List Text} : Subset.pieces endpoints = [] ↔ endpoints = [] := by
  refine ⟨fun h => by_contra fun hne => ?_, fun h => by rw [h]; rfl⟩
  rw [← splitOn_joinSorted hne] at h
  exact List.splitOn_ne_nil _ _ h

/-- **When joined lists coincide.** -/
theorem joinSorted_eq_joinSorted {a b : List Text} : joinSorted a = joinSorted b ↔
    Subset.pieces a = Subset.pieces b ∨ a = [] ∧ b = [[]] ∨ a = [[]] ∧ b = [] := by
  constructor
  · intro h
    by_cases ha : a = []
    · subst ha
      rcases joinSorted_eq_nil.mp h.symm with rfl | rfl
      · exact .inl rfl
      · exact .inr (.inl ⟨rfl, rfl⟩)
    · by_cases hb : b = []
      · subst hb
        exact .inr (.inr ⟨(joinSorted_eq_nil.mp h).resolve_left ha, rfl⟩)
      · rw [← splitOn_joinSorted ha, ← splitOn_joinSorted hb, h]
        exact .inl rfl
  · rintro (h | ⟨rfl, rfl⟩ | ⟨rfl, rfl⟩)
    · by_cases ha : a = []
      · rw [ha, pieces_eq_nil.mp (h.symm.trans (pieces_eq_nil.mpr ha))]
      · have hb : b ≠ [] := fun hb => ha (pieces_eq_nil.mp (h.trans (pieces_eq_nil.mpr hb)))
        calc joinSorted a = List.intercalate ['|'] ((joinSorted a).splitOn '|') := (List.intercalate_splitOn _).symm
          _ = List.intercalate ['|'] ((joinSorted b).splitOn '|') := by
            rw [splitOn_joinSorted ha, h, splitOn_joinSorted hb]
          _ = joinSorted b := List.intercalate_splitOn _
    · rfl
    · rfl

namespace Subset

theorem sameAddresses_of_perm {a b : List Text} (h : a.Perm b) : SameAddresses a b :=
  ⟨fun _ hip => (h.map _).mem_iff.mp hip, fun _ hip => (h.map _).mem_iff.mpr hip⟩

/-! ## Subsets that differ -/

theorem Differ.symm {a b : Subset} : Differ a b → Differ b a := fun ⟨e, he⟩ => ⟨e, he.symm⟩

theorem not_differ_self (a : Subset) : ¬ Differ a a := fun ⟨_, he⟩ => he rfl

theorem differ_all {b : Subset} (hb : b ≠ .all) : Differ .all b := by
  refine ⟨⟨[], none⟩, ?_⟩
  cases b <;> simp_all [selects]

theorem differ_singleton {a : Subset} (ha : ∀ e, a.selects e = false) (s : Text) : Differ a (.strings [s]) := by
  refine ⟨⟨[], some (addressOf s)⟩, ?_⟩
  rw [ha]
  simp [selects]

theorem differ_strings {a b : List Text} : Differ (.strings a) (.strings b) ↔ ¬ SameAddresses a b := by
  constructor
  · rintro ⟨e, he⟩ ⟨hab, hba⟩
    refine he (Bool.eq_iff_iff.mpr ?_)
    simp only [selects, Option.any_eq_true, decide_eq_true_eq]
    exact exists_congr fun ip => and_congr_right fun _ => ⟨fun h => hab h, fun h => hba h⟩
  · intro h
    have hmem : ∃ ip, ¬ (ip ∈ a.map addressOf ↔ ip ∈ b.map addressOf) := by
      by_contra hn
      rw [not_exists] at hn
      exact h ⟨fun ip => (not_not.mp (hn ip)).mp, fun ip => (not_not.mp (hn ip)).mpr⟩
    obtain ⟨ip, hip⟩ := hmem
    refine ⟨⟨[], some ip⟩, fun he => hip ?_⟩
    simpa [selects] using Bool.eq_iff_iff.mp he

theorem reserved_iff {a : Subset} {k : Text} (hkey : a.key = k) (hk : k ≠ []) (hsep : '|' ∉ k)
    (hdiffer : ∀ s, Differ a (.strings [s])) (endpoints : List Text) :
    endpoints = [k] ↔ a.key = (strings endpoints).key ∧ Differ a (.strings endpoints) := by
  rw [hkey, ← joinSorted_eq_iff hk hsep]
  refine ⟨fun h => ⟨h.symm, ?_⟩, fun h => h.1.symm⟩
  rw [(joinSorted_eq_iff hk hsep).mp h]
  exact hdiffer k

/-- **What a clash is**: one key, and endpoints that are in one subset only. -/
theorem clash_iff (a b : Subset) : Clash a b ↔ a.key = b.key ∧ Differ a b := by
  have hcomm : (a.key = b.key ∧ Differ a b) ↔ (b.key = a.key ∧ Differ b a) :=
    and_congr eq_comm ⟨Differ.symm, Differ.symm⟩
  have hkeys : defaultCacheKey ≠ emptySubsetCacheKey := by decide
  have hall := reserved_iff (a := .all) rfl (by decide) (by decide) fun s => differ_all (by simp)
  have hmalformed := reserved_iff (a := .malformed) rfl (by decide) (by decide) (differ_singleton fun _ => rfl)
  have hempty := reserved_iff (a := .empty) rfl (by decide) (by decide) (differ_singleton fun _ => rfl)
  match a, b with
  | .all, .all | .empty, .empty | .malformed, .malformed => exact iff_of_false id fun h => not_differ_self _ h.2
  | .all, .malformed => exact iff_of_true trivial ⟨rfl, differ_all (by simp)⟩
  | .malformed, .all => exact iff_of_true trivial ⟨rfl, (differ_all (by simp)).symm⟩
  | .all, .empty | .malformed, .empty => exact iff_of_false id fun h => hkeys h.1
  | .empty, .all | .empty, .malformed => exact iff_of_false id fun h => hkeys h.1.symm
  | .all, .strings endpoints => exact hall endpoints
  | .malformed, .strings endpoints => exact hmalformed endpoints
  | .empty, .strings endpoints => exact hempty endpoints
  | .strings endpoints, .all => exact (hall endpoints).trans hcomm.symm
  | .strings endpoints, .malformed => exact (hmalformed endpoints).trans hcomm.symm
  | .strings endpoints, .empty => exact (hempty endpoints).trans hcomm.symm
  | .strings a, .strings b => exact and_congr joinSorted_eq_joinSorted.symm differ_strings.symm

/-- No list, an empty list, or a list with a string, none with a bar and none a
reserved key. -/
def Plain : Subset → Prop
  | .all | .empty => True
  | .malformed => False
  | .strings endpoints => endpoints ≠ [] ∧ ∀ s ∈ endpoints, '|' ∉ s ∧ s ≠ defaultCacheKey ∧ s ≠ emptySubsetCacheKey

theorem pieces_of_plain {endpoints : List Text} (h : ∀ s ∈ endpoints, '|' ∉ s) :
    pieces endpoints = endpoints.insertionSort (· ≤ ·) := by
  have hsorted : ∀ s ∈ endpoints.insertionSort (· ≤ ·), '|' ∉ s := fun s hs =>
    h s ((List.perm_insertionSort (· ≤ ·) endpoints).mem_iff.mp hs)
  unfold pieces
  generalize endpoints.insertionSort (· ≤ ·) = sorted at hsorted ⊢
  induction sorted with
  | nil => rfl
  | cons s rest ih =>
    obtain ⟨hs, hrest⟩ := List.forall_mem_cons.mp hsorted
    rw [List.flatMap_cons, ih hrest, List.splitOn_eq_singleton hs, List.singleton_append]

/-- **Plain subsets do not clash.** -/
theorem not_clash_of_plain {a b : Subset} (ha : a.Plain) (hb : b.Plain) : ¬ Clash a b := by
  have hreserved : ∀ endpoints, Plain (.strings endpoints) → endpoints ≠ [defaultCacheKey] ∧
      endpoints ≠ [emptySubsetCacheKey] := by
    rintro endpoints ⟨-, h⟩
    constructor <;> rintro rfl
    · exact (h _ List.mem_cons_self).2.1 rfl
    · exact (h _ List.mem_cons_self).2.2 rfl
  match a, b with
  | .all, .all | .all, .empty | .empty, .all | .empty, .empty => exact id
  | .malformed, _ => exact ha.elim
  | .all, .malformed | .empty, .malformed | .strings _, .malformed => exact hb.elim
  | .all, .strings endpoints => exact (hreserved endpoints hb).1
  | .empty, .strings endpoints => exact (hreserved endpoints hb).2
  | .strings endpoints, .all => exact (hreserved endpoints ha).1
  | .strings endpoints, .empty => exact (hreserved endpoints ha).2
  | .strings a, .strings b =>
    rintro ⟨hsame | ⟨rfl, -⟩ | ⟨-, rfl⟩, hdiffer⟩
    · rw [pieces_of_plain fun s hs => (ha.2 s hs).1, pieces_of_plain fun s hs => (hb.2 s hs).1] at hsame
      refine hdiffer (sameAddresses_of_perm ?_)
      exact (List.perm_insertionSort (· ≤ ·) a).symm.trans (hsame ▸ List.perm_insertionSort (· ≤ ·) b)
    · exact ha.1 rfl
    · exact hb.1 rfl

end Subset

/-! ## Keys and candidates -/

/-- Two lists of endpoints are one set. -/
def SameSet (l l' : List Endpoint) : Prop := ∀ e, e ∈ l ↔ e ∈ l'

variable {N : Type}

/-- The key of the two requests is not one, or they have one set of candidates
in every datastore. -/
def KeySound (disable : Bool) (m m' : Metadata N) : Prop :=
  ∀ datastore, generateCacheKey m = generateCacheKey m' →
    SameSet (locate disable datastore m) (locate disable datastore m')

/-- The filter is off, or the two requests do not clash. -/
def NoClash (disable : Bool) (m m' : Metadata N) : Prop := disable ∨ ¬ (subsetOf m).Clash (subsetOf m')

instance (disable : Bool) (m m' : Metadata N) : Decidable (NoClash disable m m') := inferInstanceAs (Decidable (_ ∨ _))

/-- **When a key stands for one set of candidates.** -/
theorem keySound_iff (disable : Bool) (m m' : Metadata N) : KeySound disable m m' ↔ NoClash disable m m' := by
  unfold KeySound NoClash
  cases disable with
  | true => simp [locate, SameSet]
  | false =>
    rw [Subset.clash_iff, generateCacheKey_eq, generateCacheKey_eq]
    simp only [SameSet, mem_locate, Bool.false_eq_true, false_or, not_and]
    constructor
    · rintro h hkey ⟨e, he⟩
      have := h [e] hkey e
      simp only [List.mem_singleton, true_and] at this
      exact he (Bool.eq_iff_iff.mpr this)
    · intro h ds hkey e
      refine and_congr_right fun _ => Bool.eq_iff_iff.mp ?_
      by_contra hne
      exact h hkey ⟨e, hne⟩

end InferenceScheduler.RequestControl
