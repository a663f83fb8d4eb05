/-
The allowlist of the routing sidecar (`sidecar/proxy/allowlist.go`). A header
string is reduced to its host by `net.SplitHostPort`, which splits at the last
colon, takes brackets off and does not look at the port; a string it refuses is
looked up whole. A Go string is the list of its bytes, each written as the
character of that code.
-/
import InferenceScheduler.Lib.Text
import Mathlib.Data.Finset.Basic

namespace InferenceScheduler.Sidecar

abbrev GoString := List Char

/-! ## net.SplitHostPort -/

/-- Why `net.SplitHostPort` refuses a string. -/
inductive AddrError
  | missingPort
  | tooManyColons
  | missingBracket
  | unexpectedBracket
  deriving DecidableEq, Repr

/-- No bracket outside the ones around the host: the last checks of `net.SplitHostPort`. -/
def checkBrackets (afterOpen afterClose host port : GoString) : Except AddrError (GoString × GoString) :=
  if '[' ∈ afterOpen ∨ ']' ∈ afterClose then .error .unexpectedBracket else .ok (host, port)

/-- `net.SplitHostPort`. -/
def splitHostPort (hostport : GoString) : Except AddrError (GoString × GoString) :=
  match cutLast ':' hostport with
  | none => .error .missingPort
  | some (before, port) =>
    if hostport.head? = some '[' then
      -- the first `]` has to stand right before the last colon
      match cutFirst ']' hostport with
      | none => .error .missingBracket
      | some (opened, after) =>
        if after = [] then .error .missingPort
        else if opened.length + 1 = before.length then
          checkBrackets hostport.tail after opened.tail port
        else if after.head? = some ':' then .error .tooManyColons
        else .error .missingPort
    else if ':' ∈ before then .error .tooManyColons
    else checkBrackets hostport hostport before port

/-- `normalizeHostPort`: the host, or the whole string when it does not
split. -/
def normalizeHostPort (hostPort : GoString) : GoString :=
  match splitHostPort hostPort with
  | .ok (host, _) => host
  | .error _ => hostPort

/-! ## The allowlist -/

/-- The characters of host names, IPv4 and IPv6 addresses. -/
def isPlainChar (c : Char) : Bool := c.isAlphanum || c = '-' || c = '.' || c = '_' || c = ':'

/-- A plain host name or IP address. -/
def Plain (host : GoString) : Prop := host ≠ [] ∧ ∀ c ∈ host, isPlainChar c

instance (host : GoString) : Decidable (Plain host) :=
  decidable_of_iff (host ≠ [] ∧ host.all isPlainChar = true) (and_congr_right fun _ => List.all_eq_true)

/-- A pod of the pool. An address or name it has is plain. -/
structure Pod where
  podIP : GoString
  name : GoString
  plain_podIP : podIP ≠ [] → Plain podIP
  plain_name : name ≠ [] → Plain name

def insertNonempty (targets : Finset GoString) (host : GoString) : Finset GoString :=
  if host ≠ [] then insert host targets else targets

def addPodToAllowlist (targets : Finset GoString) (pod : Pod) : Finset GoString :=
  insertNonempty (insertNonempty targets pod.podIP) pod.name

/-- `rebuildAllowlist`, over the pods of all informers. -/
def rebuildAllowlist (pods : List Pod) : Finset GoString :=
  pods.foldl (fun targets pod => if pod.podIP ≠ [] then addPodToAllowlist targets pod else targets) ∅

variable {host s port : GoString}

theorem plain_insertNonempty {targets : Finset GoString} (h : ∀ host ∈ targets, Plain host)
    (hp : host ≠ [] → Plain host) : ∀ host' ∈ insertNonempty targets host, Plain host' := by
  unfold insertNonempty
  split
  · rename_i hne
    exact (Finset.forall_mem_insert ..).mpr ⟨hp hne, h⟩
  · exact h

theorem plain_rebuildAllowlist (pods : List Pod) : ∀ host ∈ rebuildAllowlist pods, Plain host := by
  refine List.foldlRecOn pods _ (motive := fun targets => ∀ host ∈ targets, Plain host)
    (fun _ h => absurd h (Finset.notMem_empty _)) fun targets h pod _ => ?_
  split
  · exact plain_insertNonempty (plain_insertNonempty h pod.plain_podIP) pod.plain_name
  · exact h

/-- `AllowlistValidator`, as far as a check reads it. -/
structure AllowlistValidator where
  enabled : Bool
  allowedTargets : Finset GoString
  plain : ∀ host ∈ allowedTargets, Plain host

def AllowlistValidator.isAllowed (av : AllowlistValidator) (hostPort : GoString) : Bool :=
  if !av.enabled then true else normalizeHostPort hostPort ∈ av.allowedTargets

/-! ## The shapes of accepted strings -/

/-- No bracket in the text. -/
def NoBracket (s : GoString) : Prop := '[' ∉ s ∧ ']' ∉ s

theorem Plain.noBracket (h : Plain host) : NoBracket host :=
  ⟨fun hm => absurd (h.2 _ hm) (by decide), fun hm => absurd (h.2 _ hm) (by decide)⟩

theorem NoBracket.of_append {a b : GoString} (h : NoBracket (a ++ b)) : NoBracket b :=
  ⟨fun hm => h.1 (List.mem_append_right _ hm), fun hm => h.2 (List.mem_append_right _ hm)⟩

/-- How a string whose host is plain reads to `net.SplitHostPort`. -/
inductive Shape (s : GoString) : Prop
  /-- A name, looked up whole. -/
  | name (h : Plain s) (hn : normalizeHostPort s = s) (hc : ':' ∉ s)
  /-- An address of several groups, looked up whole: it has too many colons. -/
  | address {front group : GoString} (h : Plain s) (hs : s = front ++ ':' :: group)
      (hg : ':' ∉ group) (hf : ':' ∈ front)
  /-- A name and a port, which may be any text without colons and brackets. -/
  | withPort {port : GoString} (h : Plain (normalizeHostPort s)) (hs : s = normalizeHostPort s ++ ':' :: port)
      (hn : ':' ∉ normalizeHostPort s) (hp : ':' ∉ port) (hb : NoBracket port)
  /-- A bracketed host and a port. -/
  | bracketed {port : GoString} (h : Plain (normalizeHostPort s))
      (hs : s = '[' :: normalizeHostPort s ++ ']' :: ':' :: port) (hp : ':' ∉ port) (hb : NoBracket port)

theorem Shape.of_plain (h : Plain s) (hn : normalizeHostPort s = s)
    (hs : ∀ front group, s = front ++ ':' :: group → ':' ∉ group → ':' ∈ front) : Shape s := by
  cases hc : cutLast ':' s with
  | none => exact .name h hn (cutLast_eq_none.mp hc)
  | some p =>
    obtain ⟨he, hg⟩ := cutLast_eq_some.mp hc
    exact .address h he hg (hs _ _ he hg)

theorem checkBrackets_ok {o a : GoString} {p : GoString × GoString}
    (h : checkBrackets o a host port = .ok p) : '[' ∉ o ∧ ']' ∉ a ∧ p = (host, port) := by
  unfold checkBrackets at h
  split at h
  · cases h
  · rename_i hb
    rw [not_or] at hb
    cases h
    exact ⟨hb.1, hb.2, rfl⟩

theorem normalizeHostPort_of_ok (h : splitHostPort s = .ok (host, port)) : normalizeHostPort s = host := by
  rw [normalizeHostPort, h]

theorem normalizeHostPort_of_error {e : AddrError} (h : splitHostPort s = .error e) : normalizeHostPort s = s := by
  rw [normalizeHostPort, h]

theorem splitHostPort_ok (h : splitHostPort s = .ok (host, port)) : ':' ∉ port ∧ NoBracket port ∧
      (s = host ++ ':' :: port ∧ ':' ∉ host ∨ s = '[' :: host ++ ']' :: ':' :: port) := by
  unfold splitHostPort at h
  split at h
  · cases h
  · rename_i before p hc
    obtain ⟨hs, hp⟩ := cutLast_eq_some.mp hc
    split at h
    · rename_i hhead
      split at h
      · cases h
      · rename_i opened after ho
        obtain ⟨hs', hopen⟩ := cutFirst_eq_some.mp ho
        split at h
        · cases h
        · split at h
          · rename_i hlen
            obtain ⟨hl, hr, he⟩ := checkBrackets_ok h
            cases he
            -- both decompositions put the colon right after the bracket
            have hsplit : (opened ++ [']']) ++ after = before ++ ':' :: port := by
              rw [List.append_assoc, List.singleton_append, ← hs', ← hs]
            obtain ⟨-, rfl⟩ := List.append_inj hsplit (by simpa using hlen)
            cases opened with
            | nil =>
              rw [hs'] at hhead
              cases hhead
            | cons x opened =>
              have hx : x = '[' := by
                rw [hs'] at hhead
                exact Option.some.inj hhead
              subst hx
              rw [hs', List.tail_append_of_ne_nil (by simp), List.tail_cons] at hl
              refine ⟨hp, ⟨fun hm => hl ?_, fun hm => hr (List.mem_cons_of_mem _ hm)⟩, .inr ?_⟩
              · exact List.mem_append_right _ (List.mem_cons_of_mem _ (List.mem_cons_of_mem _ hm))
              · rw [hs', List.tail_cons]
          · split at h <;> cases h
    · split at h
      · cases h
      · rename_i hcolon
        obtain ⟨hl, hr, he⟩ := checkBrackets_ok h
        cases he
        rw [hs] at hl hr
        exact ⟨hp, ⟨fun hm => hl (List.mem_append_right _ (List.mem_cons_of_mem _ hm)),
          fun hm => hr (List.mem_append_right _ (List.mem_cons_of_mem _ hm))⟩, .inl ⟨hs, hcolon⟩⟩

theorem splitHostPort_withPort (hp : ':' ∉ port) (hn : ':' ∉ host)
    (hb : NoBracket (host ++ ':' :: port)) : splitHostPort (host ++ ':' :: port) = .ok (host, port) := by
  have hhead : (host ++ ':' :: port).head? ≠ some '[' := fun h => hb.1 (List.mem_of_head? h)
  simp only [splitHostPort, cutLast_append_cons hp, if_neg hhead, if_neg hn, checkBrackets, hb.1, hb.2,
    or_self, if_false]

theorem shape_of_plain (h : Plain (normalizeHostPort s)) : Shape s := by
  cases hs : splitHostPort s with
  | ok p =>
    obtain ⟨host, port⟩ := p
    have hn := normalizeHostPort_of_ok hs
    obtain ⟨hp, hb, ⟨he, hc⟩ | he⟩ := splitHostPort_ok hs
    · exact .withPort h (hn ▸ he) (hn ▸ hc) hp hb
    · exact .bracketed h (hn ▸ he) hp hb
  | error e =>
    have hn := normalizeHostPort_of_error hs
    rw [hn] at h
    refine Shape.of_plain h hn fun front group he hg => ?_
    by_contra hf
    have hok := splitHostPort_withPort hg hf (he ▸ h.noBracket)
    rw [← he, hs] at hok
    cases hok

end InferenceScheduler.Sidecar
