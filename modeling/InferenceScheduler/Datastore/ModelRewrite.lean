/-
The store of model rewrites (`datastore/modelrewritestore.go`). The rules are
kept in lists by the model they name, and one list for those that name none; an
update takes a rewrite's old rules out, appends the new ones and sorts by the
time of creation. The rules of one rewrite have the same time, and `sort.Slice`
need not keep the order of equal elements.
-/
import InferenceScheduler.Lib.Run
import Mathlib.Data.List.Sort

namespace InferenceScheduler.ModelRewrite

open Function (update update_apply)

/-! ## The store -/

/-- The models of its matches, and its targets with their weights. -/
structure Rule where
  modelMatches : List (Option String)
  targets : List (String × Int)
  deriving DecidableEq, Repr

/-- `InferenceModelRewrite`. -/
structure Rewrite where
  name : String
  creationTimestamp : Int
  rules : List Rule
  deriving DecidableEq, Repr

structure RewriteRuleWithMetadata where
  rule : Rule
  createTimestamp : Int
  parentRewriteName : String
  deriving DecidableEq, Repr

def Rule.isGeneric (r : Rule) : Bool := r.modelMatches = []

def Rule.exactModels (r : Rule) : List String := r.modelMatches.filterMap id

/-- A missing entry of `rulesByExactModelMatch` is an empty list. -/
structure Store where
  genericRules : List RewriteRuleWithMetadata := []
  rulesByExactModelMatch : String → List RewriteRuleWithMetadata := fun _ => []
  allReWrites : String → Option Rewrite := fun _ => none

namespace Store

def deleteInternal (ms : Store) (n : String) : Store :=
  match ms.allReWrites n with
  | none => ms
  | some _ =>
    { genericRules := ms.genericRules.filter fun r => r.parentRewriteName ≠ n
      rulesByExactModelMatch := fun model => (ms.rulesByExactModelMatch model).filter fun r => r.parentRewriteName ≠ n
      allReWrites := update ms.allReWrites n none }

def withMetadata (rewrite : Rewrite) (rule : Rule) : RewriteRuleWithMetadata :=
  { rule, createTimestamp := rewrite.creationTimestamp, parentRewriteName := rewrite.name }

/-- One round of the loop of `set` over the rules. -/
def addRule (rewrite : Rewrite) (ms : Store) (rule : Rule) : Store :=
  if rule.isGeneric then { ms with genericRules := ms.genericRules ++ [withMetadata rewrite rule] }
  else
    { ms with
      rulesByExactModelMatch := fun model =>
        if model ∈ rule.exactModels then ms.rulesByExactModelMatch model ++ [withMetadata rewrite rule]
        else ms.rulesByExactModelMatch model }

/-- `set` up to the sorting. -/
def insert (ms : Store) (rewrite : Rewrite) : Store :=
  let ms := if (ms.allReWrites rewrite.name).isSome then ms.deleteInternal rewrite.name else ms
  rewrite.rules.foldl (addRule rewrite)
    { ms with allReWrites := update ms.allReWrites rewrite.name (some rewrite) }

def getRule (ms : Store) (modelName : String) : Option (Rule × String) :=
  match ms.rulesByExactModelMatch modelName with
  | r :: _ => some (r.rule, r.parentRewriteName)
  | [] =>
    match ms.genericRules with
    | r :: _ => some (r.rule, r.parentRewriteName)
    | [] => none

/-- The list of a model, and of the rules without one. -/
def list (ms : Store) : Option String → List RewriteRuleWithMetadata
  | none => ms.genericRules
  | some model => ms.rulesByExactModelMatch model

end Store

/-- An operation. `sorted` is what `sort.Slice` makes of each list. -/
inductive Op
  | set (rewrite : Rewrite) (sorted : Option String → List RewriteRuleWithMetadata)
  | delete (name : String)

def step (ms : Store) : Op → Option Store
  | .set rewrite sorted =>
    some { ms.insert rewrite with
      genericRules := sorted none
      rulesByExactModelMatch := fun model => sorted (some model) }
  | .delete name => some (ms.deleteInternal name)

/-- `sort.Slice` returns a sorted permutation. -/
def Sorts (ms : Store) : Op → Prop
  | .set rewrite sorted => ∀ key, (sorted key).Perm ((ms.insert rewrite).list key) ∧
      (sorted key).Pairwise fun a b => a.createTimestamp ≤ b.createTimestamp
  | .delete _ => True

/-! ## The lists and the rewrites -/

/-- The rule belongs to the list. -/
def Rule.eligible (r : Rule) : Option String → Bool
  | none => r.isGeneric
  | some model => model ∈ r.exactModels

variable {model : String}

theorem Rule.not_generic {r : Rule} (h : model ∈ r.exactModels) : r.isGeneric = false := by
  simp only [isGeneric, decide_eq_false_iff_not]
  intro hnil
  simp [exactModels, hnil] at h

@[simp] theorem Store.addRule_list (rewrite : Rewrite) (ms : Store) (rule : Rule) (key : Option String) :
    (Store.addRule rewrite ms rule).list key =
      ms.list key ++ (if rule.eligible key then [Store.withMetadata rewrite rule] else []) := by
  unfold Store.addRule
  cases key with
  | none => cases h : rule.isGeneric <;> simp [Store.list, Rule.eligible, h]
  | some model =>
    cases h : rule.isGeneric with
    | true =>
      have hnot : model ∉ rule.exactModels := fun hm => by simp [Rule.not_generic hm] at h
      simp [Store.list, Rule.eligible, hnot]
    | false => by_cases hm : model ∈ rule.exactModels <;> simp [Store.list, Rule.eligible, hm]

theorem Store.foldl_addRule (rewrite : Rewrite) : ∀ (rules : List Rule) (ms : Store),
    (∀ key, (rules.foldl (Store.addRule rewrite) ms).list key =
      ms.list key ++ (rules.filter (·.eligible key)).map (Store.withMetadata rewrite)) ∧
    (rules.foldl (Store.addRule rewrite) ms).allReWrites = ms.allReWrites
  | [], ms => by simp
  | rule :: rules, ms => by
    obtain ⟨hlist, hall⟩ := foldl_addRule rewrite rules (Store.addRule rewrite ms rule)
    refine ⟨fun key => ?_, ?_⟩
    · rw [List.foldl_cons, hlist, Store.addRule_list]
      by_cases h : rule.eligible key <;> simp [h]
    · rw [List.foldl_cons, hall]
      unfold Store.addRule
      split <;> rfl

/-- Each list has the rules of the stored rewrites that belong to it, sorted. -/
structure Inv (ms : Store) : Prop where
  named : ∀ name rewrite, ms.allReWrites name = some rewrite → rewrite.name = name
  mem : ∀ key r, r ∈ ms.list key ↔ ∃ rewrite, ms.allReWrites r.parentRewriteName = some rewrite ∧
    ∃ rule ∈ rewrite.rules, rule.eligible key ∧ r = Store.withMetadata rewrite rule
  sorted : ∀ key, (ms.list key).Pairwise fun a b => a.createTimestamp ≤ b.createTimestamp

variable {ms : Store}

theorem Inv.deleteInternal (h : Inv ms) (n : String) : Inv (ms.deleteInternal n) := by
  unfold Store.deleteInternal
  split
  · exact h
  · have hlist : ∀ key, Store.list ⟨ms.genericRules.filter fun r => r.parentRewriteName ≠ n,
        fun model => (ms.rulesByExactModelMatch model).filter fun r => r.parentRewriteName ≠ n,
        update ms.allReWrites n none⟩ key = (ms.list key).filter fun r => r.parentRewriteName ≠ n := by
      intro key
      cases key <;> rfl
    refine ⟨fun name rewrite hname => ?_, fun key r => ?_, fun key => ?_⟩
    · simp only [update_apply] at hname
      split at hname
      · cases hname
      · exact h.named name rewrite hname
    · rw [hlist, List.mem_filter, h.mem]
      by_cases hn : r.parentRewriteName = n <;> simp [hn]
    · rw [hlist]
      exact (h.sorted key).filter _

theorem Store.deleteInternal_self (ms : Store) (n : String) : (ms.deleteInternal n).allReWrites n = none := by
  unfold Store.deleteInternal
  split
  · next h => exact h
  · simp

theorem Store.deleteInternal_of_ne {n name : String} (h : name ≠ n) :
    (ms.deleteInternal n).allReWrites name = ms.allReWrites name := by
  unfold Store.deleteInternal
  split <;> simp [h]

/-- The store in which `set` puts the new rules: it has none of the old ones. -/
theorem Inv.insert_mem (h : Inv ms) (rewrite : Rewrite) :
    (ms.insert rewrite).allReWrites = update ms.allReWrites rewrite.name (some rewrite) ∧
      ∀ key r, r ∈ (ms.insert rewrite).list key ↔
        ∃ rw', (ms.insert rewrite).allReWrites r.parentRewriteName = some rw' ∧
          ∃ rule ∈ rw'.rules, rule.eligible key ∧ r = Store.withMetadata rw' rule := by
  obtain ⟨ms', hms'⟩ : ∃ ms', ms' = if (ms.allReWrites rewrite.name).isSome then ms.deleteInternal rewrite.name else ms :=
    ⟨_, rfl⟩
  have hinv : Inv ms' ∧ ms'.allReWrites rewrite.name = none ∧
      ∀ name, name ≠ rewrite.name → ms'.allReWrites name = ms.allReWrites name := by
    rw [hms']
    split
    · exact ⟨h.deleteInternal _, Store.deleteInternal_self _ _, fun name hne => Store.deleteInternal_of_ne hne⟩
    · next hnone => exact ⟨h, by simpa using hnone, fun name _ => rfl⟩
  obtain ⟨hinv, hnone, hother⟩ := hinv
  have hinsert : ms.insert rewrite = rewrite.rules.foldl (Store.addRule rewrite)
      { ms' with allReWrites := update ms'.allReWrites rewrite.name (some rewrite) } := by
    rw [hms']
    rfl
  obtain ⟨hlist, hall⟩ := Store.foldl_addRule rewrite rewrite.rules
    { ms' with allReWrites := update ms'.allReWrites rewrite.name (some rewrite) }
  rw [← hinsert] at hlist hall
  have hall' : (ms.insert rewrite).allReWrites = update ms.allReWrites rewrite.name (some rewrite) := by
    rw [hall]
    funext name
    by_cases hn : name = rewrite.name
    · simp [hn]
    · simp [hn, hother name hn]
  have hkeep : ∀ key, Store.list { ms' with allReWrites := update ms'.allReWrites rewrite.name (some rewrite) } key =
      ms'.list key := fun key => by cases key <;> rfl
  refine ⟨hall', fun key r => ?_⟩
  rw [hlist, hkeep, List.mem_append, hinv.mem, hall]
  constructor
  · rintro (⟨rw', hrw', hrule⟩ | hnew)
    · refine ⟨rw', ?_, hrule⟩
      have hne : r.parentRewriteName ≠ rewrite.name := by
        intro he
        rw [he, hnone] at hrw'
        cases hrw'
      simpa [hne] using hrw'
    · obtain ⟨rule, hrule, rfl⟩ := List.mem_map.mp hnew
      obtain ⟨hrule, helig⟩ := List.mem_filter.mp hrule
      exact ⟨rewrite, by simp [Store.withMetadata], rule, hrule, helig, rfl⟩
  · rintro ⟨rw', hrw', rule, hrule, helig, hr⟩
    by_cases hn : r.parentRewriteName = rewrite.name
    · obtain rfl : rewrite = rw' := by simpa [hn] using hrw'
      refine .inr (List.mem_map.mpr ⟨rule, List.mem_filter.mpr ⟨hrule, helig⟩, hr.symm⟩)
    · exact .inl ⟨rw', by simpa [hn] using hrw', rule, hrule, helig, hr⟩

theorem inv_step {ms' : Store} {op : Op} (h : Inv ms) (hok : Sorts ms op) (hstep : step ms op = some ms') :
    Inv ms' := by
  cases op with
  | delete name =>
    cases hstep
    exact h.deleteInternal name
  | set rewrite sorted =>
    cases hstep
    obtain ⟨hall, hmem⟩ := h.insert_mem rewrite
    have hlist : ∀ key, Store.list { ms.insert rewrite with
        genericRules := sorted none, rulesByExactModelMatch := fun model => sorted (some model) } key = sorted key :=
      fun key => by cases key <;> rfl
    refine ⟨fun name rw' hname => ?_, fun key r => ?_, fun key => ?_⟩
    · simp only [hall, update_apply] at hname
      split at hname
      · next he =>
        cases hname
        exact he.symm
      · exact h.named name rw' hname
    · rw [hlist, (hok key).1.mem_iff, hmem]
    · rw [hlist]
      exact (hok key).2

theorem inv_empty : Inv {} :=
  ⟨by simp, fun key r => by cases key <;> simp [Store.list], fun key => by cases key <;> exact .nil⟩

/-! ## Precedence -/

/-- A rule of a stored rewrite that belongs to the list `key`. -/
def Candidate (all : String → Option Rewrite) (key : Option String) (rewrite : Rewrite) (rule : Rule) : Prop :=
  all rewrite.name = some rewrite ∧ rule ∈ rewrite.rules ∧ rule.eligible key

/-- The list that decides: that of the model if some rule names it. -/
def Decides (all : String → Option Rewrite) (model : String) (key : Option String) : Prop :=
  key = some model ∨ key = none ∧ ∀ rewrite rule, ¬ Candidate all (some model) rewrite rule

/-- The oldest rewrite with an eligible rule answers; without one there is no answer. -/
def Oldest (all : String → Option Rewrite) (model : String) : Option (Rule × String) → Prop
  | none => ∀ key rewrite rule, Decides all model key → ¬ Candidate all key rewrite rule
  | some (rule, name) => ∃ key rewrite, Decides all model key ∧ rewrite.name = name ∧ Candidate all key rewrite rule ∧
      ∀ rewrite' rule', Candidate all key rewrite' rule' → rewrite.creationTimestamp ≤ rewrite'.creationTimestamp

/-- It is the first eligible rule of its rewrite. -/
def First (all : String → Option Rewrite) (model : String) (answer : Option (Rule × String)) : Prop :=
  ∀ rule name, answer = some (rule, name) → ∀ key rewrite, Decides all model key → all name = some rewrite →
    (∃ rule', Candidate all key rewrite rule') → rewrite.rules.find? (·.eligible key) = some rule

variable {key : Option String}

theorem Inv.candidate_of_mem (h : Inv ms) {r : RewriteRuleWithMetadata}
    (hr : r ∈ ms.list key) : ∃ rewrite, Candidate ms.allReWrites key rewrite r.rule ∧ rewrite.name = r.parentRewriteName ∧
      rewrite.creationTimestamp = r.createTimestamp := by
  obtain ⟨rewrite, hall, rule, hrule, helig, hr'⟩ := (h.mem key r).mp hr
  have hname := h.named _ _ hall
  refine ⟨rewrite, ⟨by rw [hname, hall], ?_, ?_⟩, hname, by rw [hr']; rfl⟩
  · rw [hr']
    exact hrule
  · rw [hr']
    exact helig

theorem Inv.mem_of_candidate (h : Inv ms) {rewrite : Rewrite} {rule : Rule}
    (hc : Candidate ms.allReWrites key rewrite rule) : Store.withMetadata rewrite rule ∈ ms.list key :=
  (h.mem key _).mpr ⟨rewrite, hc.1, rule, hc.2.1, hc.2.2, rfl⟩

theorem Inv.oldest_of_head (h : Inv ms)
    (hd : Decides ms.allReWrites model key) {r : RewriteRuleWithMetadata} {rest : List RewriteRuleWithMetadata}
    (hl : ms.list key = r :: rest) : Oldest ms.allReWrites model (some (r.rule, r.parentRewriteName)) := by
  obtain ⟨rewrite, hc, hname, hts⟩ := h.candidate_of_mem (show r ∈ ms.list key by simp [hl])
  refine ⟨key, rewrite, hd, hname, hc, fun rewrite' rule' hc' => ?_⟩
  have hmem := h.mem_of_candidate hc'
  have hsorted := h.sorted key
  rw [hl] at hmem hsorted
  rw [hts]
  rcases List.mem_cons.mp hmem with heq | hmem
  · rw [← heq]
    exact Int.le_refl _
  · exact (List.pairwise_cons.mp hsorted).1 _ hmem

/-- **An exact match before a generic rule, the oldest rewrite first.** -/
theorem Inv.oldest (h : Inv ms) (model : String) : Oldest ms.allReWrites model (ms.getRule model) := by
  unfold Store.getRule
  have hnone : ms.rulesByExactModelMatch model = [] → ∀ rewrite rule, ¬ Candidate ms.allReWrites (some model) rewrite rule := by
    intro hl rewrite rule hc
    have := h.mem_of_candidate hc
    simp [Store.list, hl] at this
  split
  · next r rest hl => exact h.oldest_of_head (.inl rfl) hl
  · next hl =>
    split
    · next r rest hg =>
      have hd : Decides ms.allReWrites model none := .inr ⟨rfl, hnone hl⟩
      exact h.oldest_of_head hd hg
    · next hg =>
      rintro key rewrite rule (rfl | ⟨rfl, -⟩) hc
      · exact hnone hl rewrite rule hc
      · have := h.mem_of_candidate hc
        simp [Store.list, hg] at this

/-- A rewrite has at most one generic rule, and at most one for each model. -/
def OneRuleEach (rewrite : Rewrite) : Prop := ∀ key, (rewrite.rules.filter (·.eligible key)).length ≤ 1

theorem find?_of_oneRuleEach {rewrite : Rewrite} (h : OneRuleEach rewrite) {rule : Rule}
    (hrule : rule ∈ rewrite.rules) (helig : rule.eligible key) : rewrite.rules.find? (·.eligible key) = some rule := by
  have hmem : rule ∈ rewrite.rules.filter (·.eligible key) := List.mem_filter.mpr ⟨hrule, helig⟩
  rw [← List.head?_filter]
  have hlen := h key
  match hf : rewrite.rules.filter (·.eligible key) with
  | [] => simp [hf] at hmem
  | [r] =>
    rw [hf, List.mem_singleton] at hmem
    rw [hmem, hf]
    rfl
  | _ :: _ :: _ =>
    rw [hf] at hlen
    simp at hlen

/-- The sorting, and the rewrites that are stored. -/
def Plain (ms : Store) (op : Op) : Prop :=
  Sorts ms op ∧ ∀ rewrite sorted, op = .set rewrite sorted → OneRuleEach rewrite

theorem oneRuleEach_of_reaches (hs : Reaches step Plain {} ms) :
    Inv ms ∧ ∀ name rewrite, ms.allReWrites name = some rewrite → OneRuleEach rewrite := by
  refine hs.invariant (fun ms => Inv ms ∧ ∀ name rewrite, ms.allReWrites name = some rewrite → OneRuleEach rewrite)
    ⟨inv_empty, by simp⟩ ?_
  rintro s op s' ⟨hinv, hI⟩ hok hstep
  refine ⟨inv_step hinv hok.1 hstep, fun name rewrite hname => ?_⟩
  cases op with
  | delete n =>
    cases hstep
    by_cases hn : name = n
    · rw [hn, Store.deleteInternal_self] at hname
      cases hname
    · rw [Store.deleteInternal_of_ne hn] at hname
      exact hI name rewrite hname
  | set rw' sorted =>
    cases hstep
    simp only [(hinv.insert_mem rw').1, update_apply] at hname
    split at hname
    · cases hname
      exact hok.2 _ _ rfl
    · exact hI name rewrite hname

theorem Inv.first (h : Inv ms)
    (hone : ∀ name rewrite, ms.allReWrites name = some rewrite → OneRuleEach rewrite) (model : String) :
    First ms.allReWrites model (ms.getRule model) := by
  intro rule name hanswer key rewrite hd hname hex
  have hold := h.oldest model
  rw [hanswer] at hold
  obtain ⟨key', rewrite', hd', hname', hc, -⟩ := hold
  have hkey : key = key' := by
    obtain ⟨rule', hc'⟩ := hex
    rcases hd with rfl | ⟨rfl, hno⟩ <;> rcases hd' with rfl | ⟨rfl, hno'⟩
    · rfl
    · exact absurd hc' (hno' _ _)
    · exact absurd hc (hno _ _)
    · rfl
  subst hkey
  obtain rfl : rewrite = rewrite' := by
    have h₁ := hc.1
    rw [hname', hname] at h₁
    exact Option.some.inj h₁
  exact find?_of_oneRuleEach (hone name rewrite hname) hc.2.1 hc.2.2

/-- The answer is determined by the stored rewrites when their times differ. -/
theorem answer_unique {all : String → Option Rewrite} {a b : Option (Rule × String)}
    (hdistinct : ∀ n n' rewrite rewrite', all n = some rewrite → all n' = some rewrite' →
      rewrite.creationTimestamp = rewrite'.creationTimestamp → rewrite = rewrite')
    (ha : Oldest all model a) (hb : Oldest all model b) (hfa : First all model a) (hfb : First all model b) : a = b := by
  have hkeys : ∀ {key key' : Option String} {rewrite rewrite' : Rewrite} {rule rule' : Rule}, Decides all model key →
      Decides all model key' → Candidate all key rewrite rule → Candidate all key' rewrite' rule' → key = key' := by
    rintro key key' rewrite rewrite' rule rule' (rfl | ⟨rfl, hno⟩) (rfl | ⟨rfl, hno'⟩) hc hc'
    · rfl
    · exact absurd hc (hno' _ _)
    · exact absurd hc' (hno _ _)
    · rfl
  match a, b with
  | none, none => rfl
  | none, some (rule, name) =>
    obtain ⟨key, rewrite, hd, -, hc, -⟩ := hb
    exact absurd hc (ha key rewrite rule hd)
  | some (rule, name), none =>
    obtain ⟨key, rewrite, hd, -, hc, -⟩ := ha
    exact absurd hc (hb key rewrite rule hd)
  | some (rule, name), some (rule', name') =>
    obtain ⟨key, rewrite, hd, rfl, hc, hmin⟩ := ha
    obtain ⟨key', rewrite', hd', rfl, hc', hmin'⟩ := hb
    obtain rfl := hkeys hd hd' hc hc'
    obtain rfl := hdistinct _ _ _ _ hc.1 hc'.1 (Int.le_antisymm (hmin _ _ hc') (hmin' _ _ hc))
    have h₁ := hfa rule _ rfl key rewrite hd hc.1 ⟨rule, hc⟩
    have h₂ := hfb rule' _ rfl key rewrite hd hc.1 ⟨rule, hc⟩
    rw [h₁] at h₂
    rw [Option.some.inj h₂]

/-- **Precedence of model rewrites.** After any operations an exact match comes
before a generic rule, from the oldest rewrite that has one; if no rewrite has
two rules for the same list, it is the first such rule of the rewrite, and with
distinct times the stored rewrites alone decide. -/
theorem getRule_precedence {ms ms' : Store} (hs : Reaches step Plain {} ms) (hs' : Reaches step Plain {} ms')
    (model : String) :
    Oldest ms.allReWrites model (ms.getRule model) ∧ First ms.allReWrites model (ms.getRule model) ∧
      (ms'.allReWrites = ms.allReWrites →
        (∀ n n' rewrite rewrite', ms.allReWrites n = some rewrite → ms.allReWrites n' = some rewrite' →
          rewrite.creationTimestamp = rewrite'.creationTimestamp → rewrite = rewrite') →
        ms.getRule model = ms'.getRule model) := by
  obtain ⟨hinv, hone⟩ := oneRuleEach_of_reaches hs
  obtain ⟨hinv', hone'⟩ := oneRuleEach_of_reaches hs'
  refine ⟨hinv.oldest model, hinv.first hone model, fun hall hdistinct => ?_⟩
  have hold' := hinv'.oldest model
  have hfirst' := hinv'.first hone' model
  rw [hall] at hold' hfirst'
  exact answer_unique hdistinct (hinv.oldest model) hold' (hinv.first hone model) hfirst'

/-- What an insertion sort, which keeps the order of equal elements, makes of the lists;
`sort.Slice` is one for lists of at most twelve. -/
def stable (ms : Store) (rewrite : Rewrite) (key : Option String) : List RewriteRuleWithMetadata :=
  ((ms.insert rewrite).list key).insertionSort fun a b => a.createTimestamp ≤ b.createTimestamp

theorem stable_sorts (ms : Store) (rewrite : Rewrite) : Sorts ms (.set rewrite (stable ms rewrite)) := by
  have : Std.Total fun a b : RewriteRuleWithMetadata => a.createTimestamp ≤ b.createTimestamp :=
    ⟨fun a b => Int.le_total _ _⟩
  have : IsTrans RewriteRuleWithMetadata fun a b => a.createTimestamp ≤ b.createTimestamp :=
    ⟨fun a b c => Int.le_trans⟩
  exact fun key => ⟨List.perm_insertionSort _ _, List.pairwise_insertionSort _ _⟩

def newer : Rewrite := ⟨"r", 2, [⟨[], [("a", 1)]⟩, ⟨[some "m"], [("b", 1)]⟩]⟩

def older : Rewrite := ⟨"s", 1, [⟨[some "n"], [("c", 1)]⟩, ⟨[], [("d", 1)]⟩, ⟨[some "m", some "o"], [("e", 1)]⟩]⟩

/-- The rule for the model goes before the generic one, and that of the older rewrite,
which was stored last, before that of the newer. -/
theorem getRule_precedence_older : ∃ ms, Reaches step Plain {} ms ∧ First ms.allReWrites "m" (ms.getRule "m") ∧
    ms.getRule "m" = some (⟨[some "m", some "o"], [("e", 1)]⟩, "s") ∧
    ms.getRule "p" = some (⟨[], [("d", 1)]⟩, "s") := by
  have hone : OneRuleEach newer ∧ OneRuleEach older := by
    refine ⟨fun key => ?_, fun key => ?_⟩
    · cases key with
      | none => decide
      | some model => by_cases hm : model = "m" <;> simp [newer, Rule.eligible, Rule.exactModels, hm]
    · cases key with
      | none => decide
      | some model =>
        by_cases hm : model = "n" <;> simp [older, Rule.eligible, Rule.exactModels, hm, List.filter_cons]
        split <;> simp
  obtain ⟨ms₁, h₁⟩ : ∃ ms, step {} (.set newer (stable {} newer)) = some ms := ⟨_, rfl⟩
  obtain ⟨ms₂, h₂⟩ : ∃ ms, step ms₁ (.set older (stable ms₁ older)) = some ms := ⟨_, rfl⟩
  have hs₁ : Reaches step Plain {} ms₁ := .next .init ⟨stable_sorts _ _, by rintro _ _ ⟨⟩; exact hone.1⟩ h₁
  have hs₂ : Reaches step Plain {} ms₂ := .next hs₁ ⟨stable_sorts _ _, by rintro _ _ ⟨⟩; exact hone.2⟩ h₂
  refine ⟨ms₂, hs₂, (getRule_precedence hs₂ hs₂ "m").2.1, ?_⟩
  cases h₁
  cases h₂
  decide +kernel

/-- A rewrite whose generic rules have these targets. -/
def generic (name : String) (timestamp : Int) (targets : List String) : Rewrite :=
  ⟨name, timestamp, targets.map fun t => ⟨[], [(t, 1)]⟩⟩

def twelve : Rewrite := generic "r" 2 ["a", "b", "c", "d", "e", "f", "g", "h", "i", "j", "k", "l"]

/-- What `sort.Slice` makes of the twelve rules and the older one after them. The pivot, the
seventh, is put first; the older rule and the second change places, then the older rule
and the pivot; and what is behind them is sorted by insertion. -/
def partitioned : Option String → List RewriteRuleWithMetadata
  | none => Store.withMetadata (generic "s" 1 ["m"]) ⟨[], [("m", 1)]⟩ ::
      (generic "r" 2 ["g", "c", "d", "e", "f", "a", "h", "i", "j", "k", "l", "b"]).rules.map (Store.withMetadata twelve)
  | some _ => []

/-- A rewrite with twelve generic rules, then an older one with one, which is deleted
again: the seventh of the twelve rules is returned. -/
theorem seventh_rule_returned :
    ∃ ms, Reaches step Sorts {} ms ∧ ms.allReWrites "r" = some twelve ∧
      twelve.rules.find? (·.eligible none) = some ⟨[], [("a", 1)]⟩ ∧
      ms.getRule "x" = some (⟨[], [("g", 1)]⟩, "r") := by
  obtain ⟨ms, hms⟩ : ∃ ms, step {} (.set twelve (stable {} twelve)) = some ms := ⟨_, rfl⟩
  have hs : Reaches step Sorts {} ms := .next .init (stable_sorts _ _) hms
  obtain ⟨ms', hms'⟩ : ∃ ms', step ms (.set (generic "s" 1 ["m"]) partitioned) = some ms' := ⟨_, rfl⟩
  have hok : Sorts ms (.set (generic "s" 1 ["m"]) partitioned) := by
    cases hms
    intro key
    cases key with
    | none => exact ⟨by decide +kernel, by decide +kernel⟩
    | some model => exact ⟨.refl _, .nil⟩
  have hs' : Reaches step Sorts {} ms' := .next hs hok hms'
  have hdelete : Sorts ms' (.delete "s") := trivial
  refine ⟨_, .next hs' hdelete rfl, ?_⟩
  cases hms
  cases hms'
  decide +kernel

end InferenceScheduler.ModelRewrite
