/-
The shared maps of the predicted-latency producer: the token counters and the
lists of running requests by endpoint, both `sync.Map`s of objects that are
updated in place (`requestcontrol/dataproducer/predictedlatency`, `plugin.go`,
`requestcontrol_hooks.go`).

An increment looks the counter up, creating it if need be, and then adds; a
decrement swaps the value in a loop and deletes the entry if it has come to
zero. An addition between the swap and the deletion goes down with the entry.

Beside the maps the state has what was added and subtracted, and the requests
that were added to a list and not removed.
-/
import InferenceScheduler.Lib.CellMap
import InferenceScheduler.Lib.Interleave

namespace InferenceScheduler.PredictedLatency

open Function (update update_apply)
open Interleave (Label State Machine Pending callWeight pending_start quiescent step total total_start)

/-! ## Steps -/

/-- A `requestPriorityQueue` is the list of its request IDs, in no particular order. -/
structure Maps where
  prefillTokensInFlight : CellMap String Int
  runningRequestLists : CellMap String (List String)
  added : String → Int
  subtracted : String → Int
  running : List (String × String)

def Maps.new : Maps :=
  { prefillTokensInFlight := .empty 0, runningRequestLists := .empty [], added := fun _ => 0, subtracted := fun _ => 0,
    running := [] }

/-- The atomic steps of the calls. -/
inductive Instr
  /-- `endpointCounter`, and the `Add` on the counter it returns. -/
  | lookup (key : String) (delta : Nat)
  | add (counter : Nat) (key : String) (delta : Nat)
  /-- `endpointCounter` for the reading after the addition. -/
  | reload (key : String)
  /-- `m.Load`, then `counter.Load`, `CompareAndSwap` and `m.Delete`. -/
  | load (key : String) (delta : Nat)
  | read (counter : Nat) (key : String) (delta : Nat)
  | swap (counter : Nat) (key : String) (current : Int) (delta : Nat)
  | delete (key : String)
  /-- `runningRequestLists.LoadOrStore`, and `Add` if the request has a
  context. -/
  | lookupList (endpoint id : String) (tpot : Rat) (hasContext : Bool)
  | addRequest (list : Nat) (endpoint id : String) (tpot : Rat)
  /-- `getRunningRequestList`, then `Remove`, `GetSize` and `Delete`. -/
  | loadList (endpoint id : String)
  | removeRequest (list : Nat) (endpoint id : String)
  | sizeList (list : Nat) (endpoint : String)
  | deleteList (endpoint : String)
  deriving DecidableEq

/-- What starts a call. -/
inductive Start
  | increment (key : String) (delta : Nat)
  | decrement (key : String) (delta : Nat)
  | add (endpoint id : String) (tpot : Rat) (hasContext : Bool)
  | remove (endpoint id : String)
  deriving DecidableEq

namespace Maps

variable (x : Maps)

/-- A call starts. A decrement is for what was added before. -/
def start : Start → Option (Maps × List Instr)
  | .increment key delta => some (x, [.lookup key delta])
  | .decrement key delta =>
    if x.subtracted key + delta ≤ x.added key then
      some ({ x with subtracted := update x.subtracted key (x.subtracted key + delta) }, [.load key delta])
    else none
  | .add endpoint id tpot hasContext => some (x, [.lookupList endpoint id tpot hasContext])
  | .remove endpoint id => some (x, [.loadList endpoint id])

/-- The value a decrement swaps in. -/
def floored (current : Int) (delta : Nat) : Int := if current - delta < 0 then 0 else current - delta

def exec (i : Instr) : Option (Maps × List Instr) :=
  let counter := x.prefillTokensInFlight.heap.obj
  let list := x.runningRequestLists.heap.obj
  match i with
  | .lookup key delta =>
    let r := x.prefillTokensInFlight.loadOrStore 0 key
    some ({ x with prefillTokensInFlight := r.1 }, [.add r.2 key delta])
  | .add c key delta =>
    some ({ x with
        prefillTokensInFlight := x.prefillTokensInFlight.set c (counter c + delta)
        added := update x.added key (x.added key + delta) }, [.reload key])
  | .reload key => some ({ x with prefillTokensInFlight := (x.prefillTokensInFlight.loadOrStore 0 key).1 }, [])
  | .load key delta =>
    match x.prefillTokensInFlight.cells key with
    | none => some (x, [])
    | some c => some (x, [.read c key delta])
  | .read c key delta => if counter c ≤ 0 then some (x, []) else some (x, [.swap c key (counter c) delta])
  | .swap c key current delta =>
    if counter c = current then
      some ({ x with prefillTokensInFlight := x.prefillTokensInFlight.set c (floored current delta) },
        if floored current delta = 0 then [.delete key] else [])
    else some (x, [.read c key delta])
  | .delete key => some ({ x with prefillTokensInFlight := x.prefillTokensInFlight.delete key }, [])
  | .lookupList endpoint id tpot hasContext =>
    let r := x.runningRequestLists.loadOrStore [] endpoint
    some ({ x with runningRequestLists := r.1 }, if hasContext then [.addRequest r.2 endpoint id tpot] else [])
  | .addRequest c endpoint id tpot =>
    if id = "" ∨ tpot < 0 ∨ id ∈ list c then some (x, [])
    else
      some ({ x with
          runningRequestLists := x.runningRequestLists.set c (id :: list c)
          running := (endpoint, id) :: x.running }, [])
  | .loadList endpoint id =>
    match x.runningRequestLists.cells endpoint with
    | none => some (x, [])
    | some c => some (x, [.removeRequest c endpoint id])
  | .removeRequest c endpoint id =>
    if id ∈ list c then
      some ({ x with
          runningRequestLists := x.runningRequestLists.set c ((list c).filter (· ≠ id))
          running := x.running.filter (· ≠ (endpoint, id)) }, [.sizeList c endpoint])
    else some (x, [.sizeList c endpoint])
  | .sizeList c endpoint => some (x, if list c = [] then [.deleteList endpoint] else [])
  | .deleteList endpoint => some ({ x with runningRequestLists := x.runningRequestLists.delete endpoint }, [])

end Maps

def machine : Machine Maps Instr Start Unit where
  start := Maps.start
  exec := fun x i _ => x.exec i

/-- No call yet. -/
def init : State Maps Instr := { shared := Maps.new, calls := [] }

/-- The step is going to add to the endpoint's counter, or to its list. -/
def Instr.adds (key : String) : Instr → Bool
  | .add _ k _ => k = key
  | _ => false

def Instr.addsTo (endpoint : String) : Instr → Bool
  | .addRequest _ e _ _ => e = endpoint
  | _ => false

/-- No call in flight is about to make such a step. -/
def notPending (s : State Maps Instr) (p : Instr → Bool) : Bool := s.calls.all fun c => c.all fun i => !p i

/-- An entry is deleted only while it reads zero, or its list is empty, and no call
that has looked it up is about to add to it. -/
def safe (s : State Maps Instr) : Label Start Unit → Bool
  | .run k _ =>
    match s.calls[k]? with
    | some (.delete key :: _) =>
      decide (s.shared.prefillTokensInFlight.content 0 key = 0) && notPending s (Instr.adds key)
    | some (.deleteList endpoint :: _) =>
      decide (s.shared.runningRequestLists.content [] endpoint = []) && notPending s (Instr.addsTo endpoint)
    | _ => true
  | _ => true

/-! ## Steps -/

/-- What a step does to the maps, and the steps it puts in front. -/
inductive Moves (x : Maps) : Instr → Maps → List Instr → Prop
  | lookup {key delta} : Moves x (.lookup key delta)
      { x with prefillTokensInFlight := (x.prefillTokensInFlight.loadOrStore 0 key).1 }
      [.add (x.prefillTokensInFlight.loadOrStore 0 key).2 key delta]
  | add {c key delta} : Moves x (.add c key delta)
      { x with
        prefillTokensInFlight := x.prefillTokensInFlight.set c (x.prefillTokensInFlight.heap.obj c + delta)
        added := update x.added key (x.added key + delta) } [.reload key]
  | reload {key} : Moves x (.reload key)
      { x with prefillTokensInFlight := (x.prefillTokensInFlight.loadOrStore 0 key).1 } []
  | loadNone {key delta} : x.prefillTokensInFlight.cells key = none → Moves x (.load key delta) x []
  | load {c key delta} : x.prefillTokensInFlight.cells key = some c →
      Moves x (.load key delta) x [.read c key delta]
  | readNone {c key delta} : x.prefillTokensInFlight.heap.obj c ≤ 0 → Moves x (.read c key delta) x []
  | read {c key delta} : 0 < x.prefillTokensInFlight.heap.obj c →
      Moves x (.read c key delta) x [.swap c key (x.prefillTokensInFlight.heap.obj c) delta]
  | swap {c key current delta} : x.prefillTokensInFlight.heap.obj c = current → Moves x (.swap c key current delta)
      { x with prefillTokensInFlight := x.prefillTokensInFlight.set c (Maps.floored current delta) }
      (if Maps.floored current delta = 0 then [.delete key] else [])
  | retry {c key current delta} : Moves x (.swap c key current delta) x [.read c key delta]
  | delete {key} : Moves x (.delete key)
      { x with prefillTokensInFlight := x.prefillTokensInFlight.delete key } []
  | lookupList {e id tpot hasContext} : Moves x (.lookupList e id tpot hasContext)
      { x with runningRequestLists := (x.runningRequestLists.loadOrStore [] e).1 }
      (if hasContext then [.addRequest (x.runningRequestLists.loadOrStore [] e).2 e id tpot] else [])
  | addRequest {c e id tpot} : Moves x (.addRequest c e id tpot)
      { x with
        runningRequestLists := x.runningRequestLists.set c (id :: x.runningRequestLists.heap.obj c)
        running := (e, id) :: x.running } []
  | skipRequest {c e id tpot} : Moves x (.addRequest c e id tpot) x []
  | loadListNone {e id} : Moves x (.loadList e id) x []
  | loadList {c e id} : x.runningRequestLists.cells e = some c → Moves x (.loadList e id) x [.removeRequest c e id]
  | removeRequest {c e id} : Moves x (.removeRequest c e id)
      { x with
        runningRequestLists := x.runningRequestLists.set c ((x.runningRequestLists.heap.obj c).filter (· ≠ id))
        running := x.running.filter (· ≠ (e, id)) } [.sizeList c e]
  | keepRequest {c e id} : Moves x (.removeRequest c e id) x [.sizeList c e]
  | sizeList {c e} : Moves x (.sizeList c e) x (if x.runningRequestLists.heap.obj c = [] then [.deleteList e] else [])
  | deleteList {e} : Moves x (.deleteList e)
      { x with runningRequestLists := x.runningRequestLists.delete e } []

theorem exec_moves {x x' : Maps} {i : Instr} {more : List Instr} (hx : x.exec i = some (x', more)) :
    Moves x i x' more := by
  cases i with
  | lookup => cases hx; exact .lookup
  | add => cases hx; exact .add
  | reload => cases hx; exact .reload
  | delete => cases hx; exact .delete
  | lookupList => cases hx; exact .lookupList
  | sizeList => cases hx; exact .sizeList
  | deleteList => cases hx; exact .deleteList
  | load key delta =>
    simp only [Maps.exec] at hx
    split at hx
    · cases hx
      exact .loadNone ‹_›
    · cases hx
      exact .load ‹_›
  | read c key delta =>
    simp only [Maps.exec] at hx
    split at hx
    · cases hx
      exact .readNone ‹_›
    · cases hx
      exact .read (by omega)
  | swap c key current delta =>
    simp only [Maps.exec] at hx
    split at hx
    · cases hx
      exact .swap ‹_›
    · cases hx
      exact .retry
  | addRequest c e id tpot =>
    simp only [Maps.exec] at hx
    split at hx
    · cases hx
      exact .skipRequest
    · cases hx
      exact .addRequest
  | loadList e id =>
    simp only [Maps.exec] at hx
    split at hx
    · cases hx
      exact .loadListNone
    · cases hx
      exact .loadList ‹_›
  | removeRequest c e id =>
    simp only [Maps.exec] at hx
    split at hx
    · cases hx
      exact .removeRequest
    · cases hx
      exact .keepRequest

/-! ## Links -/

section Links

variable {x x' : Maps} {i j : Instr} {more : List Instr} {key endpoint : String} {c : Nat}

/-- The object a step is about to update is the map's, unless it is a decrement by
nothing or the removal of what its endpoint has lost. -/
def Linked (x : Maps) : Instr → Prop
  | .add c key _ => x.prefillTokensInFlight.cells key = some c
  | .read c key delta => 0 < delta → x.prefillTokensInFlight.cells key = some c
  | .swap c key current delta => 0 < current ∧ (0 < delta → x.prefillTokensInFlight.cells key = some c)
  | .addRequest c endpoint _ _ => x.runningRequestLists.cells endpoint = some c
  | .removeRequest c endpoint _ => x.runningRequestLists.Owns endpoint c
  | _ => True

/-- Entries and owners stay. -/
structure Kept (x x' : Maps) : Prop where
  counter : ∀ key c, x.prefillTokensInFlight.cells key = some c → x'.prefillTokensInFlight.cells key = some c
  list : ∀ e c, x.runningRequestLists.cells e = some c → x'.runningRequestLists.cells e = some c
  owns : ∀ e c, x.runningRequestLists.Owns e c → x'.runningRequestLists.Owns e c

theorem Kept.refl : Kept x x := ⟨fun _ _ h => h, fun _ _ h => h, fun _ _ h => h⟩

theorem Linked.mono (h : Linked x j) (hk : Kept x x') : Linked x' j := by
  cases j with
  | add c key delta => exact hk.counter key c h
  | read c key delta => exact fun hd => hk.counter key c (h hd)
  | swap c key current delta => exact ⟨h.1, fun hd => hk.counter key c (h.2 hd)⟩
  | addRequest c e id tpot => exact hk.list e c h
  | removeRequest c e id => exact hk.owns e c h
  | _ => trivial

/-- The step needs the entry of the counter. -/
def Instr.needs (key : String) : Instr → Prop
  | .add _ k _ => k = key
  | .read _ k delta | .swap _ k _ delta => k = key ∧ 0 < delta
  | _ => False

theorem Linked.delete (h : Linked x j) (hj : ¬j.needs key) :
    Linked { x with prefillTokensInFlight := x.prefillTokensInFlight.delete key } j := by
  cases j with
  | add c k delta => exact (CellMap.cells_delete_of_ne hj).trans h
  | read c k delta =>
    intro hd
    exact (CellMap.cells_delete_of_ne fun he => hj ⟨he, hd⟩).trans (h hd)
  | swap c k current delta =>
    refine ⟨h.1, fun hd => ?_⟩
    exact (CellMap.cells_delete_of_ne fun he => hj ⟨he, hd⟩).trans (h.2 hd)
  | _ => exact h

theorem Linked.deleteList (h : Linked x j) (hj : j.addsTo endpoint = false) :
    Linked { x with runningRequestLists := x.runningRequestLists.delete endpoint } j := by
  cases j with
  | addRequest c e id tpot => exact (CellMap.cells_delete_of_ne (of_decide_eq_false hj)).trans h
  | removeRequest c e id => exact CellMap.Owns.delete h
  | _ => exact h

theorem Moves.kept (m : Moves x i x' more) (hi : ∀ key, i ≠ .delete key) (hi' : ∀ e, i ≠ .deleteList e) :
    Kept x x' := by
  cases m with
  | lookup | reload => exact ⟨fun _ _ => CellMap.cells_loadOrStore_of_some, fun _ _ h => h, fun _ _ h => h⟩
  | lookupList => exact ⟨fun _ _ h => h, fun _ _ => CellMap.cells_loadOrStore_of_some, fun _ _ => CellMap.Owns.loadOrStore⟩
  | add | swap => exact ⟨fun _ _ h => h, fun _ _ h => h, fun _ _ h => h⟩
  | addRequest | removeRequest => exact ⟨fun _ _ h => h, fun _ _ h => h, fun _ _ => CellMap.Owns.set⟩
  | delete => exact absurd rfl (hi _)
  | deleteList => exact absurd rfl (hi' _)
  | _ => exact .refl

theorem Moves.linked (m : Moves x i x' more) (hw : x.runningRequestLists.WF) (hi : Linked x i) :
    ∀ j ∈ more, Linked x' j := by
  intro j hj
  cases m with
  | lookup =>
    rw [List.mem_singleton.mp hj]
    exact CellMap.cells_loadOrStore
  | lookupList =>
    split at hj
    · rw [List.mem_singleton.mp hj]
      exact CellMap.cells_loadOrStore
    · cases hj
  | load hc =>
    rw [List.mem_singleton.mp hj]
    exact fun _ => hc
  | loadList hc =>
    rw [List.mem_singleton.mp hj]
    exact hw.owns hc
  | read hpos =>
    rw [List.mem_singleton.mp hj]
    exact ⟨hpos, hi⟩
  | retry =>
    rw [List.mem_singleton.mp hj]
    exact hi.2
  | swap | sizeList =>
    split at hj
    · rw [List.mem_singleton.mp hj]
      trivial
    · cases hj
  | add | removeRequest | keepRequest =>
    rw [List.mem_singleton.mp hj]
    trivial
  | _ => cases hj

end Links

/-! ## Balance -/

section Balance

variable {x x' : Maps} {i : Instr} {more : List Instr} {key : String}

/-- What a step is going to take off a counter. -/
def Instr.weight (key : String) : Instr → Int
  | .load k delta | .read _ k delta | .swap _ k _ delta => if k = key then delta else 0
  | _ => 0

theorem weight_nonneg (key : String) (i : Instr) : 0 ≤ i.weight key := by
  unfold Instr.weight
  split <;> first | (split <;> omega) | omega

/-- What was added and is not being subtracted. -/
def Maps.credit (x : Maps) (key : String) : Int := x.added key - x.subtracted key

/-- Both maps have one object an entry. -/
structure Maps.WF (x : Maps) : Prop where
  counters : x.prefillTokensInFlight.WF
  lists : x.runningRequestLists.WF

theorem Moves.wf (m : Moves x i x' more) (h : x.WF) : x'.WF := by
  cases m with
  | lookup | reload => exact ⟨h.counters.loadOrStore, h.lists⟩
  | lookupList => exact ⟨h.counters, h.lists.loadOrStore⟩
  | add | swap => exact ⟨h.counters.set, h.lists⟩
  | delete => exact ⟨h.counters.delete, h.lists⟩
  | deleteList => exact ⟨h.counters, h.lists.delete⟩
  | addRequest | removeRequest => exact ⟨h.counters, h.lists.set⟩
  | _ => exact h

/-- What is read for a counter. -/
def Maps.tokens (x : Maps) (key : String) : Int := x.prefillTokensInFlight.content 0 key

/-- Who is read to run on an endpoint. -/
def Maps.requests (x : Maps) (endpoint : String) : List String := x.runningRequestLists.content [] endpoint

theorem floored_of_le {current : Int} {delta : Nat} (h : (delta : Int) ≤ current) :
    Maps.floored current delta = current - delta :=
  if_neg (by omega)

theorem swap_tokens {c delta : Nat} {k : String} {current : Int} (h : x.WF) (hl : Linked x (.swap c k current delta))
    (hle : (delta : Int) ≤ x.tokens k) (hc : x.prefillTokensInFlight.heap.obj c = current) :
    Maps.tokens { x with prefillTokensInFlight := x.prefillTokensInFlight.set c (Maps.floored current delta) } key =
      x.tokens key - (Instr.swap c k current delta).weight key := by
  rcases Nat.eq_zero_or_pos delta with rfl | hpos
  · have hsame : Maps.floored current 0 = current := by
      have := hl.1
      rw [floored_of_le (by omega)]
      exact Int.sub_zero _
    rw [hsame, CellMap.set_self hc]
    simp only [Instr.weight]
    split <;> exact (Int.sub_zero _).symm
  · have hcell := hl.2 hpos
    have hread : x.tokens k = current := (CellMap.content_of_cell hcell).trans hc
    rw [floored_of_le (hread ▸ hle)]
    by_cases hk : k = key
    · subst hk
      rw [Maps.tokens, CellMap.content_set hcell, hread]
      simp only [Instr.weight, if_pos]
    · simp only [Instr.weight, if_neg hk]
      exact ((h.counters.owns hcell).content_set_of_ne (Ne.symm hk)).trans (Int.sub_zero _).symm

theorem balance_of_same (ht : x'.tokens key = x.tokens key) (hc : x'.credit key = x.credit key)
    (hw : i.weight key = callWeight (Instr.weight key) more) :
    x'.tokens key - x'.credit key =
      x.tokens key - x.credit key - i.weight key + callWeight (Instr.weight key) more := by
  rw [ht, hc, hw]
  omega

/-- **A step changes what is read for a counter by what it adds and no longer
has to take off**, as long as it finds there what it is to take off, and
deletes only a counter that reads zero. -/
theorem Moves.balance (m : Moves x i x' more) (h : x.WF) (hl : Linked x i) (hle : ∀ k, i.weight k ≤ x.tokens k)
    (hdel : ∀ k, i = .delete k → x.tokens k = 0) (key : String) :
    x'.tokens key - x'.credit key =
      x.tokens key - x.credit key - i.weight key + callWeight (Instr.weight key) more := by
  cases m with
  | lookup | reload => exact balance_of_same h.counters.content_loadOrStore rfl rfl
  | lookupList | sizeList => exact balance_of_same rfl rfl (by split <;> rfl)
  | @add c k delta =>
    by_cases hk : key = k
    · subst hk
      have hread : x.tokens key = x.prefillTokensInFlight.heap.obj c := CellMap.content_of_cell hl
      simp only [Maps.tokens, Maps.credit, CellMap.content_set hl, Function.update_self, callWeight,
        Instr.weight, List.map_cons, List.map_nil, List.sum_cons, List.sum_nil] at hread ⊢
      omega
    · refine balance_of_same ((h.counters.owns hl).content_set_of_ne hk) ?_ rfl
      simp only [Maps.credit, Function.update_of_ne hk]
  | delete => exact balance_of_same (CellMap.content_delete (hdel _ rfl)) rfl rfl
  | @loadNone k delta hc =>
    -- The counter reads zero, so there was nothing to take off.
    have hzero : x.tokens k = 0 := by
      rw [Maps.tokens, CellMap.content, hc]
      rfl
    have := hle k
    simp only [hzero, Instr.weight, if_pos] at this
    have hdelta : delta = 0 := by omega
    subst hdelta
    exact balance_of_same rfl rfl (ite_self _)
  | @readNone c k delta hc =>
    have hdelta : delta = 0 := by
      by_contra hne
      have hread : x.tokens k = x.prefillTokensInFlight.heap.obj c :=
        CellMap.content_of_cell (hl (Nat.pos_of_ne_zero hne))
      have := hle k
      simp only [hread, Instr.weight, if_pos] at this
      omega
    subst hdelta
    exact balance_of_same rfl rfl (ite_self _)
  | load | read | retry => exact balance_of_same rfl rfl (Int.add_zero _).symm
  | @swap c k current delta hc =>
    have hk := hle k
    simp only [Instr.weight, if_pos] at hk
    have hmore : callWeight (Instr.weight key)
        (if Maps.floored current delta = 0 then [Instr.delete k] else []) = 0 := by
      split <;> rfl
    rw [swap_tokens h hl hk hc, hmore]
    simp only [Maps.credit]
    omega
  | _ => exact balance_of_same rfl rfl rfl

theorem Moves.credit (m : Moves x i x' more) : x.credit key ≤ x'.credit key := by
  cases m with
  | add =>
    simp only [Maps.credit, update_apply]
    split
    · rename_i hk
      subst hk
      omega
    · exact Int.le_refl _
  | _ => exact Int.le_refl _

end Balance

/-! ## Running requests -/

section Running

variable {x x' : Maps} {i : Instr} {more : List Instr}

/-- The requests that were added and not removed are found. -/
def Maps.Found (x : Maps) : Prop := ∀ e id, (e, id) ∈ x.running → id ∈ x.requests e

theorem found_addRequest {c : Nat} {e id : String} {tpot : Rat} (h : x.WF) (hl : Linked x (.addRequest c e id tpot))
    (hf : x.Found) :
    Maps.Found { x with
      runningRequestLists := x.runningRequestLists.set c (id :: x.runningRequestLists.heap.obj c)
      running := (e, id) :: x.running } := by
  intro e' id' hmem
  have hread : x.requests e = x.runningRequestLists.heap.obj c := CellMap.content_of_cell hl
  have hold : e' = e ∧ id' = id ∨ id' ∈ x.requests e' := by
    rcases List.mem_cons.mp hmem with heq | hmem
    · exact .inl (Prod.mk.injEq .. ▸ heq)
    · exact .inr (hf e' id' hmem)
  by_cases he : e' = e
  · subst he
    rw [Maps.requests, CellMap.content_set hl, ← hread]
    rcases hold with ⟨-, rfl⟩ | hold
    · exact .head _
    · exact .tail _ hold
  · rw [Maps.requests, (h.lists.owns hl).content_set_of_ne he]
    exact hold.resolve_left fun hh => he hh.1

theorem found_removeRequest {c : Nat} {e id : String} (hl : Linked x (.removeRequest c e id)) (hf : x.Found) :
    Maps.Found { x with
      runningRequestLists := x.runningRequestLists.set c ((x.runningRequestLists.heap.obj c).filter (· ≠ id))
      running := x.running.filter (· ≠ (e, id)) } := by
  intro e' id' hmem
  obtain ⟨hmem, hne⟩ := List.mem_filter.mp hmem
  have hold := hf e' id' hmem
  by_cases hc : x.runningRequestLists.cells e' = some c
  · have he : e' = e := hl.only e' hc
    have hid : id' ≠ id := by
      rintro rfl
      exact of_decide_eq_true hne (he ▸ rfl)
    rw [Maps.requests, CellMap.content_of_cell hc] at hold
    rw [Maps.requests, CellMap.content_set hc]
    exact List.mem_filter.mpr ⟨hold, decide_eq_true hid⟩
  · rw [Maps.requests, CellMap.content_set_of_cells_ne hc]
    exact hold

theorem Moves.found (m : Moves x i x' more) (h : x.WF) (hl : Linked x i)
    (hdel : ∀ e, i = .deleteList e → x.requests e = []) (hf : x.Found) : x'.Found := by
  cases m with
  | lookupList =>
    intro e' id' hmem
    rw [Maps.requests, h.lists.content_loadOrStore]
    exact hf e' id' hmem
  | addRequest => exact found_addRequest h hl hf
  | removeRequest => exact found_removeRequest hl hf
  | @deleteList e =>
    intro e' id' hmem
    rw [Maps.requests, CellMap.content_delete (hdel e rfl)]
    exact hf e' id' hmem
  | _ => exact hf

end Running

/-! ## Runs -/

section Runs

variable {s s' : State Maps Instr} {l : Label Start Unit}

/-- The steps to come reach the objects of the maps, and each counter has what was
added and not taken off yet. -/
structure Inv (s : State Maps Instr) : Prop where
  wf : s.shared.WF
  linked : ∀ i, Pending s i → Linked s.shared i
  credit : ∀ key, 0 ≤ s.shared.credit key
  balance : ∀ key, s.shared.tokens key = s.shared.credit key + total (Instr.weight key) s
  found : s.shared.Found

theorem inv_init : Inv init where
  wf := ⟨CellMap.wf_empty, CellMap.wf_empty⟩
  linked := fun i hi => by
    obtain ⟨c, hc, -⟩ := hi
    cases hc
  credit := fun _ => Int.le_refl _
  balance := fun _ => rfl
  found := nofun

variable {i : Instr}

theorem Inv.weight_le (h : Inv s) (hi : Pending s i) (key : String) : i.weight key ≤ s.shared.tokens key := by
  have hle := hi.le_total (weight_nonneg key)
  have := h.credit key
  rw [h.balance key]
  omega

variable {todo : List Instr} {x : Maps}

theorem Inv.start (h : Inv s) {b : Start}
    (hb : s.shared.start b = some (x, todo)) : Inv { shared := x, calls := s.calls ++ [todo] } := by
  have hlift : ∀ (i : Instr), (∀ y, Linked y i) → (∀ key, i.weight key = 0) →
      Inv { shared := s.shared, calls := s.calls ++ [[i]] } := by
    intro i hi hw
    refine ⟨h.wf, fun j hj => ?_, h.credit, fun key => ?_, h.found⟩
    · rcases pending_start hj with hj | hj
      · exact h.linked j hj
      · rw [List.mem_singleton.mp hj]
        exact hi _
    · have hzero : callWeight (Instr.weight key) [i] = 0 := by
        simp only [callWeight, List.map_cons, List.map_nil, List.sum_cons, List.sum_nil, hw]
        rfl
      rw [total_start, hzero, Int.add_zero]
      exact h.balance key
  cases b with
  | increment key delta | add e id tpot hasContext | remove e id =>
    cases hb
    exact hlift _ (fun _ => trivial) fun _ => rfl
  | decrement key delta =>
    simp only [Maps.start] at hb
    split at hb
    · rename_i hle
      cases hb
      refine ⟨⟨h.wf.counters, h.wf.lists⟩, fun j hj => ?_, fun k => ?_, fun k => ?_, h.found⟩
      · rcases pending_start hj with hj | hj
        · exact (h.linked j hj).mono ⟨fun _ _ h => h, fun _ _ h => h, fun _ _ h => h⟩
        · rw [List.mem_singleton.mp hj]
          trivial
      · have := h.credit k
        simp only [Maps.credit, update_apply] at this ⊢
        split
        · rename_i hk
          subst hk
          omega
        · exact this
      · have := h.balance k
        rw [total_start]
        simp only [Maps.tokens, Maps.credit, update_apply, callWeight, Instr.weight, List.map_cons,
          List.map_nil, List.sum_cons, List.sum_nil] at this ⊢
        by_cases hk : k = key
        · subst hk
          simp only [if_pos]
          omega
        · rw [if_neg hk, if_neg (Ne.symm hk)]
          omega
    · cases hb

theorem of_notPending {p : Instr → Bool} (h : notPending s p = true) (hi : Pending s i) : p i = false := by
  obtain ⟨c, hc, hi⟩ := hi
  have := List.all_eq_true.mp (List.all_eq_true.mp h c hc) i hi
  simpa using this

/-- **The links survive a step that meets the condition.** -/
theorem Inv.exec_linked_of_safe (h : Inv s) {k : Nat} {j : Instr} {more : List Instr}
    (hk : s.calls[k]? = some (i :: todo)) (hs : safe s (.run k ()) = true) (hx : s.shared.exec i = some (x, more))
    (hj : Pending s j) : Linked x j := by
  have hl := h.linked j hj
  by_cases hd : ∃ key, i = .delete key
  · obtain ⟨key, rfl⟩ := hd
    simp only [safe, hk, Bool.and_eq_true, decide_eq_true_eq] at hs
    cases hx
    refine hl.delete fun hn => ?_
    have hadds := of_notPending hs.2 hj
    have hle := h.weight_le hj key
    have hzero : s.shared.tokens key = 0 := hs.1
    rw [hzero] at hle
    cases j with
    | add c key' delta => exact of_decide_eq_false hadds hn
    | read c key' delta | swap c key' current delta =>
      obtain ⟨rfl, hpos⟩ := hn
      simp only [Instr.weight, if_pos] at hle
      omega
    | _ => exact hn
  · by_cases hd' : ∃ e, i = .deleteList e
    · obtain ⟨e, rfl⟩ := hd'
      simp only [safe, hk, Bool.and_eq_true, decide_eq_true_eq] at hs
      cases hx
      exact hl.deleteList (of_notPending hs.2 hj)
    · exact hl.mono ((exec_moves hx).kept (fun key he => hd ⟨key, he⟩) fun e he => hd' ⟨e, he⟩)

theorem Inv.exec (h : Inv s) {k : Nat} {more : List Instr}
    (hk : s.calls[k]? = some (i :: todo)) (hs : safe s (.run k ()) = true) (hx : s.shared.exec i = some (x, more)) :
    Inv { shared := x, calls := s.calls.set k (more ++ todo) } := by
  have hi := Pending.of_getElem? hk
  have hl := h.linked i hi
  have hdel : ∀ key, i = .delete key → s.shared.tokens key = 0 := by
    rintro key rfl
    simp only [safe, hk, Bool.and_eq_true, decide_eq_true_eq] at hs
    exact hs.1
  have hdel' : ∀ e, i = .deleteList e → s.shared.requests e = [] := by
    rintro e rfl
    simp only [safe, hk, Bool.and_eq_true, decide_eq_true_eq] at hs
    exact hs.1
  have m := exec_moves hx
  refine ⟨m.wf h.wf, fun j hj => ?_, fun key => Int.le_trans (h.credit key) m.credit, fun key => ?_,
    m.found h.wf hl hdel' h.found⟩
  · rcases Interleave.pending_run hk hj with hj | hj
    · exact h.exec_linked_of_safe hk hs hx hj
    · exact m.linked h.wf.lists hl j hj
  · have hbal := m.balance h.wf hl (h.weight_le hi) hdel key
    have := h.balance key
    rw [Interleave.total_run hk]
    dsimp only
    omega

/-- **No update is lost, as long as no entry is deleted that has come back into
use.** In a run whose steps meet the condition, with no call in flight, each
counter reads what was added less what was subtracted; and in every state a
request that was added to an endpoint's list and not removed is found there. -/
theorem no_lost_update (h : Reaches (step machine) (fun s l => safe s l = true) init s) :
    (quiescent s = true → ∀ key, s.shared.tokens key = s.shared.added key - s.shared.subtracted key) ∧
    ∀ e id, (e, id) ∈ s.shared.running → id ∈ s.shared.requests e := by
  have hinv : Inv s := by
    refine h.invariant Inv inv_init fun s l s' hi hok hstep => ?_
    rcases Interleave.step_cases hstep with ⟨b, x, todo, rfl, hb, rfl⟩ | ⟨k, choice, i, todo, x, more, rfl, hk, hx, rfl⟩
    · exact hi.start hb
    · exact hi.exec hk hok hx
  refine ⟨fun hq key => ?_, hinv.found⟩
  rw [hinv.balance key, Interleave.total_of_quiescent hq]
  exact Int.add_zero _

end Runs

/-- An endpoint gets five tokens, and they are taken off again up to the swap. -/
def swappedToZero : List (Label Start Unit) :=
  [.start (.increment "e" 5), .run 0 (), .run 0 (), .run 0 (), .start (.decrement "e" 5), .run 1 (), .run 1 (), .run 1 ()]

/-- A request is added to the list and removed, up to the look at the size. -/
def removedToEmpty : List (Label Start Unit) :=
  [.start (.add "e" "a" 0 true), .run 0 (), .run 0 (), .start (.remove "e" "a"), .run 1 (), .run 1 (), .run 1 ()]

/-- **An addition between the swap and the deletion is lost, and so is a request
that is added between the look at the size and the deletion.** -/
theorem delete_loses_update :
    (∃ s, Reaches (step machine) Any init s ∧ quiescent s = true ∧
      s.shared.tokens "e" ≠ s.shared.added "e" - s.shared.subtracted "e") ∧
    (∃ s, Reaches (step machine) Any init s ∧ ("e", "b") ∈ s.shared.running ∧
      "b" ∉ s.shared.requests "e") := by
  constructor
  · exact exists_of_run (step machine) init
      (swappedToZero ++ [.start (.increment "e" 3), .run 2 (), .run 2 (), .run 2 (), .run 1 ()]) _ (by decide +kernel)
  · exact exists_of_run (step machine) init
      (removedToEmpty ++ [.start (.add "e" "b" 0 true), .run 2 (), .run 2 (), .run 1 ()]) _ (by decide +kernel)

/-- The entry is deleted before the endpoint gets tokens again. -/
theorem no_lost_update_after_delete :
    ∃ s, Reaches (step machine) (fun s l => safe s l = true) init s ∧ quiescent s = true ∧
      s.shared.added "e" = 8 ∧ s.shared.subtracted "e" = 5 ∧ s.shared.tokens "e" = 8 - 5 := by
  obtain ⟨s, hs, hq, hadded, hsub⟩ := exists_of_runIf (step machine) (fun s l => safe s l = true) init
    (swappedToZero ++ [.run 1 (), .start (.increment "e" 3), .run 2 (), .run 2 (), .run 2 ()])
    (fun s => quiescent s ∧ s.shared.added "e" = 8 ∧ s.shared.subtracted "e" = 5) (by decide +kernel)
  have htokens := (no_lost_update hs).1 hq "e"
  rw [hadded, hsub] at htokens
  exact ⟨s, hs, hq, hadded, hsub, htokens⟩

end InferenceScheduler.PredictedLatency
