/-
The director's queues for the chunks of responses, with any number of response
streams at once, each in the steps of `Director.HandleResponseBody`, and a worker
for every queue. A chunk that does not end its stream is sent to the queue the
shared map holds for the request's ID; the chunk that ends it takes the queue
from the map, closes its channel, waits for the worker and is handed to the
plugins by the call itself.

The IDs are the clients'. A stream needs its ID's entry in the map from its first
chunk until it takes the queue out. When another one has the ID in that time, the
plugins do not get every stream's chunks once and in order (`shared_id_panics`).
-/
import InferenceScheduler.Lib.Run
import Mathlib.Data.List.Basic

namespace InferenceScheduler.RequestControl

open Function (update update_of_ne)

/-- A chunk as the plugins get it. -/
structure Chunk where
  stream : Nat
  index : Nat
  startOfStream : Bool
  endOfStream : Bool
  deriving DecidableEq, Repr

/-- Runs `processResponseBodyQueue`; when it has exited, `done` is closed. -/
inductive Worker
  | notStarted
  | ready
  | busy (c : Chunk)
  | exited
  deriving DecidableEq, Repr

structure ResponseBodyQueue where
  ch : List Chunk := []
  closed : Bool := false
  worker : Worker := .notStarted
  deriving DecidableEq, Repr

/-- Where a stream's call of `HandleResponseBody` stands. -/
inductive Pc
  | idle
  | load (c : Chunk)
  | create (c : Chunk)
  | spawn (c : Chunk) (q : Nat)
  | send (c : Chunk) (q : Nat)
  | drain (c : Chunk)
  | close (c : Chunk) (q : Nat)
  | wait (c : Chunk) (q : Nat)
  | final (c : Chunk)
  | ended
  deriving DecidableEq, Repr

structure Stream (Id : Type) where
  requestId : Id
  /-- The chunks for which the handler has been called. -/
  handed : List Chunk := []
  pc : Pc := .idle
  /-- The queue the stream has made. -/
  mine : Option Nat := none
  deriving DecidableEq

/-- The stream has got a chunk and not yet taken its queue from the map. -/
def Stream.holds {Id : Type} (st : Stream Id) : Bool :=
  match st.pc with
  | .idle => !st.handed.isEmpty
  | .load _ | .create _ | .spawn _ _ | .send _ _ | .drain _ => true
  | .close _ _ | .wait _ _ | .final _ | .ended => false

structure Director (Id : Type) where
  streams : List (Stream Id) := []
  queues : Nat → ResponseBodyQueue := fun _ => {}
  nextQueue : Nat := 0
  responseBodyQueues : Id → Option Nat := fun _ => none
  /-- The chunks handed to the plugins. -/
  calls : List Chunk := []
  panicked : Bool := false

inductive Action (Id : Type)
  | start (requestId : Id)
  | chunk (i : Nat) (endOfStream : Bool)
  | step (i : Nat)
  | work (q : Nat)

def channelCapacity : Nat := 100

namespace Director

variable {Id : Type} [DecidableEq Id]

def setStream (s : Director Id) (i : Nat) (st : Stream Id) : Director Id := { s with streams := s.streams.set i st }

def setQueue (s : Director Id) (q : Nat) (queue : ResponseBodyQueue) : Director Id :=
  { s with queues := update s.queues q queue }

def setMap (s : Director Id) (id : Id) (q : Option Nat) : Director Id :=
  { s with responseBodyQueues := update s.responseBodyQueues id q }

/-- One step of a stream's call. -/
def stepStream (s : Director Id) (i : Nat) (st : Stream Id) : Option (Director Id) :=
  match st.pc with
  | .idle | .ended => none
  | .load c =>
    match s.responseBodyQueues st.requestId with
    | some q => some (s.setStream i { st with pc := .send c q })
    | none => some (s.setStream i { st with pc := .create c })
  | .create c =>
    let q := s.nextQueue
    some { ((s.setStream i { st with pc := .spawn c q, mine := some q }).setQueue q {}).setMap st.requestId (some q) with
      nextQueue := q + 1 }
  | .spawn c q => some ((s.setStream i { st with pc := .send c q }).setQueue q { s.queues q with worker := .ready })
  | .send c q =>
    if (s.queues q).closed then some { s with panicked := true }
    else if (s.queues q).ch.length < channelCapacity then
      some ((s.setStream i { st with pc := .idle }).setQueue q { s.queues q with ch := (s.queues q).ch ++ [c] })
    else none
  | .drain c =>
    match s.responseBodyQueues st.requestId with
    | some q => some ((s.setStream i { st with pc := .close c q }).setMap st.requestId none)
    | none => some (s.setStream i { st with pc := .final c })
  | .close c q =>
    if (s.queues q).closed then some { s with panicked := true }
    else some ((s.setStream i { st with pc := .wait c q }).setQueue q { s.queues q with closed := true })
  | .wait c q =>
    if (s.queues q).worker = .exited then some (s.setStream i { st with pc := .final c }) else none
  | .final c => some { s.setStream i { st with pc := .ended } with calls := s.calls ++ [c] }

/-- One step of a queue's worker. -/
def stepWorker (s : Director Id) (q : Nat) : Option (Director Id) :=
  match (s.queues q).worker with
  | .notStarted | .exited => none
  | .ready =>
    match (s.queues q).ch with
    | c :: ch => some (s.setQueue q { s.queues q with ch := ch, worker := .busy c })
    | [] => if (s.queues q).closed then some (s.setQueue q { s.queues q with worker := .exited }) else none
  | .busy c => some { s.setQueue q { s.queues q with worker := .ready } with calls := s.calls ++ [c] }

/-- The next chunk of a stream. -/
def nextChunk (i : Nat) (st : Stream Id) (endOfStream : Bool) : Chunk :=
  ⟨i, st.handed.length, st.handed.isEmpty, endOfStream⟩

/-- The stream's goroutine calls the handler with its next chunk. -/
def handOver (s : Director Id) (i : Nat) (st : Stream Id) (endOfStream : Bool) : Option (Director Id) :=
  let c := nextChunk i st endOfStream
  match st.pc with
  | .idle =>
    some (s.setStream i { st with
      handed := st.handed ++ [c]
      pc := if endOfStream then .drain c else .load c })
  | _ => none

/-- A panic ends the process. -/
def step (s : Director Id) (a : Action Id) : Option (Director Id) :=
  if s.panicked then none
  else
    match a with
    | .start requestId => some { s with streams := s.streams ++ [{ requestId }] }
    | .chunk i endOfStream => (s.streams[i]?).bind fun st => s.handOver i st endOfStream
    | .step i => (s.streams[i]?).bind (s.stepStream i)
    | .work q => s.stepWorker q

/-- The chunks of a stream the plugins have got. -/
def callsOf (s : Director Id) (i : Nat) : List Chunk := s.calls.filter (·.stream = i)

/-- The stream with a number. -/
def At (s : Director Id) (i : Nat) (st : Stream Id) : Prop := s.streams[i]? = some st

/-- No step has panicked; every stream's chunks reach the plugins in order, all by
the time it has ended, the one that ends it last. -/
structure Ordered (s : Director Id) : Prop where
  safe : s.panicked = false
  inOrder : ∀ i st, s.At i st → s.callsOf i <+: st.handed
  complete : ∀ i st, s.At i st → st.pc = .ended → s.callsOf i = st.handed
  last : ∀ i st, s.At i st →
    (∀ c ∈ st.handed.dropLast, c.endOfStream = false) ∧
      (st.pc = .ended → ∃ c, st.handed.getLast? = some c ∧ c.endOfStream = true)

/-- A stream gets its first chunk when no stream holds its ID. -/
def Distinct (s : Director Id) : Action Id → Prop
  | .chunk i _ => ∀ st ∈ s.streams[i]?, st.handed = [] →
      ∀ st' ∈ s.streams, st'.requestId = st.requestId → st'.holds = false
  | _ => True

instance (s : Director Id) (a : Action Id) : Decidable (Distinct s a) := by
  cases a <;> unfold Distinct <;> infer_instance

end Director

/-! ## The way of a chunk -/

def Worker.inHand : Worker → List Chunk
  | .busy c => [c]
  | .notStarted | .ready | .exited => []

/-- What a queue holds, the oldest first. -/
def ResponseBodyQueue.contents (q : ResponseBodyQueue) : List Chunk := q.worker.inHand ++ q.ch

/-- The chunk a call has not given away yet. -/
def Pc.inHand : Pc → List Chunk
  | .load c | .create c | .spawn c _ | .send c _ | .drain c | .close c _ | .wait c _ | .final c => [c]
  | .idle | .ended => []

/-- The call is that of the last chunk. -/
def Pc.ending : Pc → Bool
  | .drain _ | .close _ _ | .wait _ _ | .final _ | .ended => true
  | .idle | .load _ | .create _ | .spawn _ _ | .send _ _ => false

namespace Director

variable {Id : Type}

/-- The chunks in a stream's queue. -/
def queued (s : Director Id) (st : Stream Id) : List Chunk :=
  match st.mine with
  | some q => (s.queues q).contents
  | none => []

/-- The map has the stream's queue, if it has made one, and its worker runs. -/
def Held (s : Director Id) (st : Stream Id) : Prop :=
  s.responseBodyQueues st.requestId = st.mine ∧
    ∀ q, st.mine = some q → (s.queues q).closed = false ∧ (s.queues q).worker ≠ .notStarted

/-- What holds at each point of a call. -/
def PcOK (s : Director Id) (st : Stream Id) : Prop :=
  match st.pc with
  | .idle => if st.handed = [] then st.mine = none else s.Held st
  | .load _ | .drain _ => s.Held st
  | .create _ => st.mine = none ∧ s.responseBodyQueues st.requestId = none
  | .spawn _ q =>
    st.mine = some q ∧ s.responseBodyQueues st.requestId = some q ∧ (s.queues q).closed = false ∧
      (s.queues q).worker = .notStarted
  | .send _ q => st.mine = some q ∧ s.Held st
  | .close _ q => st.mine = some q ∧ (s.queues q).closed = false ∧ (s.queues q).worker ≠ .notStarted
  | .wait _ q => st.mine = some q ∧ (s.queues q).closed = true ∧ (s.queues q).worker ≠ .notStarted
  | .final _ | .ended => ∀ q, st.mine = some q → (s.queues q).worker = .exited

/-- The chunks are with the plugins, in the queue or in the call's hand, in order. -/
structure StreamOK (s : Director Id) (i : Nat) (st : Stream Id) : Prop where
  flow : s.callsOf i ++ s.queued st ++ st.pc.inHand = st.handed
  own : ∀ c ∈ st.handed, c.stream = i
  pc : s.PcOK st
  fresh : ∀ q, st.mine = some q → q < s.nextQueue
  body : ∀ c ∈ st.handed.dropLast, c.endOfStream = false
  end_ : st.handed.getLast?.any (·.endOfStream) = st.pc.ending

structure Inv (s : Director Id) : Prop where
  safe : s.panicked = false
  streams : ∀ i st, s.At i st → s.StreamOK i st
  /-- No two streams share a queue. -/
  apart : ∀ i j st st' q, s.At i st → s.At j st' → st.mine = some q →
    st'.mine = some q → i = j
  /-- No two streams hold one ID. -/
  ids : ∀ i j st st', s.At i st → s.At j st' → st.requestId = st'.requestId →
    st.holds = true → st'.holds = true → i = j
  /-- A queue in the map is that of a stream that holds the ID. -/
  map : ∀ r q, s.responseBodyQueues r = some q →
    ∃ i st, s.At i st ∧ st.requestId = r ∧ st.holds = true
  /-- A worker that runs is that of a stream. -/
  owner : ∀ q, (s.queues q).worker ≠ .notStarted → ∃ i st, s.At i st ∧ st.mine = some q
  exited : ∀ q, (s.queues q).worker = .exited → (s.queues q).closed = true ∧ (s.queues q).ch = []
  calls : ∀ c ∈ s.calls, c.stream < s.streams.length

variable {s s' : Director Id} {i j : Nat} {st st' : Stream Id}

theorem StreamOK.frame (h : s.StreamOK i st) (hcalls : s'.callsOf i = s.callsOf i)
    (hqueue : ∀ q, st.mine = some q → s'.queues q = s.queues q)
    (hmap : st.holds = true → s'.responseBodyQueues st.requestId = s.responseBodyQueues st.requestId)
    (hnext : s.nextQueue ≤ s'.nextQueue) : s'.StreamOK i st := by
  have hqueued : s'.queued st = s.queued st := by
    unfold queued
    cases hm : st.mine with
    | none => rfl
    | some q => simp only [hqueue q hm]
  have hheld : st.holds = true → s.Held st → s'.Held st := by
    rintro hholds ⟨hentry, hq⟩
    refine ⟨(hmap hholds).trans hentry, fun q hm => ?_⟩
    rw [hqueue q hm]
    exact hq q hm
  refine ⟨by rw [hcalls, hqueued, h.flow], h.own, ?_, fun q hm => Nat.lt_of_lt_of_le (h.fresh q hm) hnext, h.body, h.end_⟩
  have hpc := h.pc
  unfold PcOK at hpc ⊢
  cases hst : st.pc with
  | idle =>
    simp only [hst] at hpc ⊢
    split
    · rwa [if_pos ‹_›] at hpc
    · rw [if_neg ‹_›] at hpc
      exact hheld (by simpa [Stream.holds, hst]) hpc
  | load | drain =>
    simp only [hst] at hpc ⊢
    exact hheld (by simp [Stream.holds, hst]) hpc
  | create =>
    simp only [hst] at hpc ⊢
    rwa [hmap (by simp [Stream.holds, hst])]
  | spawn c q =>
    simp only [hst] at hpc ⊢
    rwa [hmap (by simp [Stream.holds, hst]), hqueue q hpc.1]
  | send c q =>
    simp only [hst] at hpc ⊢
    exact ⟨hpc.1, hheld (by simp [Stream.holds, hst]) hpc.2⟩
  | close c q | wait c q =>
    simp only [hst] at hpc ⊢
    rwa [hqueue q hpc.1]
  | final | ended =>
    simp only [hst] at hpc ⊢
    intro q hm
    rw [hqueue q hm]
    exact hpc q hm

theorem StreamOK.advance (h : s.StreamOK i st) (hhanded : st'.handed = st.handed)
    (hflow : s'.callsOf i ++ s'.queued st' ++ st'.pc.inHand = s.callsOf i ++ s.queued st ++ st.pc.inHand)
    (hpc : s'.PcOK st') (hfresh : ∀ q, st'.mine = some q → q < s'.nextQueue)
    (hending : st'.pc.ending = st.pc.ending) : s'.StreamOK i st' := by
  refine ⟨by rw [hflow, h.flow, hhanded], ?_, hpc, hfresh, ?_, ?_⟩
  · rw [hhanded]
    exact h.own
  · rw [hhanded]
    exact h.body
  · rw [hhanded, hending]
    exact h.end_

theorem At.lt (h : s.At i st) : i < s.streams.length := (List.getElem?_eq_some_iff.mp h).1

theorem At.eq (h : s.At i st) (h' : s.At i st') : st = st' := Option.some.inj (h.symm.trans h')

theorem At.set_iff (h : s.At i st) (hs : s'.streams = s.streams.set i st') {u : Stream Id} :
    s'.At j u ↔ if j = i then u = st' else s.At j u := by
  unfold At
  rw [hs]
  by_cases hj : j = i
  · subst hj
    rw [List.getElem?_set_self h.lt, if_pos rfl, Option.some.injEq, eq_comm]
  · rw [List.getElem?_set_ne (Ne.symm hj), if_neg hj]

/-- A property that one stream at most has, and no other one when the changed stream has it. -/
theorem At.unique_set {P : Stream Id → Prop} (hi : s.At i st) (hstreams : s'.streams = s.streams.set i st')
    (hold : ∀ {j k u v}, s.At j u → s.At k v → P u → P v → j = k)
    (hnew : ∀ {j u}, j ≠ i → s.At j u → P u → ¬P st') {j k : Nat} {u v : Stream Id} (hu : s'.At j u) (hv : s'.At k v)
    (hp : P u) (hp' : P v) : j = k := by
  rw [hi.set_iff hstreams] at hu hv
  split at hu <;> split at hv
  · rename_i hj hk
    rw [hj, hk]
  · rename_i hk
    exact absurd (hu ▸ hp) (hnew hk hv hp')
  · rename_i hj _
    exact absurd (hv ▸ hp') (hnew hj hu hp)
  · exact hold hu hv hp hp'

/-- **A step on what is one stream's**, its queue, the entry of an ID it holds and the
calls of its chunks, keeps the invariant if it keeps that stream's. -/
theorem Inv.move (h : Inv s) (hi : s.At i st) (hstreams : s'.streams = s.streams.set i st')
    (hid : st'.requestId = st.requestId)
    (hmine : st'.mine = st.mine ∨ st.mine = none ∧ st'.mine = some s.nextQueue)
    (hqueues : ∀ q, st'.mine ≠ some q → s'.queues q = s.queues q)
    (hmap : ∀ r, (st.holds = true → r ≠ st.requestId) → s'.responseBodyQueues r = s.responseBodyQueues r)
    (hnext : s.nextQueue ≤ s'.nextQueue) (hcalls : ∀ j, j ≠ i → s'.callsOf j = s.callsOf j)
    (hmem : ∀ c ∈ s'.calls, c ∈ s.calls ∨ c.stream = i) (hok : s'.StreamOK i st')
    (htakes : st'.holds = true → st.holds = true ∨ ∀ u ∈ s.streams, u.requestId = st.requestId → u.holds = false)
    (hends : st.holds = true → st'.holds = true ∨ s'.responseBodyQueues st.requestId = none)
    (hexited : ∀ q, st'.mine = some q → (s'.queues q).worker = .exited →
      (s'.queues q).closed = true ∧ (s'.queues q).ch = [])
    (hsafe : s'.panicked = false) : Inv s' := by
  have hat : ∀ {j u}, s'.At j u ↔ if j = i then u = st' else s.At j u := hi.set_iff hstreams
  have hat_i : s'.At i st' := hat.mpr (by simp)
  have hat_ne : ∀ {j u}, j ≠ i → (s'.At j u ↔ s.At j u) := fun hj => by rw [hat, if_neg hj]
  have hat_eq : ∀ {u}, s'.At i u → u = st' := fun hu => by simpa using hat.mp hu
  -- a stream's queue is not that of another one
  have hown : ∀ {j u q}, j ≠ i → s.At j u → u.mine = some q → st'.mine ≠ some q := by
    intro j u q hj hu hq he
    rcases hmine with hm | ⟨-, hm⟩
    · exact hj (h.apart j i u st q hu hi hq (hm ▸ he))
    · rw [hm, Option.some.injEq] at he
      have := (h.streams j u hu).fresh q hq
      omega
  have hids : ∀ {j u}, j ≠ i → s.At j u → u.requestId = st.requestId → u.holds = true → st'.holds = false := by
    intro j u hj hu he hl
    by_contra hl'
    rcases htakes (by simpa using hl') with hl' | hfree
    · exact hj (h.ids j i u st hu hi he hl hl')
    · simp [hfree u (List.mem_of_getElem? hu) he] at hl
  refine ⟨hsafe, fun j u hu => ?_, ?_, ?_, fun r q hr => ?_, fun q hq => ?_, fun q hq => ?_, fun c hc => ?_⟩
  · by_cases hj : j = i
    · subst hj
      rw [hat_eq hu]
      exact hok
    · rw [hat_ne hj] at hu
      refine (h.streams j u hu).frame (hcalls j hj) (fun q hq => hqueues q (hown hj hu hq)) (fun hl => ?_) hnext
      exact hmap _ fun hl' he => hj (h.ids j i u st hu hi he hl hl')
  · intro j k u v q hu hv hq hq'
    exact hi.unique_set hstreams (P := fun u => u.mine = some q) (fun hu hv => h.apart _ _ _ _ q hu hv) hown hu hv hq hq'
  · intro j k u v hu hv he hl hl'
    refine hi.unique_set hstreams (P := fun u => u.requestId = v.requestId ∧ u.holds = true)
      (fun hu hv hp hp' => h.ids _ _ _ _ hu hv (hp.1.trans hp'.1.symm) hp.2 hp'.2) (fun hj hu hp hp' => ?_)
      hu hv ⟨he, hl⟩ ⟨rfl, hl'⟩
    simp [hids hj hu (hp.1.trans (hp'.1.symm.trans hid)) hp.2] at hp'
  · by_cases hr' : st.holds = true ∧ r = st.requestId
    · obtain ⟨hl, rfl⟩ := hr'
      exact ⟨i, st', hat_i, hid, (hends hl).resolve_right fun he => by simp [he] at hr⟩
    · obtain ⟨j, u, hu, hur, hl⟩ := h.map r q (hmap r (not_and.mp hr') ▸ hr)
      have hj : j ≠ i := by
        rintro rfl
        rw [hu.eq hi] at hur hl
        exact hr' ⟨hl, hur.symm⟩
      exact ⟨j, u, (hat_ne hj).mpr hu, hur, hl⟩
  · by_cases hm : st'.mine = some q
    · exact ⟨i, st', hat_i, hm⟩
    · obtain ⟨j, u, hu, hq'⟩ := h.owner q (hqueues q hm ▸ hq)
      have hj : j ≠ i := by
        rintro rfl
        rw [hu.eq hi] at hq'
        rcases hmine with hm' | ⟨hm', -⟩
        · exact hm (hm'.trans hq')
        · simp [hm'] at hq'
      exact ⟨j, u, (hat_ne hj).mpr hu, hq'⟩
  · by_cases hm : st'.mine = some q
    · exact hexited q hm hq
    · rw [hqueues q hm] at hq ⊢
      exact h.exited q hq
  · rw [hstreams, List.length_set]
    rcases hmem c hc with hc | rfl
    · exact h.calls c hc
    · exact hi.lt

/-! ## Steps of a call -/

variable {q : Nat}

theorem queued_of_mine (h : st.mine = some q) : s.queued st = (s.queues q).contents := by
  rw [queued, h]

theorem queued_of_none (h : st.mine = none) : s.queued st = [] := by rw [queued, h]

theorem Inv.queued_of_exited (h : Inv s) (hq : ∀ q, st.mine = some q → (s.queues q).worker = .exited) :
    s.queued st = [] := by
  cases hm : st.mine with
  | none => exact queued_of_none hm
  | some q =>
    have hw := hq q hm
    rw [queued_of_mine hm, ResponseBodyQueue.contents, hw, (h.exited q hw).2]
    rfl

theorem Inv.goOn {pc : Pc} (h : Inv s) (hi : s.At i st) (hhand : pc.inHand = st.pc.inHand)
    (hending : pc.ending = st.pc.ending) (hpc : s.PcOK { st with pc := pc })
    (htakes : ({ st with pc := pc } : Stream Id).holds = true → st.holds = true)
    (hends : st.holds = true → ({ st with pc := pc } : Stream Id).holds = true ∨
      s.responseBodyQueues st.requestId = none) :
    Inv (s.setStream i { st with pc := pc }) := by
  have hst := h.streams i st hi
  refine h.move hi rfl rfl (.inl rfl) (fun _ _ => rfl) (fun _ _ => rfl) (Nat.le_refl _) (fun _ _ => rfl)
    (fun c hc => .inl hc) (hst.advance rfl ?_ hpc hst.fresh hending) (fun he => .inl (htakes he)) hends
    (fun q _ hq => h.exited q hq) h.safe
  rw [hhand]
  rfl

theorem Inv.goOnQueue {pc : Pc} {queue : ResponseBodyQueue} (h : Inv s) (hi : s.At i st) (hmine : st.mine = some q)
    (hhand : queue.contents ++ pc.inHand = (s.queues q).contents ++ st.pc.inHand)
    (hending : pc.ending = st.pc.ending) (hpc : (s.setQueue q queue).PcOK { st with pc := pc })
    (hholds : ({ st with pc := pc } : Stream Id).holds = st.holds)
    (hexited : queue.worker = .exited → queue.closed = true ∧ queue.ch = []) :
    Inv ((s.setStream i { st with pc := pc }).setQueue q queue) := by
  have hst := h.streams i st hi
  refine h.move hi rfl rfl (.inl rfl) (fun q' hq' => ?_) (fun _ _ => rfl) (Nat.le_refl _)
    (fun _ _ => rfl) (fun c hc => .inl hc) (hst.advance rfl ?_ hpc hst.fresh hending) (fun he => .inl (hholds ▸ he))
    (fun he => .inl (hholds.trans he)) (fun q' hq' => ?_) h.safe
  · refine update_of_ne ?_ _ _
    rintro rfl
    exact hq' hmine
  · have hmine' : ({ st with pc := pc } : Stream Id).mine = some q := hmine
    rw [queued_of_mine hmine', queued_of_mine hmine, List.append_assoc, List.append_assoc, ← hhand]
    simp [setQueue, callsOf, setStream]
  · obtain rfl : q = q' := by simpa [hmine] using hq'
    simpa [setQueue] using hexited

variable {c : Chunk}

theorem callsOf_append_of_eq {calls : List Chunk} (h : c.stream = i) :
    (calls ++ [c]).filter (fun c => decide (c.stream = i)) = calls.filter (fun c => decide (c.stream = i)) ++ [c] := by
  simp [h]

theorem callsOf_append_of_ne {calls : List Chunk} (h : c.stream ≠ i) :
    (calls ++ [c]).filter (fun c => decide (c.stream = i)) = calls.filter (fun c => decide (c.stream = i)) := by
  simp [h]

theorem Inv.final (h : Inv s) (hi : s.At i st) (hpc : st.pc = .final c) :
    Inv { s.setStream i { st with pc := .ended } with calls := s.calls ++ [c] } := by
  have hst := h.streams i st hi
  have hok : s.PcOK st := hst.pc
  simp only [PcOK, hpc] at hok
  have hc : c.stream = i := hst.own c (by rw [← hst.flow, hpc]; simp [Pc.inHand])
  have hqueued := h.queued_of_exited hok
  refine h.move hi rfl rfl (.inl rfl) (fun _ _ => rfl) (fun _ _ => rfl) (Nat.le_refl _)
    (fun j hj => callsOf_append_of_ne (hc ▸ hj.symm)) (fun d hd => ?_)
    (hst.advance rfl ?_ hok hst.fresh (by rw [hpc]; rfl)) (by simp [Stream.holds]) (by simp [Stream.holds, hpc])
    (fun q _ hq => h.exited q hq) h.safe
  · rcases List.mem_append.mp hd with hd | hd
    · exact .inl hd
    · exact .inr (List.mem_singleton.mp hd ▸ hc)
  · have hqueued' : queued { s.setStream i { st with pc := .ended } with calls := s.calls ++ [c] }
        { st with pc := .ended } = [] := hqueued
    have hcalls : callsOf { s.setStream i { st with pc := .ended } with calls := s.calls ++ [c] } i =
        s.callsOf i ++ [c] := callsOf_append_of_eq hc
    rw [hqueued, hqueued', hcalls, hpc]
    simp [Pc.inHand]

section Steps

variable [DecidableEq Id]

theorem Inv.create {c : Chunk} (h : Inv s) (hi : s.At i st) (hpc : st.pc = .create c) (hmine : st.mine = none) :
    Inv { ((s.setStream i { st with pc := .spawn c s.nextQueue, mine := some s.nextQueue }).setQueue s.nextQueue
      {}).setMap st.requestId (some s.nextQueue) with nextQueue := s.nextQueue + 1 } := by
  have hst := h.streams i st hi
  have hholds : st.holds = true := by simp [Stream.holds, hpc]
  refine h.move hi rfl rfl (.inr ⟨hmine, rfl⟩) (fun q hq => ?_) (fun r hr => ?_)
    (Nat.le_succ _) (fun _ _ => rfl) (fun c hc => .inl hc) (hst.advance rfl ?_ ?_ (fun q hq => ?_) (by rw [hpc]; rfl))
    (fun _ => .inl hholds) (fun _ => .inl rfl) (fun q hq => ?_) h.safe
  · exact update_of_ne (fun he => hq (by rw [he])) _ _
  · exact update_of_ne (hr hholds) _ _
  · rw [queued_of_mine rfl, queued_of_none hmine, hpc]
    simp [setQueue, setMap, callsOf, setStream, ResponseBodyQueue.contents, Worker.inHand, Pc.inHand]
  · simp [PcOK, setQueue, setMap]
  · obtain rfl : s.nextQueue = q := by simpa using hq
    exact Nat.lt_succ_self _
  · obtain rfl : s.nextQueue = q := by simpa using hq
    simp [setQueue, setMap]

theorem Inv.take {c : Chunk} {q : Nat} (h : Inv s) (hi : s.At i st) (hpc : st.pc = .drain c) (hmine : st.mine = some q)
    (hqueue : (s.queues q).closed = false ∧ (s.queues q).worker ≠ .notStarted) :
    Inv ((s.setStream i { st with pc := .close c q }).setMap st.requestId none) := by
  have hst := h.streams i st hi
  have hholds : st.holds = true := by simp [Stream.holds, hpc]
  refine h.move hi rfl rfl (.inl rfl) (fun _ _ => rfl) (fun r hr => update_of_ne (hr hholds) _ _)
    (Nat.le_refl _) (fun _ _ => rfl) (fun c hc => .inl hc) (hst.advance rfl ?_ ?_ hst.fresh (by rw [hpc]; rfl))
    (fun _ => .inl hholds) (fun _ => .inr (by simp [setMap])) (fun q _ hq => h.exited q hq) h.safe
  · rw [hpc]
    rfl
  · exact ⟨hmine, hqueue⟩

theorem Inv.stepStream (h : Inv s) (hi : s.At i st) (hs : s.stepStream i st = some s') : Inv s' := by
  have hpc : s.PcOK st := (h.streams i st hi).pc
  unfold Director.stepStream at hs
  unfold PcOK at hpc
  cases hst : st.pc with
  | idle | ended =>
    simp only [hst] at hs
    cases hs
  | load c =>
    simp only [hst] at hs hpc
    split at hs <;> cases hs
    · next q hentry =>
      exact h.goOn hi (by rw [hst]; rfl) (by rw [hst]; rfl) ⟨hpc.1.symm.trans hentry, hpc⟩
        (fun _ => by simp [Stream.holds, hst]) (fun _ => .inl rfl)
    · next hentry =>
      exact h.goOn hi (by rw [hst]; rfl) (by rw [hst]; rfl) ⟨hpc.1.symm.trans hentry, hentry⟩
        (fun _ => by simp [Stream.holds, hst]) (fun _ => .inl rfl)
  | create c =>
    simp only [hst] at hs hpc
    cases hs
    exact h.create hi hst hpc.1
  | spawn c q =>
    simp only [hst] at hs hpc
    obtain ⟨hmine, hentry, hopen, hworker⟩ := hpc
    cases hs
    refine h.goOnQueue hi hmine ?_ (by rw [hst]; rfl) ?_ (by simp [Stream.holds, hst]) (by simp)
    · simp [ResponseBodyQueue.contents, hworker, Worker.inHand, hst, Pc.inHand]
    · exact ⟨hmine, hentry.trans hmine.symm, fun q' hq' => by simp_all [setQueue]⟩
  | send c q =>
    simp only [hst] at hs hpc
    obtain ⟨hmine, hheld⟩ := hpc
    obtain ⟨hopen, hworker⟩ := hheld.2 q hmine
    have hhanded : st.handed ≠ [] := by
      rw [← (h.streams i st hi).flow, hst]
      simp [Pc.inHand]
    rw [hopen, if_neg (by simp)] at hs
    split at hs <;> cases hs
    refine h.goOnQueue hi hmine ?_ (by rw [hst]; rfl) ?_ (by simp [Stream.holds, hst, hhanded]) fun hw => ?_
    · simp [ResponseBodyQueue.contents, hst, Pc.inHand]
    · simp only [PcOK]
      rw [if_neg hhanded]
      exact ⟨hheld.1, fun q' hq' => by simp_all [setQueue]⟩
    · have := (h.exited q hw).1
      simp [hopen] at this
  | drain c =>
    simp only [hst] at hs hpc
    split at hs <;> cases hs
    · next q hentry => exact h.take hi hst (hpc.1.symm.trans hentry) (hpc.2 q (hpc.1.symm.trans hentry))
    · next hentry =>
      refine h.goOn hi (by rw [hst]; rfl) (by rw [hst]; rfl) (fun q hq => ?_) (by simp [Stream.holds])
        (fun _ => .inr hentry)
      have hq' : st.mine = some q := hq
      rw [← hpc.1, hentry] at hq'
      cases hq'
  | close c q =>
    simp only [hst] at hs hpc
    obtain ⟨hmine, hopen, hworker⟩ := hpc
    rw [hopen, if_neg (by simp)] at hs
    cases hs
    refine h.goOnQueue hi hmine ?_ (by rw [hst]; rfl) ?_ (by simp [Stream.holds, hst]) fun hw => ⟨rfl, (h.exited q hw).2⟩
    · simp [ResponseBodyQueue.contents, hst, Pc.inHand]
    · exact ⟨hmine, by simp [setQueue, hworker]⟩
  | wait c q =>
    simp only [hst] at hs hpc
    split at hs <;> cases hs
    next hexit =>
    refine h.goOn hi (by rw [hst]; rfl) (by rw [hst]; rfl) (fun q' hq' => ?_) (by simp [Stream.holds])
      (by simp [Stream.holds, hst])
    obtain rfl : q = q' := by simpa [hpc.1] using hq'
    exact hexit
  | final c =>
    simp only [hst] at hs
    cases hs
    exact h.final hi hst

end Steps

/-! ## Steps of a worker, and new chunks and streams -/

theorem At.set_self (h : s.At i st) : s.streams.set i st = s.streams := by
  obtain ⟨hlt, hget⟩ := List.getElem?_eq_some_iff.mp h
  rw [← hget, List.set_getElem_self]

theorem PcOK.worker {worker : Worker} {ch : List Chunk} (h : s.PcOK st) (hmine : st.mine = some q)
    (hrun : (s.queues q).worker ≠ .notStarted) (hrun' : (s.queues q).worker ≠ .exited) (hnew : worker ≠ .notStarted) :
    (s.setQueue q { s.queues q with ch := ch, worker := worker }).PcOK st := by
  have hheld : s.Held st → (s.setQueue q { s.queues q with ch := ch, worker := worker }).Held st := by
    rintro ⟨hentry, hq⟩
    refine ⟨hentry, fun q' hq' => ?_⟩
    obtain rfl : q = q' := by simpa [hmine] using hq'
    simpa [setQueue, hnew] using (hq q hmine).1
  unfold PcOK at h ⊢
  cases hpc : st.pc with
  | idle =>
    simp only [hpc] at h ⊢
    split
    · rwa [if_pos ‹_›] at h
    · rw [if_neg ‹_›] at h
      exact hheld h
  | load | drain =>
    simp only [hpc] at h ⊢
    exact hheld h
  | create =>
    simp only [hpc] at h
    simp [hmine] at h
  | spawn c q' =>
    simp only [hpc] at h
    obtain rfl : q = q' := by simpa [hmine] using h.1
    exact absurd h.2.2.2 hrun
  | send c q' =>
    simp only [hpc] at h ⊢
    exact ⟨h.1, hheld h.2⟩
  | close c q' | wait c q' =>
    simp only [hpc] at h ⊢
    obtain rfl : q = q' := by simpa [hmine] using h.1
    refine ⟨h.1, ?_, ?_⟩
    · simpa [setQueue] using h.2.1
    · simpa [setQueue] using hnew
  | final | ended =>
    simp only [hpc] at h
    exact absurd (h q hmine) hrun'

theorem Inv.work (h : Inv s) (worker : Worker) (ch calls : List Chunk)
    (hrun : (s.queues q).worker ≠ .notStarted) (hrun' : (s.queues q).worker ≠ .exited) (hnew : worker ≠ .notStarted)
    (hcalls : ∀ c ∈ calls, c ∈ (s.queues q).contents)
    (hflow : calls ++ (worker.inHand ++ ch) = (s.queues q).contents)
    (hexited : worker = .exited → (s.queues q).closed = true ∧ ch = []) :
    Inv { s.setQueue q { s.queues q with ch := ch, worker := worker } with calls := s.calls ++ calls } := by
  obtain ⟨i, st, hi, hmine⟩ := h.owner q hrun
  have hst := h.streams i st hi
  have hpc : s.PcOK st := hst.pc
  have hstream : ∀ c ∈ calls, c.stream = i := by
    intro c hc
    refine hst.own c ?_
    rw [← hst.flow, queued_of_mine hmine]
    simp [hcalls c hc]
  refine h.move hi hi.set_self.symm rfl (.inl rfl) (fun q' hq' => ?_) (fun _ _ => rfl) (Nat.le_refl _)
    (fun j hj => ?_) (fun c hc => ?_) (hst.advance rfl ?_ (hpc.worker hmine hrun hrun' hnew) hst.fresh rfl)
    .inl .inl (fun q' hq' => ?_) h.safe
  · refine update_of_ne ?_ _ _
    rintro rfl
    exact hq' hmine
  · have hnone : calls.filter (fun c => decide (c.stream = j)) = [] := by
      rw [List.filter_eq_nil_iff]
      intro c hc
      simp [hstream c hc, hj.symm]
    rw [callsOf, List.filter_append, hnone, List.append_nil]
    rfl
  · exact (List.mem_append.mp hc).imp_right (hstream c)
  · have hall : calls.filter (fun c => decide (c.stream = i)) = calls := by
      rw [List.filter_eq_self]
      simpa using hstream
    rw [callsOf, List.filter_append, hall, queued_of_mine hmine, queued_of_mine hmine, ← hflow]
    simp [setQueue, ResponseBodyQueue.contents, callsOf]
  · obtain rfl : q = q' := by simpa [hmine] using hq'
    simpa [setQueue] using hexited

theorem Inv.stepWorker (h : Inv s) (hs : s.stepWorker q = some s') : Inv s' := by
  have hnil : ∀ c ∈ ([] : List Chunk), c ∈ (s.queues q).contents := by simp
  unfold Director.stepWorker at hs
  split at hs
  · cases hs
  · cases hs
  · next hw =>
    have hrun : (s.queues q).worker ≠ .notStarted ∧ (s.queues q).worker ≠ .exited := by simp [hw]
    split at hs
    · next c ch hch =>
      cases hs
      have := h.work (.busy c) ch [] hrun.1 hrun.2 (by simp) hnil
        (by simp [ResponseBodyQueue.contents, Worker.inHand, hw, hch]) (by simp)
      simpa [setQueue] using this
    · next hch =>
      split at hs <;> cases hs
      next hclosed =>
      have := h.work .exited (s.queues q).ch [] hrun.1 hrun.2 (by simp) hnil
        (by simp [ResponseBodyQueue.contents, Worker.inHand, hw]) (fun _ => ⟨hclosed, hch⟩)
      simpa [setQueue] using this
  · next c hw =>
    cases hs
    have hrun : (s.queues q).worker ≠ .notStarted ∧ (s.queues q).worker ≠ .exited := by simp [hw]
    exact h.work .ready (s.queues q).ch [c] hrun.1 hrun.2 (by simp)
      (by simp [ResponseBodyQueue.contents, Worker.inHand, hw]) (by simp [ResponseBodyQueue.contents, Worker.inHand, hw])
      (by simp)

theorem StreamOK.endOfStream_eq_false (h : s.StreamOK i st) (hpc : st.pc.ending = false) :
    ∀ c ∈ st.handed, c.endOfStream = false := by
  have hend := h.end_
  rw [hpc] at hend
  intro c hc
  rcases List.eq_nil_or_concat st.handed with hnil | ⟨l, d, hd⟩
  · simp [hnil] at hc
  · have hbody := h.body
    rw [hd] at hc hend hbody
    simp only [List.concat_eq_append, List.mem_append, List.mem_singleton, List.dropLast_concat,
      List.getLast?_concat, Option.any_some] at hc hend hbody
    rcases hc with hc | rfl
    · exact hbody c hc
    · exact hend

theorem Inv.handOver {endOfStream : Bool} (h : Inv s) (hi : s.At i st)
    (hdistinct : st.handed = [] → ∀ st' ∈ s.streams, st'.requestId = st.requestId → st'.holds = false)
    (hs : s.handOver i st endOfStream = some s') : Inv s' := by
  have hst := h.streams i st hi
  unfold Director.handOver at hs
  split at hs
  · next hpc =>
    cases hs
    have hhand : ∀ c : Chunk, (if endOfStream then Pc.drain c else Pc.load c).inHand = [c] := fun c => by
      cases endOfStream <;> rfl
    have hending : ∀ c : Chunk, (if endOfStream then Pc.drain c else Pc.load c).ending = endOfStream := fun c => by
      cases endOfStream <;> rfl
    have hfalse := hst.endOfStream_eq_false (by rw [hpc]; rfl)
    have hholds : ∀ c handed, ({ st with handed, pc := if endOfStream then .drain c else .load c } : Stream Id).holds =
        true := fun c _ => by cases endOfStream <;> rfl
    have hheld : s.Held st := by
      have hok : s.PcOK st := hst.pc
      simp only [PcOK, hpc] at hok
      split at hok
      · next hnone =>
        -- nobody holds the ID, so the map has no entry
        refine ⟨?_, by simp [hok]⟩
        rw [hok]
        by_contra hentry
        obtain ⟨q, hq⟩ := Option.ne_none_iff_exists'.mp hentry
        obtain ⟨j, u, hu, hr, hl⟩ := h.map _ q hq
        simp [hdistinct hnone u (List.mem_of_getElem? hu) hr] at hl
      · exact hok
    refine h.move hi rfl rfl (.inl rfl) (fun _ _ => rfl) (fun _ _ => rfl) (Nat.le_refl _)
      (fun _ _ => rfl) (fun c hc => .inl hc) ⟨?_, ?_, ?_, hst.fresh, ?_, ?_⟩ (fun _ => ?_) (fun _ => .inl (hholds _ _))
      (fun q _ hq => h.exited q hq) h.safe
    · have hflow := hst.flow
      rw [hpc] at hflow
      simp only [Pc.inHand, List.append_nil] at hflow
      rw [hhand, ← hflow]
      rfl
    · intro c hc
      rcases List.mem_append.mp hc with hc | hc
      · exact hst.own c hc
      · rw [List.mem_singleton.mp hc]
        rfl
    · cases endOfStream <;> exact hheld
    · simpa using hfalse
    · simp [hending, nextChunk]
    · by_cases hnone : st.handed = []
      · exact .inr (hdistinct hnone)
      · exact .inl (by simp [Stream.holds, hpc, hnone])
  · cases hs

theorem Inv.start {requestId : Id} (h : Inv s) : Inv { s with streams := s.streams ++ [{ requestId }] } := by
  let s' : Director Id := { s with streams := s.streams ++ [{ requestId }] }
  have hat : ∀ {j u}, s'.At j u → s.At j u ∨ j = s.streams.length ∧ u = { requestId } := by
    intro j u hu
    rcases Nat.lt_trichotomy j s.streams.length with hj | hj | hj
    · exact .inl ((List.getElem?_append_left hj).symm.trans hu)
    · refine .inr ⟨hj, ?_⟩
      have hnew : s'.At j { requestId } := by simp [At, s', hj]
      exact hu.eq hnew
    · have hlt : j < s'.streams.length := hu.lt
      simp only [s', List.length_append, List.length_singleton] at hlt
      omega
  have hold : ∀ {j u}, s.At j u → s'.At j u := fun hu => (List.getElem?_append_left hu.lt).trans hu
  refine ⟨h.safe, fun j u hu => ?_, fun j k u v q hu hv hq hq' => ?_, fun j k u v hu hv hr hl hl' => ?_, fun r q hq => ?_,
    fun q hq => ?_, h.exited, fun c hc => ?_⟩
  · rcases hat hu with hu | ⟨rfl, rfl⟩
    · exact (h.streams j u hu).frame rfl (fun _ _ => rfl) (fun _ => rfl) (Nat.le_refl _)
    · have hcalls : s.callsOf s.streams.length = [] := by
        rw [callsOf, List.filter_eq_nil_iff]
        intro c hc
        simpa using Nat.ne_of_lt (h.calls c hc)
      refine ⟨?_, by simp, rfl, by simp, by simp, rfl⟩
      exact (List.append_nil _).trans ((List.append_nil _).trans hcalls)
  · rcases hat hu with hu | ⟨rfl, rfl⟩
    · rcases hat hv with hv | ⟨rfl, rfl⟩
      · exact h.apart j k u v q hu hv hq hq'
      · cases hq'
    · cases hq
  · rcases hat hu with hu | ⟨rfl, rfl⟩ <;> rcases hat hv with hv | ⟨rfl, rfl⟩
    · exact h.ids j k u v hu hv hr hl hl'
    · cases hl'
    · cases hl
    · rfl
  · obtain ⟨j, u, hu, hr, hl⟩ := h.map r q hq
    exact ⟨j, u, hold hu, hr, hl⟩
  · obtain ⟨j, u, hu, hm⟩ := h.owner q hq
    exact ⟨j, u, hold hu, hm⟩
  · have := h.calls c hc
    simp only [List.length_append, List.length_singleton]
    omega

theorem init_inv : Inv ({} : Director Id) := by
  refine ⟨rfl, ?_, ?_, ?_, ?_, ?_, ?_, ?_⟩ <;> simp [At]

theorem Inv.step [DecidableEq Id] {a : Action Id} (h : Inv s) (hdistinct : Distinct s a)
    (hs : s.step a = some s') : Inv s' := by
  unfold Director.step at hs
  rw [if_neg (by simp [h.safe])] at hs
  cases a with
  | start requestId =>
    cases hs
    exact h.start
  | chunk i endOfStream =>
    obtain ⟨st, hi, hs⟩ := Option.bind_eq_some_iff.mp hs
    exact h.handOver hi (hdistinct st hi) hs
  | step i =>
    obtain ⟨st, hi, hs⟩ := Option.bind_eq_some_iff.mp hs
    exact h.stepStream hi hs
  | work q => exact h.stepWorker hs

theorem Inv.ordered (h : Inv s) : Ordered s := by
  refine ⟨h.safe, fun i st hi => ?_, fun i st hi hpc => ?_, fun i st hi => ?_⟩
  · rw [← (h.streams i st hi).flow, List.append_assoc]
    exact List.prefix_append _ _
  · have hst := h.streams i st hi
    have hok : s.PcOK st := hst.pc
    simp only [PcOK, hpc] at hok
    have hflow := hst.flow
    rw [hpc, h.queued_of_exited hok] at hflow
    simpa [Pc.inHand] using hflow
  · have hst := h.streams i st hi
    refine ⟨hst.body, fun hpc => ?_⟩
    have hend := hst.end_
    rw [hpc] at hend
    exact (Option.any_eq_true ..).mp hend

/-- **Chunks reach the plugins in order**, once and the last one last, and no
step sends on a closed channel, as long as no stream gets its first chunk while
another one holds its ID. -/
theorem chunks_ordered [DecidableEq Id] (s : Director Id) (h : Reaches step Distinct {} s) : Ordered s :=
  (h.invariant Inv init_inv fun _ _ _ => Inv.step).ordered

/-! ## Two streams with one ID -/

/-- Two streams have one ID from the start; the second one gets its only chunk when
the first has taken its queue from the map and not closed it yet. -/
def reuseActions : List (Action Nat) :=
  [.start 7, .start 7, .chunk 0 false, .step 0, .step 0, .step 0, .step 0, .chunk 0 true, .step 0, .chunk 1 true,
    .step 1, .step 1, .work 0, .work 0, .step 0, .work 0, .step 0, .step 0]

theorem chunks_ordered_reuse : ∃ s : Director Nat, s.Ordered ∧ s.calls.map (·.stream) = [1, 0, 0] := by
  obtain ⟨s, hs, hp⟩ := exists_of_runIf step Distinct ({} : Director Nat) reuseActions
    (fun s => s.calls.map (·.stream) = [1, 0, 0]) (by decide +kernel)
  exact ⟨s, chunks_ordered s hs, hp⟩

/-- Both streams have found the queue when the second one closes it. -/
def sharedActions : List (Action Nat) :=
  [.start 7, .start 7, .chunk 0 false, .step 0, .step 0, .step 0, .step 0, .chunk 0 false, .step 0, .chunk 1 true,
    .step 1, .step 1, .step 0]

theorem shared_id_panics : ∃ s : Director Nat, Reaches step Any {} s ∧ s.panicked = true ∧ ¬ s.Ordered := by
  obtain ⟨s, hs, hp⟩ := exists_of_run step ({} : Director Nat) sharedActions (·.panicked) (by decide +kernel)
  exact ⟨s, hs, hp, fun h => by simp [h.safe] at hp⟩

end Director

end InferenceScheduler.RequestControl
