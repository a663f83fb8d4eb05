/-
Each method of each queue does to the queue's bag what `Bags.Step` says. A
method other than `Add` makes the queue lose some items (`Lost`), `Add` makes it
gain one (`Gained`); either says what the bags are afterwards.
-/
import InferenceScheduler.Queue.Bags

namespace InferenceScheduler.Queue

open Function (comp_def update update_of_ne)

section

variable {κ ι : Type*} {size : ι → BitVec 64} {w : World κ ι} {q : κ} {x : ι} {mem mem' : Memory κ ι}
  {o o' : QueueObj ι} {l : List ι}

theorem Rep.bag_eq (h : Rep size q mem o) : o.bag mem = Multiset.ofList (o.items.map fun x => (mem.handle x, x)) := by
  cases o with
  | heap h => rfl
  | list l =>
    have hl := h.list l rfl
    refine congrArg Multiset.ofList ?_
    rw [QueueObj.items, List.map_map]
    refine List.map_congr_left fun e he => ?_
    rw [Function.comp_apply, hl.handle e he]

theorem Inv.bag_eq (hw : Inv size w) (q : κ) :
    w.bags.bag q = Multiset.ofList ((w.queue q).items.map fun x => (w.mem.handle x, x)) := (hw.rep q).bag_eq

theorem Inv.items_eq (hw : Inv size w) (q : κ) :
    ((w.queue q).items : Multiset ι) = (w.bags.bag q).map Prod.snd := by
  rw [hw.bag_eq, Multiset.map_coe, List.map_map]
  simp [comp_def]

/-- The queue has lost the items `l`. -/
structure Lost (w : World κ ι) (q : κ) (mem' : Memory κ ι) (o' : QueueObj ι) (l : List ι) : Prop where
  perm : (l ++ o'.items).Perm (w.queue q).items
  handle : mem'.handle = w.mem.handle
  next : mem'.objs.next = w.mem.objs.next
  confined : Confined w q mem'

variable [DecidableEq κ]

theorem Inv.lost (hw : Inv size w) (hr : Rep size q mem' o') (hl : Lost w q mem' o' l) :
    Inv size (w.put mem' q o') ∧ (w.put mem' q o').bags =
      ⟨update w.bags.bag q (Multiset.ofList (o'.items.map fun x => (w.mem.handle x, x))), w.bags.issued⟩ := by
  have hspared := hl.confined.spared hw
  refine ⟨hw.put hr hspared fun x hx => .inl ⟨?_, by rw [hl.handle]⟩, ?_⟩
  · exact hl.perm.mem_iff.mp (List.mem_append_right _ hx)
  · rw [← hl.handle, ← hr.bag_eq, ← bag_put hspared]
    show (⟨_, Finset.range mem'.objs.next⟩ : Bags κ ι) = ⟨_, Finset.range w.mem.objs.next⟩
    rw [hl.next]
    rfl

/-- The queue has gained the item `x`. -/
structure Gained [DecidableEq ι] (w : World κ ι) (q : κ) (mem' : Memory κ ι) (o' : QueueObj ι) (x : ι) : Prop where
  perm : o'.items.Perm (x :: (w.queue q).items)
  handle : mem'.handle = update w.mem.handle x (some w.mem.objs.next)
  next : mem'.objs.next = w.mem.objs.next + 1
  confined : Confined w q mem'

theorem Inv.gained [DecidableEq ι] (hw : Inv size w) (hr : Rep size q mem' o') (hg : Gained w q mem' o' x)
    (hx : x ∉ (w.queue q).items) : Inv size (w.put mem' q o') ∧ (w.put mem' q o').bags =
      ⟨update w.bags.bag q ((some w.mem.objs.next, x) ::ₘ w.bags.bag q),
        insert w.mem.objs.next w.bags.issued⟩ := by
  have hspared := hg.confined.spared hw
  have hself : mem'.handle x = some w.mem.objs.next := by rw [hg.handle, Function.update_self]
  have hne : ∀ y ∈ (w.queue q).items, mem'.handle y = w.mem.handle y := fun y hy => by
    have hyx : y ≠ x := fun he => hx (he ▸ hy)
    rw [hg.handle, update_of_ne hyx]
  refine ⟨hw.put hr hspared fun y hy => ?_, ?_⟩
  · rcases List.mem_cons.mp (hg.perm.mem_iff.mp hy) with rfl | hy
    · exact .inr hself
    · exact .inl ⟨hy, hne y hy⟩
  · have hbag : o'.bag mem' = (some w.mem.objs.next, x) ::ₘ w.bags.bag q := by
      rw [hr.bag_eq, show w.bags.bag q = _ from (hw.rep q).bag_eq, Multiset.cons_coe, Multiset.coe_eq_coe]
      refine (hg.perm.map _).trans ?_
      rw [List.map_cons, hself, List.map_congr_left fun y hy => by rw [hne y hy]]
    rw [← hbag, ← bag_put hspared]
    show (⟨_, Finset.range mem'.objs.next⟩ : Bags κ ι) = ⟨_, insert _ (Finset.range w.mem.objs.next)⟩
    rw [hg.next, Finset.range_add_one]
    rfl

end

/-! ## The methods on bags -/

section

variable {κ ι : Type*} [DecidableEq κ] [DecidableEq ι] {size : ι → BitVec 64} {w : World κ ι} {q : κ} {x : ι}
  {mem' : Memory κ ι} {o' : QueueObj ι}

omit [DecidableEq ι] in
theorem World.put_self (w : World κ ι) (q : κ) : w.put w.mem q (w.queue q) = w := by
  rw [World.put, Function.update_eq_self]

/-- What one method has to show. -/
structure Refines (size : ι → BitVec 64) (w : World κ ι) (op : Op κ ι) (r : World κ ι × Result ι) : Prop where
  inv : Inv size r.1
  step : Bags.Step w.bags op r.2 r.1.bags
  invalidated : ∀ q h x, op = .remove q (some h) → r.2 = .removed x → (r.1.mem.objs.obj h).isInvalidated
  unchanged : ∀ e, r.2 = .error e → r.1 = w

theorem Refines.add (hw : Inv size w) (hr : Rep size q mem' o') (hg : Gained w q mem' o' x)
    (hx : x ∉ (w.queue q).items) : Refines size w (.add q x) (w.put mem' q o', .done) := by
  obtain ⟨hinv, hbags⟩ := hw.gained hr hg hx
  refine ⟨hinv, ?_, nofun, nofun⟩
  rw [hbags]
  exact .add (Finset.notMem_range_self)

theorem Refines.removeLive {handle : Option HandleId} (hw : Inv size w) (hr : Rep size q mem' o')
    (hl : Lost w q mem' o' [x]) (hx : w.mem.handle x = handle)
    (hinval : ∀ h, handle = some h → (mem'.objs.obj h).isInvalidated) :
    Refines size w (.remove q handle) (w.put mem' q o', .removed x) := by
  obtain ⟨hinv, hbags⟩ := hw.lost hr hl
  have hbag : w.bags.bag q = (handle, x) ::ₘ Multiset.ofList (o'.items.map fun x => (w.mem.handle x, x)) := by
    rw [hw.bag_eq, Multiset.cons_coe, Multiset.coe_eq_coe, ← hx]
    exact (hl.perm.map _).symm
  refine ⟨hinv, ?_, fun q' h y he _ => ?_, nofun⟩
  · have hstep : Bags.Step w.bags (.remove q handle) (.removed x) _ := .removeLive (by
      rw [hbag]
      exact Multiset.mem_cons_self _ _)
    rw [hbags]
    rwa [hbag, Multiset.erase_cons_head] at hstep
  · cases he
    exact hinval h rfl

theorem Refines.removeOther {handle : Option HandleId} {e : QueueError} (hw : Inv size w)
    (hx : ∀ x ∈ (w.queue q).items, w.mem.handle x ≠ handle) :
    Refines size w (.remove q handle) (w, .error e) := by
  refine ⟨hw, .removeOther fun x hm => ?_, nofun, fun _ _ => rfl⟩
  rw [hw.bag_eq, Multiset.mem_coe, List.mem_map] at hm
  obtain ⟨y, hy, he⟩ := hm
  rw [Prod.mk.injEq] at he
  exact hx y hy he.1

theorem Refines.cleanup {p : ι → Bool} (hw : Inv size w) (hr : Rep size q mem' o')
    (hl : Lost w q mem' o' ((w.queue q).items.filter p)) :
    Refines size w (.cleanup q p) (w.put mem' q o', .items ((w.queue q).items.filter p)) := by
  obtain ⟨hinv, hbags⟩ := hw.lost hr hl
  have hkept : o'.items.Perm ((w.queue q).items.filter (!p ·)) :=
    List.perm_append_left_iff _ |>.mp (hl.perm.trans (List.filter_append_perm p _).symm)
  have hfilter : ∀ p : ι → Bool, (w.bags.bag q).filter (p ·.2) =
      Multiset.ofList (((w.queue q).items.filter p).map fun x => (w.mem.handle x, x)) := fun p => by
    rw [hw.bag_eq, Multiset.filter_coe, List.filter_map]
    simp [comp_def]
  refine ⟨hinv, ?_, nofun, nofun⟩
  have hstep : Bags.Step w.bags (.cleanup q p) (.items ((w.queue q).items.filter p)) _ := .cleanup (by
    rw [hfilter, Multiset.map_coe, List.map_map]
    simp [comp_def])
  rw [hbags]
  have hrest : (w.bags.bag q).filter (!p ·.2) = Multiset.ofList (o'.items.map fun x => (w.mem.handle x, x)) := by
    refine (hfilter (!p ·)).trans ?_
    rw [Multiset.coe_eq_coe]
    exact (hkept.map _).symm
  rwa [hrest] at hstep

theorem Refines.drain (hw : Inv size w) (hr : Rep size q mem' o') (hl : Lost w q mem' o' (w.queue q).items) :
    Refines size w (.drain q) (w.put mem' q o', .items (w.queue q).items) := by
  obtain ⟨hinv, hbags⟩ := hw.lost hr hl
  have hempty : o'.items = [] := by
    have hlen := hl.perm.length_eq
    rw [List.length_append] at hlen
    exact List.eq_nil_of_length_eq_zero (by omega)
  refine ⟨hinv, ?_, nofun, nofun⟩
  rw [hbags, hempty]
  refine .drain ?_
  rw [hw.bag_eq, Multiset.map_coe, List.map_map]
  simp [comp_def]

end

/-! ## The max-min heap -/

section

variable {κ ι : Type*} {size : ι → BitVec 64} {w : World κ ι} {q : κ} {x : ι} {h : MaxMinHeap ι}
  {st : HeapState κ ι} {l : List ι}

theorem heapItem_of_indexed (hs : HeapState.Indexed st) {hd : HandleId} (hm : hd ∈ st.heap.handles) :
    ∃ i b, st.mem.objs.obj hd = .heapItem i b := by
  obtain ⟨i, x, -, -, ho⟩ := hs.item hm
  exact ⟨i, false, ho⟩

theorem confined_heap (hw : Inv size w) (hq : w.queue q = .heap h) {mem' : Memory κ ι}
    (hhandle : ∀ q' ≠ q, ∀ x ∈ (w.queue q').items, mem'.handle x = w.mem.handle x)
    (hobjs : ∀ hd, mem'.objs.obj hd = w.mem.objs.obj hd ∨
      (hd ∈ h.handles ∨ w.mem.objs.next ≤ hd) ∧ ∃ i b, mem'.objs.obj hd = .heapItem i b)
    (hnext : w.mem.objs.next ≤ mem'.objs.next) (hsound : mem'.panicked = false) : Confined w q mem' := by
  have hi : HeapState.Indexed ⟨w.mem, h⟩ := (hw.rep q).heap h hq
  refine ⟨hhandle, fun hd => ?_, hnext, hsound⟩
  rcases hobjs hd with he | ⟨hown, i, b, ho⟩
  · exact .inl he
  · refine .inr ⟨hown.imp_left fun hm => ?_, fun x q' b' hl => ?_⟩
    · obtain ⟨x, hx, hxh⟩ := hi.held hd hm
      exact ⟨x, by rw [hq]; exact Array.mem_toList_iff.mpr hx, hxh⟩
    · rw [ho] at hl
      cases hl

theorem rep_heap (hs : HeapState.Indexed st) (hb : st.heap.byteSize = (st.heap.items.toList.map size).sum) :
    Rep size q st.mem (.heap st.heap) :=
  ⟨fun _ he => by cases he; exact hs, nofun, hb⟩

theorem Inv.byteSize_heap (hw : Inv size w) (hq : w.queue q = .heap h) :
    h.byteSize = (h.items.toList.map size).sum := by
  have hb := (hw.rep q).byteSize
  rwa [hq] at hb

theorem lost_heap (hw : Inv size w) (hq : w.queue q = .heap h) (hs : HeapState.Indexed st)
    (hc : HeapState.Cleaned ⟨w.mem, h⟩ st size l) :
    Rep size q st.mem (.heap st.heap) ∧ Lost w q st.mem (.heap st.heap) l := by
  have hi : HeapState.Indexed ⟨w.mem, h⟩ := (hw.rep q).heap h hq
  refine ⟨rep_heap hs ?_, ?_, hc.handle, hc.next, ?_⟩
  · have hsum := (hc.perm.map size).sum_eq
    rw [List.map_append, List.sum_append] at hsum
    rw [hc.byteSize, show _ = _ from hw.byteSize_heap hq, ← hsum, add_sub_cancel_left]
  · rw [hq]
    exact hc.perm
  · refine confined_heap hw hq (fun _ _ _ _ => by rw [hc.handle]) (fun hd => ?_) (Nat.le_of_eq hc.next.symm) hs.sound
    by_cases hm : hd ∈ h.handles
    · refine .inr ⟨.inl hm, ?_⟩
      by_cases hm' : hd ∈ st.heap.handles
      · exact heapItem_of_indexed hs hm'
      · -- an invalidated handle of an item removed
        have hgone := mt (hc.handles hd).mpr hm'
        simp only [not_and, not_forall, not_not] at hgone
        obtain ⟨x, hx, hxh⟩ := hgone hm
        obtain ⟨i, ho⟩ := hc.invalidated x hx hd hxh
        exact ⟨i, true, ho⟩
    · exact .inl (hc.objs hd hm)

variable [DecidableEq κ] [DecidableEq ι] (less : κ → ι → ι → Bool)

theorem refines_add_heap (hw : Inv size w) (hq : w.queue q = .heap h) (hfresh : ∀ q', x ∉ (w.queue q').items) :
    Refines size w (.add q x) (w.exec less size (.add q x)) := by
  have hi : HeapState.Indexed ⟨w.mem, h⟩ := (hw.rep q).heap h hq
  have hx : x ∉ h.items := fun hm => hfresh q (by rw [hq]; exact Array.mem_toList_iff.mpr hm)
  obtain ⟨hs, ha⟩ := HeapState.add_spec (less q) size hi hx
  simp only [World.exec, hq]
  refine .add hw (rep_heap hs ?_) ⟨?_, ha.handle, ha.next, ?_⟩ (hfresh q)
  · have hsum := (ha.perm.map size).sum_eq
    rw [List.map_cons, List.sum_cons] at hsum
    rw [ha.byteSize, hsum, add_comm]
    exact congrArg (size x + ·) (hw.byteSize_heap hq)
  · rw [hq]
    exact ha.perm
  · refine confined_heap hw hq (fun q' _ y hy => ?_) (fun hd => ?_) ?_ hs.sound
    · have hyx : y ≠ x := fun he => hfresh q' (he ▸ hy)
      rw [ha.handle, update_of_ne hyx]
    · by_cases hm : hd = w.mem.objs.next ∨ hd ∈ h.handles
      · refine .inr ⟨hm.symm.imp_right fun he => Nat.le_of_eq he.symm, heapItem_of_indexed hs ?_⟩
        rw [ha.handles]
        exact Finset.mem_insert.mpr hm
      · rw [not_or] at hm
        exact .inl (ha.objs hd hm.1 hm.2)
    · exact Nat.le_of_lt (Nat.lt_of_lt_of_eq (Nat.lt_succ_self _) ha.next.symm)

theorem refines_remove_heap (hw : Inv size w) (hq : w.queue q = .heap h) (handle : Option HandleId) :
    Refines size w (.remove q handle) (w.exec less size (.remove q handle)) := by
  have hi : HeapState.Indexed ⟨w.mem, h⟩ := (hw.rep q).heap h hq
  by_cases hlive : ∃ hd ∈ h.handles, handle = some hd
  · obtain ⟨hd, hm, rfl⟩ := hlive
    obtain ⟨i, x, hx, hxh, ho⟩ := hi.item hm
    obtain ⟨st, hst, hs, hr⟩ := HeapState.remove_spec (less q) size hi hm hx hxh ho
    obtain ⟨hrep, hlost⟩ := lost_heap hw hq hs (hr.cleaned size hxh)
    simp only [World.exec, hq, hst, Result.ofExcept]
    refine .removeLive hw hrep hlost hxh fun hd' he => ?_
    cases he
    obtain ⟨j, hj⟩ := hr.invalidated
    rw [hj]
    rfl
  · have hdead : ∀ hd, handle = some hd → hd ∉ h.handles := fun hd heq hm => hlive ⟨hd, hm, heq⟩
    obtain ⟨e, he⟩ : ∃ e, HeapState.remove ⟨w.mem, h⟩ (less q) size handle = (⟨w.mem, h⟩, .error e) :=
      HeapState.remove_error (less q) size hdead
    simp only [World.exec, hq, he, Result.ofExcept]
    rw [← hq, w.put_self]
    refine .removeOther hw fun x hx hxh => hlive ?_
    rw [hq] at hx
    obtain ⟨hd, hm, hxh', -⟩ := hi.handle (Array.mem_toList_iff.mp hx)
    exact ⟨hd, hm, hxh.symm.trans hxh'⟩

theorem refines_cleanup_heap (hw : Inv size w) (hq : w.queue q = .heap h) (p : ι → Bool) :
    Refines size w (.cleanup q p) (w.exec less size (.cleanup q p)) := by
  have hi : HeapState.Indexed ⟨w.mem, h⟩ := (hw.rep q).heap h hq
  obtain ⟨st, hst, hs, hc⟩ := HeapState.cleanup_spec (less q) size hi p
  obtain ⟨hrep, hlost⟩ := lost_heap hw hq hs hc
  simp only [World.exec, hq, hst]
  have hitems : h.items.toList = (w.queue q).items := by rw [hq]; rfl
  rw [hitems] at hlost ⊢
  exact .cleanup hw hrep hlost

theorem refines_drain_heap (hw : Inv size w) (hq : w.queue q = .heap h) :
    Refines size w (.drain q) (w.exec less size (.drain q)) := by
  have hi : HeapState.Indexed ⟨w.mem, h⟩ := (hw.rep q).heap h hq
  obtain ⟨hs, hc⟩ := HeapState.drain_spec size hi (hw.byteSize_heap hq)
  obtain ⟨hrep, hlost⟩ := lost_heap hw hq hs hc
  simp only [World.exec, hq]
  have hitems : h.items.toList = (w.queue q).items := by rw [hq]; rfl
  rw [show (HeapState.drain ⟨w.mem, h⟩).2 = (w.queue q).items from hitems]
  exact .drain hw hrep (hitems ▸ hlost)

end

/-! ## The list queue -/

section

variable {κ ι : Type*} {size : ι → BitVec 64} {w : World κ ι} {q : κ} {x : ι} {l : ListQueue ι} {mem mem' : Memory κ ι}

/-- What `keep` does not keep leaves the list, and the handles are invalidated. -/
structure Unlinked (mem : Memory κ ι) (l : ListQueue ι) (q : κ) (keep : HandleId × ι → Bool) (mem' : Memory κ ι) :
    Prop where
  handle : mem'.handle = mem.handle
  next : mem'.objs.next = mem.objs.next
  sound : mem'.panicked = mem.panicked
  kept : ∀ e ∈ l.requests, keep e = true → mem'.objs.obj e.1 = mem.objs.obj e.1
  removed : ∀ e ∈ l.requests, keep e = false → mem'.objs.obj e.1 = .listItemHandle e.2 q true
  objs : ∀ h, (∀ e ∈ l.requests, e.1 ≠ h) → mem'.objs.obj h = mem.objs.obj h

variable {keep : HandleId × ι → Bool} {b : BitVec 64}

theorem Linked.unlinked (hl : Linked q mem l) (hu : Unlinked mem l q keep mem') :
    Linked q mem' ⟨l.requests.filter keep, b⟩ := by
  have hsub : ∀ e ∈ l.requests.filter keep, e ∈ l.requests ∧ keep e = true := fun e he => List.mem_filter.mp he
  refine ⟨hl.nodup.sublist (List.filter_sublist.map _), fun e he => ?_, fun e he => ?_, fun e he => ?_,
    fun h x ho => ?_, hu.sound.trans hl.sound⟩
  · rw [hu.handle]
    exact hl.handle e (hsub e he).1
  · rw [hu.kept e (hsub e he).1 (hsub e he).2]
    exact hl.obj e (hsub e he).1
  · rw [hu.next]
    exact hl.allocated e (hsub e he).1
  · by_cases hown : ∃ e ∈ l.requests, e.1 = h
    · obtain ⟨e, he, rfl⟩ := hown
      cases hk : keep e with
      | false =>
        rw [hu.removed e he hk] at ho
        cases ho
      | true =>
        rw [hu.kept e he hk] at ho
        have hobj := hl.obj e he
        rw [ho] at hobj
        cases hobj
        exact List.mem_filter.mpr ⟨he, hk⟩
    · rw [hu.objs h fun e he heq => hown ⟨e, he, heq⟩] at ho
      exact absurd ⟨_, hl.live h x ho, rfl⟩ hown

theorem confined_unlinked (hw : Inv size w) (hq : w.queue q = .list l) (hu : Unlinked w.mem l q keep mem') :
    Confined w q mem' := by
  have hl : Linked q w.mem l := (hw.rep q).list l hq
  refine ⟨fun _ _ _ _ => by rw [hu.handle], fun h => ?_, Nat.le_of_eq hu.next.symm, hu.sound.trans hl.sound⟩
  by_cases hown : ∃ e ∈ l.requests, e.1 = h
  · obtain ⟨e, he, rfl⟩ := hown
    refine .inr ⟨.inl ⟨e.2, by rw [hq]; exact List.mem_map_of_mem he, hl.handle e he⟩, fun x q' b' ho => ?_⟩
    cases hk : keep e with
    | false =>
      rw [hu.removed e he hk] at ho
      cases ho
      rfl
    | true =>
      rw [hu.kept e he hk, hl.obj e he] at ho
      cases ho
      rfl
  · exact .inl (hu.objs h fun e he heq => hown ⟨e, he, heq⟩)

theorem Inv.byteSize_list (hw : Inv size w) (hq : w.queue q = .list l) :
    l.byteSize = ((l.requests.map Prod.snd).map size).sum := by
  have hb := (hw.rep q).byteSize
  rwa [hq] at hb

theorem filter_not_append_perm (r : List (HandleId × ι)) (keep : HandleId × ι → Bool) :
    ((r.filter (!keep ·)).map Prod.snd ++ (r.filter keep).map Prod.snd).Perm (r.map Prod.snd) := by
  rw [← List.map_append]
  refine ((List.perm_append_comm.trans ?_).map Prod.snd)
  exact List.filter_append_perm keep r

theorem lost_list (hw : Inv size w) (hq : w.queue q = .list l) (hu : Unlinked w.mem l q keep mem')
    (hb : b + (((l.requests.filter (!keep ·)).map Prod.snd).map size).sum = l.byteSize) :
    Rep size q mem' (.list ⟨l.requests.filter keep, b⟩) ∧
      Lost w q mem' (.list ⟨l.requests.filter keep, b⟩) ((l.requests.filter (!keep ·)).map Prod.snd) := by
  have hl : Linked q w.mem l := (hw.rep q).list l hq
  have hperm := filter_not_append_perm l.requests keep
  refine ⟨⟨nofun, fun _ he => by cases he; exact hl.unlinked hu, ?_⟩, ?_, hu.handle, hu.next,
    confined_unlinked hw hq hu⟩
  · show b = (((l.requests.filter keep).map Prod.snd).map size).sum
    have hsum := (hperm.map size).sum_eq
    rw [List.map_append, List.sum_append, ← hw.byteSize_list hq, ← hb, add_comm b] at hsum
    exact (add_left_cancel hsum).symm
  · rw [hq]
    exact hperm

theorem Linked.eq_of_fst (hl : Linked q mem l) {e e' : HandleId × ι} (he : e ∈ l.requests) (he' : e' ∈ l.requests)
    (heq : e.1 = e'.1) : e = e' := by
  have ho := hl.obj e he
  rw [heq, hl.obj e' he', HandleObj.listItemHandle.injEq] at ho
  exact Prod.ext heq ho.1.symm

theorem Linked.invalidateItems (hl : Linked q mem l) (keep : HandleId × ι → Bool) :
    Unlinked mem l q keep (mem.invalidateItems ((l.requests.filter (!keep ·)).map Prod.snd)) := by
  have hout : ∀ h, (∀ e ∈ l.requests, keep e = false → e.1 ≠ h) →
      (mem.invalidateItems ((l.requests.filter (!keep ·)).map Prod.snd)).objs.obj h = mem.objs.obj h := fun h hne => by
    refine Memory.invalidateItems_obj_of_ne fun x hx hxh => ?_
    obtain ⟨e, he, rfl⟩ := List.mem_map.mp hx
    obtain ⟨he, hk⟩ := List.mem_filter.mp he
    rw [hl.handle e he, Option.some.injEq] at hxh
    exact hne e he (by simpa using hk) hxh
  refine ⟨Memory.invalidateItems_handle .., Memory.invalidateItems_next .., Memory.invalidateItems_panicked ..,
    fun e he hk => hout _ fun e' he' hk' heq => ?_, fun e he hk => ?_, fun h hne => hout h fun e he _ => hne e he⟩
  · rw [hl.eq_of_fst he' he heq, hk] at hk'
    cases hk'
  · have hm : e.2 ∈ (l.requests.filter (!keep ·)).map Prod.snd :=
      List.mem_map_of_mem (List.mem_filter.mpr ⟨he, by simp [hk]⟩)
    rw [Memory.invalidateItems_obj hm (hl.handle e he), hl.obj e he]
    rfl

theorem foldl_sub_sum (b : BitVec 64) : ∀ r : List ι, r.foldl (fun b x => b - size x) b = b - (r.map size).sum
  | [] => by simp
  | x :: r => by
    rw [List.foldl_cons, foldl_sub_sum _ r, List.map_cons, List.sum_cons, sub_sub]

theorem Linked.add [DecidableEq ι] (hl : Linked q mem l) (size : ι → BitVec 64) (hx : x ∉ l.requests.map Prod.snd) :
    Linked q (ListState.add ⟨mem, l⟩ size q x).mem (ListState.add ⟨mem, l⟩ size q x).list := by
  have hne : ∀ e ∈ l.requests, e.2 ≠ x := fun e he heq => hx (heq ▸ List.mem_map_of_mem he)
  have hlt : ∀ e ∈ l.requests, e.1 ≠ mem.objs.next := fun e he => Nat.ne_of_lt (hl.allocated e he)
  refine ⟨?_, fun e he => ?_, fun e he => ?_, fun e he => ?_, fun h y ho => ?_, hl.sound⟩
  · show ((l.requests ++ [(mem.objs.next, x)]).map Prod.snd).Nodup
    rw [List.map_append, List.nodup_append]
    refine ⟨hl.nodup, List.nodup_singleton _, fun y hy z hz => ?_⟩
    rw [List.mem_singleton.mp hz]
    rintro rfl
    exact hx hy
  · rcases List.mem_append.mp he with he | he
    · exact (Memory.newHandle_handle_of_ne (hne e he)).trans (hl.handle e he)
    · rw [List.mem_singleton.mp he]
      exact Memory.newHandle_handle_self
  · rcases List.mem_append.mp he with he | he
    · exact (Memory.newHandle_obj_of_ne (hlt e he)).trans (hl.obj e he)
    · rw [List.mem_singleton.mp he]
      exact Memory.newHandle_obj_self
  · rcases List.mem_append.mp he with he | he
    · exact Nat.lt_succ_of_lt (hl.allocated e he)
    · rw [List.mem_singleton.mp he]
      exact Nat.lt_succ_self _
  · change (mem.newHandle x (.listItemHandle x q false)).objs.obj h = _ at ho
    by_cases hh : h = mem.objs.next
    · subst hh
      rw [Memory.newHandle_obj_self] at ho
      cases ho
      exact List.mem_append_right _ (List.mem_singleton.mpr rfl)
    · rw [Memory.newHandle_obj_of_ne hh] at ho
      exact List.mem_append_left _ (hl.live h y ho)

variable [DecidableEq κ] [DecidableEq ι] (less : κ → ι → ι → Bool)

theorem refines_add_list (hw : Inv size w) (hq : w.queue q = .list l) (hfresh : ∀ q', x ∉ (w.queue q').items) :
    Refines size w (.add q x) (w.exec less size (.add q x)) := by
  have hl : Linked q w.mem l := (hw.rep q).list l hq
  have hx : x ∉ l.requests.map Prod.snd := fun hm => hfresh q (by rw [hq]; exact hm)
  have hadd := hl.add size hx
  simp only [World.exec, hq]
  refine .add hw ⟨nofun, fun _ he => by cases he; exact hadd, ?_⟩ ⟨?_, rfl, rfl, ?_⟩ (hfresh q)
  · show l.byteSize + size x = (((l.requests ++ [(w.mem.objs.next, x)]).map Prod.snd).map size).sum
    rw [hw.byteSize_list hq]
    simp
  · rw [hq]
    show ((l.requests ++ [(w.mem.objs.next, x)]).map Prod.snd).Perm (x :: l.requests.map Prod.snd)
    rw [List.map_append]
    exact List.perm_append_singleton _ _
  · refine ⟨fun q' _ y hy => ?_, fun h => ?_, Nat.le_succ _, hl.sound⟩
    · have hyx : y ≠ x := fun he => hfresh q' (he ▸ hy)
      exact Memory.newHandle_handle_of_ne hyx
    · by_cases hh : h = w.mem.objs.next
      · refine .inr ⟨.inr (Nat.le_of_eq hh.symm), fun y q' b ho => ?_⟩
        change (w.mem.newHandle x (.listItemHandle x q false)).objs.obj h = _ at ho
        rw [hh, Memory.newHandle_obj_self] at ho
        cases ho
        rfl
      · exact .inl (Memory.newHandle_obj_of_ne hh)

omit [DecidableEq ι] in
theorem remove_error_list (hl : Linked q mem l) (size : ι → BitVec 64) {handle : Option HandleId}
    (hdead : ∀ e ∈ l.requests, handle ≠ some e.1) :
    ∃ e, ListState.remove ⟨mem, l⟩ size q handle = (⟨mem, l⟩, .error e) := by
  fun_cases ListState.remove ⟨mem, l⟩ size q handle with
  | case1 => exact ⟨_, rfl⟩
  | case2 h hinv => exact ⟨_, rfl⟩
  | case3 h hinv x owner b ho hne => exact ⟨_, rfl⟩
  | case4 h hinv x owner b ho hne =>
    rw [Decidable.not_not] at hne
    subst hne
    have hb : b = false := by
      rw [ho] at hinv
      exact Bool.eq_false_iff.mpr hinv
    subst hb
    exact absurd rfl (hdead _ (hl.live h x ho))
  | case5 => exact ⟨_, rfl⟩

theorem refines_remove_list (hw : Inv size w) (hq : w.queue q = .list l) (handle : Option HandleId) :
    Refines size w (.remove q handle) (w.exec less size (.remove q handle)) := by
  have hl : Linked q w.mem l := (hw.rep q).list l hq
  by_cases hlive : ∃ e ∈ l.requests, handle = some e.1
  · obtain ⟨⟨h, x⟩, he, rfl⟩ := hlive
    have ho := hl.obj _ he
    have hu : Unlinked w.mem l q (·.1 ≠ h) (w.mem.invalidate h) := by
      refine ⟨rfl, rfl, rfl, fun e _ hk => ?_, fun e he' hk => ?_, fun h' hne => ?_⟩
      · exact Heap.set_obj_of_ne _ (by simpa using hk)
      · have heq : e.1 = h := by simpa using hk
        have hobj := hl.obj e he'
        rw [heq] at hobj ⊢
        show (w.mem.objs.set h _).obj h = _
        rw [Heap.set_obj_self, hobj]
        rfl
      · exact Heap.set_obj_of_ne _ (Ne.symm (hne _ he))
    -- the element is the only one with its handle
    have hremoved : (l.requests.filter fun e => !decide (e.1 ≠ h)).map Prod.snd = [x] := by
      rw [List.filter_congr fun e hm => show _ = (e == (h, x)) from ?_, List.filter_beq,
        List.count_eq_one_of_mem hl.nodup.of_map he]
      · rfl
      · rw [Bool.eq_iff_iff]
        simp only [ne_eq, decide_not, Bool.not_not, decide_eq_true_eq, beq_iff_eq]
        exact ⟨hl.eq_of_fst hm he, fun heq => by rw [heq]⟩
    have hlost := lost_list (b := l.byteSize - size x) hw hq hu (by
      rw [hremoved]
      simp)
    rw [hremoved] at hlost
    have hremove : ListState.remove ⟨w.mem, l⟩ size q (some h) = (⟨w.mem.invalidate h,
        ⟨l.requests.filter (·.1 ≠ h), l.byteSize - size x⟩⟩, .ok x) := by
      simp [ListState.remove, ho, HandleObj.isInvalidated]
    simp only [World.exec, hq, hremove, Result.ofExcept]
    refine .removeLive hw hlost.1 hlost.2 (hl.handle _ he) fun h' heq => ?_
    cases heq
    show ((w.mem.objs.set h _).obj h).isInvalidated = true
    rw [Heap.set_obj_self, HandleObj.isInvalidated_invalidate]
  · obtain ⟨e, he⟩ := remove_error_list hl size fun e hm heq => hlive ⟨e, hm, heq⟩
    simp only [World.exec, hq, he, Result.ofExcept]
    rw [← hq, w.put_self]
    refine .removeOther hw fun x hx hxh => hlive ?_
    rw [hq] at hx
    obtain ⟨e, hm, rfl⟩ := List.mem_map.mp hx
    exact ⟨e, hm, hxh.symm.trans (hl.handle e hm)⟩

theorem refines_cleanup_list (hw : Inv size w) (hq : w.queue q = .list l) (p : ι → Bool) :
    Refines size w (.cleanup q p) (w.exec less size (.cleanup q p)) := by
  have hl : Linked q w.mem l := (hw.rep q).list l hq
  have hu := hl.invalidateItems (!p ·.2)
  obtain ⟨hrep, hlost⟩ := lost_list (b := _) hw hq hu (sub_add_cancel _ _)
  simp only [Bool.not_not] at hrep hlost
  have hitems : (l.requests.filter (p ·.2)).map Prod.snd = (w.queue q).items.filter p := by
    rw [hq, QueueObj.items, List.filter_map]
    rfl
  simp only [World.exec, hq, ListState.cleanup, foldl_sub_sum]
  rw [hitems] at hrep hlost ⊢
  exact .cleanup hw hrep hlost

theorem refines_drain_list (hw : Inv size w) (hq : w.queue q = .list l) :
    Refines size w (.drain q) (w.exec less size (.drain q)) := by
  have hl : Linked q w.mem l := (hw.rep q).list l hq
  have hu := hl.invalidateItems fun _ => false
  have hall : l.requests.filter (fun _ => !false) = l.requests := List.filter_true _
  have hlost := lost_list (b := 0) hw hq hu (by
    rw [hall, zero_add, hw.byteSize_list hq])
  rw [hall, List.filter_false] at hlost
  simp only [World.exec, hq, ListState.drain]
  have hitems : l.requests.map Prod.snd = (w.queue q).items := by rw [hq]; rfl
  rw [hitems] at hlost ⊢
  exact .drain hw hlost.1 hlost.2

end

/-! ## Runs -/

section

variable {κ ι : Type*} {size : ι → BitVec 64} {w : World κ ι}

theorem Inv.sound (hw : Inv size w) (q : κ) : w.mem.panicked = false := by
  cases hq : w.queue q with
  | heap h => exact ((hw.rep q).heap h hq).sound
  | list l => exact ((hw.rep q).list l hq).sound

theorem Inv.foreignHandle (hw : Inv size w) (b : Bool) :
    Inv size { w with mem := { w.mem with objs := w.mem.objs.alloc (.other b) } } := by
  refine ⟨fun q => (hw.rep q).spared ⟨fun _ _ => rfl, fun x hx h hxh => ?_, fun h x ho => ?_, Nat.le_succ _,
    hw.sound q⟩, hw.apart⟩
  · obtain ⟨h', hlt, hxh'⟩ := (hw.rep q).handle hx
    rw [hxh, Option.some.injEq] at hxh'
    exact Heap.alloc_obj_of_lt _ (hxh' ▸ hlt)
  · by_cases hh : h = w.mem.objs.next
    · subst hh
      change (w.mem.objs.alloc _).obj _ = _ at ho
      rw [Heap.alloc_obj_self] at ho
      cases ho
    · exact (update_of_ne hh ..).symm.trans ho

theorem bags_new (kind : κ → Kind) : (World.new kind : World κ ι).bags = ⟨fun _ => 0, ∅⟩ := by
  refine congrArg₂ _ (funext fun q => ?_) rfl
  show ((kind q).new : QueueObj ι).bag _ = 0
  cases kind q <;> rfl

variable [DecidableEq κ] [DecidableEq ι] {less : κ → ι → ι → Bool} {kind : κ → Kind} {op : Op κ ι}

theorem exec_refines (hw : Inv size w) (hop : Fresh w op) : Refines size w op (w.exec less size op) := by
  cases op with
  | add q x =>
    cases hq : w.queue q with
    | heap h => exact refines_add_heap less hw hq hop
    | list l => exact refines_add_list less hw hq hop
  | remove q handle =>
    cases hq : w.queue q with
    | heap h => exact refines_remove_heap less hw hq handle
    | list l => exact refines_remove_list less hw hq handle
  | cleanup q p =>
    cases hq : w.queue q with
    | heap h => exact refines_cleanup_heap less hw hq p
    | list l => exact refines_cleanup_list less hw hq p
  | drain q =>
    cases hq : w.queue q with
    | heap h => exact refines_drain_heap less hw hq
    | list l => exact refines_drain_list less hw hq
  | foreignHandle b =>
    refine ⟨hw.foreignHandle b, ?_, nofun, nofun⟩
    have hbags : (w.exec less size (.foreignHandle b)).1.bags = ⟨w.bags.bag, insert w.mem.objs.next w.bags.issued⟩ := by
      refine congrArg₂ _ (funext fun q => ?_) Finset.range_add_one
      show (w.queue q).bag _ = (w.queue q).bag _
      cases w.queue q <;> rfl
    rw [hbags]
    exact .foreignHandle Finset.notMem_range_self

variable {q : κ}

theorem exec_conserves (hw : Inv size w) (hop : Fresh w op) (hq : op.queue = some q) :
    (((w.exec less size op).1.queue q).items : Multiset ι) + ((w.exec less size op).2.taken : Multiset ι) =
      ((w.queue q).items : Multiset ι) + (op.given : Multiset ι) := by
  have hr : Refines size w op (w.exec less size op) := exec_refines hw hop
  rw [hr.inv.items_eq, hw.items_eq]
  exact hr.step.conserves hq

theorem exec_add_done (q : κ) (x : ι) : (w.exec less size (.add q x)).2 = .done := by
  simp only [World.exec]
  split <;> rfl

theorem mem_exec_add (hw : Inv size w) {x : ι} (hop : Fresh w (.add q x)) :
    x ∈ ((w.exec less size (.add q x)).1.queue q).items := by
  have hconserve : (((w.exec less size (.add q x)).1.queue q).items : Multiset ι) + _ = _ :=
    exec_conserves hw hop rfl
  rw [exec_add_done, show (Result.done : Result ι).taken = [] from rfl, Multiset.coe_nil, add_zero] at hconserve
  rw [← Multiset.mem_coe, hconserve]
  exact Multiset.mem_add.mpr (.inr (List.mem_singleton.mpr rfl))

theorem exec_queue_of_ne (hq : op.queue ≠ some q) : (w.exec less size op).1.queue q = w.queue q := by
  have hput : ∀ {mem : Memory κ ι} {q' : κ} {o : QueueObj ι}, Option.some q' ≠ some q →
      (w.put mem q' o).queue q = w.queue q := fun hne => update_of_ne (fun he => hne (congrArg _ he.symm)) ..
  cases op with
  | foreignHandle b => rfl
  | _ =>
    simp only [World.exec]
    split <;> exact hput hq

theorem reaches_inv (h : Reaches (step less size) Fresh (World.new kind) w) : Inv size w := by
  refine h.invariant (Inv size) (.new kind) fun _ _ _ hw hop hs => ?_
  cases hs
  exact (exec_refines hw hop).inv

/-- **The queues refine their bags.** Empty queues are empty bags. In every run
of any number of heaps and list queues, the items of a queue are those of its
bag, with their handles; `Len` is their number and `ByteSize` the sum of their
sizes (in the 64 bits of the field). Whatever is called next does to the bags
what `Bags.Step` says; a `Remove` that succeeds invalidates its handle, and one
that fails changes nothing at all. -/
theorem queues_refine_bags (h : Reaches (step less size) Fresh (World.new kind) w) :
    (World.new kind : World κ ι).bags = ⟨fun _ => 0, ∅⟩ ∧
    (∀ q, ((w.queue q).items : Multiset ι) = (w.bags.bag q).map Prod.snd ∧
      (∀ e ∈ w.bags.bag q, w.mem.handle e.2 = e.1) ∧
      (w.queue q).len = (w.bags.bag q).card ∧
      (w.queue q).byteSize = ((w.bags.bag q).map fun e => size e.2).sum ∧
      w.mem.panicked = false) ∧
    ∀ op, Fresh w op →
      Bags.Step w.bags op (w.exec less size op).2 (w.exec less size op).1.bags ∧
      (∀ q handle x, op = .remove q (some handle) → (w.exec less size op).2 = .removed x →
        ((w.exec less size op).1.mem.objs.obj handle).isInvalidated) ∧
      ∀ e, (w.exec less size op).2 = .error e → (w.exec less size op).1 = w := by
  have hw := reaches_inv h
  refine ⟨bags_new kind, fun q => ?_, fun op hop => ?_⟩
  · have hbag := hw.bag_eq q
    refine ⟨hw.items_eq q, fun e he => ?_, ?_, ?_, hw.sound q⟩
    · rw [hbag, Multiset.mem_coe, List.mem_map] at he
      obtain ⟨x, -, rfl⟩ := he
      rfl
    · rw [hbag, Multiset.coe_card, List.length_map, QueueObj.length_items]
    · rw [hbag, Multiset.map_coe, Multiset.sum_coe, List.map_map]
      exact (hw.rep q).byteSize
  · have hr : Refines size w op (w.exec less size op) := exec_refines hw hop
    exact ⟨hr.step, hr.invalidated, hr.unchanged⟩

instance [Fintype κ] (w : World κ ι) : ∀ op, Decidable (Fresh w op)
  | .add _ x => inferInstanceAs (Decidable (∀ q, x ∉ (w.queue q).items))
  | .remove _ _ => .isTrue trivial
  | .cleanup _ _ => .isTrue trivial
  | .drain _ => .isTrue trivial
  | .foreignHandle _ => .isTrue trivial

end

/-- A heap (`false`) and a list queue (`true`), ordered by number. -/
def twoQueues : Bool → Kind
  | false => .maxMinHeap
  | true => .listQueue

def byNumber : Bool → Nat → Nat → Bool := fun _ x y => x < y

/-- Items move through both queues; the handle `1` is removed from the heap
twice and tried on the list. -/
def shuffle : List (Op Bool Nat) :=
  [.add false 5, .add false 3, .add false 4, .add true 7, .remove false (some 1), .remove false (some 1),
    .remove true (some 1), .add true 3, .foreignHandle false, .remove true (some 5), .remove true none,
    .cleanup true (· == 7)]

theorem queues_refine_bags_shuffle : ∃ w, Reaches (step byNumber fun x => BitVec.ofNat 64 x) Fresh
    (World.new twoQueues) w ∧ (w.queue true).items = [3] ∧ (w.queue false).len = 2 ∧
      (w.queue false).byteSize = ((w.bags.bag false).map fun e => BitVec.ofNat 64 e.2).sum ∧
      ((w.queue true).items : Multiset Nat) = (w.bags.bag true).map Prod.snd := by
  obtain ⟨w, hw, hp⟩ := exists_of_runIf (step byNumber fun x => BitVec.ofNat 64 x) Fresh (World.new twoQueues) shuffle
    (fun w => (w.queue true).items = [3] ∧ (w.queue false).len = 2) (by decide +kernel)
  have h := (queues_refine_bags hw).2.1
  exact ⟨w, hw, hp.1, hp.2, (h false).2.2.2.1, (h true).1⟩

end InferenceScheduler.Queue
