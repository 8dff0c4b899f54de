import Mathlib.Data.List.Sort

/-!
# Library — stable priority queues

`enqueue key xs p` puts `p` before the first element with a smaller key.  `Stable key as xs`: the
list `xs` holds what has arrived, `as` in the order of arrival, with the largest keys first and
those of equal keys in the order of arrival.  `enqueue` and `List.erase` keep it, and the head of
`xs` is the first arrival of the largest key (`Stable.head`).  Who arrives with no larger key than
`p` goes behind `p` (`idxOf_enqueue`).
-/

namespace PandOS

variable {ι β : Type*} [LinearOrder β] {key key' : ι → β} {as xs bs : List ι} {p q : ι}

/-- `p` is put before the first element with a smaller key. -/
def enqueue (key : ι → β) (xs : List ι) (p : ι) : List ι :=
  xs.orderedInsert (fun p x => key x < key p) p

theorem enqueue_cons_of_lt (h : key q < key p) : enqueue key (q :: xs) p = p :: q :: xs :=
  List.orderedInsert_cons_of_le _ _ h

theorem enqueue_cons_of_le (h : key p ≤ key q) :
    enqueue key (q :: xs) p = q :: enqueue key xs p :=
  List.orderedInsert_of_not_le _ _ (not_lt.mpr h)

theorem perm_enqueue (key : ι → β) (xs : List ι) (p : ι) : (enqueue key xs p).Perm (p :: xs) :=
  List.perm_orderedInsert _ _ _

theorem mem_enqueue : q ∈ enqueue key xs p ↔ q = p ∨ q ∈ xs := by
  rw [(perm_enqueue key xs p).mem_iff, List.mem_cons]

/-- Nobody has a smaller key. -/
theorem enqueue_last (h : ∀ x ∈ xs, key p ≤ key x) : enqueue key xs p = xs ++ [p] := by
  induction xs with
  | nil => rfl
  | cons x xs ih =>
      rw [enqueue_cons_of_le (h x (by simp)), ih fun y hy => h y (by simp [hy])]
      rfl

/-- `q` is the first with a smaller key. -/
theorem enqueue_before (h : ∀ x ∈ as, key p ≤ key x) (hq : key q < key p) :
    enqueue key (as ++ q :: bs) p = as ++ p :: q :: bs := by
  induction as with
  | nil => exact enqueue_cons_of_lt hq
  | cons x as ih =>
      rw [List.cons_append, enqueue_cons_of_le (h x (by simp)), ih fun y hy => h y (by simp [hy])]
      rfl

/-- What is put in is last if and only if nobody has a smaller key. -/
theorem enqueue_eq_append_iff (hp : p ∉ xs) :
    enqueue key xs p = xs ++ [p] ↔ ∀ x ∈ xs, key p ≤ key x := by
  refine ⟨fun h => ?_, enqueue_last⟩
  induction xs with
  | nil => simp
  | cons x xs ih =>
      simp only [List.mem_cons, not_or] at hp
      rcases lt_or_ge (key x) (key p) with hlt | hle
      · rw [enqueue_cons_of_lt hlt] at h
        exact absurd (List.cons.inj h).1 hp.1
      · rw [enqueue_cons_of_le hle] at h
        simpa [hle] using ih hp.2 (List.cons.inj h).2

/-- An insertion keeps a queue in the order of its keys. -/
theorem enqueue_sorted (h : xs.Pairwise fun x y => key y ≤ key x) :
    (enqueue key xs p).Pairwise fun x y => key y ≤ key x := by
  induction xs with
  | nil => simp [enqueue]
  | cons x xs ih =>
      obtain ⟨hx, hxs⟩ := List.pairwise_cons.mp h
      rcases lt_or_ge (key x) (key p) with hlt | hle
      · rw [enqueue_cons_of_lt hlt, List.pairwise_cons]
        refine ⟨fun y hy => ?_, h⟩
        rcases List.mem_cons.mp hy with rfl | hy
        · exact hlt.le
        · exact (hx y hy).trans hlt.le
      · rw [enqueue_cons_of_le hle, List.pairwise_cons]
        refine ⟨fun y hy => ?_, ih hxs⟩
        rcases mem_enqueue.mp hy with rfl | hy
        · exact hle
        · exact hx y hy

/-- Of those with one key the new one is last. -/
theorem enqueue_filter (h : xs.Pairwise fun x y => key y ≤ key x) (v : β) :
    (enqueue key xs p).filter (fun x => key x = v) = (xs ++ [p]).filter fun x => key x = v := by
  induction xs with
  | nil => rfl
  | cons x xs ih =>
      obtain ⟨hx, hxs⟩ := List.pairwise_cons.mp h
      rcases lt_or_ge (key x) (key p) with hlt | hle
      · -- nobody in the queue has the key of `p`
        rw [enqueue_cons_of_lt hlt]
        by_cases hv : key p = v
        · have hnil : (x :: xs).filter (fun y => key y = v) = [] := by
            rw [List.filter_eq_nil_iff]
            intro y hy he
            have hey : key y = v := by simpa using he
            rcases List.mem_cons.mp hy with rfl | hy
            · exact absurd (hey.trans hv.symm) hlt.ne
            · exact absurd (hey.trans hv.symm) ((hx y hy).trans_lt hlt).ne
          rw [List.filter_append, hnil, List.filter_cons_of_pos (by simpa using hv), hnil]
          simp [hv]
        · rw [List.filter_append, List.filter_cons_of_neg (by simpa using hv)]
          simp [hv]
      · rw [enqueue_cons_of_le hle, List.cons_append, List.filter_cons, List.filter_cons, ih hxs]

/-- `xs` is what has arrived, by key and in the order of arrival. -/
structure Stable (key : ι → β) (as xs : List ι) : Prop where
  perm : xs.Perm as
  sorted : xs.Pairwise fun x y => key y ≤ key x
  order : ∀ v, (xs.filter fun x => key x = v) = as.filter fun x => key x = v

namespace Stable

theorem nil (key : ι → β) : Stable key [] [] := ⟨.refl _, .nil, fun _ => rfl⟩

theorem enqueue (h : Stable key as xs) (p : ι) :
    Stable key (as ++ [p]) (enqueue key xs p) where
  perm := (perm_enqueue key xs p).trans
    ((h.perm.cons p).trans (List.perm_append_singleton p as).symm)
  sorted := enqueue_sorted h.sorted
  order v := by rw [enqueue_filter h.sorted, List.filter_append, List.filter_append, h.order]

theorem erase [DecidableEq ι] (h : Stable key as xs) (hn : as.Nodup) (p : ι) :
    Stable key (as.erase p) (xs.erase p) where
  perm := h.perm.erase p
  sorted := h.sorted.sublist List.erase_sublist
  order v := by
    rw [hn.erase_eq_filter, (h.perm.nodup_iff.mpr hn).erase_eq_filter, List.filter_comm, h.order v,
      List.filter_comm]

theorem congr (h : Stable key as xs) (hk : ∀ x ∈ as, key' x = key x) : Stable key' as xs where
  perm := h.perm
  sorted := h.sorted.imp_of_mem fun hx hy hle => by
    rwa [hk _ (h.perm.mem_iff.mp hx), hk _ (h.perm.mem_iff.mp hy)]
  order v := by
    rw [List.filter_congr fun x hx => by rw [hk x (h.perm.mem_iff.mp hx)], h.order v]
    exact List.filter_congr fun x hx => by rw [hk x hx]

theorem le_head (h : Stable key as (p :: xs)) (hq : q ∈ as) : key q ≤ key p := by
  rcases List.mem_cons.mp (h.perm.mem_iff.mpr hq) with rfl | hq
  · exact le_rfl
  · exact (List.pairwise_cons.mp h.sorted).1 q hq

/-- Nobody of the key of the head has arrived before the head. -/
theorem first (h : Stable key (as ++ bs) (p :: xs)) (hn : (as ++ bs).Nodup) (hp : p ∈ bs)
    (hq : q ∈ as) : key q < key p := by
  refine (h.le_head (by simp [hq])).lt_of_ne fun he => ?_
  -- the first of this key, in the order of arrival, is `p`
  have ho := h.order (key p)
  rw [List.filter_cons_of_pos (by simp), List.filter_append] at ho
  cases ha : as.filter fun x => key x = key p with
  | nil => exact absurd he (by simpa using List.filter_eq_nil_iff.mp ha q hq)
  | cons x rest =>
      rw [ha, List.cons_append] at ho
      have hx : x ∈ as.filter fun x => key x = key p := ha ▸ List.mem_cons_self
      obtain rfl := (List.cons.inj ho).1
      exact (List.nodup_append'.mp hn).2.2 (List.mem_filter.mp hx).1 hp

/-- **The head is the first arrival of the largest key.** -/
theorem head (h : Stable key as (p :: xs)) (hn : as.Nodup) :
    ∃ bs cs, as = bs ++ p :: cs ∧ (∀ q ∈ bs, key q < key p) ∧ ∀ q ∈ cs, key q ≤ key p := by
  obtain ⟨bs, cs, rfl⟩ := List.append_of_mem (h.perm.mem_iff.mp List.mem_cons_self)
  exact ⟨bs, cs, rfl, fun q hq => h.first hn List.mem_cons_self hq,
    fun q hq => h.le_head (by simp [hq])⟩

end Stable

/-! ### Several arrivals -/

/-- Those of `bs` are put in, one after the other. -/
def enqueueAll (key : ι → β) (xs bs : List ι) : List ι := bs.foldl (enqueue key) xs

@[simp] theorem enqueueAll_nil (key : ι → β) (xs : List ι) : enqueueAll key xs [] = xs := rfl

@[simp] theorem enqueueAll_cons (key : ι → β) (xs bs : List ι) (p : ι) :
    enqueueAll key xs (p :: bs) = enqueueAll key (enqueue key xs p) bs := rfl

theorem enqueueAll_append (key : ι → β) (xs as bs : List ι) :
    enqueueAll key xs (as ++ bs) = enqueueAll key (enqueueAll key xs as) bs :=
  List.foldl_append

theorem perm_enqueueAll (key : ι → β) (xs bs : List ι) :
    (enqueueAll key xs bs).Perm (bs ++ xs) := by
  induction bs generalizing xs with
  | nil => exact .refl _
  | cons b bs ih =>
      have hrest : (enqueueAll key (enqueue key xs b) bs).Perm (bs ++ enqueue key xs b) := ih _
      exact (hrest.trans ((perm_enqueue key xs b).append_left bs)).trans List.perm_middle

namespace Stable

theorem enqueueAll (h : Stable key as xs) (bs : List ι) :
    Stable key (as ++ bs) (enqueueAll key xs bs) := by
  induction bs generalizing as xs with
  | nil => simpa using h
  | cons b bs ih => simpa using ih (h.enqueue b)

theorem filter (h : Stable key as xs) (P : ι → Bool) : Stable key (as.filter P) (xs.filter P) where
  perm := h.perm.filter P
  sorted := h.sorted.filter P
  order v := by rw [List.filter_comm, h.order v, List.filter_comm]

end Stable

/-! ### Overtaking -/

section
variable [DecidableEq ι]

/-- Who arrives with no larger key is put behind `p`. -/
theorem idxOf_enqueue (h : xs.Pairwise fun x y => key y ≤ key x) (hp : p ∈ xs)
    (hq : key q ≤ key p) : (enqueue key xs q).idxOf p = xs.idxOf p := by
  induction xs with
  | nil => cases hp
  | cons x xs ih =>
      obtain ⟨hx, hxs⟩ := List.pairwise_cons.mp h
      have hpx : key p ≤ key x := by
        rcases List.mem_cons.mp hp with rfl | hp
        · exact le_rfl
        · exact hx p hp
      rw [enqueue_cons_of_le (hq.trans hpx)]
      by_cases he : x = p
      · rw [he, List.idxOf_cons_self, List.idxOf_cons_self]
      · rw [List.idxOf_cons_ne _ he, List.idxOf_cons_ne _ he,
          ih hxs ((List.mem_cons.mp hp).resolve_left (Ne.symm he))]

theorem idxOf_enqueueAll (h : xs.Pairwise fun x y => key y ≤ key x) (hp : p ∈ xs)
    (hb : ∀ q ∈ bs, key q ≤ key p) : (enqueueAll key xs bs).idxOf p = xs.idxOf p := by
  induction bs generalizing xs with
  | nil => rfl
  | cons b bs ih =>
      refine (ih (enqueue_sorted h) (mem_enqueue.mpr (.inr hp)) fun q hq => hb q (by simp [hq])).trans ?_
      exact idxOf_enqueue h hp (hb b (by simp))

/-- Who leaves brings `p` no further back. -/
theorem idxOf_filter_le {P : ι → Bool} (hp : P p = true) : (xs.filter P).idxOf p ≤ xs.idxOf p := by
  induction xs with
  | nil => exact le_rfl
  | cons x xs ih =>
      by_cases he : x = p
      · rw [he, List.filter_cons_of_pos hp, List.idxOf_cons_self]
        exact Nat.zero_le _
      · rw [List.idxOf_cons_ne _ he]
        by_cases hx : P x = true
        · rw [List.filter_cons_of_pos hx, List.idxOf_cons_ne _ he]
          exact Nat.succ_le_succ ih
        · rw [List.filter_cons_of_neg hx]
          exact ih.trans (Nat.le_succ _)

end

end PandOS
