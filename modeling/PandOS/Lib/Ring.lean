import Mathlib.Data.Fintype.Card
import Mathlib.Data.List.Nodup
import Mathlib.Logic.Function.Basic

/-!
# Library — circular doubly linked lists

`Links`: the two pointers of every node.  `Ring m h xs`: from `h` the pointers go through `xs` and
back, in both directions.  A node is put into a ring (`Ring.insert`) and taken out of it
(`Ring.remove`) by writing the pointers of its neighbours; what writes to other nodes leaves the
ring alone (`Ring.congr`).

In a family of rings each has a head of its own, and the elements are shared out among them:
`Rings m l` says that the ring of the head `k` is the list `l k`, where it has been set up.
`forEach` goes over one ring.
-/

namespace PandOS

/-- The pointers of the nodes. -/
structure Links (ν : Type*) where
  next : ν → ν
  prev : ν → ν

namespace Links

variable {ν : Type*} {m t : Links ν} {h n u v x : ν} {xs as bs : List ν}

/-! ### One ring -/

/-- From `u` the pointers go through `xs`. -/
def Path (m : Links ν) : ν → List ν → Prop
  | _, [] => True
  | u, x :: xs => m.next u = x ∧ m.prev x = u ∧ m.Path x xs

/-- From `h` the pointers go through `xs` and back to `h`. -/
def Ring (m : Links ν) (h : ν) (xs : List ν) : Prop := (h :: xs).Nodup ∧ m.Path h (xs ++ [h])

/-- The last node of `u :: xs`. -/
def last (u : ν) (xs : List ν) : ν := xs.getLastD u

/-- The first node of `xs ++ [h]`. -/
def first (h : ν) (xs : List ν) : ν := xs.headD h

@[simp] theorem last_nil : last u [] = u := rfl

@[simp] theorem last_cons : last u (x :: xs) = last x xs := List.getLastD_cons ..

@[simp] theorem last_append : last u (as ++ [x]) = x := List.getLastD_concat

@[simp] theorem first_nil : first h [] = h := rfl

@[simp] theorem first_cons : first h (x :: xs) = x := rfl

theorem last_mem (u : ν) (xs : List ν) : last u xs ∈ u :: xs := by
  induction xs generalizing u with
  | nil => simp
  | cons x xs ih => rw [last_cons]; exact List.mem_cons_of_mem _ (ih x)

theorem first_mem (h : ν) (xs : List ν) : first h xs ∈ h :: xs := by
  cases xs <;> simp

theorem path_append : m.Path u (as ++ x :: bs) ↔
    m.Path u as ∧ m.next (last u as) = x ∧ m.prev x = last u as ∧ m.Path x bs := by
  induction as generalizing u with
  | nil => simp [Path]
  | cons y as ih => simp [Path, ih, and_assoc]

/-- A path reads the pointers of its own nodes, but not `next` of the last. -/
theorem Path.congr (hp : m.Path u xs) (hn : ∀ y ∈ (u :: xs).dropLast, t.next y = m.next y)
    (hv : ∀ y ∈ xs, t.prev y = m.prev y) : t.Path u xs := by
  induction xs generalizing u with
  | nil => trivial
  | cons x xs ih =>
      obtain ⟨h₁, h₂, hp⟩ := hp
      refine ⟨(hn u (by simp)).trans h₁, (hv x (by simp)).trans h₂, ih hp ?_ ?_⟩
      · intro y hy
        exact hn y (by simp [hy])
      · intro y hy
        exact hv y (by simp [hy])

/-- **Frame**: a ring depends on the pointers of its nodes. -/
theorem Ring.congr (hr : m.Ring h xs) (hn : ∀ y ∈ h :: xs, t.next y = m.next y)
    (hv : ∀ y ∈ h :: xs, t.prev y = m.prev y) : t.Ring h xs := by
  refine ⟨hr.1, hr.2.congr ?_ ?_⟩
  · intro y hy
    have := List.dropLast_subset _ hy
    simp only [List.mem_cons, List.mem_append] at this
    exact hn y (by simp; tauto)
  · intro y hy
    exact hv y (by simp at hy ⊢; tauto)

/-- A ring, cut in two. -/
theorem path_ring : m.Path h (as ++ bs ++ [h]) ↔ m.Path h as ∧
    m.next (last h as) = first h bs ∧ m.prev (first h bs) = last h as ∧
    m.Path (first h bs) (bs ++ [h]).tail := by
  cases bs with
  | nil => simp [path_append]
  | cons x bs => simp [path_append, List.append_assoc]

/-- Neighbours point to each other. -/
theorem Ring.adj (hr : m.Ring h (as ++ bs)) :
    m.next (last h as) = first h bs ∧ m.prev (first h bs) = last h as := by
  obtain ⟨-, h₁, h₂, -⟩ := path_ring.mp hr.2
  exact ⟨h₁, h₂⟩

theorem first_cons_tail (h : ν) (bs : List ν) : first h bs :: (bs ++ [h]).tail = bs ++ [h] := by
  cases bs <;> simp

theorem path_first : m.Path n (bs ++ [h]) ↔
    m.next n = first h bs ∧ m.prev (first h bs) = n ∧ m.Path (first h bs) (bs ++ [h]).tail := by
  cases bs <;> simp [Path]

theorem last_notMem (hn : (u :: xs).Nodup) : last u xs ∉ (u :: xs).dropLast := by
  induction xs generalizing u with
  | nil => simp
  | cons x xs ih =>
      obtain ⟨hu, hn⟩ := List.nodup_cons.mp hn
      rw [last_cons, List.dropLast_cons_of_ne_nil (List.cons_ne_nil x xs), List.mem_cons, not_or]
      exact ⟨fun he => hu (he ▸ last_mem x xs), ih hn⟩

/-- The two parts of a ring have no node in common. -/
theorem parts (hn : (h :: (as ++ bs)).Nodup) :
    (h :: as).Nodup ∧ (bs ++ [h]).Nodup ∧ (∀ x ∈ h :: as, x ∉ bs) ∧ ∀ x ∈ as, x ∉ bs ++ [h] := by
  simp only [List.nodup_cons, List.mem_append, not_or, List.nodup_append'] at hn
  obtain ⟨⟨h₁, h₂⟩, hna, hnb, hd⟩ := hn
  refine ⟨List.nodup_cons.mpr ⟨h₁, hna⟩, ?_, ?_, ?_⟩
  · rw [List.nodup_append']
    exact ⟨hnb, List.nodup_singleton h, List.disjoint_singleton.mpr h₂⟩
  · intro x hx
    rcases List.mem_cons.mp hx with rfl | hx
    · exact h₂
    · exact hd hx
  · intro x hx hb
    rcases List.mem_append.mp hb with hb | hb
    · exact hd hx hb
    · exact h₁ (List.mem_singleton.mp hb ▸ hx)

/-- The neighbours of a node of a ring. -/
theorem Ring.neighbours (hr : m.Ring h (as ++ n :: bs)) :
    m.next n = first h bs ∧ m.prev n = last h as := by
  have hp := hr.2
  rw [List.append_assoc, List.cons_append, path_append, path_first] at hp
  exact ⟨hp.2.2.2.1, hp.2.2.1⟩

/-- A node that is linked to itself is an empty ring. -/
theorem ring_nil : m.Ring h [] ↔ m.next h = h ∧ m.prev h = h := by
  simp [Ring, Path]

/-- The two parts of a path that was cut at two neighbours, after their pointers have changed. -/
theorem pieces (hd : (h :: (as ++ bs)).Nodup) (hn : n ∉ h :: (as ++ bs)) (hp₁ : m.Path h as)
    (hp₂ : m.Path (first h bs) (bs ++ [h]).tail) (ht : ∀ x, x ≠ n →
      (x ≠ last h as → t.next x = m.next x) ∧ (x ≠ first h bs → t.prev x = m.prev x)) :
    t.Path h as ∧ t.Path (first h bs) (bs ++ [h]).tail := by
  obtain ⟨hnh, hnas, hnbs⟩ : n ≠ h ∧ n ∉ as ∧ n ∉ bs := by simpa using hn
  obtain ⟨hna, hnb, hab, hba⟩ := parts hd
  refine ⟨hp₁.congr ?_ ?_, hp₂.congr ?_ ?_⟩
  · intro y hy
    have hmem := List.dropLast_subset _ hy
    refine (ht y fun he => ?_).1 fun he => last_notMem hna (he ▸ hy)
    rw [he, List.mem_cons] at hmem
    exact hmem.elim hnh hnas
  · intro y hy
    refine (ht y fun he => hnas (he ▸ hy)).2 fun he => hba y hy ?_
    rw [he, ← first_cons_tail]
    exact List.mem_cons_self
  · intro y hy
    rw [first_cons_tail, List.dropLast_concat] at hy
    exact (ht y fun he => hnbs (he ▸ hy)).1 fun he => hab _ (last_mem h as) (he ▸ hy)
  · intro y hy
    have hmem := List.mem_of_mem_tail hy
    rw [← first_cons_tail] at hnb
    refine (ht y fun he => ?_).2 fun he => (List.nodup_cons.mp hnb).1 (he ▸ hy)
    rw [he, List.mem_append, List.mem_singleton] at hmem
    exact hmem.elim hnbs hnh

/-- A node that is not in the ring is not a neighbour. -/
theorem ends_ne (hn : n ∉ h :: (as ++ bs)) : last h as ≠ n ∧ first h bs ≠ n := by
  obtain ⟨hnh, hnas, hnbs⟩ : n ≠ h ∧ n ∉ as ∧ n ∉ bs := by simpa using hn
  constructor
  · intro he
    have hmem := last_mem h as
    rw [he, List.mem_cons] at hmem
    exact hmem.elim hnh hnas
  · intro he
    have hmem := first_mem h bs
    rw [he, List.mem_cons] at hmem
    exact hmem.elim hnh hnbs

theorem nodup_middle : (h :: (as ++ n :: bs)).Nodup ↔
    n ∉ h :: (as ++ bs) ∧ (h :: (as ++ bs)).Nodup := by
  have hperm : (h :: (as ++ n :: bs)).Perm (n :: h :: (as ++ bs)) :=
    (List.perm_middle.cons h).trans (List.Perm.swap n h _)
  exact hperm.nodup_iff.trans List.nodup_cons

/-! ### Writing pointers -/

section
variable [DecidableEq ν]

/-- The `next` pointer of `n` is written. -/
def setNext (m : Links ν) (n x : ν) : Links ν := { m with next := Function.update m.next n x }

/-- The `prev` pointer of `n` is written. -/
def setPrev (m : Links ν) (n x : ν) : Links ν := { m with prev := Function.update m.prev n x }

@[simp] theorem setNext_next : (m.setNext n x).next = Function.update m.next n x := rfl

@[simp] theorem setNext_prev : (m.setNext n x).prev = m.prev := rfl

@[simp] theorem setPrev_next : (m.setPrev n x).next = m.next := rfl

@[simp] theorem setPrev_prev : (m.setPrev n x).prev = Function.update m.prev n x := rfl

/-- `n` is linked between `u` and `v`. -/
def insert (m : Links ν) (n u v : ν) : Links ν :=
  (((m.setPrev v n).setNext n v).setPrev n u).setNext u n

/-- `n` is taken out from between its neighbours, and linked to itself. -/
def remove (m : Links ν) (n : ν) : Links ν :=
  (((m.setPrev (m.next n) (m.prev n)).setNext (m.prev n) (m.next n)).setNext n n).setPrev n n

theorem insert_next (hu : u ≠ n) : (m.insert n u v).next u = n ∧ (m.insert n u v).next n = v ∧
    ∀ x, x ≠ u → x ≠ n → (m.insert n u v).next x = m.next x := by
  refine ⟨by simp [insert], by simp [insert, Ne.symm hu], ?_⟩
  intro x hxu hxn
  simp [insert, hxu, hxn]

theorem insert_prev (hv : v ≠ n) : (m.insert n u v).prev v = n ∧ (m.insert n u v).prev n = u ∧
    ∀ x, x ≠ v → x ≠ n → (m.insert n u v).prev x = m.prev x := by
  refine ⟨by simp [insert, hv], by simp [insert], ?_⟩
  intro x hxv hxn
  simp [insert, hxv, hxn]

/-- **A node is put into a ring.** -/
theorem Ring.insert (hr : m.Ring h (as ++ bs)) (hn : n ∉ h :: (as ++ bs)) :
    (m.insert n (last h as) (first h bs)).Ring h (as ++ n :: bs) := by
  obtain ⟨hu, hv⟩ := ends_ne hn
  obtain ⟨hp₁, -, -, hp₂⟩ := path_ring.mp hr.2
  obtain ⟨hn₁, hn₂, hn₃⟩ := insert_next (m := m) (v := first h bs) hu
  obtain ⟨hv₁, hv₂, hv₃⟩ := insert_prev (m := m) (u := last h as) hv
  obtain ⟨hp₁, hp₂⟩ := pieces hr.1 hn hp₁ hp₂ fun x hx =>
    ⟨fun hxu => hn₃ x hxu hx, fun hxv => hv₃ x hxv hx⟩
  refine ⟨nodup_middle.mpr ⟨hn, hr.1⟩, ?_⟩
  rw [List.append_assoc, List.cons_append, path_append, path_first]
  exact ⟨hp₁, hn₁, hv₂, hn₂, hv₁, hp₂⟩

/-- **A node is taken out of a ring.** -/
theorem Ring.remove (hr : m.Ring h (as ++ n :: bs)) : (m.remove n).Ring h (as ++ bs) := by
  obtain ⟨hnext, hprev⟩ := hr.neighbours
  obtain ⟨hn, hd⟩ := nodup_middle.mp hr.1
  obtain ⟨hu, hv⟩ := ends_ne hn
  have hp := hr.2
  rw [List.append_assoc, List.cons_append, path_append, path_first] at hp
  obtain ⟨hp₁, -, -, -, -, hp₂⟩ := hp
  obtain ⟨hp₁, hp₂⟩ := pieces (t := m.remove n) hd hn hp₁ hp₂ fun x hxn => by
    simp only [Links.remove, hnext, hprev]
    exact ⟨fun hx => by simp [hxn, hx], fun hx => by simp [hxn, hx]⟩
  refine ⟨hd, path_ring.mpr ⟨hp₁, ?_, ?_, hp₂⟩⟩
  · simp [Links.remove, hnext, hprev, hu]
  · simp [Links.remove, hnext, hprev, hv]

/-- Insertion writes to the node and to its neighbours. -/
theorem insert_of_ne (hn : x ≠ n) (hu : x ≠ u) (hv : x ≠ v) :
    (m.insert n u v).next x = m.next x ∧ (m.insert n u v).prev x = m.prev x := by
  constructor
  · simp [Links.insert, hn, hu]
  · simp [Links.insert, hn, hv]

/-- Removal writes to the node and to its neighbours. -/
theorem remove_of_ne (hn : x ≠ n) (hu : x ≠ m.prev n) (hv : x ≠ m.next n) :
    (m.remove n).next x = m.next x ∧ (m.remove n).prev x = m.prev x := by
  constructor
  · simp [Links.remove, hn, hu]
  · simp [Links.remove, hn, hv]

end

end Links

/-! ### A family of rings -/

/-- A node: the head of a ring, or the link in an element. -/
inductive Node (κ ε : Type*) where
  | head (k : κ)
  | link (e : ε)
  deriving DecidableEq

namespace Links

section
variable {κ ε : Type*} {m t : Links (Node κ ε)} {l : κ → Option (List ε)} {k k' : κ} {e : ε}
  {xs ys as bs : List ε} {x : Node κ ε}

/-- The rings of the heads that have been set up.  An element is in one at most. -/
structure Rings (m : Links (Node κ ε)) (l : κ → Option (List ε)) : Prop where
  ring : ∀ k xs, l k = some xs → m.Ring (.head k) (xs.map .link)
  apart : ∀ k k' xs ys e, l k = some xs → l k' = some ys → e ∈ xs → e ∈ ys → k = k'

/-- The element is in no ring. -/
def Out (l : κ → Option (List ε)) (e : ε) : Prop := ∀ k xs, l k = some xs → e ∉ xs

namespace Rings

theorem nodup (h : m.Rings l) (hk : l k = some xs) : xs.Nodup :=
  List.Nodup.of_map _ (List.nodup_cons.mp (h.ring k xs hk).1).2

/-- Two rings have no node in common. -/
theorem disjoint (h : m.Rings l) (hk : l k = some xs) (hk' : l k' = some ys) (hne : k' ≠ k)
    (hx : x ∈ Node.head k' :: ys.map Node.link) : x ∉ Node.head k :: xs.map Node.link := by
  intro hx'
  cases x with
  | head c =>
      simp only [List.mem_cons, Node.head.injEq, List.mem_map, reduceCtorEq, and_false,
        exists_false, or_false] at hx hx'
      exact hne (hx.symm.trans hx')
  | link c =>
      simp only [List.mem_cons, reduceCtorEq, List.mem_map, Node.link.injEq, exists_eq_right,
        false_or] at hx hx'
      exact hne (h.apart k' k ys xs c hk' hk hx hx')

theorem link_notMem (he : Out l e) (hk : l k = some xs) :
    Node.link e ∉ Node.head k :: xs.map Node.link := by
  simpa using he k xs hk

/-- The neighbours of a head. -/
theorem head_next (h : m.Rings l) (hk : l k = some xs) :
    m.next (.head k) = first (.head k) (xs.map .link) := by
  have hr : m.Ring (.head k) ([] ++ xs.map .link) := h.ring k xs hk
  exact hr.adj.1

theorem head_prev (h : m.Rings l) (hk : l k = some xs) :
    m.prev (.head k) = last (.head k) (xs.map .link) := by
  have hr := h.ring k xs hk
  rw [← List.append_nil (xs.map Node.link)] at hr
  exact hr.adj.2

end Rings

end

variable {κ ε : Type*} [DecidableEq κ] {m t : Links (Node κ ε)} {l : κ → Option (List ε)} {k : κ}
  {e : ε} {xs ys as bs : List ε}

/-- One ring is changed, the others are left alone. -/
theorem Rings.update (h : m.Rings l) (hr : t.Ring (.head k) (xs.map .link))
    (hf : ∀ c ys, c ≠ k → l c = some ys → ∀ y ∈ Node.head c :: ys.map Node.link,
      t.next y = m.next y ∧ t.prev y = m.prev y)
    (ho : ∀ c ys, c ≠ k → l c = some ys → ∀ e ∈ xs, e ∉ ys) :
    t.Rings (Function.update l k (some xs)) := by
  constructor
  · intro c ys hc
    by_cases hck : c = k
    · subst hck
      rw [Function.update_self] at hc
      obtain rfl := Option.some.inj hc
      exact hr
    · rw [Function.update_of_ne hck] at hc
      exact (h.ring c ys hc).congr (fun y hy => (hf c ys hck hc y hy).1)
        fun y hy => (hf c ys hck hc y hy).2
  · intro c c' ys zs e hc hc' he he'
    by_cases hck : c = k <;> by_cases hck' : c' = k
    · rw [hck, hck']
    · subst hck
      rw [Function.update_self] at hc
      obtain rfl := Option.some.inj hc
      rw [Function.update_of_ne hck'] at hc'
      exact absurd he' (ho c' zs hck' hc' e he)
    · subst hck'
      rw [Function.update_self] at hc'
      obtain rfl := Option.some.inj hc'
      rw [Function.update_of_ne hck] at hc
      exact absurd he (ho c ys hck hc e he')
    · rw [Function.update_of_ne hck] at hc
      rw [Function.update_of_ne hck'] at hc'
      exact h.apart c c' ys zs e hc hc' he he'

/-! ### Going over a ring -/

/-- A loop over the ring of `k` from the node `pos`, with `f` turns at most: `body` gives the next
value, or breaks off at an element. -/
def forEach {α : Type*} (m : Links (Node κ ε)) (k : κ) (body : α → ε → Option α) :
    ℕ → Node κ ε → α → Option (α × Option ε)
  | 0, _, _ => none
  | _ + 1, .head c, a => if c = k then some (a, none) else none
  | f + 1, .link e, a =>
      match body a e with
      | none => some (a, some e)
      | some b => m.forEach k body f (m.next (.link e)) b

/-- The loop, on a list. -/
def scan {α : Type*} (body : α → ε → Option α) : List ε → α → α × Option ε
  | [], a => (a, none)
  | e :: xs, a =>
      match body a e with
      | none => (a, some e)
      | some b => scan body xs b

section
variable {α : Type*} {body : α → ε → Option α} {a : α} {f : ℕ}

/-- With fuel for the whole ring, the loop is a scan of the elements. -/
theorem forEach_path {u : Node κ ε} (hp : m.Path u (xs.map .link ++ [.head k]))
    (hf : xs.length < f) : m.forEach k body f (m.next u) a = some (scan body xs a) := by
  induction xs generalizing u a f with
  | nil =>
      obtain ⟨f, rfl⟩ : ∃ n, f = n + 1 := ⟨f - 1, by simp at hf; omega⟩
      have hu : m.next u = .head k := hp.1
      rw [hu]
      simp [forEach, scan]
  | cons e xs ih =>
      obtain ⟨f, rfl⟩ : ∃ n, f = n + 1 := ⟨f - 1, by simp at hf; omega⟩
      have hu : m.next u = .link e := hp.1
      rw [hu]
      simp only [forEach, scan]
      cases body a e with
      | none => rfl
      | some b => exact ih hp.2.2 (by simpa using hf)

/-- **The loop ends** after as many turns as there are elements, and does what it does on the
list. -/
theorem Rings.forEach (h : m.Rings l) (hk : l k = some xs) (hf : xs.length < f) :
    m.forEach k body f (m.next (.head k)) a = some (scan body xs a) :=
  forEach_path (h.ring k xs hk).2 hf

/-- A loop that looks for an element. -/
theorem scan_find (P : ε → Bool) :
    scan (fun (_ : Unit) e => if P e then none else some ()) xs () = ((), xs.find? P) := by
  induction xs with
  | nil => rfl
  | cons e xs ih =>
      by_cases he : P e <;> simp [scan, he, ih]

/-- A loop that collects the elements. -/
theorem scan_collect (as : List ε) :
    scan (fun as e => some (as ++ [e])) xs as = (as ++ xs, none) := by
  induction xs generalizing as with
  | nil => simp [scan]
  | cons e xs ih => simp [scan, ih]

end

/-! ### Changing a family -/

variable [DecidableEq ε]

/-- `e` is linked after the elements `as` of the ring of `k` and before the elements `bs`. -/
def insertAt (m : Links (Node κ ε)) (k : κ) (e : ε) (as bs : List ε) : Links (Node κ ε) :=
  m.insert (.link e) (last (.head k) (as.map .link)) (first (.head k) (bs.map .link))

/-- `k` is linked to itself. -/
def make (m : Links (Node κ ε)) (k : κ) : Links (Node κ ε) :=
  (m.setNext (.head k) (.head k)).setPrev (.head k) (.head k)

namespace Rings

/-- **An element is put into a ring.** -/
theorem insertAt (h : m.Rings l) (hk : l k = some (as ++ bs)) (he : Out l e) :
    (m.insertAt k e as bs).Rings (Function.update l k (some (as ++ e :: bs))) := by
  have hr := h.ring k _ hk
  have hout := link_notMem he hk
  rw [List.map_append] at hr hout
  refine h.update ?_ ?_ ?_
  · rw [List.map_append, List.map_cons]
    exact hr.insert hout
  · intro c ys hck hc y hy
    have hyk := h.disjoint hk hc hck hy
    rw [List.map_append] at hyk
    refine insert_of_ne (fun hye => link_notMem he hc (hye ▸ hy)) ?_ ?_
    · intro hyu
      have hmem := last_mem (Node.head k) (as.map Node.link)
      rw [← hyu] at hmem
      simp only [List.mem_cons, List.mem_append] at hmem hyk
      tauto
    · intro hyv
      have hmem := first_mem (Node.head k) (bs.map Node.link)
      rw [← hyv] at hmem
      simp only [List.mem_cons, List.mem_append] at hmem hyk
      tauto
  · intro c ys hck hc x hx hxy
    rcases List.mem_append.mp hx with hx | hx
    · exact hck (h.apart c k _ _ x hc hk hxy (List.mem_append_left _ hx))
    · rcases List.mem_cons.mp hx with rfl | hx
      · exact he c ys hc hxy
      · exact hck (h.apart c k _ _ x hc hk hxy (List.mem_append_right _ hx))

/-- **An element is taken out of a ring.** -/
theorem remove (h : m.Rings l) (hk : l k = some xs) (he : e ∈ xs) :
    (m.remove (.link e)).Rings (Function.update l k (some (xs.erase e))) := by
  obtain ⟨as, bs, -, rfl, her⟩ := List.exists_erase_eq he
  have hr := h.ring k _ hk
  rw [List.map_append, List.map_cons] at hr
  refine h.update ?_ ?_ ?_
  · rw [her, List.map_append]
    exact hr.remove
  · intro c ys hck hc y hy
    have hyk := h.disjoint hk hc hck hy
    rw [List.map_append, List.map_cons] at hyk
    obtain ⟨hn, hp⟩ := hr.neighbours
    refine remove_of_ne (fun hye => hyk (by simp [hye])) ?_ ?_
    · intro hyu
      have hmem := last_mem (Node.head k) (as.map Node.link)
      rw [← hp, ← hyu] at hmem
      simp only [List.mem_cons, List.mem_append] at hmem hyk
      tauto
    · intro hyv
      have hmem := first_mem (Node.head k) (bs.map Node.link)
      rw [← hn, ← hyv] at hmem
      simp only [List.mem_cons, List.mem_append] at hmem hyk
      tauto
  · intro c ys hck hc x hx hxy
    exact hck (h.apart c k _ _ x hc hk hxy (List.mem_of_mem_erase hx))

/-- **A ring is set up**, where there is none or an empty one. -/
theorem make (h : m.Rings l) (k : κ) : (m.make k).Rings (Function.update l k (some [])) := by
  refine h.update ?_ ?_ nofun
  · exact ring_nil.mpr ⟨by simp [Links.make], by simp [Links.make]⟩
  · intro c ys hck _ y hy
    have hne : y ≠ .head k := by
      rintro rfl
      simp at hy
      exact hck hy.symm
    simp [Links.make, hne]

end Rings

end Links

end PandOS
