import PandOS.Lib.Ring

/-!
# Headers — the lists of `headers/listx.h`

The functions on `struct list_head` and the loop of `list_for_each`, over the pointers of a family
of lists, and what each of them does to the lists.  A node is a `list_head`: the head of a list or
the link in an element, from which `container_of` gets the element.
-/

namespace PandOS

namespace Links

section
variable {ν : Type*} [DecidableEq ν]

/-- `INIT_LIST_HEAD`: an empty list, or a node that is in none. -/
def INIT_LIST_HEAD (m : Links ν) (list : ν) : Links ν := (m.setNext list list).setPrev list list

/-- `__list_add`. -/
def listAddBetween (m : Links ν) (new prev next : ν) : Links ν :=
  (((m.setPrev next new).setNext new next).setPrev new prev).setNext prev new

/-- `list_add`: right after `head`. -/
def listAdd (m : Links ν) (new head : ν) : Links ν := m.listAddBetween new head (m.next head)

/-- `list_add_tail`: right before `head`. -/
def listAddTail (m : Links ν) (new head : ν) : Links ν := m.listAddBetween new (m.prev head) head

/-- `__list_del`. -/
def listDelBetween (m : Links ν) (prev next : ν) : Links ν :=
  (m.setPrev next prev).setNext prev next

/-- `list_del`: the node is unlinked, and then points to itself. -/
def listDel (m : Links ν) (entry : ν) : Links ν :=
  ((m.listDelBetween (m.prev entry) (m.next entry)).setNext entry entry).setPrev entry entry

/-- `list_empty`. -/
def listEmpty (m : Links ν) (head : ν) : Prop := m.next head = head

instance (m : Links ν) (head : ν) : Decidable (m.listEmpty head) :=
  inferInstanceAs (Decidable (_ = _))

end

section
variable {κ ε : Type*}

/-- `container_of`, where the node is in an element. -/
def containerOf : Node κ ε → Option ε
  | .head _ => none
  | .link e => some e

namespace Rings

variable {m : Links (Node κ ε)} {l : κ → Option (List ε)} {k : κ} {xs : List ε}

theorem listEmpty_iff (h : m.Rings l) (hk : l k = some xs) :
    m.listEmpty (.head k) ↔ xs = [] := by
  unfold listEmpty
  rw [h.head_next hk]
  cases xs <;> simp

/-- The first element. -/
theorem containerOf_next (h : m.Rings l) (hk : l k = some xs) :
    containerOf (m.next (.head k)) = xs.head? := by
  rw [h.head_next hk]
  cases xs <;> rfl

end Rings

end

variable {κ ε : Type*} [DecidableEq κ]

/-- `list_for_each`: there are no more turns than elements, and one to see the head again. -/
def listForEach {α : Type*} [Fintype ε] (m : Links (Node κ ε)) (head : κ)
    (body : α → ε → Option α) (a : α) : Option (α × Option ε) :=
  m.forEach head body (Fintype.card ε + 1) (m.next (.head head)) a

/-- The elements of a list, in their order. -/
def elems [Fintype ε] (m : Links (Node κ ε)) (head : κ) : Option (List ε) :=
  (m.listForEach head (fun xs e => some (xs ++ [e])) []).map Prod.fst

namespace Rings

variable {m : Links (Node κ ε)} {l : κ → Option (List ε)} {k : κ} {e : ε} {xs as bs : List ε}

theorem listForEach [Fintype ε] {α : Type*} {body : α → ε → Option α} {a : α} (h : m.Rings l)
    (hk : l k = some xs) : m.listForEach k body a = some (scan body xs a) :=
  h.forEach hk (Nat.lt_succ_of_le (h.nodup hk).length_le_card)

/-- A loop that breaks off at the first element with a property. -/
theorem listForEach_find [Fintype ε] (h : m.Rings l) (hk : l k = some xs) (P : ε → Prop)
    [DecidablePred P] : m.listForEach k (fun (_ : Unit) e => if P e then none else some ()) () =
      some ((), xs.find? fun e => P e) := by
  rw [h.listForEach hk, ← scan_find]
  simp

theorem elems [Fintype ε] (h : m.Rings l) (hk : l k = some xs) : m.elems k = some xs := by
  unfold Links.elems
  rw [h.listForEach hk, scan_collect]
  simp

variable [DecidableEq ε]

theorem INIT_LIST_HEAD (h : m.Rings l) (k : κ) :
    (m.INIT_LIST_HEAD (.head k)).Rings (Function.update l k (some [])) := h.make k

theorem listAddTail (h : m.Rings l) (hk : l k = some xs) (he : Out l e) :
    (m.listAddTail (.link e) (.head k)).Rings (Function.update l k (some (xs ++ [e]))) := by
  rw [← List.append_nil xs] at hk
  have hr := h.insertAt hk he
  unfold Links.listAddTail
  rw [h.head_prev hk, List.append_nil]
  exact hr

/-- `list_add` after the last of the elements `as`, or after the head if there are none. -/
theorem listAdd_last (h : m.Rings l) (hk : l k = some (as ++ bs)) (he : Out l e) :
    (m.listAdd (.link e) (last (.head k) (as.map .link))).Rings
      (Function.update l k (some (as ++ e :: bs))) := by
  have hr := h.ring k _ hk
  rw [List.map_append] at hr
  unfold Links.listAdd
  rw [hr.adj.1]
  exact h.insertAt hk he

theorem listAdd (h : m.Rings l) (hk : l k = some xs) (he : Out l e) :
    (m.listAdd (.link e) (.head k)).Rings (Function.update l k (some (e :: xs))) :=
  h.listAdd_last (show l k = some ([] ++ xs) from hk) he

/-- `__list_add` before an element. -/
theorem listAddBetween {x : ε} (h : m.Rings l) (hk : l k = some (as ++ x :: bs)) (he : Out l e) :
    (m.listAddBetween (.link e) (m.prev (.link x)) (.link x)).Rings
      (Function.update l k (some (as ++ e :: x :: bs))) := by
  have hr := h.ring k _ hk
  rw [List.map_append, List.map_cons] at hr
  rw [hr.neighbours.2]
  exact h.insertAt hk he

theorem listDel (h : m.Rings l) (hk : l k = some xs) (he : e ∈ xs) :
    (m.listDel (.link e)).Rings (Function.update l k (some (xs.erase e))) := h.remove hk he

/-- `list_add` of several elements, one after the other. -/
theorem listAdd_all {es : List ε} (h : m.Rings l) (hk : l k = some xs) (he : ∀ e ∈ es, Out l e)
    (hn : es.Nodup) : (es.foldl (fun m e => m.listAdd (.link e) (.head k)) m).Rings
      (Function.update l k (some (es.reverse ++ xs))) := by
  induction es generalizing m l xs with
  | nil =>
      have hsame : Function.update l k (some xs) = l := by rw [← hk, Function.update_eq_self]
      rw [List.reverse_nil, List.nil_append, hsame]
      exact h
  | cons e es ih =>
      obtain ⟨hes, hn⟩ := List.nodup_cons.mp hn
      have hadd := h.listAdd hk (he e List.mem_cons_self)
      have hout : ∀ c ∈ es, Out (Function.update l k (some (e :: xs))) c := by
        intro c hc k' ys hk' hcy
        by_cases hkk : k' = k
        · rw [hkk, Function.update_self] at hk'
          obtain rfl := Option.some.inj hk'
          rcases List.mem_cons.mp hcy with rfl | hcx
          · exact hes hc
          · exact he c (List.mem_cons_of_mem e hc) k xs hk hcx
        · rw [Function.update_of_ne hkk] at hk'
          exact he c (List.mem_cons_of_mem e hc) k' ys hk' hcy
      have hrest := ih hadd (Function.update_self ..) hout hn
      rw [Function.update_idem] at hrest
      rw [List.reverse_cons, List.append_assoc]
      exact hrest

/-- A link that is in no list may be set up. -/
theorem INIT_LIST_HEAD_link (h : m.Rings l) (he : Out l e) :
    (m.INIT_LIST_HEAD (.link e)).Rings l := by
  refine ⟨fun c ys hc => (h.ring c ys hc).congr ?_ ?_, h.apart⟩
  · intro y hy
    have hne : y ≠ .link e := fun hye => link_notMem he hc (hye ▸ hy)
    exact Function.update_of_ne hne ..
  · intro y hy
    have hne : y ≠ .link e := fun hye => link_notMem he hc (hye ▸ hy)
    exact Function.update_of_ne hne ..

end Rings

end Links

end PandOS
