import PandOS.Phase1.Pcb
import PandOS.Phase1.ProcQ

/-!
# Phase 1 — process control blocks, as linked lists

`pcb.c` over its pointers: the free list and the process queues go through `p_list`, the children of
a process through the `p_sib` of each of them, from the `p_child` of their parent.  The nucleus is
modelled over the lists of `Pcbs`; `refines_of_run`: in every run from `initPcbs` on in which the
callers keep to `Proper`, the pointers make these lists, and every function returns what it returns
there.  What is proved about the lists so holds of the pointers; `pool_of_run` says what becomes of
the PCBs.
-/

namespace PandOS

/-- The heads of the lists that go through `p_list`. -/
inductive PcbHead (κ : Type) where
  | pcbFree_h
  | procQ (head : κ)
  deriving DecidableEq

/-- `pcb_t`, but for its links. -/
structure PcbRecord where
  p_parent : Option PcbId
  p_s : State
  p_time : Word
  p_semAdd : Word
  p_supportStruct : Word
  p_prio : ℤ
  p_pid : Word

/-- The static data of `pcb.c`, and the process queues with the heads `κ`. -/
structure PcbLinks (κ : Type) where
  p_list : Links (Node (PcbHead κ) PcbId)
  /-- The heads are the `p_child` of the PCBs. -/
  p_sib : Links (Node PcbId PcbId)
  pcbFree_table : PcbId → PcbRecord
  next_pid : Word

/-- A call, or a priority that is given to a PCB. -/
inductive PcbCall (κ : Type) where
  | allocPcb
  | freePcb (p : PcbId)
  | mkEmptyProcQ (head : κ)
  | emptyProcQ (head : κ)
  | insertProcQ (head : κ) (p : PcbId)
  | headProcQ (head : κ)
  | removeProcQ (head : κ)
  | outProcQ (head : κ) (p : Option PcbId)
  | emptyChild (p : PcbId)
  | insertChild (prnt p : PcbId)
  | removeChild (p : PcbId)
  | outChild (p : Option PcbId)
  | setPrio (p : PcbId) (prio : ℤ)

/-- What a call returns. -/
inductive PcbValue where
  | void
  | bool (b : Bool)
  | pcb (p : Option PcbId)
  deriving DecidableEq

namespace PcbLinks

variable {κ : Type} [DecidableEq κ]

/-- The field `p_prio`. -/
def p_prio (m : PcbLinks κ) (p : PcbId) : ℤ := (m.pcbFree_table p).p_prio

/-- The field `p_parent` of `p` is written. -/
def setParent (m : PcbLinks κ) (p : PcbId) (prnt : Option PcbId) : PcbLinks κ :=
  { m with
    pcbFree_table := Function.update m.pcbFree_table p { m.pcbFree_table p with p_parent := prnt } }

/-- `initPcbs`: all the PCBs are free. -/
def initPcbs (m : PcbLinks κ) : PcbLinks κ :=
  { m with
    p_list := (List.finRange maxProc).foldl (fun l x => l.listAdd (.link x) (.head .pcbFree_h))
      (m.p_list.INIT_LIST_HEAD (.head .pcbFree_h)) }

/-- `freePcb`: `p` becomes the first free PCB. -/
def freePcb (m : PcbLinks κ) (p : PcbId) : PcbLinks κ :=
  { m with p_list := m.p_list.listAdd (.link p) (.head .pcbFree_h) }

/-- `allocPcb`: the first free PCB, if there is one, with its fields reset and the next PID. -/
def allocPcb (m : PcbLinks κ) : Option (Option PcbId × PcbLinks κ) :=
  if m.p_list.listEmpty (.head .pcbFree_h) then some (none, m)
  else do
    let first := m.p_list.next (.head .pcbFree_h)
    let p ← Links.containerOf first
    return (some p, { m with
      p_list := m.p_list.listDel first
      p_sib := (m.p_sib.INIT_LIST_HEAD (.head p)).INIT_LIST_HEAD (.link p)
      pcbFree_table := Function.update m.pcbFree_table p ⟨none, .zero, 0, 0, 0, 0, m.next_pid⟩
      next_pid := m.next_pid + 1 })

/-- `emptyChild`: `p` has no children. -/
def emptyChild (m : PcbLinks κ) (p : PcbId) : Prop := m.p_sib.listEmpty (.head p)

instance (m : PcbLinks κ) (p : PcbId) : Decidable (m.emptyChild p) :=
  inferInstanceAs (Decidable (_ = _))

/-- `insertChild`: `p` becomes the last child of `prnt`. -/
def insertChild (m : PcbLinks κ) (prnt p : PcbId) : PcbLinks κ :=
  let m := m.setParent p (some prnt)
  { m with p_sib := m.p_sib.listAddTail (.link p) (.head prnt) }

/-- `removeChild`: the first child of `p`, if any, is unlinked and returned. -/
def removeChild (m : PcbLinks κ) (p : PcbId) : Option (Option PcbId × PcbLinks κ) :=
  if m.emptyChild p then some (none, m)
  else do
    let first := m.p_sib.next (.head p)
    let m := { m with p_sib := m.p_sib.listDel first }
    let child ← Links.containerOf first
    return (some child, m.setParent child none)

/-- `outChild`, of a pointer that may be NULL. -/
def outChild (m : PcbLinks κ) (p : Option PcbId) : Option PcbId × PcbLinks κ :=
  match p with
  | none => (none, m)
  | some p =>
      if (m.pcbFree_table p).p_parent = none then (none, m)
      else (some p, { m with p_sib := m.p_sib.listDel (.link p) }.setParent p none)

/-- What a call returns, and what it leaves. -/
def call (m : PcbLinks κ) : PcbCall κ → Option (PcbValue × PcbLinks κ)
  | .allocPcb => m.allocPcb.map fun (p, t) => (.pcb p, t)
  | .freePcb p => some (.void, m.freePcb p)
  | .mkEmptyProcQ head => some (.void, { m with p_list := m.p_list.mkEmptyProcQ (.procQ head) })
  | .emptyProcQ head => some (.bool (m.p_list.emptyProcQ (.procQ head)), m)
  | .insertProcQ head p =>
      (m.p_list.insertProcQ m.p_prio (.procQ head) p).map fun l => (.void, { m with p_list := l })
  | .headProcQ head => some (.pcb (m.p_list.headProcQ (.procQ head)), m)
  | .removeProcQ head =>
      let (p, l) := m.p_list.removeProcQ (.procQ head)
      some (.pcb p, { m with p_list := l })
  | .outProcQ head p =>
      (m.p_list.outProcQ (.procQ head) p).map fun (q, l) => (.pcb q, { m with p_list := l })
  | .emptyChild p => some (.bool (m.emptyChild p), m)
  | .insertChild prnt p => some (.void, m.insertChild prnt p)
  | .removeChild p => (m.removeChild p).map fun (c, t) => (.pcb c, t)
  | .outChild p =>
      let (q, t) := m.outChild p
      some (.pcb q, t)
  | .setPrio p v => some (.void, { m with
      pcbFree_table := Function.update m.pcbFree_table p { m.pcbFree_table p with p_prio := v } })

/-- What a call leaves. -/
def step (m : PcbLinks κ) (e : PcbCall κ) : Option (PcbLinks κ) := (m.call e).map Prod.snd

end PcbLinks

/-! ### The lists -/

/-- The lists the nucleus is modelled over, and the process queues that have been set up. -/
structure PcbLists (κ : Type) extends Pcbs where
  queue : κ → Option (List PcbId)

namespace PcbLists

variable {κ : Type} [DecidableEq κ]

/-- After `initPcbs`. -/
def init : PcbLists κ := ⟨PandOS.initPcbs, fun _ => none⟩

/-- The queue of `head` is written. -/
def setQueue (b : PcbLists κ) (head : κ) (xs : List PcbId) : PcbLists κ :=
  { b with queue := Function.update b.queue head (some xs) }

/-- The queue of `head`. -/
def queueOf (b : PcbLists κ) (head : κ) : List PcbId := (b.queue head).getD []

/-- The same calls, on the lists. -/
def call (b : PcbLists κ) : PcbCall κ → PcbValue × PcbLists κ
  | .allocPcb =>
      match b.toPcbs.allocPcb with
      | none => (.pcb none, b)
      | some (p, t) => (.pcb (some p), { b with toPcbs := t })
  | .freePcb p => (.void, { b with toPcbs := b.toPcbs.freePcb p })
  | .mkEmptyProcQ head => (.void, b.setQueue head [])
  | .emptyProcQ head => (.bool (b.queueOf head = []), b)
  | .insertProcQ head p => (.void, b.setQueue head (b.toPcbs.insertProcQ (b.queueOf head) p))
  | .headProcQ head => (.pcb (b.queueOf head).head?, b)
  | .removeProcQ head => (.pcb (b.queueOf head).head?, b.setQueue head (b.queueOf head).tail)
  | .outProcQ _ none => (.pcb none, b)
  | .outProcQ head (some p) =>
      (.pcb (Pcbs.outProcQ (b.queueOf head) p).1, b.setQueue head (Pcbs.outProcQ (b.queueOf head) p).2)
  | .emptyChild p => (.bool ((b.pcbFree_table p).p_child = []), b)
  | .insertChild prnt p => (.void, { b with toPcbs := b.toPcbs.insertChild prnt p })
  | .removeChild p =>
      (.pcb (b.toPcbs.removeChild p).1, { b with toPcbs := (b.toPcbs.removeChild p).2 })
  | .outChild none => (.pcb none, b)
  | .outChild (some p) =>
      (.pcb (if (b.pcbFree_table p).p_parent = none then none else some p),
        { b with toPcbs := b.toPcbs.outChild p })
  | .setPrio p v => (.void, { b with toPcbs := b.toPcbs.modify p fun x => { x with p_prio := v } })

/-- `p` is in no process queue. -/
def Unqueued (b : PcbLists κ) (p : PcbId) : Prop := ∀ k, p ∉ b.queueOf k

/-- `p` is allocated. -/
def Live (b : PcbLists κ) (p : PcbId) : Prop := p ∉ b.pcbFree_h

instance (b : PcbLists κ) (p : PcbId) : Decidable (b.Live p) := inferInstanceAs (Decidable (¬ _))

instance [Fintype κ] (b : PcbLists κ) (p : PcbId) : Decidable (b.Unqueued p) :=
  inferInstanceAs (Decidable (∀ _, _))

/-- What the callers see to: the queues have been set up; a PCB is put into a queue, or freed, when
it is allocated and in no queue, and freed when it is out of the tree; and the tree is built of allocated
PCBs, each with one parent. -/
def Proper (b : PcbLists κ) : PcbCall κ → Prop
  | .allocPcb | .mkEmptyProcQ _ | .outChild _ | .setPrio _ _ => True
  | .freePcb p => b.Live p ∧ b.Unqueued p ∧ (b.pcbFree_table p).p_parent = none ∧
      (b.pcbFree_table p).p_child = []
  | .emptyProcQ head | .headProcQ head | .removeProcQ head | .outProcQ head _ => b.queue head ≠ none
  | .insertProcQ head p => b.queue head ≠ none ∧ b.Live p ∧ b.Unqueued p
  | .emptyChild p | .removeChild p => b.Live p
  | .insertChild prnt p => b.Live prnt ∧ b.Live p ∧ (b.pcbFree_table p).p_parent = none

instance [Fintype κ] (b : PcbLists κ) (e : PcbCall κ) : Decidable (b.Proper e) := by
  cases e <;> unfold Proper <;> infer_instance

end PcbLists

/-- The lists that go through `p_list`. -/
def PcbLists.linked {κ : Type} (b : PcbLists κ) : PcbHead κ → Option (List PcbId)
  | .pcbFree_h => some b.pcbFree_h
  | .procQ head => b.queue head

/-- A PCB without its links. -/
def Pcb.record (x : Pcb) : PcbRecord :=
  ⟨x.p_parent, x.p_s, x.p_time, x.p_semAdd, x.p_supportStruct, x.p_prio, x.p_pid⟩

namespace PcbLinks

variable {κ : Type} {m t : PcbLinks κ} {b c : PcbLists κ} {l : PcbId → Option (List PcbId)}
  {p q prnt : PcbId} {head : κ} {xs : List PcbId} {e : PcbCall κ}

/-- The pointers of `m` make the lists of `b`; `l` are the rings of the `p_child` that have been set
up. -/
structure Makes (m : PcbLinks κ) (b : PcbLists κ) (l : PcbId → Option (List PcbId)) : Prop where
  lists : m.p_list.Rings b.linked
  tree : m.p_sib.Rings l
  child : ∀ p, b.Live p → l p = some (b.pcbFree_table p).p_child
  idle : ∀ p xs, ¬ b.Live p → l p = some xs → xs = []
  /-- The children of a process have it as their parent, and nobody else has. -/
  family : ∀ p c, c ∈ (b.pcbFree_table p).p_child ↔ (b.pcbFree_table c).p_parent = some p
  /-- A free PCB is not in the tree. -/
  orphan : ∀ p, ¬ b.Live p →
    (b.pcbFree_table p).p_child = [] ∧ (b.pcbFree_table p).p_parent = none
  record : ∀ p, m.pcbFree_table p = (b.pcbFree_table p).record
  next_pid : m.next_pid = b.next_pid

namespace Makes

/-- A process without a parent is among nobody's children. -/
theorem out (h : Makes m b l) (hp : (b.pcbFree_table p).p_parent = none) : Links.Out l p := by
  intro k xs hk hx
  by_cases hl : b.Live k
  · rw [h.child k hl] at hk
    obtain rfl := Option.some.inj hk
    rw [(h.family k p).mp hx] at hp
    cases hp
  · rw [h.idle k xs hl hk] at hx
    cases hx

/-- A parent is allocated. -/
theorem live_of_parent (h : Makes m b l) (hp : (b.pcbFree_table p).p_parent = some q) :
    b.Live q := by
  by_contra hl
  have hc := (h.family q p).mpr hp
  rw [(h.orphan q hl).1] at hc
  cases hc

theorem p_prio (h : Makes m b l) : m.p_prio = fun p => (b.pcbFree_table p).p_prio := by
  funext p
  unfold PcbLinks.p_prio
  rw [h.record]
  rfl

variable [DecidableEq κ]

theorem lists_free (b : PcbLists κ) (free : List PcbId) :
    Function.update b.linked .pcbFree_h (some free) =
      PcbLists.linked { b with pcbFree_h := free } := by
  funext k
  cases k <;> simp [PcbLists.linked, Function.update]

/-- A process queue is written at both levels. -/
theorem lists_queue (b : PcbLists κ) (head : κ) (xs : List PcbId) :
    Function.update b.linked (.procQ head) (some xs) =
      (b.setQueue head xs).linked := by
  funext k
  cases k with
  | pcbFree_h => simp [PcbLists.linked, Function.update, PcbLists.setQueue]
  | procQ k =>
      by_cases hk : k = head
      · subst hk
        simp [PcbLists.linked, PcbLists.setQueue]
      · have hne : PcbHead.procQ k ≠ .procQ head := fun he => hk (PcbHead.procQ.inj he)
        rw [Function.update_of_ne hne]
        exact (Function.update_of_ne hk ..).symm

omit [DecidableEq κ] in
/-- A process queue that has been set up. -/
theorem queue (hq : b.queue head ≠ none) : b.linked (.procQ head) = some (b.queueOf head) := by
  obtain ⟨xs, hx⟩ := Option.ne_none_iff_exists'.mp hq
  show b.queue head = _
  unfold PcbLists.queueOf
  rw [hx]
  rfl

omit [DecidableEq κ] in
/-- An allocated PCB that is in no queue is in no list. -/
theorem out_linked (hp : b.Live p) (hq : b.Unqueued p) : Links.Out b.linked p := by
  intro k xs hk hx
  cases k with
  | pcbFree_h =>
      obtain rfl := Option.some.inj hk
      exact hp hx
  | procQ head =>
      refine hq head ?_
      unfold PcbLists.queueOf
      rw [show b.queue head = some xs from hk]
      exact hx

/-- One process queue changes. -/
theorem setQueue (h : Makes m b l) {lk : Links (Node (PcbHead κ) PcbId)}
    (hr : lk.Rings (Function.update b.linked (.procQ head) (some xs))) :
    Makes { m with p_list := lk } (b.setQueue head xs) l :=
  ⟨lists_queue b head xs ▸ hr, h.tree, h.child, h.idle, h.family, h.orphan, h.record, h.next_pid⟩

/-- A process queue does not change. -/
theorem setQueue_self (hq : b.queue head ≠ none) :
    b.setQueue head (b.queueOf head) = b := by
  have hk : b.queue head = some (b.queueOf head) := queue hq
  unfold PcbLists.setQueue
  rw [← hk, Function.update_eq_self]

/-! ### The free list -/

/-- `initPcbs`, whatever the pointers were before; the table is in the BSS segment. -/
theorem initPcbs {m : PcbLinks κ} (hm : m.pcbFree_table = fun _ => Pcb.zero.record)
    (hn : m.next_pid = 1) : Makes m.initPcbs .init fun _ => none := by
  have hnone : m.p_list.Rings fun _ => none := ⟨nofun, nofun⟩
  have hout : ∀ e ∈ List.finRange maxProc,
      Links.Out (Function.update (fun _ => none) (PcbHead.pcbFree_h : PcbHead κ) (some [])) e := by
    intro e _ k xs hk hx
    by_cases hkf : k = .pcbFree_h
    · rw [hkf, Function.update_self] at hk
      obtain rfl := Option.some.inj hk
      cases hx
    · rw [Function.update_of_ne hkf] at hk
      cases hk
  have hall := (hnone.INIT_LIST_HEAD .pcbFree_h).listAdd_all (Function.update_self ..) hout
    (List.nodup_finRange maxProc)
  have hlive : ∀ p, ¬ (PcbLists.init : PcbLists κ).Live p := fun p hp =>
    hp (List.mem_reverse.mpr (List.mem_finRange p))
  rw [Function.update_idem, List.append_nil] at hall
  refine ⟨?_, ⟨nofun, nofun⟩, fun p hp => absurd hp (hlive p), nofun, fun p c => ?_,
    fun p _ => ⟨rfl, rfl⟩, fun p => ?_, hn⟩
  · have he : (PcbLists.init : PcbLists κ).linked =
        Function.update (fun _ => none) .pcbFree_h (some (List.finRange maxProc).reverse) := by
      funext k
      cases k <;> simp [PcbLists.linked, PcbLists.init, PandOS.initPcbs, Function.update]
    rw [he]
    exact hall
  · exact iff_of_false (fun hc => nomatch hc) nofun
  · show m.pcbFree_table p = _
    rw [hm]
    rfl

/-- `freePcb` at the pointers does what it does to the lists. -/
theorem freePcb (h : Makes m b l) (hp : b.Live p) (hq : b.Unqueued p)
    (hparent : (b.pcbFree_table p).p_parent = none) (hchild : (b.pcbFree_table p).p_child = []) :
    Makes (m.freePcb p) { b with toPcbs := b.toPcbs.freePcb p } l := by
  have hadd := h.lists.listAdd (k := .pcbFree_h) rfl (out_linked hp hq)
  rw [lists_free] at hadd
  have hlive : ∀ q, ({ b with toPcbs := b.toPcbs.freePcb p } : PcbLists κ).Live q ↔
      q ≠ p ∧ b.Live q := fun q => by
    unfold PcbLists.Live Pcbs.freePcb
    rw [List.mem_cons, not_or]
  refine ⟨hadd, h.tree, fun q hl => h.child q ((hlive q).mp hl).2, fun q xs hl hx => ?_, h.family,
    fun q hl => ?_, h.record, h.next_pid⟩
  · by_cases hqp : q = p
    · rw [hqp, h.child p hp, hchild] at hx
      exact (Option.some.inj hx).symm
    · exact h.idle q xs (fun hlq => hl ((hlive q).mpr ⟨hqp, hlq⟩)) hx
  · by_cases hqp : q = p
    · rw [hqp]
      exact ⟨hchild, hparent⟩
    · exact h.orphan q fun hlq => hl ((hlive q).mpr ⟨hqp, hlq⟩)

theorem allocPcb_none (h : Makes m b l) (hf : b.pcbFree_h = []) :
    m.allocPcb = some (none, m) := by
  have he : m.p_list.listEmpty (.head .pcbFree_h) := (h.lists.listEmpty_iff rfl).mpr hf
  unfold PcbLinks.allocPcb
  rw [if_pos he]

/-- `allocPcb` at the pointers does what it does to the lists, when a PCB is free. -/
theorem allocPcb_some (h : Makes m b l) {rest : List PcbId} (hf : b.pcbFree_h = p :: rest) :
    ∃ t l, m.allocPcb = some (some p, t) ∧
      Makes t (PcbLists.mk ⟨Function.update b.pcbFree_table p { Pcb.zero with p_pid := b.next_pid },
        rest, b.next_pid + 1⟩ b.queue) l := by
  have hk : b.linked .pcbFree_h = some (p :: rest) := congrArg some hf
  have hne : ¬ m.p_list.listEmpty (.head .pcbFree_h) := fun he =>
    List.cons_ne_nil p rest ((h.lists.listEmpty_iff hk).mp he)
  have hfirst : m.p_list.next (.head .pcbFree_h) = .link p := h.lists.head_next hk
  have hp : ¬ b.Live p := fun hl => hl (by rw [hf]; exact List.mem_cons_self)
  obtain ⟨hchild, hparent⟩ := h.orphan p hp
  have hdel := h.lists.listDel hk List.mem_cons_self
  rw [List.erase_cons_head, lists_free] at hdel
  have hnp : p ∉ rest := (List.nodup_cons.mp (h.lists.nodup hk)).1
  -- the rings of the new process are set up: it has no children, and is nobody's child
  have hout : Links.Out (Function.update l p (some [])) p := fun k xs hk hx => by
    by_cases hkp : k = p
    · rw [hkp, Function.update_self] at hk
      obtain rfl := Option.some.inj hk
      cases hx
    · rw [Function.update_of_ne hkp] at hk
      exact h.out hparent k xs hk hx
  have htree := (h.tree.INIT_LIST_HEAD p).INIT_LIST_HEAD_link hout
  have hlive : ∀ q, q ≠ p → (q ∉ rest ↔ b.Live q) := fun q hq => by
    unfold PcbLists.Live
    rw [hf, List.mem_cons, not_or]
    exact ⟨fun h => ⟨hq, h⟩, And.right⟩
  have hself : Function.update b.pcbFree_table p { Pcb.zero with p_pid := b.next_pid } p =
      { Pcb.zero with p_pid := b.next_pid } := Function.update_self ..
  have hother : ∀ q, q ≠ p →
      Function.update b.pcbFree_table p { Pcb.zero with p_pid := b.next_pid } q =
        b.pcbFree_table q := fun q hq => Function.update_of_ne hq ..
  refine ⟨{ m with
    p_list := m.p_list.listDel (.link p)
    p_sib := (m.p_sib.INIT_LIST_HEAD (.head p)).INIT_LIST_HEAD (.link p)
    pcbFree_table := Function.update m.pcbFree_table p ⟨none, .zero, 0, 0, 0, 0, m.next_pid⟩
    next_pid := m.next_pid + 1 }, Function.update l p (some []), ?_, hdel, htree, fun q hl => ?_,
    fun q xs hl hx => ?_, fun q c => ?_, fun q hl => ?_, fun q => ?_, ?_⟩
  · unfold PcbLinks.allocPcb
    rw [if_neg hne, hfirst]
    rfl
  · dsimp only
    by_cases hq : q = p
    · rw [hq, Function.update_self, hself]
      rfl
    · rw [Function.update_of_ne hq, h.child q ((hlive q hq).mp hl), hother q hq]
  · have hq : q ≠ p := fun hq => hl (hq ▸ hnp)
    rw [Function.update_of_ne hq] at hx
    exact h.idle q xs (fun hlq => hl ((hlive q hq).mpr hlq)) hx
  · dsimp only
    by_cases hq : q = p <;> by_cases hc : c = p
    · rw [hq, hc, hself]
      exact iff_of_false (fun hm => nomatch hm) nofun
    · rw [hq, hself, hother c hc]
      exact iff_of_false (fun hm => nomatch hm) fun hpc => hp (h.live_of_parent hpc)
    · rw [hc, hself, hother q hq]
      refine iff_of_false (fun hm => ?_) nofun
      rw [(h.family q p).mp hm] at hparent
      cases hparent
    · rw [hother q hq, hother c hc]
      exact h.family q c
  · have hq : q ≠ p := fun hq => hl (hq ▸ hnp)
    dsimp only
    rw [hother q hq]
    exact h.orphan q fun hlq => hl ((hlive q hq).mpr hlq)
  · dsimp only
    by_cases hq : q = p
    · rw [hq, Function.update_self, hself, h.next_pid]
      rfl
    · rw [Function.update_of_ne hq, hother q hq]
      exact h.record q
  · exact congrArg (· + 1) h.next_pid

/-! ### The process tree -/

omit [DecidableEq κ] in
theorem emptyChild_iff (h : Makes m b l) (hp : b.Live p) :
    m.emptyChild p ↔ (b.pcbFree_table p).p_child = [] :=
  h.tree.listEmpty_iff (h.child p hp)

omit [DecidableEq κ] in
/-- The tree is rewritten: `children` are the new children, `parents` the new parents. -/
theorem setTree (h : Makes m b l) {ps : Links (Node PcbId PcbId)} {v : Pcbs} {prnt : PcbId}
    (hl : b.Live prnt) (hfree : v.pcbFree_h = b.pcbFree_h) (hnext : v.next_pid = b.next_pid)
    (hr : ps.Rings (Function.update l prnt (some (v.pcbFree_table prnt).p_child)))
    (hchild : ∀ q, q ≠ prnt → (v.pcbFree_table q).p_child = (b.pcbFree_table q).p_child)
    (hfamily : ∀ q c, c ∈ (v.pcbFree_table q).p_child ↔ (v.pcbFree_table c).p_parent = some q)
    (horphan : ∀ q, ¬ b.Live q → (v.pcbFree_table q).p_parent = none)
    {T : PcbId → PcbRecord} (hT : ∀ q, T q = (v.pcbFree_table q).record) :
    Makes { m with p_sib := ps, pcbFree_table := T } { b with toPcbs := v }
      (Function.update l prnt (some (v.pcbFree_table prnt).p_child)) := by
  have hlive : ∀ q, ({ b with toPcbs := v } : PcbLists κ).Live q ↔ b.Live q := fun q => by
    unfold PcbLists.Live
    rw [hfree]
  refine ⟨?_, hr, fun q hq => ?_, fun q xs hq hx => ?_, hfamily, fun q hq => ?_, hT,
    h.next_pid.trans hnext.symm⟩
  · have he : PcbLists.linked { b with toPcbs := v } = b.linked := by
      funext k
      cases k with
      | pcbFree_h => exact congrArg some hfree
      | procQ head => rfl
    rw [he]
    exact h.lists
  · by_cases hqp : q = prnt
    · rw [hqp, Function.update_self]
    · rw [Function.update_of_ne hqp, h.child q ((hlive q).mp hq), hchild q hqp]
  · have hqp : q ≠ prnt := by
      rintro rfl
      exact hq ((hlive q).mpr hl)
    rw [Function.update_of_ne hqp] at hx
    exact h.idle q xs (fun hlq => hq ((hlive q).mpr hlq)) hx
  · have hlq : ¬ b.Live q := fun hlq => hq ((hlive q).mpr hlq)
    have hqp : q ≠ prnt := by
      rintro rfl
      exact hlq hl
    exact ⟨(hchild q hqp).trans (h.orphan q hlq).1, horphan q hlq⟩

omit [DecidableEq κ] in
/-- `insertChild` at the pointers does what it does to the lists. -/
theorem insertChild (h : Makes m b l) (hprnt : b.Live prnt) (hp : b.Live p)
    (hpar : (b.pcbFree_table p).p_parent = none) :
    ∃ l, Makes (m.insertChild prnt p) { b with toPcbs := b.toPcbs.insertChild prnt p } l := by
  have htable := Pcbs.insertChild_table b.toPcbs prnt p
  have hadd := h.tree.listAddTail (h.child prnt hprnt) (h.out hpar)
  have hself : ((b.toPcbs.insertChild prnt p).pcbFree_table prnt).p_child =
      (b.pcbFree_table prnt).p_child ++ [p] := by
    rw [htable, if_pos rfl]
  refine ⟨_, h.setTree (v := b.toPcbs.insertChild prnt p) hprnt rfl rfl (by rwa [hself])
    (fun q hq => ?_) (fun q c => ?_) (fun q hq => ?_) fun q => ?_⟩
  · rw [htable, if_neg hq]
  · simp only [htable]
    have hfam := h.family q c
    by_cases hq : q = prnt <;> by_cases hc : c = p
    · subst hq hc
      simp
    · subst hq
      simpa [hc] using hfam
    · subst hc
      rw [hpar] at hfam
      simpa [hq, Ne.symm hq] using hfam
    · simpa [hq, hc] using hfam
  · have hqp : q ≠ p := fun hqp => hq (hqp ▸ hp)
    rw [htable, if_neg hqp]
    exact (h.orphan q hq).2
  · show Function.update m.pcbFree_table p _ q = _
    rw [htable]
    by_cases hq : q = p
    · rw [hq, Function.update_self, if_pos rfl, h.record]
      rfl
    · rw [Function.update_of_ne hq, if_neg hq, h.record]
      rfl

omit [DecidableEq κ] in
/-- A child leaves the list of its parent. -/
theorem leaveTree (h : Makes m b l) {v : Pcbs} (hpar : (b.pcbFree_table p).p_parent = some prnt)
    (hfree : v.pcbFree_h = b.pcbFree_h) (hnext : v.next_pid = b.next_pid)
    (hv : ∀ q, v.pcbFree_table q = { b.pcbFree_table q with
      p_parent := if q = p then none else (b.pcbFree_table q).p_parent
      p_child := if q = prnt then (b.pcbFree_table q).p_child.erase p
        else (b.pcbFree_table q).p_child }) :
    ∃ l, Makes ({ m with p_sib := m.p_sib.listDel (.link p) }.setParent p none)
      { b with toPcbs := v } l := by
  have hl := h.live_of_parent hpar
  have hmem := (h.family prnt p).mpr hpar
  have hdel := h.tree.listDel (h.child prnt hl) hmem
  have hn : (b.pcbFree_table prnt).p_child.Nodup := h.tree.nodup (h.child prnt hl)
  have hself : (v.pcbFree_table prnt).p_child = (b.pcbFree_table prnt).p_child.erase p := by
    rw [hv, if_pos rfl]
  refine ⟨_, h.setTree hl hfree hnext (by rwa [hself]) (fun q hq => ?_) (fun q c => ?_)
    (fun q hq => ?_) fun q => ?_⟩
  · rw [hv, if_neg hq]
  · simp only [hv]
    have hfam := h.family q c
    by_cases hq : q = prnt <;> by_cases hc : c = p
    · subst hq hc
      simp [hn.mem_erase_iff]
    · subst hq
      simpa [hc, hn.mem_erase_iff] using hfam
    · subst hc
      rw [hpar] at hfam
      simpa [hq, Ne.symm hq] using hfam
    · simpa [hq, hc] using hfam
  · rw [hv]
    dsimp only
    split
    · rfl
    · exact (h.orphan q hq).2
  · show Function.update m.pcbFree_table p _ q = _
    rw [hv]
    by_cases hq : q = p
    · rw [hq, Function.update_self, if_pos rfl, h.record]
      rfl
    · rw [Function.update_of_ne hq, if_neg hq, h.record]
      rfl

omit [DecidableEq κ] in
/-- `removeChild` at the pointers does what it does to the lists. -/
theorem removeChild (h : Makes m b l) (hp : b.Live p) :
    ∃ t l, m.removeChild p = some ((b.toPcbs.removeChild p).1, t) ∧
      Makes t { b with toPcbs := (b.toPcbs.removeChild p).2 } l := by
  unfold PcbLinks.removeChild
  cases hc : (b.pcbFree_table p).p_child with
  | nil =>
      rw [if_pos ((h.emptyChild_iff hp).mpr hc), Pcbs.removeChild_nil hc]
      exact ⟨m, l, rfl, h⟩
  | cons c rest =>
      have hne : ¬ m.emptyChild p := fun he => by
        rw [(h.emptyChild_iff hp).mp he] at hc
        cases hc
      have hk : l p = some (c :: rest) := hc ▸ h.child p hp
      have hfirst : m.p_sib.next (.head p) = .link c := h.tree.head_next hk
      have hpar : (b.pcbFree_table c).p_parent = some p :=
        (h.family p c).mp (by rw [hc]; exact List.mem_cons_self)
      obtain ⟨h₁, h₂, h₃, h₄⟩ := Pcbs.removeChild_cons hc
      obtain ⟨l', hl'⟩ := h.leaveTree (v := (b.toPcbs.removeChild p).2) hpar h₂ h₃ fun q => by
        rw [h₄]
        by_cases hq : q = p
        · rw [hq, if_pos rfl, if_pos rfl, hc, List.erase_cons_head]
        · rw [if_neg hq, if_neg hq]
      rw [if_neg hne, hfirst, h₁]
      exact ⟨_, l', rfl, hl'⟩

omit [DecidableEq κ] in
/-- `outChild` at the pointers does what it does to the lists. -/
theorem outChild (h : Makes m b l) (p : PcbId) :
    ∃ t l, m.outChild (some p) =
        (if (b.pcbFree_table p).p_parent = none then none else some p, t) ∧
      Makes t { b with toPcbs := b.toPcbs.outChild p } l := by
  unfold PcbLinks.outChild
  have hrec : (m.pcbFree_table p).p_parent = (b.pcbFree_table p).p_parent := by
    rw [h.record]
    rfl
  dsimp only
  rw [hrec]
  cases hpar : (b.pcbFree_table p).p_parent with
  | none =>
      have hout : b.toPcbs.outChild p = b.toPcbs := by
        unfold Pcbs.outChild
        rw [hpar]
      rw [hout]
      exact ⟨m, l, rfl, h⟩
  | some prnt =>
      obtain ⟨l', hl'⟩ := h.leaveTree (v := b.toPcbs.outChild p) hpar
        (Pcbs.outChild_free b.toPcbs p) (Pcbs.outChild_next b.toPcbs p) fun q => by
          rw [Pcbs.outChild_table, hpar]
          simp only [Option.some.injEq, eq_comm]
      exact ⟨_, l', rfl, hl'⟩

omit [DecidableEq κ] in
/-- A priority is given: the links stay as they are. -/
theorem setPrio (h : Makes m b l) (p : PcbId) (v : ℤ) :
    Makes { m with
      pcbFree_table := Function.update m.pcbFree_table p { m.pcbFree_table p with p_prio := v } }
      { b with toPcbs := b.toPcbs.modify p fun x => { x with p_prio := v } } l := by
  have hchild : ∀ q, ((b.toPcbs.modify p fun x => { x with p_prio := v }).pcbFree_table q).p_child =
      (b.pcbFree_table q).p_child := Pcbs.modify_field fun _ => rfl
  have hparent : ∀ q, ((b.toPcbs.modify p fun x => { x with p_prio := v }).pcbFree_table q).p_parent =
      (b.pcbFree_table q).p_parent := Pcbs.modify_field fun _ => rfl
  refine ⟨h.lists, h.tree, fun q hq => ?_, h.idle, fun q c => ?_, fun q hq => ?_, fun q => ?_,
    h.next_pid⟩
  · dsimp only
    rw [hchild]
    exact h.child q hq
  · dsimp only
    rw [hchild, hparent]
    exact h.family q c
  · dsimp only
    rw [hchild, hparent]
    exact h.orphan q hq
  · dsimp only
    by_cases hq : q = p
    · rw [hq, Function.update_self, Pcbs.modify_self, h.record]
      rfl
    · rw [Function.update_of_ne hq, Pcbs.modify_of_ne hq, h.record]

/-! ### The calls -/

/-- **Every call does to the pointers what it does to the lists**, and returns the same. -/
theorem call (h : Makes m b l) (hp : b.Proper e) :
    ∃ t l, m.call e = some ((b.call e).1, t) ∧ Makes t (b.call e).2 l := by
  cases e with
  | allocPcb =>
      unfold PcbLinks.call PcbLists.call Pcbs.allocPcb
      cases hf : b.pcbFree_h with
      | nil =>
          rw [h.allocPcb_none hf]
          exact ⟨m, l, rfl, h⟩
      | cons p rest =>
          obtain ⟨t, l', ht, hm⟩ := h.allocPcb_some hf
          rw [ht]
          exact ⟨t, l', rfl, hm⟩
  | freePcb p => exact ⟨_, l, rfl, h.freePcb hp.1 hp.2.1 hp.2.2.1 hp.2.2.2⟩
  | mkEmptyProcQ head => exact ⟨_, l, rfl, h.setQueue (h.lists.INIT_LIST_HEAD (.procQ head))⟩
  | emptyProcQ head =>
      have hiff : m.p_list.emptyProcQ (.procQ head) ↔ b.queueOf head = [] :=
        h.lists.listEmpty_iff (queue hp)
      refine ⟨m, l, ?_, h⟩
      show some (PcbValue.bool (decide (m.p_list.emptyProcQ (.procQ head))), m) = _
      rw [decide_eq_decide.mpr hiff]
      rfl
  | insertProcQ head p =>
      obtain ⟨lk, hlk, hr⟩ := h.lists.insertProcQ (queue hp.1) (out_linked hp.2.1 hp.2.2) m.p_prio
      refine ⟨{ m with p_list := lk }, l, ?_, ?_⟩
      · show (m.p_list.insertProcQ m.p_prio (.procQ head) p).map _ = _
        rw [hlk]
        rfl
      · rw [h.p_prio] at hr
        exact h.setQueue hr
  | headProcQ head =>
      refine ⟨m, l, ?_, h⟩
      show some (PcbValue.pcb (m.p_list.headProcQ (.procQ head)), m) = _
      rw [h.lists.headProcQ (queue hp)]
      rfl
  | removeProcQ head =>
      obtain ⟨hfst, hr⟩ := h.lists.removeProcQ (queue hp)
      refine ⟨{ m with p_list := (m.p_list.removeProcQ (.procQ head)).2 }, l, ?_, h.setQueue hr⟩
      show some (PcbValue.pcb (m.p_list.removeProcQ (.procQ head)).1, _) = _
      rw [hfst]
      rfl
  | outProcQ head o =>
      cases o with
      | none =>
          refine ⟨m, l, ?_, h⟩
          show (m.p_list.outProcQ (.procQ head) none).map _ = _
          rw [h.lists.outProcQ_notMem (queue hp) fun _ _ => Option.some_ne_none _]
          rfl
      | some p =>
          show ∃ t l, _ = some (PcbValue.pcb (Pcbs.outProcQ (b.queueOf head) p).1, t) ∧
            Makes t (b.setQueue head (Pcbs.outProcQ (b.queueOf head) p).2) l
          unfold Pcbs.outProcQ
          by_cases hm : p ∈ b.queueOf head
          · obtain ⟨lk, hlk, hr⟩ := h.lists.outProcQ_mem (queue hp) hm
            rw [if_pos hm]
            refine ⟨{ m with p_list := lk }, l, ?_, h.setQueue hr⟩
            show (m.p_list.outProcQ (.procQ head) (some p)).map _ = _
            rw [hlk]
            rfl
          · rw [if_neg hm]
            refine ⟨m, l, ?_, ?_⟩
            · show (m.p_list.outProcQ (.procQ head) (some p)).map _ = _
              rw [h.lists.outProcQ_notMem (queue hp) fun q hq he => by
                cases he
                exact hm hq]
              rfl
            · dsimp only
              rw [setQueue_self hp]
              exact h
  | emptyChild p =>
      refine ⟨m, l, ?_, h⟩
      show some (PcbValue.bool (decide (m.emptyChild p)), m) = _
      rw [decide_eq_decide.mpr (h.emptyChild_iff hp)]
      rfl
  | insertChild prnt p =>
      obtain ⟨l', hl'⟩ := h.insertChild hp.1 hp.2.1 hp.2.2
      exact ⟨_, l', rfl, hl'⟩
  | removeChild p =>
      obtain ⟨t, l', ht, hl'⟩ := h.removeChild hp
      refine ⟨t, l', ?_, hl'⟩
      show (m.removeChild p).map _ = _
      rw [ht]
      rfl
  | outChild o =>
      cases o with
      | none => exact ⟨m, l, rfl, h⟩
      | some p =>
          obtain ⟨t, l', ht, hl'⟩ := h.outChild p
          refine ⟨t, l', ?_, hl'⟩
          show some (PcbValue.pcb (m.outChild (some p)).1, (m.outChild (some p)).2) = _
          rw [ht]
          rfl
  | setPrio p v => exact ⟨_, l, rfl, h.setPrio p v⟩

end Makes

/-! ### Runs -/

variable [DecidableEq κ]

/-- What there is to see of the pointers is the lists. -/
structure Shows (m : PcbLinks κ) (b : PcbLists κ) : Prop where
  free : m.p_list.elems .pcbFree_h = some b.pcbFree_h
  queue : ∀ head xs, b.queue head = some xs → m.p_list.elems (.procQ head) = some xs
  child : ∀ p, b.Live p → m.p_sib.elems p = some (b.pcbFree_table p).p_child
  record : ∀ p, m.pcbFree_table p = (b.pcbFree_table p).record

theorem Makes.shows (h : Makes m b l) : Shows m b where
  free := h.lists.elems (k := .pcbFree_h) rfl
  queue head xs hx := by
    have hk : b.linked (.procQ head) = some xs := hx
    exact h.lists.elems hk
  child p hp := h.tree.elems (h.child p hp)
  record := h.record

/-- The lists, as the history of a run on the pointers. -/
def follow (_ : PcbLinks κ) (e : PcbCall κ) (_ : PcbLinks κ) (b : PcbLists κ) : PcbLists κ :=
  (b.call e).2

theorem makes_of_run {m₀ : PcbLinks κ} {es : List (PcbCall κ)}
    (hm : m₀.pcbFree_table = fun _ => Pcb.zero.record) (hn : m₀.next_pid = 1)
    (hr : Run (record step follow) (fun x e => x.2.Proper e) (m₀.initPcbs, .init) es (m, b)) :
    ∃ l, Makes m b l := by
  refine hr.inv (I := fun x => ∃ l, Makes x.1 x.2 l) ⟨_, .initPcbs hm hn⟩ fun x e y ⟨l, h⟩ hp hs => ?_
  obtain ⟨hst, hnote⟩ := record_eq_some hs
  obtain ⟨t, l', ht, h'⟩ := h.call hp
  have hy : y.1 = t := by
    rw [step, ht] at hst
    exact (Option.some.inj hst).symm
  rw [hnote, hy]
  exact ⟨l', h'⟩

/-- **`pcb.c` implements the lists the nucleus is modelled over.**  In every run from `initPcbs` on,
whatever the links held before, in which the callers keep to `Proper`: the pointers make the lists
that the same calls make of the lists of `Pcbs`, every further call ends, and returns what it returns
there. -/
theorem refines_of_run {m₀ : PcbLinks κ} {es : List (PcbCall κ)}
    (hm : m₀.pcbFree_table = fun _ => Pcb.zero.record) (hn : m₀.next_pid = 1)
    (hr : Run (record step follow) (fun x e => x.2.Proper e) (m₀.initPcbs, .init) es (m, b)) :
    Shows m b ∧ ∀ e, b.Proper e → ∃ t, m.call e = some ((b.call e).1, t) ∧ Shows t (b.call e).2 := by
  obtain ⟨l, h⟩ := makes_of_run hm hn hr
  refine ⟨h.shows, fun e he => ?_⟩
  obtain ⟨t, l', ht, h'⟩ := h.call he
  exact ⟨t, ht, h'.shows⟩

/-! ### The pool -/

/-- The lists and the PCBs `allocPcb` has returned and that were not freed since, as the history of a
run on the pointers. -/
def watch (m : PcbLinks κ) (e : PcbCall κ) (t : PcbLinks κ) (x : PcbLists κ × List PcbId) :
    PcbLists κ × List PcbId :=
  (m.follow e t x.1, match e, (m.call e).map Prod.fst with
    | .allocPcb, some (.pcb (some p)) => p :: x.2
    | .freePcb p, _ => x.2.erase p
    | _, _ => x.2)

/-- The PCBs that are allocated are those of the history. -/
structure Watched (m : PcbLinks κ) (b : PcbLists κ) (A : List PcbId) : Prop where
  makes : ∃ l, Makes m b l
  nodup : A.Nodup
  mem : ∀ p, p ∈ A ↔ b.Live p

omit [DecidableEq κ] in
/-- Calls that neither allocate nor free. -/
theorem Watched.same {A : List PcbId} (h : Watched m b A) (ht : ∃ l, Makes t c l)
    (hf : c.pcbFree_h = b.pcbFree_h) : Watched t c A :=
  ⟨ht, h.nodup, fun p => by unfold PcbLists.Live; rw [hf]; exact h.mem p⟩

/-- A proper call keeps the pool and the queues as the history has them. -/
theorem Watched.step {A : List PcbId} (h : Watched m b A) (hp : b.Proper e) (hs : m.step e = some t) :
    Watched t (m.watch e t (b, A)).1 (m.watch e t (b, A)).2 := by
  obtain ⟨l, hm⟩ := h.makes
  obtain ⟨u, l', hu, hm'⟩ := hm.call hp
  obtain rfl : u = t := by
    rw [PcbLinks.step, hu] at hs
    exact Option.some.inj hs
  have hmakes : ∃ l, Makes u (b.call e).2 l := ⟨l', hm'⟩
  unfold watch follow
  rw [hu]
  cases e with
  | allocPcb =>
      unfold PcbLists.call at hmakes ⊢
      cases hf : b.toPcbs.allocPcb with
      | none =>
          simp only [hf] at hmakes ⊢
          exact h.same hmakes rfl
      | some r =>
          obtain ⟨p, v⟩ := r
          obtain ⟨hfree, -, -, -⟩ := Pcbs.allocPcb_some hf
          simp only [hf] at hmakes ⊢
          have hn : b.pcbFree_h.Nodup := hm.lists.nodup (k := .pcbFree_h) rfl
          rw [hfree] at hn
          have hpA : p ∉ A := fun hpA => (h.mem p).mp hpA (by rw [hfree]; exact List.mem_cons_self)
          refine ⟨hmakes, List.nodup_cons.mpr ⟨hpA, h.nodup⟩, fun q => ?_⟩
          have hq := h.mem q
          unfold PcbLists.Live at hq ⊢
          rw [hfree, List.mem_cons, not_or] at hq
          show q ∈ p :: A ↔ q ∉ v.pcbFree_h
          rw [List.mem_cons, hq]
          by_cases hqp : q = p
          · rw [hqp]
            exact iff_of_true (.inl rfl) (List.nodup_cons.mp hn).1
          · simp [hqp]
  | freePcb p =>
      refine ⟨hmakes, h.nodup.erase p, fun q => ?_⟩
      have hq := h.mem q
      show q ∈ A.erase p ↔ q ∉ p :: b.pcbFree_h
      rw [h.nodup.mem_erase_iff, List.mem_cons, not_or, hq]
      rfl
  | removeChild p =>
      refine h.same hmakes ?_
      show (b.toPcbs.removeChild p).2.pcbFree_h = b.pcbFree_h
      cases hc : (b.pcbFree_table p).p_child with
      | nil => rw [Pcbs.removeChild_nil hc]
      | cons c rest => exact (Pcbs.removeChild_cons hc).2.1
  | outChild o =>
      cases o with
      | none => exact h.same hmakes rfl
      | some p => exact h.same hmakes (Pcbs.outChild_free b.toPcbs p)
  | outProcQ head o => cases o <;> exact h.same hmakes rfl
  | _ => exact h.same hmakes rfl

/-- **The pool of PCBs is conserved.**  In every such run: the PCBs that `allocPcb` has returned and
that were not freed since are those that are not in the free list, `MAXPROC` together with them; who
is in a process queue is one of them, and in one queue only; `allocPcb` returns NULL exactly when there
are `MAXPROC` of them, and otherwise one that is not among them, all its fields reset, without parent
and children, under the next pid, the other PCBs left alone. -/
theorem pool_of_run {m₀ : PcbLinks κ} {es : List (PcbCall κ)} {A : List PcbId}
    (hm : m₀.pcbFree_table = fun _ => Pcb.zero.record) (hn : m₀.next_pid = 1)
    (hr : Run (record step watch) (fun x e => x.2.1.Proper e) (m₀.initPcbs, .init, []) es (m, b, A)) :
    (∃ free, m.p_list.elems .pcbFree_h = some free ∧ A.length + free.length = maxProc ∧
      ∀ p, p ∈ A ↔ p ∉ free) ∧
    (∀ head xs, b.queue head = some xs → m.p_list.elems (.procQ head) = some xs ∧ xs.Nodup ∧
      ∀ p ∈ xs, p ∈ A ∧ ∀ head' ys, b.queue head' = some ys → p ∈ ys → head' = head) ∧
    ∃ v t, m.call .allocPcb = some (.pcb v, t) ∧ (v = none ↔ A.length = maxProc) ∧
      ∀ p, v = some p → p ∉ A ∧ t.pcbFree_table p = { Pcb.zero.record with p_pid := m.next_pid } ∧
        t.p_sib.elems p = some [] ∧ ∀ q, q ≠ p → t.pcbFree_table q = m.pcbFree_table q := by
  have hw : Watched m b A := by
    refine hr.inv (I := fun x => Watched x.1 x.2.1 x.2.2) ⟨⟨_, .initPcbs hm hn⟩, List.nodup_nil,
      fun p => ?_⟩ fun x e y h hp hs => ?_
    · refine iff_of_false List.not_mem_nil fun hl => hl ?_
      exact List.mem_reverse.mpr (List.mem_finRange p)
    · obtain ⟨hst, hnote⟩ := record_eq_some hs
      rw [hnote]
      exact h.step hp hst
  obtain ⟨l, h⟩ := hw.makes
  have hfree : b.pcbFree_h.Nodup := h.lists.nodup (k := .pcbFree_h) rfl
  have hcount : A.length + b.pcbFree_h.length = maxProc := by
    have hcompl : A.toFinset = b.pcbFree_h.toFinsetᶜ := by
      ext p
      simpa [PcbLists.Live] using hw.mem p
    have hcard := Finset.card_compl b.pcbFree_h.toFinset
    rw [← hcompl, List.toFinset_card_of_nodup hw.nodup, List.toFinset_card_of_nodup hfree,
      Fintype.card_fin] at hcard
    have hle := hfree.length_le_card
    rw [Fintype.card_fin] at hle
    omega
  refine ⟨⟨_, h.shows.free, hcount, fun p => hw.mem p⟩, fun head xs hx => ?_, ?_⟩
  · have hk : b.linked (.procQ head) = some xs := hx
    refine ⟨h.lists.elems hk, h.lists.nodup hk, fun p hp => ⟨(hw.mem p).mpr fun hpf => ?_,
      fun head' ys hy hpy => ?_⟩⟩
    · cases h.lists.apart .pcbFree_h (.procQ head) _ xs p rfl hk hpf hp
    · exact PcbHead.procQ.inj (h.lists.apart (.procQ head') (.procQ head) ys xs p hy hk hpy hp)
  · cases hf : b.pcbFree_h with
    | nil =>
        refine ⟨none, m, ?_, iff_of_true rfl ?_, nofun⟩
        · show m.allocPcb.map _ = _
          rw [h.allocPcb_none hf]
          rfl
        · rw [hf, List.length_nil] at hcount
          exact hcount
    | cons p rest =>
        obtain ⟨t, l', ht, h'⟩ := h.allocPcb_some hf
        refine ⟨some p, t, ?_, iff_of_false nofun ?_, ?_⟩
        · show m.allocPcb.map _ = _
          rw [ht]
          rfl
        · rw [hf, List.length_cons] at hcount
          omega
        · rintro q ⟨⟩
          have hnp : p ∉ rest := by
            rw [hf] at hfree
            exact (List.nodup_cons.mp hfree).1
          have hrec := h'.record
          dsimp only at hrec
          have hchild := h'.shows.child p hnp
          dsimp only at hchild
          refine ⟨fun hpA => (hw.mem p).mp hpA (by rw [hf]; exact List.mem_cons_self), ?_, ?_,
            fun q hq => ?_⟩
          · rw [hrec, Function.update_self, h.next_pid]
            rfl
          · rw [hchild, Function.update_self]
            rfl
          · rw [hrec, Function.update_of_ne hq, h.record]

/-- A process with a child in the ready queue. -/
def oneChild (p q : PcbId) : List (PcbCall Unit) :=
  [.allocPcb, .allocPcb, .mkEmptyProcQ (), .insertChild p q, .insertProcQ () q]

/-- Memory in which all links are their own neighbours. -/
def memory₀ : PcbLinks Unit := ⟨⟨id, id⟩, ⟨id, id⟩, fun _ => Pcb.zero.record, 1⟩

theorem refines_of_run_child : ∃ p q m b, Run (record step follow) (fun x e => x.2.Proper e)
    (memory₀.initPcbs, .init) (oneChild p q) (m, b) ∧
    b.queue () = some [q] ∧ (b.pcbFree_table p).p_child = [q] ∧ Shows m b := by
  let p : PcbId := ⟨19, by decide⟩
  let q : PcbId := ⟨18, by decide⟩
  obtain ⟨⟨m, b⟩, hr, hq, hc⟩ := exists_run (record step follow) (fun x e => x.2.Proper e)
    (fun x => x.2.queue () = some [q] ∧ (x.2.pcbFree_table p).p_child = [q])
    (memory₀.initPcbs, .init) (oneChild p q) (by decide +kernel)
  exact ⟨p, q, m, b, hr, hq, hc, (refines_of_run rfl rfl hr).1⟩

theorem pool_of_run_child : ∃ p q m b A, Run (record step watch) (fun x e => x.2.1.Proper e)
    (memory₀.initPcbs, .init, []) (oneChild p q) (m, b, A) ∧ A = [q, p] ∧
    ∃ free, m.p_list.elems .pcbFree_h = some free ∧ A.length + free.length = maxProc ∧
      ∀ p, p ∈ A ↔ p ∉ free := by
  let p : PcbId := ⟨19, by decide⟩
  let q : PcbId := ⟨18, by decide⟩
  obtain ⟨⟨m, b, A⟩, hr, hA⟩ := exists_run (record step watch) (fun x e => x.2.1.Proper e)
    (fun x => x.2.2 = [q, p]) (memory₀.initPcbs, .init, []) (oneChild p q) (by decide +kernel)
  exact ⟨p, q, m, b, A, hr, hA, (pool_of_run rfl rfl hr).1⟩

end PcbLinks

end PandOS
