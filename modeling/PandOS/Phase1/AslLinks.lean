import PandOS.Phase1.Asl
import PandOS.Phase1.ProcQ

/-!
# Phase 1 — the active semaphore list, as linked lists

The functions of `asl.c` over the pointers of the `s_link` and `p_list` links, for any PCBs.
`AslLinks.Holds` says which lists they make: the descriptors are shared out between `semdFree_h`
and `semd_h`, those of `semd_h` have different keys, and each has its process queue.
`insertBlocked_cases`, `removeBlocked_cases` and `outBlocked_cases` say what the three operations
do to these lists.
-/

namespace PandOS

/-- The heads of the lists of descriptors. -/
inductive SemdHead where
  | semdFree_h
  | semd_h
  deriving DecidableEq

/-- The static data of `asl.c`, and what it reads and writes of the PCBs. -/
structure AslLinks (ι : Type) where
  s_link : Links (Node SemdHead SemdId)
  s_key : SemdId → Word
  /-- The process queues: the heads are the `s_procq` of the descriptors. -/
  p_list : Links (Node SemdId ι)
  p_semAdd : ι → Word
  p_prio : ι → ℤ

namespace AslLinks

section
variable {ι : Type} [DecidableEq ι] [Fintype ι]

/-- `initASL`: all the descriptors are free. -/
def initASL (m : AslLinks ι) : AslLinks ι :=
  let s := (m.s_link.INIT_LIST_HEAD (.head .semdFree_h)).INIT_LIST_HEAD (.head .semd_h)
  { m with s_link := (List.finRange maxProc).foldl (fun s i => s.listAdd (.link i)
      (.head .semdFree_h)) s }

/-- The loop with which each function looks for the descriptor of a semaphore. -/
def findSemd (m : AslLinks ι) (semAdd : Word) : Option (Option SemdId) :=
  (m.s_link.listForEach .semd_h (fun (_ : Unit) current =>
    if m.s_key current = semAdd then none else some ()) ()).map Prod.snd

/-- The loop of `insertBlocked` that computes `insert_pos`. -/
def insertPos (m : AslLinks ι) (semAdd : Word) : Option (Node SemdHead SemdId) :=
  (m.s_link.listForEach .semd_h (fun _ current =>
    if m.s_key current > semAdd then none else some (.link current)) (.head .semd_h)).map Prod.fst

/-- The end of `insertBlocked`. -/
def joinQueue (m : AslLinks ι) (semd : SemdId) (semAdd : Word) (p : ι) : Option (Bool × AslLinks ι) :=
  (m.p_list.insertProcQ m.p_prio semd p).map fun l => (false,
    { m with p_list := l, p_semAdd := Function.update m.p_semAdd p semAdd })

/-- `insertBlocked`; `true` is the source's `TRUE`, no descriptor is left. -/
def insertBlocked (m : AslLinks ι) (semAdd : Word) (p : ι) : Option (Bool × AslLinks ι) := do
  match ← m.findSemd semAdd with
  | some semd => m.joinQueue semd semAdd p
  | none =>
      if m.s_link.listEmpty (.head .semdFree_h) then return (true, m)
      let semd ← Links.containerOf (m.s_link.next (.head .semdFree_h))
      let m := { m with
        s_link := m.s_link.listDel (.link semd)
        s_key := Function.update m.s_key semd semAdd
        p_list := m.p_list.mkEmptyProcQ semd }
      let insert_pos ← m.insertPos semAdd
      let m := { m with s_link := m.s_link.listAdd (.link semd) (m.s_link.prev insert_pos) }
      m.joinQueue semd semAdd p

/-- `removeBlocked`: the first process of the queue; a descriptor left empty goes back. -/
def removeBlocked (m : AslLinks ι) (semAdd : Word) : Option (Option ι × AslLinks ι) := do
  match ← m.findSemd semAdd with
  | none => return (none, m)
  | some semd =>
      let (p, l) ← m.p_list.outProcQ semd (m.p_list.headProcQ semd)
      if l.emptyProcQ semd then
        return (p, { m with
          p_list := l
          s_link := (m.s_link.listDel (.link semd)).listAdd (.link semd) (.head .semdFree_h) })
      else return (p, { m with p_list := l })

/-- `outBlocked`: `p` leaves its queue; the descriptor stays, even if it is left empty. -/
def outBlocked (m : AslLinks ι) (p : ι) : Option (Option ι × AslLinks ι) := do
  match ← m.findSemd (m.p_semAdd p) with
  | none => return (none, m)
  | some semd =>
      let (q, l) ← m.p_list.outProcQ semd (some p)
      return (q, { m with p_list := l })

/-- `headBlocked`: the first process of the queue. -/
def headBlocked (m : AslLinks ι) (semAdd : Word) : Option (Option ι) := do
  match ← m.findSemd semAdd with
  | none => return none
  | some semd => return m.p_list.headProcQ semd

/-- `blockedCount`: the length of the queue. -/
def blockedCount (m : AslLinks ι) (semAdd : Word) : Option ℕ := do
  match ← m.findSemd semAdd with
  | none => return 0
  | some semd =>
      (m.p_list.listForEach semd (fun count _ => some (count + 1)) 0).map Prod.fst

end

/-! ### The lists -/

/-- The lists of descriptors. -/
def semds (free act : List SemdId) : SemdHead → Option (List SemdId)
  | .semdFree_h => some free
  | .semd_h => some act

theorem semds_semdFree_h {free act : List SemdId} : semds free act .semdFree_h = some free := rfl

theorem semds_semd_h {free act : List SemdId} : semds free act .semd_h = some act := rfl

theorem semds_free (free free' act : List SemdId) :
    Function.update (semds free act) .semdFree_h (some free') = semds free' act := by
  funext k
  cases k <;> simp [semds, Function.update]

theorem semds_act (free act act' : List SemdId) :
    Function.update (semds free act) .semd_h (some act') = semds free act' := by
  funext k
  cases k <;> simp [semds, Function.update]

/-- A descriptor that is in neither list. -/
theorem semds_out {free act : List SemdId} {d : SemdId} (hf : d ∉ free) (ha : d ∉ act) :
    Links.Out (semds free act) d := by
  intro k ys hk hd
  cases k with
  | semdFree_h =>
      obtain rfl := Option.some.inj hk
      exact hf hd
  | semd_h =>
      obtain rfl := Option.some.inj hk
      exact ha hd

variable {ι : Type} {m t : AslLinks ι} {free act rest : List SemdId}
  {l : SemdId → Option (List ι)} {semAdd : Word} {d : SemdId} {p q : ι} {xs : List ι}

/-- The lists that the pointers make. -/
structure Holds (m : AslLinks ι) (free act : List SemdId) (l : SemdId → Option (List ι)) :
    Prop where
  semds : m.s_link.Rings (semds free act)
  procs : m.p_list.Rings l
  all : ∀ d, d ∈ free ∨ d ∈ act
  keys : ∀ d ∈ act, ∀ d' ∈ act, m.s_key d = m.s_key d' → d = d'
  made : ∀ d ∈ act, l d ≠ none
  idle : ∀ d, d ∉ act → (l d).getD [] = []

/-! ### The loops -/

/-- The loop finds the descriptor of the semaphore, or there is none. -/
theorem Holds.findSemd_cases (h : m.Holds free act l) (semAdd : Word) :
    (∃ d xs, d ∈ act ∧ m.s_key d = semAdd ∧ l d = some xs ∧ m.findSemd semAdd = some (some d)) ∨
    ((∀ d ∈ act, m.s_key d ≠ semAdd) ∧ m.findSemd semAdd = some none) := by
  have hf : m.findSemd semAdd = some (act.find? fun d => m.s_key d = semAdd) := by
    unfold findSemd
    rw [h.semds.listForEach_find semds_semd_h]
    rfl
  cases hd : act.find? fun d => m.s_key d = semAdd with
  | none =>
      rw [hd] at hf
      exact .inr ⟨by simpa using List.find?_eq_none.mp hd, hf⟩
  | some d =>
      rw [hd] at hf
      have hmem := List.mem_of_find?_eq_some hd
      obtain ⟨xs, hxs⟩ := Option.ne_none_iff_exists'.mp (h.made d hmem)
      exact .inl ⟨d, xs, hmem, by simpa using List.find?_some hd, hxs, hf⟩

theorem scan_takeWhile {key : SemdId → Word} (u : Node SemdHead SemdId) :
    (Links.scan (fun _ current => if key current > semAdd then none else some (.link current)) act
      u).1 = Links.last u ((act.takeWhile fun c => key c ≤ semAdd).map .link) := by
  induction act generalizing u with
  | nil => rfl
  | cons d act ih =>
      by_cases hk : semAdd < key d
      · simp [Links.scan, hk, BitVec.not_le.mpr hk]
      · simp [Links.scan, hk, BitVec.not_lt.mp hk, ih]

theorem scan_count (n : ℕ) :
    (Links.scan (fun count (_ : ι) => some (count + 1)) xs n).1 = n + xs.length := by
  induction xs generalizing n with
  | nil => rfl
  | cons x xs ih => simp [Links.scan, ih, Nat.add_comm, Nat.add_left_comm]

theorem insertPos_eq (h : m.s_link.Rings (semds free act)) (semAdd : Word) :
    m.insertPos semAdd = some (Links.last (.head .semd_h)
      ((act.takeWhile fun c => m.s_key c ≤ semAdd).map .link)) := by
  unfold insertPos
  rw [h.listForEach semds_semd_h, Option.map_some, scan_takeWhile]

/-- The new descriptor is linked where `linkAt` says. -/
theorem link_spec (h : m.s_link.Rings (semds free act))
    (hd : Links.Out (semds free act) d) (semAdd : Word) :
    ∃ pos, m.insertPos semAdd = some pos ∧ (m.s_link.listAdd (.link d) (m.s_link.prev pos)).Rings
      (semds free (linkAt m.s_key act semAdd d)) := by
  refine ⟨_, insertPos_eq h semAdd, ?_⟩
  rcases linkAt_cases m.s_key act semAdd d with ⟨hw, he⟩ | ⟨as, x, bs, hw, hact, he⟩
  · -- `insert_pos` is the head, and `insert_pos->prev` the last descriptor
    rw [hw, he, List.map_nil, Links.last_nil, h.head_prev semds_semd_h,
      ← semds_act free act]
    exact h.listAdd_last (k := .semd_h) (by rw [List.append_nil]; rfl) hd
  · have hr := h.ring .semd_h act rfl
    rw [hact, List.map_append, List.map_cons] at hr
    rw [hw, he, List.map_append, List.map_singleton, Links.last_append, hr.neighbours.2,
      ← semds_act free act]
    exact h.listAdd_last (k := .semd_h) (by rw [hact]; rfl) hd

theorem update_key {key : SemdId → Word} {c : SemdId} (hd : d ∉ act) (hc : c ∈ act) :
    Function.update key d semAdd c = key c := by
  refine Function.update_of_ne ?_ ..
  rintro rfl
  exact hd hc

/-! ### Set up -/

/-- After `initASL` every descriptor is free, whatever the memory held before. -/
theorem Holds.initASL (m : AslLinks ι) :
    Holds m.initASL (List.finRange maxProc).reverse [] fun _ => none := by
  have hnone : m.s_link.Rings fun _ => none := ⟨nofun, nofun⟩
  have hempty : ((m.s_link.INIT_LIST_HEAD (.head .semdFree_h)).INIT_LIST_HEAD
      (.head .semd_h)).Rings (AslLinks.semds [] []) := by
    have h := (hnone.INIT_LIST_HEAD .semdFree_h).INIT_LIST_HEAD .semd_h
    convert h using 1
    funext k
    cases k <;> simp [AslLinks.semds, Function.update]
  have hall := hempty.listAdd_all semds_semdFree_h
    (fun d _ => semds_out (d := d) List.not_mem_nil List.not_mem_nil) (List.nodup_finRange maxProc)
  rw [semds_free, List.append_nil] at hall
  exact ⟨hall, ⟨nofun, nofun⟩, fun d => .inl (by simp), nofun, nofun, fun _ _ => rfl⟩

/-! ### The operations -/

namespace Holds

/-- A descriptor is free or active, and in its list once. -/
theorem split (h : m.Holds free act l) (d : SemdId) : free.count d + act.count d = 1 := by
  have hnf : free.Nodup := h.semds.nodup semds_semdFree_h
  have hna : act.Nodup := h.semds.nodup semds_semd_h
  rcases h.all d with hd | hd
  · have hact : d ∉ act := fun hda =>
      nomatch h.semds.apart .semdFree_h .semd_h free act d rfl rfl hd hda
    rw [List.count_eq_one_of_mem hnf hd, List.count_eq_zero.mpr hact]
  · have hfree : d ∉ free := fun hdf =>
      nomatch h.semds.apart .semdFree_h .semd_h free act d rfl rfl hdf hd
    rw [List.count_eq_zero.mpr hfree, List.count_eq_one_of_mem hna hd]

/-- A free descriptor is not active. -/
theorem first_notMem (h : m.Holds (d :: rest) act l) : d ∉ act := by
  have hd := h.split d
  rw [List.count_cons_self] at hd
  exact List.count_eq_zero.mp (by omega)

/-- The queue of an active descriptor changes. -/
theorem setQueue {lk : Links (Node SemdId ι)} (h : m.Holds free act l) (hd : d ∈ act)
    (hr : lk.Rings (Function.update l d (some xs))) (v : ι → Word) :
    Holds { m with p_list := lk, p_semAdd := v } free act (Function.update l d (some xs)) where
  semds := h.semds
  procs := hr
  all := h.all
  keys := h.keys
  made c hc := by
    by_cases hcd : c = d
    · simp [hcd]
    · rw [Function.update_of_ne hcd]
      exact h.made c hc
  idle c hc := by
    have hcd : c ≠ d := by
      rintro rfl
      exact hc hd
    rw [Function.update_of_ne hcd]
    exact h.idle c hc

/-- A free descriptor is made ready for the semaphore. -/
theorem take [DecidableEq ι] {sk : Links (Node SemdHead SemdId)} (h : m.Holds (d :: rest) act l)
    (hno : ∀ c ∈ act, m.s_key c ≠ semAdd)
    (hs : sk.Rings (AslLinks.semds rest (linkAt m.s_key act semAdd d))) :
    Holds { m with
      s_link := sk
      s_key := Function.update m.s_key d semAdd
      p_list := m.p_list.mkEmptyProcQ d } rest (linkAt m.s_key act semAdd d)
      (Function.update l d (some [])) := by
  have hmem : ∀ {c}, c ∈ linkAt m.s_key act semAdd d ↔ c = d ∨ c ∈ act := fun {c} => by
    rw [linkAt_perm.mem_iff, List.mem_cons]
  have hact := h.first_notMem
  refine ⟨hs, h.procs.INIT_LIST_HEAD d, fun c => ?_, fun c hc c' hc' hk => ?_, fun c hc => ?_,
    fun c hc => ?_⟩
  · rw [hmem]
    rcases h.all c with hc | hc
    · rcases List.mem_cons.mp hc with rfl | hc
      · exact .inr (.inl rfl)
      · exact .inl hc
    · exact .inr (.inr hc)
  · have hkey : ∀ {x}, x ∈ act → Function.update m.s_key d semAdd x = m.s_key x := fun hx =>
      update_key hact hx
    have hself : Function.update m.s_key d semAdd d = semAdd := Function.update_self ..
    have hk : Function.update m.s_key d semAdd c = Function.update m.s_key d semAdd c' := hk
    rcases hmem.mp hc with hcd | hca <;> rcases hmem.mp hc' with hcd' | hca'
    · rw [hcd, hcd']
    · rw [hcd, hself, hkey hca'] at hk
      exact absurd hk.symm (hno c' hca')
    · rw [hcd', hself, hkey hca] at hk
      exact absurd hk (hno c hca)
    · rw [hkey hca, hkey hca'] at hk
      exact h.keys c hca c' hca' hk
  · by_cases hcd : c = d
    · simp [hcd]
    · rw [Function.update_of_ne hcd]
      exact h.made c ((hmem.mp hc).resolve_left hcd)
  · have hcd : c ≠ d := fun he => hc (hmem.mpr (.inl he))
    rw [Function.update_of_ne hcd]
    exact h.idle c fun hca => hc (hmem.mpr (.inr hca))

/-- A descriptor whose queue is empty goes back to `semdFree_h`. -/
theorem giveBack (h : m.Holds free act l) (hd : d ∈ act) (hl : l d = some []) :
    Holds { m with s_link := (m.s_link.listDel (.link d)).listAdd (.link d) (.head .semdFree_h) }
      (d :: free) (act.erase d) l := by
  have hdel := h.semds.listDel semds_semd_h hd
  rw [semds_act] at hdel
  have hna : act.Nodup := h.semds.nodup semds_semd_h
  have hfree : d ∉ free := fun hdf =>
    nomatch h.semds.apart .semdFree_h .semd_h free act d rfl rfl hdf hd
  have hout : Links.Out (AslLinks.semds free (act.erase d)) d :=
    semds_out hfree hna.not_mem_erase
  have hadd := hdel.listAdd semds_semdFree_h hout
  rw [semds_free] at hadd
  refine ⟨hadd, h.procs, fun c => ?_, fun c hc c' hc' => ?_, fun c hc => ?_, fun c hc => ?_⟩
  · by_cases hcd : c = d
    · exact .inl (hcd ▸ List.mem_cons_self)
    · exact (h.all c).imp (List.mem_cons_of_mem d) (List.mem_erase_of_ne hcd).mpr
  · exact h.keys c (List.mem_of_mem_erase hc) c' (List.mem_of_mem_erase hc')
  · exact h.made c (List.mem_of_mem_erase hc)
  · by_cases hcd : c = d
    · rw [hcd, hl]
      rfl
    · exact h.idle c fun hca => hc ((List.mem_erase_of_ne hcd).mpr hca)

section
variable [DecidableEq ι] [Fintype ι]

theorem joinQueue (h : m.Holds free act l) (hd : d ∈ act) (hl : l d = some xs)
    (hp : Links.Out l p) (semAdd : Word) : ∃ lk, m.joinQueue d semAdd p = some (false,
        { m with p_list := lk, p_semAdd := Function.update m.p_semAdd p semAdd }) ∧
      Holds { m with p_list := lk, p_semAdd := Function.update m.p_semAdd p semAdd } free act
        (Function.update l d (some (enqueue m.p_prio xs p))) := by
  obtain ⟨lk, hlk, hr⟩ := h.procs.insertProcQ hl hp m.p_prio
  refine ⟨lk, ?_, h.setQueue hd hr _⟩
  rw [AslLinks.joinQueue, hlk]
  rfl

/-- **What `insertBlocked` does.** -/
theorem insertBlocked_cases (h : m.Holds free act l) (hp : Links.Out l p) (semAdd : Word) :
    (∃ d xs lk, d ∈ act ∧ m.s_key d = semAdd ∧ l d = some xs ∧ m.insertBlocked semAdd p =
        some (false, { m with p_list := lk, p_semAdd := Function.update m.p_semAdd p semAdd }) ∧
      Holds { m with p_list := lk, p_semAdd := Function.update m.p_semAdd p semAdd } free act
        (Function.update l d (some (enqueue m.p_prio xs p)))) ∨
    ((∀ d ∈ act, m.s_key d ≠ semAdd) ∧ free = [] ∧ m.insertBlocked semAdd p = some (true, m)) ∨
    ((∀ d ∈ act, m.s_key d ≠ semAdd) ∧ ∃ d rest sk lk, free = d :: rest ∧
      m.insertBlocked semAdd p = some (false, { m with
        s_link := sk
        s_key := Function.update m.s_key d semAdd
        p_list := lk
        p_semAdd := Function.update m.p_semAdd p semAdd }) ∧
      Holds { m with
        s_link := sk
        s_key := Function.update m.s_key d semAdd
        p_list := lk
        p_semAdd := Function.update m.p_semAdd p semAdd } rest (linkAt m.s_key act semAdd d)
        (Function.update l d (some [p]))) := by
  rcases h.findSemd_cases semAdd with ⟨d, xs, hd, hk, hl, hf⟩ | ⟨hno, hf⟩
  · left
    obtain ⟨lk, hj, hh⟩ := h.joinQueue hd hl hp semAdd
    refine ⟨d, xs, lk, hd, hk, hl, ?_, hh⟩
    simp [AslLinks.insertBlocked, hf, hj]
  · right
    have hfree := h.semds.listEmpty_iff semds_semdFree_h
    cases free with
    | nil =>
        refine .inl ⟨hno, rfl, ?_⟩
        simp [AslLinks.insertBlocked, hf, hfree.mpr rfl]
    | cons d rest =>
        have hne : ¬ m.s_link.listEmpty (.head .semdFree_h) := fun he => nomatch hfree.mp he
        have hfirst : Links.containerOf (m.s_link.next (.head .semdFree_h)) = some d :=
          h.semds.containerOf_next semds_semdFree_h
        have hnd := h.semds.nodup semds_semdFree_h
        have hact := h.first_notMem
        -- the descriptor is taken out of `semdFree_h`
        have hdel := h.semds.listDel semds_semdFree_h List.mem_cons_self
        rw [List.erase_cons_head, semds_free] at hdel
        have hout : Links.Out (AslLinks.semds rest act) d :=
          semds_out (List.nodup_cons.mp hnd).1 hact
        -- it is linked into `semd_h`
        obtain ⟨pos, hpos, hlink⟩ := link_spec (m := { m with
          s_link := m.s_link.listDel (.link d)
          s_key := Function.update m.s_key d semAdd
          p_list := m.p_list.mkEmptyProcQ d }) hdel hout semAdd
        rw [linkAt_congr fun c hc => update_key hact hc] at hlink
        -- and `p` joins its queue
        have hpo : Links.Out (Function.update l d (some [])) p := by
          intro c ys hc hpy
          by_cases hcd : c = d
          · subst hcd
            rw [Function.update_self] at hc
            obtain rfl := Option.some.inj hc
            cases hpy
          · rw [Function.update_of_ne hcd] at hc
            exact hp c ys hc hpy
        obtain ⟨lk, hj, hh⟩ := (h.take hno hlink).joinQueue
          (linkAt_perm.mem_iff.mpr List.mem_cons_self) (Function.update_self ..) hpo semAdd
        rw [Function.update_idem] at hh
        refine .inr ⟨hno, d, rest, _, lk, rfl, ?_, hh⟩
        simp [AslLinks.insertBlocked, hf, hne, hfirst, hpos, hj]

/-- **What `removeBlocked` does.** -/
theorem removeBlocked_cases (h : m.Holds free act l) (semAdd : Word) :
    ((∀ d ∈ act, m.s_key d ≠ semAdd) ∧ m.removeBlocked semAdd = some (none, m)) ∨
    ∃ d xs sk lk, d ∈ act ∧ m.s_key d = semAdd ∧ l d = some xs ∧
      m.removeBlocked semAdd = some (xs.head?, { m with s_link := sk, p_list := lk }) ∧
      Holds { m with s_link := sk, p_list := lk } (if xs.tail = [] then d :: free else free)
        (if xs.tail = [] then act.erase d else act) (Function.update l d (some xs.tail)) := by
  rcases h.findSemd_cases semAdd with ⟨d, xs, hd, hk, hl, hf⟩ | ⟨hno, hf⟩
  · right
    have hout : ∃ lk, m.p_list.outProcQ d (m.p_list.headProcQ d) = some (xs.head?, lk) ∧
        lk.Rings (Function.update l d (some xs.tail)) := by
      rw [h.procs.headProcQ hl]
      cases xs with
      | nil =>
          refine ⟨m.p_list, h.procs.outProcQ_notMem hl nofun, ?_⟩
          rw [List.tail_nil, ← hl, Function.update_eq_self]
          exact h.procs
      | cons p xs =>
          obtain ⟨lk, hlk, hr⟩ := h.procs.outProcQ_mem hl (p := p) List.mem_cons_self
          rw [List.erase_cons_head] at hr
          exact ⟨lk, hlk, hr⟩
    obtain ⟨lk, hlk, hr⟩ := hout
    have hh := h.setQueue hd hr m.p_semAdd
    have he := hr.listEmpty_iff (k := d) (Function.update_self ..)
    by_cases hx : xs.tail = []
    · refine ⟨d, xs, (m.s_link.listDel (.link d)).listAdd (.link d) (.head .semdFree_h), lk, hd, hk,
        hl, ?_, ?_⟩
      · have hempty : lk.emptyProcQ d := he.mpr hx
        simp only [AslLinks.removeBlocked, hf, Option.bind_eq_bind, Option.bind_some, hlk, hempty,
          if_true]
        rfl
      · rw [if_pos hx, if_pos hx]
        exact hh.giveBack hd (by rw [Function.update_self, hx])
    · refine ⟨d, xs, m.s_link, lk, hd, hk, hl, ?_, ?_⟩
      · have hempty : ¬ lk.emptyProcQ d := fun hn => hx (he.mp hn)
        simp [AslLinks.removeBlocked, hf, hlk, hempty]
      · rw [if_neg hx, if_neg hx]
        exact hh
  · exact .inl ⟨hno, by simp [AslLinks.removeBlocked, hf]⟩

/-- **What `outBlocked` does.** -/
theorem outBlocked_cases (h : m.Holds free act l) (p : ι) :
    ((∀ d ∈ act, m.s_key d ≠ m.p_semAdd p) ∧ m.outBlocked p = some (none, m)) ∨
    ∃ d xs, d ∈ act ∧ m.s_key d = m.p_semAdd p ∧ l d = some xs ∧
      (p ∉ xs ∧ m.outBlocked p = some (none, m) ∨
        p ∈ xs ∧ ∃ lk, m.outBlocked p = some (some p, { m with p_list := lk }) ∧
          Holds { m with p_list := lk } free act (Function.update l d (some (xs.erase p)))) := by
  rcases h.findSemd_cases (m.p_semAdd p) with ⟨d, xs, hd, hk, hl, hf⟩ | ⟨hno, hf⟩
  · refine .inr ⟨d, xs, hd, hk, hl, ?_⟩
    by_cases hp : p ∈ xs
    · obtain ⟨lk, hlk, hr⟩ := h.procs.outProcQ_mem hl hp
      refine .inr ⟨hp, lk, ?_, h.setQueue hd hr m.p_semAdd⟩
      simp [AslLinks.outBlocked, hf, hlk]
    · have hlk := h.procs.outProcQ_notMem hl (o := some p) fun q hq he =>
        hp (Option.some.inj he ▸ hq)
      exact .inl ⟨hp, by simp [AslLinks.outBlocked, hf, hlk]⟩
  · exact .inl ⟨hno, by simp [AslLinks.outBlocked, hf]⟩

/-- **What `headBlocked` and `blockedCount` return.** -/
theorem read_cases (h : m.Holds free act l) (semAdd : Word) :
    ((∀ d ∈ act, m.s_key d ≠ semAdd) ∧ m.headBlocked semAdd = some none ∧
      m.blockedCount semAdd = some 0) ∨
    ∃ d xs, d ∈ act ∧ m.s_key d = semAdd ∧ l d = some xs ∧ m.headBlocked semAdd = some xs.head? ∧
      m.blockedCount semAdd = some xs.length := by
  rcases h.findSemd_cases semAdd with ⟨d, xs, hd, hk, hl, hf⟩ | ⟨hno, hf⟩
  · refine .inr ⟨d, xs, hd, hk, hl, ?_, ?_⟩
    · simp [AslLinks.headBlocked, hf, h.procs.headProcQ hl]
    · simp [AslLinks.blockedCount, hf, h.procs.listForEach hl, scan_count]
  · refine .inl ⟨hno, ?_, ?_⟩
    · simp [AslLinks.headBlocked, hf]
    · simp [AslLinks.blockedCount, hf]

end

end Holds

end AslLinks

end PandOS
