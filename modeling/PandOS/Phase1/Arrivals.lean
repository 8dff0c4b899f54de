import PandOS.Phase1.BlockMap

/-!
# Phase 1 — the order in which waiters are released

`insertBlocked` is documented to put a process at the back of the semaphore's queue, but puts it
there with `insertProcQ`, before the first process of smaller priority.  Against a history of the
arrivals: a queue is in the order of its arrivals, so that `removeBlocked` returns the first
(`Fifo`), in every state of a run exactly if nobody arrives with a higher priority than somebody
who waits there already (`fifo_iff`).
-/

namespace PandOS.AslLinks

variable {ι : Type} [DecidableEq ι] [Fintype ι]

/-- The history: who was blocked on each semaphore and not released since, in the order of the
arrivals. -/
def arrive (m : AslLinks ι) (e : AslCall ι) (_ : AslLinks ι) (a : Word → List ι) : Word → List ι :=
  match e, m.returned e with
  | .insertBlocked semAdd p, some (.bool false) =>
      Function.update a semAdd (a semAdd ++ [p])
  | .removeBlocked semAdd, some (.pcb (some q)) =>
      Function.update a semAdd ((a semAdd).erase q)
  | .outBlocked p, some (.pcb (some q)) =>
      Function.update a (m.p_semAdd p) ((a (m.p_semAdd p)).erase q)
  | _, _ => a

/-- Who is inserted into the queue of `semAdd` has no higher priority than anybody in it. -/
def Behind (semAdd : Word) (m : AslLinks ι) : AslCall ι → Prop
  | .insertBlocked a p => a = semAdd → ∀ q ∈ (m.blocked semAdd).getD [], m.p_prio p ≤ m.p_prio q
  | _ => True

instance (semAdd : Word) (m : AslLinks ι) : (e : AslCall ι) → Decidable (Behind semAdd m e)
  | .insertBlocked _ _ => inferInstanceAs (Decidable (_ → _))
  | .removeBlocked _ | .outBlocked _ | .headBlocked _ | .blockedCount _ | .setSemAdd _ _
  | .setPrio _ _ => .isTrue trivial

/-- The processes that arrived at the semaphore are released in the order of their arrivals. -/
structure Fifo (semAdd : Word) (m : AslLinks ι) (a : Word → List ι) : Prop where
  order : m.blocked semAdd = some (a semAdd)
  first : ∃ t, m.removeBlocked semAdd = some ((a semAdd).head?, t)
  /-- `removeBlocked` does not return `q` while `p`, who was blocked before, is there. -/
  fair : ∀ bs p cs q, a semAdd = bs ++ p :: cs → q ∈ cs → ∀ t,
    m.removeBlocked semAdd ≠ some (some q, t)

variable {m t : AslLinks ι} {b : BlockMap ι} {a : Word → List ι} {semAdd : Word} {p q : ι}
  {e : AslCall ι}

namespace Refines

/-- On an ASL that refines `b`, the order of arrival is kept when the queue of `b` is the arrivals.
-/
theorem fifo_order (h : m.Refines b) : Fifo semAdd m a ↔ b.queue semAdd = a semAdd := by
  have hb := h.blocked semAdd
  have hn := h.nodup semAdd
  constructor
  · intro hf
    exact Option.some.inj (hb.symm.trans hf.order)
  · intro ha
    obtain ⟨free, act, l, h⟩ := h
    obtain ⟨t, ht, -⟩ := h.removeBlocked semAdd
    rw [ha] at hb ht hn
    refine ⟨hb, ⟨t, ht⟩, fun bs p cs q hs hq u hu => ?_⟩
    have hhead : (a semAdd).head? = some q :=
      (Prod.ext_iff.mp (Option.some.inj (ht.symm.trans hu))).1
    rw [hs] at hhead hn
    cases bs with
    | nil =>
        obtain rfl := Option.some.inj hhead
        exact (List.nodup_cons.mp hn).1 hq
    | cons c bs =>
        obtain rfl := Option.some.inj hhead
        exact (List.nodup_cons.mp hn).1 (by simp [hq])

/-- One call keeps the order, unless somebody arrives with a higher priority than somebody who is
there. -/
theorem fifo_step (h : m.Refines b) (hf : Fifo semAdd m a) (hp : m.Proper e)
    (hs : m.step e = some t) : Fifo semAdd t (arrive m e t a) ↔ Behind semAdd m e := by
  have ha := h.fifo_order.mp hf
  obtain ⟨free, act, l, hm⟩ := id h
  rcases hm.call hp with ⟨k, p, rfl, hno, -, hfull⟩ | ⟨u, hu, href⟩
  · -- no descriptor is left, so nobody is blocked on `k`
    rw [AslLinks.step, hfull] at hs
    obtain rfl := Option.some.inj hs
    have harr : arrive m (.insertBlocked k p) m a = a := by simp [arrive, returned, hfull]
    rw [harr]
    refine iff_of_true hf ?_
    rintro rfl q hq
    rw [hm.holds.blocked_nil hno] at hq
    cases hq
  · rw [AslLinks.step, hu] at hs
    obtain rfl : u = t := Option.some.inj hs
    rw [href.fifo_order]
    cases e with
    | insertBlocked k p =>
        have harr : arrive m (.insertBlocked k p) u a = Function.update a k (a k ++ [p]) := by
          simp [arrive, returned, hu, BlockMap.call]
        show Function.update b.queue k (enqueue b.p_prio (b.queue k) p) semAdd = _ ↔ _
        rw [harr]
        by_cases hk : k = semAdd
        · subst hk
          have hout := h.notMem hp k
          rw [ha] at hout
          rw [Function.update_self, Function.update_self, ha, enqueue_eq_append_iff hout]
          simp [Behind, h.blocked, h.p_prio, ha]
        · rw [Function.update_of_ne (Ne.symm hk), Function.update_of_ne (Ne.symm hk)]
          exact iff_of_true ha fun he => absurd he hk
    | removeBlocked k =>
        refine iff_of_true ?_ trivial
        show Function.update b.queue k (b.queue k).tail semAdd = _
        have hret : m.returned (.removeBlocked k) = some (.pcb (b.queue k).head?) := by
          simp [returned, hu, BlockMap.call]
        by_cases hk : k = semAdd
        · subst hk
          rw [Function.update_self]
          cases hq : b.queue k with
          | nil => simp [arrive, hret, hq, ← ha]
          | cons q xs => simp [arrive, hret, hq, ← ha]
        · rw [Function.update_of_ne (Ne.symm hk), ha]
          cases hq : (b.queue k).head? with
          | none => simp [arrive, hret, hq]
          | some q => simp [arrive, hret, hq, Ne.symm hk]
    | outBlocked p =>
        refine iff_of_true ?_ trivial
        by_cases hpq : p ∈ b.queue (b.p_semAdd p)
        · have hret : m.returned (.outBlocked p) = some (.pcb (some p)) := by
            simp [returned, hu, BlockMap.call, hpq]
          have harr : arrive m (.outBlocked p) u a =
              Function.update a (b.p_semAdd p) ((a (b.p_semAdd p)).erase p) := by
            simp [arrive, hret, h.p_semAdd]
          rw [harr, BlockMap.call, if_pos hpq]
          show Function.update b.queue _ _ semAdd = _
          by_cases hk : b.p_semAdd p = semAdd
          · rw [hk, Function.update_self, Function.update_self, ha]
          · rw [Function.update_of_ne (Ne.symm hk), Function.update_of_ne (Ne.symm hk), ha]
        · have hret : m.returned (.outBlocked p) = some (.pcb none) := by
            simp [returned, hu, BlockMap.call, hpq]
          simp [arrive, hret, BlockMap.call, hpq, ha]
    | headBlocked | blockedCount | setSemAdd | setPrio => exact iff_of_true ha trivial

end Refines

/-- **Waiters are released in the order in which they were blocked**, in every state of a run from
`initASL` on, if and only if nobody arrives with a higher priority than somebody in the queue. -/
theorem fifo_iff {m₀ : AslLinks ι} {es : List (AslCall ι)} (semAdd : Word)
    (hr : Run (record step arrive) (fun x e => x.1.Proper e) (m₀.initASL, fun _ => []) es (m, a)) :
    (∀ fs x, fs <+: es → Run (record step arrive) (fun x e => x.1.Proper e)
        (m₀.initASL, fun _ => []) fs x → Fifo semAdd x.1 x.2) ↔
      Run (record step arrive) (fun x e => x.1.Proper e ∧ Behind semAdd x.1 e)
        (m₀.initASL, fun _ => []) es (m, a) := by
  refine hr.always_iff (J := fun x => ∃ b, x.1.Refines b) ⟨_, Refines.init m₀⟩ ?_
    ((Refines.init m₀).fifo_order.mpr rfl) ?_
  · rintro x e y ⟨b, h⟩ hp hs
    exact h.proper_step hp (record_eq_some hs).1
  · rintro x e y ⟨b, h⟩ hf hp hs
    obtain ⟨hst, hnote⟩ := record_eq_some hs
    rw [hnote]
    exact h.fifo_step hf hp hst

/-- The second to arrive has a lower priority. -/
theorem fifo_iff_lower : ∃ (m : AslLinks (Fin 2)) (a : Word → List (Fin 2)),
    Run (record step arrive) (fun x e => x.1.Proper e)
      ((memory fun p => if p = 0 then 1 else 0).initASL, fun _ => [])
      [.insertBlocked 0x1000 0, .insertBlocked 0x1000 1] (m, a) ∧ a 0x1000 = [0, 1] ∧
    Fifo 0x1000 m a := by
  obtain ⟨⟨m, a⟩, hr, ha⟩ := exists_run (record step arrive)
    (fun x e => x.1.Proper e ∧ Behind 0x1000 x.1 e) (fun x => x.2 0x1000 = [0, 1])
    (((memory fun p => if p = 0 then 1 else 0).initASL, fun _ => []) :
      AslLinks (Fin 2) × (Word → List (Fin 2)))
    [.insertBlocked 0x1000 0, .insertBlocked 0x1000 1] (by decide +kernel)
  have hp := hr.mono fun x e he => he.1
  exact ⟨m, a, hp, ha, (fifo_iff 0x1000 hp).mpr hr _ _ (List.prefix_refl _) hp⟩

/-- The second to arrive has a higher priority, and is released first. -/
theorem removeBlocked_overtakes : ∃ x : AslLinks (Fin 2) × (Word → List (Fin 2)),
    Run (record step arrive) (fun x e => x.1.Proper e)
      ((memory fun p => if p = 1 then 1 else 0).initASL, fun _ => [])
      [.insertBlocked 0x1000 0, .insertBlocked 0x1000 1] x ∧
    x.2 0x1000 = [0, 1] ∧ x.1.returned (.removeBlocked 0x1000) = some (.pcb (some 1)) :=
  exists_run (record step arrive) (fun x e => x.1.Proper e)
    (fun x => x.2 0x1000 = [0, 1] ∧ x.1.returned (.removeBlocked 0x1000) = some (.pcb (some 1)))
    _ _ (by decide +kernel)

end PandOS.AslLinks
