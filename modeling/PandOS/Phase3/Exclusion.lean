import PandOS.Phase3.PagerSteps

/-!
# Phase 3 — one pager at a time

What a step of the pager machine does to the processes and to `swapPoolSem` (`VM.Control`), and
the invariant that follows, `VM.Excl`: the semaphore obeys the mutex law, the processes in its
queue have just done their `P`, and no two processes of one ASID are alive and not dying.  So at
most one process is past `select` and before its `V` (`Excl.only`): every statement of the pager
that touches shared tables runs alone.
-/

namespace PandOS.VM

variable {n : ℕ} {s t : VM n} {e : VmEvent n} {q q' : Pid} {a a' : Asid} {p p' : PageNo}

/-! ### What the operations leave alone -/

@[simp] theorem goto_proc {c : Ctl} :
    (s.goto q a c).proc = Function.update s.proc q (some ⟨a, c⟩) := rfl

@[simp] theorem setProc_proc {pr : Option Proc} :
    (s.setProc q pr).proc = Function.update s.proc q pr := rfl

/-- The device changes frames and blocks only. -/
theorem flashPerform_frame {d : Asid} {status : Word} {junk : Page}
    (h : s.flashPerform d status junk = some t) :
    ∃ fl fr, t = { s with flash := fl, frame := fr } := by
  obtain ⟨k, -, h⟩ := Option.bind_eq_some_iff.mp h
  obtain ⟨b, -, h⟩ := Option.bind_eq_some_iff.mp h
  split at h
  · cases h; exact ⟨_, _, rfl⟩
  · split at h
    · cases h
      by_cases hs : status = flashReady
      · rw [if_pos hs]; exact ⟨_, _, rfl⟩
      · rw [if_neg hs]; exact ⟨_, _, rfl⟩
    · cases h

theorem flashPerform_proc {d : Asid} {status : Word} {junk : Page}
    (h : s.flashPerform d status junk = some t) :
    t.proc = s.proc ∧ t.nextPid = s.nextPid ∧ t.swapPoolSem = s.swapPoolSem := by
  obtain ⟨fl, fr, rfl⟩ := flashPerform_frame h
  exact ⟨rfl, rfl, rfl⟩

theorem flashPerform_goto {d : Asid} {status : Word} {junk : Page} {c : Ctl}
    (h : s.flashPerform d status junk = some t) :
    (t.goto q a c).proc = Function.update s.proc q (some ⟨a, c⟩) := by
  rw [goto_proc, (flashPerform_proc h).1]

/-! ### Processes and the semaphore -/

/-- What a step does to the processes and to `swapPoolSem`. -/
inductive Control (s t : VM n) : Prop where
  | same (hp : t.proc = s.proc) (hn : t.nextPid = s.nextPid)
      (hs : t.swapPoolSem = s.swapPoolSem)
  | create (a : Asid) (h : s.Launchable a)
      (hp : t.proc = Function.update s.proc s.nextPid (some ⟨a, .run⟩))
      (hn : t.nextPid = s.nextPid + 1) (hs : t.swapPoolSem = s.swapPoolSem)
  /-- `q` moves on, on the same side of the critical section. -/
  | move (q : Pid) (a : Asid) (c c' : Ctl) (hq : s.proc q = some ⟨a, c⟩) (hc : c ≠ .dying)
      (hin : Proc.inside ⟨a, c⟩ = Proc.inside ⟨a, c'⟩)
      (hb : q ∉ s.swapPoolSem.queue ∨ ∀ p, c ≠ .pager p .select)
      (hp : t.proc = Function.update s.proc q (some ⟨a, c'⟩)) (hn : t.nextPid = s.nextPid)
      (hs : t.swapPoolSem = s.swapPoolSem)
  | enter (q : Pid) (a : Asid) (p : PageNo) (hq : s.proc q = some ⟨a, .pager p .enter⟩)
      (hp : t.proc = Function.update s.proc q (some ⟨a, .pager p .select⟩))
      (hn : t.nextPid = s.nextPid) (hs : t.swapPoolSem = s.swapPoolSem.P q)
  | leave (q : Pid) (a : Asid) (p : PageNo) (pc : PagerPc) (c' : Ctl)
      (hq : s.proc q = some ⟨a, .pager p pc⟩) (hin : pc.inside)
      (hb : q ∉ s.swapPoolSem.queue) (hout : Proc.inside ⟨a, c'⟩ = false)
      (hp : t.proc = Function.update s.proc q (some ⟨a, c'⟩)) (hn : t.nextPid = s.nextPid)
      (hs : t.swapPoolSem = s.swapPoolSem.V)
  | exit (q : Pid) (a : Asid) (hq : s.proc q = some ⟨a, .dying⟩)
      (hp : t.proc = Function.update s.proc q none) (hn : t.nextPid = s.nextPid)
      (hs : t.swapPoolSem = s.swapPoolSem)

/-- Every statement of a call of `flashIO` is between the pager's `P` and `V`, and the pager
goes on there or to its error exit. -/
theorem Call.inside {d b k rw here next} (c : Call a p d b k rw here next) (pc : FlashPc) :
    (here pc).inside ∧ next.inside ∧ ∀ p', Ctl.pager p (here pc) ≠ .pager p' .select := by
  cases c with
  | write k old => exact ⟨rfl, rfl, fun _ => by simp⟩
  | read k => exact ⟨rfl, rfl, fun _ => by simp⟩

/-- A statement moves its own process only, and the pager keeps its page. -/
theorem Stmt.proc {pc : PagerPc} (h : Stmt s q a p pc t) :
    ∃ c, t.proc = Function.update s.proc q (some ⟨a, c⟩) ∧ ∀ p' pc', c = .pager p' pc' → p' = p := by
  cases h <;> exact ⟨_, rfl, by rintro _ _ ⟨⟩ <;> rfl⟩

/-- After `q` moves, a process is where it was, or it is `q` where it moved to. -/
theorem proc_update {j : Pid} {pr : Proc} {pr' : Option Proc}
    (hp : t.proc = Function.update s.proc q pr') (hj : t.proc j = some pr) :
    (j ≠ q ∧ s.proc j = some pr) ∨ (j = q ∧ pr' = some pr) := by
  rw [hp, Function.update_apply] at hj
  by_cases hjq : j = q
  · exact .inr ⟨hjq, by rwa [if_pos hjq] at hj⟩
  · exact .inl ⟨hjq, by rwa [if_neg hjq] at hj⟩

/-- A statement of the pager moves one process, by one `P`, one `V` or neither. -/
theorem Stmt.control {pc : PagerPc} (hq : s.proc q = some ⟨a, .pager p pc⟩)
    (hb : ¬ s.blocked q) (h : Stmt s q a p pc t) : Control s t := by
  have hb' : q ∉ s.swapPoolSem.queue := fun hm => hb (.inl hm)
  have step : ∀ {c' : Ctl}, t.proc = Function.update s.proc q (some ⟨a, c'⟩) →
      Proc.inside ⟨a, .pager p pc⟩ = Proc.inside ⟨a, c'⟩ → t.nextPid = s.nextPid →
      t.swapPoolSem = s.swapPoolSem → Control s t :=
    fun {c'} hp hin hn hs => .move q a _ c' hq (by simp) hin (.inl hb') hp hn hs
  cases h with
  | enter => exact .enter q a p hq rfl rfl rfl
  | select => exact step rfl rfl rfl rfl
  | evict => exact step rfl rfl rfl rfl
  | vacant => exact step rfl rfl rfl rfl
  | flush => exact step rfl rfl rfl rfl
  | acquire c => exact step rfl ((c.inside _).1.trans (c.inside _).1.symm) rfl rfl
  | data0 c => exact step rfl ((c.inside _).1.trans (c.inside _).1.symm) rfl rfl
  | command c => exact step rfl ((c.inside _).1.trans (c.inside _).1.symm) rfl rfl
  | @release d b k rw here next status c =>
      refine step rfl ((c.inside _).1.trans ?_) rfl rfl
      by_cases hs : status = flashReady
      · rw [if_pos hs]; exact (c.inside .acquire).2.1.symm
      · rw [if_neg hs]; rfl
  | record => exact step rfl rfl rfl rfl
  | validate => exact step rfl rfl rfl rfl
  | update => exact step rfl rfl rfl rfl
  | leave => exact .leave q a p _ _ hq rfl hb' rfl rfl rfl rfl
  | abort => exact .leave q a p _ _ hq rfl hb' rfl rfl rfl rfl
  | ret => exact step rfl rfl rfl rfl

/-- A step moves one process, by one `P`, one `V` or neither. -/
theorem Step.control (h : Step s e t) : Control s t := by
  cases h with
  | initPte r => exact .same rfl rfl rfl
  | create h => exact .create _ h rfl rfl rfl
  | load => exact .same rfl rfl rfl
  | store => exact .same rfl rfl rfl
  | refill => exact .same rfl rfl rfl
  | faultMod hq => exact .move _ _ _ .dying hq (by simp) rfl (.inr (by simp)) rfl rfl rfl
  | @fault _ _ _ _ p hq =>
      exact .move _ _ _ (.pager p .enter) hq (by simp) rfl (.inr (by simp)) rfl rfl rfl
  | pager hq hb h => exact h.control hq hb
  | @flashDone _ _ p _ _ _ _ here _ status _ _ c hq h =>
      obtain ⟨hp, hn, hs⟩ := flashPerform_proc h
      refine .move _ _ _ (.pager p (here (.release status))) hq (by simp)
        ((c.inside _).1.trans (c.inside _).1.symm) (.inr (c.inside _).2.2) ?_ hn hs
      rw [goto_proc, hp]
  | die hq => exact .move _ _ _ .dying hq (by simp) rfl (.inr (by simp)) rfl rfl rfl
  | exit hq => exact .exit _ _ hq rfl rfl rfl

/-! ### The invariant -/

/-- Between its `P` and its `V`. -/
def Inside (s : VM n) (q : Pid) : Prop := ∃ pr, s.proc q = some pr ∧ pr.inside

/-- At most one process holds `swapPoolSem`, who waits for it has done its `P` and nothing after it,
and no two live processes have one ASID. -/
structure Excl (s : VM n) : Prop where
  fresh : ∀ q, s.nextPid ≤ q → s.proc q = none
  mutex : Mutex s.swapPoolSem s.Inside
  waiting : ∀ q ∈ s.swapPoolSem.queue, ∃ a p, s.proc q = some ⟨a, .pager p .select⟩
  asid : ∀ q q' a c c', s.proc q = some ⟨a, c⟩ → s.proc q' = some ⟨a, c'⟩ → c ≠ .dying →
    c' ≠ .dying → q = q'

theorem Excl.ne_next (h : s.Excl) (hq : s.proc q = some pr) : q ≠ s.nextPid := by
  rintro rfl
  rw [h.fresh _ le_rfl] at hq
  cases hq

/-- **One pager at a time**: two processes past `select` and before their `V` are one. -/
theorem Excl.only (h : s.Excl) {pc pc' : PagerPc} (hq : s.proc q = some ⟨a, .pager p pc⟩)
    (hq' : s.proc q' = some ⟨a', .pager p' pc'⟩) (hin : pc.inside) (hin' : pc'.inside)
    (hpc : pc ≠ .select) (hpc' : pc' ≠ .select) : q = q' := by
  refine h.mutex.unique ⟨_, hq, hin⟩ (fun hm => ?_) ⟨_, hq', hin'⟩ (fun hm => ?_)
  · obtain ⟨_, _, he⟩ := h.waiting q hm
    rw [hq] at he; cases he; exact hpc rfl
  · obtain ⟨_, _, he⟩ := h.waiting q' hm
    rw [hq'] at he; cases he; exact hpc' rfl

/-- A process about to take a step inside is not in the queue, so it is the holder and every
other process inside has just done its `P`. -/
theorem Excl.others (h : s.Excl) {pc pc' : PagerPc} (hq : s.proc q = some ⟨a, .pager p pc⟩)
    (hin : pc.inside) (hb : q ∉ s.swapPoolSem.queue)
    (hq' : s.proc q' = some ⟨a', .pager p' pc'⟩) (hin' : pc'.inside) (hne : q' ≠ q) :
    pc' = .select := by
  by_contra hpc'
  refine hne (h.mutex.unique ⟨_, hq', hin'⟩ (fun hm => ?_) ⟨_, hq, hin⟩ hb)
  obtain ⟨_, _, he⟩ := h.waiting q' hm
  rw [hq'] at he; cases he; exact hpc' rfl

theorem inside_update {pr : Option Proc} (hp : t.proc = Function.update s.proc q pr) (j : Pid) :
    t.Inside j ↔ (j = q ∧ ∃ x, pr = some x ∧ x.inside) ∨ (j ≠ q ∧ s.Inside j) := by
  unfold Inside
  rw [hp, Function.update_apply]
  by_cases hj : j = q
  · simp [hj]
  · simp [hj]

theorem inside_of_proc {pr : Proc} (hq : s.proc q = some pr) : s.Inside q ↔ pr.inside := by
  simp [Inside, hq]

theorem P_mem {S : Sem Pid} (h : q' ∈ (S.P q).queue) : q' ∈ S.queue ∨ q' = q := by
  unfold Sem.P at h
  split at h
  · simpa using h
  · exact .inl h

theorem V_mem {S : Sem Pid} (h : q' ∈ S.V.queue) : q' ∈ S.queue := by
  unfold Sem.V at h
  split at h
  · exact List.mem_of_mem_tail h
  · exact h

/-- The part of `Excl` that is about processes alone, when `q` moves. -/
theorem Excl.asid_move (h : s.Excl) {c c' : Ctl} (hq : s.proc q = some ⟨a, c⟩) (hc : c ≠ .dying)
    (hp : t.proc = Function.update s.proc q (some ⟨a, c'⟩)) :
    ∀ i j b d d', t.proc i = some ⟨b, d⟩ → t.proc j = some ⟨b, d'⟩ → d ≠ .dying →
      d' ≠ .dying → i = j := by
  intro i j b d d' hi hj hd hd'
  rw [hp, Function.update_apply] at hi hj
  by_cases hiq : i = q <;> by_cases hjq : j = q
  · exact hiq.trans hjq.symm
  · rw [if_pos hiq] at hi
    rw [if_neg hjq] at hj
    cases hi
    exact hiq.trans (h.asid _ _ _ _ _ hq hj hc hd')
  · rw [if_neg hiq] at hi
    rw [if_pos hjq] at hj
    cases hj
    exact (h.asid _ _ _ _ _ hi hq hd hc).trans hjq.symm
  · rw [if_neg hiq] at hi
    rw [if_neg hjq] at hj
    exact h.asid _ _ _ _ _ hi hj hd hd'

theorem Excl.fresh_move (h : s.Excl) {pr : Proc} {pr' : Option Proc} (hq : s.proc q = some pr)
    (hp : t.proc = Function.update s.proc q pr') (hn : t.nextPid = s.nextPid) :
    ∀ j, t.nextPid ≤ j → t.proc j = none := by
  intro j hj
  rw [hn] at hj
  have hjq : j ≠ q := by
    rintro rfl
    rw [h.fresh j hj] at hq
    cases hq
  rw [hp, Function.update_of_ne hjq]
  exact h.fresh j hj

/-- Such a move keeps the pagers exclusive. -/
theorem Excl.control (h : s.Excl) (hc : Control s t) : t.Excl := by
  cases hc with
  | same hp hn hs =>
      refine ⟨fun q hq => ?_, ?_, fun q hq => ?_, ?_⟩
      · rw [hp]; exact h.fresh q (hn ▸ hq)
      · rw [hs]; exact h.mutex.congr fun q => by rw [Inside, Inside, hp]
      · rw [hp]; exact h.waiting q (hs ▸ hq)
      · rw [hp]; exact h.asid
  | create a hl hp hn hs =>
      have hfree : ∀ j, s.nextPid ≤ j → s.proc j = none := h.fresh
      refine ⟨fun q hq => ?_, ?_, fun q hq => ?_, ?_⟩
      · rw [hn] at hq
        have hlt : s.nextPid < q := hq
        rw [hp, Function.update_of_ne hlt.ne']
        exact hfree q hlt.le
      · rw [hs]
        refine h.mutex.congr fun j => ?_
        rw [inside_update hp]
        constructor
        · rintro ⟨pr, hj, hin⟩
          exact .inr ⟨h.ne_next hj, pr, hj, hin⟩
        · rintro (⟨-, x, hx, hin⟩ | ⟨-, hj⟩)
          · cases hx; cases hin
          · exact hj
      · rw [hs] at hq
        obtain ⟨b, p, hb⟩ := h.waiting q hq
        exact ⟨b, p, by rw [hp, Function.update_of_ne (h.ne_next hb)]; exact hb⟩
      · intro i j b d d' hi hj hd hd'
        -- nobody who lives has the ASID of the new process
        have old : ∀ {j d}, s.proc j = some ⟨a, d⟩ → d ≠ .dying → False := fun {j d} hj hd => by
          refine hd (hl.2 j ?_ ⟨a, d⟩ hj rfl)
          by_contra hlt
          rw [hfree j (not_lt.mp hlt)] at hj
          cases hj
        rw [hp, Function.update_apply] at hi hj
        by_cases hi' : i = s.nextPid <;> by_cases hj' : j = s.nextPid
        · exact hi'.trans hj'.symm
        · rw [if_pos hi'] at hi
          rw [if_neg hj'] at hj
          cases hi
          exact absurd hd' (fun hd' => old hj hd')
        · rw [if_neg hi'] at hi
          rw [if_pos hj'] at hj
          cases hj
          exact absurd hd (fun hd => old hi hd)
        · rw [if_neg hi'] at hi
          rw [if_neg hj'] at hj
          exact h.asid _ _ _ _ _ hi hj hd hd'
  | move q a c c' hq hc hin hb hp hn hs =>
      refine ⟨h.fresh_move hq hp hn, ?_, fun j hj => ?_, h.asid_move hq hc hp⟩
      · rw [hs]
        refine h.mutex.congr fun j => ?_
        rw [inside_update hp]
        by_cases hj : j = q
        · subst hj; simp [inside_of_proc hq, hin]
        · simp [hj]
      · rw [hs] at hj
        obtain ⟨b, p, hw⟩ := h.waiting j hj
        have hjq : j ≠ q := by
          rintro rfl
          rw [hq] at hw
          cases hw
          exact hb.elim (fun hb => hb hj) fun hb => hb p rfl
        exact ⟨b, p, by rw [hp, Function.update_of_ne hjq]; exact hw⟩
  | enter q a p hq hp hn hs =>
      have hout : ¬ s.Inside q := by
        rw [inside_of_proc hq]
        exact Bool.false_ne_true
      refine ⟨h.fresh_move hq hp hn, ?_, fun j hj => ?_, h.asid_move hq (by simp) hp⟩
      · rw [hs]
        refine (h.mutex.P hout).congr fun j => ?_
        rw [inside_update hp]
        by_cases hj : j = q
        · simp [hj, Proc.inside, PagerPc.inside]
        · simp [hj]
      · rw [hs] at hj
        rw [hp]
        by_cases hjq : j = q
        · exact ⟨a, p, by simp [hjq]⟩
        · obtain ⟨b, p', hw⟩ := h.waiting j ((P_mem hj).resolve_right hjq)
          exact ⟨b, p', by rw [Function.update_of_ne hjq]; exact hw⟩
  | leave q a p pc c' hq hin hb hout hp hn hs =>
      refine ⟨h.fresh_move hq hp hn, ?_, fun j hj => ?_, h.asid_move hq (by simp) hp⟩
      · rw [hs]
        refine (h.mutex.V ⟨_, hq, hin⟩ hb).congr fun j => ?_
        rw [inside_update hp]
        by_cases hj : j = q
        · simp [hj, hout]
        · simp [hj]
      · rw [hs] at hj
        have hj := V_mem hj
        have hjq : j ≠ q := fun e => hb (e ▸ hj)
        obtain ⟨b, p', hw⟩ := h.waiting j hj
        exact ⟨b, p', by rw [hp, Function.update_of_ne hjq]; exact hw⟩
  | exit q a hq hp hn hs =>
      have hout : ¬ s.Inside q := by
        rw [inside_of_proc hq]
        exact Bool.false_ne_true
      refine ⟨h.fresh_move hq hp hn, ?_, fun j hj => ?_, fun i j b d d' hi hj hd hd' => ?_⟩
      · rw [hs]
        refine h.mutex.congr fun j => ?_
        rw [inside_update hp]
        by_cases hj : j = q
        · simp [hj, hout]
        · simp [hj]
      · rw [hs] at hj
        obtain ⟨b, p, hw⟩ := h.waiting j hj
        have hjq : j ≠ q := fun e => hout (h.mutex.sub q (e ▸ hj))
        exact ⟨b, p, by rw [hp, Function.update_of_ne hjq]; exact hw⟩
      · rw [hp, Function.update_apply] at hi hj
        by_cases hi' : i = q
        · rw [if_pos hi'] at hi; cases hi
        · by_cases hj' : j = q
          · rw [if_pos hj'] at hj; cases hj
          · rw [if_neg hi'] at hi
            rw [if_neg hj'] at hj
            exact h.asid _ _ _ _ _ hi hj hd hd'

/-- **The step lemma.** -/
theorem Excl.step (h : s.Excl) (hs : Step s e t) : t.Excl := h.control hs.control

instance : Decidable (s.Inside q) :=
  inferInstanceAs (Decidable (∃ pr ∈ s.proc q, pr.inside = true))

/-- It is enough to look at the processes created so far. -/
theorem Excl.none_inside (h : s.Excl) (hno : ∀ q < s.nextPid, ¬ s.Inside q) : ∀ q, ¬ s.Inside q := by
  rintro q ⟨pr, hq, hin⟩
  by_cases hlt : q < s.nextPid
  · exact hno q hlt ⟨pr, hq, hin⟩
  · rw [h.fresh q (not_lt.mp hlt)] at hq
    cases hq

/-! ### The flash mutexes -/

/-- The device whose mutex a process has begun to acquire and not yet released. -/
def PagerPc.device (a : Asid) : PagerPc → Option Asid
  | .write _ _ .acquire | .read _ .acquire => none
  | .write _ old _ => some old.sw_asid
  | .read _ _ => some a
  | _ => none

/-- Between the `P` and the `V` of `flashMutex[d]`. -/
def InFlash (s : VM n) (d : Asid) (q : Pid) : Prop :=
  ∃ a p pc, s.proc q = some ⟨a, .pager p pc⟩ ∧ PagerPc.device a pc = some d

/-- Every flash mutex obeys the mutex law. -/
def FlashExcl (s : VM n) : Prop := ∀ d, Mutex (s.flashMutex d) (s.InFlash d)

theorem Call.device {d b k rw here next} (c : Call a p d b k rw here next) :
    PagerPc.device a (here .acquire) = none ∧ PagerPc.device a next = none ∧
      ∀ pc, pc ≠ .acquire → PagerPc.device a (here pc) = some d := by
  cases c with
  | write k old => exact ⟨rfl, rfl, fun pc hpc => by cases pc <;> first | rfl | exact absurd rfl hpc⟩
  | read k => exact ⟨rfl, rfl, fun pc hpc => by cases pc <;> first | rfl | exact absurd rfl hpc⟩

theorem inFlash_update {d : Asid} {pr : Option Proc} (hp : t.proc = Function.update s.proc q pr)
    (j : Pid) : t.InFlash d j ↔
      (j = q ∧ ∃ a p pc, pr = some ⟨a, .pager p pc⟩ ∧ PagerPc.device a pc = some d) ∨
      (j ≠ q ∧ s.InFlash d j) := by
  unfold InFlash
  rw [hp, Function.update_apply]
  by_cases hj : j = q
  · simp [hj]
  · simp [hj]

/-- `q` moves, on the same side of every flash mutex. -/
theorem FlashExcl.move (h : s.FlashExcl) {pr : Proc} {pr' : Option Proc} (hq : s.proc q = some pr)
    (hp : t.proc = Function.update s.proc q pr') (hm : t.flashMutex = s.flashMutex)
    (hd : ∀ d, (∃ a p pc, pr' = some ⟨a, .pager p pc⟩ ∧ PagerPc.device a pc = some d) ↔
      ∃ a p pc, pr = ⟨a, .pager p pc⟩ ∧ PagerPc.device a pc = some d) : t.FlashExcl := by
  intro d
  rw [hm]
  refine (h d).congr fun j => ?_
  rw [inFlash_update hp]
  by_cases hj : j = q
  · subst hj
    simp only [true_and, ne_eq, not_true_eq_false, false_and, or_false, hd d]
    rw [InFlash, hq]
    simp
  · simp [hj]

/-- The mutex of a device whose critical section `q` neither leaves nor enters. -/
theorem FlashExcl.elsewhere (h : s.FlashExcl) {d d' : Asid} {m : Sem Pid} {pc pc' : PagerPc}
    (hq : s.proc q = some ⟨a, .pager p pc⟩)
    (hp : t.proc = Function.update s.proc q (some ⟨a, .pager p pc'⟩))
    (hm : t.flashMutex = Function.update s.flashMutex d m) (hdd : d' ≠ d)
    (hout : PagerPc.device a pc ≠ some d') (hout' : PagerPc.device a pc' ≠ some d') :
    Mutex (t.flashMutex d') (t.InFlash d') := by
  rw [hm, Function.update_of_ne hdd]
  refine (h d').congr fun j => Iff.trans ?_ (inFlash_update hp j).symm
  by_cases hj : j = q
  · subst hj
    simp [InFlash, hq, hout, hout']
  · simp [hj]

/-- A statement of the pager keeps the flash devices exclusive. -/
theorem FlashExcl.stmt {pc : PagerPc} (h : s.FlashExcl) (hst : Stmt s q a p pc t)
    (hq : s.proc q = some ⟨a, .pager p pc⟩) (hb : ¬ s.blocked q) : t.FlashExcl := by
  -- a statement on the same side of every flash mutex
  have keep : ∀ {c : Ctl} {u : VM n}, u.proc = Function.update s.proc q (some ⟨a, c⟩) →
      u.flashMutex = s.flashMutex → (∀ p' pc', c = .pager p' pc' →
        PagerPc.device a pc' = PagerPc.device a pc) → (PagerPc.device a pc ≠ none →
          ∃ p' pc', c = .pager p' pc') → u.FlashExcl := by
    intro c u hp hm hd hsome
    refine h.move hq hp hm fun d => ⟨?_, ?_⟩
    · rintro ⟨_, p', pc', ⟨⟩, hdev⟩
      exact ⟨a, p, pc, rfl, (hd p' pc' rfl).symm.trans hdev⟩
    · rintro ⟨_, _, _, ⟨⟩, hdev⟩
      obtain ⟨p', pc', rfl⟩ := hsome (by simp [hdev])
      exact ⟨a, p', pc', rfl, (hd p' pc' rfl).trans hdev⟩
  cases hst with
  | enter => exact keep rfl rfl (by rintro _ _ ⟨⟩; rfl) fun _ => ⟨_, _, rfl⟩
  | select => exact keep rfl rfl (by rintro _ _ ⟨⟩; rfl) fun _ => ⟨_, _, rfl⟩
  | evict => exact keep rfl rfl (by rintro _ _ ⟨⟩; rfl) fun _ => ⟨_, _, rfl⟩
  | vacant => exact keep rfl rfl (by rintro _ _ ⟨⟩; rfl) fun _ => ⟨_, _, rfl⟩
  | flush => exact keep rfl rfl (by rintro _ _ ⟨⟩; rfl) fun _ => ⟨_, _, rfl⟩
  | @acquire d b k rw here next c =>
      intro d'
      by_cases hdd : d' = d
      · subst hdd
        have hout : ¬ s.InFlash d' q := by
          rintro ⟨_, _, _, hq', hdev⟩
          rw [hq] at hq'
          cases hq'
          rw [c.device.1] at hdev
          cases hdev
        show Mutex (Function.update s.flashMutex d' _ d') _
        rw [Function.update_self]
        refine ((h d').P hout).congr fun j =>
          Iff.trans ?_ (inFlash_update (s := s) (q := q) rfl j).symm
        by_cases hj : j = q
        · simp [hj, c.device.2.2 .data0 (by simp)]
        · simp [hj]
      · refine h.elsewhere hq rfl rfl hdd ?_ ?_
        · simp [c.device.1]
        · simp [c.device.2.2 .data0, Ne.symm hdd]
  | data0 c =>
      refine keep rfl rfl ?_ fun _ => ⟨_, _, rfl⟩
      rintro _ _ ⟨⟩
      rw [c.device.2.2 _ (by simp), c.device.2.2 _ (by simp)]
  | command c =>
      refine keep rfl rfl ?_ fun _ => ⟨_, _, rfl⟩
      rintro _ _ ⟨⟩
      rw [c.device.2.2 _ (by simp), c.device.2.2 _ (by simp)]
  | @release d b k rw here next status c =>
      have hdev := c.device.2.2 (.release status) (by simp)
      have hafter : PagerPc.device a (if status = flashReady then next else .abort) = none := by
        by_cases hr : status = flashReady
        · rw [if_pos hr]; exact c.device.2.1
        · rw [if_neg hr]; rfl
      intro d'
      by_cases hdd : d' = d
      · subst hdd
        show Mutex (Function.update s.flashMutex d' _ d') _
        rw [Function.update_self]
        refine ((h d').V ⟨a, p, _, hq, hdev⟩ fun hm => hb (.inr ⟨d', hm⟩)).congr fun j =>
          Iff.trans ?_ (inFlash_update (s := s) (q := q) rfl j).symm
        by_cases hj : j = q
        · simp [hj, hafter]
        · simp [hj]
      · refine h.elsewhere hq rfl rfl hdd ?_ ?_
        · simp [hdev, Ne.symm hdd]
        · simp [hafter]
  | record => exact keep rfl rfl (by rintro _ _ ⟨⟩; rfl) fun _ => ⟨_, _, rfl⟩
  | validate => exact keep rfl rfl (by rintro _ _ ⟨⟩; rfl) fun _ => ⟨_, _, rfl⟩
  | update => exact keep rfl rfl (by rintro _ _ ⟨⟩; rfl) fun _ => ⟨_, _, rfl⟩
  | leave => exact keep rfl rfl (by rintro _ _ ⟨⟩; rfl) fun _ => ⟨_, _, rfl⟩
  | abort => exact keep rfl rfl (by rintro _ _ ⟨⟩) fun h => absurd rfl h
  | ret => exact keep rfl rfl (by rintro _ _ ⟨⟩) fun h => absurd rfl h

theorem flashPerform_mutex {d : Asid} {status : Word} {junk : Page}
    (h : s.flashPerform d status junk = some t) : t.flashMutex = s.flashMutex := by
  obtain ⟨fl, fr, rfl⟩ := flashPerform_frame h
  rfl

/-- A step keeps the flash devices exclusive. -/
theorem FlashExcl.step (h : s.FlashExcl) (hx : s.Excl) (hs : Step s e t) : t.FlashExcl := by
  -- `q` is outside of every flash mutex before and after
  have keep : ∀ {q : Pid} {pr : Proc} (pr' : Option Proc) {u : VM n}, s.proc q = some pr →
      u.proc = Function.update s.proc q pr' → u.flashMutex = s.flashMutex →
      (∀ a p pc, pr = ⟨a, .pager p pc⟩ → PagerPc.device a pc = none) →
      (∀ a p pc, pr' = some ⟨a, .pager p pc⟩ → PagerPc.device a pc = none) → u.FlashExcl := by
    intro q pr pr' u hq hp hm hn hn'
    refine h.move hq hp hm fun d => ⟨?_, ?_⟩
    · rintro ⟨_, _, _, hpr, hd⟩; rw [hn' _ _ _ hpr] at hd; cases hd
    · rintro ⟨_, _, _, hpr, hd⟩; rw [hn _ _ _ hpr] at hd; cases hd
  cases hs with
  | initPte => exact h
  | create =>
      refine fun d => (h d).congr fun j =>
        Iff.trans ?_ (inFlash_update (s := s) (q := s.nextPid) rfl j).symm
      by_cases hj : j = s.nextPid
      · simp [InFlash, hj, hx.fresh _ le_rfl]
      · simp [hj]
  | load => exact h
  | store => exact h
  | refill => exact h
  | @faultMod q a _ _ hq =>
      exact keep (some ⟨a, .dying⟩) hq rfl rfl (by rintro _ _ _ ⟨⟩) (by rintro _ _ _ ⟨⟩)
  | @fault q a _ _ p hq =>
      exact keep (some ⟨a, .pager p .enter⟩) hq rfl rfl (by rintro _ _ _ ⟨⟩)
        (by rintro _ _ _ ⟨⟩; rfl)
  | pager hq hb hst => exact h.stmt hst hq hb
  | @flashDone q a p d b k rw here next status junk u c hq hu =>
      have hproc := flashPerform_goto (q := q) (a := a) (c := .pager p (here (.release status))) hu
      have hm : u.flashMutex = s.flashMutex := flashPerform_mutex hu
      refine h.move hq hproc hm fun d' => ⟨?_, ?_⟩
      · rintro ⟨_, _, _, ⟨⟩, hd⟩
        rw [c.device.2.2 _ (by simp)] at hd
        exact ⟨a, p, _, rfl, (c.device.2.2 _ (by simp)).trans hd⟩
      · rintro ⟨_, _, _, ⟨⟩, hd⟩
        rw [c.device.2.2 _ (by simp)] at hd
        exact ⟨a, p, _, rfl, (c.device.2.2 _ (by simp)).trans hd⟩
  | @die q a hq =>
      exact keep (some ⟨a, .dying⟩) hq rfl rfl (by rintro _ _ _ ⟨⟩) (by rintro _ _ _ ⟨⟩)
  | exit hq => exact keep none hq rfl rfl (by rintro _ _ _ ⟨⟩) (by rintro _ _ _ ⟨⟩)

end PandOS.VM
