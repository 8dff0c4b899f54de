import PandOS.Phase3.Mutexes

/-!
# Phase 3 — what a statement does, and who waits

`Support.act` says which system call a step of the Support Level makes, and for whom, and
`Support.awaited` which semaphore a process waits for if it is blocked.  `Step.moves` is what a
step does to processes and semaphores: it is the `TERMPROCESS` of a process, or it leaves every
process but its own alone, and each semaphore it changes by the `P` or the `V` it makes.

`Support.Parked` follows on every run from any number of U-procs in user mode (`Support.Calm`): a
process in the queue of a semaphore stands where its `P` on that semaphore left it.
-/

namespace PandOS

variable {n : ℕ}

/-- The semaphores of the Support Level. -/
inductive SemName where
  | master | shell
  | term (d : Channel)
  | swapPool
  | flash (d : Asid)
  deriving DecidableEq

/-- What a statement does for others to see: a system call, or a page made valid. -/
inductive SupportAct where
  | passeren (m : SemName)
  | verhogen (m : SemName)
  /-- `DOIO` on the flash device of `d`: the operation `rw` on block `b` and frame `k`. -/
  | flash (d : Asid) (b : PageNo) (k : FrameNo) (rw : Word)
  /-- `DOIO` on terminal 0. -/
  | terminal (d : Channel)
  | createProcess
  | termProcess
  /-- The entry of page `r` becomes valid, for frame `k`. -/
  | map (r : PageId) (k : FrameNo)
  deriving DecidableEq

/-- The process a step of the pager machine moves. -/
def VmEvent.subject : VmEvent n → Option Pid
  | .initPte _ | .create _ => none
  | .load q _ _ _ _ | .store q _ _ _ _ | .refill q _ _ | .fault q _ _ | .pager q
  | .flashDone q _ _ | .die q | .exit q => some q

/-- The U-proc a step moves. -/
def SupportEvent.subject : SupportEvent n → Option Pid
  | .test => none
  | .mem e => e.subject
  | .ecall q _ _ _ | .trap q _ | .handler q | .noPcb q | .termDone q _ => some q

/-- Whom a U-proc signals before it terminates: `test`, or the shell. -/
def Asid.signals (a : Asid) : SemName := if a = .shell then .master else .shell

/-- `flashIO`. -/
def FlashPc.act (d : Asid) (b : PageNo) (k : FrameNo) (rw : Word) : FlashPc → Option SupportAct
  | .acquire => some (.passeren (.flash d))
  | .command => some (.flash d b k rw)
  | .release _ => some (.verhogen (.flash d))
  | .data0 | .busy => none

/-- `pager`, of ASID `a` for page `p`. -/
def PagerPc.act (a : Asid) (p : PageNo) : PagerPc → Option SupportAct
  | .enter => some (.passeren .swapPool)
  | .write k old pc => pc.act old.sw_asid old.sw_pageNo k flashWrite
  | .read k pc => pc.act a p k flashRead
  | .validate k => some (.map (a, p) k)
  | .leave | .abort => some (.verhogen .swapPool)
  | _ => none

/-- The general handler, of ASID `a`. -/
def GenPc.act (a : Asid) : GenPc → Option SupportAct
  | .sys4 .acquire => some (.passeren (.term .tx))
  | .sys4 (.command _ _) => some (.terminal .tx)
  | .sys4 (.release _) => some (.verhogen (.term .tx))
  | .sys5 .acquire => some (.passeren (.term .rx))
  | .sys5 (.command _) => some (.terminal .rx)
  | .sys5 (.release _) => some (.verhogen (.term .rx))
  | .sys6 (.create _) => some .createProcess
  | .sys6 .wait => some (.passeren .shell)
  | .signal => some (.verhogen a.signals)
  | .term => some .termProcess
  | _ => none

/-- `test`. -/
def TestPc.act : TestPc → Option SupportAct
  | .create => some .createProcess
  | .wait => some (.passeren .master)
  | .term => some .termProcess
  | _ => none

/-- The semaphore a process of ASID `a` waits for in the pager, if it is blocked. -/
def PagerPc.awaited (a : Asid) : PagerPc → Option SemName
  | .select => some .swapPool
  | .write _ old .data0 => some (.flash old.sw_asid)
  | .read _ .data0 => some (.flash a)
  | _ => none

/-- The semaphore a process waits for in the handler, if it is blocked. -/
def GenPc.awaited : GenPc → Option SemName
  | .sys4 (.load _) | .sys4 (.release _) => some (.term .tx)
  | .sys5 (.command _) | .sys5 (.release _) => some (.term .rx)
  | .ldst => some .shell
  | _ => none

namespace Support

variable {s t : Support n} {e : SupportEvent n} {es : List (SupportEvent n)} {q : Pid} {a : Asid}
  {m : SemName}

/-- A semaphore by its name. -/
def sem (s : Support n) : SemName → Sem Pid
  | .master => s.masterSemaphore
  | .shell => s.shellSemaphore
  | .term d => s.termMutex d
  | .swapPool => s.vm.swapPoolSem
  | .flash d => s.vm.flashMutex d

theorem blocked_iff : s.blocked q ↔ ∃ m, q ∈ (s.sem m).queue := by
  constructor
  · rintro (h | h | h | h | h | ⟨d, h⟩)
    exacts [⟨.master, h⟩, ⟨.shell, h⟩, ⟨.term .tx, h⟩, ⟨.term .rx, h⟩, ⟨.swapPool, h⟩, ⟨.flash d, h⟩]
  · rintro ⟨m | m | ⟨_ | _⟩ | m | d, h⟩
    exacts [.inl h, .inr (.inl h), .inr (.inr (.inl h)), .inr (.inr (.inr (.inl h))),
      .inr (.inr (.inr (.inr (.inl h)))), .inr (.inr (.inr (.inr (.inr ⟨_, h⟩))))]

/-- What a step does, and for which process; 0 is `test`. -/
def act (s : Support n) : SupportEvent n → Option (Pid × SupportAct)
  | .test => s.testPc.act.map (0, ·)
  | .mem (.pager q) =>
      match s.vm.proc q with
      | some ⟨a, .pager p pc⟩ => (pc.act a p).map (q, ·)
      | _ => none
  | .handler q => (s.vm.proc q).bind fun pr => ((s.pc q).act pr.asid).map (q, ·)
  | .noPcb q => some (q, .createProcess)
  | _ => none

/-- The semaphore `q` waits for, if it is blocked. -/
def awaited (s : Support n) (q : Pid) : Option SemName :=
  match s.vm.proc q with
  | some ⟨a, .pager _ pc⟩ => pc.awaited a
  | some ⟨_, .run⟩ => (s.pc q).awaited
  | _ => none

/-- Between the `P` and the `V` of a mutex, by where the process stands. -/
def Between (s : Support n) : SemName → Pid → Prop
  | .term d, q => s.InTerm d q
  | .swapPool, q => s.vm.Inside q
  | .flash d, q => s.vm.InFlash d q
  | .master, _ | .shell, _ => False

/-- Terminating, or terminated. -/
def Gone (s : Support n) (q : Pid) : Prop := ∀ pr, s.vm.proc q = some pr → pr.ctl = .dying

/-! ### What a step does to processes and semaphores -/

/-- What a step does to a semaphore. -/
inductive SemMove (s : Support n) (e : SupportEvent n) (t : Support n) (m : SemName) : Prop where
  | same (hm : t.sem m = s.sem m)
  | acquire (q : Pid) (ha : s.act e = some (q, .passeren m)) (hb : q ∉ (s.sem m).queue)
      (hm : t.sem m = (s.sem m).P q)
  | release (q : Pid) (ha : s.act e = some (q, .verhogen m)) (hm : t.sem m = (s.sem m).V)

end Support

/-! ### Steps of the pager machine -/

namespace VM

variable {s t : VM n} {e : VmEvent n} {q : Pid}

/-- A step leaves every process but its own alone. -/
theorem Step.frame (h : Step s e t) (hc : ∀ a, e ≠ .create a) (hq : e.subject ≠ some q) :
    t.proc q = s.proc q := by
  have ne : ∀ {i : Pid}, e.subject = some i → q ≠ i := fun hi he => hq (he ▸ hi)
  cases h with
  | initPte | load | store | refill => rfl
  | create => exact absurd rfl (hc _)
  | faultMod => exact Function.update_of_ne (ne rfl) ..
  | fault => exact Function.update_of_ne (ne rfl) ..
  | pager hi hb hst =>
      obtain ⟨c, hp, -⟩ := hst.proc
      rw [hp]
      exact Function.update_of_ne (ne rfl) ..
  | flashDone c hi hu =>
      rw [goto_proc, (flashPerform_proc hu).1]
      exact Function.update_of_ne (ne rfl) ..
  | die => exact Function.update_of_ne (ne rfl) ..
  | exit => exact Function.update_of_ne (ne rfl) ..

/-- Only the pager touches its semaphores. -/
theorem Step.sems (h : Step s e t) (hp : ∀ q, e ≠ .pager q) :
    t.swapPoolSem = s.swapPoolSem ∧ t.flashMutex = s.flashMutex := by
  cases h with
  | pager => exact absurd rfl (hp _)
  | flashDone c hi hu =>
      have hm := flashPerform_mutex hu
      exact ⟨(flashPerform_proc hu).2.2, hm⟩
  | _ => exact ⟨rfl, rfl⟩

/-- What a statement of `flashIO` on the device of `d` does. -/
theorem Call.act {a d : Asid} {p b : PageNo} {k : FrameNo} {rw : Word} {here : FlashPc → PagerPc}
    {next : PagerPc} (c : Call a p d b k rw here next) (pc : FlashPc) :
    (here pc).act a p = pc.act d b k rw := by
  cases c <;> rfl

theorem Call.awaited {a d : Asid} {p b : PageNo} {k : FrameNo} {rw : Word}
    {here : FlashPc → PagerPc} {next : PagerPc} (c : Call a p d b k rw here next) (pc : FlashPc) :
    (here pc).awaited a = if pc = .data0 then some (.flash d) else none := by
  cases c <;> cases pc <;> rfl

end VM

namespace Support

variable {s t : Support n} {e : SupportEvent n} {es : List (SupportEvent n)} {q : Pid} {a : Asid}
  {m : SemName}

theorem withVm_sem {u : VM n} : (s.withVm q u).sem m = { s with vm := u }.sem m := by
  unfold withVm
  split
  · rcases m with _ | _ | ⟨_ | _⟩ | _ | _ <;> rfl
  · rfl

theorem setPc_self {g : GenPc} : (s.setPc q g).pc q = g := Function.update_self ..

theorem setPc_sem {g : GenPc} : (s.setPc q g).sem m = s.sem m := by
  rcases m with _ | _ | ⟨_ | _⟩ | _ | _ <;> rfl

theorem sem_vm {u : VM n} (hs : u.swapPoolSem = s.vm.swapPoolSem)
    (hf : u.flashMutex = s.vm.flashMutex) : { s with vm := u }.sem m = s.sem m := by
  rcases m with _ | _ | ⟨_ | _⟩ | _ | d
  · rfl
  · rfl
  · rfl
  · rfl
  · exact hs
  · exact congrFun hf d

theorem act_pager {p : PageNo} {pc : PagerPc} (hq : s.vm.proc q = some ⟨a, .pager p pc⟩) :
    s.act (.mem (.pager q)) = (pc.act a p).map (q, ·) := by
  rw [act, hq]

theorem awaited_pager {p : PageNo} {pc : PagerPc} (hq : s.vm.proc q = some ⟨a, .pager p pc⟩) :
    s.awaited q = pc.awaited a := by
  rw [awaited, hq]

theorem sem_swapPool {u : VM n} (hf : u.flashMutex = s.vm.flashMutex) (hm : m ≠ .swapPool) :
    { s with vm := u }.sem m = s.sem m := by
  rcases m with _ | _ | ⟨_ | _⟩ | _ | d
  · rfl
  · rfl
  · rfl
  · rfl
  · exact absurd rfl hm
  · exact congrFun hf d

theorem sem_flash {u : VM n} {d : Asid} {S : Sem Pid} (hs : u.swapPoolSem = s.vm.swapPoolSem)
    (hf : u.flashMutex = Function.update s.vm.flashMutex d S) (hm : m ≠ .flash d) :
    { s with vm := u }.sem m = s.sem m := by
  rcases m with _ | _ | ⟨_ | _⟩ | _ | d'
  · rfl
  · rfl
  · rfl
  · rfl
  · exact hs
  · have hd : d' ≠ d := fun h => hm (h ▸ rfl)
    exact (congrFun hf d').trans (Function.update_of_ne hd ..)

/-- A statement of the pager. -/
theorem semMove_pager {p : PageNo} {pc : PagerPc} {u : VM n} (hb : ¬ s.blocked q)
    (hq : s.vm.proc q = some ⟨a, .pager p pc⟩) (hst : VM.Stmt s.vm q a p pc u) :
    SemMove s (.mem (.pager q)) (s.withVm q u) m := by
  have ha := act_pager hq
  have hb' : q ∉ (s.sem m).queue := fun h => hb (blocked_iff.mpr ⟨m, h⟩)
  -- the statements without a `P` or a `V`
  have silent : ∀ {v : VM n}, v.swapPoolSem = s.vm.swapPoolSem → v.flashMutex = s.vm.flashMutex →
      SemMove s (.mem (.pager q)) (s.withVm q v) m :=
    fun h₁ h₂ => .same (withVm_sem.trans (sem_vm h₁ h₂))
  cases hst with
  | enter =>
      by_cases hm : m = .swapPool
      · subst hm
        exact .acquire q ha hb' withVm_sem
      · exact .same (withVm_sem.trans (sem_swapPool rfl hm))
  | @acquire d b k rw here next c =>
      by_cases hm : m = .flash d
      · subst hm
        exact .acquire q (by rw [ha, c.act]; rfl) hb' (withVm_sem.trans (Function.update_self ..))
      · exact .same (withVm_sem.trans (sem_flash rfl rfl hm))
  | @release d b k rw here next status c =>
      by_cases hm : m = .flash d
      · subst hm
        exact .release q (by rw [ha, c.act]; rfl) (withVm_sem.trans (Function.update_self ..))
      · exact .same (withVm_sem.trans (sem_flash rfl rfl hm))
  | leave =>
      by_cases hm : m = .swapPool
      · subst hm
        exact .release q ha withVm_sem
      · exact .same (withVm_sem.trans (sem_swapPool rfl hm))
  | abort =>
      by_cases hm : m = .swapPool
      · subst hm
        exact .release q ha withVm_sem
      · exact .same (withVm_sem.trans (sem_swapPool rfl hm))
  | _ => exact silent rfl rfl

/-- What a step does: it is a `TERMPROCESS`, or it leaves every process but its own alone. -/
inductive Moves (s : Support n) (e : SupportEvent n) (t : Support n) : Prop where
  | terminates (i : Pid) (ha : s.act e = some (i, .termProcess))
      (ht : ∃ tp, t = { s.terminate i with testPc := tp })
      (hi : s.pc i = .term ∧ ¬ s.blocked i ∧ s.vm.proc i ≠ none ∧ t.testPc = s.testPc ∨
        i = 0 ∧ s.testPc = .term ∧ 0 ∉ s.masterSemaphore.queue)
  | plain
      (frame : ∀ q < s.vm.nextPid, e.subject ≠ some q →
        t.vm.proc q = s.vm.proc q ∧ t.pc q = s.pc q)
      (dead : ∀ q < s.vm.nextPid, s.vm.proc q = none → t.vm.proc q = none)
      (next : s.vm.nextPid ≤ t.vm.nextPid)
      (fresh : ∀ q, t.vm.nextPid ≤ q → t.vm.proc q = none)
      (test : s.testPc = .term → t.testPc = .term)
      (sems : ∀ m, SemMove s e t m)

/-- `q` moves to another statement of the handler. -/
theorem Moves.ofSetPc {pr : Proc} {g : GenPc} (hf : ∀ q, s.vm.nextPid ≤ q → s.vm.proc q = none)
    (hq : s.vm.proc q = some pr) (he : e.subject = some q) (hp : t.pc = Function.update s.pc q g)
    (hv : ∀ j, j ≠ q → t.vm.proc j = s.vm.proc j) (hn : t.vm.nextPid = s.vm.nextPid)
    (ht : t.testPc = s.testPc) (hs : ∀ m, SemMove s e t m) : Moves s e t := by
  have hlt : q < s.vm.nextPid := by
    by_contra hlt
    rw [hf q (not_lt.mp hlt)] at hq
    cases hq
  refine .plain (fun j _ hj => ?_) (fun j _ hj => ?_) hn.ge (fun j hj => ?_) (fun h => ht.trans h) hs
  · have hne : j ≠ q := fun h => hj (h ▸ he)
    exact ⟨hv j hne, by rw [hp, Function.update_of_ne hne]⟩
  · have hne : j ≠ q := by
      rintro rfl
      rw [hq] at hj
      cases hj
    rw [hv j hne, hj]
  · have hne : j ≠ q := (lt_of_lt_of_le hlt (hn ▸ hj)).ne'
    rw [hv j hne]
    exact hf j (hn ▸ hj)

/-- A step of the pager machine. -/
theorem Moves.ofVm {f : VmEvent n} {u : VM n} (hf : ∀ q, s.vm.nextPid ≤ q → s.vm.proc q = none)
    (hu : s.vm.step f = some u) (hc : ∀ a, f ≠ .create a) (hx : ∀ q, f ≠ .exit q) (hv : t.vm = u)
    (hp : ∀ q, f.subject ≠ some q → t.pc q = s.pc q) (ht : t.testPc = s.testPc)
    (hs : ∀ m, SemMove s (.mem f) t m) : Moves s (.mem f) t := by
  have hst := VM.step_view hu
  obtain ⟨ha, hn⟩ := hst.asids hc hx
  have dead : ∀ j, s.vm.proc j = none → u.proc j = none := by
    intro j hj
    have := ha j
    rw [hj] at this
    exact Option.map_eq_none_iff.mp this
  subst hv
  exact .plain (fun j _ hj => ⟨hst.frame hc hj, hp j hj⟩) (fun j _ => dead j) hn.ge
    (fun j hj => dead j (hf j (hn ▸ hj))) (fun h => ht.trans h) hs

/-- A process is created. -/
theorem Moves.ofCreate (hf : ∀ q, s.vm.nextPid ≤ q → s.vm.proc q = none)
    (hv : t.vm.proc = Function.update s.vm.proc s.vm.nextPid (some ⟨a, .run⟩))
    (hn : t.vm.nextPid = s.vm.nextPid + 1)
    (hp : ∀ q < s.vm.nextPid, e.subject ≠ some q → t.pc q = s.pc q)
    (ht : s.testPc = .term → t.testPc = .term) (hs : ∀ m, SemMove s e t m) : Moves s e t := by
  have old : ∀ j, j ≠ s.vm.nextPid → t.vm.proc j = s.vm.proc j :=
    fun j hj => by rw [hv, Function.update_of_ne hj]
  refine .plain (fun j hj he => ⟨old j hj.ne, hp j hj he⟩) (fun j hj hd => (old j hj.ne).trans hd)
    (hn ▸ Nat.le_succ _) (fun j hj => ?_) ht hs
  have hlt : s.vm.nextPid < j := by
    rw [hn] at hj
    exact hj
  exact (old j hlt.ne').trans (hf j hlt.le)

theorem act_handler {pr : Proc} {g : GenPc} (hq : s.vm.proc q = some pr) (hpc : s.pc q = g) :
    s.act (.handler q) = (g.act pr.asid).map (q, ·) := by
  rw [act, hq, hpc]
  rfl

theorem awaited_run (hq : s.vm.proc q = some ⟨a, .run⟩) : s.awaited q = (s.pc q).awaited := by
  rw [awaited, hq]

/-- **What a step does to processes and semaphores.** -/
theorem Step.moves (h : Step s e t) (hf : ∀ q, s.vm.nextPid ≤ q → s.vm.proc q = none)
    (h0 : 0 ∈ s.masterSemaphore.queue → s.testPc = .term) : Moves s e t := by
  -- a step that touches no semaphore
  have same : ∀ {u : Support n}, (∀ m, u.sem m = s.sem m) → ∀ m, SemMove s e u m :=
    fun hm m => .same (hm m)
  have keep : ∀ {i : Pid} {pr : Proc} (g : GenPc) {u : Support n}, s.vm.proc i = some pr →
      e.subject = some i → u.vm = s.vm → u.pc = Function.update s.pc i g → u.testPc = s.testPc →
      (∀ m, SemMove s e u m) → Moves s e u :=
    fun g _ hi he hv hp ht hs => .ofSetPc hf hi he hp (fun j _ => by rw [hv]) (by rw [hv]) ht hs
  have free : ∀ {i : Pid}, ¬ s.blocked i → ∀ m, i ∉ (s.sem m).queue :=
    fun hb m hm => hb (blocked_iff.mpr ⟨m, hm⟩)
  have test : ∀ {u : Support n}, u.vm.proc = s.vm.proc → u.vm.nextPid = s.vm.nextPid →
      u.pc = s.pc → (s.testPc = .term → u.testPc = .term) → (∀ m, SemMove s e u m) →
      Moves s e u := by
    intro u hv hn hp ht hs
    exact .plain (fun j _ _ => ⟨congrFun hv j, congrFun hp j⟩)
      (fun j _ hj => (congrFun hv j).trans hj) hn.ge
      (fun j hj => (congrFun hv j).trans (hf j (hn ▸ hj))) ht hs
  -- a memory step of `i` after which its handler is at `g`, or where it was
  have mem : ∀ {f : VmEvent n} {u : VM n} {v : Support n}, s.vm.step f = some u →
      (∀ a, f ≠ .create a) → (∀ q, f ≠ .exit q) → (∀ q, f ≠ .pager q) → v.vm = u →
      (∀ j, f.subject ≠ some j → v.pc j = s.pc j) → v.testPc = s.testPc →
      (∀ m, v.sem m = { s with vm := u }.sem m) → Moves s (.mem f) v := by
    intro f u v hu hc hx hpg hv hp ht hm
    obtain ⟨h₁, h₂⟩ := (VM.step_view hu).sems hpg
    exact .ofVm hf hu hc hx hv hp ht fun m => .same ((hm m).trans (sem_vm h₁ h₂))
  have other : ∀ {i j : Pid} {g : GenPc}, some i ≠ some j → Function.update s.pc i g j = s.pc j :=
    fun hne => Function.update_of_ne (fun he => hne (congrArg some he.symm)) ..
  have withVm_test : ∀ {i : Pid} {u : VM n}, (s.withVm i u).testPc = s.testPc := by
    intro i u
    unfold withVm
    split <;> rfl
  have withVm_other : ∀ {i j : Pid} {u : VM n}, some i ≠ some j →
      (s.withVm i u).pc j = s.pc j := by
    intro i j u hne
    rcases withVm_pc (s := s) (q := i) (u := u) with hp | ⟨hp, -⟩
    · rw [hp]
    · rw [hp, other hne]
  cases h with
  | testInit hpc hi => exact test rfl rfl rfl (by simp [hpc]) (same fun m => sem_vm rfl rfl)
  | testInitDone hpc hi => exact test rfl rfl rfl (by simp [hpc]) (same fun m => sem_vm rfl rfl)
  | testCreate hpc =>
      refine .ofCreate hf (a := Asid.shell) rfl rfl (fun j hj _ => ?_) (by simp [hpc])
        (same fun m => ?_)
      · exact Function.update_of_ne hj.ne ..
      · rcases m with _ | _ | ⟨_ | _⟩ | _ | d <;> rfl
  | testWait hpc =>
      refine test rfl rfl rfl (fun _ => rfl) fun m => ?_
      rcases m with _ | _ | ⟨_ | _⟩ | _ | d
      · refine .acquire 0 (by rw [act, hpc]; rfl) (fun hq => ?_) rfl
        have := h0 hq
        rw [hpc] at this
        cases this
      all_goals exact .same rfl
  | testTerm hpc hb =>
      exact .terminates 0 (by rw [act, hpc]; rfl) ⟨_, rfl⟩ (.inr ⟨rfl, hpc, hb⟩)
  | load _ _ hu =>
      exact mem hu (by simp) (by simp) (by simp) rfl (fun _ _ => rfl) rfl fun _ => rfl
  | store _ _ hu =>
      exact mem hu (by simp) (by simp) (by simp) rfl (fun _ _ => rfl) rfl fun _ => rfl
  | refill _ hu =>
      exact mem hu (by simp) (by simp) (by simp) rfl (fun _ _ => rfl) rfl fun _ => rfl
  | flashDone hu =>
      exact mem hu (by simp) (by simp) (by simp) rfl (fun _ _ => rfl) rfl fun _ => rfl
  | sys4Load _ _ hu =>
      exact mem hu (by simp) (by simp) (by simp) rfl (fun _ => other) rfl fun _ => setPc_sem
  | sys5Store _ _ hu =>
      exact mem hu (by simp) (by simp) (by simp) rfl (fun _ => other) rfl fun _ => setPc_sem
  | fault _ _ hu =>
      exact mem hu (by simp) (by simp) (by simp) withVm_vm (fun _ => withVm_other) withVm_test
        fun _ => withVm_sem
  | pager hb hu =>
      cases VM.step_view hu with
      | pager hi _ hst =>
          exact .ofVm hf hu (by simp) (by simp) withVm_vm (fun _ => withVm_other) withVm_test
            fun m => semMove_pager hb hi hst
  | ecall hi => exact keep .handler hi rfl rfl rfl rfl (same fun m => setPc_sem)
  | trap hi => exact keep .handler hi rfl rfl rfl rfl (same fun m => setPc_sem)
  | @dispatch i b _ hi =>
      exact keep (supportGeneralExHandler b (s.saved b)).1 hi rfl rfl rfl rfl
        (same fun m => setPc_sem)
  | @doom i b _ hi =>
      exact .ofSetPc hf hi rfl rfl (fun j hj => Function.update_of_ne hj ..) rfl rfl
        (same fun m => setPc_sem.trans (sem_vm rfl rfl))
  | @sys4Acquire i b hb hi hpc =>
      refine keep (sys4Loop (s.saved b) 0) hi rfl rfl rfl rfl fun m => ?_
      rcases m with _ | _ | ⟨_ | _⟩ | _ | d
      · exact .same rfl
      · exact .same rfl
      · exact .acquire i (by rw [act_handler hi hpc]; rfl) (free hb _) rfl
      all_goals exact .same rfl
  | sys4Command _ hi => exact keep _ hi rfl rfl rfl rfl (same fun m => setPc_sem)
  | @sys4Release i b a0 hb hi hpc =>
      refine keep .ldst hi rfl rfl rfl rfl fun m => ?_
      rcases m with _ | _ | ⟨_ | _⟩ | _ | d
      · exact .same rfl
      · exact .same rfl
      · exact .release i (by rw [act_handler hi hpc]; rfl) rfl
      all_goals exact .same rfl
  | @sys5Acquire i b hb hi hpc =>
      refine keep (sys5Loop 0 none) hi rfl rfl rfl rfl fun m => ?_
      rcases m with _ | _ | ⟨_ | _⟩ | _ | d
      · exact .same rfl
      · exact .same rfl
      · exact .same rfl
      · exact .acquire i (by rw [act_handler hi hpc]; rfl) (free hb _) rfl
      all_goals exact .same rfl
  | sys5Command _ hi => exact keep _ hi rfl rfl rfl rfl (same fun m => setPc_sem)
  | @sys5Release i b a0 hb hi hpc =>
      refine keep .ldst hi rfl rfl rfl rfl fun m => ?_
      rcases m with _ | _ | ⟨_ | _⟩ | _ | d
      · exact .same rfl
      · exact .same rfl
      · exact .same rfl
      · exact .release i (by rw [act_handler hi hpc]; rfl) rfl
      all_goals exact .same rfl
  | @sys6Init i b asid k _ hi _ hk =>
      exact .ofSetPc hf hi rfl rfl (fun _ _ => rfl) rfl rfl
        (same fun m => setPc_sem.trans (sem_vm rfl rfl))
  | sys6InitDone _ hi => exact keep _ hi rfl rfl rfl rfl (same fun m => setPc_sem)
  | @sys6Create i b asid _ hi =>
      refine .ofCreate hf (a := asid) rfl rfl (fun j hj he => ?_) id
        (same fun m => setPc_sem.trans ?_)
      · have hji : j ≠ i := fun h => he (congrArg some h.symm)
        exact (Function.update_of_ne hji ..).trans (Function.update_of_ne hj.ne ..)
      · rcases m with _ | _ | ⟨_ | _⟩ | _ | d <;> rfl
  | @sys6Wait i b hb hi hpc =>
      refine keep .ldst hi rfl rfl rfl rfl fun m => ?_
      rcases m with _ | _ | ⟨_ | _⟩ | _ | d
      · exact .same rfl
      · exact .acquire i (by rw [act_handler hi hpc]; rfl) (free hb _) rfl
      all_goals exact .same rfl
  | ldst _ hi => exact keep .user hi rfl rfl rfl rfl (same fun m => setPc_sem)
  | @signal i b hb hi hpc =>
      obtain ⟨hv, hp⟩ := signal_setPc (s := s) (a := b) (q := i) (g := .term)
      have ht : (s.signal b).testPc = s.testPc := by
        unfold Support.signal
        split <;> rfl
      refine keep .term hi rfl hv hp ht fun m => ?_
      have ha : s.act (.handler i) = some (i, .verhogen b.signals) := by
        rw [act_handler hi hpc]
        rfl
      unfold Asid.signals at ha
      unfold Support.signal
      by_cases hb : b = .shell
      · rw [if_pos hb] at ha ⊢
        rcases m with _ | _ | ⟨_ | _⟩ | _ | d
        · exact .release i ha rfl
        all_goals exact .same rfl
      · rw [if_neg hb] at ha ⊢
        rcases m with _ | _ | ⟨_ | _⟩ | _ | d
        · exact .same rfl
        · exact .release i ha rfl
        all_goals exact .same rfl
  | @term i pr hb hi hpc =>
      refine .terminates i (by rw [act_handler hi hpc]; rfl) ⟨s.testPc, ?_⟩
        (.inl ⟨hpc, hb, by simp [hi], ?_⟩)
      · rw [← (foldl_remove (s.progeny i) s).2.2.1]
        rfl
      · exact (foldl_remove (s.progeny i) s).2.2.1
  | noPcb _ hi => exact keep (.sys6 .wait) hi rfl rfl rfl rfl (same fun m => setPc_sem)
  | sys4Done hi => exact keep _ hi rfl rfl rfl rfl (same fun m => setPc_sem)
  | sys5Done hi => exact keep _ hi rfl rfl rfl rfl (same fun m => setPc_sem)

/-! ### Who waits stands where its `P` left it -/

theorem withVm_awaited {p : PageNo} {u : VM n} (pc : PagerPc)
    (hu : u.proc q = some ⟨a, .pager p pc⟩) : (s.withVm q u).awaited q = pc.awaited a := by
  refine awaited_pager (p := p) ?_
  rw [withVm_vm]
  exact hu

/-- After `q` moves to the statement `g` of the handler. -/
theorem awaited_moved {g : GenPc} (hq : s.vm.proc q = some ⟨a, .run⟩)
    (hv : t.vm.proc = s.vm.proc) (hp : t.pc = Function.update s.pc q g) :
    t.awaited q = g.awaited := by
  rw [awaited_run (a := a) (by rw [hv, hq]), hp, Function.update_self]

theorem sys4Loop_awaited {sv : Saved} : (sys4Loop sv 0).awaited = some (.term .tx) := by
  unfold sys4Loop
  split <;> rfl

theorem not_gone {pr : Proc} (hq : s.vm.proc q = some pr) (hc : pr.ctl ≠ .dying) : ¬ s.Gone q :=
  fun hg => hc (hg pr hq)

/-- A process does a `P` outside, and stands then where it waits. -/
theorem Step.acquired (h : Step s e t) (ha : s.act e = some (q, .passeren m)) :
    (t.awaited q = some m ∧ ¬ s.Between m q ∧ ¬ s.Gone q) ∨
      m = .master ∧ q = 0 ∧ t.testPc = .term := by
  -- the statement `x` of the handler does nothing but what `x.act` says
  have handler : ∀ {i : Pid} {pr : Proc} {x : GenPc}, e = .handler i → s.vm.proc i = some pr →
      s.pc i = x → x.act pr.asid = some (.passeren m) ∧ i = q := by
    intro i pr x he hi hpc
    subst he
    rw [act_handler hi hpc] at ha
    obtain ⟨y, hy, he⟩ := Option.map_eq_some_iff.mp ha
    cases he
    exact ⟨hy, rfl⟩
  cases h with
  | testInit hpc | testInitDone hpc | testCreate hpc | testTerm hpc =>
      rw [act, hpc] at ha
      cases ha
  | testWait hpc =>
      rw [act, hpc] at ha
      cases ha
      exact .inr ⟨rfl, rfl, rfl⟩
  | load | store | sys4Load | sys5Store | refill | fault | flashDone | ecall | trap | sys4Done
  | sys5Done | noPcb => cases ha
  | @pager i u hb hu =>
      cases VM.step_view hu with
      | @pager _ a p pc _ hi _ hst =>
          have hself : ∀ {c : Ctl} {v : VM n},
              v.proc = Function.update s.vm.proc i (some ⟨a, c⟩) → v.proc i = some ⟨a, c⟩ :=
            fun hp => by rw [hp, Function.update_self]
          rw [act_pager hi] at ha
          obtain ⟨y, hy, he⟩ := Option.map_eq_some_iff.mp ha
          cases he
          cases hst with
          | enter =>
              cases hy
              refine .inl ⟨withVm_awaited .select (hself rfl), ?_, not_gone hi (by simp)⟩
              rintro ⟨pr, hpr, hin⟩
              rw [hi] at hpr
              cases hpr
              cases hin
          | @acquire d b k rw here next c =>
              rw [c.act] at hy
              cases hy
              refine .inl ⟨?_, ?_, not_gone hi (by simp)⟩
              · rw [withVm_awaited (here .data0) (hself rfl), c.awaited, if_pos rfl]
              · rintro ⟨a', p', pc', hpr, hd⟩
                rw [hi] at hpr
                cases hpr
                rw [c.device.1] at hd
                cases hd
          | data0 c => rw [c.act] at hy; cases hy
          | command c => rw [c.act] at hy; cases hy
          | release c => rw [c.act] at hy; cases hy
          | _ => cases hy
  | dispatch _ hi hpc | doom _ hi hpc | sys4Command _ hi hpc | sys4Release _ hi hpc
  | sys5Command _ hi hpc | sys5Release _ hi hpc | sys6Init _ hi hpc | sys6InitDone _ hi hpc
  | sys6Create _ hi hpc | ldst _ hi hpc | signal _ hi hpc | term _ hi hpc =>
      cases (handler rfl hi hpc).1
  | @sys4Acquire i b _ hi hpc =>
      obtain ⟨hx, rfl⟩ := handler rfl hi hpc
      cases hx
      refine .inl ⟨?_, fun hb => ?_, not_gone hi (by simp)⟩
      · exact Eq.trans (awaited_moved (g := sys4Loop (s.saved b) 0) hi rfl rfl) sys4Loop_awaited
      · have := hb.2
        rw [hpc] at this
        cases this
  | @sys5Acquire i b _ hi hpc =>
      obtain ⟨hx, rfl⟩ := handler rfl hi hpc
      cases hx
      refine .inl ⟨?_, fun hb => ?_, not_gone hi (by simp)⟩
      · exact awaited_moved (g := sys5Loop 0 none) hi rfl rfl
      · have := hb.2
        rw [hpc] at this
        cases this
  | @sys6Wait i b _ hi hpc =>
      obtain ⟨hx, rfl⟩ := handler rfl hi hpc
      cases hx
      exact .inl ⟨awaited_moved (g := .ldst) hi rfl rfl, id, not_gone hi (by simp)⟩

/-- A process that would be waiting if it were blocked moves only if it is not. -/
theorem Step.subject_free (h : Step s e t) (hq : e.subject = some q) (hw : s.awaited q ≠ none) :
    ¬ s.blocked q := by
  cases h with
  | testInit | testInitDone | testCreate | testWait | testTerm => cases hq
  | flashDone hu =>
      cases hq
      cases VM.step_view hu with
      | flashDone c hi => exact absurd ((awaited_pager hi).trans (c.awaited _)) hw
  | ecall hi hpc => cases hq; exact absurd (by rw [awaited_run hi, hpc]; rfl) hw
  | trap hi hpc => cases hq; exact absurd (by rw [awaited_run hi, hpc]; rfl) hw
  | sys4Done hi hpc => cases hq; exact absurd (by rw [awaited_run hi, hpc]; rfl) hw
  | sys5Done hi hpc => cases hq; exact absurd (by rw [awaited_run hi, hpc]; rfl) hw
  | load hb | store hb | sys4Load hb | sys5Store hb | refill hb | fault hb | pager hb
  | dispatch hb | doom hb | sys4Acquire hb | sys4Command hb | sys4Release hb | sys5Acquire hb
  | sys5Command hb | sys5Release hb | sys6Init hb | sys6InitDone hb | sys6Create hb
  | sys6Wait hb | ldst hb | signal hb | term hb | noPcb hb => cases hq; exact hb

theorem awaited_congr (hv : t.vm.proc q = s.vm.proc q) (hp : t.pc q = s.pc q) :
    t.awaited q = s.awaited q := by
  rw [awaited, awaited, hv, hp]

theorem awaited_live (h : s.awaited q = some m) : s.vm.proc q ≠ none := by
  intro hq
  rw [awaited, hq] at h
  cases h

/-- The processes of a queue are alive and stand where their `P` left them; in the queue of
`masterSemaphore` there is only `test`. -/
structure Parked (s : Support n) : Prop where
  pos : 0 < s.vm.nextPid
  test : s.vm.proc 0 = none
  fresh : ∀ q, s.vm.nextPid ≤ q → s.vm.proc q = none
  nodup : ∀ m, (s.sem m).queue.Nodup
  place : ∀ m, ∀ q ∈ (s.sem m).queue,
    s.awaited q = some m ∨ m = .master ∧ q = 0 ∧ s.testPc = .term

theorem Parked.lt (h : s.Parked) (hq : s.vm.proc q ≠ none) : q < s.vm.nextPid := by
  by_contra hlt
  exact hq (h.fresh q (not_lt.mp hlt))

theorem Parked.waits (h : s.Parked) (hs : s.testPc ≠ .term) (hm : 0 ∈ s.masterSemaphore.queue) :
    False := by
  rcases h.place .master 0 hm with hw | ⟨-, -, ht⟩
  · exact awaited_live hw h.test
  · exact hs ht

theorem foldl_remove_sem (l : List Pid) (s : Support n) :
    (l.foldl remove s).sem m = l.foldl Sem.drop (s.sem m) := by
  induction l generalizing s with
  | nil => rfl
  | cons i l ih =>
      rw [List.foldl_cons, ih]
      rcases m with _ | _ | ⟨_ | _⟩ | _ | d <;> rfl

theorem Parked.moves (h : s.Parked) (hs : Step s e t) : Moves s e t :=
  hs.moves h.fresh fun hm => by_contra fun ht => h.waits ht hm

/-- A step leaves who is queued where its `P` left it. -/
theorem Parked.step (h : s.Parked) (hs : Step s e t) : t.Parked := by
  cases h.moves hs with
  | terminates i ha ht hi =>
      obtain ⟨tp, rfl⟩ := ht
      obtain ⟨hpc, -, -, hn, -, -, hv⟩ := foldl_remove (s.progeny i) s
      have hsem : ∀ m, ({ s.terminate i with testPc := tp } : Support n).sem m =
          (s.progeny i).foldl Sem.drop (s.sem m) := by
        intro m
        rw [← foldl_remove_sem]
        rcases m with _ | _ | ⟨_ | _⟩ | _ | d <;> rfl
      have dead : ∀ q, s.vm.proc q = none → (s.terminate i).vm.proc q = none := by
        intro q hq
        rw [terminate, hv, hq, ite_self]
      refine ⟨hn.symm ▸ h.pos, dead 0 h.test, fun q hq => dead q (h.fresh q ?_), fun m => ?_,
        fun m q hq => ?_⟩
      · exact hn ▸ hq
      · rw [hsem]
        exact (Sem.foldl_drop (h.nodup m) _).1
      · rw [hsem] at hq
        obtain ⟨hl, hq⟩ := ((Sem.foldl_drop (h.nodup m) _).2 q).mp hq
        rcases h.place m q hq with hw | ⟨rfl, rfl, htp⟩
        · refine .inl (Eq.trans (awaited_congr ?_ ?_) hw)
          · show (s.terminate i).vm.proc q = _
            rw [terminate, hv, if_neg hl]
          · exact congrFun hpc q
        · rcases hi with ⟨-, -, -, he⟩ | ⟨-, -, hb⟩
          · exact .inr ⟨rfl, rfl, he.trans htp⟩
          · exact absurd hq hb
  | plain frame dead next fresh test sems =>
      -- nobody in a queue is the subject of a step
      have stay : ∀ m, ∀ q ∈ (s.sem m).queue,
          t.awaited q = some m ∨ m = .master ∧ q = 0 ∧ t.testPc = .term := by
        intro m q hq
        rcases h.place m q hq with hw | ⟨rfl, rfl, htp⟩
        · have hsub : e.subject ≠ some q := by
            intro he
            exact hs.subject_free he (by rw [hw]; simp) (blocked_iff.mpr ⟨m, hq⟩)
          obtain ⟨hv, hp⟩ := frame q (h.lt (awaited_live hw)) hsub
          exact .inl ((awaited_congr hv hp).trans hw)
        · exact .inr ⟨rfl, rfl, test htp⟩
      refine ⟨h.pos.trans_le next, dead 0 h.pos h.test, fresh, fun m => ?_, fun m q hq => ?_⟩
      · cases sems m with
        | same hm => rw [hm]; exact h.nodup m
        | acquire i ha hb hm => rw [hm]; exact Sem.nodup_P (h.nodup m) hb
        | release i ha hm => rw [hm]; exact Sem.nodup_V (h.nodup m)
      · cases sems m with
        | same hm => exact stay m q (hm ▸ hq)
        | acquire i ha hb hm =>
            rw [hm] at hq
            rcases VM.P_mem hq with hq | rfl
            · exact stay m q hq
            · exact (hs.acquired ha).imp_left And.left
        | release i ha hm =>
            rw [hm] at hq
            exact stay m q (VM.V_mem hq)

/-- Any number of U-procs in user mode; nobody waits, and the mutexes are free. -/
structure Calm (s : Support n) : Prop where
  pos : 0 < s.vm.nextPid
  test : s.vm.proc 0 = none
  fresh : ∀ q, s.vm.nextPid ≤ q → s.vm.proc q = none
  user : ∀ q pr, s.vm.proc q = some pr → pr.ctl = .run ∧ s.pc q = .user
  master : s.masterSemaphore.queue = []
  shell : s.shellSemaphore.queue = []
  term : ∀ d, s.termMutex d = ⟨1, []⟩
  swapPool : s.vm.swapPoolSem = ⟨1, []⟩
  flash : ∀ d, s.vm.flashMutex d = ⟨1, []⟩

theorem Calm.queue (h : s.Calm) (m : SemName) : (s.sem m).queue = [] := by
  cases m with
  | master => exact h.master
  | shell => exact h.shell
  | term d => exact congrArg Sem.queue (h.term d)
  | swapPool => exact congrArg Sem.queue h.swapPool
  | flash d => exact congrArg Sem.queue (h.flash d)

theorem Calm.parked (h : s.Calm) : s.Parked where
  pos := h.pos
  test := h.test
  fresh := h.fresh
  nodup m := by rw [h.queue]; exact .nil
  place m q hq := by rw [h.queue] at hq; cases hq

theorem Calm.boot (flash : PageId → Page) (frame : FrameNo → Page) (reg : Asid → FlashReg) :
    (Support.boot flash frame reg : Support n).Calm where
  pos := Nat.one_pos
  test := rfl
  fresh _ _ := rfl
  user := by rintro _ _ ⟨⟩
  master := rfl
  shell := rfl
  term d := by cases d <;> rfl
  swapPool := rfl
  flash _ := rfl

end Support

end PandOS
