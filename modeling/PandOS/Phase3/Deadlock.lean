import PandOS.Lib.LockOrder
import PandOS.Phase3.Waiting

/-!
# Phase 3 — the mutexes cannot deadlock

The source orders its mutexes only by nesting: a service of the terminal takes the mutex of its
channel, a page fault inside it takes `swapPoolSem`, and `flashIO` inside the pager the mutex of a
flash device (`SemName.rank`).  `holders` keeps, beside a run, who has done a `P` and not yet the
`V`.

* `Support.lock_order_of_run`: on every run of any number of U-procs, whatever the devices answer,
  no process waits for itself along a path of waiting processes, and no process does a `P` on a
  mutex it holds.
-/

namespace PandOS

variable {n : ℕ}

/-- Started at 1; the other two count signals. -/
def SemName.mutex : SemName → Bool
  | .term _ | .swapPool | .flash _ => true
  | .master | .shell => false

/-- The order in which mutexes are taken. -/
def SemName.rank : SemName → ℕ
  | .flash _ => 2
  | .swapPool => 1
  | _ => 0

/-! ### The pager -/

namespace VM

variable {s t : VM n} {q : Pid} {a d : Asid} {p : PageNo} {pc : PagerPc}

/-- A statement of the pager leaves the critical section by its `V`, or to die. -/
theorem Stmt.inside (h : Stmt s q a p pc t) (hin : pc.inside = true) :
    t.Inside q ∨ pc.act a p = some (.verhogen .swapPool) := by
  have self : ∀ {g : PagerPc} {u : VM n},
      u.proc = Function.update s.proc q (some ⟨a, .pager p g⟩) → g.inside = true → u.Inside q :=
    fun {g} _ hp hin => ⟨⟨a, .pager p g⟩, by rw [hp, Function.update_self], hin⟩
  cases h with
  | enter | ret => cases hin
  | acquire c => exact .inl (self rfl (c.inside _).1)
  | data0 c => exact .inl (self rfl (c.inside _).1)
  | command c => exact .inl (self rfl (c.inside _).1)
  | @release _ _ _ _ _ next status c =>
      refine .inl (self (g := if status = flashReady then next else .abort) rfl ?_)
      split
      · exact (c.inside .acquire).2.1
      · rfl
  | leave => exact .inr rfl
  | abort => exact .inr rfl
  | _ => exact .inl (self rfl rfl)

/-- It leaves the critical section of a flash device by its `V`. -/
theorem Stmt.inFlash (h : Stmt s q a p pc t) (hd : PagerPc.device a pc = some d) :
    t.InFlash d q ∨ pc.act a p = some (.verhogen (.flash d)) := by
  have self : ∀ {d' : Asid} {b k rw} {here : FlashPc → PagerPc} {next : PagerPc} {f g : FlashPc}
      {u : VM n}, Call a p d' b k rw here next → PagerPc.device a (here f) = some d →
      f ≠ .acquire → g ≠ .acquire →
      u.proc = Function.update s.proc q (some ⟨a, .pager p (here g)⟩) → u.InFlash d q := by
    intro d' b k rw here next f g u c hd hf hg hp
    refine ⟨a, p, here g, by rw [hp, Function.update_self], ?_⟩
    rw [← hd, c.device.2.2 g hg, c.device.2.2 f hf]
  cases h with
  | acquire c => rw [c.device.1] at hd; cases hd
  | data0 c => exact .inl (self c hd (by simp) (g := .command) (by simp) rfl)
  | command c => exact .inl (self c hd (by simp) (g := .busy) (by simp) rfl)
  | @release d' b k rw here next status c =>
      rw [c.device.2.2 _ (by simp)] at hd
      cases hd
      exact .inr (c.act _)
  | _ => cases hd

end VM

namespace Support

variable {s t s₀ : Support n} {e : SupportEvent n} {es : List (SupportEvent n)} {q : Pid}
  {m m' : SemName} {h : List (SemName × Pid)}

/-- Who has done a `P` and not yet the `V`, after a step. -/
def holders (s : Support n) (e : SupportEvent n) (_ : Support n) (h : List (SemName × Pid)) :
    List (SemName × Pid) :=
  match s.act e with
  | some (q, .passeren m) => (m, q) :: h
  | some (q, .verhogen m) => h.filter (· ≠ (m, q))
  | _ => h

/-- `q` is blocked on the mutex `m`. -/
def BlockedOn (s : Support n) (m : SemName) (q : Pid) : Prop :=
  m.mutex = true ∧ q ∈ (s.sem m).queue

/-- `q` holds the mutex `m`: it has done its `P`, is not blocked in it, and has not done the `V`.
One that was killed while it waited is counted too. -/
def HeldBy (s : Support n) (h : List (SemName × Pid)) (m : SemName) (q : Pid) : Prop :=
  m.mutex = true ∧ (m, q) ∈ h ∧ q ∉ (s.sem m).queue

/-- A process that has done a `P` and not the `V` stands between the two, or terminates. -/
structure Owned (s : Support n) (h : List (SemName × Pid)) : Prop where
  lt : ∀ m q, (m, q) ∈ h → q < s.vm.nextPid
  place : ∀ m q, (m, q) ∈ h → m.mutex = true → s.Between m q ∨ s.Gone q

/-! ### Where a process stands -/

theorem Between.congr (hb : s.Between m q) (hv : t.vm.proc q = s.vm.proc q)
    (hp : t.pc q = s.pc q) : t.Between m q := by
  cases m with
  | master | shell => exact hb
  | term d => exact ⟨by rw [hv]; exact hb.1, by rw [hp]; exact hb.2⟩
  | swapPool =>
      obtain ⟨pr, hq, hin⟩ := hb
      exact ⟨pr, hv.trans hq, hin⟩
  | flash d =>
      obtain ⟨a, p, pc, hq, hd⟩ := hb
      exact ⟨a, p, pc, hv.trans hq, hd⟩

theorem self_progeny {pr : Proc} (hq : s.vm.proc q = some pr) (hlt : q < s.vm.nextPid) :
    q ∈ s.progeny q :=
  mem_progeny.mpr ⟨hlt, by rw [hq]; rfl, 0, Nat.succ_pos _, rfl⟩

/-- Where the process of a step stands. -/
inductive Mover (s : Support n) (q : Pid) (e : SupportEvent n) (t : Support n) : Prop where
  | run {a : Asid} (hq : s.vm.proc q = some ⟨a, .run⟩)
  | pager {a : Asid} {p : PageNo} {pc : PagerPc} (hq : s.vm.proc q = some ⟨a, .pager p pc⟩)
      (he : e = .mem (.pager q)) (ht : VM.Stmt s.vm q a p pc t.vm)
  | device {a : Asid} {p : PageNo} {d b k rw} {here : FlashPc → PagerPc} {next : PagerPc}
      {status : Word} (c : VM.Call a p d b k rw here next)
      (hq : s.vm.proc q = some ⟨a, .pager p (here .busy)⟩)
      (he : ∃ junk, e = .mem (.flashDone q status junk))
      (ht : t.vm.proc q = some ⟨a, .pager p (here (.release status))⟩)
  | signal {a : Asid} (hq : s.vm.proc q = some ⟨a, .dying⟩) (he : e = .handler q)
      (hpc : s.pc q = .signal) (ht : t = (s.signal a).setPc q .term)
  | term {pr : Proc} (hq : s.vm.proc q = some pr) (he : e = .handler q) (hpc : s.pc q = .term)
      (ht : t = s.terminate q)

/-- What a step of `q` does to `q`. -/
theorem Step.mover (h : Step s e t) (he : e.subject = some q) : Mover s q e t := by
  cases h with
  | testInit | testInitDone | testCreate | testWait | testTerm => cases he
  | load _ _ hu => cases he; cases VM.step_view hu with | load hi => exact .run hi
  | store _ _ hu => cases he; cases VM.step_view hu with | store hi => exact .run hi
  | sys4Load _ _ hu => cases he; cases VM.step_view hu with | load hi => exact .run hi
  | sys5Store _ _ hu => cases he; cases VM.step_view hu with | store hi => exact .run hi
  | refill _ hu => cases he; cases VM.step_view hu with | refill hi => exact .run hi
  | fault _ _ hu =>
      cases he
      cases VM.step_view hu with
      | faultMod hi => exact .run hi
      | fault hi => exact .run hi
  | pager _ hu =>
      cases he
      cases VM.step_view hu with
      | pager hi _ hst => exact .pager hi rfl (withVm_vm ▸ hst)
  | flashDone hu =>
      cases he
      cases VM.step_view hu with
      | flashDone c hi => exact .device c hi ⟨_, rfl⟩ (Function.update_self ..)
  | signal _ hi hpc => cases he; exact .signal hi rfl hpc rfl
  | term _ hi hpc => cases he; exact .term hi rfl hpc rfl
  | ecall hi | trap hi | sys4Done hi | sys5Done hi => cases he; exact .run hi
  | dispatch _ hi | doom _ hi | sys4Acquire _ hi | sys4Command _ hi | sys4Release _ hi
  | sys5Acquire _ hi | sys5Command _ hi | sys5Release _ hi | sys6Init _ hi | sys6InitDone _ hi
  | sys6Create _ hi | sys6Wait _ hi | ldst _ hi | noPcb _ hi => cases he; exact .run hi

theorem Mover.live (h : Mover s q e t) : s.vm.proc q ≠ none := by
  cases h with
  | run hq | pager hq | device _ hq | signal hq | term hq => rw [hq]; simp

theorem terminate_self {pr : Proc} (hq : s.vm.proc q = some pr) (hlt : q < s.vm.nextPid) :
    (s.terminate q).vm.proc q = none := by
  rw [terminate, (foldl_remove _ s).2.2.2.2.2.2, if_pos (self_progeny hq hlt)]

/-- A step of a process in a service of the terminal leaves the critical section of its channel by
the `V`, or to die. -/
theorem Step.inTerm {d : Channel} (h : Step s e t) (he : e.subject = some q)
    (hi : s.InTerm d q) :
    t.InTerm d q ∨ t.Gone q ∨ s.act e = some (q, .verhogen (.term d)) := by
  obtain ⟨hlive, hin⟩ := hi
  -- `q` moves from `x` to `g`, on the same side
  have keep : ∀ {x g : GenPc} {u : Support n}, s.pc q = x → GenPc.holds d g = GenPc.holds d x →
      u.pc q = g → (u.vm.proc q).isSome = true → u.InTerm d q := by
    intro x g u hx hg hp hv
    exact ⟨hv, by rw [hp, hg, ← hx]; exact hin⟩
  have out : ∀ {x : GenPc}, s.pc q = x → GenPc.holds d x = false → False := by
    intro x hx hh
    rw [hx, hh] at hin
    cases hin
  have mem : ∀ {f : VmEvent n} {u : VM n}, s.vm.step f = some u → (∀ a, f ≠ .create a) →
      (∀ q, f ≠ .exit q) → (u.proc q).isSome = true := by
    intro f u hu hc hx
    have := congrArg Option.isSome (((VM.step_view hu).asids hc hx).1 q)
    rw [Option.isSome_map, Option.isSome_map] at this
    exact this.trans hlive
  have vm : ∀ {f : VmEvent n} {u : VM n}, s.vm.step f = some u → (∀ a, f ≠ .create a) →
      (∀ q, f ≠ .exit q) → (s.withVm q u).InTerm d q ∨ (s.withVm q u).Gone q := by
    intro f u hu hc hx
    rcases withVm_pc (s := s) (q := q) (u := u) with hp | ⟨-, b, hb⟩
    · exact .inl ⟨withVm_vm (s := s) ▸ mem hu hc hx, by rw [hp]; exact hin⟩
    · refine .inr fun pr hpr => ?_
      rw [withVm_vm, hb] at hpr
      cases hpr
      rfl
  cases h with
  | testInit | testInitDone | testCreate | testWait | testTerm => cases he
  | load _ _ hu => cases he; exact .inl ⟨mem hu (by simp) (by simp), hin⟩
  | store _ _ hu => cases he; exact .inl ⟨mem hu (by simp) (by simp), hin⟩
  | refill _ hu => cases he; exact .inl ⟨mem hu (by simp) (by simp), hin⟩
  | flashDone hu => cases he; exact .inl ⟨mem hu (by simp) (by simp), hin⟩
  | sys4Load _ hpc hu =>
      cases he
      exact .inl (keep hpc (by cases d <;> rfl) (Function.update_self ..)
        (mem hu (by simp) (by simp)))
  | @sys5Store _ _ _ _ _ _ i c _ hpc hu =>
      cases he
      refine .inl (keep hpc ?_ (Function.update_self ..) (mem hu (by simp) (by simp)))
      cases d
      · exact holds_sys5Loop.1
      · exact holds_sys5Loop.2
  | fault _ _ hu =>
      cases he
      exact (vm hu (by simp) (by simp)).imp_right .inl
  | pager _ hu =>
      cases he
      exact (vm hu (by simp) (by simp)).imp_right .inl
  | ecall _ hpc => cases he; exact (out hpc (by cases d <;> rfl)).elim
  | trap _ hpc => cases he; exact (out hpc (by cases d <;> rfl)).elim
  | dispatch _ _ hpc => cases he; exact (out hpc (by cases d <;> rfl)).elim
  | doom _ _ hpc => cases he; exact (out hpc (by cases d <;> rfl)).elim
  | sys4Acquire _ _ hpc => cases he; exact (out hpc (by cases d <;> rfl)).elim
  | sys5Acquire _ _ hpc => cases he; exact (out hpc (by cases d <;> rfl)).elim
  | sys6Init _ _ hpc => cases he; exact (out hpc (by cases d <;> rfl)).elim
  | sys6InitDone _ _ hpc => cases he; exact (out hpc (by cases d <;> rfl)).elim
  | sys6Create _ _ hpc => cases he; exact (out hpc (by cases d <;> rfl)).elim
  | sys6Wait _ _ hpc => cases he; exact (out hpc (by cases d <;> rfl)).elim
  | ldst _ _ hpc => cases he; exact (out hpc (by cases d <;> rfl)).elim
  | signal _ _ hpc => cases he; exact (out hpc (by cases d <;> rfl)).elim
  | term _ _ hpc => cases he; exact (out hpc (by cases d <;> rfl)).elim
  | noPcb _ _ hpc => cases he; exact (out hpc (by cases d <;> rfl)).elim
  | sys4Command _ _ hpc =>
      cases he
      exact .inl (keep hpc (by cases d <;> rfl) (Function.update_self ..) hlive)
  | sys5Command _ _ hpc =>
      cases he
      exact .inl (keep hpc (by cases d <;> rfl) (Function.update_self ..) hlive)
  | sys4Release _ hi hpc =>
      cases he
      cases d
      · exact .inr (.inr (by rw [act_handler hi hpc]; rfl))
      · exact (out hpc rfl).elim
  | sys5Release _ hi hpc =>
      cases he
      cases d
      · exact (out hpc rfl).elim
      · exact .inr (.inr (by rw [act_handler hi hpc]; rfl))
  | sys4Done _ hpc =>
      cases he
      refine .inl (keep hpc ?_ (Function.update_self ..) hlive)
      split
      · cases d <;> rfl
      · cases d
        · exact holds_sys4Loop.1
        · exact holds_sys4Loop.2
  | sys5Done _ hpc =>
      cases he
      refine .inl (keep hpc ?_ (Function.update_self ..) hlive)
      split <;> cases d <;> rfl

/-- A process between the `P` and the `V` of a mutex goes on there, does the `V`, or
terminates. -/
theorem Step.between (h : Step s e t) (hlt : q < s.vm.nextPid) (he : e.subject = some q)
    (hb : s.Between m q) : t.Between m q ∨ t.Gone q ∨ s.act e = some (q, .verhogen m) := by
  -- a step of a process in the pager
  have pager : ∀ {a p pc}, s.vm.proc q = some ⟨a, .pager p pc⟩ →
      (VM.Stmt s.vm q a p pc t.vm → t.Between m q ∨ pc.act a p = some (.verhogen m)) →
      (∀ {d b k rw} {here : FlashPc → PagerPc} {next : PagerPc} {status : Word},
        VM.Call a p d b k rw here next → pc = here .busy →
        t.vm.proc q = some ⟨a, .pager p (here (.release status))⟩ → t.Between m q) →
      t.Between m q ∨ t.Gone q ∨ s.act e = some (q, .verhogen m) := by
    intro a p pc hq hstmt hdev
    cases h.mover he with
    | run hi => rw [hq] at hi; cases hi
    | pager hi he hst =>
        rw [hq] at hi
        cases hi
        rcases hstmt hst with hb | ha
        · exact .inl hb
        · exact .inr (.inr (by rw [he, act_pager hq, ha]; rfl))
    | device c hi _ ht =>
        rw [hq] at hi
        cases hi
        exact .inl (hdev c rfl ht)
    | signal hi => rw [hq] at hi; cases hi
    | term hi _ _ ht =>
        subst ht
        refine .inr (.inl fun pr hpr => ?_)
        rw [terminate_self hi hlt] at hpr
        cases hpr
  cases m with
  | master | shell => exact hb.elim
  | term d => exact h.inTerm he hb
  | swapPool =>
      obtain ⟨⟨a, c⟩, hq, hin⟩ := hb
      cases c with
      | run | dying => cases hin
      | pager p pc =>
          refine pager hq (fun hst => hst.inside hin) fun c _ ht => ?_
          exact ⟨_, ht, (c.inside _).1⟩
  | flash d =>
      obtain ⟨a, p, pc, hq, hd⟩ := hb
      refine pager hq (fun hst => hst.inFlash hd) ?_
      rintro d' b k rw here next status c rfl ht
      refine ⟨a, p, _, ht, ?_⟩
      rw [← hd, c.device.2.2 _ (by simp), c.device.2.2 _ (by simp)]

/-- Who is gone stays so, as PIDs are not given again. -/
theorem Step.gone (h : Step s e t) (hlt : q < s.vm.nextPid) (he : e.subject = some q)
    (hg : s.Gone q) : t.Gone q := by
  intro pr hpr
  cases h.mover he with
  | run hi => cases hg _ hi
  | pager hi => cases hg _ hi
  | device c hi => cases hg _ hi
  | @signal a hi _ _ ht =>
      subst ht
      rw [signal_setPc.1] at hpr
      exact hg pr hpr
  | term hi _ _ ht =>
      subst ht
      rw [terminate_self hi hlt] at hpr
      cases hpr

/-! ### The order -/

/-- Where a service waits for a mutex, it is inside that channel of the terminal only. -/
theorem GenPc.awaited_term {g : GenPc} (hw : g.awaited = some m) (hm : m.mutex = true) :
    ∃ d, m = .term d ∧ GenPc.holds d g = true ∧ ∀ d', GenPc.holds d' g = true → d' = d := by
  have tx : ∀ {pc : Sys4Pc}, ∀ d', GenPc.holds d' (.sys4 pc) = true → d' = .tx := by
    intro pc d' hd'
    cases d' with
    | tx => rfl
    | rx => cases hd'
  have rx : ∀ {pc : Sys5Pc}, ∀ d', GenPc.holds d' (.sys5 pc) = true → d' = .rx := by
    intro pc d' hd'
    cases d' with
    | tx => cases hd'
    | rx => rfl
  cases g with
  | sys4 pc =>
      cases pc with
      | load i => cases hw; exact ⟨.tx, rfl, rfl, tx⟩
      | release a0 => cases hw; exact ⟨.tx, rfl, rfl, tx⟩
      | _ => cases hw
  | sys5 pc =>
      cases pc with
      | command i => cases hw; exact ⟨.rx, rfl, rfl, rx⟩
      | release a0 => cases hw; exact ⟨.rx, rfl, rfl, rx⟩
      | _ => cases hw
  | ldst => cases hw; cases hm
  | _ => cases hw

/-- A process in the pager waits for `swapPoolSem`, or for one device while it holds that. -/
theorem pager_between {a : Asid} {p : PageNo} {pc : PagerPc}
    (hq : s.vm.proc q = some ⟨a, .pager p pc⟩) (hw : pc.awaited a = some m) :
    s.Between m q ∧ ∀ m', s.Between m' q → m' = m ∨ m'.rank < m.rank := by
  -- between no flash operations, `swapPoolSem` is the last semaphore taken
  have swap : VM.PagerPc.device a pc = none →
      ∀ m', s.Between m' q → m' = .swapPool ∨ m'.rank < SemName.swapPool.rank := by
    intro hx m' hb
    cases m' with
    | master | shell => exact hb.elim
    | term d => exact .inr Nat.one_pos
    | swapPool => exact .inl rfl
    | flash d =>
        obtain ⟨_, _, _, hq', hd⟩ := hb
        rw [hq] at hq'
        cases hq'
        rw [hx] at hd
        cases hd
  -- in `flashIO` the mutex of the device is
  have flash : ∀ {d : Asid}, VM.PagerPc.device a pc = some d →
      s.Between (.flash d) q ∧
        ∀ m', s.Between m' q → m' = .flash d ∨ m'.rank < (SemName.flash d).rank := by
    intro d hx
    refine ⟨⟨a, p, pc, hq, hx⟩, fun m' hb => ?_⟩
    cases m' with
    | master | shell => exact hb.elim
    | term d => exact .inr Nat.two_pos
    | swapPool => exact .inr Nat.one_lt_two
    | flash d' =>
        obtain ⟨_, _, _, hq', hd⟩ := hb
        rw [hq] at hq'
        cases hq'
        rw [hx] at hd
        cases hd
        exact .inl rfl
  cases pc with
  | select =>
      cases hw
      exact ⟨⟨_, hq, rfl⟩, swap rfl⟩
  | write k old f =>
      cases f with
      | data0 => cases hw; exact flash rfl
      | _ => cases hw
  | read k f =>
      cases f with
      | data0 => cases hw; exact flash rfl
      | _ => cases hw
  | _ => cases hw

/-- A process in a service of the terminal waits for the mutex of its channel, and holds none. -/
theorem run_between {a : Asid} (hq : s.vm.proc q = some ⟨a, .run⟩)
    (hw : (s.pc q).awaited = some m) (hm : m.mutex = true) :
    s.Between m q ∧ ∀ m', s.Between m' q → m' = m ∨ m'.rank < m.rank := by
  obtain ⟨d, rfl, hin, hd⟩ := GenPc.awaited_term hw hm
  refine ⟨⟨by rw [hq]; rfl, hin⟩, fun m' hb => ?_⟩
  cases m' with
  | master | shell => exact hb.elim
  | term d' => exact .inl (congrArg _ (hd d' hb.2))
  | swapPool =>
      obtain ⟨pr, hpr, hin⟩ := hb
      rw [hq] at hpr
      cases hpr
      cases hin
  | flash d' =>
      obtain ⟨_, _, _, hpr, -⟩ := hb
      rw [hq] at hpr
      cases hpr

/-- Where a process waits for a mutex it is between the `P` and the `V` of that mutex, and of smaller
ones only. -/
theorem awaited_between (hw : s.awaited q = some m) (hm : m.mutex = true) :
    s.Between m q ∧ ¬ s.Gone q ∧ ∀ m', s.Between m' q → m' = m ∨ m'.rank < m.rank := by
  cases hq : s.vm.proc q with
  | none => exact absurd hq (awaited_live hw)
  | some pr =>
      obtain ⟨a, c⟩ := pr
      cases c with
      | run =>
          rw [awaited_run hq] at hw
          obtain ⟨h₁, h₂⟩ := run_between hq hw hm
          exact ⟨h₁, not_gone hq (by simp), h₂⟩
      | pager p pc =>
          rw [awaited_pager hq] at hw
          obtain ⟨h₁, h₂⟩ := pager_between hq hw
          exact ⟨h₁, not_gone hq (by simp), h₂⟩
      | dying =>
          rw [awaited, hq] at hw
          cases hw

/-! ### Runs -/

/-- A holder has just done its `P`, or was one and has not done its `V`. -/
theorem mem_holders (hx : (m, q) ∈ holders s e t h) :
    s.act e = some (q, .passeren m) ∨ (m, q) ∈ h ∧ s.act e ≠ some (q, .verhogen m) := by
  unfold holders at hx
  split at hx
  case h_1 i m' ha =>
    rcases List.mem_cons.mp hx with heq | hx
    · cases heq
      exact .inl ha
    · exact .inr ⟨hx, by rw [ha]; simp⟩
  case h_2 i m' ha =>
    obtain ⟨hx, hne⟩ := List.mem_filter.mp hx
    refine .inr ⟨hx, fun he => ?_⟩
    rw [ha] at he
    cases he
    simp at hne
  case h_3 _ hno => exact .inr ⟨hx, hno q m⟩

/-- What a step does, it does for its own process or for `test`. -/
theorem act_subject (hs : Step s e t) {x : SupportAct} (ha : s.act e = some (q, x)) :
    e.subject = some q ∨ q = 0 := by
  cases hs with
  | testInit | testInitDone | testCreate | testWait | testTerm =>
      obtain ⟨y, -, hy⟩ := Option.map_eq_some_iff.mp ha
      cases hy
      exact .inr rfl
  | load | store | sys4Load | sys5Store | refill | fault | flashDone | ecall | trap | sys4Done
  | sys5Done => cases ha
  | pager _ hu =>
      cases VM.step_view hu with
      | pager hi =>
          rw [act_pager hi] at ha
          obtain ⟨y, -, hy⟩ := Option.map_eq_some_iff.mp ha
          cases hy
          exact .inl rfl
  | noPcb => cases ha; exact .inl rfl
  | _ =>
      obtain ⟨pr, -, hpr⟩ := Option.bind_eq_some_iff.mp ha
      obtain ⟨y, -, hy⟩ := Option.map_eq_some_iff.mp hpr
      cases hy
      exact .inl rfl

/-- Who stands between the `P` and the `V` of a mutex, or terminates, does so after a step that is
not its `V`. -/
theorem Parked.between (hp : s.Parked) (hs : Step s e t) (hlt : q < s.vm.nextPid)
    (hb : s.Between m q ∨ s.Gone q) (hne : s.act e ≠ some (q, .verhogen m)) :
    t.Between m q ∨ t.Gone q := by
  have same : t.vm.proc q = s.vm.proc q → t.pc q = s.pc q → t.Between m q ∨ t.Gone q :=
    fun hv hpc => hb.imp (·.congr hv hpc) fun hg pr hpr => hg pr (hv ▸ hpr)
  cases hp.moves hs with
  | terminates i ha ht hi =>
      obtain ⟨tp, rfl⟩ := ht
      obtain ⟨hpc, -, -, -, -, -, hv⟩ := foldl_remove (s.progeny i) s
      by_cases hq : q ∈ s.progeny i
      · refine .inr fun pr hpr => ?_
        have hno : (s.terminate i).vm.proc q = none := by rw [terminate, hv, if_pos hq]
        rw [show _ = none from hno] at hpr
        cases hpr
      · exact same (by rw [show _ = (s.terminate i).vm.proc q from rfl, terminate, hv, if_neg hq])
          (congrFun hpc q)
  | plain frame =>
      by_cases he : e.subject = some q
      · rcases hb with hb | hg
        · exact (hs.between hlt he hb).imp_right fun h => h.resolve_right hne
        · exact .inr (hs.gone hlt he hg)
      · obtain ⟨hv, hpc⟩ := frame q hlt he
        exact same hv hpc

/-- A step keeps who holds a semaphore where it is held. -/
theorem Owned.step (ho : s.Owned h) (hp : s.Parked) (hs : Step s e t) :
    t.Owned (holders s e t h) := by
  have hlt : ∀ {m q}, (m, q) ∈ holders s e t h → q < s.vm.nextPid := by
    intro m q hx
    rcases mem_holders hx with ha | ⟨hx, -⟩
    · rcases act_subject hs ha with he | rfl
      · exact hp.lt (hs.mover he).live
      · exact hp.pos
    · exact ho.lt m q hx
  refine ⟨fun m q hx => (hlt hx).trans_le ?_, fun m q hx hm => ?_⟩
  · cases hp.moves hs with
    | terminates i ha ht hi =>
        obtain ⟨tp, rfl⟩ := ht
        exact (foldl_remove (s.progeny i) s).2.2.2.1.ge
    | plain frame dead next => exact next
  · rcases mem_holders hx with ha | ⟨hx', hne⟩
    · rcases hs.acquired ha with ⟨hw, -⟩ | ⟨rfl, -, -⟩
      · exact .inl (awaited_between hw hm).1
      · cases hm
    · exact hp.between hs (hlt hx) (ho.place m q hx' hm) hne

/-- **The mutexes cannot deadlock**: on every run of any number of U-procs, no process waits for
itself along a path of processes each blocked on a mutex the next one holds, and no process does a
`P` on a mutex it holds. -/
theorem lock_order_of_run (h₀ : s₀.Calm) (hr : Run step anyStep s₀ es s) :
    ∃ h, Run (record step holders) anyStep (s₀, []) es (s, h) ∧
      (∀ q, ¬ Relation.TransGen (WaitFor s.BlockedOn (s.HeldBy h)) q q) ∧
      ∀ e t q m, s.step e = some t → s.act e = some (q, .passeren m) → ¬ s.HeldBy h m q := by
  obtain ⟨h, hh⟩ := hr.recorded holders []
  have hinv : s.Parked ∧ s.Owned h := by
    refine hh.inv (I := fun x => x.1.Parked ∧ x.1.Owned x.2) ⟨h₀.parked, nofun, nofun⟩ ?_
    rintro x e y ⟨hp, ho⟩ - hy
    obtain ⟨hst, hnote⟩ := record_eq_some hy
    rw [hnote]
    exact ⟨hp.step (step_view hst), ho.step hp (step_view hst)⟩
  obtain ⟨hp, ho⟩ := hinv
  refine ⟨h, hh, WaitFor.acyclic SemName.rank ?_, ?_⟩
  · rintro m m' q ⟨hm, hx, hfree⟩ ⟨hm', hq⟩
    rcases hp.place m' q hq with hw | ⟨rfl, -, -⟩
    · obtain ⟨-, hg, hlow⟩ := awaited_between hw hm'
      rcases hlow m ((ho.place m q hx hm).resolve_right hg) with rfl | hlt
      · exact absurd hq hfree
      · exact hlt
    · cases hm'
  · rintro e t q m hst ha ⟨hm, hx, -⟩
    rcases (step_view hst).acquired ha with ⟨-, hb, hg⟩ | ⟨rfl, -, -⟩
    · exact (ho.place m q hx hm).elim hb hg
    · cases hm

/-- The programs 1 to 3 run, with the ASIDs 2 to 4. -/
def crowdProc (q : ℕ) : Option Proc :=
  if h : 1 ≤ q ∧ q ≤ 3 then some ⟨⟨q + 1, by unfold uprocMax; omega⟩, .run⟩ else none

/-- Three programs at work, and nothing held. -/
def crowd : Support 16 := { blank with vm := { blank.vm with nextPid := 4, proc := crowdProc } }

theorem crowd_calm : crowd.Calm where
  pos := by decide
  test := rfl
  fresh q hq := dif_neg fun h => absurd (hq.trans h.2) (by decide)
  user q pr hq := by
    have hq' : crowdProc q = some pr := hq
    unfold crowdProc at hq'
    split at hq'
    · cases hq'
      exact ⟨rfl, rfl⟩
    · cases hq'
  master := rfl
  shell := rfl
  term d := by cases d <;> rfl
  swapPool := rfl
  flash _ := rfl

/-- The second program is in the pager, the first faults inside `WRITETERMINAL`, and the third calls
`WRITETERMINAL`. -/
def contention : List (SupportEvent 16) :=
  .mem (.fault 2 (entryHI (⟨3, by decide⟩, page0)) 27) :: .replicate 4 (.mem (.pager 2)) ++
    [.ecall 1 writeTerminal (BitVec.ofNat 32 kuseg) 1, .handler 1, .handler 1,
      .mem (.fault 1 (entryHI (prog, page0)) 27), .mem (.pager 1),
      .ecall 3 writeTerminal (BitVec.ofNat 32 kuseg) 1, .handler 3, .handler 3]

/-- The third waits for the first, which waits for the second, which waits for nobody. -/
theorem lock_order_of_run_crowd : ∃ (s : Support 16) (h : List (SemName × Pid)),
    Run step anyStep crowd contention s ∧ WaitFor s.BlockedOn (s.HeldBy h) 3 1 ∧
      WaitFor s.BlockedOn (s.HeldBy h) 1 2 ∧
      ∀ q, ¬ Relation.TransGen (WaitFor s.BlockedOn (s.HeldBy h)) q q := by
  obtain ⟨⟨s, h⟩, hr, h3, h1, h31, h12, hq1, hq2⟩ := exists_run (record step holders) anyStep
    (fun x => 3 ∈ (x.1.sem (.term .tx)).queue ∧ 1 ∈ (x.1.sem .swapPool).queue ∧
      (.term .tx, 1) ∈ x.2 ∧ (.swapPool, 2) ∈ x.2 ∧ 1 ∉ (x.1.sem (.term .tx)).queue ∧
      2 ∉ (x.1.sem .swapPool).queue) (crowd, []) contention (by decide +kernel)
  obtain ⟨h', hr', hno, -⟩ := lock_order_of_run crowd_calm hr.forget
  cases hr.det hr'
  exact ⟨s, h, hr.forget, ⟨.term .tx, ⟨rfl, h3⟩, rfl, h31, hq1⟩, ⟨.swapPool, ⟨rfl, h1⟩, rfl, h12, hq2⟩,
    hno⟩

end Support

end PandOS
