import PandOS.Lib.Session
import PandOS.Phase3.Deadlock

/-!
# Phase 3 — one call at a time on a channel of the terminal

`termMutexTX` and `termMutexRX` are kept by whoever dies with them, so the mutex law of a channel is
about the processes between the `P` and the `V` and those who died there (`Support.Shared`).  It
holds on every run, also after a failure of a nested pager and when processes are removed that wait
for the channel or have it.

* `Support.unbroken_of_run`: on every run of any number of U-procs, the operations on a channel of
  terminal 0 come in whole calls; between two characters of one call no other process reads or
  writes one, and an operation begins only when none is under way.
-/

namespace PandOS

variable {n : ℕ}

/-- An operation on channel `d` is under way. -/
def GenPc.operates : Channel → GenPc → Bool
  | .tx, .sys4 (.busy _) => true
  | .rx, .sys5 (.busy _) => true
  | _, _ => false

/-- What a statement does to channel `d`. -/
def SupportAct.turn (d : Channel) (q : Pid) : SupportAct → Option (Turn Pid)
  | .passeren m => if m = .term d then some (.open q) else none
  | .terminal d' => if d' = d then some (.use q) else none
  | _ => none

namespace Support

variable {s t s₀ : Support n} {e : SupportEvent n} {es : List (SupportEvent n)} {q : Pid}
  {d : Channel} {h : List (Turn Pid)}

/-- The calls on channel `d`, and their operations. -/
def talk (d : Channel) (s : Support n) (e : SupportEvent n) (_ : Support n)
    (h : List (Turn Pid)) : List (Turn Pid) :=
  h ++ ((s.act e).bind fun x => x.2.turn d x.1).toList

/-- A live process whose operation on channel `d` is under way. -/
def Operates (s : Support n) (d : Channel) (q : Pid) : Prop :=
  (∃ a, s.vm.proc q = some ⟨a, .run⟩) ∧ GenPc.operates d (s.pc q) = true

/-! ### The `P` and the `V` of a step -/

/-- A statement of the handler that does `x`. -/
theorem act_handler_iff {pr : Proc} {g : GenPc} {x : SupportAct} (hq : s.vm.proc q = some pr)
    (hpc : s.pc q = g) {i : Pid} : s.act (.handler q) = some (i, x) ↔
      g.act pr.asid = some x ∧ q = i := by
  rw [act_handler hq hpc, Option.map_eq_some_iff]
  constructor
  · rintro ⟨y, hy, he⟩
    cases he
    exact ⟨hy, rfl⟩
  · rintro ⟨hx, rfl⟩
    exact ⟨x, hx, rfl⟩

/-- What is done on a channel or its mutex is done by a statement of the handler. -/
theorem Step.on_term {x : SupportAct} (h : Step s e t) (ha : s.act e = some (q, x))
    (hx : x = .passeren (.term d) ∨ x = .terminal d ∨ x = .verhogen (.term d)) :
    e = .handler q ∧ ¬ s.blocked q ∧ ∃ a, s.vm.proc q = some ⟨a, .run⟩ ∧ (s.pc q).act a = some x := by
  have handler : ∀ {i : Pid} {a : Asid}, e = .handler i → ¬ s.blocked i →
      s.vm.proc i = some ⟨a, .run⟩ → e = .handler q ∧ ¬ s.blocked q ∧
        ∃ a, s.vm.proc q = some ⟨a, .run⟩ ∧ (s.pc q).act a = some x := by
    intro i a he hb hi
    subst he
    obtain ⟨hy, rfl⟩ := (act_handler_iff hi rfl).mp ha
    exact ⟨rfl, hb, a, hi, hy⟩
  -- what is done elsewhere is something else
  have other : ∀ {y : SupportAct}, y = x → (∀ d, y ≠ .passeren (.term d)) →
      (∀ d, y ≠ .terminal d) → (∀ d, y ≠ .verhogen (.term d)) → False := by
    rintro _ rfl hP hT hV
    exact hx.elim (hP d) fun hx => hx.elim (hT d) (hV d)
  cases h with
  | testInit hpc | testInitDone hpc | testCreate hpc | testWait hpc | testTerm hpc =>
      obtain ⟨y, hy, he⟩ := Option.map_eq_some_iff.mp ha
      cases he
      rw [hpc] at hy
      cases hy <;> exact (other rfl (by simp) (by simp) (by simp)).elim
  | load | store | sys4Load | sys5Store | refill | fault | flashDone | ecall | trap | sys4Done
  | sys5Done => cases ha
  | pager hb hu =>
      cases VM.step_view hu with
      | pager hi _ hst =>
          rw [act_pager hi] at ha
          obtain ⟨y, hy, he⟩ := Option.map_eq_some_iff.mp ha
          cases he
          cases hst with
          | acquire c | data0 c | command c | release c =>
              rw [c.act] at hy
              cases hy <;> exact (other rfl (by simp) (by simp) (by simp)).elim
          | _ => cases hy <;> exact (other rfl (by simp) (by simp) (by simp)).elim
  | noPcb => cases ha; exact (other rfl (by simp) (by simp) (by simp)).elim
  | @signal i b hb hi hpc =>
      obtain ⟨hy, -⟩ := (act_handler_iff hi hpc).mp ha
      cases hy
      refine (other rfl (by simp) (by simp) fun d hd => ?_).elim
      have hsig : b.signals = .term d := SupportAct.verhogen.inj hd
      unfold Asid.signals at hsig
      split at hsig <;> cases hsig
  | @term i pr hb hi hpc =>
      obtain ⟨hy, -⟩ := (act_handler_iff hi hpc).mp ha
      cases hy
      exact (other rfl (by simp) (by simp) (by simp)).elim
  | dispatch hb hi | doom hb hi | sys4Acquire hb hi | sys4Command hb hi | sys4Release hb hi
  | sys5Acquire hb hi | sys5Command hb hi | sys5Release hb hi | sys6Init hb hi
  | sys6InitDone hb hi | sys6Create hb hi | sys6Wait hb hi | ldst hb hi => exact handler rfl hb hi

/-- The statement that uses a channel, or gives its mutex back, is between the `P` and the `V`. -/
theorem GenPc.act_holds {a : Asid} {g : GenPc} {x : SupportAct} (h : g.act a = some x)
    (hx : x = .terminal d ∨ x = .verhogen (.term d)) : GenPc.holds d g = true := by
  cases g with
  | sys4 pc => cases pc <;> cases h <;> rcases hx with hx | hx <;> cases hx <;> rfl
  | sys5 pc => cases pc <;> cases h <;> rcases hx with hx | hx <;> cases hx <;> rfl
  | sys6 pc => cases pc <;> cases h <;> rcases hx with hx | hx <;> cases hx
  | signal =>
      cases h
      rcases hx with hx | hx
      · cases hx
      · unfold Asid.signals at hx
        split at hx <;> cases hx
  | term => cases h; rcases hx with hx | hx <;> cases hx
  | user | handler | ldst => cases h

/-- Who uses a channel, or gives its mutex back, has it. -/
theorem Step.used {x : SupportAct} (h : Step s e t) (ha : s.act e = some (q, x))
    (hx : x = .terminal d ∨ x = .verhogen (.term d)) : s.InTerm d q ∧ ¬ s.blocked q := by
  obtain ⟨-, hb, a, hq, hy⟩ := h.on_term ha (.inr hx)
  exact ⟨⟨by rw [hq]; rfl, GenPc.act_holds hy hx⟩, hb⟩

/-- A process comes to stand between the `P` and the `V` by its `P`. -/
theorem Step.enters (h : Step s e t) (hi : t.InTerm d q) :
    s.InTerm d q ∨ s.act e = some (q, .passeren (.term d)) := by
  -- `i` moves from the statement `x` to `g`, and is not outside before if it is inside after
  have move : ∀ {i : Pid} {x g : GenPc}, s.pc i = x → t.pc = Function.update s.pc i g →
      (∀ j, (t.vm.proc j).isSome = true → (s.vm.proc j).isSome = true) →
      (GenPc.holds d g = true → GenPc.holds d x = true) → s.InTerm d q := by
    intro i x g hx hp hv hg
    refine ⟨hv q hi.1, ?_⟩
    have hin := hi.2
    rw [hp, Function.update_apply] at hin
    by_cases hq : q = i
    · rw [if_pos hq] at hin
      rw [hq, hx]
      exact hg hin
    · rwa [if_neg hq] at hin
  have stay : t.pc = s.pc → (∀ j, (t.vm.proc j).isSome = true → (s.vm.proc j).isSome = true) →
      s.InTerm d q := fun hp hv => ⟨hv q hi.1, hp ▸ hi.2⟩
  have mem : ∀ {f : VmEvent n} {u : VM n}, s.vm.step f = some u → (∀ a, f ≠ .create a) →
      (∀ q, f ≠ .exit q) → ∀ j, (u.proc j).isSome = true → (s.vm.proc j).isSome = true := by
    intro f u hu hc hx j hj
    have := congrArg Option.isSome (((VM.step_view hu).asids hc hx).1 j)
    rw [Option.isSome_map, Option.isSome_map] at this
    exact this ▸ hj
  have vm : ∀ {f : VmEvent n} {i : Pid} {u : VM n}, s.vm.step f = some u → (∀ a, f ≠ .create a) →
      (∀ q, f ≠ .exit q) → t = s.withVm i u → s.InTerm d q := by
    intro f i u hu hc hx ht
    subst ht
    have hv := mem hu hc hx
    rw [← withVm_vm (s := s) (q := i) (u := u)] at hv
    rcases withVm_pc (s := s) (q := i) (u := u) with hp | ⟨hp, -⟩
    · exact stay hp hv
    · exact move rfl hp hv (by cases d <;> rintro ⟨⟩)
  -- a process is created, outside
  have create : ∀ {i : Pid} {a : Asid}, t.vm.proc = Function.update s.vm.proc i (some ⟨a, .run⟩) →
      GenPc.holds d (t.pc i) = false → (∀ j, j ≠ i → GenPc.holds d (t.pc j) = true →
        GenPc.holds d (s.pc j) = true) → s.InTerm d q := by
    intro i a hv hpc hp
    obtain ⟨hq, hin⟩ := hi
    have hne : q ≠ i := by
      intro he
      rw [he, hpc] at hin
      cases hin
    rw [hv, Function.update_of_ne hne] at hq
    exact ⟨hq, hp q hne hin⟩
  have removed : ∀ {i : Pid} {tp : TestPc}, t = { s.terminate i with testPc := tp } →
      s.InTerm d q := by
    rintro i tp rfl
    obtain ⟨hpc, -, -, -, -, -, hv⟩ := foldl_remove (s.progeny i) s
    refine stay hpc fun j hj => ?_
    have hj : ((s.terminate i).vm.proc j).isSome = true := hj
    rw [Support.terminate, hv] at hj
    split at hj
    · cases hj
    · exact hj
  have same : ∀ j, (s.vm.proc j).isSome = true → (s.vm.proc j).isSome = true := fun _ => id
  have signalled : ∀ {a : Asid} j, ((s.signal a).vm.proc j).isSome = true →
      (s.vm.proc j).isSome = true := fun {a} j hj => by rwa [(signal_vm (s := s) (a := a)).1] at hj
  cases h with
  | testInit | testInitDone | testWait => exact .inl (stay rfl same)
  | testCreate =>
      refine .inl (create (a := .shell) (i := s.vm.nextPid) rfl ?_ fun j hj hin => ?_)
      · rw [show (s.createProc 0 .shell).pc s.vm.nextPid = .user from Function.update_self ..]
        cases d <;> rfl
      · rwa [show (s.createProc 0 .shell).pc j = s.pc j from Function.update_of_ne hj ..] at hin
  | testTerm => exact .inl (removed rfl)
  | load _ _ hu => exact .inl (stay rfl (mem hu (by simp) (by simp)))
  | store _ _ hu => exact .inl (stay rfl (mem hu (by simp) (by simp)))
  | refill _ hu => exact .inl (stay rfl (mem hu (by simp) (by simp)))
  | flashDone hu => exact .inl (stay rfl (mem hu (by simp) (by simp)))
  | sys4Load _ hpc hu =>
      exact .inl (move hpc rfl (mem hu (by simp) (by simp)) (by cases d <;> exact id))
  | @sys5Store i b p w v u k c _ hpc hu =>
      refine .inl (move hpc rfl (mem hu (by simp) (by simp)) fun hg => ?_)
      cases d
      · exact absurd hg (by rw [holds_sys5Loop.1]; simp)
      · rfl
  | fault _ _ hu => exact .inl (vm hu (by simp) (by simp) rfl)
  | pager _ hu => exact .inl (vm hu (by simp) (by simp) rfl)
  | ecall _ hpc => exact .inl (move hpc rfl same (by cases d <;> rintro ⟨⟩))
  | trap _ hpc => exact .inl (move hpc rfl same (by cases d <;> rintro ⟨⟩))
  | @dispatch i b _ _ hpc =>
      exact .inl (move hpc rfl same fun hg =>
        absurd hg (by rw [holds_supportGeneralExHandler]; simp))
  | @doom i b _ hq hpc =>
      refine .inl (move hpc rfl (fun j hj => ?_) (by cases d <;> rintro ⟨⟩))
      have hj : ((s.vm.goto i b .dying).proc j).isSome = true := hj
      rw [VM.goto_proc, Function.update_apply] at hj
      by_cases hij : j = i
      · rw [hij, hq]
        rfl
      · rwa [if_neg hij] at hj
  | @sys4Acquire i b _ hq hpc =>
      cases d with
      | tx =>
          refine (eq_or_ne q i).symm.imp (fun hne => ?_) fun he => ?_
          · exact ⟨hi.1, by rw [← Function.update_of_ne hne _ s.pc]; exact hi.2⟩
          · rw [he, act_handler hq hpc]
            rfl
      | rx =>
          refine .inl (move hpc rfl same fun hg => ?_)
          rw [holds_sys4Loop.2] at hg
          cases hg
  | sys4Command _ _ hpc => exact .inl (move hpc rfl same (by cases d <;> exact id))
  | sys4Release _ _ hpc => exact .inl (move hpc rfl same (by cases d <;> rintro ⟨⟩))
  | @sys5Acquire i b _ hq hpc =>
      cases d with
      | tx =>
          refine .inl (move hpc rfl same fun hg => ?_)
          rw [holds_sys5Loop.1] at hg
          cases hg
      | rx =>
          refine (eq_or_ne q i).symm.imp (fun hne => ?_) fun he => ?_
          · exact ⟨hi.1, by rw [← Function.update_of_ne hne _ s.pc]; exact hi.2⟩
          · rw [he, act_handler hq hpc]
            rfl
  | sys5Command _ _ hpc => exact .inl (move hpc rfl same (by cases d <;> exact id))
  | sys5Release _ _ hpc => exact .inl (move hpc rfl same (by cases d <;> rintro ⟨⟩))
  | sys6Init _ _ hpc => exact .inl (move hpc rfl same (by cases d <;> rintro ⟨⟩))
  | sys6InitDone _ _ hpc => exact .inl (move hpc rfl same (by cases d <;> rintro ⟨⟩))
  | @sys6Create i b asid _ hq hpc =>
      refine .inl (create (a := asid) (i := s.vm.nextPid) rfl ?_ fun j hj hin => ?_)
      · show GenPc.holds d (Function.update (Function.update s.pc s.vm.nextPid .user) i (.sys6 .wait)
          s.vm.nextPid) = false
        rw [Function.update_apply, Function.update_self]
        cases d <;> split <;> rfl
      · change GenPc.holds d (Function.update (Function.update s.pc s.vm.nextPid .user) i
          (.sys6 .wait) j) = true at hin
        rw [Function.update_apply, Function.update_of_ne hj] at hin
        by_cases hji : j = i
        · rw [if_pos hji] at hin
          cases d <;> cases hin
        · rwa [if_neg hji] at hin
  | sys6Wait _ _ hpc => exact .inl (move hpc rfl same (by cases d <;> rintro ⟨⟩))
  | ldst _ _ hpc => exact .inl (move hpc rfl same (by cases d <;> rintro ⟨⟩))
  | signal _ _ hpc =>
      exact .inl (move hpc signal_setPc.2 signalled (by cases d <;> rintro ⟨⟩))
  | term => exact .inl (removed rfl)
  | noPcb _ _ hpc => exact .inl (move hpc rfl same (by cases d <;> rintro ⟨⟩))
  | sys4Done _ hpc =>
      refine .inl (move hpc rfl same fun hg => ?_)
      cases d
      · rfl
      · split at hg
        · cases hg
        · exact absurd hg (by rw [holds_sys4Loop.2]; simp)
  | sys5Done _ hpc =>
      refine .inl (move hpc rfl same fun hg => ?_)
      cases d
      · split at hg <;> cases hg
      · rfl

/-- A `P` on the mutex of a channel. -/
theorem Step.took (h : Step s e t) (ha : s.act e = some (q, .passeren (.term d))) :
    t.termMutex d = (s.termMutex d).P q := by
  obtain ⟨rfl, -, a, hq, hx⟩ := h.on_term ha (.inl rfl)
  cases h with
  | sys4Acquire _ _ hpc | sys5Acquire _ _ hpc => rw [hpc] at hx; cases hx; rfl
  | signal _ hi => rw [hq] at hi; cases hi
  | dispatch _ _ hpc | doom _ _ hpc | sys4Command _ _ hpc | sys4Release _ _ hpc
  | sys5Command _ _ hpc | sys5Release _ _ hpc | sys6Init _ _ hpc | sys6InitDone _ _ hpc
  | sys6Create _ _ hpc | sys6Wait _ _ hpc | ldst _ _ hpc | term _ _ hpc =>
      rw [hpc] at hx
      cases hx

/-- A `V` on it. -/
theorem Step.gave (h : Step s e t) (ha : s.act e = some (q, .verhogen (.term d))) :
    t.termMutex d = (s.termMutex d).V ∧ ¬ t.InTerm d q := by
  obtain ⟨rfl, -, a, hq, hx⟩ := h.on_term ha (.inr (.inr rfl))
  cases h with
  | sys4Release _ _ hpc | sys5Release _ _ hpc =>
      rw [hpc] at hx
      cases hx
      refine ⟨rfl, fun hi => ?_⟩
      have hin := hi.2
      rw [setPc_self] at hin
      cases hin
  | signal _ hi => rw [hq] at hi; cases hi
  | dispatch _ _ hpc | doom _ _ hpc | sys4Acquire _ _ hpc | sys4Command _ _ hpc
  | sys5Acquire _ _ hpc | sys5Command _ _ hpc | sys6Init _ _ hpc | sys6InitDone _ _ hpc
  | sys6Create _ _ hpc | sys6Wait _ _ hpc | ldst _ _ hpc | term _ _ hpc =>
      rw [hpc] at hx
      cases hx

/-- Who waits for a channel is between its `P` and its `V`. -/
theorem Parked.inTerm (hp : s.Parked) (hq : q ∈ (s.termMutex d).queue) : s.InTerm d q := by
  rcases hp.place (.term d) q hq with hw | ⟨hx, -⟩
  · exact (awaited_between hw rfl).1
  · cases hx

/-- What becomes of the mutex of a channel. -/
inductive TermChange (s : Support n) (e : SupportEvent n) (t : Support n) (d : Channel) : Prop where
  | took (q : Pid) (ha : s.act e = some (q, .passeren (.term d)))
      (hm : t.termMutex d = (s.termMutex d).P q)
  | gave (q : Pid) (ha : s.act e = some (q, .verhogen (.term d)))
      (hm : t.termMutex d = (s.termMutex d).V)
  | same (hP : ∀ q, s.act e ≠ some (q, .passeren (.term d)))
      (hV : ∀ q, s.act e ≠ some (q, .verhogen (.term d))) (hm : t.termMutex d = s.termMutex d)
  | killed (i : Pid) (ha : s.act e = some (i, .termProcess))
      (hm : t.termMutex d = (s.progeny i).foldl Sem.drop (s.termMutex d))
      (hpc : t.pc = s.pc) (hv : ∀ q, t.vm.proc q = if q ∈ s.progeny i then none else s.vm.proc q)

/-- What a step does to a channel of the terminal. -/
theorem Parked.termChange (hp : s.Parked) (h : Step s e t) (d : Channel) :
    TermChange s e t d := by
  cases hp.moves h with
  | terminates i ha ht =>
      obtain ⟨tp, rfl⟩ := ht
      obtain ⟨hpc, -, -, -, -, -, hv⟩ := foldl_remove (s.progeny i) s
      exact .killed i ha (foldl_remove_sem (m := .term d) _ _) hpc hv
  | plain _ _ _ _ _ sems =>
      by_cases hP : ∃ q, s.act e = some (q, .passeren (.term d))
      · obtain ⟨q, ha⟩ := hP
        exact .took q ha (h.took ha)
      by_cases hV : ∃ q, s.act e = some (q, .verhogen (.term d))
      · obtain ⟨q, ha⟩ := hV
        exact .gave q ha (h.gave ha).1
      refine .same (not_exists.mp hP) (not_exists.mp hV) ?_
      cases sems (.term d) with
      | same hm => exact hm
      | acquire q ha => exact absurd ⟨q, ha⟩ hP
      | release q ha => exact absurd ⟨q, ha⟩ hV

/-- The mutex of channel `d` is kept by those between its `P` and its `V`, and by those who died
there. -/
def Shared (s : Support n) (d : Channel) : Prop :=
  ∃ D : Pid → Prop, (∀ q, D q → q < s.vm.nextPid ∧ s.Gone q) ∧
    Mutex (s.termMutex d) fun q => s.InTerm d q ∨ D q

/-- A step keeps the mutex with those inside and those who died there. -/
theorem Shared.step (h : s.Shared d) (hp : s.Parked) (hst : Step s e t) : t.Shared d := by
  obtain ⟨D, hD, hM⟩ := h
  have hlt : ∀ q, s.InTerm d q ∨ D q → q < s.vm.nextPid := by
    rintro q (hq | hq)
    · exact hp.lt (Option.isSome_iff_ne_none.mp hq.1)
    · exact (hD q hq).1
  have next : s.vm.nextPid ≤ t.vm.nextPid := by
    cases hp.moves hst with
    | terminates i ha ht hi =>
        obtain ⟨tp, rfl⟩ := ht
        exact (foldl_remove (s.progeny i) s).2.2.2.1.ge
    | plain _ _ next => exact next
  -- who was inside and is not any more, and has not done its `V`, is gone
  have gone : ∀ q, s.InTerm d q ∨ D q → s.act e ≠ some (q, .verhogen (.term d)) →
      ¬ t.InTerm d q → q < t.vm.nextPid ∧ t.Gone q := by
    intro q hq hV hout
    have hb : s.Between (.term d) q ∨ s.Gone q := hq.imp_right fun h => (hD q h).2
    exact ⟨(hlt q hq).trans_le next, (hp.between hst (hlt q hq) hb hV).resolve_left hout⟩
  cases hp.termChange hst d with
  | took q ha hm =>
      obtain ⟨hin, hout⟩ : t.InTerm d q ∧ ¬ (s.InTerm d q ∨ D q) := by
        rcases hst.acquired ha with ⟨hw, hb, hg⟩ | ⟨hx, -⟩
        · exact ⟨(awaited_between hw rfl).1, fun h => h.elim hb fun h => hg (hD q h).2⟩
        · cases hx
      refine ⟨fun j => (s.InTerm d j ∨ D j) ∧ ¬ t.InTerm d j,
        fun j hj => gone j hj.1 (by rw [ha]; simp) hj.2, ?_⟩
      rw [hm]
      refine (hM.P hout).congr fun j => ⟨fun hj => ?_, ?_⟩
      · by_cases hj' : t.InTerm d j
        · exact .inl hj'
        · exact .inr ⟨hj.resolve_right fun he => hj' (he ▸ hin), hj'⟩
      · rintro (hj | hj)
        · refine (hst.enters hj).imp .inl fun hx => ?_
          rw [ha] at hx
          cases hx
          rfl
        · exact .inl hj.1
  | gave q ha hm =>
      obtain ⟨hin, hb⟩ := hst.used ha (.inr rfl)
      refine ⟨fun j => (s.InTerm d j ∨ D j) ∧ j ≠ q ∧ ¬ t.InTerm d j,
        fun j hj => gone j hj.1 (by rw [ha]; simpa using hj.2.1.symm) hj.2.2, ?_⟩
      rw [hm]
      refine (hM.V (.inl hin) fun hq => hb (blocked_iff.mpr ⟨.term d, hq⟩)).congr
        fun j => ⟨fun hj => ?_, ?_⟩
      · by_cases hj' : t.InTerm d j
        · exact .inl hj'
        · exact .inr ⟨hj.1, hj.2, hj'⟩
      · rintro (hj | hj)
        · refine ⟨.inl ((hst.enters hj).resolve_right (by rw [ha]; simp)), ?_⟩
          intro he
          exact (hst.gave ha).2 (he ▸ hj)
        · exact ⟨hj.1, hj.2.1⟩
  | same hP hV hm =>
      refine ⟨fun j => (s.InTerm d j ∨ D j) ∧ ¬ t.InTerm d j,
        fun j hj => gone j hj.1 (hV j) hj.2, ?_⟩
      rw [hm]
      refine hM.congr fun j => ⟨fun hj => ?_, ?_⟩
      · by_cases hj' : t.InTerm d j
        · exact .inl hj'
        · exact .inr ⟨hj, hj'⟩
      · rintro (hj | hj)
        · exact .inl ((hst.enters hj).resolve_right (hP j))
        · exact hj.1
  | killed i ha hm hpc hv =>
      -- those who wait are outside, with their tokens
      refine ⟨fun j => (s.InTerm d j ∨ D j) ∧ j ∉ (s.termMutex d).queue ∧ ¬ t.InTerm d j,
        fun j hj => gone j hj.1 (by rw [ha]; simp) hj.2.2, ?_⟩
      rw [hm]
      have hnd : (s.progeny i).Nodup := List.nodup_range.filter _
      refine (hM.kill hnd).congr fun j => ⟨fun hj => ?_, ?_⟩
      · by_cases hj' : t.InTerm d j
        · exact .inl hj'
        · refine .inr ⟨hj.1, fun hq => ?_, hj'⟩
          have hin := hp.inTerm hq
          refine hj' ⟨?_, by rw [hpc]; exact hin.2⟩
          rw [hv, if_neg fun hx => hj.2 ⟨hx, hq⟩]
          exact hin.1
      · rintro (hj | hj)
        · refine ⟨.inl ((hst.enters hj).resolve_right (by rw [ha]; simp)), fun hx => ?_⟩
          have hlive := hj.1
          rw [hv, if_pos hx.1] at hlive
          cases hlive
        · exact ⟨hj.1, fun hx => hj.2.1 hx.2⟩

/-- An operation is under way between the `P` and the `V`; its process does not wait for a
semaphore and does no statement. -/
theorem GenPc.of_operates {g : GenPc} (h : GenPc.operates d g = true) :
    GenPc.holds d g = true ∧ g.awaited = none ∧ ∀ a, g.act a = none := by
  unfold GenPc.operates at h
  split at h
  · exact ⟨rfl, rfl, fun _ => rfl⟩
  · exact ⟨rfl, rfl, fun _ => rfl⟩
  · cases h

theorem Operates.inTerm (ho : s.Operates d q) : s.InTerm d q := by
  obtain ⟨⟨a, hq⟩, hg⟩ := ho
  exact ⟨by rw [hq]; rfl, (GenPc.of_operates hg).1⟩

theorem Operates.free (ho : s.Operates d q) (hp : s.Parked) : q ∉ (s.termMutex d).queue := by
  obtain ⟨⟨a, hq⟩, hg⟩ := ho
  intro hm
  rcases hp.place (.term d) q hm with hw | ⟨hx, -⟩
  · rw [awaited_run hq, (GenPc.of_operates hg).2.1] at hw
    cases hw
  · cases hx

/-- One of those between the `P` and the `V` is not in the queue. -/
theorem Shared.unique (h : s.Shared d) {q' : Pid} (hq : s.InTerm d q)
    (hb : q ∉ (s.termMutex d).queue) (hq' : s.InTerm d q') (hb' : q' ∉ (s.termMutex d).queue) :
    q = q' := by
  obtain ⟨D, -, hM⟩ := h
  exact hM.unique (.inl hq) hb (.inl hq') hb'

/-! ### Runs -/

theorem talk_open (ha : s.act e = some (q, .passeren (.term d))) :
    talk d s e t h = h ++ [.open q] := by
  simp [talk, ha, SupportAct.turn]

theorem talk_use (ha : s.act e = some (q, .terminal d)) : talk d s e t h = h ++ [.use q] := by
  simp [talk, ha, SupportAct.turn]

/-- A step that is neither the `P` nor a command of the channel leaves its history alone. -/
theorem talk_other (hP : ∀ q, s.act e ≠ some (q, .passeren (.term d)))
    (hT : ∀ q, s.act e ≠ some (q, .terminal d)) : talk d s e t h = h := by
  unfold talk
  cases ha : s.act e with
  | none => simp
  | some y =>
      obtain ⟨q, x⟩ := y
      have hx : x.turn d q = none := by
        cases x with
        | passeren m =>
            refine if_neg fun hm => ?_
            subst hm
            exact hP q ha
        | terminal d' =>
            refine if_neg fun hd => ?_
            subst hd
            exact hT q ha
        | _ => rfl
      simp [hx]

/-- The sessions of channel `d`. -/
def Talks (s : Support n) (d : Channel) (h : List (Turn Pid)) : Prop :=
  Sessions h (s.InTerm d) fun q => q ∈ (s.termMutex d).queue

/-- A step keeps the history of the channel one of sessions. -/
theorem Talks.step (hk : s.Talks d h) (hm : s.Shared d) (hp : s.Parked) (hst : Step s e t) :
    t.Talks d (talk d s e t h) := by
  have enters : (∀ q, s.act e ≠ some (q, .passeren (.term d))) → ∀ j, t.InTerm d j →
      s.InTerm d j := fun hP j hj => (hst.enters hj).resolve_right (hP j)
  -- a step that lets nobody in
  have quiet : (∀ q, s.act e ≠ some (q, .passeren (.term d))) →
      (∀ q, s.act e ≠ some (q, .terminal d)) →
      (∀ j ∈ (t.termMutex d).queue, j ∈ (s.termMutex d).queue) → t.Talks d (talk d s e t h) := by
    intro hP hT hq
    rw [talk_other hP hT]
    exact hk.mono (enters hP) hq
  cases hp.termChange hst d with
  | took q ha hsem =>
      rw [talk_open ha]
      refine hk.begin.mono (fun j hj => ?_) fun j hj => ?_
      · refine (hst.enters hj).imp_right fun hx => ?_
        rw [ha] at hx
        cases hx
        rfl
      · rw [hsem, Sem.P] at hj
        change j ∈ ite _ _ _ at hj
        split at hj
        · exact (List.mem_append.mp hj).imp_right List.mem_singleton.mp
        · exact .inl hj
  | gave q ha hsem =>
      refine quiet (by rw [ha]; simp) (by rw [ha]; simp) fun j hj => ?_
      rw [hsem, Sem.V] at hj
      change j ∈ ite _ _ _ at hj
      split at hj
      · exact List.mem_of_mem_tail hj
      · exact hj
  | killed i ha hsem =>
      refine quiet (by rw [ha]; simp) (by rw [ha]; simp) fun j hj => ?_
      rw [hsem] at hj
      exact (((Sem.foldl_drop (hp.nodup (.term d)) _).2 j).mp hj).2
  | same hP hV hsem =>
      by_cases hT : ∃ q, s.act e = some (q, .terminal d)
      · obtain ⟨q, ha⟩ := hT
        obtain ⟨hin, hb⟩ := hst.used ha (.inl rfl)
        have hq : q ∉ (s.termMutex d).queue := fun hx => hb (blocked_iff.mpr ⟨.term d, hx⟩)
        rw [talk_use ha]
        refine (hk.use hin hq fun j hj hj' => hm.unique hj hj' hin hq).mono (enters hP) ?_
        intro j hj
        rwa [hsem] at hj
      · exact quiet hP (not_exists.mp hT) fun j hj => hsem ▸ hj

/-- **One call at a time on a channel of the terminal.**  On every run of any number of U-procs,
whatever the devices answer and however the programs end, the operations on a channel come in whole
calls: between two characters of one call nobody else reads or writes one.  And an operation begins
only when none is under way. -/
theorem unbroken_of_run (h₀ : s₀.Calm) (hr : Run step anyStep s₀ es s) (d : Channel) :
    ∃ h, Run (record step (talk d)) anyStep (s₀, []) es (s, h) ∧ Unbroken h ∧
      ∀ e t q q', s.step e = some t → s.act e = some (q, .terminal d) → ¬ s.Operates d q' := by
  obtain ⟨h, hh⟩ := hr.recorded (talk d) []
  have out : ∀ q, ¬ s₀.InTerm d q := by
    rintro q ⟨hq, hin⟩
    obtain ⟨pr, hpr⟩ := Option.isSome_iff_exists.mp hq
    rw [(h₀.user q pr hpr).2] at hin
    cases d <;> cases hin
  have first : s₀.Shared d ∧ s₀.Talks d [] := by
    refine ⟨⟨fun _ => False, nofun, ?_⟩, (Sessions.nil _).mono (fun _ h => h) fun q hq => ?_⟩
    · rw [h₀.term d]
      exact .free fun q hq => hq.elim (out q) id
    · rw [h₀.term d] at hq
      cases hq
  have hinv : s.Parked ∧ s.Shared d ∧ s.Talks d h := by
    refine hh.inv (I := fun x => x.1.Parked ∧ x.1.Shared d ∧ x.1.Talks d x.2)
      ⟨h₀.parked, first⟩ ?_
    rintro x e y ⟨hp, hm, hk⟩ - hy
    obtain ⟨hst, hnote⟩ := record_eq_some hy
    rw [hnote]
    exact ⟨hp.step (step_view hst), hm.step hp (step_view hst), hk.step hm hp (step_view hst)⟩
  obtain ⟨hp, hm, hk⟩ := hinv
  refine ⟨h, hh, hk.unbroken, fun e t q q' hst ha ho => ?_⟩
  obtain ⟨hin, hb⟩ := (step_view hst).used ha (.inl rfl)
  obtain rfl := hm.unique hin (fun hx => hb (blocked_iff.mpr ⟨.term d, hx⟩)) ho.inTerm (ho.free hp)
  obtain ⟨-, -, a, -, hy⟩ := (step_view hst).on_term ha (.inr (.inl rfl))
  rw [(GenPc.of_operates ho.2).2.2 a] at hy
  cases hy

/-- The programs 1 to 3, with the page tables `initPageTable` builds. -/
def readers : Support 16 :=
  { crowd with vm := { crowd.vm with pgTbl := fun r => ⟨entryHI r, dirtyOn⟩ } }

theorem readers_calm : readers.Calm :=
  ⟨crowd_calm.pos, crowd_calm.test, crowd_calm.fresh, crowd_calm.user, crowd_calm.master,
    crowd_calm.shell, crowd_calm.term, crowd_calm.swapPool, crowd_calm.flash⟩

/-- The first reads a line into its first page, which is resident; after its first command the
second calls `READTERMINAL`. -/
def dialogue : List (SupportEvent 16) :=
  pageFault 1 (prog, page0) slot0 ++ pageIn 1 ++
    [.ecall 1 readTerminal (BitVec.ofNat 32 kuseg) 0, .handler 1, .handler 1, .handler 1,
      .ecall 2 readTerminal (BitVec.ofNat 32 kuseg) 0, .handler 2, .handler 2,
      .termDone 1 0x6105, .mem (.store 1 prog page0 word0 0x61), .handler 1]

/-- The second character is the first one's, too. -/
theorem unbroken_of_run_readers : ∃ (s : Support 16) (h : List (Turn Pid)),
    Run (record step (talk .rx)) anyStep (readers, []) dialogue (s, h) ∧
      h = [.open 1, .use 1, .open 2, .use 1] ∧ Unbroken h ∧
      ∀ e t q q', s.step e = some t → s.act e = some (q, .terminal .rx) → ¬ s.Operates .rx q' := by
  obtain ⟨⟨s, h⟩, hr, hh⟩ := exists_run (record step (talk .rx)) anyStep
    (fun x => x.2 = [.open 1, .use 1, .open 2, .use 1]) (readers, []) dialogue (by decide +kernel)
  obtain ⟨h', hr', hu, hone⟩ := unbroken_of_run readers_calm hr.forget .rx
  cases hr.det hr'
  exact ⟨s, h, hr, hh, hu, hone⟩

end Support

end PandOS
