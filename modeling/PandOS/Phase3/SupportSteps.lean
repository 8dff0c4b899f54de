import PandOS.Phase3.PagerSteps
import PandOS.Phase3.Support

/-!
# Phase 3 — what a step of the Support Level does

`Support.Step s e t` lists the steps, one constructor for each kind; `Support.step_view` takes a
step apart once.  `Support.vmEvent` is the step of the pager machine a step makes, if it makes
one and removes no process.
-/

namespace PandOS.Support

variable {n : ℕ}

/-- The steps. -/
inductive Step (s : Support n) : SupportEvent n → Support n → Prop where
  | testInit {i : ℕ} (hpc : s.testPc = .init i) (h : i < maxPages) : Step s .test
      { s with vm := s.vm.initPte (.shell, ⟨i, h⟩), testPc := .init (i + 1) }
  | testInitDone {i : ℕ} (hpc : s.testPc = .init i) (h : maxPages ≤ i) : Step s .test
      { s with testPc := .create }
  | testCreate (hpc : s.testPc = .create) : Step s .test
      { s.createProc 0 .shell with testPc := .wait }
  | testWait (hpc : s.testPc = .wait) : Step s .test
      { s with masterSemaphore := s.masterSemaphore.P 0, testPc := .term }
  | testTerm (hpc : s.testPc = .term) (hb : 0 ∉ s.masterSemaphore.queue) : Step s .test
      { s.terminate 0 with testPc := .done }
  | load {q a p w v u} (hb : ¬ s.blocked q) (hpc : s.pc q = .user)
      (hu : s.vm.step (.load q a p w v) = some u) :
      Step s (.mem (.load q a p w v)) { s with vm := u }
  | store {q a p w v u} (hb : ¬ s.blocked q) (hpc : s.pc q = .user)
      (hu : s.vm.step (.store q a p w v) = some u) :
      Step s (.mem (.store q a p w v)) { s with vm := u }
  | sys4Load {q a p w v u i c} (hb : ¬ s.blocked q) (hpc : s.pc q = .sys4 (.load i))
      (hu : s.vm.step (.load q a p w v) = some u) :
      Step s (.mem (.load q a p w v)) ({ s with vm := u }.setPc q (.sys4 (.command i c)))
  | sys5Store {q a p w v u i c} (hb : ¬ s.blocked q) (hpc : s.pc q = .sys5 (.store i c))
      (hu : s.vm.step (.store q a p w v) = some u) :
      Step s (.mem (.store q a p w v)) ({ s with vm := u }.setPc q (sys5Loop (i + 1) (some c)))
  | refill {q entryHi slot u} (hb : ¬ s.blocked q)
      (hu : s.vm.step (.refill q entryHi slot) = some u) :
      Step s (.mem (.refill q entryHi slot)) { s with vm := u }
  | fault {q entryHi cause u p} (hb : ¬ s.blocked q) (hp : s.mayTouch q p)
      (hu : s.vm.step (.fault q entryHi cause) = some u) :
      Step s (.mem (.fault q entryHi cause)) (s.withVm q u)
  | pager {q u} (hb : ¬ s.blocked q) (hu : s.vm.step (.pager q) = some u) :
      Step s (.mem (.pager q)) (s.withVm q u)
  | flashDone {q status junk u} (hu : s.vm.step (.flashDone q status junk) = some u) :
      Step s (.mem (.flashDone q status junk)) { s with vm := u }
  | ecall {q a a0 a1 a2} (hq : s.vm.proc q = some ⟨a, .run⟩) (hpc : s.pc q = .user) :
      Step s (.ecall q a0 a1 a2) ((s.setSaved a ⟨ecallCause a0, a0, a1, a2⟩).setPc q .handler)
  | trap {q a cause} (hq : s.vm.proc q = some ⟨a, .run⟩) (hpc : s.pc q = .user) :
      Step s (.trap q cause) ((s.setSaved a { s.saved a with cause := cause }).setPc q .handler)
  | dispatch {q a} (hb : ¬ s.blocked q) (hq : s.vm.proc q = some ⟨a, .run⟩)
      (hpc : s.pc q = .handler) (h : (supportGeneralExHandler a (s.saved a)).1 ≠ .signal) :
      Step s (.handler q) ((s.setA0 a (supportGeneralExHandler a (s.saved a)).2).setPc q
        (supportGeneralExHandler a (s.saved a)).1)
  | doom {q a} (hb : ¬ s.blocked q) (hq : s.vm.proc q = some ⟨a, .run⟩)
      (hpc : s.pc q = .handler) (h : (supportGeneralExHandler a (s.saved a)).1 = .signal) :
      Step s (.handler q) ({ s with vm := s.vm.goto q a .dying }.setPc q .signal)
  | sys4Acquire {q a} (hb : ¬ s.blocked q) (hq : s.vm.proc q = some ⟨a, .run⟩)
      (hpc : s.pc q = .sys4 .acquire) : Step s (.handler q)
      ({ s with termMutexTX := s.termMutexTX.P q }.setPc q (sys4Loop (s.saved a) 0))
  | sys4Command {q a i c} (hb : ¬ s.blocked q) (hq : s.vm.proc q = some ⟨a, .run⟩)
      (hpc : s.pc q = .sys4 (.command i c)) : Step s (.handler q)
      ({ s with transmCommand := c.setWidth 32 <<< 8 ||| transmitChar }.setPc q (.sys4 (.busy i)))
  | sys4Release {q a a0} (hb : ¬ s.blocked q) (hq : s.vm.proc q = some ⟨a, .run⟩)
      (hpc : s.pc q = .sys4 (.release a0)) : Step s (.handler q)
      (({ s with termMutexTX := s.termMutexTX.V }.setA0 a a0).setPc q .ldst)
  | sys5Acquire {q a} (hb : ¬ s.blocked q) (hq : s.vm.proc q = some ⟨a, .run⟩)
      (hpc : s.pc q = .sys5 .acquire) : Step s (.handler q)
      ({ s with termMutexRX := s.termMutexRX.P q }.setPc q (sys5Loop 0 none))
  | sys5Command {q a i} (hb : ¬ s.blocked q) (hq : s.vm.proc q = some ⟨a, .run⟩)
      (hpc : s.pc q = .sys5 (.command i)) : Step s (.handler q)
      ({ s with recvCommand := receiveChar }.setPc q (.sys5 (.busy i)))
  | sys5Release {q a a0} (hb : ¬ s.blocked q) (hq : s.vm.proc q = some ⟨a, .run⟩)
      (hpc : s.pc q = .sys5 (.release a0)) : Step s (.handler q)
      (({ s with termMutexRX := s.termMutexRX.V }.setA0 a a0).setPc q .ldst)
  | sys6Init {q a asid i} (hb : ¬ s.blocked q) (hq : s.vm.proc q = some ⟨a, .run⟩)
      (hpc : s.pc q = .sys6 (.init asid i)) (h : i < maxPages) : Step s (.handler q)
      ({ s with vm := s.vm.initPte (asid, ⟨i, h⟩) }.setPc q (.sys6 (.init asid (i + 1))))
  | sys6InitDone {q a asid i} (hb : ¬ s.blocked q) (hq : s.vm.proc q = some ⟨a, .run⟩)
      (hpc : s.pc q = .sys6 (.init asid i)) (h : maxPages ≤ i) : Step s (.handler q)
      (s.setPc q (.sys6 (.create asid)))
  | sys6Create {q a asid} (hb : ¬ s.blocked q) (hq : s.vm.proc q = some ⟨a, .run⟩)
      (hpc : s.pc q = .sys6 (.create asid)) : Step s (.handler q)
      ((s.createProc q asid).setPc q (.sys6 .wait))
  | sys6Wait {q a} (hb : ¬ s.blocked q) (hq : s.vm.proc q = some ⟨a, .run⟩)
      (hpc : s.pc q = .sys6 .wait) : Step s (.handler q)
      ({ s with shellSemaphore := s.shellSemaphore.P q }.setPc q .ldst)
  | ldst {q a} (hb : ¬ s.blocked q) (hq : s.vm.proc q = some ⟨a, .run⟩)
      (hpc : s.pc q = .ldst) : Step s (.handler q) (s.setPc q .user)
  | signal {q a} (hb : ¬ s.blocked q) (hq : s.vm.proc q = some ⟨a, .dying⟩)
      (hpc : s.pc q = .signal) : Step s (.handler q) ((s.signal a).setPc q .term)
  | term {q pr} (hb : ¬ s.blocked q) (hq : s.vm.proc q = some pr) (hpc : s.pc q = .term) :
      Step s (.handler q) (s.terminate q)
  | noPcb {q a asid} (hb : ¬ s.blocked q) (hq : s.vm.proc q = some ⟨a, .run⟩)
      (hpc : s.pc q = .sys6 (.create asid)) : Step s (.noPcb q) (s.setPc q (.sys6 .wait))
  | sys4Done {q a i status} (hq : s.vm.proc q = some ⟨a, .run⟩)
      (hpc : s.pc q = .sys4 (.busy i)) : Step s (.termDone q status)
      (s.setPc q (if status &&& 0xFF ≠ okCharTrans then .sys4 (.release (-status))
        else sys4Loop (s.saved a) (i + 1)))
  | sys5Done {q a i status} (hq : s.vm.proc q = some ⟨a, .run⟩)
      (hpc : s.pc q = .sys5 (.busy i)) : Step s (.termDone q status)
      (s.setPc q (if status &&& 0xFF ≠ recvd then .sys5 (.release (-status))
        else .sys5 (.store i ((status >>> 8).setWidth 8))))

variable {s t : Support n}

/-- The next statement of `test` is one of those listed. -/
theorem testStep_view (h : s.testStep = some t) : Step s .test t := by
  unfold testStep at h
  split at h
  case h_1 i hpc =>
    split at h
    case isTrue hi => cases h; exact .testInit hpc hi
    case isFalse hi => cases h; exact .testInitDone hpc (not_lt.mp hi)
  case h_2 hpc => cases h; exact .testCreate hpc
  case h_3 hpc => cases h; exact .testWait hpc
  case h_4 hpc =>
    split at h
    case isTrue => cases h
    case isFalse hb => cases h; exact .testTerm hpc hb
  case h_5 => cases h

/-- A memory event is one of those listed. -/
theorem memStep_view {e : VmEvent n} (hb : ∀ q ∈ actor e, ¬ s.blocked q)
    (h : s.memStep e = some t) : Step s (.mem e) t := by
  cases e with
  | load q a p w v =>
      obtain ⟨u, hu, h⟩ := Option.bind_eq_some_iff.mp h
      split at h
      case h_1 hpc => cases h; exact .load (hb q rfl) hpc hu
      case h_2 i hpc =>
        obtain ⟨addr, -, h⟩ := Option.bind_eq_some_iff.mp h
        obtain ⟨x, -, h⟩ := Option.bind_eq_some_iff.mp h
        split at h
        case isTrue => cases h; exact .sys4Load (hb q rfl) hpc hu
        case isFalse => cases h
      case h_3 => cases h
  | store q a p w v =>
      obtain ⟨u, hu, h⟩ := Option.bind_eq_some_iff.mp h
      split at h
      case h_1 hpc => cases h; exact .store (hb q rfl) hpc hu
      case h_2 i c hpc =>
        obtain ⟨addr, -, h⟩ := Option.bind_eq_some_iff.mp h
        obtain ⟨x, -, h⟩ := Option.bind_eq_some_iff.mp h
        split at h
        case isTrue => cases h; exact .sys5Store (hb q rfl) hpc hu
        case isFalse => cases h
      case h_3 => cases h
  | refill q entryHi slot =>
      rw [memStep] at h
      split at h
      case isTrue =>
        obtain ⟨u, hu, rfl⟩ := Option.map_eq_some_iff.mp h
        exact .refill (hb q rfl) hu
      case isFalse => cases h
  | fault q entryHi cause =>
      rw [memStep] at h
      split at h
      case isTrue hp =>
        obtain ⟨u, hu, rfl⟩ := Option.map_eq_some_iff.mp h
        obtain ⟨p, -, hp⟩ := hp
        exact .fault (hb q rfl) hp hu
      case isFalse => cases h
  | pager q =>
      obtain ⟨u, hu, rfl⟩ := Option.map_eq_some_iff.mp h
      exact .pager (hb q rfl) hu
  | flashDone q status junk =>
      obtain ⟨u, hu, rfl⟩ := Option.map_eq_some_iff.mp h
      exact .flashDone hu
  | _ => cases h

/-- The next statement of the general handler is one of those listed. -/
theorem handlerStep_view {q : Pid} {a : Asid} (hb : ¬ s.blocked q)
    (hq : s.vm.proc q = some ⟨a, .run⟩) (h : s.handlerStep q a (s.pc q) = some t) :
    Step s (.handler q) t := by
  cases hpc : s.pc q with
  | handler =>
      rw [hpc, handlerStep] at h
      split at h
      case h_1 a0 hg => cases h; exact .doom hb hq hpc (by rw [hg])
      case h_2 g a0 hne hg =>
        cases h
        have := Step.dispatch hb hq hpc (by rw [hg]; exact hne)
        rwa [hg] at this
  | sys4 pc =>
      rw [hpc] at h
      cases pc with
      | acquire => cases h; exact .sys4Acquire hb hq hpc
      | command i c => cases h; exact .sys4Command hb hq hpc
      | release a0 => cases h; exact .sys4Release hb hq hpc
      | _ => cases h
  | sys5 pc =>
      rw [hpc] at h
      cases pc with
      | acquire => cases h; exact .sys5Acquire hb hq hpc
      | command i => cases h; exact .sys5Command hb hq hpc
      | release a0 => cases h; exact .sys5Release hb hq hpc
      | _ => cases h
  | sys6 pc =>
      rw [hpc] at h
      cases pc with
      | init asid i =>
          rw [handlerStep, sys6Step] at h
          split at h
          case isTrue hi => cases h; exact .sys6Init hb hq hpc hi
          case isFalse hi => cases h; exact .sys6InitDone hb hq hpc (not_lt.mp hi)
      | create asid => cases h; exact .sys6Create hb hq hpc
      | wait => cases h; exact .sys6Wait hb hq hpc
  | ldst => rw [hpc] at h; cases h; exact .ldst hb hq hpc
  | _ => rw [hpc] at h; cases h

/-- **What a step can do.** -/
theorem step_view {e : SupportEvent n} (h : s.step e = some t) : Step s e t := by
  cases e with
  | test => exact testStep_view h
  | mem e =>
      rw [step] at h
      split at h
      case isTrue => cases h
      case isFalse hb => exact memStep_view (fun q hq hbl => hb ⟨q, hq, hbl⟩) h
  | ecall q a0 a1 a2 =>
      rw [step] at h
      split at h
      case h_1 a hq hpc => cases h; exact .ecall hq hpc
      case h_2 => cases h
  | trap q cause =>
      rw [step] at h
      split at h
      case h_1 a hq hpc =>
        split at h
        case isTrue => cases h
        case isFalse => cases h; exact .trap hq hpc
      case h_2 => cases h
  | handler q =>
      rw [step] at h
      split at h
      case isTrue => cases h
      case isFalse hb =>
        split at h
        case h_1 a hq hpc => cases h; exact .signal hb hq hpc
        case h_2 pr hq hpc => cases h; exact .term hb hq hpc
        case h_3 a hq _ => exact handlerStep_view hb hq h
        case h_4 => cases h
  | noPcb q =>
      rw [step] at h
      split at h
      case isTrue => cases h
      case isFalse hb =>
        split at h
        case h_1 a asid hq hpc => cases h; exact .noPcb hb hq hpc
        case h_2 => cases h
  | termDone q status =>
      rw [step] at h
      split at h
      case h_1 a hq =>
        rw [termDone] at h
        split at h
        case h_1 i hpc => cases h; exact .sys4Done hq hpc
        case h_2 i hpc => cases h; exact .sys5Done hq hpc
        case h_3 => cases h
      case h_2 => cases h

/-- The step of the pager machine a step makes, if it makes one and removes no process. -/
def vmEvent (s : Support n) : SupportEvent n → Option (VmEvent n)
  | .test =>
      match s.testPc with
      | .init i => if h : i < maxPages then some (.initPte (.shell, ⟨i, h⟩)) else none
      | .create => some (.create .shell)
      | _ => none
  | .mem e => some e
  | .handler q =>
      match s.vm.proc q, s.pc q with
      | some ⟨a, .run⟩, .handler =>
          if (supportGeneralExHandler a (s.saved a)).1 = .signal then some (.die q) else none
      | some ⟨_, .run⟩, .sys6 (.init asid i) =>
          if h : i < maxPages then some (.initPte (asid, ⟨i, h⟩)) else none
      | some ⟨_, .run⟩, .sys6 (.create asid) => some (.create asid)
      | _, _ => none
  | _ => none

/-- Apart from `mem` events, only an entry written, a creation or a death is a step of the pager
machine. -/
theorem vmEvent_some {e : SupportEvent n} {f : VmEvent n} (h : s.vmEvent e = some f) :
    e = .mem f ∨ (∃ r, f = .initPte r) ∨ (∃ a, f = .create a) ∨ ∃ q, f = .die q := by
  cases e with
  | mem e => cases h; exact .inl rfl
  | test =>
      rw [vmEvent] at h
      split at h
      · split at h
        · cases h; exact .inr (.inl ⟨_, rfl⟩)
        · cases h
      · cases h; exact .inr (.inr (.inl ⟨_, rfl⟩))
      · cases h
  | handler q =>
      rw [vmEvent] at h
      split at h
      · split at h
        · cases h; exact .inr (.inr (.inr ⟨_, rfl⟩))
        · cases h
      · split at h
        · cases h; exact .inr (.inl ⟨_, rfl⟩)
        · cases h
      · cases h; exact .inr (.inr (.inl ⟨_, rfl⟩))
      · cases h
  | _ => cases h

end PandOS.Support
