import PandOS.Phase3.Deadlock
import PandOS.Phase3.Transparency

/-!
# Phase 3 — what a U-proc does in the Support Level

`actsOf q` keeps, beside a run, what the process `q` does: its system calls, and the pages it makes
valid.  Three things may be said of a process that has entered the Support Level, whatever the
others do from then on.

* `Support.Served`: its next statement is the one of its service (`Served.handler`).
* `Support.Dies`: it does one `V`, on the semaphore its ASID signals, and then `TERMPROCESS`, and
  nothing else.  So does whoever is on its way out (`Leaving.dies`).
* `Support.Loads`: it does what the pager does for one page, as long as the flash devices do not
  fail.  So does whoever is at the first statement of the pager (`Loads.enter`).

`Support.Sane` is what all of them need of the state, and holds on every run.
-/

namespace PandOS

variable {n : ℕ}

/-- What `flashIO` does. -/
def flashScript (d : Asid) (b : PageNo) (k : FrameNo) (rw : Word) : List SupportAct :=
  [.passeren (.flash d), .flash d b k rw, .verhogen (.flash d)]

/-- What the pager does with the page in the frame it takes. -/
def evictScript (k : FrameNo) : Option Swap → List SupportAct
  | none => []
  | some old => flashScript old.sw_asid old.sw_pageNo k flashWrite

/-- What the pager of ASID `a` does for page `p`: it takes the frame `k`, which holds the page `old`
names, and brings the page in. -/
def pagerScript (a : Asid) (p : PageNo) (k : FrameNo) (old : Option Swap) : List SupportAct :=
  .passeren .swapPool :: (evictScript k old ++ flashScript a p k flashRead ++
    [.map (a, p) k, .verhogen .swapPool])

/-- What a U-proc of ASID `a` does on its way out. -/
def exitScript (a : Asid) : List SupportAct := [.verhogen a.signals, .termProcess]

namespace Support

variable {s t s₁ : Support n} {e : SupportEvent n} {es : List (SupportEvent n)} {q : Pid} {a : Asid}
  {p : PageNo} {l : List SupportAct}

/-- What `q` has done, after a step. -/
def actsOf (q : Pid) (s : Support n) (e : SupportEvent n) (_ : Support n) (l : List SupportAct) :
    List SupportAct :=
  match s.act e with
  | some (i, x) => if i = q then l ++ [x] else l
  | none => l

/-- The steps of the others. -/
def Others (q : Pid) (_ : Support n) (e : SupportEvent n) : Prop := e.subject ≠ some q

/-- Whatever the others do, the next statement of `q`, of ASID `a`, is `r.1`, and `r.2` is its
`reg_a0` then. -/
def Served (s₁ : Support n) (q : Pid) (a : Asid) (r : GenPc × Word) : Prop :=
  ∀ es t, Run step (Others q) s₁ es t → ∃ u, t.step (.handler q) = some u ∧ u.pc q = r.1 ∧
    (u.saved a).reg_a0 = r.2

/-- Whatever the others do, `q` has done a part of `exitScript`, and while it lives its next
statements do the rest. -/
def Dies (s₁ : Support n) (q : Pid) (a : Asid) : Prop :=
  ∀ es t l, Run (record step (actsOf q)) anyStep (s₁, []) es (t, l) →
    l <+: exitScript a ∧ (t.vm.proc q ≠ none → ∃ k u,
      Run (record step (actsOf q)) anyStep (t, l) (List.replicate k (.handler q))
        (u, exitScript a) ∧ u.vm.proc q = none)

/-- The flash commands of `q` do not fail. -/
def FlashOk (q : Pid) (_ : Support n × List SupportAct) (e : SupportEvent n) : Prop :=
  ∀ status junk, e = .mem (.flashDone q status junk) → status = flashReady

/-- The pager has brought page `p` in, before anything else. -/
def Loaded (a : Asid) (p : PageNo) (l : List SupportAct) : Prop :=
  ∃ k old, pagerScript a p k old <+: l

/-- Whatever the others do, `q` has done all of `pagerScript`, or it has done a part and is in the
pager, and left alone it goes on until it has done the rest or has to wait. -/
def Loads (s₁ : Support n) (q : Pid) (a : Asid) (p : PageNo) : Prop :=
  ∀ es t l, Run (record step (actsOf q)) (FlashOk q) (s₁, []) es (t, l) → Loaded a p l ∨
    (∃ k old, l <+: pagerScript a p k old) ∧ (∃ pc, t.vm.proc q = some ⟨a, .pager p pc⟩) ∧
      ∃ fs u m, Run (record step (actsOf q)) (FlashOk q) (t, l) fs (u, m) ∧
        (∀ e ∈ fs, e.subject = some q) ∧ (Loaded a p m ∨ u.blocked q)

/-! ### The others -/

theorem foldl_remove_saved (l : List Pid) (s : Support n) : (l.foldl remove s).saved = s.saved := by
  induction l generalizing s with
  | nil => rfl
  | cons i l ih => rw [List.foldl_cons, ih]; rfl

/-- A step of another process leaves a process alone that is not past its `V`. -/
theorem Good.frame (hg : s.Good) (hp : s.Parked) (h : Step s e t) (hq : s.vm.proc q ≠ none)
    (hpc : s.pc q ≠ .term) (he : e.subject ≠ some q) :
    t.vm.proc q = s.vm.proc q ∧ t.pc q = s.pc q := by
  cases hp.moves h with
  | plain frame => exact frame q (hp.lt hq) he
  | terminates i ha ht hi =>
      obtain ⟨tp, rfl⟩ := ht
      have hno : q ∉ s.progeny i := by
        intro hm
        have hterm : ∃ b, s.stageOf q = some (b, .term) := by
          rcases hi with ⟨hpi, hb, hi, -⟩ | ⟨rfl, htp, hb⟩
          · obtain ⟨pr, hpr⟩ := Option.ne_none_iff_exists'.mp hi
            exact hg.sync.victims (by rw [stageOf_some hpr, hpi]; rfl) hb hm
          · exact hg.sync.victims_test htp hb hm
        obtain ⟨b, hb⟩ := hterm
        obtain ⟨pr, -, hst⟩ := Option.map_eq_some_iff.mp hb
        exact hpc (GenPc.eq_term (congrArg Prod.snd hst))
      obtain ⟨hpc', -, -, -, -, -, hv⟩ := foldl_remove (s.progeny i) s
      refine ⟨?_, congrFun hpc' q⟩
      show (s.terminate i).vm.proc q = _
      rw [Support.terminate, hv, if_neg hno]

/-- It leaves what was saved for the process alone, too. -/
theorem Good.saved {c : Ctl} (hg : s.Good) (h : Step s e t) (hq : s.vm.proc q = some ⟨a, c⟩)
    (hc : c ≠ .dying) (he : e.subject ≠ some q) : t.saved a = s.saved a := by
  have other : ∀ {i : Pid} {b : Asid} {sv : Saved}, e.subject = some i →
      s.vm.proc i = some ⟨b, .run⟩ → Function.update s.saved b sv a = s.saved a := by
    intro i b sv hi hb
    refine Function.update_of_ne (fun hab => he ?_) ..
    subst hab
    rw [hi, hg.iso.excl.asid i q a _ _ hb hq (by simp) hc]
  have vm : ∀ {i : Pid} {u : VM n}, (s.withVm i u).saved = s.saved := by
    intro i u
    unfold withVm
    split <;> rfl
  cases h with
  | fault | pager => rw [vm]
  | ecall hi => exact other rfl hi
  | trap hi => exact other rfl hi
  | dispatch _ hi => exact other rfl hi
  | sys4Release _ hi => exact other rfl hi
  | sys5Release _ hi => exact other rfl hi
  | testTerm => exact congrFun (foldl_remove_saved _ s) a
  | term => exact congrFun (foldl_remove_saved _ s) a
  | @signal i b =>
      show (s.signal b).saved a = _
      unfold Support.signal
      split <;> rfl
  | _ => rfl

/-- What another process does is not noted. -/
theorem actsOf_other (h : Step s e t) (h0 : q ≠ 0) (he : e.subject ≠ some q) :
    actsOf q s e t l = l := by
  unfold actsOf
  split
  case h_1 i x ha =>
    refine if_neg fun hi => ?_
    subst hi
    exact (act_subject h ha).elim he h0
  case h_2 => rfl

theorem actsOf_self {x : SupportAct} (ha : s.act e = some (q, x)) :
    actsOf q s e t l = l ++ [x] := by
  rw [actsOf, ha]
  exact if_pos rfl

theorem actsOf_none (ha : s.act e = none) : actsOf q s e t l = l := by
  rw [actsOf, ha]

/-! ### On the way out -/

/-- How far a U-proc that is to terminate has come. -/
inductive Leaving (q : Pid) (a : Asid) (s : Support n) (l : List SupportAct) : Prop where
  | handler (hq : s.vm.proc q = some ⟨a, .run⟩) (hpc : s.pc q = .handler)
      (hg : (supportGeneralExHandler a (s.saved a)).1 = .signal) (hl : l = [])
  | signal (hq : s.vm.proc q = some ⟨a, .dying⟩) (hpc : s.pc q = .signal) (hl : l = [])
  | term (hq : s.vm.proc q = some ⟨a, .dying⟩) (hpc : s.pc q = .term)
      (hl : l = [.verhogen a.signals])
  | gone (hq : s.vm.proc q = none) (hlt : q < s.vm.nextPid) (h0 : q ≠ 0)
      (hl : l <+: exitScript a)

theorem Leaving.prefix_script (h : Leaving q a s l) : l <+: exitScript a := by
  cases h with
  | handler _ _ _ hl => rw [hl]; exact List.nil_prefix
  | signal _ _ hl => rw [hl]; exact List.nil_prefix
  | term _ _ hl => rw [hl]; exact ⟨[.termProcess], rfl⟩
  | gone _ _ _ hl => exact hl

theorem step_handler (hb : ¬ s.blocked q) (hq : s.vm.proc q = some ⟨a, .run⟩)
    (hpc : s.pc q ≠ .term) : s.step (.handler q) = s.handlerStep q a (s.pc q) := by
  rw [Support.step, if_neg hb, hq]
  split
  case h_1 hi _ => cases hi
  case h_2 hg => exact absurd hg hpc
  case h_3 hi _ => cases hi; rfl
  case h_4 h _ _ => exact (h a rfl).elim

/-- What a process can do in its handler, before its `V` and outside the pager. -/
inductive Handling (q : Pid) (a : Asid) (s : Support n) (e : SupportEvent n) (t : Support n) :
    Prop where
  | load {i : ℕ} {b : Asid} {p : PageNo} {w : Fin (pageSize / wordLen)} {v : Word}
      (he : e = .mem (.load q b p w v)) (hg : s.pc q = .sys4 (.load i))
  | store {i : ℕ} {c : BitVec 8} {b : Asid} {p : PageNo} {w : Fin (pageSize / wordLen)} {v : Word}
      (he : e = .mem (.store q b p w v)) (hg : s.pc q = .sys5 (.store i c))
  | refill {entryHi : Word} {slot : Fin n} {u : VM n} (he : e = .mem (.refill q entryHi slot))
      (hg : GenPc.touching (s.pc q)) (hu : u.proc = s.vm.proc) (ht : t = { s with vm := u })
  | fault {entryHi cause : Word} {u : VM n} {c : Ctl} (he : e = .mem (.fault q entryHi cause))
      (hg : GenPc.touching (s.pc q)) (hu : u.proc q = some ⟨a, c⟩) (ht : t = s.withVm q u)
  | handler (he : e = .handler q) (ht : s.handlerStep q a (s.pc q) = some t)
  | noPcb {asid : Asid} (he : e = .noPcb q) (hg : s.pc q = .sys6 (.create asid))
      (ht : t = s.setPc q (.sys6 .wait))
  | termDone {status : Word} (he : e = .termDone q status) (ht : s.termDone q a status = some t)

/-- What a step of a process inside the general handler does to it. -/
theorem handling (hs : s.step e = some t) (he : e.subject = some q)
    (hq : s.vm.proc q = some ⟨a, .run⟩) (hu : s.pc q ≠ .user) (hx : s.pc q ≠ .term) :
    Handling q a s e t := by
  cases e with
  | test => cases he
  | mem f =>
      cases f with
      | load =>
          cases he
          cases step_view hs with
          | load _ hg => exact absurd hg hu
          | sys4Load _ hg => exact .load rfl hg
      | store =>
          cases he
          cases step_view hs with
          | store _ hg => exact absurd hg hu
          | sys5Store _ hg => exact .store rfl hg
      | refill =>
          cases he
          rw [Support.step] at hs
          split at hs
          · cases hs
          rw [memStep] at hs
          split at hs
          case isFalse => cases hs
          case isTrue hm =>
            obtain ⟨p, -, hm⟩ := hm
            obtain ⟨u, hv, rfl⟩ := Option.map_eq_some_iff.mp hs
            refine .refill rfl (mayTouch_touching hm) ?_ rfl
            cases VM.step_view hv with
            | refill => rfl
      | fault =>
          cases he
          cases step_view hs with
          | fault _ hm hv =>
              cases VM.step_view hv with
              | faultMod hi =>
                  rw [hq] at hi
                  cases hi
                  exact .fault rfl (mayTouch_touching hm) (Function.update_self ..) rfl
              | fault hi =>
                  rw [hq] at hi
                  cases hi
                  exact .fault rfl (mayTouch_touching hm) (Function.update_self ..) rfl
      | pager =>
          cases he
          cases step_view hs with
          | pager _ hv =>
              cases VM.step_view hv with
              | pager hi => rw [hq] at hi; cases hi
      | flashDone =>
          cases he
          cases step_view hs with
          | flashDone hv =>
              cases VM.step_view hv with
              | flashDone _ hi => rw [hq] at hi; cases hi
      | _ => cases step_view hs
  | ecall =>
      cases he
      cases step_view hs with
      | ecall _ hg => exact absurd hg hu
  | trap =>
      cases he
      cases step_view hs with
      | trap _ hg => exact absurd hg hu
  | handler =>
      cases he
      by_cases hb : s.blocked q
      · rw [Support.step, if_pos hb] at hs
        cases hs
      · exact .handler rfl ((step_handler hb hq hx).symm.trans hs)
  | noPcb =>
      cases he
      cases step_view hs with
      | noPcb _ _ hg => exact .noPcb rfl hg rfl
  | termDone =>
      cases he
      rw [Support.step, hq] at hs
      exact .termDone rfl hs

/-- At the first statement of its handler it does that statement. -/
theorem of_handler (hs : s.step e = some t) (he : e.subject = some q)
    (hq : s.vm.proc q = some ⟨a, .run⟩) (hpc : s.pc q = .handler) :
    e = .handler q ∧ ((supportGeneralExHandler a (s.saved a)).1 = .signal ∧
        t = { s with vm := s.vm.goto q a .dying }.setPc q .signal ∨
      (supportGeneralExHandler a (s.saved a)).1 ≠ .signal ∧
        t = (s.setA0 a (supportGeneralExHandler a (s.saved a)).2).setPc q
          (supportGeneralExHandler a (s.saved a)).1) := by
  cases handling hs he hq (by rw [hpc]; simp) (by rw [hpc]; simp) with
  | load _ hg | store _ hg | noPcb _ hg => rw [hpc] at hg; cases hg
  | refill _ hg | fault _ hg => rw [hpc] at hg; exact hg.elim
  | termDone _ ht => rw [Support.termDone, hpc] at ht; cases ht
  | handler he' ht =>
      refine ⟨he', ?_⟩
      rw [hpc, handlerStep] at ht
      split at ht
      case h_1 a0 hg =>
        cases ht
        exact .inl ⟨by rw [hg], rfl⟩
      case h_2 g a0 hne hg =>
        cases ht
        refine .inr ⟨?_, by rw [hg]⟩
        rw [hg]
        exact fun h => hne h

/-- A process on its way out stays so. -/
theorem Leaving.step (h : Leaving q a s l) (hg : s.Good) (hp : s.Parked)
    (hstep : s.step e = some t) : Leaving q a t (actsOf q s e t l) := by
  have hs := step_view hstep
  have live : ∀ {pr : Proc}, s.vm.proc q = some pr → s.vm.proc q ≠ none :=
    fun hq => by rw [hq]; simp
  have user : ∀ {pr : Proc}, s.vm.proc q = some pr → q ≠ 0 := by
    rintro pr hq rfl
    exact live hq hp.test
  by_cases he : e.subject = some q
  · cases h with
    | handler hq hpc hgo hl =>
        obtain ⟨rfl, ⟨-, rfl⟩ | ⟨hne, -⟩⟩ := of_handler hstep he hq hpc
        · rw [actsOf_none (by rw [act_handler hq hpc]; rfl)]
          exact .signal (Function.update_self ..) (Function.update_self ..) hl
        · exact absurd hgo hne
    | signal hq hpc hl =>
        cases hs.mover he with
        | run hi => rw [hq] at hi; cases hi
        | pager hi => rw [hq] at hi; cases hi
        | device _ hi => rw [hq] at hi; cases hi
        | signal hi hev _ ht =>
            rw [hq] at hi
            cases hi
            rw [actsOf_self (by rw [hev, act_handler hq hpc]; rfl), hl]
            subst ht
            refine .term ?_ (Function.update_self ..) rfl
            exact (congrFun (congrArg VM.proc (signal_vm (s := s)).1) q).trans hq
        | term _ _ hx => rw [hpc] at hx; cases hx
    | term hq hpc hl =>
        cases hs.mover he with
        | run hi => rw [hq] at hi; cases hi
        | pager hi => rw [hq] at hi; cases hi
        | device _ hi => rw [hq] at hi; cases hi
        | signal _ _ hx => rw [hpc] at hx; cases hx
        | term hi hev _ ht =>
            rw [actsOf_self (by rw [hev, act_handler hq hpc]; rfl), hl]
            subst ht
            have hlt := hp.lt (live hq)
            refine .gone (terminate_self hq hlt) ?_ (user hq) (List.prefix_refl _)
            exact (foldl_remove (s.progeny q) s).2.2.2.1 ▸ hlt
    | gone hq => exact absurd hq (hs.mover he).live
  · cases h with
    | handler hq hpc hgo hl =>
        rw [actsOf_other hs (user hq) he]
        obtain ⟨hv, hpc'⟩ := hg.frame hp hs (live hq) (by rw [hpc]; simp) he
        exact .handler (hv.trans hq) (hpc'.trans hpc) (by rw [hg.saved hs hq (by simp) he]; exact hgo) hl
    | signal hq hpc hl =>
        rw [actsOf_other hs (user hq) he]
        obtain ⟨hv, hpc'⟩ := hg.frame hp hs (live hq) (by rw [hpc]; simp) he
        exact .signal (hv.trans hq) (hpc'.trans hpc) hl
    | term hq hpc hl =>
        -- past its `V` it may be taken away with the process above it
        rw [actsOf_other hs (user hq) he]
        have hlt := hp.lt (live hq)
        cases hp.moves hs with
        | plain frame =>
            obtain ⟨hv, hpc'⟩ := frame q hlt he
            exact .term (hv.trans hq) (hpc'.trans hpc) hl
        | terminates i ha ht hi =>
            obtain ⟨tp, rfl⟩ := ht
            obtain ⟨hpc', -, -, hn, -, -, hv⟩ := foldl_remove (s.progeny i) s
            have hv' := hv q
            by_cases hq' : q ∈ s.progeny i
            · rw [if_pos hq'] at hv'
              exact .gone hv' (hn ▸ hlt) (user hq) ⟨[.termProcess], by rw [hl]; rfl⟩
            · rw [if_neg hq'] at hv'
              exact .term (hv'.trans hq) ((congrFun hpc' q).trans hpc) hl
    | gone hq hlt h0 hl =>
        rw [actsOf_other hs h0 he]
        cases hp.moves hs with
        | plain frame dead next => exact .gone (dead q hlt hq) (hlt.trans_le next) h0 hl
        | terminates i ha ht hi =>
            obtain ⟨tp, rfl⟩ := ht
            obtain ⟨-, -, -, hn, -, -, hv⟩ := foldl_remove (s.progeny i) s
            have hv' := hv q
            rw [hq, ite_self] at hv'
            exact .gone hv' (hn ▸ hlt) h0 hl

/-- What every run keeps. -/
structure Sane (s : Support n) : Prop where
  good : s.Good
  parked : s.Parked
  copied : s.vm.Copied

theorem Sane.step (h : s.Sane) (hs : Step s e t) : t.Sane where
  good := h.good.step hs
  parked := h.parked.step hs
  copied := ((h.good.under hs).lift (J := fun u => u.Iso ∧ u.Copied) (C := anyStep)
    (fun _ _ _ hu _ hf => ⟨hu.1.step hf, hu.2.step hu.1 hf⟩) (fun _ _ => trivial)
    ⟨h.good.iso, h.copied⟩ fun _ _ => trivial).2

theorem Sane.boot (flash : PageId → Page) (frame : FrameNo → Page) (reg : Asid → FlashReg) :
    (Support.boot flash frame reg : Support n).Sane :=
  ⟨.boot flash frame reg, (Calm.boot flash frame reg).parked, by rintro _ _ _ _ ⟨⟩⟩

theorem Sane.reach {C : Support n → SupportEvent n → Prop} (h : s.Sane)
    (hr : Run Support.step C s es t) : t.Sane :=
  hr.inv h fun _ _ _ hu _ hs => hu.step (step_view hs)

/-- Who is in the handler keeps its place and its registers while others take steps. -/
theorem Sane.keeps {c : Ctl} {g : GenPc} (hg : s.Sane) (hs : Step s e t) (he : e.subject ≠ some q)
    (hq : s.vm.proc q = some ⟨a, c⟩) (hc : c ≠ .dying) (hpc : s.pc q = g) (hne : g ≠ .term) :
    t.vm.proc q = some ⟨a, c⟩ ∧ t.pc q = g ∧ t.saved a = s.saved a := by
  obtain ⟨hv, hp⟩ := hg.good.frame hg.parked hs (by rw [hq]; simp) (hpc ▸ hne) he
  exact ⟨hv.trans hq, hp.trans hpc, hg.good.saved hs hq hc he⟩

/-- What is saved for a U-proc plays no part in this. -/
theorem Sane.setSaved (h : s.Sane) (sv : Saved) : (s.setSaved a sv).Sane where
  good :=
    { iso := h.good.iso
      flash := h.good.flash
      sync := h.good.sync.move (.same rfl ⟨rfl, rfl, rfl, rfl, rfl⟩)
      placed := h.good.placed
      dying := h.good.dying
      built := ⟨h.good.built.exec, h.good.built.test⟩ }
  parked := ⟨h.parked.pos, h.parked.test, h.parked.fresh, h.parked.nodup, h.parked.place⟩
  copied := h.copied

theorem Parked.free (h : s.Parked) (hq : s.vm.proc q ≠ none) (hw : s.awaited q = none) :
    ¬ s.blocked q := by
  intro hb
  obtain ⟨m, hm⟩ := blocked_iff.mp hb
  rcases h.place m q hm with hw' | ⟨-, rfl, -⟩
  · rw [hw] at hw'
    cases hw'
  · exact hq h.test

theorem step_doom (hb : ¬ s.blocked q) (hq : s.vm.proc q = some ⟨a, .run⟩)
    (hpc : s.pc q = .handler) (hg : (supportGeneralExHandler a (s.saved a)).1 = .signal) :
    s.step (.handler q) = some ({ s with vm := s.vm.goto q a .dying }.setPc q .signal) := by
  rw [Support.step, if_neg hb, hq, hpc]
  dsimp only [handlerStep]
  split
  case h_1 => rfl
  case h_2 g a0 hne he => exact absurd (by rw [← hg, he]) hne

theorem step_dispatch (hb : ¬ s.blocked q) (hq : s.vm.proc q = some ⟨a, .run⟩)
    (hpc : s.pc q = .handler) (hg : (supportGeneralExHandler a (s.saved a)).1 ≠ .signal) :
    s.step (.handler q) = some ((s.setA0 a (supportGeneralExHandler a (s.saved a)).2).setPc q
      (supportGeneralExHandler a (s.saved a)).1) := by
  rw [Support.step, if_neg hb, hq, hpc]
  dsimp only [handlerStep]
  split
  case h_1 a0 he => exact absurd (by rw [he]) hg
  case h_2 g a0 hne he => rw [he]

theorem step_signal (hb : ¬ s.blocked q) (hq : s.vm.proc q = some ⟨a, .dying⟩)
    (hpc : s.pc q = .signal) : s.step (.handler q) = some ((s.signal a).setPc q .term) := by
  rw [Support.step, if_neg hb, hq, hpc]

theorem step_term {pr : Proc} (hb : ¬ s.blocked q) (hq : s.vm.proc q = some pr)
    (hpc : s.pc q = .term) : s.step (.handler q) = some (s.terminate q) := by
  rw [Support.step, if_neg hb, hq, hpc]
  obtain ⟨b, c | _ | _⟩ := pr <;> rfl

/-- Nothing keeps a U-proc that is on its way out. -/
theorem Leaving.finish (h : Leaving q a s l) (hg : s.Sane) (hq : s.vm.proc q ≠ none) :
    ∃ k u, Run (record Support.step (actsOf q)) anyStep (s, l) (List.replicate k (.handler q))
      (u, exitScript a) ∧ u.vm.proc q = none := by
  -- from `TERMPROCESS` on
  have term : ∀ {s : Support n}, s.Sane → s.vm.proc q = some ⟨a, .dying⟩ → s.pc q = .term →
      ∃ k u, Run (record Support.step (actsOf q)) anyStep (s, [.verhogen a.signals])
        (List.replicate k (.handler q)) (u, exitScript a) ∧ u.vm.proc q = none := by
    intro s hg hq hpc
    have hb := hg.parked.free (by rw [hq]; simp) (by rw [awaited, hq])
    have hst := step_term hb hq hpc
    have ha : actsOf q s (.handler q) (s.terminate q) [.verhogen a.signals] = exitScript a :=
      actsOf_self (by rw [act_handler hq hpc]; rfl)
    refine ⟨1, s.terminate q, .one trivial ?_, ?_⟩
    · rw [← ha]
      exact record_of hst
    · exact terminate_self hq (hg.parked.lt (by rw [hq]; simp))
  -- from the `V` on
  have signal : ∀ {s : Support n}, s.Sane → s.vm.proc q = some ⟨a, .dying⟩ → s.pc q = .signal →
      ∃ k u, Run (record Support.step (actsOf q)) anyStep (s, [])
        (List.replicate k (.handler q)) (u, exitScript a) ∧ u.vm.proc q = none := by
    intro s hg hq hpc
    have hb := hg.parked.free (by rw [hq]; simp) (by rw [awaited, hq])
    have hst := step_signal hb hq hpc
    have ha : actsOf q s (.handler q) ((s.signal a).setPc q .term) [] = [.verhogen a.signals] :=
      actsOf_self (by rw [act_handler hq hpc]; rfl)
    obtain ⟨k, u, hr, hu⟩ := term (hg.step (step_view hst))
      ((congrFun (congrArg VM.proc (signal_vm (s := s)).1) q).trans hq) (Function.update_self ..)
    refine ⟨k + 1, u, ?_, hu⟩
    rw [List.replicate_succ]
    refine .cons trivial (record_of hst) ?_
    rw [ha]
    exact hr
  cases h with
  | handler hq hpc hgo hl =>
      have hb := hg.parked.free (by rw [hq]; simp) (by rw [awaited_run hq, hpc]; rfl)
      have hst := step_doom hb hq hpc hgo
      obtain ⟨k, u, hr, hu⟩ := signal (hg.step (step_view hst)) (Function.update_self ..)
        (Function.update_self ..)
      refine ⟨k + 1, u, ?_, hu⟩
      rw [List.replicate_succ]
      refine .cons trivial (record_of hst) ?_
      rw [actsOf_none (by rw [act_handler hq hpc]; rfl), hl]
      exact hr
  | signal hq hpc hl => rw [hl]; exact signal hg hq hpc
  | term hq hpc hl => rw [hl]; exact term hg hq hpc
  | gone hd => exact absurd hd hq

theorem Leaving.dies (h : Leaving q a s₁ []) (hg : s₁.Sane) : s₁.Dies q a := by
  intro es t l hr
  have hinv : t.Sane ∧ Leaving q a t l := by
    refine hr.inv (I := fun x => x.1.Sane ∧ Leaving q a x.1 x.2) ⟨hg, h⟩ ?_
    rintro x e y ⟨hx, hl⟩ - hy
    obtain ⟨hst, hnote⟩ := record_eq_some hy
    rw [hnote]
    exact ⟨hx.step (step_view hst), hl.step hx.good hx.parked hst⟩
  exact ⟨hinv.2.prefix_script, fun hq => hinv.2.finish hinv.1 hq⟩

/-! ### In a service -/

/-- What is returned where the handler gives up is what was there. -/
theorem supportGeneralExHandler_signal {sv : Saved}
    (h : (supportGeneralExHandler a sv).1 = .signal) :
    (supportGeneralExHandler a sv).2 = sv.reg_a0 := by
  unfold supportGeneralExHandler syscallHandler at h ⊢
  split_ifs at h ⊢
  · rfl
  · rfl
  · rfl
  · unfold sys6_execute at h ⊢
    split_ifs at h ⊢
    · rfl
    · split at h
      · cases h
      · cases h
  · rfl
  · rfl

/-- At the entry of the handler, the service of the saved registers is next. -/
theorem Served.handler (hg : s₁.Sane) (hq : s₁.vm.proc q = some ⟨a, .run⟩)
    (hpc : s₁.pc q = .handler) : s₁.Served q a (supportGeneralExHandler a (s₁.saved a)) := by
  intro es t hr
  have hinv : t.Sane ∧ t.vm.proc q = some ⟨a, .run⟩ ∧ t.pc q = .handler ∧
      t.saved a = s₁.saved a := by
    refine hr.inv (I := fun u => u.Sane ∧ u.vm.proc q = some ⟨a, .run⟩ ∧ u.pc q = .handler ∧
      u.saved a = s₁.saved a) ⟨hg, hq, hpc, rfl⟩ ?_
    rintro u e v ⟨hu, hq, hpc, hsv⟩ he hs
    have hst := step_view hs
    obtain ⟨hv, hp⟩ := hu.good.frame hu.parked hst (by rw [hq]; simp) (by rw [hpc]; simp) he
    exact ⟨hu.step hst, hv.trans hq, hp.trans hpc, (hu.good.saved hst hq (by simp) he).trans hsv⟩
  obtain ⟨ht, hq, hpc, hsv⟩ := hinv
  have hb := ht.parked.free (by rw [hq]; simp) (by rw [awaited_run hq, hpc]; rfl)
  rw [← hsv]
  by_cases hgo : (supportGeneralExHandler a (t.saved a)).1 = .signal
  · refine ⟨_, step_doom hb hq hpc hgo, ?_, ?_⟩
    · exact (Function.update_self ..).trans hgo.symm
    · exact (supportGeneralExHandler_signal hgo).symm
  · refine ⟨_, step_dispatch hb hq hpc hgo, Function.update_self .., ?_⟩
    exact congrArg Saved.reg_a0 (Function.update_self a { t.saved a with
      reg_a0 := (supportGeneralExHandler a (t.saved a)).2 } t.saved)

/-! ### In the pager -/

end Support

/-- What `flashIO` has done before a statement. -/
def FlashPc.script (d : Asid) (b : PageNo) (k : FrameNo) (rw : Word) : FlashPc → List SupportAct
  | .acquire => []
  | .data0 | .command => [.passeren (.flash d)]
  | .busy | .release _ => [.passeren (.flash d), .flash d b k rw]

/-- How many statements of `flashIO` are left. -/
def FlashPc.left : FlashPc → ℕ
  | .acquire => 5
  | .data0 => 4
  | .command => 3
  | .busy => 2
  | .release _ => 1

/-- `l` is what the pager of ASID `a` for page `p` has done before a statement, if the flash devices
do not fail. -/
def PagerPc.Script (a : Asid) (p : PageNo) (l : List SupportAct) : PagerPc → Prop
  | .enter => l = []
  | .select | .evict _ | .flush _ _ => l = [.passeren .swapPool]
  | .write k old pc =>
      l = .passeren .swapPool :: pc.script old.sw_asid old.sw_pageNo k flashWrite ∧
        ∀ status, pc = .release status → status = flashReady
  | .read k pc =>
      (∃ old, l = .passeren .swapPool :: (evictScript k old ++ pc.script a p k flashRead)) ∧
        ∀ status, pc = .release status → status = flashReady
  | .record k | .validate k =>
      ∃ old, l = .passeren .swapPool :: (evictScript k old ++ flashScript a p k flashRead)
  | .update _ | .leave =>
      ∃ k old, l = .passeren .swapPool ::
        (evictScript k old ++ flashScript a p k flashRead ++ [.map (a, p) k])
  | .abort => False
  | .ret => ∃ k old, l = pagerScript a p k old

/-- How many statements of the pager are left. -/
def PagerPc.left : PagerPc → ℕ
  | .enter => 18
  | .select => 17
  | .evict _ => 16
  | .flush _ _ => 15
  | .write _ _ pc => 9 + pc.left
  | .read _ pc => 4 + pc.left
  | .record _ => 4
  | .validate _ => 3
  | .update _ => 2
  | .leave | .abort => 1
  | .ret => 0

theorem FlashPc.script_prefix (d : Asid) (b : PageNo) (k : FrameNo) (rw : Word) (pc : FlashPc) :
    pc.script d b k rw <+: flashScript d b k rw := by
  cases pc with
  | acquire => exact List.nil_prefix
  | data0 | command => exact ⟨[.flash d b k rw, .verhogen (.flash d)], rfl⟩
  | busy | release => exact ⟨[.verhogen (.flash d)], rfl⟩

/-- What the pager has done is the start of what a whole run of it does. -/
theorem PagerPc.Script.prefix_script {a : Asid} {p : PageNo} {l : List SupportAct} {pc : PagerPc}
    (h : pc.Script a p l) : ∃ k old, l <+: pagerScript a p k old := by
  cases pc with
  | enter => exact ⟨⟨0, by decide⟩, none, by rw [show l = [] from h]; exact List.nil_prefix⟩
  | select | evict | flush =>
      exact ⟨⟨0, by decide⟩, none, by rw [show l = _ from h]; exact ⟨_, rfl⟩⟩
  | write k old pc =>
      refine ⟨k, some old, ?_⟩
      rw [h.1, pagerScript]
      refine List.cons_prefix_cons.mpr ⟨rfl, (pc.script_prefix _ _ _ _).trans ?_⟩
      exact ⟨_, (List.append_assoc ..).symm⟩
  | read k pc =>
      obtain ⟨⟨old, rfl⟩, -⟩ := h
      refine ⟨k, old, ?_⟩
      refine List.cons_prefix_cons.mpr ⟨rfl, ?_⟩
      refine List.IsPrefix.trans ?_ (List.prefix_append ..)
      exact (List.prefix_append_right_inj _).mpr (pc.script_prefix _ _ _ _)
  | record k | validate k =>
      obtain ⟨old, rfl⟩ := h
      exact ⟨k, old, List.cons_prefix_cons.mpr ⟨rfl, List.prefix_append ..⟩⟩
  | update | leave =>
      obtain ⟨k, old, rfl⟩ := h
      refine ⟨k, old, List.cons_prefix_cons.mpr ⟨rfl, ?_⟩⟩
      exact (List.prefix_append_right_inj _).mpr ⟨[.verhogen .swapPool], rfl⟩
  | abort => exact h.elim
  | ret =>
      obtain ⟨k, old, rfl⟩ := h
      exact ⟨k, old, List.prefix_refl _⟩

namespace VM

variable {s t : VM n} {q : Pid} {a d : Asid} {p b : PageNo} {k : FrameNo} {rw : Word}
  {here : FlashPc → PagerPc} {next : PagerPc} {pc : PagerPc} {l : List SupportAct}

theorem Call.left (c : Call a p d b k rw here next) {x y : FlashPc} (h : y.left < x.left) :
    (here y).left < (here x).left := by
  cases c <;> simp only [PagerPc.left] <;> omega

/-- Within a call of `flashIO`. -/
theorem Call.script (c : Call a p d b k rw here next) {x y : FlashPc} (h : (here x).Script a p l)
    (hs : y.script d b k rw = x.script d b k rw ++ (x.act d b k rw).toList)
    (hr : ∀ status, y = .release status → status = flashReady) :
    (here y).Script a p (l ++ (x.act d b k rw).toList) := by
  cases c with
  | write k old =>
      refine ⟨?_, hr⟩
      rw [h.1, hs]
      rfl
  | read k =>
      obtain ⟨⟨old, rfl⟩, -⟩ := h
      refine ⟨⟨old, ?_⟩, hr⟩
      rw [hs, List.cons_append, List.append_assoc]

/-- A statement of the pager goes on with the script. -/
theorem Stmt.script (hst : Stmt s q a p pc t) (h : pc.Script a p l) (hr : pc ≠ .ret) :
    ∃ pc', t.proc q = some ⟨a, .pager p pc'⟩ ∧ pc'.left < pc.left ∧
      pc'.Script a p (l ++ (pc.act a p).toList) := by
  have self : ∀ {u : VM n} {c : Ctl}, (u.goto q a c).proc q = some ⟨a, c⟩ :=
    fun {u c} => Function.update_self ..
  -- within a call of `flashIO`
  have flash : ∀ {d b k rw} {here : FlashPc → PagerPc} {next : PagerPc} (x y : FlashPc) {u : VM n},
      Call a p d b k rw here next → (here x).Script a p l → y.left < x.left →
      y.script d b k rw = x.script d b k rw ++ (x.act d b k rw).toList →
      (∀ status, y = .release status → status = flashReady) →
      u.proc q = some ⟨a, .pager p (here y)⟩ →
      ∃ pc', u.proc q = some ⟨a, .pager p pc'⟩ ∧ pc'.left < (here x).left ∧
        pc'.Script a p (l ++ ((here x).act a p).toList) := by
    intro d b k rw here next x y u c h hl hs hr hu
    refine ⟨here y, hu, c.left hl, ?_⟩
    rw [c.act]
    exact c.script h hs hr
  cases hst with
  | enter => exact ⟨.select, self, by decide, by rw [show l = [] from h]; rfl⟩
  | select => exact ⟨.evict _, self, by simp [PagerPc.left], by rw [show l = _ from h]; rfl⟩
  | evict => exact ⟨.flush _ _, self, by simp [PagerPc.left], by rw [show l = _ from h]; rfl⟩
  | vacant =>
      refine ⟨.read _ .acquire, self, by simp [PagerPc.left, FlashPc.left], ?_⟩
      exact ⟨⟨none, by rw [show l = _ from h]; rfl⟩, by rintro _ ⟨⟩⟩
  | flush =>
      refine ⟨.write _ _ .acquire, self, by simp [PagerPc.left, FlashPc.left], ?_⟩
      exact ⟨by rw [show l = _ from h]; rfl, by rintro _ ⟨⟩⟩
  | acquire c => exact flash .acquire .data0 c h (by decide) rfl (by rintro _ ⟨⟩) self
  | data0 c => exact flash .data0 .command c h (by decide) rfl (by rintro _ ⟨⟩) self
  | command c => exact flash .command .busy c h (by decide) rfl (by rintro _ ⟨⟩) self
  | @release d b k rw here next status c =>
      have hok : status = flashReady := by
        cases c with
        | write => exact h.2 status rfl
        | read => exact h.2 status rfl
      subst hok
      rw [if_pos rfl, c.act]
      cases c with
      | write k old =>
          refine ⟨.read k .acquire, self, by simp [PagerPc.left, FlashPc.left], ?_⟩
          exact ⟨⟨some old, by rw [h.1]; rfl⟩, by rintro _ ⟨⟩⟩
      | read k =>
          obtain ⟨⟨old, rfl⟩, -⟩ := h
          refine ⟨.record k, self, by simp [PagerPc.left, FlashPc.left], old, ?_⟩
          rw [List.cons_append, List.append_assoc]
          rfl
  | record =>
      refine ⟨.validate _, self, by simp [PagerPc.left], ?_⟩
      obtain ⟨old, rfl⟩ := h
      exact ⟨old, by rw [show PagerPc.act a p _ = none from rfl]; exact List.append_nil _⟩
  | validate =>
      refine ⟨.update _, self, by simp [PagerPc.left], ?_⟩
      obtain ⟨old, rfl⟩ := h
      exact ⟨_, old, rfl⟩
  | update =>
      refine ⟨.leave, self, by simp [PagerPc.left], ?_⟩
      obtain ⟨k, old, rfl⟩ := h
      exact ⟨k, old, List.append_nil _⟩
  | leave =>
      refine ⟨.ret, self, by simp [PagerPc.left], ?_⟩
      obtain ⟨k, old, rfl⟩ := h
      refine ⟨k, old, ?_⟩
      rw [List.cons_append, List.append_assoc]
      rfl
  | abort => exact h.elim
  | ret => exact absurd rfl hr

end VM

namespace VM

variable {s : VM n} {q : Pid} {a : Asid} {p : PageNo} {pc : PagerPc}

/-- A process in the pager waits for its device, or has a next statement. -/
theorem pagerStep_next (s : VM n) (q : Pid) (a : Asid) (p : PageNo) (pc : PagerPc) :
    (∃ d b k rw here next, Call a p d b k rw here next ∧ pc = here .busy) ∨
      ∃ t, s.pagerStep q a p pc = some t := by
  cases pc with
  | write k old pc =>
      cases pc with
      | busy => exact .inl ⟨_, _, _, _, _, _, .write k old, rfl⟩
      | _ => exact .inr ⟨_, rfl⟩
  | read k pc =>
      cases pc with
      | busy => exact .inl ⟨_, _, _, _, _, _, .read k, rfl⟩
      | _ => exact .inr ⟨_, rfl⟩
  | evict k =>
      right
      rw [pagerStep]
      split
      · exact ⟨_, rfl⟩
      · exact ⟨_, rfl⟩
  | _ => exact .inr ⟨_, rfl⟩

/-- The device performs the command in its registers. -/
theorem flashPerform_of {d : Asid} {b : PageNo} {k : FrameNo} {rw : Word}
    (hr : s.flashReg d = ⟨framePhysAddr k, flashCommand b rw⟩) (hrw : rw = flashRead ∨ rw = flashWrite)
    (status : Word) (junk : Page) : ∃ t, s.flashPerform d status junk = some t := by
  rw [flashPerform, hr, frameOf_framePhysAddr, Option.bind_some, flashCommand_block _ _ hrw,
    Option.bind_some, flashCommand_rw _ _ hrw]
  rcases hrw with h | h
  · exact ⟨_, if_pos h⟩
  · have hne : rw ≠ flashRead := by
      rw [h]
      decide
    exact ⟨_, (if_neg hne).trans (if_pos h)⟩

/-- The device a process waits for can complete. -/
theorem Copied.flashDone (h : s.Copied) {d b k rw here next} (c : Call a p d b k rw here next)
    (hq : s.proc q = some ⟨a, .pager p (here .busy)⟩) (status : Word) (junk : Page) :
    ∃ t, s.step (.flashDone q status junk) = some t := by
  have hcopy := h q a p _ hq
  have hw : flashWait ⟨a, .pager p (here .busy)⟩ = some (d, here, p) := by
    cases c <;> rfl
  obtain ⟨u, hu⟩ : ∃ u, s.flashPerform d status junk = some u := by
    cases c with
    | write => exact flashPerform_of hcopy.1 (.inr rfl) status junk
    | read => exact flashPerform_of hcopy.1 (.inl rfl) status junk
  rw [VM.step, hq, Option.bind_some, hw, Option.bind_some]
  show ∃ t, Option.map _ (s.flashPerform d status junk) = some t
  rw [hu]
  exact ⟨_, rfl⟩

end VM

namespace Support

variable {s t s₁ : Support n} {e : SupportEvent n} {es : List (SupportEvent n)} {q : Pid} {a : Asid}
  {p : PageNo} {pc : PagerPc} {l : List SupportAct}

/-- What a process has done, it has done. -/
theorem prefix_actsOf : l <+: actsOf q s e t l := by
  unfold actsOf
  split
  · split
    · exact List.prefix_append ..
    · exact List.prefix_refl _
  · exact List.prefix_refl _

theorem actsOf_pager (hq : s.vm.proc q = some ⟨a, .pager p pc⟩) :
    actsOf q s (.mem (.pager q)) t l = l ++ (pc.act a p).toList := by
  have ha := act_pager hq
  cases hx : pc.act a p with
  | none => rw [actsOf_none (by rw [ha, hx]; rfl)]; exact (List.append_nil _).symm
  | some x => rw [actsOf_self (by rw [ha, hx]; rfl)]; rfl

/-- How far the pager has come with page `p`. -/
def Loading (q : Pid) (a : Asid) (p : PageNo) (s : Support n) (l : List SupportAct) : Prop :=
  Loaded a p l ∨ ∃ pc, s.vm.proc q = some ⟨a, .pager p pc⟩ ∧ pc.Script a p l

/-- A step of a process in the pager. -/
theorem Loading.move (hg : s.Good) (hs : Step s e t) (he : e.subject = some q)
    (hok : FlashOk q (s, l) e) (hq : s.vm.proc q = some ⟨a, .pager p pc⟩) (h : pc.Script a p l) :
    Loaded a p (actsOf q s e t l) ∨ ∃ pc', t.vm.proc q = some ⟨a, .pager p pc'⟩ ∧
      pc'.left < pc.left ∧ pc'.Script a p (actsOf q s e t l) := by
  cases hs.mover he with
  | run hi => rw [hq] at hi; cases hi
  | pager hi hev hst =>
      rw [hq] at hi
      cases hi
      subst hev
      by_cases hr : pc = .ret
      · subst hr
        obtain ⟨k, old, rfl⟩ := h
        exact .inl ⟨k, old, prefix_actsOf⟩
      · rw [actsOf_pager hq]
        exact .inr (hst.script h hr)
  | @device _ _ _ _ _ _ here _ status c hi hev ht =>
      rw [hq] at hi
      cases hi
      obtain ⟨junk, rfl⟩ := hev
      rw [actsOf_none rfl]
      refine .inr ⟨here (.release status), ht, c.left Nat.one_lt_two, ?_⟩
      have := c.script h (y := .release status) (List.append_nil _).symm fun x hx => ?_
      · rwa [show FlashPc.act _ _ _ _ .busy = none from rfl, Option.toList_none,
          List.append_nil] at this
      · cases hx
        exact hok status junk rfl
  | signal hi => rw [hq] at hi; cases hi
  | term _ _ hpc =>
      have := hg.placed _ _ _ _ hq
      rw [hpc] at this
      exact this.elim

/-- A step keeps the pager on the way to its page, unless a flash command fails. -/
theorem Loading.step (h : Loading q a p s l) (hg : s.Sane) (hs : Step s e t)
    (hok : FlashOk q (s, l) e) : Loading q a p t (actsOf q s e t l) := by
  rcases h with ⟨k, old, h⟩ | ⟨pc, hq, h⟩
  · exact .inl ⟨k, old, h.trans prefix_actsOf⟩
  · by_cases he : e.subject = some q
    · exact (Loading.move hg.good hs he hok hq h).imp_right fun ⟨pc', hq', _, h'⟩ => ⟨pc', hq', h'⟩
    · have hlive : s.vm.proc q ≠ none := by rw [hq]; simp
      have h0 : q ≠ 0 := by
        rintro rfl
        exact hlive hg.parked.test
      have hpc : s.pc q ≠ .term := by
        intro hpc
        have := hg.good.placed _ _ _ _ hq
        rw [hpc] at this
        exact this.elim
      rw [actsOf_other hs h0 he]
      exact .inr ⟨pc, ((hg.good.frame hg.parked hs hlive hpc he).1).trans hq, h⟩

/-- Unless it is in a queue, a process in the pager can go on. -/
theorem Loading.next (hg : s.Sane) (hq : s.vm.proc q = some ⟨a, .pager p pc⟩)
    (hb : ¬ s.blocked q) : ∃ e t, e.subject = some q ∧ FlashOk q (s, l) e ∧ s.step e = some t := by
  rcases VM.pagerStep_next s.vm q a p pc with ⟨d, b, k, rw, here, next, c, rfl⟩ | ⟨u, hu⟩
  · obtain ⟨u, hu⟩ := hg.copied.flashDone c hq flashReady fun _ => 0
    refine ⟨.mem (.flashDone q flashReady fun _ => 0), { s with vm := u }, rfl, ?_, ?_⟩
    · rintro _ _ ⟨⟩
      rfl
    · rw [Support.step, if_neg (by rintro ⟨_, ⟨⟩, _⟩)]
      show (s.vm.step _).map _ = _
      rw [hu]
      rfl
  · refine ⟨.mem (.pager q), s.withVm q u, rfl, by rintro _ _ ⟨⟩, ?_⟩
    have hb' : ¬ s.vm.blocked q := fun h => hb (.inr (.inr (.inr (.inr h))))
    rw [Support.step, if_neg (by rintro ⟨_, ⟨⟩, h⟩; exact hb h)]
    show (s.vm.step _).map _ = _
    rw [VM.step, hq]
    show (if _ then _ else _ : Option (VM n)).map _ = _
    rw [if_neg hb', hu]
    rfl

/-- Left alone, the pager goes on until it has brought the page in or has to wait. -/
theorem Loading.finish (m : ℕ) (hg : s.Sane) (hq : s.vm.proc q = some ⟨a, .pager p pc⟩)
    (h : pc.Script a p l) (hm : pc.left ≤ m) : ∃ fs u l',
    Run (record Support.step (actsOf q)) (FlashOk q) (s, l) fs (u, l') ∧
      (∀ e ∈ fs, e.subject = some q) ∧ (Loaded a p l' ∨ u.blocked q) := by
  induction m generalizing s l pc with
  | zero =>
      have hr : pc = .ret := by
        cases pc with
        | ret => rfl
        | _ => simp [PagerPc.left] at hm
      subst hr
      obtain ⟨k, old, rfl⟩ := h
      exact ⟨[], s, _, .nil _, by simp, .inl ⟨k, old, List.prefix_refl _⟩⟩
  | succ m ih =>
      by_cases hb : s.blocked q
      · exact ⟨[], s, l, .nil _, by simp, .inr hb⟩
      obtain ⟨e, t, he, hok, hst⟩ := Loading.next (l := l) hg hq hb
      rcases Loading.move hg.good (step_view hst) he hok hq h with hl | ⟨pc', hq', hlt, h'⟩
      · exact ⟨[e], t, _, .one hok (record_of hst), by simpa using he, .inl hl⟩
      · obtain ⟨fs, u, l', hr, hfs, hend⟩ := ih (hg.step (step_view hst)) hq' h' (by omega)
        refine ⟨e :: fs, u, l', .cons hok (record_of hst) hr, ?_, hend⟩
        intro x hx
        rcases List.mem_cons.mp hx with rfl | hx
        · exact he
        · exact hfs x hx

/-- A process at the first statement of the pager brings the page in. -/
theorem Loads.enter (hg : s₁.Sane) (hq : s₁.vm.proc q = some ⟨a, .pager p .enter⟩) :
    s₁.Loads q a p := by
  intro es t l hr
  have hinv : t.Sane ∧ Loading q a p t l := by
    have hl : Loading q a p s₁ [] := .inr ⟨.enter, hq, rfl⟩
    refine hr.inv (I := fun x => x.1.Sane ∧ Loading q a p x.1 x.2) ⟨hg, hl⟩ ?_
    rintro x e y ⟨hx, hl⟩ hok hy
    obtain ⟨hst, hnote⟩ := record_eq_some hy
    rw [hnote]
    exact ⟨hx.step (step_view hst), hl.step hx (step_view hst) hok⟩
  obtain ⟨hg, hl | ⟨pc, hq, h⟩⟩ := hinv
  · exact .inl hl
  · exact .inr ⟨h.prefix_script, ⟨pc, hq⟩, Loading.finish pc.left hg hq h le_rfl⟩

end Support

end PandOS
