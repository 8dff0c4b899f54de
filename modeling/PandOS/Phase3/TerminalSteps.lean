import PandOS.Phase3.Script
import PandOS.Phase3.TerminalCalls

/-!
# Phase 3 — the terminal services on the Support Level

`termAct q` is what a step of `q` does in a terminal service, read off the semaphores, the memory
and the device registers.  `Support.calls_of_run`: whatever the others do, a call runs as `call`, to
its end or until the U-proc is killed in the pager.

`Support.exact_of_run`: on every run, what a call has done is the beginning of a whole call, and it
is a whole call when the U-proc resumes; and a call that has not ended goes on, unless it waits for
the mutex or for its memory.
-/

namespace PandOS

variable {n : ℕ}

/-- The byte stored is the byte loaded. -/
theorem byteOf_withByte (w : Word) (b : Fin wordLen) (c : BitVec 8) :
    byteOf (withByte w b c) b = c := by
  unfold byteOf withByte
  obtain ⟨b, hb⟩ := b
  have low : ∀ j : Fin 8, (0xFF : Word).getLsbD j = true := by decide
  ext i hi
  have hlow := low ⟨i, hi⟩
  have h32 : 8 * b + i < 32 := by
    have hb : b < 4 := hb
    omega
  have hge : ¬ 8 * b + i < 8 * b := by omega
  have hi32 : i < 32 := by omega
  simp only [BitVec.getElem_setWidth, BitVec.getLsbD_ushiftRight, BitVec.getLsbD_or,
    BitVec.getLsbD_and, BitVec.getLsbD_not, BitVec.getLsbD_shiftLeft, BitVec.getLsbD_setWidth,
    Nat.add_sub_cancel_left, h32, hlow, hge, hi32]
  simp [hi]

/-- Where a store goes through the TLB, a load does. -/
theorem VM.access_of_store {s : VM n} {r : PageId} {k : FrameNo} (h : s.accessStore r = some k) :
    s.access r = some k := by
  obtain ⟨lo, hlo, hk⟩ := Option.bind_eq_some_iff.mp h
  rw [VM.access, hlo]
  split at hk
  · cases hk
  · exact hk

/-- What a statement does for the terminal, its mutexes included. -/
def SupportAct.term (t : Support n) : SupportAct → Option TermAct
  | .passeren (.term d) => some (.passeren d)
  | .verhogen (.term d) => some (.verhogen d)
  | .terminal .tx => some (.transmit t.transmCommand)
  | .terminal .rx => some (.receive t.recvCommand)
  | _ => none

namespace Support

variable {s t s₁ : Support n} {e : SupportEvent n} {es : List (SupportEvent n)} {q : Pid} {a : Asid}
  {d : Channel} {sv : Saved} {r : Word} {h : List TermAct}

/-- The byte at a user address, as the U-proc of ASID `a` sees it. -/
def byteAt (s : Support n) (a : Asid) (addr : Word) : Option (BitVec 8) :=
  (userAddr addr).bind fun x =>
    (s.vm.access (a, x.1)).map fun k => byteOf (s.vm.frame k x.2.1) x.2.2

/-- What a step of `q` does in a terminal service. -/
def termAct (q : Pid) (s : Support n) (e : SupportEvent n) (t : Support n) : Option TermAct :=
  if e.subject = some q then
    match e with
    | .mem (.load _ a _ _ _) =>
        (s.target q a).bind fun addr => (s.byteAt a addr).map (.load addr)
    | .mem (.store _ a _ _ _) =>
        (s.target q a).bind fun addr => (t.byteAt a addr).map (.store addr)
    | .handler _ =>
        if s.pc q = .ldst then (s.vm.proc q).map fun pr => .resume (s.saved pr.asid).reg_a0
        else (s.act e).bind fun x => x.2.term t
    | .termDone _ w => some (.status w)
    | _ => none
  else none

/-- What `q` has done in a terminal service. -/
def termActsOf (q : Pid) (s : Support n) (e : SupportEvent n) (t : Support n) (l : List TermAct) :
    List TermAct := l ++ (termAct q s e t).toList

/-- The status `DOIO` returns to `q`. -/
def statusOf (q : Pid) : SupportEvent n → Option Word
  | .termDone i w => if i = q then some w else none
  | _ => none

/-- During a call of `q`, to which `DOIO` returns statuses. -/
def DuringCall (q : Pid) (x : Support n × List TermAct) (e : SupportEvent n) : Prop :=
  x.1.pc q ≠ .user ∧ ∀ w ∈ statusOf q e, statusWord w

instance (q : Pid) (x : Support n × List TermAct) (e : SupportEvent n) :
    Decidable (DuringCall q x e) :=
  @instDecidableAnd _ _ _ (Option.decidableForallMem _)

/-- A U-proc of ASID `a` that runs and does not wait, and where its handler touches memory next, a
TLB entry maps the page. -/
structure Free (s : Support n) (q : Pid) (a : Asid) : Prop where
  run : s.vm.proc q = some ⟨a, .run⟩
  awake : ¬ s.blocked q
  mapped : ∀ addr, s.target q a = some addr → ∃ x, userAddr addr = some x ∧
    s.vm.accessStore (a, x.1) ≠ none

/-- Whatever the device answers, a step of `q` makes the next statement of its service, or takes it
to the service of `d`. -/
def GoesOn (s : Support n) (q : Pid) (d : Channel) : Prop :=
  ∀ w, ∃ e t, e.subject = some q ∧ (∀ v ∈ statusOf q e, v = w) ∧ s.step e = some t ∧
    (termAct q s e t ≠ none ∨ t.pc q = acquirePc d)

/-! ### A step of a call -/

theorem termAct_load {p : PageNo} {w : Fin (pageSize / wordLen)} {v addr : Word} {c : BitVec 8}
    (ha : s.target q a = some addr) (hc : s.byteAt a addr = some c) :
    termAct q s (.mem (.load q a p w v)) t = some (.load addr c) := by
  refine (if_pos rfl).trans ?_
  show (s.target q a).bind (fun addr => (s.byteAt a addr).map (TermAct.load addr)) = _
  rw [ha, Option.bind_some, hc]
  rfl

theorem termAct_store {p : PageNo} {w : Fin (pageSize / wordLen)} {v addr : Word} {c : BitVec 8}
    (ha : s.target q a = some addr) (hc : t.byteAt a addr = some c) :
    termAct q s (.mem (.store q a p w v)) t = some (.store addr c) := by
  refine (if_pos rfl).trans ?_
  show (s.target q a).bind (fun addr => (t.byteAt a addr).map (TermAct.store addr)) = _
  rw [ha, Option.bind_some, hc]
  rfl

theorem termAct_ldst {c : Ctl} (hq : s.vm.proc q = some ⟨a, c⟩) (hg : s.pc q = .ldst) :
    termAct q s (.handler q) t = some (.resume (s.saved a).reg_a0) := by
  refine (if_pos rfl).trans ?_
  rw [if_pos hg, hq]
  rfl

theorem termAct_handler {c : Ctl} {g : GenPc} (hq : s.vm.proc q = some ⟨a, c⟩) (hg : s.pc q = g)
    (hne : g ≠ .ldst) : termAct q s (.handler q) t = (g.act a).bind fun x => x.term t := by
  refine (if_pos rfl).trans ?_
  rw [hg, if_neg hne, act_handler hq hg]
  cases g.act a <;> rfl

/-- A load of the handler. -/
theorem step_load {b : Asid} {p : PageNo} {w : Fin (pageSize / wordLen)} {v : Word}
    (hs : s.step (.mem (.load q b p w v)) = some t) (hq : s.vm.proc q = some ⟨a, .run⟩)
    (hpc : s.pc q ≠ .user) : ∃ i c, s.pc q = .sys4 (.load i) ∧ b = a ∧
      s.byteAt a (userByte (s.saved a) i) = some c ∧ t = s.setPc q (.sys4 (.command i c)) := by
  rw [Support.step] at hs
  split at hs
  · cases hs
  obtain ⟨u, hu, hs⟩ := Option.bind_eq_some_iff.mp hs
  rw [VM.step] at hu
  split at hu
  case isFalse => cases hu
  case isTrue hacc =>
    cases hu
    obtain ⟨hq', hv⟩ := hacc
    rw [hq] at hq'
    cases hq'
    obtain ⟨k, hk, rfl⟩ := Option.map_eq_some_iff.mp hv
    split at hs
    case h_1 hpc' => exact absurd hpc' hpc
    case h_3 => cases hs
    case h_2 i hpc' =>
      rw [target_eq, hpc'] at hs
      obtain ⟨_, ⟨⟩, hs⟩ := Option.bind_eq_some_iff.mp hs
      obtain ⟨x, hx, ht⟩ := Option.bind_eq_some_iff.mp hs
      split at ht
      case isFalse => cases ht
      case isTrue hxp =>
        obtain ⟨rfl, rfl⟩ := hxp
        cases ht
        refine ⟨i, _, hpc', rfl, ?_, rfl⟩
        rw [byteAt, hx, Option.bind_some, hk]
        rfl

/-- A store of the handler. -/
theorem step_store {b : Asid} {p : PageNo} {w : Fin (pageSize / wordLen)} {v : Word}
    (hs : s.step (.mem (.store q b p w v)) = some t) (hq : s.vm.proc q = some ⟨a, .run⟩)
    (hpc : s.pc q ≠ .user) : ∃ i c, s.pc q = .sys5 (.store i c) ∧ b = a ∧
      t.byteAt a (userByte (s.saved a) i) = some c ∧
      ∃ u, u.proc = s.vm.proc ∧ t = { s with vm := u }.setPc q (sys5Loop (i + 1) (some c)) := by
  rw [Support.step] at hs
  split at hs
  · cases hs
  obtain ⟨u, hu, hs⟩ := Option.bind_eq_some_iff.mp hs
  rw [VM.step] at hu
  split at hu
  case isFalse => cases hu
  case isTrue hq' =>
    rw [hq] at hq'
    cases hq'
    obtain ⟨k, hk, rfl⟩ := Option.map_eq_some_iff.mp hu
    split at hs
    case h_1 hpc' => exact absurd hpc' hpc
    case h_3 => cases hs
    case h_2 i c hpc' =>
      rw [target_eq, hpc'] at hs
      obtain ⟨_, ⟨⟩, hs⟩ := Option.bind_eq_some_iff.mp hs
      obtain ⟨x, hx, ht⟩ := Option.bind_eq_some_iff.mp hs
      split at ht
      case isFalse => cases ht
      case isTrue hxp =>
        obtain ⟨rfl, rfl, hv⟩ := hxp
        rw [hk] at hv
        cases hv
        cases ht
        refine ⟨i, c, hpc', rfl, ?_, s.vm.poke k x.2.1 _, rfl, rfl⟩
        have hacc := VM.access_of_store hk
        have hpoke : (s.vm.poke k x.2.1 (withByte (s.vm.frame k x.2.1) x.2.2 c)).frame k x.2.1 =
            withByte (s.vm.frame k x.2.1) x.2.2 c := by
          show Function.update s.vm.frame k (Function.update (s.vm.frame k) x.2.1 _) k x.2.1 = _
          rw [Function.update_self, Function.update_self]
        rw [byteAt, hx, Option.bind_some]
        show ((s.vm.access (a, x.1)).map _) = _
        rw [hacc]
        exact congrArg some ((congrArg (byteOf · x.2.2) hpoke).trans (byteOf_withByte ..))

/-- From the `P` of a terminal service to `LDST`. -/
def Serving : GenPc → Prop
  | .sys4 _ | .sys5 _ | .ldst => True
  | _ => False

/-- What a step of `q` does to its call: it makes the next statement, or it is about the memory of
`q`, or the end of `q`. -/
inductive CallMove (sv : Saved) (q : Pid) (a : Asid) (r : Word) (s : Support n)
    (e : SupportEvent n) (t : Support n) : Prop where
  | next {x : Answer} {v : Word} (hx : x.legal) (hc : call sv (s.pc q, r) x = some (t.pc q, v))
      (hq : t.vm.proc q = some ⟨a, .run⟩) (hsv : t.saved a = { sv with reg_a0 := v })
      (hn : (termAct q s e t).toList = termActs sv (s.pc q, r) x)
  | stay {c : Ctl} (hpc : t.pc q = s.pc q) (hq : t.vm.proc q = some ⟨a, c⟩) (hc : c ≠ .dying)
      (hsv : t.saved = s.saved) (hn : termAct q s e t = none)
  | doomed (hpc : t.pc q = .signal) (hq : t.vm.proc q = some ⟨a, .dying⟩)
      (hn : termAct q s e t = none)

/-- A statement of the handler. -/
theorem callMove_handler (hs : s.handlerStep q a (s.pc q) = some t)
    (hq : s.vm.proc q = some ⟨a, .run⟩) (hsv : s.saved a = { sv with reg_a0 := r })
    (hpc : Serving (s.pc q)) : CallMove sv q a r s (.handler q) t := by
  -- the statement at `g` takes the call to `g'`
  have go : ∀ {g g' : GenPc} {r' : Word}, s.pc q = g → g ≠ .ldst →
      call sv (g, r) .done = some (g', r') → t.pc q = g' → t.vm = s.vm →
      t.saved a = { sv with reg_a0 := r' } →
      ((g.act a).bind fun x => x.term t).toList = termActs sv (g, r) .done →
      CallMove sv q a r s (.handler q) t := by
    intro g g' r' hg hne hc hg' hv hsv' hn
    refine .next (x := .done) (v := r') (by rintro _ ⟨⟩) (by rw [hg, hg', hc]) (hv ▸ hq) hsv' ?_
    rw [hg, ← hn, termAct_handler hq hg hne]
  have a0_self : ∀ {u : Support n} {g : GenPc} {a0 : Word}, u.saved = s.saved →
      ((u.setA0 a a0).setPc q g).saved a = { sv with reg_a0 := a0 } := by
    intro u g a0 hu
    show Function.update u.saved a { u.saved a with reg_a0 := a0 } a = _
    rw [Function.update_self, hu, hsv]
  cases hg : s.pc q with
  | sys4 pc =>
      rw [hg] at hs
      cases pc with
      | acquire =>
          cases hs
          exact go hg (by simp) rfl (setPc_self.trans (by rw [hsv]; rfl)) rfl hsv rfl
      | command i c => cases hs; exact go hg (by simp) rfl setPc_self rfl hsv rfl
      | release a0 => cases hs; exact go hg (by simp) rfl setPc_self rfl (a0_self rfl) rfl
      | _ => cases hs
  | sys5 pc =>
      rw [hg] at hs
      cases pc with
      | acquire => cases hs; exact go hg (by simp) rfl setPc_self rfl hsv rfl
      | command i => cases hs; exact go hg (by simp) rfl setPc_self rfl hsv rfl
      | release a0 => cases hs; exact go hg (by simp) rfl setPc_self rfl (a0_self rfl) rfl
      | _ => cases hs
  | ldst =>
      rw [hg] at hs
      cases hs
      refine .next (x := .done) (v := r) (by rintro _ ⟨⟩) (by rw [hg, setPc_self]; rfl) hq hsv ?_
      rw [termAct_ldst hq hg, hg, hsv]
      rfl
  | _ => rw [hg] at hpc; exact hpc.elim

/-- The device completes. -/
theorem callMove_done {w : Word} (hs : s.termDone q a w = some t)
    (hq : s.vm.proc q = some ⟨a, .run⟩) (hsv : s.saved a = { sv with reg_a0 := r })
    (hw : statusWord w) : CallMove sv q a r s (.termDone q w) t := by
  have legal : Answer.legal (.status w) := by
    rintro _ ⟨⟩
    exact hw
  have note : termAct q s (.termDone q w) t = some (.status w) := if_pos rfl
  rw [termDone] at hs
  split at hs
  case h_1 i hg =>
    cases hs
    refine .next (x := .status w) (v := r) legal ?_ hq hsv (by rw [note, hg]; rfl)
    rw [hg, hsv]
    exact congrArg some (congrArg (·, r) setPc_self.symm)
  case h_2 i hg =>
    cases hs
    refine .next (x := .status w) (v := r) legal ?_ hq hsv (by rw [note, hg]; rfl)
    rw [hg]
    exact congrArg some (congrArg (·, r) setPc_self.symm)
  case h_3 => cases hs

theorem withVm_pc_of {u : VM n} {c : Ctl} (hu : u.proc q = some ⟨a, c⟩) (hc : c ≠ .dying) :
    (s.withVm q u).pc = s.pc := by
  unfold withVm
  rw [hu]
  cases c with
  | dying => exact absurd rfl hc
  | _ => rfl

theorem withVm_saved {u : VM n} : (s.withVm q u).saved = s.saved := by
  unfold withVm
  split <;> rfl

/-- A process enters the pager, or leaves it, or is in it; or it dies there. -/
theorem callMove_vm {u : VM n} {f : VmEvent n} {c : Ctl} (hu : u.proc q = some ⟨a, c⟩)
    (hn : termAct q s (.mem f) (s.withVm q u) = none) :
    CallMove sv q a r s (.mem f) (s.withVm q u) := by
  have hq : (s.withVm q u).vm.proc q = some ⟨a, c⟩ := by rw [withVm_vm, hu]
  by_cases hc : c = .dying
  · subst hc
    refine .doomed ?_ hq hn
    unfold withVm
    rw [hu]
    exact Function.update_self ..
  · exact .stay (congrFun (withVm_pc_of hu hc) q) hq hc withVm_saved hn

/-- **A step of a call that is not in the pager.** -/
theorem call_step (hs : s.step e = some t) (he : e.subject = some q)
    (hq : s.vm.proc q = some ⟨a, .run⟩) (hsv : s.saved a = { sv with reg_a0 := r })
    (hpc : Serving (s.pc q)) (hw : ∀ w ∈ statusOf q e, statusWord w) :
    CallMove sv q a r s e t := by
  have at_ : ∀ {g : GenPc}, s.pc q = g → Serving g := fun hg => hg ▸ hpc
  have hu : s.pc q ≠ .user := fun h => at_ h
  have byte : ∀ i, userByte (s.saved a) i = userByte sv i := fun i => by rw [hsv]; rfl
  cases handling hs he hq hu (fun h => at_ h) with
  | load he' =>
      subst he'
      obtain ⟨k, c, hg, rfl, hc, rfl⟩ := step_load hs hq hu
      refine .next (x := .byte c) (v := r) (by rintro _ ⟨⟩) ?_ hq hsv ?_
      · rw [hg, setPc_self]
        rfl
      · rw [termAct_load (by rw [target_eq, hg]; rfl) hc, byte, hg]
        rfl
  | store he' =>
      subst he'
      obtain ⟨k, c, hg, rfl, hc, u, hv, rfl⟩ := step_store hs hq hu
      refine .next (x := .done) (v := r) (by rintro _ ⟨⟩) ?_ (hv ▸ hq) hsv ?_
      · rw [hg, setPc_self]
        rfl
      · rw [termAct_store (by rw [target_eq, hg]; rfl) hc, byte, hg]
        rfl
  | refill he' _ hv ht =>
      subst he' ht
      exact .stay rfl ((congrFun hv q).trans hq) (by simp) rfl (if_pos rfl)
  | fault he' _ hv ht =>
      subst he' ht
      exact callMove_vm hv (if_pos rfl)
  | handler he' ht =>
      subst he'
      exact callMove_handler ht hq hsv hpc
  | noPcb _ hg => exact (at_ hg).elim
  | termDone he' ht =>
      subst he'
      exact callMove_done ht hq hsv (hw _ (if_pos rfl))

/-- **A step of a call that is in the pager.** -/
theorem call_pager {p : PageNo} {pc : PagerPc} (hs : s.step e = some t) (he : e.subject = some q)
    (hq : s.vm.proc q = some ⟨a, .pager p pc⟩) (hpc : s.pc q ≠ .term) :
    CallMove sv q a r s e t := by
  cases (step_view hs).mover he with
  | run hi => rw [hq] at hi; cases hi
  | signal hi => rw [hq] at hi; cases hi
  | term _ _ hg => exact absurd hg hpc
  | pager hi hev hst =>
      subst hev
      cases step_view hs with
      | pager _ hu =>
          obtain ⟨c, hp, -⟩ := hst.proc
          rw [withVm_vm] at hp
          rw [hq] at hi
          cases hi
          exact callMove_vm (hp ▸ Function.update_self ..) (if_pos rfl)
  | device c hi hev ht =>
      obtain ⟨junk, rfl⟩ := hev
      rw [hq] at hi
      cases hi
      cases step_view hs with
      | flashDone hu => exact .stay rfl ht (by simp) rfl (if_pos rfl)

/-! ### A call, whatever the others do -/

/-- How far a call of `q`, of ASID `a`, has come that was in the handler with the registers `sv`;
the U-proc may have been killed in the pager. -/
inductive InCall (sv : Saved) (q : Pid) (a : Asid) (s : Support n) (h : List TermAct) : Prop where
  | handler (hq : s.vm.proc q = some ⟨a, .run⟩) (hpc : s.pc q = .handler) (hsv : s.saved a = sv)
      (hh : h = [])
  | call {c : Ctl} {r : Word} {xs : List Answer} (hq : s.vm.proc q = some ⟨a, c⟩)
      (hc : c ≠ .dying) (hpc : Serving (s.pc q)) (hsv : s.saved a = { sv with reg_a0 := r })
      (hr : Calls sv (supportGeneralExHandler a sv) xs (s.pc q, r) h)
  | returned {r : Word} {xs : List Answer} (hpc : s.pc q = .user)
      (hr : Calls sv (supportGeneralExHandler a sv) xs (.user, r) h)
  | left {xs : List Answer} {y : GenPc × Word} (hq : s.Gone q) (hlt : q < s.vm.nextPid)
      (hpc : s.pc q = .signal ∨ s.pc q = .term)
      (hr : Calls sv (supportGeneralExHandler a sv) xs y h)

theorem termActsOf_none (hn : termAct q s e t = none) : termActsOf q s e t h = h := by
  rw [termActsOf, hn]
  exact List.append_nil h

theorem termAct_other (he : e.subject ≠ some q) : termAct q s e t = none := if_neg he

/-- A call goes on in the service, or is over. -/
theorem call_serving {g : GenPc} {x : Answer} {y : GenPc × Word} (hg : Serving g)
    (hc : call sv (g, r) x = some y) : Serving y.1 ∨ y.1 = .user := by
  have sys4 : ∀ i, Serving (sys4Loop sv i) := fun i => by
    rcases sys4Loop_cases sv i with ⟨-, he⟩ | ⟨_, he⟩ <;> rw [he] <;> trivial
  have sys5 : ∀ i c, Serving (sys5Loop i c) := fun i c => by
    rcases sys5Loop_cases i c with he | ⟨_, he⟩ <;> rw [he] <;> trivial
  cases g with
  | sys4 pc =>
      left
      cases pc with
      | acquire => cases x <;> cases hc; exact sys4 0
      | load | command | release => cases x <;> cases hc; trivial
      | busy i =>
          cases x with
          | status w =>
              rw [← Option.some.inj hc]
              dsimp only
              split
              · trivial
              · exact sys4 (i + 1)
          | _ => cases hc
  | sys5 pc =>
      left
      cases pc with
      | acquire => cases x <;> cases hc; exact sys5 0 none
      | command | release => cases x <;> cases hc; trivial
      | busy i =>
          cases x with
          | status w =>
              rw [← Option.some.inj hc]
              dsimp only
              split
              · trivial
              · trivial
          | _ => cases hc
      | store i c => cases x <;> cases hc; exact sys5 (i + 1) (some c)
  | ldst => cases x <;> cases hc; exact .inr rfl
  | _ => exact hg.elim

theorem Serving.ne_term {g : GenPc} (h : Serving g) : g ≠ .term := by
  rintro rfl
  exact h

/-- What a step of `q` in the service makes of its call. -/
theorem CallMove.inCall {xs : List Answer} (hm : CallMove sv q a r s e t) (hp : t.Parked)
    (hpc : Serving (s.pc q)) (hsv : s.saved a = { sv with reg_a0 := r })
    (hr : Calls sv (supportGeneralExHandler a sv) xs (s.pc q, r) h) :
    InCall sv q a t (termActsOf q s e t h) := by
  cases hm with
  | @next x r' hx hc hq hsv' hn =>
      have hr' : Calls sv (supportGeneralExHandler a sv) (xs ++ [x]) (t.pc q, r')
          (termActsOf q s e t h) := by
        rw [termActsOf, hn]
        exact hr.snoc hx (record_of hc)
      rcases call_serving hpc hc with hg | hg
      · exact .call hq (by simp) hg hsv' hr'
      · have hg : t.pc q = .user := hg
        exact .returned hg (hg ▸ hr')
  | stay hg hq hc hsv' hn =>
      rw [termActsOf_none hn]
      exact .call hq hc (hg ▸ hpc) (by rw [hsv', hsv]) (hg ▸ hr)
  | doomed hg hq hn =>
      rw [termActsOf_none hn]
      refine .left (fun pr hpr => ?_) (hp.lt (by rw [hq]; simp)) (.inl hg) hr
      rw [hq] at hpr
      cases hpr
      rfl

/-- A U-proc that is to die does nothing more for its call; it may be taken away. -/
theorem Gone.leaves (hq : s.Gone q) (hlt : q < s.vm.nextPid)
    (hpc : s.pc q = .signal ∨ s.pc q = .term) (hp : s.Parked) (hs : Step s e t) :
    t.Gone q ∧ q < t.vm.nextPid ∧ (t.pc q = .signal ∨ t.pc q = .term) ∧ termAct q s e t = none := by
  by_cases he : e.subject = some q
  · have dying : ∀ {b : Asid} {c : Ctl}, s.vm.proc q = some ⟨b, c⟩ → c = .dying := fun hb => hq _ hb
    cases hs.mover he with
    | run hi => cases dying hi
    | pager hi => cases dying hi
    | device _ hi => cases dying hi
    | @signal b hi hev hx ht =>
        subst hev ht
        refine ⟨fun pr hpr => ?_, ?_, .inr setPc_self, ?_⟩
        · exact hq pr ((congrFun (congrArg VM.proc (signal_vm (s := s)).1) q).symm.trans hpr)
        · exact (congrArg VM.nextPid (signal_vm (s := s) (a := b)).1).symm ▸ hlt
        · rw [termAct_handler hi hx (by simp)]
          show SupportAct.term _ (.verhogen b.signals) = none
          unfold Asid.signals
          split <;> rfl
    | @term pr hi hev hx ht =>
        subst hev ht
        obtain ⟨hpc', -, -, hn, -, -, hv⟩ := foldl_remove (s.progeny q) s
        refine ⟨fun pr hpr => ?_, hn.symm ▸ hlt, .inr ((congrFun hpc' q).trans hx), ?_⟩
        · rw [Support.terminate, hv] at hpr
          split at hpr
          · cases hpr
          · exact hq pr hpr
        · obtain ⟨b, c⟩ := pr
          rw [termAct_handler hi hx (by simp)]
          rfl
  · cases hp.moves hs with
    | plain frame dead next =>
        obtain ⟨hv, hpc'⟩ := frame q hlt he
        exact ⟨fun pr hpr => hq pr (hv ▸ hpr), hlt.trans_le next, hpc' ▸ hpc, termAct_other he⟩
    | terminates i ha ht hi =>
        obtain ⟨tp, rfl⟩ := ht
        obtain ⟨hpc', -, -, hn, -, -, hv⟩ := foldl_remove (s.progeny i) s
        refine ⟨fun pr hpr => ?_, hn.symm ▸ hlt, (congrFun hpc' q).symm ▸ hpc, termAct_other he⟩
        have hpr : (s.terminate i).vm.proc q = some pr := hpr
        rw [Support.terminate, hv] at hpr
        split at hpr
        · cases hpr
        · exact hq pr hpr

/-- A step of the call, or of another process, takes it on as the service does. -/
theorem InCall.step (hi : InCall sv q a s h) (hg : s.Sane) (hok : DuringCall q (s, h) e)
    (hgo : Serving (supportGeneralExHandler a sv).1) (hs : s.step e = some t) :
    InCall sv q a t (termActsOf q s e t h) := by
  have hst := step_view hs
  cases hi with
  | returned hpc => exact absurd hpc hok.1
  | left hq hlt hpc hr =>
      obtain ⟨hq', hlt', hpc', hn⟩ := hq.leaves hlt hpc hg.parked hst
      rw [termActsOf_none hn]
      exact .left hq' hlt' hpc' hr
  | handler hq hpc hsv hh =>
      by_cases he : e.subject = some q
      · obtain ⟨rfl, ⟨hsig, -⟩ | ⟨-, rfl⟩⟩ := of_handler hs he hq hpc
        · rw [hsv] at hsig
          rw [hsig] at hgo
          exact hgo.elim
        · rw [termActsOf_none (by rw [termAct_handler hq hpc (by simp)]; rfl), hsv, hh]
          have hr : Calls sv (supportGeneralExHandler a sv) [] (supportGeneralExHandler a sv) [] :=
            .nil _
          refine .call (r := (supportGeneralExHandler a sv).2) hq (by simp) ?_ ?_
            (by rw [setPc_self]; exact hr)
          · rw [setPc_self]
            exact hgo
          · show Function.update s.saved a { s.saved a with reg_a0 := _ } a = _
            rw [Function.update_self, hsv]
      · obtain ⟨hq', hpc', hsv'⟩ := hg.keeps hst he hq (by simp) hpc (by simp)
        rw [termActsOf_none (termAct_other he)]
        exact .handler hq' hpc' (hsv'.trans hsv) hh
  | @call c r xs hq hc hpc hsv hr =>
      by_cases he : e.subject = some q
      · have hmove : CallMove sv q a r s e t := by
          cases c with
          | dying => exact absurd rfl hc
          | run => exact call_step hs he hq hsv hpc hok.2
          | pager p pc => exact call_pager hs he hq hpc.ne_term
        exact hmove.inCall (hg.step hst).parked hpc hsv hr
      · obtain ⟨hq', hpc', hsv'⟩ := hg.keeps hst he hq hc rfl hpc.ne_term
        rw [termActsOf_none (termAct_other he)]
        exact .call hq' hc (hpc' ▸ hpc) (hsv'.trans hsv) (hpc' ▸ hr)

/-! ### A call goes on -/

/-- Where the memory is there, the service goes on. -/
theorem Free.goesOn (h : s.Free q a) (hpc : Serving (s.pc q)) : s.GoesOn q d := by
  intro w
  obtain ⟨hq, hb, hm⟩ := h
  have hst := step_handler hb hq hpc.ne_term
  have hbm : ∀ {f : VmEvent n}, actor f = some q → s.step (.mem f) = s.memStep f := by
    intro f hf
    refine if_neg ?_
    rintro ⟨i, hi, hbl⟩
    rw [hf] at hi
    cases hi
    exact hb hbl
  -- a statement that has an effect
  have act : ∀ {g : GenPc} {t : Support n} {x : SupportAct} {y : TermAct}, s.pc q = g → g ≠ .ldst →
      s.handlerStep q a g = some t → g.act a = some x → x.term t = some y →
      ∃ e u, e.subject = some q ∧ (∀ v ∈ statusOf q e, v = w) ∧ s.step e = some u ∧
        (termAct q s e u ≠ none ∨ u.pc q = acquirePc d) := by
    intro g t x y hg hne ht hx hy
    refine ⟨.handler q, t, rfl, by rintro _ ⟨⟩, by rw [hst, hg, ht], .inl ?_⟩
    rw [termAct_handler hq hg hne, hx, Option.bind_some, hy]
    simp
  -- the device
  have device : ∀ {t : Support n}, s.termDone q a w = some t →
      ∃ e u, e.subject = some q ∧ (∀ v ∈ statusOf q e, v = w) ∧ s.step e = some u ∧
        (termAct q s e u ≠ none ∨ u.pc q = acquirePc d) := by
    intro t ht
    refine ⟨.termDone q w, t, rfl, fun v hv => ?_, by rw [Support.step, hq]; exact ht, .inl ?_⟩
    · have hv : (if q = q then some w else none) = some v := hv
      rw [if_pos rfl] at hv
      exact (Option.some.inj hv).symm
    · have hn : termAct q s (.termDone q w) t = some (.status w) := if_pos rfl
      rw [hn]
      simp
  cases hg : s.pc q with
  | sys4 pc =>
      cases pc with
      | acquire => exact act hg (by simp) rfl rfl rfl
      | command => exact act hg (by simp) rfl rfl rfl
      | release => exact act hg (by simp) rfl rfl rfl
      | busy i => exact device (by rw [termDone, hg])
      | load i =>
          have ha : s.target q a = some (userByte (s.saved a) i) := by rw [target_eq, hg]; rfl
          obtain ⟨x, hx, hk⟩ := hm _ ha
          obtain ⟨k, hk⟩ : ∃ k, s.vm.access (a, x.1) = some k := by
            obtain ⟨k, hk⟩ := Option.ne_none_iff_exists'.mp hk
            exact ⟨k, VM.access_of_store hk⟩
          have hc : s.byteAt a (userByte (s.saved a) i) =
              some (byteOf (s.vm.frame k x.2.1) x.2.2) := by
            rw [byteAt, hx, Option.bind_some, hk, Option.map_some]
          refine ⟨.mem (.load q a x.1 x.2.1 (s.vm.frame k x.2.1)),
            s.setPc q (.sys4 (.command i (byteOf (s.vm.frame k x.2.1) x.2.2))), rfl,
            by rintro _ ⟨⟩, ?_, .inl ?_⟩
          · rw [hbm rfl, memStep, VM.step, if_pos ⟨hq, by rw [hk]; rfl⟩, Option.bind_some, hg]
            show ((s.target q a).bind fun addr => _) = _
            rw [ha, Option.bind_some, hx, Option.bind_some, if_pos ⟨rfl, rfl⟩]
          · rw [termAct_load ha hc]
            simp
  | sys5 pc =>
      cases pc with
      | acquire => exact act hg (by simp) rfl rfl rfl
      | command => exact act hg (by simp) rfl rfl rfl
      | release => exact act hg (by simp) rfl rfl rfl
      | busy i => exact device (by rw [termDone, hg])
      | store i c =>
          have ha : s.target q a = some (userByte (s.saved a) i) := by rw [target_eq, hg]; rfl
          obtain ⟨x, hx, hk⟩ := hm _ ha
          obtain ⟨k, hk⟩ := Option.ne_none_iff_exists'.mp hk
          have ht : s.step (.mem (.store q a x.1 x.2.1 (withByte (s.vm.frame k x.2.1) x.2.2 c))) =
              some ({ s with vm := s.vm.poke k x.2.1 (withByte (s.vm.frame k x.2.1) x.2.2 c) }.setPc q
                (sys5Loop (i + 1) (some c))) := by
            rw [hbm rfl, memStep, VM.step, if_pos hq, hk, Option.map_some, Option.bind_some, hg]
            show ((s.target q a).bind fun addr => _) = _
            rw [ha, Option.bind_some, hx, Option.bind_some, if_pos ⟨rfl, rfl, rfl⟩]
          obtain ⟨j, b, hj, -, hc, -⟩ := step_store ht hq (by rw [hg]; simp)
          rw [hg] at hj
          cases hj
          refine ⟨_, _, rfl, by rintro _ ⟨⟩, ht, .inl ?_⟩
          rw [termAct_store ha hc]
          simp
  | ldst =>
      refine ⟨.handler q, s.setPc q .user, rfl, by rintro _ ⟨⟩, by rw [hst, hg]; rfl, .inl ?_⟩
      rw [termAct_ldst hq hg]
      simp
  | _ => rw [hg] at hpc; exact hpc.elim

/-! ### Calls -/

theorem accepted_of_handler (h : (supportGeneralExHandler a sv).1 = acquirePc d) :
    Accepted sv d := by
  unfold supportGeneralExHandler syscallHandler at h
  split_ifs at h
  · cases d <;> cases h
  · cases d with
    | tx => exact h
    | rx => unfold sys4_writeTerminal at h; split_ifs at h <;> cases h
  · cases d with
    | tx => unfold sys5_readTerminal at h; split_ifs at h <;> cases h
    | rx => exact h
  · unfold sys6_execute at h
    split_ifs at h
    · cases d <;> cases h
    · split at h <;> cases d <;> cases h
  · cases d <;> cases h
  · cases d <;> cases h

/-- The shell, its first page resident, calls `READTERMINAL`. -/
def reads : List (SupportEvent 16) :=
  launch ++ pageFault 1 (.shell, page0) slot0 ++ pageIn 1 ++ [.ecall 1 readTerminal 0x80000000 0]

/-- The terminal delivers `a` and a newline. -/
def line : List (SupportEvent 16) :=
  .replicate 3 (.handler 1) ++ [.termDone 1 0x6105, .mem (.store 1 .shell page0 word0 0x61),
    .handler 1, .termDone 1 0x0A05, .mem (.store 1 .shell page0 word0 0x0A61), .handler 1,
    .handler 1]

/-- What the shell does for them. -/
def lineActs : List TermAct :=
  [.passeren .rx, .receive receiveChar, .status 0x6105, .store 0x80000000 0x61,
    .receive receiveChar, .status 0x0A05, .store 0x80000001 0x0A, .verhogen .rx, .resume 2]

end Support

end PandOS
