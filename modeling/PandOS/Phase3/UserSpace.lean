import PandOS.Phase3.Progress

/-!
# Phase 3 — the memory the terminal services touch

`sys4_writeTerminal` and `sys5_readTerminal` compare the first address of the string or the buffer
with `KUSEG` and no other, and `str + i` is computed modulo `2 ^ 32`.  A loop goes on to the next
address only once the load or the store at this one has been made, through the TLB; no page-table
entry has a VPN from `0xC0000` on, so the loop stops far below the end of memory, retrying.  As on
every run of `Support`, the TLB is refilled from the entries of `sup_privatePgTbl` only.

`NextByte` says at each statement of a call that the byte it touches next is in user space.

* `Support.user_space_of_run`: on every run, every address a terminal service touches, and every
  address it is about to touch, is in user space.
-/

namespace PandOS

/-- The first address above those that have a page-table entry. -/
def userEnd : ℕ := 0xC0000000

theorem userAddr_mem {addr : Word} (h : userAddr addr ≠ none) :
    kuseg ≤ addr.toNat ∧ addr.toNat < userEnd := by
  obtain ⟨x, hx⟩ := Option.ne_none_iff_exists'.mp h
  obtain ⟨p, hp, -⟩ := Option.map_eq_some_iff.mp hx
  have hv : vpn p = addr.toNat / pageSize := by simpa using List.find?_some hp
  have hlow : 0x80000 ≤ vpn p ∧ vpn p ≤ 0xBFFFF := by
    have hlt := p.isLt
    unfold vpn maxPages at *
    split <;> omega
  unfold pageSize kuseg userEnd at *
  omega

section
variable {sv : Saved} {g g' : GenPc} {x : Answer} {a : Asid} {i : ℕ}

theorem userByte_succ (sv : Saved) (i : ℕ) : userByte sv (i + 1) = userByte sv i + 1 := by
  rw [userByte, userByte, BitVec.add_assoc]
  congr 1
  apply BitVec.eq_of_toNat_eq
  simp

/-- The address after one that is mapped is in user space. -/
theorem kuseg_le_succ (h : userAddr (userByte sv i) ≠ none) :
    kuseg ≤ (userByte sv (i + 1)).toNat := by
  obtain ⟨hlo, hhi⟩ := userAddr_mem h
  rw [userByte_succ, BitVec.toNat_add]
  unfold kuseg userEnd at *
  simp
  omega

/-! ### One call -/

/-- The byte a call touches next is in user space. -/
def NextByte (sv : Saved) : GenPc → Prop
  | .sys4 .acquire | .sys5 .acquire => kuseg ≤ (userByte sv 0).toNat
  | .sys4 (.load i) | .sys5 (.command i) | .sys5 (.busy i) | .sys5 (.store i _) =>
      kuseg ≤ (userByte sv i).toNat
  | .sys4 (.command i _) | .sys4 (.busy i) => kuseg ≤ (userByte sv (i + 1)).toNat
  | _ => True

theorem NextByte.touches {addr : Word} (h : NextByte sv g) (ha : touches sv g = some addr) :
    kuseg ≤ addr.toNat := by
  unfold PandOS.touches at ha
  split at ha
  · cases ha; exact h
  · cases ha; exact h
  · cases ha

/-- `reg_a0` plays no part in it. -/
theorem nextByte_a0 (sv : Saved) (r : Word) (g : GenPc) :
    NextByte { sv with reg_a0 := r } g ↔ NextByte sv g := Iff.rfl

theorem nextByte_sys4Loop (h : kuseg ≤ (userByte sv i).toNat) : NextByte sv (sys4Loop sv i) := by
  rcases sys4Loop_cases sv i with ⟨-, he⟩ | ⟨a0, he⟩
  · rw [he]; exact h
  · rw [he]; trivial

theorem nextByte_sys5Loop (c : Option (BitVec 8)) (h : kuseg ≤ (userByte sv i).toNat) :
    NextByte sv (sys5Loop i c) := by
  rcases sys5Loop_cases i c with he | ⟨a0, he⟩
  · rw [he]; exact h
  · rw [he]; trivial

/-- A service is entered with a first address in user space. -/
theorem nextByte_handler (a : Asid) (sv : Saved) :
    NextByte sv (supportGeneralExHandler a sv).1 := by
  have first : ¬ sv.reg_a1.toNat < kuseg → kuseg ≤ (userByte sv 0).toNat := by
    intro h
    simpa [userByte] using h
  unfold supportGeneralExHandler syscallHandler
  split_ifs
  · trivial
  · dsimp only
    unfold sys4_writeTerminal
    split
    · trivial
    · rename_i h
      exact first fun hlt => h (.inr (.inr hlt))
  · dsimp only
    unfold sys5_readTerminal
    split
    · trivial
    · rename_i h
      exact first h
  · unfold sys6_execute
    split
    · trivial
    · split <;> trivial
  · trivial
  · trivial

/-- **A statement of a call**, where the address it touches is mapped. -/
theorem NextByte.transfer (h : NextByte sv g)
    (hm : ∀ addr, PandOS.touches sv g = some addr → userAddr addr ≠ none)
    (ht : transfer sv g x = some g') : NextByte sv g' := by
  cases g with
  | sys4 pc =>
      cases pc with
      | acquire => cases x <;> cases ht; exact nextByte_sys4Loop h
      | load i => cases x <;> cases ht; exact kuseg_le_succ (hm _ rfl)
      | command i c => cases x <;> cases ht; exact h
      | busy i =>
          cases x with
          | status w =>
              rw [← Option.some.inj ht]
              split
              · trivial
              · exact nextByte_sys4Loop h
          | _ => cases ht
      | release a0 => cases x <;> cases ht; trivial
  | sys5 pc =>
      cases pc with
      | acquire => cases x <;> cases ht; exact nextByte_sys5Loop _ h
      | command i => cases x <;> cases ht; exact h
      | busy i =>
          cases x with
          | status w =>
              rw [← Option.some.inj ht]
              split
              · trivial
              · exact h
          | _ => cases ht
      | store i c => cases x <;> cases ht; exact nextByte_sys5Loop _ (kuseg_le_succ (hm _ rfl))
      | release a0 => cases x <;> cases ht; trivial
  | _ => cases x <;> cases ht

/-- In one of the two services. -/
def InService : GenPc → Prop
  | .sys4 _ | .sys5 _ => True
  | _ => False

theorem inService_cases (hg : InService g) : (∃ pc, g = .sys4 pc) ∨ ∃ pc, g = .sys5 pc := by
  cases g with
  | sys4 pc => exact .inl ⟨pc, rfl⟩
  | sys5 pc => exact .inr ⟨pc, rfl⟩
  | _ => exact hg.elim

/-- Elsewhere nothing is touched. -/
theorem nextByte_of_not_inService (hg : ¬ InService g) : NextByte sv g := by
  cases g with
  | sys4 | sys5 => exact absurd trivial hg
  | _ => trivial

end

/-! ### Every run -/

namespace Support

variable {n : ℕ} {s t : Support n} {e : SupportEvent n} {es : List (SupportEvent n)} {q : Pid}
  {a : Asid} {c : Ctl} {l : List Word}

/-- The address a step loads or stores in kernel mode. -/
def kernelAccess (s : Support n) : SupportEvent n → Option Word
  | .mem (.load q a _ _ _) | .mem (.store q a _ _ _) => s.target q a
  | _ => none

/-- The addresses touched in kernel mode so far. -/
def kernelAccesses (s : Support n) (e : SupportEvent n) (_ : Support n) (l : List Word) :
    List Word := l ++ (s.kernelAccess e).toList

/-- Whatever terminal services are under way, the bytes they touch next are in user space. -/
def InUser (s : Support n) : Prop :=
  ∀ q a c, s.vm.proc q = some ⟨a, c⟩ → NextByte (s.saved a) (s.pc q)

theorem byteAt_mapped {addr : Word} {b : BitVec 8} (h : s.byteAt a addr = some b) :
    userAddr addr ≠ none := by
  obtain ⟨x, hx, -⟩ := Option.bind_eq_some_iff.mp h
  rw [hx]
  simp

/-- A service gets past an address only where it is mapped. -/
theorem mapped_of_moved {addr : Word} (hs : s.step e = some t) (he : e.subject = some q)
    (hq : s.vm.proc q = some ⟨a, .run⟩) (ha : touches (s.saved a) (s.pc q) = some addr)
    (hne : t.pc q ≠ s.pc q) (hsig : t.pc q ≠ .signal) : userAddr addr ≠ none := by
  have hu : s.pc q ≠ .user := fun hg => by rw [hg] at ha; cases ha
  have hx : s.pc q ≠ .term := fun hg => by rw [hg] at ha; cases ha
  cases handling hs he hq hu hx with
  | load he' hg =>
      subst he'
      obtain ⟨i, b, hg', -, hb, -⟩ := step_load hs hq hu
      rw [hg'] at ha
      cases ha
      exact byteAt_mapped hb
  | store he' hg =>
      subst he'
      obtain ⟨i, b, hg', -, hb, -⟩ := step_store hs hq hu
      rw [hg'] at ha
      cases ha
      exact byteAt_mapped hb
  | refill _ _ _ ht => exact absurd (congrArg (fun u => u.pc q) ht) hne
  | @fault _ _ u _ _ _ _ ht =>
      rcases withVm_pc (s := s) (q := q) (u := u) with hp | ⟨hp, -⟩
      · exact absurd (by rw [ht, hp]) hne
      · exact absurd (by rw [ht, hp, Function.update_self]) hsig
  | handler _ ht =>
      cases hg : s.pc q with
      | sys4 pc =>
          rw [hg] at ha ht
          cases pc with
          | load => cases ht
          | _ => cases ha
      | sys5 pc =>
          rw [hg] at ha ht
          cases pc with
          | store => cases ht
          | _ => cases ha
      | _ => rw [hg] at ha; cases ha
  | noPcb _ hg => rw [hg] at ha; cases ha
  | termDone _ ht =>
      unfold termDone at ht
      split at ht
      · rename_i hg; rw [hg] at ha; cases ha
      · rename_i hg; rw [hg] at ha; cases ha
      · cases ht

/-- Outside its services a U-proc comes to one of them only through its handler. -/
theorem Step.outside {sv : Saved} (h : Step s e t) (hlt : q ≠ s.vm.nextPid)
    (hpc : ¬ InService (s.pc q)) (hh : s.pc q ≠ .handler) :
    NextByte sv (t.pc q) := by
  have same : t.pc = s.pc → NextByte sv (t.pc q) := fun hp => by
    rw [hp]
    exact nextByte_of_not_inService hpc
  -- `i` moves to `g`
  have upd : ∀ {i : Pid} {g : GenPc}, t.pc = Function.update s.pc i g →
      (i = q → NextByte sv g) → NextByte sv (t.pc q) := by
    intro i g hp hg
    rw [hp, Function.update_apply]
    split
    · rename_i hqi; exact hg hqi.symm
    · exact nextByte_of_not_inService hpc
  have never : ∀ {i : Pid} {g : GenPc}, s.pc i = g → InService g ∨ g = .handler → i ≠ q := by
    rintro i g hg hs rfl
    rcases hs with hs | hs
    · exact hpc (hg ▸ hs)
    · exact hh (hg.trans hs)
  have vm : ∀ {i : Pid} {u : VM n}, t = s.withVm i u → NextByte sv (t.pc q) := by
    rintro i u rfl
    rcases withVm_pc (s := s) (q := i) (u := u) with hp | ⟨hp, -⟩
    · exact same hp
    · exact upd hp fun _ => trivial
  cases h with
  | testInit | testInitDone | testWait | load | store | refill | flashDone => exact same rfl
  | testCreate => exact upd rfl fun _ => trivial
  | testTerm | term => exact same (foldl_remove _ s).1
  | fault | pager => exact vm rfl
  | ecall | trap => exact upd rfl fun _ => trivial
  | dispatch _ _ hg => exact upd rfl fun hi => absurd hi (never hg (.inr rfl))
  | doom | sys6Init | sys6InitDone | sys6Wait | ldst | noPcb => exact upd rfl fun _ => trivial
  -- a statement of a service is not one of `q`
  | sys4Load _ hg | sys5Store _ hg | sys4Done _ hg | sys5Done _ hg =>
      exact upd rfl fun hi => absurd hi (never hg (.inl trivial))
  | sys4Acquire _ _ hg | sys4Command _ _ hg | sys4Release _ _ hg | sys5Acquire _ _ hg
  | sys5Command _ _ hg | sys5Release _ _ hg =>
      exact upd rfl fun hi => absurd hi (never hg (.inl trivial))
  | @sys6Create i =>
      show NextByte sv (Function.update (Function.update s.pc s.vm.nextPid .user) i (.sys6 .wait) q)
      rw [Function.update_apply, Function.update_of_ne hlt]
      split
      · trivial
      · exact nextByte_of_not_inService hpc
  | signal => exact upd (signal_setPc (s := s)).2 fun _ => trivial

/-- In a service a step changes of the saved registers `reg_a0` only. -/
theorem Step.saved_own (h : Step s e t) (he : e.subject = some q)
    (hq : s.vm.proc q = some ⟨a, .run⟩) (hg : InService (s.pc q)) :
    ∃ v, t.saved a = { s.saved a with reg_a0 := v } := by
  have no : ∀ {x : GenPc}, s.pc q = x → ¬ InService x → False := fun hx hn => hn (hx ▸ hg)
  have same : t.saved = s.saved → ∃ v, t.saved a = { s.saved a with reg_a0 := v } :=
    fun ht => ⟨(s.saved a).reg_a0, by rw [ht]⟩
  -- the value to return is saved
  have release : ∀ {b : Asid} {a0 : Word}, s.vm.proc q = some ⟨b, .run⟩ →
      t.saved = Function.update s.saved b { s.saved b with reg_a0 := a0 } →
      ∃ v, t.saved a = { s.saved a with reg_a0 := v } := by
    intro b a0 hb ht
    rw [hq] at hb
    cases hb
    exact ⟨a0, by rw [ht, Function.update_self]⟩
  cases h with
  | fault | pager => exact same withVm_saved
  | ecall _ hx | trap _ hx => cases he; exact (no hx id).elim
  | dispatch _ _ hx => cases he; exact (no hx id).elim
  | sys4Release _ hb | sys5Release _ hb => cases he; exact release hb rfl
  | testTerm => cases he
  | term _ _ hx => cases he; exact (no hx id).elim
  | signal _ _ hx => cases he; exact (no hx id).elim
  | _ => exact same rfl

/-- What a step of a U-proc makes of its own next byte. -/
theorem InUser.own {c' : Ctl} (h : s.InUser) (hs : s.step e = some t) (he : e.subject = some q)
    (hlt : q < s.vm.nextPid) (hq : s.vm.proc q = some ⟨a, c'⟩) :
    ∀ c, t.vm.proc q = some ⟨a, c⟩ → NextByte (t.saved a) (t.pc q) := by
  intro c hq'
  have hst := step_view hs
  have hn := h q a c' hq
  have vm : ∀ {u : VM n}, t = s.withVm q u → NextByte (t.saved a) (t.pc q) := by
    rintro u rfl
    rw [withVm_saved]
    rcases withVm_pc (s := s) (q := q) (u := u) with hp | ⟨hp, -⟩
    · rw [hp]; exact hn
    · rw [hp, Function.update_self]; trivial
  cases hst.mover he with
  | signal _ _ _ ht => rw [ht, setPc_self]; trivial
  | term _ _ hpc ht =>
      have hp : t.pc q = s.pc q := by rw [ht]; exact congrFun (foldl_remove _ s).1 q
      rw [hp, hpc]
      trivial
  | pager _ hev =>
      subst hev
      cases hst with
      | pager => exact vm rfl
  | device _ _ hev =>
      obtain ⟨junk, rfl⟩ := hev
      cases hst with
      | flashDone => exact hn
  | @run b hq'' =>
      obtain rfl : b = a := by rw [hq] at hq''; exact (congrArg Proc.asid (Option.some.inj hq'')).symm
      by_cases hg : InService (s.pc q)
      · obtain ⟨v, hsv⟩ := hst.saved_own he hq'' hg
        rw [hsv, nextByte_a0]
        rcases hst.transfer he hq'' (inService_cases hg) with ⟨x, ht⟩ | hp | hp
        · by_cases hne : t.pc q = s.pc q
          · rw [hne]; exact hn
          by_cases hsig : t.pc q = .signal
          · rw [hsig]; trivial
          exact hn.transfer (fun addr ha => mapped_of_moved hs he hq'' ha hne hsig) ht
        · rw [hp]; exact hn
        · rw [hp]; trivial
      by_cases hh : s.pc q = .handler
      · obtain ⟨-, ⟨-, rfl⟩ | ⟨-, rfl⟩⟩ := of_handler hs he hq'' hh
        · rw [setPc_self]; trivial
        · rw [setPc_self]
          show NextByte (Function.update s.saved b { s.saved b with reg_a0 := _ } b) _
          rw [Function.update_self, nextByte_a0]
          exact nextByte_handler ..
      · exact hst.outside hlt.ne hg hh

/-- What a step of another makes of it: nothing. -/
theorem Sane.others (hg : s.Sane) (hs : Step s e t) (he : e.subject ≠ some q)
    (hlt : q < s.vm.nextPid) (hq' : t.vm.proc q ≠ none) :
    t.vm.proc q = s.vm.proc q ∧ t.pc q = s.pc q := by
  cases hg.parked.moves hs with
  | plain frame => exact frame q hlt he
  | terminates i _ ht =>
      obtain ⟨tp, rfl⟩ := ht
      obtain ⟨hp, -, -, -, -, -, hv⟩ := foldl_remove (s.progeny i) s
      have hv' : (s.terminate i).vm.proc q ≠ none := hq'
      rw [Support.terminate, hv] at hv'
      split at hv'
      · exact absurd rfl hv'
      · rename_i hno
        exact ⟨(hv q).trans (if_neg hno), congrFun hp q⟩

/-- A step keeps the next access of every handler in user space. -/
theorem InUser.step (h : s.InUser) (hg : s.Sane) (hd : t.Doomed) (hs : s.step e = some t) :
    t.InUser := by
  intro q a c hq
  have hst := step_view hs
  by_cases hc : c = .dying
  · rcases (hd q a c hq).mp hc with hpc | hpc <;> rw [hpc] <;> trivial
  · rcases (hg.good.under hst).live_from hq with ⟨c', hold⟩ | ⟨⟨b, hb⟩, rfl⟩
    · have hlt := hg.parked.lt (q := q) (by rw [hold]; simp)
      by_cases he : e.subject = some q
      · exact h.own hs he hlt hold c hq
      · obtain ⟨hv, hp⟩ := hg.others hst he hlt (by rw [hq]; simp)
        rw [hv] at hq
        rw [hp, hg.good.saved hst hq hc he]
        exact h q a c hq
    · rw [hst.created hg.good.iso.excl hb]
      trivial

/-- An access in kernel mode is at the address its process was about to touch. -/
theorem Step.kernelAccess {addr : Word} (h : Step s e t) (ha : s.kernelAccess e = some addr) :
    ∃ q a c, s.vm.proc q = some ⟨a, c⟩ ∧ s.target q a = some addr := by
  cases h with
  | load _ _ hu | sys4Load _ _ hu => cases VM.step_view hu with | load hi => exact ⟨_, _, _, hi, ha⟩
  | store _ _ hu | sys5Store _ _ hu =>
      cases VM.step_view hu with | store hi => exact ⟨_, _, _, hi, ha⟩
  | _ => cases ha

/-- **The terminal services touch only user space.**  On every run every address they have loaded
or stored, and every address one of them is about to load or store, is at `KUSEG` or above. -/
theorem user_space_of_run {flash : PageId → Page} {frame : FrameNo → Page} {reg : Asid → FlashReg}
    (hr : Run (record step kernelAccesses) anyStep (.boot flash frame reg, []) es (s, l)) :
    (∀ addr ∈ l, kuseg ≤ addr.toNat) ∧
      ∀ q a c addr, s.vm.proc q = some ⟨a, c⟩ → s.target q a = some addr → kuseg ≤ addr.toNat := by
  have next : ∀ {u : Support n}, u.InUser → ∀ q a c addr, u.vm.proc q = some ⟨a, c⟩ →
      u.target q a = some addr → kuseg ≤ addr.toNat := by
    intro u hu q a c addr hq ha
    rw [target_eq] at ha
    exact (hu q a c hq).touches ha
  have hinv : (s.Sane ∧ s.Doomed ∧ s.InUser) ∧ ∀ addr ∈ l, kuseg ≤ addr.toNat := by
    refine hr.inv (I := fun x => (x.1.Sane ∧ x.1.Doomed ∧ x.1.InUser) ∧
      ∀ addr ∈ x.2, kuseg ≤ addr.toNat)
      ⟨⟨Sane.boot flash frame reg, by rintro _ _ _ ⟨⟩, by rintro _ _ _ ⟨⟩⟩, by simp⟩ ?_
    rintro ⟨u, l⟩ e ⟨v, l'⟩ ⟨⟨hg, hd, hu⟩, hl⟩ - hs
    obtain ⟨hst, hnote⟩ := record_eq_some hs
    obtain rfl : l' = kernelAccesses u e v l := hnote
    have hd' := hd.step (step_view hst)
    refine ⟨⟨hg.step (step_view hst), hd', hu.step hg hd' hst⟩, fun addr hm => ?_⟩
    rcases List.mem_append.mp hm with hm | hm
    · exact hl addr hm
    · obtain ⟨q, a, c, hq, ha⟩ := (step_view hst).kernelAccess (Option.mem_toList.mp hm)
      exact next hu q a c addr hq ha
  exact ⟨hinv.2, next hinv.1.2.2⟩

/-- The shell writes two characters, of which the first is the last byte of its last page. -/
def lastByte : List (SupportEvent 16) :=
  launch ++ [.ecall 1 writeTerminal 0xBFFFFFFF 2, .handler 1, .handler 1] ++
    pageFault 1 (.shell, .last 31) slot0 ++ pageIn 1 ++
    [.mem (.load 1 .shell (.last 31) (.last 1023) 0), .handler 1, .termDone 1 5]

/-- The second character is at an address with no page-table entry, above `KUSEG`. -/
theorem user_space_of_run_lastByte : ∃ s l,
    Run (record step kernelAccesses) anyStep (blank, []) lastByte (s, l) ∧ l = [0xBFFFFFFF] ∧
      s.target 1 .shell = some 0xC0000000 ∧ userAddr 0xC0000000 = none ∧
      (∀ addr ∈ l, kuseg ≤ addr.toNat) ∧ kuseg ≤ (0xC0000000 : Word).toNat := by
  obtain ⟨⟨s, l⟩, hr, hl, hq, ha⟩ := exists_run (record step kernelAccesses) anyStep
    (fun x => x.2 = [0xBFFFFFFF] ∧ x.1.vm.proc 1 = some ⟨.shell, .run⟩ ∧
      x.1.target 1 .shell = some 0xC0000000) (blank, []) lastByte (by decide +kernel)
  obtain ⟨hall, hnext⟩ := user_space_of_run hr
  exact ⟨s, l, hr, hl, ha, by decide +kernel, hall, hnext 1 .shell _ _ hq ha⟩

end Support

end PandOS
