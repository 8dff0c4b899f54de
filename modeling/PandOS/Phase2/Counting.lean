import PandOS.Lib.Semaphore
import PandOS.Phase2.Idle

/-!
# Phase 2 — `PASSEREN` and `VERHOGEN` are a counting semaphore

`counting_of_run`: a word that is no device's and that only the two services and the killer change
obeys the counting law (`Ledger`): who waits is counted below 0, and the calls of `PASSEREN` that
have let their caller go on are the tokens given less those still there.
-/

namespace PandOS

namespace Kernel

variable {L : Layout} {s t : Kernel} {lossy : Prop} {a : Word} {p : PcbId}

/-- `VERHOGEN` on `a`. -/
def Signals (a : Word) (s : Kernel) (e : KernelEvent) : Prop := s.act e = .signal a

instance (a : Word) (s : Kernel) (e : KernelEvent) : Decidable (s.Signals a e) :=
  inferInstanceAs (Decidable (_ = _))

/-- A call of `PASSEREN` on `a` lets its caller go on: now, or when `VERHOGEN` releases it. -/
def LetsOn (a : Word) (s : Kernel) (e : KernelEvent) : Prop :=
  s.act e = .pass a ∨ s.act e = .signal a ∧ (s.mem a + 1).toInt ≤ 0 ∧ s.queue a ≠ []

instance (a : Word) (s : Kernel) (e : KernelEvent) : Decidable (s.LetsOn a e) :=
  inferInstanceAs (Decidable (_ ∨ _))

/-- The word to which the running process stores. -/
def Act.storesTo : Act → Option Word
  | .store a _ => some a
  | _ => none

/-- The running process does not store to `a`. -/
def Spares (a : Word) (s : Kernel) (e : KernelEvent) : Prop := (s.act e).storesTo ≠ some a

instance (a : Word) (s : Kernel) (e : KernelEvent) : Decidable (s.Spares a e) :=
  inferInstanceAs (Decidable (_ ≠ _))

/-- The law of the word at `a`: `given` tokens were given to it, `taken` were taken. -/
def Obeys (a : Word) (given taken : ℕ) (s : Kernel) : Prop :=
  Ledger (s.mem a).toInt (s.queue a).length given taken

/-- A word that is the queue's length below 0 is far from the smallest one. -/
theorem Obeys.low {g k : ℕ} (h : s.Obeys a g k) (hs : Sound lossy s) : -2 ^ 31 < (s.mem a).toInt := by
  have hlen := hs.links.queue_short a
  have hw := h.waiters
  have h20 : maxProc = 20 := rfl
  omega

/-- The law where word and queue are as they were. -/
theorem Obeys.of_eq {g k : ℕ} (h : s.Obeys a g k) (hw : t.mem a = s.mem a)
    (hq : t.queue a = s.queue a) : t.Obeys a g k := by
  unfold Obeys at h ⊢
  rwa [hw, hq]

/-- An act that does not concern `a`. -/
theorem Obeys.frame {x : Act} {g k : ℕ} (h : s.Obeys a g k) (he : t.sems = x.sems L s t)
    (hw : (x.sems L s t).word a = s.mem a ∧ (x.sems L s t).queue a = s.queue a) :
    t.Obeys a g k :=
  h.of_eq ((congrFun (congrArg Sems.word he) a).trans hw.1)
    ((congrFun (congrArg Sems.queue he) a).trans hw.2)

/-- Processes of the queue are killed, with their tokens. -/
theorem Obeys.cull {g k : ℕ} {live : PcbId → Prop} [DecidablePred live] (h : s.Obeys a g k)
    (ha : ¬ isSoftBlockSemaphore L a) (he : t.sems = s.sems.cull L live) : t.Obeys a g k := by
  have hq : t.queue a = (s.queue a).filter fun p => live p := congrFun (congrArg Sems.queue he) a
  have hword : t.mem a = s.mem a + BitVec.ofNat 32 (s.sems.lost a live) :=
    (congrFun (congrArg Sems.word he) a).trans (if_neg ha)
  have hle := List.length_filter_le (fun p => decide (live p)) (s.queue a)
  have hlost : s.sems.lost a live = (s.queue a).length - (t.queue a).length := by rw [hq]; rfl
  rw [hq] at hlost
  have hval : (t.mem a).toInt = (s.mem a).toInt + s.sems.lost a live := by
    have hw := h.waiters
    have hhi : (s.mem a).toInt < 2 ^ 31 := BitVec.toInt_lt
    rw [hword]
    exact toInt_add_nat (by omega)
  unfold Obeys
  rw [hval, show (t.queue a).length = (s.queue a).length - s.sems.lost a live by rw [hq]; omega]
  exact Ledger.drop h (by omega)

/-- An act keeps the law. -/
theorem Obeys.did {x : Act} {g k : ℕ} (h : s.Obeys a g k) (hs : Sound lossy s)
    (ha : ¬ isSoftBlockSemaphore L a) (he : t.sems = x.sems L s t) (hdid : Did L s x t)
    (hd : ∀ w ∈ x.blocksOn L, s.HasSemd w) (hsp : x.storesTo ≠ some a)
    (hg : x = .signal a → g + 1 < 2 ^ 31) :
    t.Obeys a (g + if x = .signal a then 1 else 0)
      (k + if x = .pass a ∨ x = .signal a ∧ (s.mem a + 1).toInt ≤ 0 ∧ s.queue a ≠ [] then 1
        else 0) := by
  have hlow := h.low hs
  have hj : ∀ j, a ≠ L.sem j := fun j hj => ha (hj ▸ L.soft_sem j)
  -- an act that is no `P` and no `V` of `a` counts for neither
  have still : x ≠ .pass a → x ≠ .signal a → t.Obeys a g k →
      t.Obeys a (g + if x = .signal a then 1 else 0)
        (k + if x = .pass a ∨ x = .signal a ∧ (s.mem a + 1).toInt ≤ 0 ∧ s.queue a ≠ [] then 1
          else 0) := by
    intro hp hv ht
    rw [if_neg hv, if_neg fun hor => hor.elim hp fun h => hv h.1]
    exact ht
  cases x with
  | pass b =>
      by_cases hb : b = a
      · subst hb
        have hneg := hdid.2.2.1
        have hword : t.mem b = s.mem b - 1 :=
          (congrFun (congrArg Sems.word he) b).trans (Function.update_self ..)
        have hq : t.queue b = s.queue b := congrFun (congrArg Sems.queue he) b
        rw [if_neg nofun, if_pos (.inl rfl), add_zero]
        rw [toInt_sub_one hlow] at hneg
        unfold Obeys
        rw [hword, hq, toInt_sub_one hlow]
        exact Ledger.take h (by omega)
      · exact still (fun h => hb (Act.pass.inj h)) nofun
          (h.frame he ⟨Function.update_of_ne (Ne.symm hb) .., rfl⟩)
  | block b =>
      refine still nofun nofun ?_
      by_cases hb : b = a
      · subst hb
        have hneg := hdid.2
        have hword : t.mem b = s.mem b - 1 :=
          (congrFun (congrArg Sems.word he) b).trans (Function.update_self ..)
        have hq : (t.queue b).length = (s.queue b).length + 1 :=
          (congrArg List.length ((congrFun (congrArg Sems.queue he) b).trans
            (Function.update_self ..))).trans (joined_length hdid.1.current (hd b rfl))
        rw [toInt_sub_one hlow] at hneg
        unfold Obeys
        rw [hword, hq, toInt_sub_one hlow]
        exact Ledger.wait h hneg
      · exact h.frame he (Sems.down_other (Ne.symm hb) _)
  | signal b =>
      by_cases hb : b = a
      · subst hb
        rw [if_pos rfl]
        have hhi : (s.mem b).toInt + 1 < 2 ^ 31 := by
          have := h.balance
          have := hg rfl
          omega
        have hsucc := toInt_add_one hhi
        have hwait := h.waiters
        by_cases hle : (s.mem b + 1).toInt ≤ 0
        · have he' : t.sems = (s.sems.up b).release b := he.trans (if_pos hle)
          have hword : t.mem b = s.mem b + 1 :=
            (congrFun (congrArg Sems.word he') b).trans (Function.update_self ..)
          have hq : t.queue b = (s.queue b).tail :=
            (congrFun (congrArg Sems.queue he') b).trans (Function.update_self ..)
          unfold Obeys at h ⊢
          rw [hword, hq, hsucc]
          rw [hsucc] at hle
          cases hqs : s.queue b with
          | nil =>
              rw [hqs] at hwait
              simp only [List.length_nil] at hwait
              omega
          | cons p rest =>
              rw [hqs] at h
              rw [if_pos (.inr ⟨rfl, by omega, List.cons_ne_nil p rest⟩)]
              exact Ledger.hand h
        · have he' : t.sems = s.sems.up b := he.trans (if_neg hle)
          have hword : t.mem b = s.mem b + 1 :=
            (congrFun (congrArg Sems.word he') b).trans (Function.update_self ..)
          have hq : t.queue b = s.queue b := congrFun (congrArg Sems.queue he') b
          rw [if_neg fun hor => hor.elim nofun fun h => hle h.2.1, add_zero]
          rw [hsucc] at hle
          have hnil : (s.queue b).length = 0 := by omega
          unfold Obeys at h ⊢
          rw [hword, hq, hsucc, hnil]
          rw [hnil] at h
          exact Ledger.give h
      · exact still nofun (fun h => hb (Act.signal.inj h))
          (h.frame he (Sems.signal_other (Ne.symm hb)))
  | kill p => exact still nofun nofun (h.cull ha he)
  | store b v =>
      have hb : a ≠ b := fun hab => hsp (congrArg some hab.symm)
      exact still nofun nofun (h.frame he ⟨Function.update_of_ne hb .., rfl⟩)
  | io j => exact still nofun nofun (h.frame he (Sems.down_other (hj j) _))
  | clockWait => exact still nofun nofun (h.frame he (Sems.down_other (hj pseudoClock) _))
  | wake l => exact still nofun nofun (h.frame he (Sems.wakes_other fun x _ => hj x.1))
  | tick => exact still nofun nofun (h.frame he (Sems.tick_other (hj pseudoClock)))
  | quiet | create | requeue => exact still nofun nofun (h.frame he ⟨rfl, rfl⟩)

/-- **A step keeps the law.** -/
theorem Obeys.step {e : KernelEvent} {g k : ℕ} (h : s.Obeys a g k) (hs : Sound lossy s)
    (ha : ¬ isSoftBlockSemaphore L a) (hst : s.step L e = some t) (hd : s.Admits L e)
    (hsp : s.Spares a e) (hg : s.Signals a e → g + 1 < 2 ^ 31) :
    t.Obeys a (g + if s.Signals a e then 1 else 0) (k + if s.LetsOn a e then 1 else 0) :=
  h.did hs ha (hs.sems_step hst) (did_step hst) hd hsp hg

/-! ### Runs -/

section
variable {mem : Word → Word} {support : Word → SupportT} {test ramtop tod : Word} {s₀ : Kernel}
  {es₀ es : List KernelEvent} {k : ℕ}

/-- What counts in a run. -/
abbrev Counting (L : Layout) (a : Word) (s : Kernel) (e : KernelEvent) : Prop :=
  s.Admits L e ∧ s.Spares a e

/-- On every run the word obeys the tallies of the tokens given and taken. -/
theorem obeys_of_run (ha : ¬ isSoftBlockSemaphore L a)
    (h₀ : Run (step L) anyStep (initKernel L mem support test ramtop tod) es₀ s₀)
    (hq : s₀.queue a = []) (hk : (s₀.mem a).toInt = k) (h : Run (step L) (Counting L a) s₀ es s)
    (hn : k + tally (step L) (Signals a) s₀ es < 2 ^ 31) :
    s.Obeys a (k + tally (step L) (Signals a) s₀ es) (tally (step L) (LetsOn a) s₀ es) := by
  induction h with
  | nil =>
      unfold Obeys
      rw [hq, hk]
      exact .start k
  | snoc h hc hs ih =>
      rename_i u t es e
      rw [h.tally_snoc] at hn ⊢
      rw [h.tally_snoc]
      have hsound := sound_of_run (h₀.append (h.mono fun _ _ _ => trivial))
      have ho := ih (by omega)
      rw [← add_assoc]
      refine ho.step hsound ha hs hc.1 hc.2 fun hsig => ?_
      rw [if_pos hsig] at hn
      omega

/-- **SYS3 and SYS4 are a counting semaphore**, from any state of a run in which nobody waits for
the word at `a`, as long as each process that blocks finds a descriptor and nobody stores to `a`:
the number of waiters is the value below 0; no more calls of `PASSEREN` let their caller go on than
there were tokens; a `VERHOGEN` releases a waiter if there is one; and killing waiters keeps the
tokens. -/
theorem counting_of_run (ha : ¬ isSoftBlockSemaphore L a)
    (h₀ : Run (step L) anyStep (initKernel L mem support test ramtop tod) es₀ s₀)
    (hq : s₀.queue a = []) (hk : (s₀.mem a).toInt = k) (h : Run (step L) (Counting L a) s₀ es s)
    (hn : k + tally (step L) (Signals a) s₀ es < 2 ^ 31) :
    (s.blockedCount a : ℤ) = max 0 (-(s.mem a).toInt) ∧
    tally (step L) (LetsOn a) s₀ es ≤ k + tally (step L) (Signals a) s₀ es ∧
    (∀ e t p rest, s.step L e = some t → s.Signals a e → s.queue a = p :: rest →
      t.queue a = rest ∧ p ∈ t.readyQueue) ∧
    ∀ e t p, s.step L e = some t → s.act e = .kill p →
      (t.mem a).toInt + t.blockedCount a = (s.mem a).toInt + s.blockedCount a := by
  have ho := obeys_of_run ha h₀ hq hk h hn
  have hs := sound_of_run (h₀.append (h.mono fun _ _ _ => trivial))
  refine ⟨?_, ho.taken_le, fun e t p rest hst hsig hpq => ?_, fun e t p hst hkill => ?_⟩
  · rw [Phase1.blockedCount_eq]
    exact ho.waiters
  · -- the value is negative, so the handler looks at the queue
    have hle : (s.mem a + 1).toInt ≤ 0 := by
      have hw := ho.waiters
      rw [hpq, List.length_cons] at hw
      push_cast at hw
      rw [toInt_add_one (by omega)]
      omega
    have he := hs.sems_step hst
    have hd := did_step hst
    rw [show s.act e = .signal a from hsig] at he hd
    have he' : t.sems = (s.sems.up a).release a := he.trans (if_pos hle)
    obtain ⟨-, u, hqu, hqt, -⟩ := hd
    rw [if_pos hle] at hqt
    have huq : u.queue a = p :: rest := by rw [hqu.asl]; exact hpq
    have hok : u.toAsl.Ok := by rw [hqu.asl]; exact hs.links.asl
    have hfst : (u.release a id).1 = some p := by rw [(release_spec hok a id).1, huq]; rfl
    refine ⟨?_, ?_⟩
    · have hqa : t.queue a = (s.queue a).tail :=
        (congrFun (congrArg Sems.queue he') a).trans (Function.update_self ..)
      rw [hqa, hpq, List.tail_cons]
    · rw [hqt.ready, (release_some hfst).1]
      exact (List.mem_orderedInsert _).mpr (.inl rfl)
  · have he := hs.sems_step hst
    rw [hkill] at he
    have hw := ho.waiters
    have ht := (ho.cull ha he)
    have hb := ho.balance
    have hb' := ht.balance
    have hw' := ht.waiters
    rw [Phase1.blockedCount_eq, Phase1.blockedCount_eq]
    omega

/-- A word at 1; two processes do `PASSEREN`, the second blocks until the `VERHOGEN` of the
first. -/
def pair : List KernelEvent :=
  [call (-1) 0 0 0, call (-3) 0x1000 0 0, call (-10) 0 0 0, call (-3) 0x1000 0 0, call (-4) 0x1000 0 0]

theorem counting_of_run_pair : ∃ s₀ s, Run (step layout₀) anyStep boot₀ [.store 0x1000 1] s₀ ∧
    Run (step layout₀) (Counting layout₀ 0x1000) s₀ pair s ∧
    (s.blockedCount 0x1000 : ℤ) = max 0 (-(s.mem 0x1000).toInt) ∧
    tally (step layout₀) (LetsOn 0x1000) s₀ pair ≤
      1 + tally (step layout₀) (Signals 0x1000) s₀ pair := by
  have hs₀ : Run (step layout₀) anyStep boot₀ [.store 0x1000 1] (boot₀.setMem 0x1000 1) :=
    run_of_exec rfl
  obtain ⟨s, hr, -⟩ := exists_run (step layout₀) (Counting layout₀ 0x1000) (fun _ => True)
    (boot₀.setMem 0x1000 1) pair (by decide +kernel)
  obtain ⟨h₁, h₂, -⟩ := counting_of_run (k := 1) (by decide) hs₀ (by decide +kernel)
    (by decide +kernel) hr (by decide +kernel)
  exact ⟨_, s, hs₀, hr, h₁, h₂⟩

end

end Kernel

end PandOS
