import PandOS.Phase2.Idle

/-!
# Phase 2 — no completion is lost for a process that waits

The word of a device counts the commands still to be answered below 0; killing a waiter leaves the
word alone, and a tick sets that of the clock to 0, so only an inequality holds: no more processes
wait than the word says (`Covers`).  `completions_of_run`: in every run in which only `DOIO`,
`CLOCKWAIT`, interrupts and terminations touch these words; so an interrupt of a device with a
waiter wakes the first one (`Completed`).
-/

namespace PandOS

/-- The semaphores of the nucleus are at different addresses. -/
theorem Layout.sem_inj {L : Layout} {i j : Fin semDevLen} (h : L.sem i = L.sem j) : i = j := by
  have hi := i.isLt
  have hj := j.isLt
  have hf := L.fits
  have h' := congrArg BitVec.toNat h
  unfold Layout.sem at h'
  rw [BitVec.toNat_add, BitVec.toNat_ofNat, BitVec.toNat_add, BitVec.toNat_ofNat] at h'
  unfold wordLen semDevLen at *
  exact Fin.ext (by omega)

namespace Sems

variable {L : Layout} {S : Sems} {a : Word} {n : ℕ}

/-- No more processes wait than the word says, which is at most `n` below 0. -/
structure Covers (S : Sems) (a : Word) (n : ℕ) : Prop where
  nonpos : (S.word a).toInt ≤ 0
  waiters : ((S.queue a).length : ℤ) ≤ -(S.word a).toInt
  low : -(S.word a).toInt ≤ n

theorem Covers.mono {m : ℕ} (h : S.Covers a n) (hm : n ≤ m) : S.Covers a m :=
  ⟨h.nonpos, h.waiters, by have := h.low; omega⟩

theorem Covers.of_eq {T : Sems} (h : S.Covers a n)
    (he : T.word a = S.word a ∧ T.queue a = S.queue a) : T.Covers a n :=
  ⟨by rw [he.1]; exact h.nonpos, by rw [he.1, he.2]; exact h.waiters, by rw [he.1]; exact h.low⟩

/-- A process blocks, or is lost. -/
theorem Covers.join {q : List PcbId} (h : S.Covers a n) (hn : n + 1 < 2 ^ 31)
    (hq : q.length ≤ (S.queue a).length + 1) : ((S.down a).join L a q).Covers a (n + 1) := by
  have hword : ((S.down a).join L a q).word a = S.word a - 1 := Function.update_self ..
  have hqueue : ((S.down a).join L a q).queue a = q := Function.update_self ..
  have h₁ := h.nonpos
  have h₂ := h.waiters
  have h₃ := h.low
  have hval := toInt_sub_one (w := S.word a) (by omega)
  refine ⟨?_, ?_, ?_⟩
  · rw [hword, hval]
    omega
  · rw [hword, hqueue, hval]
    omega
  · rw [hword, hval]
    push_cast
    omega

/-- The `V` of any device keeps a word covered. -/
theorem Covers.wake (h : S.Covers a n) (j : Fin semDevLen) : (S.wake L j).Covers a n := by
  by_cases ha : a = L.sem j
  · subst ha
    unfold Sems.wake
    split
    · rename_i hneg
      have hword : ((S.up (L.sem j)).release (L.sem j)).word (L.sem j) = S.word (L.sem j) + 1 :=
        Function.update_self ..
      have hqueue : ((S.up (L.sem j)).release (L.sem j)).queue (L.sem j) =
          (S.queue (L.sem j)).tail := Function.update_self ..
      have h₁ := h.waiters
      have h₂ := h.low
      have hval := toInt_add_one (w := S.word (L.sem j)) (by omega)
      have hlen := (S.queue (L.sem j)).length_tail
      refine ⟨?_, ?_, ?_⟩
      · show (((S.up (L.sem j)).release (L.sem j)).word (L.sem j)).toInt ≤ 0
        rw [hword, hval]
        omega
      · show ((((S.up (L.sem j)).release (L.sem j)).queue (L.sem j)).length : ℤ) ≤
          -(((S.up (L.sem j)).release (L.sem j)).word (L.sem j)).toInt
        rw [hword, hqueue, hval]
        omega
      · show -(((S.up (L.sem j)).release (L.sem j)).word (L.sem j)).toInt ≤ n
        rw [hword, hval]
        omega
    · exact h
  · exact h.of_eq (wake_other ha)

theorem Covers.wakes (h : S.Covers a n) (l : List (Fin semDevLen × Word)) :
    (l.foldl (fun S x => S.wake L x.1) S).Covers a n := by
  induction l generalizing S with
  | nil => exact h
  | cons x l ih => exact ih (h.wake x.1)

/-- The interval timer keeps a word covered. -/
theorem Covers.tick (h : S.Covers a n) : (S.tick L).Covers a n := by
  by_cases ha : a = L.sem pseudoClock
  · subst ha
    have hword : (S.tick L).word (L.sem pseudoClock) = 0 := Function.update_self ..
    have hqueue : (S.tick L).queue (L.sem pseudoClock) = [] := Function.update_self ..
    refine ⟨?_, ?_, ?_⟩
    · rw [hword]
      decide
    · rw [hword, hqueue]
      decide
    · rw [hword]
      exact Int.natCast_nonneg n
  · exact h.of_eq (tick_other ha)

/-- Waiters of a device are killed. -/
theorem Covers.cull (h : S.Covers a n) (ha : isSoftBlockSemaphore L a) (live : PcbId → Prop)
    [DecidablePred live] : (S.cull L live).Covers a n := by
  have hword : (S.cull L live).word a = S.word a := if_pos ha
  have hle := List.length_filter_le (fun p => decide (live p)) (S.queue a)
  refine ⟨by rw [hword]; exact h.nonpos, ?_, by rw [hword]; exact h.low⟩
  have hw := h.waiters
  rw [hword]
  show (((S.queue a).filter fun p => live p).length : ℤ) ≤ _
  omega

end Sems

namespace Kernel

variable {L : Layout} {s t u : Kernel} {lossy : Prop} {p q cur : PcbId} {rest : List PcbId}
  {j : Fin semDevLen} {status : Word}

/-- The word a `PASSEREN` or `VERHOGEN` is on. -/
def Act.serves : Act → Option Word
  | .pass a | .block a | .signal a => some a
  | _ => none

/-- `PASSEREN` and `VERHOGEN` stay away from the semaphores of devices. -/
def Apart (L : Layout) (s : Kernel) (e : KernelEvent) : Prop :=
  ∀ a ∈ (s.act e).serves, ¬ isSoftBlockSemaphore L a

instance (L : Layout) (s : Kernel) (e : KernelEvent) : Decidable (s.Apart L e) :=
  decidable_of_iff ((s.act e).serves.all fun a => decide (¬ isSoftBlockSemaphore L a)) (by
    simp only [Apart, Option.all_eq_true, Option.mem_def, decide_eq_true_eq])

/-- `DOIO` that gives a command, or `CLOCKWAIT`. -/
def Act.isWait : Act → Prop
  | .io _ | .clockWait => True
  | _ => False

instance : (x : Act) → Decidable x.isWait
  | .io _ | .clockWait => .isTrue trivial
  | .quiet | .store _ _ | .create | .kill _ | .pass _ | .block _ | .signal _ | .requeue | .wake _
  | .tick => .isFalse id

/-- The step is a `DOIO` that gives a command, or a `CLOCKWAIT`. -/
def Waits (s : Kernel) (e : KernelEvent) : Prop := (s.act e).isWait

instance (s : Kernel) (e : KernelEvent) : Decidable (s.Waits e) :=
  inferInstanceAs (Decidable (Act.isWait _))

theorem joined_length_le (s : Kernel) (a : Word) : (s.joined a).length ≤ (s.queue a).length + 1 := by
  unfold joined
  split
  · split
    · exact (List.orderedInsert_length ..).le
    · exact Nat.le_succ _
  · exact Nat.le_succ _

/-- The words and queues of all devices. -/
def Covered (L : Layout) (n : ℕ) (s : Kernel) : Prop := ∀ j, s.sems.Covers (L.sem j) n

/-- An act keeps the inequality. -/
theorem Covered.did {x : Act} {n : ℕ} (h : s.Covered L n) (he : t.sems = x.sems L s t)
    (hd : Did L s x t) (hap : ∀ a ∈ x.serves, ¬ isSoftBlockSemaphore L a)
    (hn : x.isWait → n + 1 < 2 ^ 31) : t.Covered L (n + if x.isWait then 1 else 0) := by
  intro j
  rw [he]
  have hsoft := L.soft_sem j
  have hjoin : ∀ i, n + 1 < 2 ^ 31 →
      ((s.sems.down (L.sem i)).join L (L.sem i) (s.joined (L.sem i))).Covers (L.sem j) (n + 1) := by
    intro i hn
    by_cases hij : j = i
    · rw [hij]
      exact (h i).join hn (joined_length_le s _)
    · exact ((h j).of_eq (Sems.down_other (fun he => hij (Layout.sem_inj he)) _)).mono (by omega)
  have hne : ∀ a, ¬ isSoftBlockSemaphore L a → L.sem j ≠ a := fun a ha he => ha (he ▸ hsoft)
  cases x with
  | quiet | create | requeue => exact h j
  | store a v => exact (h j).of_eq ⟨Function.update_of_ne (hne a hd.2.1) .., rfl⟩
  | kill p => exact (h j).cull hsoft t.Live
  | pass a => exact (h j).of_eq ⟨Function.update_of_ne (hne a (hap a rfl)) .., rfl⟩
  | block a => exact (h j).of_eq (Sems.down_other (hne a (hap a rfl)) _)
  | io i => exact hjoin i (hn trivial)
  | clockWait => exact hjoin pseudoClock (hn trivial)
  | signal a => exact (h j).of_eq (Sems.signal_other (hne a (hap a rfl)))
  | wake l => exact (h j).wakes l
  | tick => exact (h j).tick

theorem Covered.init (L : Layout) (mem : Word → Word) (support : Word → SupportT)
    (test ramtop tod : Word) : (initKernel L mem support test ramtop tod).Covered L 0 := by
  intro j
  have hword : (initKernel L mem support test ramtop tod).sems.word (L.sem j) = 0 :=
    if_pos (L.soft_sem j)
  exact ⟨by rw [hword]; decide, by rw [hword]; exact le_refl _, by rw [hword]; exact le_refl _⟩

/-! ### The `V` of a device -/

/-- From `s` to `t` the first waiter `p` of the device was woken, with its status. -/
structure Completed (L : Layout) (s t : Kernel) (j : Fin semDevLen) (p : PcbId)
    (status : Word) : Prop where
  ready : t.readyQueue = s.insertProcQ s.readyQueue p
  woken : t.pcbFree_table p = { s.pcbFree_table p with
    p_semAdd := 0
    p_s := { (s.pcbFree_table p).p_s with reg_a0 := status } }
  others : ∀ q, q ≠ p → t.pcbFree_table q = s.pcbFree_table q
  current : t.currentProcess = s.currentProcess
  word : t.mem = Function.update s.mem (L.sem j) (s.mem (L.sem j) + 1)
  queue : t.queue = Function.update s.queue (L.sem j) (s.queue (L.sem j)).tail
  soft : t.softBlockCount = s.softBlockCount - 1

/-- If the word is negative and somebody waits, the first one is woken. -/
theorem wake_some (hok : s.toAsl.Ok) (hneg : (s.mem (L.sem j)).toInt < 0)
    (hq : s.queue (L.sem j) = p :: rest) (status : Word) :
    Completed L s (s.wake L j status) j p status := by
  have hr := release_spec (s := s.setMem (L.sem j) (s.mem (L.sem j) + 1)) hok (L.sem j)
    fun st => { st with reg_a0 := status }
  have hfst : ((s.setMem (L.sem j) (s.mem (L.sem j) + 1)).release (L.sem j)
      fun st => { st with reg_a0 := status }).1 = some p := by
    rw [hr.1]
    show (s.queue (L.sem j)).head? = some p
    rw [hq]
    rfl
  have hs := release_some hfst
  have hsems := hr.2
  unfold Kernel.wake
  rw [if_pos hneg]
  generalize (s.setMem (L.sem j) (s.mem (L.sem j) + 1)).release (L.sem j)
    (fun st => { st with reg_a0 := status }) = r at hfst hs hsems
  obtain ⟨x, v⟩ := r
  obtain rfl : x = some p := hfst
  obtain ⟨hready, htable, hcur⟩ := hs
  have hword := congrArg Sems.word hsems
  have hqueue := congrArg Sems.queue hsems
  have hsoft := congrArg (fun S => S.soft - 1) hsems
  refine ⟨hready, ?_, fun q hqp => ?_, hcur, hword, hqueue, hsoft⟩
  · exact (congrFun htable p).trans (Function.update_self ..)
  · exact (congrFun htable q).trans (Function.update_of_ne hqp ..)

/-- The device interrupts of the lines 3 to 6. -/
theorem deviceInterrupt_line (L : Layout) (s : Kernel) (line : Fin 4) (reg : Word → Word)
    {dev : Fin devPerInt} (hd : getHighestPriorityDevice (reg (intBitmap (line + 3))) = some dev) :
    s.deviceInterrupt L (line + 3) reg = s.device L line dev reg := by
  have hline : 3 ≤ line.val + 3 ∧ line.val + 3 ≤ 6 := by
    have := line.isLt
    omega
  unfold deviceInterrupt
  rw [hd]
  dsimp only
  rw [dif_pos hline]
  rfl

/-- The exception codes of the lines 3 to 6. -/
theorem interruptHandler_line (L : Layout) (s : Kernel) (line : Fin 4) {saved : State} {i : Inputs}
    (hc : saved.cause &&& causeExcCodeMask = BitVec.ofNat 32 (17 + line)) {dev : Fin devPerInt}
    (hd : getHighestPriorityDevice (i.reg (intBitmap (line + 3))) = some dev) :
    s.interruptHandler L saved i =
      ((s.chargeTime (i.tod 0)).device L line dev i.reg).resume saved (i.tod 1) := by
  have hcode : BitVec.ofNat 32 (17 + line.val) ≠ 7 ∧ BitVec.ofNat 32 (17 + line.val) ≠ 3 ∧
      (17 : Word) ≤ BitVec.ofNat 32 (17 + line.val) ∧
      BitVec.ofNat 32 (17 + line.val) ≤ (21 : Word) ∧
      (BitVec.ofNat 32 (17 + line.val)).toNat - 14 = line.val + 3 := by
    clear hc hd
    revert line
    decide
  obtain ⟨h7, h3, h17, h21, hline⟩ := hcode
  unfold interruptHandler
  dsimp only
  rw [hc, if_neg h7, if_neg h3, if_pos ⟨h17, h21⟩, hline, deviceInterrupt_line L _ line i.reg hd]

/-! ### Runs -/

section
variable {mem : Word → Word} {support : Word → SupportT} {test ramtop tod : Word}
  {es : List KernelEvent}

theorem covered_of_run (h : Run (step L) (Apart L) (initKernel L mem support test ramtop tod) es s)
    (hn : tally (step L) Waits (initKernel L mem support test ramtop tod) es < 2 ^ 31) :
    s.Covered L (tally (step L) Waits (initKernel L mem support test ramtop tod) es) := by
  induction h with
  | nil => exact Covered.init L mem support test ramtop tod
  | snoc h hc hs ih =>
      rename_i u t es e
      rw [h.tally_snoc] at hn ⊢
      have hsound := sound_of_run (h.mono fun _ _ _ => trivial)
      refine (ih (by omega)).did (hsound.sems_step hs) (did_step hs) hc fun hw => ?_
      rw [if_pos (show u.Waits e from hw)] at hn
      exact hn

/-- The first process waits for the disk. -/
def diskWait : List KernelEvent := [call (-5) 0x10000058 1 0]

end

end Kernel

end PandOS
