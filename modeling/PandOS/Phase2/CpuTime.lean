import PandOS.Phase2.Effects

/-!
# Phase 2 — the time of a process is that of its stays on the processor

`stays` is the history of the processor: who was dispatched, at which reading of the clock, and the
last reading with which it was charged during that stay.  `p_time` and
`start_time_current_quantum` are not looked at.  `cpuTime_of_run`: in every run, whatever the
readings are, the time of a live process is the sum of its stays (`Timed`), modulo 2^32.
-/

namespace PandOS

/-- A stay on the processor: the reading at the dispatch, and the last accounting point. -/
structure Stay where
  proc : PcbId
  dispatched : Word
  last : Word

/-- The ticks from the dispatch to the last accounting point. -/
def Stay.ticks (x : Stay) : Word := x.last - x.dispatched

/-- The ticks of the stays of `p`. -/
def ticksOf (l : List Stay) (p : PcbId) : Word :=
  ((l.filter fun x => x.proc = p).map Stay.ticks).sum

/-- The stay of the process that runs, and those that are over, of live processes. -/
structure Stays where
  now : Option Stay
  past : List Stay

/-- All of them. -/
def Stays.all (h : Stays) : List Stay := h.now.toList ++ h.past

/-- The stay that goes on, with its last accounting point. -/
def Stays.charge (h : Stays) (reading : Option Word) : Option Stay :=
  match reading with
  | some tod => h.now.map fun y => { y with last := tod }
  | none => h.now

section
variable {l m : List Stay} {x : Stay} {p : PcbId}

@[simp] theorem ticksOf_nil (p : PcbId) : ticksOf [] p = 0 := rfl

theorem ticksOf_cons (x : Stay) (l : List Stay) (p : PcbId) :
    ticksOf (x :: l) p = if x.proc = p then x.ticks + ticksOf l p else ticksOf l p := by
  unfold ticksOf
  rw [List.filter_cons]
  split <;> simp_all

theorem ticksOf_append (l m : List Stay) (p : PcbId) :
    ticksOf (l ++ m) p = ticksOf l p + ticksOf m p := by
  unfold ticksOf
  rw [List.filter_append, List.map_append, List.sum_append]

/-- The stays of others do not count. -/
theorem ticksOf_filter {P : PcbId → Prop} [DecidablePred P] (hp : P p) :
    ticksOf (l.filter fun x => P x.proc) p = ticksOf l p := by
  unfold ticksOf
  rw [List.filter_filter]
  congr 2
  refine List.filter_congr fun x _ => ?_
  by_cases hx : x.proc = p
  · simp [hx, hp]
  · simp [hx]

theorem ticksOf_eq_zero (h : ∀ x ∈ l, x.proc ≠ p) : ticksOf l p = 0 := by
  unfold ticksOf
  rw [List.filter_eq_nil_iff.mpr fun x hx => by simpa using h x hx]
  rfl

/-- A stay that has just begun. -/
theorem ticksOf_begun (p q : PcbId) (tod : Word) : ticksOf [⟨p, tod, tod⟩] q = 0 := by
  rw [ticksOf_cons, ticksOf_nil]
  unfold Stay.ticks
  split
  · simp
  · rfl

/-- A stay goes on. -/
theorem ticksOf_charged (y : Stay) (tod : Word) (p : PcbId) :
    ticksOf [{ y with last := tod }] p =
      if y.proc = p then ticksOf [y] p + (tod - y.last) else ticksOf [y] p := by
  rw [ticksOf_cons, ticksOf_cons, ticksOf_nil]
  unfold Stay.ticks
  dsimp only
  generalize y.last = a
  generalize y.dispatched = b
  split
  · rw [add_zero, add_zero]
    bv_omega
  · rfl

end

namespace Kernel

variable {L : Layout} {s t u : Kernel} {lossy : Prop} {p q cur : PcbId} {h : Stays}

/-! ### The history -/

/-- The stays after a step. -/
def stays (s : Kernel) (e : KernelEvent) (t : Kernel) (h : Stays) : Stays :=
  match e with
  | .store _ _ => h
  | .exception saved i =>
      match (s.effect saved i).ending with
      | .scheduler tod =>
          { now := t.currentProcess.map fun p => ⟨p, tod, tod⟩
            past := ((h.charge (s.effect saved i).reading).toList ++ h.past).filter
              fun x => t.Live x.proc }
      | _ => ⟨h.charge (s.effect saved i).reading, h.past.filter fun x => t.Live x.proc⟩

/-- The times are those of the stays. -/
structure Timed (s : Kernel) (h : Stays) : Prop where
  now : h.now.map Stay.proc = s.currentProcess
  mark : ∀ x ∈ h.now, x.last = s.accounts.mark
  live : ∀ x ∈ h.past, s.Live x.proc
  time : ∀ p, s.Live p → s.accounts.time p = ticksOf h.all p

/-- The charges of a step are those of the stay that goes on. -/
theorem Timed.charge (ht : s.Timed h) (x : Effect) :
    (h.charge x.reading).map Stay.proc = s.currentProcess ∧
    (∀ y ∈ h.charge x.reading, y.last = (s.accounts.after x s.currentProcess).mark) ∧
    ∀ p, s.Live p → (s.accounts.after x s.currentProcess).time p =
      ticksOf ((h.charge x.reading).toList ++ h.past) p := by
  -- what an effect leaves of the mark and of the times
  have hmark : ∀ cur, (s.accounts.after x (some cur)).mark =
      x.reading.getD s.accounts.mark := by
    intro cur
    unfold Accounts.after
    cases x.reading <;> cases x.saved <;> rfl
  have htime : ∀ cur p, (s.accounts.after x (some cur)).time p = match x.reading with
      | some tod => if cur = p then s.accounts.time p + (tod - s.accounts.mark)
          else s.accounts.time p
      | none => s.accounts.time p := by
    intro cur p
    have hup : ∀ tod, (s.accounts.charge cur tod).time p =
        if cur = p then s.accounts.time p + (tod - s.accounts.mark) else s.accounts.time p := by
      intro tod
      by_cases hp : cur = p
      · rw [if_pos hp, ← hp]
        exact Function.update_self ..
      · rw [if_neg hp]
        exact Function.update_of_ne (Ne.symm hp) ..
    unfold Accounts.after
    cases x.reading <;> cases x.saved
    · rfl
    · rfl
    · exact hup _
    · exact hup _
  cases hn : h.now with
  | none =>
      have hc : s.currentProcess = none := by rw [← ht.now, hn]; rfl
      have hch : h.charge x.reading = none := by
        unfold Stays.charge
        rw [hn]
        split <;> rfl
      rw [hch, hc]
      refine ⟨rfl, nofun, fun p hp => ?_⟩
      have htp := ht.time p hp
      unfold Stays.all at htp
      rw [hn] at htp
      exact htp
  | some y =>
      have hc : s.currentProcess = some y.proc := by rw [← ht.now, hn]; rfl
      have hlast := ht.mark y (by rw [hn]; rfl)
      rw [hc, hmark]
      simp only [htime]
      cases hr : x.reading with
      | none =>
          have hch : h.charge none = some y := hn
          rw [hch]
          refine ⟨rfl, fun z hz => ?_, fun p hp => ?_⟩
          · obtain rfl : y = z := Option.some.inj hz
            exact hlast
          · have htp := ht.time p hp
            unfold Stays.all at htp
            rwa [hn] at htp
      | some tod =>
          -- the stay of `y` is charged up to `tod`
          have hch : h.charge (some tod) = some { y with last := tod } := by
            unfold Stays.charge
            rw [hn]
            rfl
          rw [hch]
          refine ⟨rfl, fun z hz => ?_, fun p hp => ?_⟩
          · obtain rfl : { y with last := tod } = z := Option.some.inj hz
            rfl
          · have htp := ht.time p hp
            unfold Stays.all at htp
            rw [hn, ticksOf_append] at htp
            show (if y.proc = p then _ else _) = ticksOf ([{ y with last := tod }] ++ h.past) p
            rw [ticksOf_append, ticksOf_charged, htp, hlast]
            show (if y.proc = p then ticksOf [y] p + ticksOf h.past p + _ else
              ticksOf [y] p + ticksOf h.past p) = _
            split
            · exact add_right_comm _ _ _
            · rfl

theorem filter_live {l : List Stay} (hp : t.Live p) :
    ticksOf (l.filter fun x => t.Live x.proc) p = ticksOf l p := ticksOf_filter hp

/-- A step keeps the times those of the stays. -/
theorem Timed.step {e : KernelEvent} (ht : s.Timed h) (hs : Sound lossy s)
    (hst : s.step L e = some t) : t.Timed (stays s e t h) := by
  cases e with
  | store a v =>
      rcases step_cases hst with ⟨a', v', he, -, -, rfl⟩ | ⟨saved, i, he, -⟩
      · cases he
        exact ⟨ht.now, ht.mark, ht.live, ht.time⟩
      · cases he
  | exception saved i =>
      have heff := effected_step hs hst
      obtain ⟨hproc, hlast, hticks⟩ := ht.charge (s.effect saved i)
      -- what a live process has after the charges of the step
      have hold : ∀ p, t.Live p → t.accounts.time p =
          ticksOf ((h.charge (s.effect saved i).reading).toList ++ h.past) p := by
        intro p hp
        by_cases hsp : s.Live p
        · rw [heff.time p hsp, hticks p hsp]
        · obtain ⟨hne, -, hzero, -⟩ := born_step hs hst hp hsp
          rw [hzero, ticksOf_eq_zero fun x hx => ?_]
          rcases List.mem_append.mp hx with hx | hx
          · intro hxp
            refine hne ?_
            rw [← hproc, Option.mem_toList.mp hx, Option.map_some, hxp]
          · exact fun hxp => hsp (hxp ▸ ht.live x hx)
      have hend := heff.ending
      unfold stays
      dsimp only
      split
      · rename_i tod htod
        rw [htod] at hend
        refine ⟨?_, fun x hx => ?_, fun x hx => of_decide_eq_true (List.mem_filter.mp hx).2,
          fun p hp => ?_⟩
        · cases t.currentProcess <;> rfl
        · obtain ⟨q, hq, rfl⟩ := Option.map_eq_some_iff.mp hx
          exact (hend q hq).1.symm
        · rw [hold p hp]
          unfold Stays.all
          dsimp only
          conv_rhs => rw [ticksOf_append, filter_live hp]
          cases t.currentProcess with
          | none => exact (zero_add _).symm
          | some q =>
              show _ = ticksOf [⟨q, tod, tod⟩] p + _
              rw [ticksOf_begun, zero_add]
      · rename_i hsched
        have hgo : t.currentProcess = s.currentProcess ∧
            t.accounts.mark = (s.accounts.after (s.effect saved i) s.currentProcess).mark := by
          cases hx : (s.effect saved i).ending with
          | ldst st =>
              rw [hx] at hend
              exact ⟨hend.1, hend.2.2⟩
          | ldcxt =>
              rw [hx] at hend
              exact ⟨hend.1, hend.2.2⟩
          | scheduler tod => exact absurd hx (hsched tod)
        refine ⟨?_, fun x hx => ?_, fun x hx => of_decide_eq_true (List.mem_filter.mp hx).2,
          fun p hp => ?_⟩
        · rw [hgo.1]
          exact hproc
        · rw [hgo.2]
          exact hlast x hx
        · rw [hold p hp, Stays.all, ticksOf_append, ticksOf_append, filter_live hp]

/-! ### Runs -/

section
variable {mem : Word → Word} {support : Word → SupportT} {test ramtop tod : Word}
  {es : List KernelEvent}

/-- **CPU time is charged exactly once and to the right process**: in every run, for all readings of
the clock, the time of a live process is the sum over its stays on the processor of the ticks from
the dispatch to the last accounting point. -/
theorem cpuTime_of_run (hr : Run (step L) anyStep (initKernel L mem support test ramtop tod) es s) :
    ∃ h, Run (record (step L) stays) anyStep
        (initKernel L mem support test ramtop tod, ⟨some ⟨first, tod, tod⟩, []⟩) es (s, h) ∧
      h.now.map Stay.proc = s.currentProcess ∧
      ∀ p, s.Live p → (s.pcbFree_table p).p_time = ticksOf h.all p := by
  obtain ⟨h, hh⟩ := hr.recorded stays ⟨some ⟨first, tod, tod⟩, []⟩
  have hinv : Sound True s ∧ s.Timed h := by
    refine hh.inv (I := fun x => Sound True x.1 ∧ x.1.Timed x.2) ⟨.init .., ?_⟩ ?_
    · refine ⟨rfl, fun x hx => ?_, nofun, fun p hp => ?_⟩
      · obtain rfl : (⟨first, tod, tod⟩ : Stay) = x := Option.some.inj hx
        rfl
      · rw [init_live] at hp
        show ((initKernel L mem support test ramtop tod).pcbFree_table p).p_time = _
        rw [init_table, if_pos hp]
        exact (ticksOf_begun first p tod).symm
    · intro x e y hx _ hy
      obtain ⟨hst, hnote⟩ := record_eq_some hy
      refine ⟨?_, ?_⟩
      · exact hx.1.step hst (fun _ _ => .inl trivial) fun _ _ => .inl trivial
      · rw [hnote]
        exact hx.2.step hx.1 hst
  exact ⟨h, hh, hinv.2.now, hinv.2.time⟩

/-- The first process yields when the clock reads 100. -/
def yieldAt : List KernelEvent :=
  [.exception (callState (-10) 0 0 0) { inputs₀ with tod := fun k => 100 + BitVec.ofNat 32 k }]

theorem cpuTime_of_run_yield : ∃ (s : Kernel) (h : Stays), Run (step layout₀) anyStep boot₀ yieldAt s ∧
    (s.pcbFree_table first).p_time = 100 ∧ (s.pcbFree_table first).p_time = ticksOf h.all first := by
  obtain ⟨s, hr, hl, ht⟩ := exists_run (step layout₀) anyStep
    (fun s => s.Live first ∧ (s.pcbFree_table first).p_time = 100) boot₀ yieldAt (by decide +kernel)
  obtain ⟨h, -, -, htime⟩ := cpuTime_of_run hr
  exact ⟨s, h, hr, ht, htime first hl⟩

end

end Kernel

end PandOS
