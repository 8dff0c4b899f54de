import PandOS.Phase3.Sync

/-!
# Phase 3 — the synchronization invariant

`Support.Sync` and its step lemma `Support.Sync.move`.  The shell's semaphore and its phase are
one of four (`ShellPhase`), those of `test` one of six (`TestPhase`); the rest says who is whose
parent and that at most one child has not done its `V`.
-/

namespace PandOS.Support

variable {n : ℕ} {s t : Support n} {q q' : Pid} {a a' : Asid}

/-- Every program has done its `V(shellSemaphore)`. -/
def NoOpen (s : Support n) : Prop :=
  ∀ q a c, s.stageOf q = some (a, c) → a ≠ .shell → c = .term

/-- The shell has done its `V(masterSemaphore)`, or is gone. -/
def ShellOver (s : Support n) : Prop := ∀ q c, s.stageOf q = some (.shell, c) → c = .term

/-- Where the shell is, and which child it has. -/
inductive ShellPhase (s : Support n) : Prop where
  | idle (hs : s.shellSemaphore = ⟨0, []⟩) (hk : s.NoOpen)
      (hw : ∀ q a, s.stageOf q ≠ some (a, .wait))
  /-- The child is created, and the shell is about to wait. -/
  | opened (h : Pid) (hs : s.shellSemaphore = ⟨0, []⟩) (hq : s.stageOf h = some (.shell, .wait))
  /-- The child has done its `V`, and the shell is about to wait. -/
  | early (h : Pid) (hs : s.shellSemaphore = ⟨1, []⟩) (hq : s.stageOf h = some (.shell, .wait))
      (hk : s.NoOpen)
  | asleep (h : Pid) (hs : s.shellSemaphore = ⟨-1, [h]⟩)
      (hq : s.stageOf h = some (.shell, .plain))

/-- Where `test` is, and how far the shell has got. -/
inductive TestPhase (s : Support n) : Prop where
  | early (ht : s.testPc.early) (hm : s.masterSemaphore = ⟨0, []⟩) (hno : ∀ q, s.stageOf q = none)
  | ready (h : Pid) (c : Stage) (ht : s.testPc = .wait) (hm : s.masterSemaphore = ⟨0, []⟩)
      (hq : s.stageOf h = some (.shell, c)) (hc : c ≠ .term)
  | signalled (ht : s.testPc = .wait) (hm : s.masterSemaphore = ⟨1, []⟩) (ho : s.ShellOver)
  | asleep (h : Pid) (c : Stage) (ht : s.testPc = .term) (hm : s.masterSemaphore = ⟨-1, [0]⟩)
      (hq : s.stageOf h = some (.shell, c)) (hc : c ≠ .term)
  | woken (ht : s.testPc = .term) (hm : s.masterSemaphore = ⟨0, []⟩) (ho : s.ShellOver)
  | done (ht : s.testPc = .done) (hno : ∀ q, s.stageOf q = none)

/-- The invariant of the two semaphores. -/
structure Sync (s : Support n) : Prop where
  pos : 0 < s.vm.nextPid
  live : ∀ q x, s.stageOf q = some x → 0 < q ∧ q < s.vm.nextPid
  root : s.parent 0 = 0
  shell1 : ∀ q q' c c', s.stageOf q = some (.shell, c) → s.stageOf q' = some (.shell, c') → q = q'
  up : ∀ q a c, s.stageOf q = some (a, c) → (a = .shell ∧ s.parent q = 0) ∨
    (a ≠ .shell ∧ ∃ c', s.stageOf (s.parent q) = some (.shell, c'))
  exec : ∀ q b a, s.stageOf q = some (b, .exec a) → b = .shell ∧ a ≠ .shell
  wait : ∀ q b, s.stageOf q = some (b, .wait) → b = .shell
  one : ∀ q q' a a' c c', s.stageOf q = some (a, c) → s.stageOf q' = some (a', c') →
    a ≠ .shell → a' ≠ .shell → c ≠ .term → c' ≠ .term → q = q'
  shell : s.ShellPhase
  test : s.TestPhase

theorem ShellPhase.congr (h : s.ShellPhase) (hst : t.stageOf = s.stageOf)
    (hs : t.shellSemaphore = s.shellSemaphore) : t.ShellPhase := by
  cases h with
  | idle h₁ hk hw => exact .idle (hs.trans h₁) (by rw [NoOpen, hst]; exact hk) (by rw [hst]; exact hw)
  | opened h h₁ hq => exact .opened h (hs.trans h₁) (by rw [hst]; exact hq)
  | early h h₁ hq hk =>
      exact .early h (hs.trans h₁) (by rw [hst]; exact hq) (by rw [NoOpen, hst]; exact hk)
  | asleep h h₁ hq => exact .asleep h (hs.trans h₁) (by rw [hst]; exact hq)

theorem TestPhase.congr (h : s.TestPhase) (hst : t.stageOf = s.stageOf) (ht : t.testPc = s.testPc)
    (hm : t.masterSemaphore = s.masterSemaphore) : t.TestPhase := by
  cases h with
  | early h₁ h₂ hno => exact .early (ht ▸ h₁) (hm.trans h₂) (by rw [hst]; exact hno)
  | ready h c h₁ h₂ hq hc => exact .ready h c (ht.trans h₁) (hm.trans h₂) (by rw [hst]; exact hq) hc
  | signalled h₁ h₂ ho =>
      exact .signalled (ht.trans h₁) (hm.trans h₂) (by rw [ShellOver, hst]; exact ho)
  | asleep h c h₁ h₂ hq hc =>
      exact .asleep h c (ht.trans h₁) (hm.trans h₂) (by rw [hst]; exact hq) hc
  | woken h₁ h₂ ho => exact .woken (ht.trans h₁) (hm.trans h₂) (by rw [ShellOver, hst]; exact ho)
  | done h₁ hno => exact .done (ht.trans h₁) (by rw [hst]; exact hno)

/-- The fields that are about stages and parents alone. -/
theorem Sync.congr (h : s.Sync) (hst : t.stageOf = s.stageOf) (hn : t.vm.nextPid = s.vm.nextPid)
    (hp : t.parent = s.parent) (hsh : t.ShellPhase) (hte : t.TestPhase) : t.Sync where
  pos := hn ▸ h.pos
  live := by rw [hst, hn]; exact h.live
  root := by rw [hp]; exact h.root
  shell1 := by rw [hst]; exact h.shell1
  up := by rw [hst, hp]; exact h.up
  exec := by rw [hst]; exact h.exec
  wait := by rw [hst]; exact h.wait
  one := by rw [hst]; exact h.one
  shell := hsh
  test := hte

theorem stage_update {f : Pid → Option (Asid × Stage)} {x y : Asid × Stage} {j : Pid}
    (h : Function.update f q (some x) j = some y) : (j = q ∧ x = y) ∨ (j ≠ q ∧ f j = some y) := by
  rw [Function.update_apply] at h
  by_cases hj : j = q
  · exact .inl ⟨hj, by rw [if_pos hj] at h; exact Option.some.inj h⟩
  · exact .inr ⟨hj, by rwa [if_neg hj] at h⟩

/-- A shell that is awake, not waiting and not about to is idle: no program is open. -/
theorem Sync.idle (h : s.Sync) {c : Stage} (hq : s.stageOf q = some (.shell, c))
    (hb : ¬ s.blocked q) (hc : c ≠ .wait) :
    s.shellSemaphore = ⟨0, []⟩ ∧ s.NoOpen ∧ ∀ j b, s.stageOf j ≠ some (b, .wait) := by
  cases h.shell with
  | idle hs hk hw => exact ⟨hs, hk, hw⟩
  | opened j _ hj =>
      obtain rfl := h.shell1 _ _ _ _ hq hj
      rw [hq] at hj; cases hj; exact absurd rfl hc
  | early j _ hj =>
      obtain rfl := h.shell1 _ _ _ _ hq hj
      rw [hq] at hj; cases hj; exact absurd rfl hc
  | asleep j hs hj =>
      obtain rfl := h.shell1 _ _ _ _ hq hj
      exact absurd (.inr (.inl (by simp [hs]))) hb

/-- When the shell is over, no program is open. -/
theorem Sync.over (h : s.Sync) (ho : s.ShellOver) :
    s.shellSemaphore = ⟨0, []⟩ ∧ s.NoOpen ∧ ∀ j b, s.stageOf j ≠ some (b, .wait) := by
  cases h.shell with
  | idle hs hk hw => exact ⟨hs, hk, hw⟩
  | opened j _ hj => cases ho j _ hj
  | early j _ hj => cases ho j _ hj
  | asleep j _ hj => cases ho j _ hj

/-- `q` moves on, to a stage that is not `term`. -/
theorem Sync.move_stage (h : s.Sync) {b : Asid} {c c' : Stage} (hq : s.stageOf q = some (b, c))
    (hc : c ≠ .term) (hst : t.stageOf = Function.update s.stageOf q (some (b, c')))
    (hn : t.vm.nextPid = s.vm.nextPid) (hp : t.parent = s.parent)
    (hexec : ∀ a, c' = .exec a → b = .shell ∧ a ≠ .shell) (hwait : c' = .wait → b = .shell)
    (hsh : t.ShellPhase) (hte : t.TestPhase) : t.Sync where
  pos := hn ▸ h.pos
  live j x hj := by
    rw [hst] at hj
    rw [hn]
    rcases stage_update hj with ⟨rfl, -⟩ | ⟨-, hj⟩
    · exact h.live _ _ hq
    · exact h.live j x hj
  root := by rw [hp]; exact h.root
  shell1 i j d d' hi hj := by
    rw [hst] at hi hj
    rcases stage_update hi with ⟨rfl, he⟩ | ⟨-, hi'⟩ <;>
      rcases stage_update hj with ⟨rfl, he'⟩ | ⟨-, hj'⟩
    · rfl
    · cases he; exact h.shell1 _ _ _ _ hq hj'
    · cases he'; exact h.shell1 _ _ _ _ hi' hq
    · exact h.shell1 _ _ _ _ hi' hj'
  up j a d hj := by
    rw [hst] at hj
    rw [hp, hst]
    -- the shell is the shell in every stage
    have key : ∀ {i e}, s.stageOf i = some (Asid.shell, e) →
        ∃ e', Function.update s.stageOf q (some (b, c')) i = some (Asid.shell, e') := by
      intro i e hi
      rw [Function.update_apply]
      by_cases hiq : i = q
      · subst hiq; rw [hq] at hi; cases hi; exact ⟨c', by rw [if_pos rfl]⟩
      · exact ⟨e, by rw [if_neg hiq, hi]⟩
    rcases stage_update hj with ⟨rfl, he⟩ | ⟨-, hj⟩
    · cases he
      exact (h.up _ _ _ hq).imp_right fun ⟨ha, e, he⟩ => ⟨ha, key he⟩
    · exact (h.up _ _ _ hj).imp_right fun ⟨ha, e, he⟩ => ⟨ha, key he⟩
  exec j b' a hj := by
    rw [hst] at hj
    rcases stage_update hj with ⟨rfl, he⟩ | ⟨-, hj⟩
    · cases he; exact hexec a rfl
    · exact h.exec j b' a hj
  wait j b' hj := by
    rw [hst] at hj
    rcases stage_update hj with ⟨rfl, he⟩ | ⟨-, hj⟩
    · cases he; exact hwait rfl
    · exact h.wait j b' hj
  one i j a a' d d' hi hj ha ha' hd hd' := by
    rw [hst] at hi hj
    rcases stage_update hi with ⟨rfl, he⟩ | ⟨-, hi'⟩ <;>
      rcases stage_update hj with ⟨rfl, he'⟩ | ⟨-, hj'⟩
    · rfl
    · cases he; exact h.one _ _ _ _ _ _ hq hj' ha ha' hc hd'
    · cases he'; exact h.one _ _ _ _ _ _ hi' hq ha ha' hd hc
    · exact h.one _ _ _ _ _ _ hi' hj' ha ha' hd hd'
  shell := hsh
  test := hte

/-- The phase of `test` when a process moves that is not past its `V` before or after, or is no
shell. -/
theorem TestPhase.move_stage (h : s.TestPhase) {b : Asid} {c c' : Stage}
    (hq : s.stageOf q = some (b, c)) (hc : b ≠ .shell ∨ c ≠ .term ∧ c' ≠ .term)
    (hst : t.stageOf = Function.update s.stageOf q (some (b, c'))) (ht : t.testPc = s.testPc)
    (hm : t.masterSemaphore = s.masterSemaphore) : t.TestPhase := by
  have hover : s.ShellOver → t.ShellOver := by
    intro ho j d hj
    rw [hst] at hj
    rcases stage_update hj with ⟨rfl, he⟩ | ⟨-, hj⟩
    · cases he
      exact absurd (ho _ _ hq) (hc.resolve_left (by simp)).1
    · exact ho j d hj
  have alive : ∀ {j d}, s.stageOf j = some (Asid.shell, d) → d ≠ .term →
      ∃ d', t.stageOf j = some (Asid.shell, d') ∧ d' ≠ .term := by
    intro j d hj hd
    rw [hst, Function.update_apply]
    by_cases hjq : j = q
    · subst hjq
      rw [hq] at hj
      cases hj
      exact ⟨c', by rw [if_pos rfl], (hc.resolve_left (by simp)).2⟩
    · exact ⟨d, by rw [if_neg hjq, hj], hd⟩
  cases h with
  | early _ _ hno => rw [hno q] at hq; cases hq
  | ready j d h₁ h₂ hj hd =>
      obtain ⟨d', hj', hd'⟩ := alive hj hd
      exact .ready j d' (ht.trans h₁) (hm.trans h₂) hj' hd'
  | signalled h₁ h₂ ho => exact .signalled (ht.trans h₁) (hm.trans h₂) (hover ho)
  | asleep j d h₁ h₂ hj hd =>
      obtain ⟨d', hj', hd'⟩ := alive hj hd
      exact .asleep j d' (ht.trans h₁) (hm.trans h₂) hj' hd'
  | woken h₁ h₂ ho => exact .woken (ht.trans h₁) (hm.trans h₂) (hover ho)
  | done _ hno => rw [hno q] at hq; cases hq

/-! ### `TERMPROCESS` -/

/-- What the removal of a list of processes does. -/
theorem foldl_remove (l : List Pid) (s : Support n) :
    (l.foldl remove s).pc = s.pc ∧ (l.foldl remove s).parent = s.parent ∧
      (l.foldl remove s).testPc = s.testPc ∧ (l.foldl remove s).vm.nextPid = s.vm.nextPid ∧
      (l.foldl remove s).masterSemaphore = l.foldl Sem.drop s.masterSemaphore ∧
      (l.foldl remove s).shellSemaphore = l.foldl Sem.drop s.shellSemaphore ∧
      ∀ q, (l.foldl remove s).vm.proc q = if q ∈ l then none else s.vm.proc q := by
  induction l generalizing s with
  | nil => exact ⟨rfl, rfl, rfl, rfl, rfl, rfl, fun _ => rfl⟩
  | cons i l ih =>
      obtain ⟨h₁, h₂, h₃, h₄, h₅, h₆, h₇⟩ := ih (s.remove i)
      refine ⟨h₁, h₂, h₃, h₄, h₅, h₆, fun q => ?_⟩
      have hi : (s.remove i).vm.proc q = if q = i then none else s.vm.proc q :=
        Function.update_apply ..
      rw [List.foldl_cons, h₇, hi]
      by_cases hq : q = i
      · simp [hq]
      · simp [hq]

theorem mem_progeny : q' ∈ s.progeny q ↔
    q' < s.vm.nextPid ∧ (s.vm.proc q').isSome ∧ s.descends q q' := by
  simp [progeny]

theorem stageOf_isSome : (s.stageOf q).isSome = (s.vm.proc q).isSome := Option.isSome_map ..

/-- The stages after `TERMPROCESS`. -/
theorem stageOf_terminate (j : Pid) :
    (s.terminate q).stageOf j = if j ∈ s.progeny q then none else s.stageOf j := by
  obtain ⟨hpc, -, -, -, -, -, hv⟩ := foldl_remove (s.progeny q) s
  unfold stageOf
  rw [terminate, hv, hpc]
  by_cases hj : j ∈ s.progeny q
  · rw [if_pos hj, if_pos hj]; rfl
  · rw [if_neg hj, if_neg hj]

/-- `TERMPROCESS` finds none of its victims in the queue of either semaphore. -/
theorem terminate_sems (hm : ∀ j ∈ s.progeny q, j ∉ s.masterSemaphore.queue)
    (hs : ∀ j ∈ s.progeny q, j ∉ s.shellSemaphore.queue) :
    (s.terminate q).masterSemaphore = s.masterSemaphore ∧
      (s.terminate q).shellSemaphore = s.shellSemaphore := by
  obtain ⟨-, -, -, -, h₁, h₂, -⟩ := foldl_remove (s.progeny q) s
  exact ⟨h₁.trans (Sem.foldl_drop_of_not_mem hm), h₂.trans (Sem.foldl_drop_of_not_mem hs)⟩

/-- The ancestors of a live process are `test` and the shell. -/
theorem Sync.ancestor (h : s.Sync) {x : Asid × Stage} (hq : s.stageOf q = some x) (i : ℕ) :
    s.parent^[i + 1] q = 0 ∨ ∃ c, s.stageOf (s.parent^[i + 1] q) = some (.shell, c) := by
  induction i with
  | zero => exact (h.up q x.1 x.2 hq).imp And.right And.right
  | succ i ih =>
      rw [Function.iterate_succ_apply']
      rcases ih with h₀ | ⟨c, hc⟩
      · left; rw [h₀, h.root]
      · exact (h.up _ _ _ hc).imp And.right And.right

/-- A program has no progeny but itself. -/
theorem Sync.progeny_child (h : s.Sync) {c : Stage} (hq : s.stageOf q = some (a, c))
    (ha : a ≠ .shell) (hj : q' ∈ s.progeny q) : q' = q := by
  obtain ⟨-, hlive, i, -, hi⟩ := mem_progeny.mp hj
  rw [← stageOf_isSome, Option.isSome_iff_exists] at hlive
  obtain ⟨x, hx⟩ := hlive
  cases i with
  | zero => exact hi
  | succ i =>
      rcases h.ancestor hx i with h₀ | ⟨d, hd⟩
      · rw [hi] at h₀
        exact absurd h₀ (h.live q _ hq).1.ne'
      · rw [hi, hq] at hd
        cases hd
        exact absurd rfl ha

/-- Every live process is in the progeny of the shell. -/
theorem Sync.progeny_shell (h : s.Sync) {c : Stage} {x : Asid × Stage}
    (hq : s.stageOf q = some (.shell, c)) (hx : s.stageOf q' = some x) : q' ∈ s.progeny q := by
  refine mem_progeny.mpr ⟨(h.live q' x hx).2, by rw [← stageOf_isSome, hx]; rfl, ?_⟩
  obtain ⟨b, d⟩ := x
  rcases h.up q' b d hx with ⟨rfl, -⟩ | ⟨-, d', hd'⟩
  · exact ⟨0, Nat.succ_pos _, h.shell1 _ _ _ _ hx hq⟩
  · exact ⟨1, Nat.succ_lt_succ h.pos, h.shell1 _ _ _ _ hd' hq⟩

/-- Every live process is in the progeny of `test`. -/
theorem Sync.progeny_test (h : s.Sync) {x : Asid × Stage} (hx : s.stageOf q = some x) :
    q ∈ s.progeny 0 := by
  refine mem_progeny.mpr ⟨(h.live q x hx).2, by rw [← stageOf_isSome, hx]; rfl, ?_⟩
  obtain ⟨b, d⟩ := x
  have hlt : 1 < s.vm.nextPid := Nat.lt_of_le_of_lt (h.live q _ hx).1 (h.live q _ hx).2
  rcases h.up q b d hx with ⟨-, hp⟩ | ⟨-, d', hd'⟩
  · exact ⟨1, Nat.succ_lt_succ h.pos, hp⟩
  · refine ⟨2, Nat.succ_lt_succ hlt, ?_⟩
    show s.parent (s.parent q) = 0
    rcases h.up _ _ _ hd' with ⟨-, hp⟩ | ⟨hne, -⟩
    · exact hp
    · exact absurd rfl hne

/-- What is left after `TERMPROCESS`: a program that is left has its shell. -/
theorem Sync.terminated (h : s.Sync)
    (hst : ∀ j, t.stageOf j = none ∨ (t.stageOf j = s.stageOf j ∧ ∀ a c,
      s.stageOf j = some (a, c) → a ≠ .shell → t.stageOf (s.parent j) = s.stageOf (s.parent j)))
    (hn : t.vm.nextPid = s.vm.nextPid) (hp : t.parent = s.parent) (hsh : t.ShellPhase)
    (hte : t.TestPhase) : t.Sync := by
  have old : ∀ {j x}, t.stageOf j = some x → s.stageOf j = some x ∧
      (x.1 ≠ .shell → t.stageOf (s.parent j) = s.stageOf (s.parent j)) := by
    intro j x hx
    rcases hst j with h₀ | ⟨h₁, h₂⟩
    · rw [h₀] at hx; cases hx
    · rw [h₁] at hx
      exact ⟨hx, fun hne => h₂ x.1 x.2 hx hne⟩
  exact {
    pos := hn ▸ h.pos
    live := fun j x hj => hn ▸ h.live j x (old hj).1
    root := by rw [hp]; exact h.root
    shell1 := fun i j c c' hi hj => h.shell1 i j c c' (old hi).1 (old hj).1
    up := fun j a c hj => by
      obtain ⟨hj', hpar⟩ := old hj
      rw [hp]
      exact (h.up j a c hj').imp_right fun ⟨ha, c', hc'⟩ => ⟨ha, c', (hpar ha).trans hc'⟩
    exec := fun j b a hj => h.exec j b a (old hj).1
    wait := fun j b hj => h.wait j b (old hj).1
    one := fun i j a a' c c' hi hj => h.one i j a a' c c' (old hi).1 (old hj).1
    shell := hsh
    test := hte }

/-- `TERMPROCESS` of `q` leaves nothing: all that lives is its progeny. -/
theorem terminate_all (hall : ∀ j x, s.stageOf j = some x → j ∈ s.progeny q)
    (j : Pid) : (s.terminate q).stageOf j = none := by
  rw [stageOf_terminate]
  by_cases hj : j ∈ s.progeny q
  · rw [if_pos hj]
  · rw [if_neg hj]
    cases hx : s.stageOf j with
    | none => rfl
    | some x => exact absurd (hall j x hx) hj

theorem ShellPhase.none (hs : t.shellSemaphore = ⟨0, []⟩) (hno : ∀ q, t.stageOf q = none) :
    t.ShellPhase :=
  .idle hs (fun q a c hq => by rw [hno] at hq; cases hq) fun q a hq => by rw [hno] at hq; cases hq

/-- `TERMPROCESS` of a program leaves the phases as they are. -/
theorem Sync.terminate_child (h : s.Sync) {c : Stage} (hq : s.stageOf q = some (a, c))
    (ha : a ≠ .shell) (hb : ¬ s.blocked q) : (s.terminate q).Sync := by
  -- a child has no progeny: the shell is the only parent
  have hself : ∀ j ∈ s.progeny q, j = q := fun j hj => h.progeny_child hq ha hj
  obtain ⟨hms, hss⟩ := terminate_sems (s := s) (q := q)
    (fun j hj hm => hb (.inl (hself j hj ▸ hm))) (fun j hj hm => hb (.inr (.inl (hself j hj ▸ hm))))
  obtain ⟨-, hp, ht, hn, -, -, -⟩ := foldl_remove (s.progeny q) s
  have keep : ∀ j, j ≠ q → (s.terminate q).stageOf j = s.stageOf j := fun j hj => by
    rw [stageOf_terminate, if_neg fun hm => hj (hself j hm)]
  have old : ∀ {j x}, (s.terminate q).stageOf j = some x → s.stageOf j = some x := by
    intro j x hj
    rw [stageOf_terminate] at hj
    split at hj
    · cases hj
    · exact hj
  have shellKeep : ∀ {j d}, s.stageOf j = some (Asid.shell, d) →
      (s.terminate q).stageOf j = some (Asid.shell, d) := by
    intro j d hj
    rw [keep j, hj]
    rintro rfl
    rw [hq] at hj
    cases hj
    exact ha rfl
  refine h.terminated (fun j => ?_) hn hp ?_ ?_
  · by_cases hj : j ∈ s.progeny q
    · left; rw [stageOf_terminate, if_pos hj]
    · right
      refine ⟨by rw [stageOf_terminate, if_neg hj], fun b d hbd hne => ?_⟩
      obtain ⟨-, d', hd'⟩ := (h.up j b d hbd).resolve_left fun hs => hne hs.1
      rw [shellKeep hd', hd']
  · cases h.shell with
    | idle hs hk hw =>
        exact .idle (hss.trans hs) (fun j b d hj => hk j b d (old hj)) fun j b hj => hw j b (old hj)
    | opened j hs hj => exact .opened j (hss.trans hs) (shellKeep hj)
    | early j hs hj hk =>
        exact .early j (hss.trans hs) (shellKeep hj) fun i b d hi => hk i b d (old hi)
    | asleep j hs hj => exact .asleep j (hss.trans hs) (shellKeep hj)
  · cases h.test with
    | early _ _ hno => rw [hno q] at hq; cases hq
    | ready j d h₁ h₂ hj hd => exact .ready j d (ht.trans h₁) (hms.trans h₂) (shellKeep hj) hd
    | signalled h₁ h₂ ho =>
        exact .signalled (ht.trans h₁) (hms.trans h₂) fun j d hj => ho j d (old hj)
    | asleep j d h₁ h₂ hj hd => exact .asleep j d (ht.trans h₁) (hms.trans h₂) (shellKeep hj) hd
    | woken h₁ h₂ ho => exact .woken (ht.trans h₁) (hms.trans h₂) fun j d hj => ho j d (old hj)
    | done _ hno => rw [hno q] at hq; cases hq

/-- `TERMPROCESS` of the shell leaves nobody. -/
theorem Sync.terminate_shell (h : s.Sync) (hq : s.stageOf q = some (.shell, .term))
    (hb : ¬ s.blocked q) : (s.terminate q).Sync := by
  obtain ⟨hs, -, -⟩ := h.idle hq hb (by simp)
  have hno := terminate_all fun j x hx => h.progeny_shell hq hx
  obtain ⟨-, hp, ht, hn, -, -, -⟩ := foldl_remove (s.progeny q) s
  -- pid 0 is `test`, the parent of the shell
  have hzero : ∀ j ∈ s.progeny q, j ≠ 0 := by
    rintro j hj rfl
    obtain ⟨-, hlive, -⟩ := mem_progeny.mp hj
    rw [← stageOf_isSome, Option.isSome_iff_exists] at hlive
    obtain ⟨x, hx⟩ := hlive
    exact absurd (h.live 0 x hx).1 (lt_irrefl 0)
  have hmq : ∀ j ∈ s.masterSemaphore.queue, j = 0 := by
    cases h.test with
    | early _ h₂ => simp [h₂]
    | ready _ _ _ h₂ => simp [h₂]
    | signalled _ h₂ => simp [h₂]
    | asleep _ _ _ h₂ => simp [h₂]
    | woken _ h₂ => simp [h₂]
    | done _ hno' => rw [hno' q] at hq; cases hq
  obtain ⟨hms, hss⟩ := terminate_sems (s := s) (q := q)
    (fun j hj hm => hzero j hj (hmq j hm)) (fun j _ hm => by rw [hs] at hm; cases hm)
  refine h.terminated (fun j => .inl (hno j)) hn hp (.none (hss.trans hs) hno) ?_
  have hover : (s.terminate q).ShellOver := fun j d hj => by rw [hno j] at hj; cases hj
  cases h.test with
  | early _ _ hno' => rw [hno' q] at hq; cases hq
  | ready j d _ _ hj hd =>
      obtain rfl := h.shell1 _ _ _ _ hq hj
      rw [hq] at hj; cases hj; exact absurd rfl hd
  | signalled h₁ h₂ => exact .signalled (ht.trans h₁) (hms.trans h₂) hover
  | asleep j d _ _ hj hd =>
      obtain rfl := h.shell1 _ _ _ _ hq hj
      rw [hq] at hj; cases hj; exact absurd rfl hd
  | woken h₁ h₂ => exact .woken (ht.trans h₁) (hms.trans h₂) hover
  | done _ hno' => rw [hno' q] at hq; cases hq

/-- Where everybody is past its last service, so are those a process has created. -/
theorem progeny_term (hno : s.NoOpen) (ho : s.ShellOver) (hj : q' ∈ s.progeny q) :
    ∃ b, s.stageOf q' = some (b, .term) := by
  obtain ⟨-, hlive, -⟩ := mem_progeny.mp hj
  rw [← stageOf_isSome, Option.isSome_iff_exists] at hlive
  obtain ⟨⟨b, c⟩, hx⟩ := hlive
  refine ⟨b, ?_⟩
  by_cases hb : b = .shell
  · subst hb; rw [hx, ho _ _ hx]
  · rw [hx, hno _ _ _ hx hb]

/-- `TERMPROCESS` of a process past its `V` removes such processes only. -/
theorem Sync.victims (h : s.Sync) (hq : s.stageOf q = some (a, .term)) (hb : ¬ s.blocked q)
    (hj : q' ∈ s.progeny q) : ∃ b, s.stageOf q' = some (b, .term) := by
  by_cases ha : a = .shell
  · subst ha
    obtain ⟨-, hno, -⟩ := h.idle hq hb (by simp)
    refine progeny_term hno (fun j c hx => ?_) hj
    obtain rfl := h.shell1 _ _ _ _ hx hq
    rw [hq] at hx
    cases hx
    rfl
  · obtain rfl := h.progeny_child hq ha hj
    exact ⟨a, hq⟩

/-- So does that of `test`, once it is past its `P`. -/
theorem Sync.victims_test (h : s.Sync) (ht : s.testPc = .term)
    (hb : 0 ∉ s.masterSemaphore.queue) (hj : q ∈ s.progeny 0) :
    ∃ b, s.stageOf q = some (b, .term) := by
  have ho : s.ShellOver := by
    cases h.test with
    | early h₁ => rw [ht] at h₁; exact h₁.elim
    | ready _ _ h₁ => rw [ht] at h₁; cases h₁
    | signalled h₁ => rw [ht] at h₁; cases h₁
    | asleep _ _ _ h₂ => exact absurd (by simp [h₂]) hb
    | woken _ _ ho => exact ho
    | done h₁ => rw [ht] at h₁; cases h₁
  obtain ⟨-, hno, -⟩ := h.over ho
  exact progeny_term hno ho hj

/-! ### One move -/

/-- The shell is created. -/
theorem Sync.launch (h : s.Sync) (he : s.testPc = .create)
    (hst : t.stageOf = Function.update s.stageOf s.vm.nextPid (some (.shell, .plain)))
    (hn : t.vm.nextPid = s.vm.nextPid + 1)
    (hp : t.parent = Function.update s.parent s.vm.nextPid 0) (ht : t.testPc = .wait)
    (hm : t.masterSemaphore = s.masterSemaphore) (hs : t.shellSemaphore = s.shellSemaphore) :
    t.Sync := by
  have hno : (∀ q, s.stageOf q = none) ∧ s.masterSemaphore = ⟨0, []⟩ := by
    cases h.test with
    | early _ h₂ hno => exact ⟨hno, h₂⟩
    | ready _ _ h₁ => rw [he] at h₁; cases h₁
    | signalled h₁ => rw [he] at h₁; cases h₁
    | asleep _ _ h₁ => rw [he] at h₁; cases h₁
    | woken h₁ => rw [he] at h₁; cases h₁
    | done h₁ => rw [he] at h₁; cases h₁
  obtain ⟨hno, hm₀⟩ := hno
  -- the shell is the only process there is
  have only : ∀ {j x}, t.stageOf j = some x → j = s.vm.nextPid ∧ x = (.shell, .plain) := by
    intro j x hj
    rw [hst] at hj
    rcases stage_update hj with ⟨rfl, he⟩ | ⟨-, hj⟩
    · exact ⟨rfl, he.symm⟩
    · rw [hno] at hj; cases hj
  have hs₀ : s.shellSemaphore = ⟨0, []⟩ := by
    cases h.shell with
    | idle hs => exact hs
    | opened j _ hj => rw [hno] at hj; cases hj
    | early j _ hj => rw [hno] at hj; cases hj
    | asleep j _ hj => rw [hno] at hj; cases hj
  exact {
    pos := hn ▸ Nat.succ_pos _
    live := fun j x hj => by rw [(only hj).1, hn]; exact ⟨h.pos, Nat.lt_succ_self _⟩
    root := by rw [hp, Function.update_of_ne h.pos.ne]; exact h.root
    shell1 := fun i j c c' hi hj => (only hi).1.trans (only hj).1.symm
    up := fun j a c hj => by
      obtain ⟨rfl, he⟩ := only hj
      cases he
      exact .inl ⟨rfl, by rw [hp, Function.update_self]⟩
    exec := fun j b a hj => by cases (only hj).2
    wait := fun j b hj => by cases (only hj).2
    one := fun i j a a' c c' hi _ ha => by cases (only hi).2; exact absurd rfl ha
    shell := .idle (hs.trans hs₀) (fun j a c hj ha => by cases (only hj).2; exact absurd rfl ha)
      fun j a hj => by cases (only hj).2
    test := .ready s.vm.nextPid .plain ht (hm.trans hm₀) (by rw [hst, Function.update_self])
      (by simp) }

/-- The shell creates a program. -/
theorem Sync.child (h : s.Sync) {b : Asid} (hb : ¬ s.blocked q)
    (hq : s.stageOf q = some (b, .exec a))
    (hst : t.stageOf = Function.update (Function.update s.stageOf s.vm.nextPid (some (a, .plain)))
      q (some (b, .wait)))
    (hn : t.vm.nextPid = s.vm.nextPid + 1)
    (hp : t.parent = Function.update s.parent s.vm.nextPid q) (ht : t.testPc = s.testPc)
    (hm : t.masterSemaphore = s.masterSemaphore) (hs : t.shellSemaphore = s.shellSemaphore) :
    t.Sync := by
  obtain ⟨rfl, ha⟩ := h.exec _ _ _ hq
  obtain ⟨hs₀, hk, hw⟩ := h.idle hq hb (by simp)
  have hqn : q ≠ s.vm.nextPid := (h.live _ _ hq).2.ne
  -- the shell waits, the child is new, and nobody else has moved
  have cases3 : ∀ {j x}, t.stageOf j = some x → (j = q ∧ x = (.shell, .wait)) ∨
      (j = s.vm.nextPid ∧ x = (a, .plain)) ∨
      (j ≠ q ∧ j ≠ s.vm.nextPid ∧ s.stageOf j = some x) := by
    intro j x hj
    rw [hst] at hj
    rcases stage_update hj with ⟨rfl, he⟩ | ⟨hne, hj⟩
    · exact .inl ⟨rfl, he.symm⟩
    · rcases stage_update hj with ⟨rfl, he⟩ | ⟨hne', hj⟩
      · exact .inr (.inl ⟨rfl, he.symm⟩)
      · exact .inr (.inr ⟨hne, hne', hj⟩)
  have tq : t.stageOf q = some (.shell, .wait) := by rw [hst, Function.update_self]
  have other : ∀ {j c}, s.stageOf j = some (Asid.shell, c) → j = q := fun hj =>
    h.shell1 _ _ _ _ hj hq
  exact {
    pos := hn ▸ Nat.succ_pos _
    live := fun j x hj => by
      rw [hn]
      rcases cases3 hj with ⟨rfl, -⟩ | ⟨rfl, -⟩ | ⟨-, -, hj⟩
      · exact ⟨(h.live _ _ hq).1, Nat.lt_succ_of_lt (h.live _ _ hq).2⟩
      · exact ⟨h.pos, Nat.lt_succ_self _⟩
      · exact ⟨(h.live _ _ hj).1, Nat.lt_succ_of_lt (h.live _ _ hj).2⟩
    root := by rw [hp, Function.update_of_ne h.pos.ne]; exact h.root
    shell1 := fun i j c c' hi hj => by
      have is : ∀ {j c}, t.stageOf j = some (Asid.shell, c) → j = q := by
        intro j c hj
        rcases cases3 hj with ⟨hj, -⟩ | ⟨-, he⟩ | ⟨-, -, hj⟩
        · exact hj
        · cases he; exact absurd rfl ha
        · exact other hj
      exact (is hi).trans (is hj).symm
    up := fun j a' c hj => by
      rw [hp]
      rcases cases3 hj with ⟨rfl, he⟩ | ⟨rfl, he⟩ | ⟨-, hjn, hj⟩
      · cases he
        rw [Function.update_of_ne hqn]
        exact .inl ⟨rfl, ((h.up _ _ _ hq).resolve_right fun hr => hr.1 rfl).2⟩
      · cases he
        rw [Function.update_self]
        exact .inr ⟨ha, _, tq⟩
      · rw [Function.update_of_ne hjn]
        refine (h.up _ _ _ hj).imp_right fun ⟨hne, c', hc'⟩ => ⟨hne, .wait, ?_⟩
        rw [other hc', tq]
    exec := fun j b a' hj => by
      rcases cases3 hj with ⟨-, he⟩ | ⟨-, he⟩ | ⟨-, -, hj⟩
      · cases he
      · cases he
      · exact h.exec j b a' hj
    wait := fun j b hj => by
      rcases cases3 hj with ⟨-, he⟩ | ⟨-, he⟩ | ⟨-, -, hj⟩
      · cases he; rfl
      · cases he
      · exact absurd hj (hw j b)
    one := fun i j a₁ a₂ c c' hi hj h₁ h₂ hc hc' => by
      have is : ∀ {j b c}, t.stageOf j = some (b, c) → b ≠ .shell → c ≠ .term →
          j = s.vm.nextPid := by
        intro j b c hj hne hc
        rcases cases3 hj with ⟨-, he⟩ | ⟨hj, -⟩ | ⟨-, -, hj⟩
        · cases he; exact absurd rfl hne
        · exact hj
        · exact absurd (hk j b c hj hne) hc
      exact (is hi h₁ hc).trans (is hj h₂ hc').symm
    shell := .opened q (hs.trans hs₀) tq
    test := by
      cases h.test with
      | early _ _ hno => rw [hno q] at hq; cases hq
      | ready j c h₁ h₂ hj => exact .ready q _ (ht.trans h₁) (hm.trans h₂) tq (by simp)
      | signalled _ _ ho => cases ho q _ hq
      | asleep j c h₁ h₂ hj => exact .asleep q _ (ht.trans h₁) (hm.trans h₂) tq (by simp)
      | woken _ _ ho => cases ho q _ hq
      | done _ hno => rw [hno q] at hq; cases hq }

/-- The `V` before `TERMPROCESS`. -/
theorem Sync.signal (h : s.Sync) (hb : ¬ s.blocked q) (hq : s.stageOf q = some (a, .plain))
    (hst : t.stageOf = Function.update s.stageOf q (some (a, .term)))
    (hf : Frame (s.signal a) t) : t.Sync := by
  have old : ∀ {j x}, j ≠ q → s.stageOf j = some x → t.stageOf j = some x := fun hj hx => by
    rw [hst, Function.update_of_ne hj, hx]
  have back : ∀ {j x}, t.stageOf j = some x → (j = q ∧ x = (a, .term)) ∨ s.stageOf j = some x := by
    intro j x hj
    rw [hst] at hj
    exact (stage_update hj).imp (fun ⟨h₁, h₂⟩ => ⟨h₁, h₂.symm⟩) And.right
  by_cases ha : a = .shell
  · subst ha
    have hs : t.shellSemaphore = s.shellSemaphore ∧ t.masterSemaphore = s.masterSemaphore.V ∧
        t.vm.nextPid = s.vm.nextPid ∧ t.parent = s.parent ∧ t.testPc = s.testPc := by
      rw [Support.signal, if_pos rfl] at hf
      exact ⟨hf.shell, hf.master, hf.next, hf.parent, hf.test⟩
    obtain ⟨hsh, hma, hn, hp, ht⟩ := hs
    obtain ⟨hs₀, hk, hw⟩ := h.idle hq hb (by simp)
    -- the shell has done its `V` and only has to die
    have hover : t.ShellOver := fun j c hj => by
      rcases back hj with ⟨-, he⟩ | hj
      · cases he; rfl
      · obtain rfl := h.shell1 _ _ _ _ hq hj
        rw [hst, Function.update_self] at *
        rename_i hj'
        cases hj'
        rfl
    refine h.move_stage hq (by simp) hst hn hp (by simp) (by simp) ?_ ?_
    · refine .idle (hsh.trans hs₀) (fun j b c hj hne => ?_) fun j b hj => ?_
      · rcases back hj with ⟨-, he⟩ | hj
        · cases he; rfl
        · exact hk j b c hj hne
      · rcases back hj with ⟨-, he⟩ | hj
        · cases he
        · exact hw j b hj
    · cases h.test with
      | early _ _ hno => rw [hno q] at hq; cases hq
      | ready j c h₁ h₂ => exact .signalled (ht.trans h₁) (by rw [hma, h₂]; rfl) hover
      | signalled _ _ ho => cases ho q _ hq
      | asleep j c h₁ h₂ => exact .woken (ht.trans h₁) (by rw [hma, h₂]; rfl) hover
      | woken _ _ ho => cases ho q _ hq
      | done _ hno => rw [hno q] at hq; cases hq
  · have hs : t.shellSemaphore = s.shellSemaphore.V ∧ t.masterSemaphore = s.masterSemaphore ∧
        t.vm.nextPid = s.vm.nextPid ∧ t.parent = s.parent ∧ t.testPc = s.testPc := by
      rw [Support.signal, if_neg ha] at hf
      exact ⟨hf.shell, hf.master, hf.next, hf.parent, hf.test⟩
    obtain ⟨hsh, hma, hn, hp, ht⟩ := hs
    -- this was the one open child
    have closed : t.NoOpen := fun j b c hj hne => by
      rcases back hj with ⟨-, he⟩ | hj'
      · cases he; rfl
      · by_contra hc
        obtain rfl := h.one _ _ _ _ _ _ hq hj' ha hne (by simp) hc
        rw [hst, Function.update_self] at hj
        cases hj
        exact hc rfl
    have apart : ∀ {j c}, s.stageOf j = some (Asid.shell, c) → j ≠ q := by
      rintro j c hj rfl
      rw [hq] at hj
      cases hj
      exact ha rfl
    refine h.move_stage hq (by simp) hst hn hp (by simp) (by simp) ?_
      (h.test.move_stage hq (.inl ha) hst ht hma)
    cases h.shell with
    | idle _ hk => cases hk q _ _ hq ha
    | opened j hs hj => exact .early j (by rw [hsh, hs]; rfl) (old (apart hj) hj) closed
    | early j _ _ hk => cases hk q _ _ hq ha
    | asleep j hs hj =>
        refine .idle (by rw [hsh, hs]; rfl) closed fun i b hi => ?_
        rcases back hi with ⟨-, he⟩ | hi
        · cases he
        · obtain rfl := h.wait i b hi
          obtain rfl := h.shell1 _ _ _ _ hi hj
          rw [hi] at hj
          cases hj

/-- **The step lemma.** -/
theorem Sync.move (h : s.Sync) (hm : SyncMove s t) : t.Sync := by
  cases hm with
  | same hst hf =>
      exact h.congr hst hf.next hf.parent (h.shell.congr hst hf.shell)
        (h.test.congr hst hf.test hf.master)
  | early he he' hst hf =>
      refine h.congr hst hf.next hf.parent (h.shell.congr hst hf.shell) ?_
      cases h.test with
      | early _ h₂ hno => exact .early he' (hf.master.trans h₂) (by rw [hst]; exact hno)
      | ready _ _ h₁ => rw [h₁] at he; exact he.elim
      | signalled h₁ => rw [h₁] at he; exact he.elim
      | asleep _ _ h₁ => rw [h₁] at he; exact he.elim
      | woken h₁ => rw [h₁] at he; exact he.elim
      | done h₁ => rw [h₁] at he; exact he.elim
  | launch he hst hn hp ht hm hs => exact h.launch he hst hn hp ht hm hs
  | testWait he ht hst hm hf =>
      refine h.congr hst hf.next hf.parent (h.shell.congr hst hf.shell) ?_
      cases h.test with
      | early h₁ => rw [he] at h₁; exact h₁.elim
      | ready j c h₁ h₂ hj hc =>
          exact .asleep j c ht (by rw [hm, h₂]; rfl) (by rw [hst]; exact hj) hc
      | signalled h₁ h₂ ho =>
          exact .woken ht (by rw [hm, h₂]; rfl) (by rw [ShellOver, hst]; exact ho)
      | asleep _ _ h₁ => rw [he] at h₁; cases h₁
      | woken h₁ => rw [he] at h₁; cases h₁
      | done h₁ => rw [he] at h₁; cases h₁
  | testTerm he hb ht =>
      have ho : s.ShellOver ∧ s.masterSemaphore = ⟨0, []⟩ := by
        cases h.test with
        | early h₁ => rw [he] at h₁; exact h₁.elim
        | ready _ _ h₁ => rw [he] at h₁; cases h₁
        | signalled h₁ => rw [he] at h₁; cases h₁
        | asleep _ _ _ h₂ => exact absurd (by simp [h₂]) hb
        | woken _ h₂ ho => exact ⟨ho, h₂⟩
        | done h₁ => rw [he] at h₁; cases h₁
      -- `test` is woken only after the `V` of the shell, so nobody sleeps on either semaphore
      obtain ⟨ho, hm₀⟩ := ho
      obtain ⟨hs, -, -⟩ := h.over ho
      have hno := terminate_all (q := 0) fun j x hx => h.progeny_test hx
      obtain ⟨-, hp, -, hn, -, -, -⟩ := foldl_remove (s.progeny 0) s
      obtain ⟨-, hss⟩ := terminate_sems (s := s) (q := 0)
        (fun j _ hm => by rw [hm₀] at hm; cases hm) (fun j _ hm => by rw [hs] at hm; cases hm)
      subst ht
      exact h.terminated (t := { s.terminate 0 with testPc := .done }) (fun j => .inl (hno j)) hn hp
        (.none (hss.trans hs) hno) (.done rfl hno)
  | start q a ha hb hq hst hf =>
      obtain ⟨hs, hk, hw⟩ := h.idle hq hb (by simp)
      refine h.move_stage hq (by simp) hst hf.next hf.parent (by rintro _ ⟨⟩; exact ⟨rfl, ha⟩)
        (by simp) (.idle (hf.shell.trans hs) (fun j b c hj hne => ?_) fun j b hj => ?_)
        (h.test.move_stage hq (.inr ⟨by simp, by simp⟩) hst hf.test hf.master)
      · rw [hst] at hj
        rcases stage_update hj with ⟨-, he⟩ | ⟨-, hj⟩
        · cases he; exact absurd rfl hne
        · exact hk j b c hj hne
      · rw [hst] at hj
        rcases stage_update hj with ⟨-, he⟩ | ⟨-, hj⟩
        · cases he
        · exact hw j b hj
  | child q b a hb hq hst hn hp ht hm hs => exact h.child hb hq hst hn hp ht hm hs
  | childless q b a hb hq hst hf =>
      obtain ⟨rfl, -⟩ := h.exec _ _ _ hq
      obtain ⟨hs, -, -⟩ := h.idle hq hb (by simp)
      exact h.move_stage hq (by simp) hst hf.next hf.parent (by simp) (fun _ => rfl)
        (.opened q (hf.shell.trans hs) (by rw [hst, Function.update_self]))
        (h.test.move_stage hq (.inr ⟨by simp, by simp⟩) hst hf.test hf.master)
  | wait q b hb hq hst hs hf =>
      obtain rfl := h.wait _ _ hq
      have tq : t.stageOf q = some (.shell, .plain) := by rw [hst, Function.update_self]
      refine h.move_stage hq (by simp) hst hf.next hf.parent (by simp) (by simp) ?_
        (h.test.move_stage hq (.inr ⟨by simp, by simp⟩) hst hf.test hf.master)
      cases h.shell with
      | idle _ _ hw => exact absurd hq (hw q _)
      | opened j h₁ hj => exact .asleep q (by rw [hs, h₁]; rfl) tq
      -- the child was faster: its `V` is already there, and the `P` does not sleep
      | early j h₁ hj hk =>
          refine .idle (by rw [hs, h₁]; rfl) (fun i b c hi hne => ?_) fun i b hi => ?_
          · rw [hst] at hi
            rcases stage_update hi with ⟨-, he⟩ | ⟨-, hi⟩
            · cases he; exact absurd rfl hne
            · exact hk i b c hi hne
          · rw [hst] at hi
            rcases stage_update hi with ⟨-, he⟩ | ⟨hne, hi⟩
            · cases he
            · obtain rfl := h.wait i b hi
              exact hne (h.shell1 _ _ _ _ hi hq)
      | asleep j h₁ hj =>
          obtain rfl := h.shell1 _ _ _ _ hq hj
          rw [hq] at hj
          cases hj
  | signal q a hb hq hst hf => exact h.signal hb hq hst hf
  | term q a hb hq ht =>
      subst ht
      by_cases ha : a = .shell
      · subst ha; exact h.terminate_shell hq hb
      · exact h.terminate_child hq ha hb

end PandOS.Support
