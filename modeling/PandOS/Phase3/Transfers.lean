import PandOS.Phase3.Waiting

/-!
# Phase 3 — the loops of the terminal services

`sys4_writeTerminal` and `sys5_readTerminal` from their `P` to `LDST`, one call at a time.
`transfer sv` is a machine over the statements of one call with the saved registers `sv`; what
comes back from outside, the byte a load returns and the status `DOIO` returns, is an `Answer`.
`Step.transfer` says that a process of the Support Level that is in such a call moves as this
machine does.
-/

namespace PandOS

/-- What a statement gets back from outside. -/
inductive Answer where
  /-- Nothing: a `P` or `V`, a command, a store. -/
  | done
  | byte (c : BitVec 8)
  | status (w : Word)
  deriving DecidableEq

/-- The statement after `g`, in a call with the registers `sv`. -/
def transfer (sv : Saved) : GenPc → Answer → Option GenPc
  | .sys4 .acquire, .done => some (sys4Loop sv 0)
  | .sys4 (.load i), .byte c => some (.sys4 (.command i c))
  | .sys4 (.command i _), .done => some (.sys4 (.busy i))
  | .sys4 (.busy i), .status w =>
      some (if w &&& 0xFF ≠ okCharTrans then .sys4 (.release (-w)) else sys4Loop sv (i + 1))
  | .sys4 (.release _), .done => some .ldst
  | .sys5 .acquire, .done => some (sys5Loop 0 none)
  | .sys5 (.command i), .done => some (.sys5 (.busy i))
  | .sys5 (.busy i), .status w =>
      some (if w &&& 0xFF ≠ recvd then .sys5 (.release (-w))
        else .sys5 (.store i ((w >>> 8).setWidth 8)))
  | .sys5 (.store i c), .done => some (sys5Loop (i + 1) (some c))
  | .sys5 (.release _), .done => some .ldst
  | _, _ => none

/-- `str + i` and `buf + i`. -/
def userByte (sv : Saved) (i : ℕ) : Word := sv.reg_a1 + BitVec.ofNat 32 i

/-- The address a statement reads or writes. -/
def touches (sv : Saved) : GenPc → Option Word
  | .sys4 (.load i) => some (userByte sv i)
  | .sys5 (.store i _) => some (userByte sv i)
  | _ => none

/-! ### The Support Level -/

namespace Support

variable {n : ℕ} {s t : Support n} {e : SupportEvent n} {q : Pid} {a : Asid}

/-- The address the handler touches next. -/
theorem target_eq (s : Support n) (q : Pid) (a : Asid) :
    s.target q a = touches (s.saved a) (s.pc q) := by
  unfold Support.target touches
  cases s.pc q with
  | sys4 pc => cases pc <;> rfl
  | sys5 pc => cases pc <;> rfl
  | _ => rfl

/-- **A terminal service runs as `transfer`.**  A step of a process in one of them is a step of
`transfer` with the registers saved for it, or it leaves the statement as it is: a TLB refill, or
the entry into the pager. -/
theorem Step.transfer (h : Step s e t) (he : e.subject = some q)
    (hq : s.vm.proc q = some ⟨a, .run⟩)
    (hpc : (∃ pc, s.pc q = .sys4 pc) ∨ ∃ pc, s.pc q = .sys5 pc) :
    (∃ x, PandOS.transfer (s.saved a) (s.pc q) x = some (t.pc q)) ∨
      t.pc q = s.pc q ∨ t.pc q = .signal := by
  -- only a process in SYS4 or SYS5 is followed
  have no : ∀ {x : GenPc}, s.pc q = x → (∀ pc, x ≠ .sys4 pc) → (∀ pc, x ≠ .sys5 pc) → False := by
    intro x hx h4 h5
    rcases hpc with ⟨pc, h⟩ | ⟨pc, h⟩
    · exact h4 pc (hx.symm.trans h)
    · exact h5 pc (hx.symm.trans h)
  have at_ : ∀ {b : Asid} {pc : GenPc} {u : Support n} {g : GenPc} {x : Answer},
      s.vm.proc q = some ⟨b, .run⟩ → s.pc q = pc →
      PandOS.transfer (s.saved b) pc x = some g → u.pc q = g →
      (∃ x, PandOS.transfer (s.saved a) (s.pc q) x = some (u.pc q)) ∨
        u.pc q = s.pc q ∨ u.pc q = .signal := by
    intro b pc u g x hb hp hg hu
    have hba : (⟨b, .run⟩ : Proc) = ⟨a, .run⟩ := Option.some.inj (hb.symm.trans hq)
    obtain rfl : b = a := congrArg Proc.asid hba
    exact .inl ⟨x, by rw [hp, hu]; exact hg⟩
  have vm : ∀ u : VM n, (s.withVm q u).pc q = s.pc q ∨ (s.withVm q u).pc q = .signal := by
    intro u
    unfold withVm
    split
    · exact .inr (Function.update_self ..)
    · exact .inl rfl
  cases h with
  | testInit | testInitDone | testCreate | testWait | testTerm => cases he
  | load _ hx => cases he; exact (no hx nofun nofun).elim
  | store _ hx => cases he; exact (no hx nofun nofun).elim
  | @sys4Load q b p w v u i c hb hx hu =>
      cases he
      exact at_ (x := .byte c) hq hx rfl setPc_self
  | @sys5Store q b p w v u i c hb hx hu =>
      cases he
      exact at_ (x := .done) hq hx rfl setPc_self
  | refill => exact .inr (.inl rfl)
  | fault _ _ _ => cases he; exact .inr (vm _)
  | pager _ _ => cases he; exact .inr (vm _)
  | flashDone => exact .inr (.inl rfl)
  | ecall _ hx => cases he; exact (no hx nofun nofun).elim
  | trap _ hx => cases he; exact (no hx nofun nofun).elim
  | dispatch _ _ hx => cases he; exact (no hx nofun nofun).elim
  | doom _ _ hx => cases he; exact (no hx nofun nofun).elim
  | sys4Acquire _ hb hx => cases he; exact at_ (x := .done) hb hx rfl setPc_self
  | sys4Command _ hb hx => cases he; exact at_ (x := .done) hb hx rfl setPc_self
  | sys4Release _ hb hx => cases he; exact at_ (x := .done) hb hx rfl setPc_self
  | sys5Acquire _ hb hx => cases he; exact at_ (x := .done) hb hx rfl setPc_self
  | sys5Command _ hb hx => cases he; exact at_ (x := .done) hb hx rfl setPc_self
  | sys5Release _ hb hx => cases he; exact at_ (x := .done) hb hx rfl setPc_self
  | sys6Init _ _ hx => cases he; exact (no hx nofun nofun).elim
  | sys6InitDone _ _ hx => cases he; exact (no hx nofun nofun).elim
  | sys6Create _ _ hx => cases he; exact (no hx nofun nofun).elim
  | sys6Wait _ _ hx => cases he; exact (no hx nofun nofun).elim
  | ldst _ _ hx => cases he; exact (no hx nofun nofun).elim
  | signal _ _ hx => cases he; exact (no hx nofun nofun).elim
  | term _ _ hx => cases he; exact (no hx nofun nofun).elim
  | noPcb _ _ hx => cases he; exact (no hx nofun nofun).elim
  | @sys4Done q b i status hb hx =>
      cases he
      exact at_ (x := .status status) hb hx rfl setPc_self
  | @sys5Done q b i status hb hx =>
      cases he
      exact at_ (x := .status status) hb hx rfl setPc_self

end Support

/-! ### The loop heads -/

/-- After the `i`-th character the loop of `sys4_writeTerminal` reads the next one or is done. -/
theorem sys4Loop_cases (sv : Saved) (i : ℕ) :
    ((i : ℤ) < sv.reg_a2.toInt ∧ sys4Loop sv i = .sys4 (.load i)) ∨
      ∃ a0, sys4Loop sv i = .sys4 (.release a0) := by
  unfold sys4Loop
  split
  · rename_i h; exact .inl ⟨h, rfl⟩
  · exact .inr ⟨_, rfl⟩

/-- After `i` characters the loop of `sys5_readTerminal` asks for the next one or is done. -/
theorem sys5Loop_cases (i : ℕ) (c : Option (BitVec 8)) :
    sys5Loop i c = .sys5 (.command i) ∨ ∃ a0, sys5Loop i c = .sys5 (.release a0) := by
  unfold sys5Loop
  split
  · exact .inr ⟨_, rfl⟩
  · exact .inl rfl

end PandOS
