import PandOS.Phase3.Transfers

/-!
# Phase 3 — what the terminal services transfer

A call of `sys4_writeTerminal` or `sys5_readTerminal` is seen as the list of its `TermAct`s: the
bytes it loads and stores, the commands it writes to terminal 0 and the statuses it gets, the `P`
and the `V` of the channel's mutex, and the value it returns with.  `Wrote` and `ReadLine` say what
a whole call is, for the string and for the line; `call` is `transfer` with `reg_a0` beside it.

`Calls.underway` says what a call has done at each of its statements, and `Underway.extend` that
this is always the beginning of a whole call.
-/

namespace PandOS

/-- What a call does, as the mutexes, the memory of the U-proc, terminal 0 and the U-proc see it. -/
inductive TermAct where
  | passeren (d : Channel)
  | load (addr : Word) (c : BitVec 8)
  | transmit (command : Word)
  | receive (command : Word)
  | status (w : Word)
  | store (addr : Word) (c : BitVec 8)
  | verhogen (d : Channel)
  /-- `LDST`, with this `reg_a0`. -/
  | resume (a0 : Word)
  deriving DecidableEq

/-- `transm_command` for a character. -/
def transmitCommand (c : BitVec 8) : Word := c.setWidth 32 <<< 8 ||| transmitChar

/-- The character in `recv_status`. -/
def charOf (w : Word) : BitVec 8 := (w >>> 8).setWidth 8

/-- The character that ends a line. -/
def newline : BitVec 8 := 10

/-! ### Whole calls -/

/-- The turns of a loop, `turn i x` for the `i`-th of `xs`. -/
def turns {α : Type} (turn : ℕ → α → List TermAct) (xs : List α) : List TermAct :=
  (xs.mapIdx turn).flatten

/-- A turn of the loop of `sys4_writeTerminal`: the character, and the status of its command. -/
def writeTurn (sv : Saved) (i : ℕ) (x : BitVec 8 × Word) : List TermAct :=
  [.load (userByte sv i) x.1, .transmit (transmitCommand x.1), .status x.2]

/-- A turn of the loop of `sys5_readTerminal`, with the status that brings the character. -/
def readTurn (sv : Saved) (i : ℕ) (w : Word) : List TermAct :=
  [.receive receiveChar, .status w, .store (userByte sv i) (charOf w)]

/-- The characters are transmitted. -/
def Sent (rs : List (BitVec 8 × Word)) : Prop := ∀ x ∈ rs, x.2 &&& 0xFF = okCharTrans

/-- Characters have come. -/
def Received (ws : List Word) : Prop := ∀ w ∈ ws, w &&& 0xFF = recvd

/-- None of them ends the line. -/
def Open (ws : List Word) : Prop := ∀ w ∈ ws, charOf w ≠ newline

/-- What `sys4_writeTerminal` does between its `P` and its `V`, and what it returns. -/
inductive WriteLoop (sv : Saved) : List TermAct → Word → Prop where
  | done {rs : List (BitVec 8 × Word)} (h : Sent rs) (hn : (rs.length : ℤ) = sv.reg_a2.toInt) :
      WriteLoop sv (turns (writeTurn sv) rs) sv.reg_a2
  | failed {rs : List (BitVec 8 × Word)} {c : BitVec 8} {w : Word} (h : Sent rs)
      (hn : (rs.length : ℤ) < sv.reg_a2.toInt) (hw : w &&& 0xFF ≠ okCharTrans)
      (neg : (-w).toInt < 0) : WriteLoop sv (turns (writeTurn sv) (rs ++ [(c, w)])) (-w)

/-- What `sys5_readTerminal` does between its `P` and its `V`, and what it returns. -/
inductive ReadLoop (sv : Saved) : List TermAct → Word → Prop where
  | done {ws : List Word} {a0 : Word} (h : Received ws) (pos : 0 < ws.length)
      (hn : ws.length ≤ maxStringLen) (ho : Open ws.dropLast)
      (hend : ws.length = maxStringLen ∨ ∃ w ∈ ws.getLast?, charOf w = newline)
      (ha : a0.toInt = ws.length) : ReadLoop sv (turns (readTurn sv) ws) a0
  | failed {ws : List Word} {w : Word} (h : Received ws) (hn : ws.length < maxStringLen)
      (ho : Open ws) (hw : w &&& 0xFF ≠ recvd) (neg : (-w).toInt < 0) :
      ReadLoop sv (turns (readTurn sv) ws ++ [.receive receiveChar, .status w]) (-w)

/-- What the service of a channel does between its `P` and its `V`, and what it returns. -/
def TermLoop (sv : Saved) : Channel → List TermAct → Word → Prop
  | .tx => WriteLoop sv
  | .rx => ReadLoop sv

/-- **A whole call.** -/
def WholeCall (sv : Saved) (d : Channel) (h : List TermAct) : Prop :=
  ∃ l a0, TermLoop sv d l a0 ∧ h = .passeren d :: (l ++ [.verhogen d, .resume a0])

/-! ### One call, statement by statement -/

/-- The next statement of a call, and `reg_a0`. -/
def call (sv : Saved) : GenPc × Word → Answer → Option (GenPc × Word)
  | (.sys4 (.release a0), _), .done => some (.ldst, a0)
  | (.sys5 (.release a0), _), .done => some (.ldst, a0)
  | (.ldst, r), .done => some (.user, r)
  | (g, r), x => (transfer sv g x).map (·, r)

/-- What the statement does. -/
def termActs (sv : Saved) : GenPc × Word → Answer → List TermAct
  | (.sys4 .acquire, _), _ => [.passeren .tx]
  | (.sys4 (.load i), _), .byte c => [.load (userByte sv i) c]
  | (.sys4 (.command _ c), _), _ => [.transmit (transmitCommand c)]
  | (.sys4 (.busy _), _), .status w => [.status w]
  | (.sys4 (.release _), _), _ => [.verhogen .tx]
  | (.sys5 .acquire, _), _ => [.passeren .rx]
  | (.sys5 (.command _), _), _ => [.receive receiveChar]
  | (.sys5 (.busy _), _), .status w => [.status w]
  | (.sys5 (.store i c), _), _ => [.store (userByte sv i) c]
  | (.sys5 (.release _), _), _ => [.verhogen .rx]
  | (.ldst, r), _ => [.resume r]
  | _, _ => []

/-- What a call has done so far. -/
def callNote (sv : Saved) (y : GenPc × Word) (x : Answer) (_ : GenPc × Word) (h : List TermAct) :
    List TermAct := h ++ termActs sv y x

/-- A status has a low byte that is not 0, and nothing above its low half. -/
def statusWord (w : Word) : Prop := w &&& 0xFF ≠ 0 ∧ w >>> 16 = 0

instance (w : Word) : Decidable (statusWord w) := inferInstanceAs (Decidable (_ ∧ _))

/-- A status the terminal can report. -/
def Answer.legal (x : Answer) : Prop := ∀ w, x = .status w → statusWord w

/-- The run of a call from its `P` on. -/
abbrev Calls (sv : Saved) (y₀ : GenPc × Word) (xs : List Answer) (y : GenPc × Word)
    (h : List TermAct) : Prop :=
  Run (record (call sv) (callNote sv)) (fun _ x => x.legal) (y₀, []) xs (y, h)

/-- The `P` of the service of a channel. -/
def acquirePc : Channel → GenPc
  | .tx => .sys4 .acquire
  | .rx => .sys5 .acquire

/-- Its `V`, before it returns `a0`. -/
def releasePc : Channel → Word → GenPc
  | .tx, a0 => .sys4 (.release a0)
  | .rx, a0 => .sys5 (.release a0)

/-- What `sys4_writeTerminal` has done since its `P`, before a statement of its loop. -/
inductive InWrite (sv : Saved) : GenPc → List TermAct → Prop where
  | load {rs : List (BitVec 8 × Word)} (h : Sent rs) (hn : (rs.length : ℤ) < sv.reg_a2.toInt) :
      InWrite sv (.sys4 (.load rs.length)) (turns (writeTurn sv) rs)
  | command {rs : List (BitVec 8 × Word)} (c : BitVec 8) (h : Sent rs)
      (hn : (rs.length : ℤ) < sv.reg_a2.toInt) : InWrite sv (.sys4 (.command rs.length c))
        (turns (writeTurn sv) rs ++ [.load (userByte sv rs.length) c])
  | busy {rs : List (BitVec 8 × Word)} (c : BitVec 8) (h : Sent rs)
      (hn : (rs.length : ℤ) < sv.reg_a2.toInt) : InWrite sv (.sys4 (.busy rs.length))
        (turns (writeTurn sv) rs ++ [.load (userByte sv rs.length) c, .transmit (transmitCommand c)])

/-- What `sys5_readTerminal` has done since its `P`, before a statement of its loop. -/
inductive InRead (sv : Saved) : GenPc → List TermAct → Prop where
  | command {ws : List Word} (h : Received ws) (ho : Open ws) (hn : ws.length < maxStringLen) :
      InRead sv (.sys5 (.command ws.length)) (turns (readTurn sv) ws)
  | busy {ws : List Word} (h : Received ws) (ho : Open ws) (hn : ws.length < maxStringLen) :
      InRead sv (.sys5 (.busy ws.length)) (turns (readTurn sv) ws ++ [.receive receiveChar])
  | store {ws : List Word} {w : Word} (h : Received ws) (ho : Open ws)
      (hn : ws.length < maxStringLen) (hw : w &&& 0xFF = recvd) :
      InRead sv (.sys5 (.store ws.length (charOf w)))
        (turns (readTurn sv) ws ++ [.receive receiveChar, .status w])

/-- What a service has done since its `P`, before a statement of its loop. -/
def InLoop (sv : Saved) : Channel → GenPc → List TermAct → Prop
  | .tx => InWrite sv
  | .rx => InRead sv

/-- What a call has done before a statement, and what is in `reg_a0` then. -/
inductive Underway (sv : Saved) (d : Channel) : GenPc → Word → List TermAct → Prop where
  | acquire (r : Word) : Underway sv d (acquirePc d) r []
  | loop {g : GenPc} {l : List TermAct} (r : Word) (h : InLoop sv d g l) :
      Underway sv d g r (.passeren d :: l)
  | release {l : List TermAct} {a0 : Word} (r : Word) (h : TermLoop sv d l a0) :
      Underway sv d (releasePc d a0) r (.passeren d :: l)
  | ldst {l : List TermAct} {a0 : Word} (h : TermLoop sv d l a0) :
      Underway sv d .ldst a0 (.passeren d :: (l ++ [.verhogen d]))
  | user {l : List TermAct} {a0 : Word} (h : TermLoop sv d l a0) :
      Underway sv d .user a0 (.passeren d :: (l ++ [.verhogen d, .resume a0]))

/-- The service of a channel accepts its arguments. -/
def Accepted (sv : Saved) : Channel → Prop
  | .tx => sys4_writeTerminal sv = acquirePc .tx
  | .rx => sys5_readTerminal sv = acquirePc .rx

section
variable {sv : Saved} {d : Channel} {g : GenPc} {r w a0 : Word} {h l : List TermAct} {x : Answer}
  {y y₀ : GenPc × Word} {xs : List Answer} {rs : List (BitVec 8 × Word)} {ws : List Word}

theorem turns_concat {α : Type} {turn : ℕ → α → List TermAct} {xs : List α} (x : α) :
    turns turn (xs ++ [x]) = turns turn xs ++ turn xs.length x := by
  rw [turns, List.mapIdx_concat, List.flatten_append]
  exact congrArg _ (List.append_nil _)

/-- Every turn has three statements. -/
theorem turns_length {α : Type} {turn : ℕ → α → List TermAct} (h : ∀ i x, (turn i x).length = 3)
    {xs : List α} : (turns turn xs).length = 3 * xs.length := by
  induction xs using List.reverseRecOn with
  | nil => rfl
  | append_singleton xs x ih =>
      rw [turns_concat, List.length_append, ih, h, List.length_append, List.length_singleton]
      omega

/-- Minus a status is negative. -/
theorem statusWord.neg (h : statusWord w) : (-w).toInt < 0 := by
  obtain ⟨hlow, hhigh⟩ := h
  have hpos : w.toNat ≠ 0 := by
    intro hw
    have : w = 0 := BitVec.eq_of_toNat_eq hw
    subst this
    exact hlow rfl
  have hlt : w.toNat < 2 ^ 16 := by
    have := congrArg BitVec.toNat hhigh
    rw [BitVec.toNat_ushiftRight, Nat.shiftRight_eq_div_pow] at this
    have h0 : (0 : Word).toNat = 0 := rfl
    omega
  rw [BitVec.toInt_eq_toNat_cond, BitVec.toNat_neg]
  split <;> omega

theorem Accepted.length (h : Accepted sv .tx) :
    0 ≤ sv.reg_a2.toInt ∧ sv.reg_a2.toInt ≤ maxStringLen := by
  have h : sys4_writeTerminal sv = .sys4 .acquire := h
  unfold sys4_writeTerminal at h
  split at h
  case isTrue => cases h
  case isFalse hok =>
    simp only [not_or, not_lt] at hok
    exact ⟨hok.1, hok.2.1⟩

theorem toInt_count {k : ℕ} (h : k ≤ maxStringLen) : (BitVec.ofNat 32 k).toInt = k := by
  have hk : k ≤ 128 := h
  rw [BitVec.toInt_eq_toNat_cond, BitVec.toNat_ofNat, Nat.mod_eq_of_lt (by omega)]
  exact if_pos (by omega)

/-- At the head of the loop of `sys4_writeTerminal`. -/
theorem Underway.writeHead (hacc : Accepted sv .tx) (h : Sent rs)
    (hn : (rs.length : ℤ) ≤ sv.reg_a2.toInt) (r : Word) :
    Underway sv .tx (sys4Loop sv rs.length) r (.passeren .tx :: turns (writeTurn sv) rs) := by
  obtain ⟨-, hmax⟩ := hacc.length
  unfold sys4Loop
  split
  case isTrue hlt => exact .loop r (.load h hlt)
  case isFalse hlt =>
    have hlen : (rs.length : ℤ) = sv.reg_a2.toInt := le_antisymm hn (not_lt.mp hlt)
    have ha : BitVec.ofNat 32 rs.length = sv.reg_a2 := by
      refine BitVec.eq_of_toInt_eq ?_
      rw [toInt_count (by omega), hlen]
    rw [ha]
    exact .release (d := .tx) r (WriteLoop.done h hlen)

/-- At the head of the loop of `sys5_readTerminal`, after the last character of `ws`. -/
theorem Underway.readHead (h : Received ws) (ho : Open ws.dropLast) (hn : ws.length ≤ maxStringLen)
    (r : Word) : Underway sv .rx (sys5Loop ws.length (ws.getLast?.map charOf)) r
      (.passeren .rx :: turns (readTurn sv) ws) := by
  unfold sys5Loop
  split
  case isTrue hend =>
    refine .release (d := .rx) r (ReadLoop.done h ?_ hn ho ?_ (toInt_count hn))
    · rcases hend with hc | hc
      · refine List.length_pos_iff.mpr ?_
        rintro rfl
        cases hc
      · exact lt_of_lt_of_le (by decide) hc
    · rcases hend with hc | hc
      · obtain ⟨w, hw, hc⟩ := Option.map_eq_some_iff.mp hc
        exact .inr ⟨w, hw, hc⟩
      · exact .inl (le_antisymm hn hc)
  case isFalse hend =>
    obtain ⟨hc, hlt⟩ := not_or.mp hend
    refine .loop r (.command h (fun w hw => ?_) (not_le.mp hlt))
    -- the last character is not the newline either
    rcases List.eq_nil_or_concat' ws with rfl | ⟨us, v, rfl⟩
    · cases hw
    · rw [List.dropLast_concat] at ho
      rcases List.mem_append.mp hw with hw | hw
      · exact ho w hw
      · obtain rfl := List.mem_singleton.mp hw
        intro hnl
        refine hc ?_
        rw [List.getLast?_concat, Option.map_some, hnl]
        rfl

theorem Sent.nil : Sent [] := by rintro _ ⟨⟩

theorem Received.nil : Received [] := by rintro _ ⟨⟩

theorem Sent.concat (h : Sent rs) {c : BitVec 8} (hw : w &&& 0xFF = okCharTrans) :
    Sent (rs ++ [(c, w)]) := by
  intro v hv
  rcases List.mem_append.mp hv with hv | hv
  · exact h v hv
  · rw [List.mem_singleton.mp hv]
    exact hw

theorem Received.concat (h : Received ws) (hw : w &&& 0xFF = recvd) : Received (ws ++ [w]) := by
  intro v hv
  rcases List.mem_append.mp hv with hv | hv
  · exact h v hv
  · rw [List.mem_singleton.mp hv]
    exact hw

/-- A statement of the loop of `sys4_writeTerminal`. -/
theorem InWrite.step (hacc : Accepted sv .tx) (h : InWrite sv g l) (hx : x.legal)
    (hs : call sv (g, r) x = some y) :
    Underway sv .tx y.1 y.2 (.passeren .tx :: (l ++ termActs sv (g, r) x)) := by
  cases h with
  | load h hn => cases x <;> cases hs; exact .loop r (.command _ h hn)
  | command c h hn =>
      cases x <;> cases hs
      rw [List.append_assoc]
      exact .loop r (.busy c h hn)
  | @busy rs c h hn =>
      cases x with
      | status w =>
          have hturn : turns (writeTurn sv) rs ++ [.load (userByte sv rs.length) c,
              .transmit (transmitCommand c)] ++ termActs sv (.sys4 (.busy rs.length), r) (.status w) =
              turns (writeTurn sv) (rs ++ [(c, w)]) := by
            rw [turns_concat, List.append_assoc]
            rfl
          have hy : (if w &&& 0xFF ≠ okCharTrans then .sys4 (.release (-w))
              else sys4Loop sv (rs.length + 1), r) = y := Option.some.inj hs
          rw [hturn, ← hy]
          by_cases hw : w &&& 0xFF = okCharTrans
          · have hlen : (rs ++ [(c, w)]).length = rs.length + 1 := List.length_append
            rw [if_neg (not_not.mpr hw), ← hlen]
            exact .writeHead hacc (h.concat hw) (by rw [hlen]; push_cast; omega) r
          · rw [if_pos hw]
            exact .release (d := .tx) r (WriteLoop.failed h hn hw (hx w rfl).neg)
      | _ => cases hs

/-- A statement of the loop of `sys5_readTerminal`. -/
theorem InRead.step (h : InRead sv g l) (hx : x.legal) (hs : call sv (g, r) x = some y) :
    Underway sv .rx y.1 y.2 (.passeren .rx :: (l ++ termActs sv (g, r) x)) := by
  cases h with
  | command h ho hn => cases x <;> cases hs; exact .loop r (.busy h ho hn)
  | @busy ws h ho hn =>
      cases x with
      | status w =>
          have hy : (if w &&& 0xFF ≠ recvd then .sys5 (.release (-w))
              else .sys5 (.store ws.length (charOf w)), r) = y := Option.some.inj hs
          rw [← hy, List.append_assoc]
          by_cases hw : w &&& 0xFF = recvd
          · rw [if_neg (not_not.mpr hw)]
            exact .loop r (.store h ho hn hw)
          · rw [if_pos hw]
            exact .release (d := .rx) r (ReadLoop.failed h hn ho hw (hx w rfl).neg)
      | _ => cases hs
  | @store ws w h ho hn hw =>
      cases x <;> cases hs
      have hturn : turns (readTurn sv) ws ++ [.receive receiveChar, .status w] ++
          termActs sv (.sys5 (.store ws.length (charOf w)), r) .done =
          turns (readTurn sv) (ws ++ [w]) := by
        rw [turns_concat, List.append_assoc]
        rfl
      have hlen : (ws ++ [w]).length = ws.length + 1 := List.length_append
      have hlast : (ws ++ [w]).getLast?.map charOf = some (charOf w) := by
        rw [List.getLast?_concat, Option.map_some]
      rw [hturn]
      show Underway sv .rx (sys5Loop (ws.length + 1) (some (charOf w))) r _
      rw [← hlen, ← hlast]
      exact .readHead (h.concat hw) (by rw [List.dropLast_concat]; exact ho) (by rw [hlen]; exact hn) r

/-- **A statement of a call.** -/
theorem Underway.step (hacc : Accepted sv d) (h : Underway sv d g r l) (hx : x.legal)
    (hs : call sv (g, r) x = some y) : Underway sv d y.1 y.2 (l ++ termActs sv (g, r) x) := by
  cases h with
  | acquire =>
      cases d with
      | tx => cases x <;> cases hs; exact .writeHead hacc Sent.nil hacc.length.1 r
      | rx =>
          cases x <;> cases hs
          exact .readHead Received.nil (by rintro _ ⟨⟩) (by decide) r
  | loop _ h =>
      cases d with
      | tx => exact InWrite.step hacc h hx hs
      | rx => exact InRead.step h hx hs
  | release _ h => cases d <;> cases x <;> cases hs <;> exact .ldst h
  | ldst h =>
      cases x <;> cases hs
      rw [List.cons_append, List.append_assoc]
      exact .user h
  | user h => cases x <;> cases hs

/-- **A call.** -/
theorem Calls.underway (hacc : Accepted sv d) (hr : Calls sv (acquirePc d, r) xs y h) :
    Underway sv d y.1 y.2 h := by
  refine hr.inv (I := fun z : (GenPc × Word) × List TermAct => Underway sv d z.1.1 z.1.2 z.2)
    (.acquire r) ?_
  rintro ⟨u, l⟩ x ⟨v, l'⟩ hu hx hs
  obtain ⟨hst, hnote⟩ := record_eq_some hs
  rw [hnote]
  exact hu.step hacc hx hst

/-- A call that has returned is a whole call. -/
theorem Underway.whole (h : Underway sv d .user r l) : WholeCall sv d l := by
  generalize hg : GenPc.user = g at h
  cases h with
  | acquire => cases d <;> cases hg
  | loop _ h =>
      subst hg
      cases d <;> cases h
  | release => cases d <;> cases hg
  | ldst => cases hg
  | user h => exact ⟨_, _, h, rfl⟩

/-! ### A call that goes on -/

theorem turns_prefix {α : Type} {turn : ℕ → α → List TermAct} (xs zs : List α) :
    turns turn xs <+: turns turn (xs ++ zs) := by
  rw [turns, turns, List.mapIdx_append, List.flatten_append]
  exact List.prefix_append ..

/-- The characters that are left are transmitted. -/
theorem WriteLoop.extend (hacc : Accepted sv .tx) (h : Sent rs)
    (hn : (rs.length : ℤ) ≤ sv.reg_a2.toInt) :
    ∃ l a0, turns (writeTurn sv) rs <+: l ∧ WriteLoop sv l a0 := by
  obtain ⟨hpos, -⟩ := hacc.length
  have hsent : Sent (rs ++ List.replicate (sv.reg_a2.toInt.toNat - rs.length) (0, okCharTrans)) := by
    intro v hv
    rcases List.mem_append.mp hv with hv | hv
    · exact h v hv
    · rw [List.eq_of_mem_replicate hv]
      decide
  refine ⟨_, _, turns_prefix rs _, .done hsent ?_⟩
  rw [List.length_append, List.length_replicate]
  omega

/-- The line ends. -/
theorem ReadLoop.extend (h : Received ws) (ho : Open ws.dropLast) (hn : ws.length ≤ maxStringLen) :
    ∃ l a0, turns (readTurn sv) ws <+: l ∧ ReadLoop sv l a0 := by
  by_cases hend : 0 < ws.length ∧
      (ws.length = maxStringLen ∨ ∃ w ∈ ws.getLast?, charOf w = newline)
  · exact ⟨_, _, List.prefix_refl _, .done h hend.1 hn ho hend.2 (toInt_count hn)⟩
  · have hlt : ws.length < maxStringLen := by
      refine lt_of_le_of_ne hn fun he => hend ⟨?_, .inl he⟩
      rw [he]
      decide
    have hopen : Open ws := by
      intro w hw hc
      refine hend ⟨List.length_pos_of_mem hw, ?_⟩
      rcases List.eq_nil_or_concat' ws with rfl | ⟨us, v, rfl⟩
      · cases hw
      · rw [List.dropLast_concat] at ho
        rcases List.mem_append.mp hw with hw | hw
        · exact absurd hc (ho w hw)
        · refine .inr ⟨v, List.getLast?_concat .., ?_⟩
          rw [← List.mem_singleton.mp hw]
          exact hc
    -- a newline comes
    have hlen : (ws ++ [0x0A05]).length = ws.length + 1 := List.length_append
    refine ⟨_, _, turns_prefix ws [0x0A05], .done (h.concat (by decide)) (by rw [hlen]; omega)
      (by rw [hlen]; exact hlt) (by rw [List.dropLast_concat]; exact hopen)
      (.inr ⟨0x0A05, List.getLast?_concat .., by decide⟩) (toInt_count (by rw [hlen]; exact hlt))⟩

/-- What `sys4_writeTerminal` has done is the start of a whole call. -/
theorem InWrite.extend (hacc : Accepted sv .tx) (h : InWrite sv g l) :
    ∃ l' a0, l <+: l' ∧ WriteLoop sv l' a0 := by
  -- within a turn that goes well
  have turn : ∀ {rs : List (BitVec 8 × Word)} {c : BitVec 8} {m : List TermAct}, Sent rs →
      (rs.length : ℤ) < sv.reg_a2.toInt → m <+: writeTurn sv rs.length (c, okCharTrans) →
      ∃ l' a0, turns (writeTurn sv) rs ++ m <+: l' ∧ WriteLoop sv l' a0 := by
    intro rs c m h hn hm
    obtain ⟨l', a0, hl, hloop⟩ := WriteLoop.extend hacc (h.concat (c := c) (w := okCharTrans)
      (by decide)) (by rw [List.length_append]; push_cast; exact hn)
    rw [turns_concat] at hl
    exact ⟨l', a0, ((List.prefix_append_right_inj _).mpr hm).trans hl, hloop⟩
  cases h with
  | load h hn => exact WriteLoop.extend hacc h hn.le
  | command c h hn => exact turn (c := c) h hn ⟨_, rfl⟩
  | busy c h hn => exact turn (c := c) h hn ⟨_, rfl⟩

/-- What `sys5_readTerminal` has done is the start of a whole call. -/
theorem InRead.extend (h : InRead sv g l) : ∃ l' a0, l <+: l' ∧ ReadLoop sv l' a0 := by
  have turn : ∀ {ws : List Word} {w : Word} {m : List TermAct}, Received ws → Open ws →
      ws.length < maxStringLen → w &&& 0xFF = recvd → m <+: readTurn sv ws.length w →
      ∃ l' a0, turns (readTurn sv) ws ++ m <+: l' ∧ ReadLoop sv l' a0 := by
    intro ws w m h ho hn hw hm
    obtain ⟨l', a0, hl, hloop⟩ := @ReadLoop.extend sv _ (h.concat hw)
      (by rw [List.dropLast_concat]; exact ho) (by rw [List.length_append]; exact hn)
    rw [turns_concat] at hl
    exact ⟨l', a0, ((List.prefix_append_right_inj _).mpr hm).trans hl, hloop⟩
  cases h with
  | command h ho hn =>
      exact ReadLoop.extend h (fun w hw => ho w (List.mem_of_mem_dropLast hw)) hn.le
  | busy h ho hn => exact turn (w := 0x0A05) h ho hn (by decide) ⟨_, rfl⟩
  | store h ho hn hw => exact turn h ho hn hw ⟨_, rfl⟩

/-- What a call has done is the beginning of a whole call. -/
theorem Underway.extend (hacc : Accepted sv d) (h : Underway sv d g r l) :
    ∃ l', l <+: l' ∧ WholeCall sv d l' := by
  have whole : ∀ {l m : List TermAct} {a0 : Word}, l <+: m → TermLoop sv d m a0 →
      ∃ l', .passeren d :: l <+: l' ∧ WholeCall sv d l' := by
    intro l m a0 hl hm
    refine ⟨_, ?_, m, a0, hm, rfl⟩
    exact List.cons_prefix_cons.mpr ⟨rfl, hl.trans (List.prefix_append ..)⟩
  cases h with
  | acquire =>
      have hloop : ∃ m a0, [] <+: m ∧ TermLoop sv d m a0 := by
        cases d with
        | tx => exact WriteLoop.extend hacc Sent.nil hacc.length.1
        | rx => exact ReadLoop.extend Received.nil (by rintro _ ⟨⟩) (by decide)
      obtain ⟨m, a0, -, hm⟩ := hloop
      exact ⟨_, List.nil_prefix, m, a0, hm, rfl⟩
  | @loop _ l _ h =>
      have hloop : ∃ m a0, l <+: m ∧ TermLoop sv d m a0 := by
        cases d with
        | tx => exact InWrite.extend hacc h
        | rx => exact InRead.extend h
      obtain ⟨m, a0, hl, hm⟩ := hloop
      exact whole hl hm
  | release _ h => exact whole (List.prefix_refl _) h
  | @ldst l _ h =>
      refine ⟨_, ?_, l, r, h, rfl⟩
      exact List.cons_prefix_cons.mpr
        ⟨rfl, (List.prefix_append_right_inj _).mpr ⟨[.resume r], rfl⟩⟩
  | @user l _ h => exact ⟨_, List.prefix_refl _, l, r, h, rfl⟩

/-- A call is over after so many statements. -/
theorem WholeCall.length_le (hacc : Accepted sv d) (h : WholeCall sv d l) :
    l.length ≤ 3 * maxStringLen + 3 := by
  obtain ⟨m, a0, hm, rfl⟩ := h
  suffices hlen : m.length ≤ 3 * maxStringLen by
    simp only [List.length_cons, List.length_append, List.length_nil]
    omega
  cases d with
  | tx =>
      obtain ⟨-, hmax⟩ := hacc.length
      cases hm with
      | done _ hn =>
          rw [turns_length fun _ _ => rfl]
          omega
      | failed _ hn =>
          rw [turns_length fun _ _ => rfl, List.length_append, List.length_singleton]
          omega
  | rx =>
      cases hm with
      | done _ _ hn =>
          rw [turns_length fun _ _ => rfl]
          omega
      | failed _ hn =>
          rw [List.length_append, turns_length fun _ _ => rfl]
          simp only [List.length_cons, List.length_nil]
          omega

end

end PandOS
