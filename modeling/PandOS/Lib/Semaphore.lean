import Mathlib.Data.Int.Notation
import Mathlib.Data.List.Nodup

/-!
# Library — counting semaphores with a queue of waiters

`Sem ι` is a counter and the queue of the processes blocked on it.  `P` takes one from the
counter and queues the caller when the result is negative; `V` adds one and releases the head of
the queue when the result is not positive; `drop` takes a waiter out of the queue and gives its
token back, as when a waiter is killed.

`Mutex S inside` is the law of a semaphore started at 1: `inside i` says that `i` is between its
`P` and its `V`, blocked or not.  Either nobody is inside and the counter is 1, or exactly one
process inside is not queued, the holder, and the counter is minus the number of waiters.

`Ledger value waiting given taken` is the counting law of any semaphore: of the tokens given, the
initial ones included, those not yet taken are the value, and who waits is counted below 0.
-/

namespace PandOS

variable {ι : Type*}

/-- A counter and the processes blocked on it, the first to be released first. -/
structure Sem (ι : Type*) where
  value : ℤ
  queue : List ι
  deriving DecidableEq

namespace Sem

/-- `P` by `i`. -/
def P (S : Sem ι) (i : ι) : Sem ι where
  value := S.value - 1
  queue := if S.value - 1 < 0 then S.queue ++ [i] else S.queue

/-- `V`: the head of the queue, if any, is released. -/
def V (S : Sem ι) : Sem ι where
  value := S.value + 1
  queue := if S.value + 1 ≤ 0 then S.queue.tail else S.queue

theorem nodup_P {S : Sem ι} {i : ι} (h : S.queue.Nodup) (hi : i ∉ S.queue) :
    (S.P i).queue.Nodup := by
  unfold P
  split
  · exact h.append (List.nodup_singleton i) (by simpa using hi)
  · exact h

theorem nodup_V {S : Sem ι} (h : S.queue.Nodup) : S.V.queue.Nodup := by
  unfold V
  split
  · exact h.sublist (List.tail_sublist _)
  · exact h

variable [DecidableEq ι]

/-- The waiter `i` leaves the queue and its token is given back. -/
def drop (S : Sem ι) (i : ι) : Sem ι :=
  if i ∈ S.queue then ⟨S.value + 1, S.queue.erase i⟩ else S

@[simp] theorem drop_of_not_mem {S : Sem ι} {i : ι} (h : i ∉ S.queue) : S.drop i = S := by
  simp [drop, h]

theorem foldl_drop_of_not_mem {S : Sem ι} {l : List ι} (h : ∀ i ∈ l, i ∉ S.queue) :
    l.foldl drop S = S := by
  induction l with
  | nil => rfl
  | cons i l ih =>
      rw [List.foldl_cons, drop_of_not_mem (h i (by simp))]
      exact ih fun j hj => h j (by simp [hj])

theorem nodup_drop {S : Sem ι} (h : S.queue.Nodup) (i : ι) : (S.drop i).queue.Nodup := by
  unfold drop
  split
  · exact h.sublist (List.erase_sublist ..)
  · exact h

theorem mem_drop {S : Sem ι} (h : S.queue.Nodup) {i j : ι} :
    j ∈ (S.drop i).queue ↔ j ≠ i ∧ j ∈ S.queue := by
  unfold drop
  split
  case isTrue => exact h.mem_erase_iff
  case isFalse hi => exact ⟨fun hj => ⟨fun e => hi (e ▸ hj), hj⟩, And.right⟩

/-- Those who are killed leave the queue, and nobody else does. -/
theorem foldl_drop {S : Sem ι} (h : S.queue.Nodup) (l : List ι) :
    (l.foldl drop S).queue.Nodup ∧
      ∀ j, j ∈ (l.foldl drop S).queue ↔ j ∉ l ∧ j ∈ S.queue := by
  induction l generalizing S with
  | nil => exact ⟨h, fun j => by simp⟩
  | cons i l ih =>
      obtain ⟨h₁, h₂⟩ := ih (nodup_drop h i)
      refine ⟨h₁, fun j => ?_⟩
      rw [List.foldl_cons, h₂, mem_drop h, List.mem_cons, not_or]
      tauto

/-- Waiters that are killed leave with their tokens. -/
theorem foldl_drop_eq {S : Sem ι} (h : S.queue.Nodup) {l : List ι} (hl : l.Nodup)
    (hsub : ∀ i ∈ l, i ∈ S.queue) :
    l.foldl drop S = ⟨S.value + l.length, S.queue.filter fun j => j ∉ l⟩ := by
  induction l generalizing S with
  | nil => simp
  | cons i l ih =>
      obtain ⟨hi, hl⟩ := List.nodup_cons.mp hl
      have hdrop : S.drop i = ⟨S.value + 1, S.queue.erase i⟩ := if_pos (hsub i (by simp))
      have hrest := ih (S := S.drop i) (nodup_drop h i) hl fun j hj =>
        (mem_drop h).mpr ⟨fun he => hi (he ▸ hj), hsub j (by simp [hj])⟩
      rw [List.foldl_cons, hrest, hdrop, List.length_cons, h.erase_eq_filter, List.filter_filter]
      congr 1
      · push_cast
        omega
      · refine List.filter_congr fun j _ => ?_
        by_cases hj : j = i <;> simp [hj]

end Sem

/-- A call on a semaphore, or the death of one who waits for it. -/
inductive SemCall (ι : Type*) where
  | P (i : ι)
  | V
  | drop (i : ι)
  deriving DecidableEq

/-- What a call does. -/
def Sem.call [DecidableEq ι] (S : Sem ι) : SemCall ι → Sem ι
  | .P i => S.P i
  | .V => S.V
  | .drop i => S.drop i

theorem Sem.foldl_call_drop [DecidableEq ι] (S : Sem ι) (l : List ι) :
    (l.map SemCall.drop).foldl Sem.call S = l.foldl Sem.drop S := by
  rw [List.foldl_map]
  rfl

/-- The law of a semaphore started at 1; `inside i` says that `i` has begun a `P` and not yet
done the `V`. -/
structure Mutex (S : Sem ι) (inside : ι → Prop) : Prop where
  nodup : S.queue.Nodup
  sub : ∀ i ∈ S.queue, inside i
  holder : (S.value = 1 ∧ S.queue = [] ∧ ∀ i, ¬ inside i) ∨
    (S.value = -(S.queue.length : ℤ) ∧
      ∃ o, inside o ∧ o ∉ S.queue ∧ ∀ i, inside i → i = o ∨ i ∈ S.queue)

namespace Mutex

variable {S : Sem ι} {I J : ι → Prop} {i j : ι}

theorem free (h : ∀ i, ¬ I i) : Mutex (⟨1, []⟩ : Sem ι) I :=
  ⟨.nil, by simp, .inl ⟨rfl, rfl, h⟩⟩

theorem congr (h : Mutex S I) (hIJ : ∀ i, I i ↔ J i) : Mutex S J := by
  obtain rfl : I = J := funext fun i => propext (hIJ i)
  exact h

/-- The order in the queue plays no part. -/
theorem perm {S' : Sem ι} (h : Mutex S I) (hv : S'.value = S.value)
    (hq : S'.queue.Perm S.queue) : Mutex S' I where
  nodup := hq.nodup_iff.mpr h.nodup
  sub i hi := h.sub i (hq.mem_iff.mp hi)
  holder := by
    rw [hv, hq.length_eq]
    refine h.holder.imp (fun ⟨h1, hnil, hno⟩ => ⟨h1, ?_, hno⟩) fun ⟨hn, o, ho, hoq, hin⟩ => ?_
    · rw [hnil] at hq
      exact hq.eq_nil
    · exact ⟨hn, o, ho, fun hm => hoq (hq.mem_iff.mp hm),
        fun i hi => (hin i hi).imp_right hq.mem_iff.mpr⟩

/-- **Mutual exclusion**: two processes inside and not queued are one. -/
theorem unique (h : Mutex S I) (hi : I i) (hi' : i ∉ S.queue) (hj : I j) (hj' : j ∉ S.queue) :
    i = j := by
  rcases h.holder with ⟨-, -, hno⟩ | ⟨-, o, -, -, ho⟩
  · exact absurd hi (hno i)
  · exact ((ho i hi).resolve_right hi').trans ((ho j hj).resolve_right hj').symm

/-- A semaphore that is not positive has a holder. -/
theorem exists_holder (h : Mutex S I) (hv : S.value ≤ 0) : ∃ o, I o ∧ o ∉ S.queue := by
  rcases h.holder with ⟨h1, -, -⟩ | ⟨-, o, ho, hq, -⟩
  · omega
  · exact ⟨o, ho, hq⟩

/-- `P` by a process that is outside. -/
theorem P (h : Mutex S I) (hi : ¬ I i) : Mutex (S.P i) (fun j => I j ∨ j = i) := by
  have hiq : i ∉ S.queue := fun hq => hi (h.sub i hq)
  rcases h.holder with ⟨hv, hq, hno⟩ | ⟨hv, o, ho, hoq, hin⟩
  · have hS : S.P i = ⟨0, []⟩ := by simp [Sem.P, hv, hq]
    rw [hS]
    exact ⟨.nil, by simp, .inr ⟨rfl, i, .inr rfl, by simp, fun j hj => .inl (hj.resolve_left (hno j))⟩⟩
  · have hlt : S.value - 1 < 0 := by omega
    have hS : S.P i = ⟨S.value - 1, S.queue ++ [i]⟩ := by simp [Sem.P, hlt]
    have hoi : o ≠ i := fun e => hi (e ▸ ho)
    rw [hS]
    refine ⟨?_, ?_, .inr ⟨?_, o, .inl ho, by simp [hoq, hoi], ?_⟩⟩
    · exact h.nodup.append (List.nodup_singleton i) (by simpa using hiq)
    · intro j hj
      rcases List.mem_append.mp hj with hj | hj
      · exact .inl (h.sub j hj)
      · exact .inr (by simpa using hj)
    · simp; omega
    · rintro j (hj | rfl)
      · exact (hin j hj).imp_right (List.mem_append_left _)
      · exact .inr (by simp)

/-- `V` by the holder. -/
theorem V (h : Mutex S I) (hi : I i) (hiq : i ∉ S.queue) : Mutex S.V (fun j => I j ∧ j ≠ i) := by
  rcases h.holder with ⟨-, -, hno⟩ | ⟨hv, o, ho, hoq, hin⟩
  · exact absurd hi (hno i)
  obtain rfl : i = o := (hin i hi).resolve_right hiq
  cases hq : S.queue with
  | nil =>
      have hS : S.V = ⟨1, []⟩ := by simp [Sem.V, hv, hq]
      rw [hS]
      refine free fun j hj => hj.2 ((hin j hj.1).resolve_right (by simp [hq]))
  | cons q l =>
      have hle : S.value + 1 ≤ 0 := by
        rw [hv, hq, List.length_cons]
        omega
      have hS : S.V = ⟨-(l.length : ℤ), l⟩ := by
        rw [Sem.V, if_pos hle, hv, hq, List.length_cons, List.tail_cons]
        congr 1
        omega
      have hnd := h.nodup
      rw [hq] at hnd
      obtain ⟨hql, hl⟩ := List.nodup_cons.mp hnd
      have ne : ∀ j ∈ S.queue, j ≠ i := fun j hj e => hiq (e ▸ hj)
      rw [hS]
      refine ⟨hl, fun j hj => ?_, .inr ⟨rfl, q, ?_, hql, ?_⟩⟩
      · have : j ∈ S.queue := by simp [hq, show j ∈ l from hj]
        exact ⟨h.sub j this, ne j this⟩
      · have : q ∈ S.queue := by simp [hq]
        exact ⟨h.sub q this, ne q this⟩
      · rintro j ⟨hj, hji⟩
        have := (hin j hj).resolve_left hji
        simpa [hq] using this

/-- A waiter is killed. -/
theorem drop [DecidableEq ι] (h : Mutex S I) (hi : i ∈ S.queue) :
    Mutex (S.drop i) (fun j => I j ∧ j ≠ i) := by
  rcases h.holder with ⟨-, hq, -⟩ | ⟨hv, o, ho, hoq, hin⟩
  · rw [hq] at hi
    cases hi
  · have hS : S.drop i = ⟨S.value + 1, S.queue.erase i⟩ := if_pos hi
    have hoi : o ≠ i := fun e => hoq (e ▸ hi)
    have hlen := List.length_erase_of_mem hi
    have hpos := List.length_pos_of_mem hi
    have hmem : ∀ j, j ∈ S.queue.erase i ↔ j ≠ i ∧ j ∈ S.queue := fun j => h.nodup.mem_erase_iff
    rw [hS]
    refine ⟨h.nodup.sublist List.erase_sublist, fun j hj => ?_, .inr ⟨?_, o, ⟨ho, hoi⟩, ?_, ?_⟩⟩
    · obtain ⟨hne, hj⟩ := (hmem j).mp hj
      exact ⟨h.sub j hj, hne⟩
    · show S.value + 1 = -((S.queue.erase i).length : ℤ)
      omega
    · exact fun hj => hoq ((hmem o).mp hj).2
    · rintro j ⟨hj, hji⟩
      exact (hin j hj).imp_right fun hjq => (hmem j).mpr ⟨hji, hjq⟩

/-- Some of those who wait are killed. -/
theorem drops [DecidableEq ι] (h : Mutex S I) {l : List ι} (hl : l.Nodup)
    (hsub : ∀ i ∈ l, i ∈ S.queue) : Mutex (l.foldl Sem.drop S) (fun j => I j ∧ j ∉ l) := by
  induction l generalizing S I with
  | nil => exact h.congr fun j => by simp
  | cons i l ih =>
      obtain ⟨hi, hl⟩ := List.nodup_cons.mp hl
      have hrest := ih (h.drop (hsub i (by simp))) hl fun j hj =>
        (Sem.mem_drop h.nodup).mpr ⟨fun he => hi (he ▸ hj), hsub j (by simp [hj])⟩
      exact hrest.congr fun j => by simp only [List.mem_cons, not_or, and_assoc]

/-- Some are killed, and those of them who wait are outside then. -/
theorem kill [DecidableEq ι] (h : Mutex S I) {l : List ι} (hl : l.Nodup) :
    Mutex (l.foldl Sem.drop S) (fun j => I j ∧ ¬ (j ∈ l ∧ j ∈ S.queue)) := by
  induction l generalizing S I with
  | nil => exact h.congr fun j => by simp
  | cons i l ih =>
      obtain ⟨hi, hl⟩ := List.nodup_cons.mp hl
      rw [List.foldl_cons]
      by_cases hq : i ∈ S.queue
      · refine (ih (h.drop hq) hl).congr fun j => ?_
        rw [Sem.mem_drop h.nodup, List.mem_cons]
        constructor
        · rintro ⟨⟨hj, hne⟩, hno⟩
          exact ⟨hj, fun hx => hno ⟨hx.1.resolve_left hne, hne, hx.2⟩⟩
        · rintro ⟨hj, hno⟩
          exact ⟨⟨hj, fun he => hno ⟨.inl he, he ▸ hq⟩⟩, fun hx => hno ⟨.inr hx.1, hx.2.2⟩⟩
      · rw [Sem.drop_of_not_mem hq]
        refine (ih h hl).congr fun j => and_congr_right fun _ => not_congr ?_
        rw [List.mem_cons]
        exact ⟨fun hx => ⟨.inr hx.1, hx.2⟩,
          fun hx => ⟨hx.1.resolve_left fun he => hq (he ▸ hx.2), hx.2⟩⟩

end Mutex

/-- The counting law: the tokens that are given and not taken are the value of the semaphore, and
somebody waits only when it is negative. -/
structure Ledger (value : ℤ) (waiting given taken : ℕ) : Prop where
  waiters : (waiting : ℤ) = max 0 (-value)
  balance : (taken : ℤ) + max 0 value = given

namespace Ledger

variable {v : ℤ} {n g k m : ℕ}

theorem start (k : ℕ) : Ledger k 0 k 0 := ⟨by omega, by omega⟩

/-- A token is there and is taken. -/
theorem take (h : Ledger v n g k) (hv : 0 ≤ v - 1) : Ledger (v - 1) n g (k + 1) :=
  ⟨by have := h.waiters; omega, by have := h.balance; push_cast; omega⟩

/-- No token is there: one more waits. -/
theorem wait (h : Ledger v n g k) (hv : v - 1 < 0) : Ledger (v - 1) (n + 1) g k :=
  ⟨by have := h.waiters; push_cast; omega, by have := h.balance; omega⟩

/-- A token is given, and taken by one who waits. -/
theorem hand (h : Ledger v (n + 1) g k) : Ledger (v + 1) n (g + 1) (k + 1) := by
  have h₁ := h.waiters
  have h₂ := h.balance
  exact ⟨by push_cast at h₁; omega, by push_cast at h₁ ⊢; omega⟩

/-- A token is given and nobody waits. -/
theorem give (h : Ledger v 0 g k) : Ledger (v + 1) 0 (g + 1) k := by
  have h₁ := h.waiters
  have h₂ := h.balance
  exact ⟨by push_cast at h₁; omega, by push_cast at h₁ ⊢; omega⟩

/-- Some who wait give up, each with a token. -/
theorem drop (h : Ledger v n g k) (hm : m ≤ n) : Ledger (v + m) (n - m) g k := by
  have h₁ := h.waiters
  have h₂ := h.balance
  exact ⟨by omega, by omega⟩

/-- No more tokens are taken than given. -/
theorem taken_le (h : Ledger v n g k) : k ≤ g := by
  have := h.balance
  omega

end Ledger

end PandOS
