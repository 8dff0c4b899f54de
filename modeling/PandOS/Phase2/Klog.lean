import Mathlib.Data.List.Induction
import Mathlib.Data.Nat.Digits.Lemmas
import PandOS.Headers.Const
import PandOS.Lib.Sheet
import PandOS.Lib.Run

/-!
# Phase 2 — klog.c

The circular log of the nucleus.  Its two indices are global, so a store through them is guarded
here by the bounds of `klog_buffer`: `Klog.store` is `none` outside.  `char` is `UInt8`.

`Klog.shows_of_run`: whatever is printed, no store is out of bounds, and the buffer shows the last
64 lines of the text, broken at newlines and after 42 characters.  `Klog.number_of_log`: wherever
it is printed, what `klog_print_hex` prints determines the number; `klog_print_dec` prints 5 and 50
alike, as "05".
-/

namespace PandOS

/-- `KLOG_LINES`. -/
def klogLines : ℕ := 64
/-- `KLOG_LINE_SIZE`. -/
def klogLineSize : ℕ := 42

/-- `'\n'`. -/
def lineFeed : UInt8 := 10
/-- `' '`. -/
def space : UInt8 := 32

/-- `"0123456789"`. -/
def decDigits : List UInt8 := [48, 49, 50, 51, 52, 53, 54, 55, 56, 57]
/-- `"0123456789ABCDEF"`. -/
def hexDigits : List UInt8 := decDigits ++ [65, 66, 67, 68, 69, 70]

/-- The globals of klog.c. -/
structure Klog where
  klog_line_index : ℕ
  klog_char_index : ℕ
  klog_buffer : ℕ → ℕ → UInt8

/-- A call of klog.c; a string is the bytes from its address on. -/
inductive KlogCall where
  | print (str : List UInt8)
  | dec (num : Word)
  | hex (num : Word)

namespace Klog

/-! ### The functions -/

/-- The globals before the first call: all zero. -/
def init : Klog := ⟨0, 0, fun _ _ => 0⟩

/-- `klog_buffer[klog_line_index][klog_char_index] = c`. -/
def store (k : Klog) (c : UInt8) : Option Klog :=
  if k.klog_line_index < klogLines ∧ k.klog_char_index < klogLineSize then
    some { k with
      klog_buffer := Function.update k.klog_buffer k.klog_line_index
        (Function.update (k.klog_buffer k.klog_line_index) k.klog_char_index c) }
  else none

/-- The loop of `next_line` over a line. -/
def clear (row : ℕ → UInt8) : ℕ → UInt8 :=
  (List.range klogLineSize).foldl (fun row i => Function.update row i space) row

/-- `next_line`: the next line, cleared; after the last one, the first. -/
def next_line (k : Klog) : Klog where
  klog_line_index := (k.klog_line_index + 1) % klogLines
  klog_char_index := 0
  klog_buffer :=
    let line := (k.klog_line_index + 1) % klogLines
    Function.update k.klog_buffer line (clear (k.klog_buffer line))

/-- `next_char`: the next character of the line; after the last one, the next line. -/
def next_char (k : Klog) : Klog :=
  if k.klog_char_index + 1 ≥ klogLineSize then next_line { k with klog_char_index := 0 }
  else { k with klog_char_index := k.klog_char_index + 1 }

/-- A store, then `next_char()`. -/
def put (k : Klog) (c : UInt8) : Option Klog := (k.store c).map next_char

/-- Past the end of the array that holds `str` it is undefined. -/
def klog_print : List UInt8 → Klog → Option Klog
  | [], _ => none
  | c :: str, k =>
      if c = 0 then some k
      else if c = lineFeed then klog_print str k.next_line
      else (k.put c).bind (klog_print str)

/-- `digits[d]`, then `next_char()`. -/
def putDigit (digits : List UInt8) (k : Klog) (d : ℕ) : Option Klog := digits[d]?.bind k.put

/-- The loop over the digits of `num`, the last one first. -/
def digitLoop (digits : List UInt8) : ℕ → ℕ → Klog → Option Klog
  | 0, _, _ => none
  | fuel + 1, num, k =>
      (k.putDigit digits (num % digits.length)).bind fun k =>
        if num / digits.length > 0 then digitLoop digits fuel (num / digits.length) k else some k

/-- An `unsigned int` has no more than 32 digits. -/
def klog_print_hex (num : Word) (k : Klog) : Option Klog := digitLoop hexDigits 32 num.toNat k

/-- `klog_print_dec`: below 10, a 0 and the digit; from 10 on, the loop. -/
def klog_print_dec (num : Word) (k : Klog) : Option Klog :=
  if num.toNat ≥ 10 then digitLoop decDigits 32 num.toNat k
  else (k.putDigit decDigits (num.toNat / 10 % 10)).bind fun k =>
    k.putDigit decDigits (num.toNat % 10)

/-- One call. -/
def call (k : Klog) : KlogCall → Option Klog
  | .print str => k.klog_print str
  | .dec num => k.klog_print_dec num
  | .hex num => k.klog_print_hex num

end Klog

/-! ### What is printed -/

/-- The digits of a number, the last one first. -/
def digitText (digits : List UInt8) (num : ℕ) : List UInt8 :=
  (if num = 0 then [0] else Nat.digits digits.length num).map (digits.getD · 0)

/-- The text of a call. -/
def KlogCall.text : KlogCall → List UInt8
  | .print str => str.takeWhile (· ≠ 0)
  | .hex num => digitText hexDigits num.toNat
  | .dec num =>
      if num.toNat ≥ 10 then digitText decDigits num.toNat
      else [decDigits.getD 0 0, decDigits.getD num.toNat 0]

/-- A string has an end. -/
def KlogCall.Terminated : KlogCall → Prop
  | .print str => 0 ∈ str
  | _ => True

namespace Klog

/-- A line of the buffer. -/
abbrev Row := Fin klogLineSize → UInt8

/-- Line `r` of the buffer. -/
def row (k : Klog) (r : ℕ) : Row := fun j => k.klog_buffer r j

/-- A line of a text, filled up. -/
def padded (b : UInt8) (l : List UInt8) : Row := fun j => l.getD j b

/-- What is behind the text of line `i`: the first line of all was never cleared. -/
def padding (i : ℕ) : UInt8 := if i = 0 then 0 else space

/-- The lines of a text as the buffer holds them. -/
def rows (ls : List (List UInt8)) : List Row := ls.mapIdx fun i l => padded (padding i) l

/-- The buffer shows the last lines of `p`, and the indices are at its end. -/
structure Shows (k : Klog) (p : Sheet UInt8) : Prop where
  line_index : k.klog_line_index = p.closed.length % klogLines
  char_index : k.klog_char_index = p.line.length
  fits : p.Fits klogLineSize
  window : Window klogLines k.row (rows p.lines)

variable {k k' : Klog} {p : Sheet UInt8} {c : UInt8}

/-! ### One character -/

theorem length_rows (ls : List (List UInt8)) : (rows ls).length = ls.length := by simp [rows]

theorem getElem_rows {ls : List (List UInt8)} {i : ℕ} (hi : i < ls.length)
    (h : i < (rows ls).length) : (rows ls)[i] = padded (padding i) ls[i] :=
  List.getElem_mapIdx

theorem rows_concat (ls : List (List UInt8)) (l : List UInt8) :
    rows (ls ++ [l]) = rows ls ++ [padded (padding ls.length) l] := by
  simp [rows]

theorem foldl_update (is : List ℕ) (row : ℕ → UInt8) (j : ℕ) :
    is.foldl (fun row i => Function.update row i space) row j =
      if j ∈ is then space else row j := by
  induction is generalizing row with
  | nil => simp
  | cons i is ih =>
      rw [List.foldl_cons, ih]
      by_cases hj : j = i <;> simp [hj]

theorem clear_of_lt (row : ℕ → UInt8) (j : Fin klogLineSize) : clear row j = space := by
  rw [clear, foldl_update, if_pos (List.mem_range.mpr j.isLt)]

/-- A cleared line holds the empty text. -/
theorem row_next_line (k : Klog) : k.next_line.row =
    Function.update k.row ((k.klog_line_index + 1) % klogLines) (padded space []) := by
  funext r j
  by_cases hr : r = (k.klog_line_index + 1) % klogLines
  · subst hr
    simp [row, next_line, clear_of_lt, padded]
  · simp [row, next_line, Function.update_of_ne hr]

theorem padding_concat (ls : List (List UInt8)) (l : List UInt8) :
    padding (ls ++ [l]).length = space := by
  simp [padding]

/-- The line ends wherever it is, and the next one is opened. -/
theorem next_line_shows {cs : List (List UInt8)} {l : List UInt8}
    (hi : k.klog_line_index = cs.length % klogLines) (hw : Window klogLines k.row (rows (cs ++ [l])))
    (hf : (Sheet.next ⟨cs, l⟩).Fits klogLineSize) : k.next_line.Shows (Sheet.next ⟨cs, l⟩) where
  line_index := by
    rw [next_line, hi, Nat.mod_add_mod]
    simp [Sheet.next]
  char_index := rfl
  fits := hf
  window := by
    have hp := hw.push (padded space [])
    rw [length_rows, List.length_append, List.length_singleton, ← Nat.mod_add_mod, ← hi] at hp
    rw [Sheet.lines, Sheet.next, rows_concat, padding_concat, row_next_line]
    exact hp

/-- One character more behind the text of a line. -/
theorem padded_concat (b : UInt8) (l : List UInt8) (c : UInt8) (j : Fin klogLineSize) :
    padded b (l ++ [c]) j = if (j : ℕ) = l.length then c else padded b l j := by
  simp only [padded, List.getD_eq_getElem?_getD]
  rcases Nat.lt_trichotomy j l.length with h | h | h
  · rw [if_neg h.ne, List.getElem?_append_left h]
  · rw [if_pos h, h, List.getElem?_concat_length]
    rfl
  · rw [if_neg h.ne', List.getElem?_eq_none h.le, List.getElem?_eq_none (by rwa [List.length_append])]

/-- A store puts its character behind the text of the line. -/
theorem window_store {cs : List (List UInt8)} {l : List UInt8} (hs : k.store c = some k')
    (hi : k.klog_line_index = cs.length % klogLines) (hc : k.klog_char_index = l.length)
    (hw : Window klogLines k.row (rows (cs ++ [l]))) :
    Window klogLines k'.row (rows (cs ++ [l ++ [c]])) := by
  unfold store at hs
  split_ifs at hs
  obtain rfl := Option.some.inj hs
  rw [rows_concat] at hw ⊢
  have hlast : k.row k.klog_line_index = padded (padding cs.length) l := by
    have hat := hw (rows cs).length (by simp) (by simp [klogLines])
    rw [List.getElem_concat_length rfl, length_rows] at hat
    rw [hi, hat]
  have hset := hw.setLast (padded (padding cs.length) (l ++ [c]))
  rw [length_rows, ← hi] at hset
  convert hset using 1
  funext r j
  by_cases hr : r = k.klog_line_index
  · subst hr
    rw [Function.update_self, padded_concat, ← hlast]
    by_cases hj : (j : ℕ) = l.length <;> simp [row, hc, hj]
  · simp [row, Function.update_of_ne hr]

theorem store_indices (hs : k.store c = some k') :
    k'.klog_line_index = k.klog_line_index ∧ k'.klog_char_index = k.klog_char_index := by
  unfold store at hs
  split_ifs at hs
  obtain rfl := Option.some.inj hs
  exact ⟨rfl, rfl⟩

namespace Shows

/-- In a log that shows a text there is room for one character more. -/
theorem store (h : k.Shows p) (c : UInt8) : ∃ k', k.store c = some k' := by
  refine ⟨_, if_pos ⟨?_, ?_⟩⟩
  · rw [h.line_index]
    exact Nat.mod_lt _ (by simp [klogLines])
  · rw [h.char_index]
    exact h.fits.line

theorem nextLine (h : k.Shows p) : k.next_line.Shows (p.put klogLineSize lineFeed lineFeed) := by
  have hf : (p.put klogLineSize lineFeed lineFeed).Fits klogLineSize := h.fits.put _
  rw [Sheet.put, if_pos rfl] at hf ⊢
  exact next_line_shows h.line_index h.window hf

/-- A character that is no newline: the store is in bounds, and the line ends when it is full. -/
theorem put (h : k.Shows p) (hc : c ≠ lineFeed) :
    ∃ k', k.put c = some k' ∧ k'.Shows (p.put klogLineSize lineFeed c) := by
  obtain ⟨m, hm⟩ := h.store c
  obtain ⟨hline, hchar⟩ := store_indices hm
  have hw := window_store hm h.line_index h.char_index h.window
  have hf : (p.put klogLineSize lineFeed c).Fits klogLineSize := h.fits.put _
  refine ⟨m.next_char, by rw [Klog.put, hm]; rfl, ?_⟩
  rw [Sheet.put, if_neg hc] at hf ⊢
  rw [next_char, hchar, h.char_index]
  by_cases hlt : p.line.length + 1 < klogLineSize
  · rw [if_pos hlt] at hf ⊢
    rw [if_neg (Nat.not_le.mpr hlt)]
    exact ⟨hline.trans h.line_index, by simp, hf, hw⟩
  · rw [if_neg hlt] at hf ⊢
    rw [if_pos (Nat.not_lt.mp hlt)]
    exact next_line_shows (hline.trans h.line_index) hw hf

end Shows

/-! ### Texts -/

/-- Characters one after the other. -/
def puts (k : Klog) (cs : List UInt8) : Option Klog := cs.foldlM put k

theorem Shows.puts {cs : List UInt8} (h : k.Shows p) (hcs : lineFeed ∉ cs) :
    ∃ k', k.puts cs = some k' ∧ k'.Shows (p.write klogLineSize lineFeed cs) := by
  induction cs generalizing k p with
  | nil => exact ⟨k, rfl, h⟩
  | cons c cs ih =>
      rw [List.mem_cons, not_or] at hcs
      obtain ⟨hc, hcs⟩ := hcs
      obtain ⟨m, hm, hshow⟩ := h.put (Ne.symm hc)
      obtain ⟨k', hk', h'⟩ := ih hshow hcs
      refine ⟨k', ?_, h'⟩
      rw [Klog.puts, List.foldlM_cons, hm]
      exact hk'

/-- `klog_print` prints its string up to the end. -/
theorem Shows.print {str : List UInt8} (h : k.Shows p) (hstr : 0 ∈ str) :
    ∃ k', k.klog_print str = some k' ∧
      k'.Shows (p.write klogLineSize lineFeed (str.takeWhile (· ≠ 0))) := by
  induction str generalizing k p with
  | nil => exact absurd hstr List.not_mem_nil
  | cons c str ih =>
      rw [klog_print]
      by_cases h0 : c = 0
      · exact ⟨k, by rw [if_pos h0], by simpa [h0, Sheet.write] using h⟩
      · have hrest : 0 ∈ str := (List.mem_cons.mp hstr).resolve_left (Ne.symm h0)
        rw [if_neg h0, List.takeWhile_cons_of_pos (by simpa using h0), Sheet.write_cons]
        by_cases hn : c = lineFeed
        · rw [if_pos hn, hn]
          exact ih h.nextLine hrest
        · obtain ⟨m, hm, hshow⟩ := h.put hn
          rw [if_neg hn, hm]
          exact ih hshow hrest

/-- The last digit, then the rest of the number. -/
theorem digitText_eq {digits : List UInt8} (hb : 1 < digits.length) (num : ℕ) :
    digitText digits num = digits.getD (num % digits.length) 0 ::
      if num / digits.length > 0 then digitText digits (num / digits.length) else [] := by
  by_cases hn : num = 0
  · simp [digitText, hn]
  · rw [digitText, if_neg hn, Nat.digits_def' hb (Nat.pos_of_ne_zero hn), List.map_cons]
    by_cases hq : num / digits.length > 0
    · rw [if_pos hq, digitText, if_neg hq.ne']
    · rw [if_neg hq, Nat.eq_zero_of_not_pos hq]
      simp

theorem putDigit_eq {digits : List UInt8} {d : ℕ} (hd : d < digits.length) (k : Klog) :
    k.putDigit digits d = k.put (digits.getD d 0) := by
  simp [putDigit, hd]

/-- The loop over the digits prints them all: `fuel + 1` rounds are enough for `fuel + 1`
digits. -/
theorem digitLoop_eq {digits : List UInt8} (hb : 1 < digits.length) {fuel num : ℕ}
    (hlt : num < digits.length ^ (fuel + 1)) (k : Klog) :
    digitLoop digits (fuel + 1) num k = k.puts (digitText digits num) := by
  have hmod : ∀ d, d % digits.length < digits.length := fun d => Nat.mod_lt _ (by omega)
  induction fuel generalizing num k with
  | zero =>
      have hq : ¬ num / digits.length > 0 := by
        rw [Nat.div_eq_of_lt (by simpa using hlt)]
        exact Nat.lt_irrefl 0
      rw [digitLoop, digitText_eq hb, putDigit_eq (hmod num)]
      simp [hq, puts]
  | succ fuel ih =>
      have hq : num / digits.length < digits.length ^ (fuel + 1) :=
        Nat.div_lt_of_lt_mul (by rwa [pow_succ'] at hlt)
      rw [digitLoop, digitText_eq hb, putDigit_eq (hmod num), puts, List.foldlM_cons]
      congr 1
      funext m
      by_cases hpos : num / digits.length > 0
      · rw [if_pos hpos, if_pos hpos]
        exact ih hq m
      · rw [if_neg hpos, if_neg hpos]
        rfl

theorem klog_print_hex_eq (num : Word) (k : Klog) :
    k.klog_print_hex num = k.puts (KlogCall.text (.hex num)) :=
  digitLoop_eq (by decide) (num.isLt.trans (by decide)) k

/-- `klog_print_dec` prints the text of its call. -/
theorem klog_print_dec_eq (num : Word) (k : Klog) :
    k.klog_print_dec num = k.puts (KlogCall.text (.dec num)) := by
  rw [klog_print_dec, KlogCall.text]
  by_cases hn : num.toNat ≥ 10
  · rw [if_pos hn, if_pos hn]
    exact digitLoop_eq (by decide) (num.isLt.trans (by decide)) k
  · have hlt : num.toNat < 10 := Nat.not_le.mp hn
    rw [if_neg hn, if_neg hn, Nat.div_eq_of_lt hlt, Nat.mod_eq_of_lt hlt, putDigit_eq (by decide)]
    rw [puts, List.foldlM_cons]
    congr 1
    funext m
    rw [putDigit_eq hlt, List.foldlM_cons]
    exact (bind_pure _).symm

theorem lineFeed_ne {digits : List UInt8} (h : lineFeed ∉ digits) (d : ℕ) :
    lineFeed ≠ digits.getD d 0 := by
  rw [List.getD_eq_getElem?_getD]
  rcases Nat.lt_or_ge d digits.length with hd | hd
  · rw [List.getElem?_eq_getElem hd]
    exact fun he => h (he ▸ List.getElem_mem hd)
  · rw [List.getElem?_eq_none hd]
    decide

theorem lineFeed_digitText {digits : List UInt8} (h : lineFeed ∉ digits) (num : ℕ) :
    lineFeed ∉ digitText digits num := by
  intro hmem
  obtain ⟨d, _, hd⟩ := List.mem_map.mp hmem
  exact lineFeed_ne h d hd.symm

theorem lineFeed_text (num : Word) :
    lineFeed ∉ KlogCall.text (.hex num) ∧ lineFeed ∉ KlogCall.text (.dec num) := by
  refine ⟨lineFeed_digitText (by decide) _, ?_⟩
  rw [KlogCall.text]
  by_cases hn : num.toNat ≥ 10
  · rw [if_pos hn]
    exact lineFeed_digitText (by decide) _
  · rw [if_neg hn, List.mem_cons, List.mem_singleton, not_or]
    exact ⟨lineFeed_ne (by decide) 0, lineFeed_ne (by decide) _⟩

/-- **One call**: it ends, and the log shows its text behind the rest. -/
theorem Shows.call {c : KlogCall} (h : k.Shows p) (hc : c.Terminated) :
    ∃ k', k.call c = some k' ∧ k'.Shows (p.write klogLineSize lineFeed c.text) := by
  cases c with
  | print str => exact h.print hc
  | hex num =>
      rw [Klog.call, klog_print_hex_eq]
      exact h.puts (lineFeed_text num).1
  | dec num =>
      rw [Klog.call, klog_print_dec_eq]
      exact h.puts (lineFeed_text num).2

theorem Shows.init : init.Shows .blank where
  line_index := rfl
  char_index := rfl
  fits := .blank (by decide)
  window := by
    intro i hi _
    obtain rfl : i = 0 := by simpa [length_rows, Sheet.lines, Sheet.blank] using hi
    rfl

/-! ### Runs -/

/-- What `calls` print. -/
def printed (calls : List KlogCall) : Sheet UInt8 :=
  Sheet.blank.write klogLineSize lineFeed (calls.flatMap KlogCall.text)

/-- **The log shows the last 64 lines.**  Any calls with terminated strings run to their end
without a store out of the bounds of `klog_buffer`.  The lines are those of the text printed, each
no longer than 42 characters; the buffer holds the last 64 of them, line `i` in row `i % 64`,
filled up with blanks (the first of all with NULs), and the indices are at the end of the text. -/
theorem shows_of_run (calls : List KlogCall) (hc : ∀ c ∈ calls, c.Terminated) :
    ∃ k, Run call anyStep init calls k ∧
      k.klog_line_index = (printed calls).closed.length % klogLines ∧
      k.klog_char_index = (printed calls).line.length ∧
      (printed calls).Fits klogLineSize ∧
      (printed calls).lines.flatten = (calls.flatMap KlogCall.text).filter (· ≠ lineFeed) ∧
      ∀ i (hi : i < (printed calls).lines.length), (printed calls).lines.length ≤ i + klogLines →
        ∀ j < klogLineSize, k.klog_buffer (i % klogLines) j =
          ((printed calls).lines[i]).getD j (if i = 0 then 0 else space) := by
  have hrun : ∃ k, Run call anyStep init calls k ∧ k.Shows (printed calls) := by
    induction calls using List.reverseRecOn with
    | nil => exact ⟨init, .nil _, .init⟩
    | append_singleton calls c ih =>
        obtain ⟨k, hk, h⟩ := ih fun d hd => hc d (List.mem_append_left _ hd)
        obtain ⟨k', hk', h'⟩ := h.call (hc c (by simp))
        refine ⟨k', hk.snoc trivial hk', ?_⟩
        simpa [printed, Sheet.write_append] using h'
  obtain ⟨k, hk, h⟩ := hrun
  refine ⟨k, hk, h.line_index, h.char_index, h.fits, ?_, fun i hi hw j hj => ?_⟩
  · rw [printed, Sheet.flatten_write]
    rfl
  · have hrow := h.window i (by rwa [length_rows]) (by rwa [length_rows])
    rw [getElem_rows hi] at hrow
    exact congrFun hrow ⟨j, hj⟩

theorem shows_of_run_print : ∃ k, Run call anyStep init [.print [65, 10, 66, 0, 67], .dec 5] k ∧
    k.klog_line_index = 1 ∧ k.klog_char_index = 3 ∧ (∀ j < klogLineSize,
      k.klog_buffer 0 j = if j = 0 then 65 else 0) ∧ k.klog_buffer 1 2 = 53 := by
  obtain ⟨k, hr, hline, hchar, -, -, hrow⟩ := shows_of_run [.print [65, 10, 66, 0, 67], .dec 5]
    (by simp [KlogCall.Terminated])
  refine ⟨k, hr, hline, hchar, fun j hj => ?_, hrow 1 (by decide) (by decide) 2 (by decide)⟩
  refine (hrow 0 (by decide) (by decide) j hj).trans ?_
  cases j <;> rfl

/-! ### Numbers -/

/-- The number a string of digits stands for, the last digit first. -/
def value (digits cs : List UInt8) : ℕ := Nat.ofDigits digits.length (cs.map digits.idxOf)

theorem idxOf_getD {digits : List UInt8} (hd : digits.Nodup) {d : ℕ} (h : d < digits.length) :
    digits.idxOf (digits.getD d 0) = d := by
  rw [List.getD_eq_getElem?_getD, List.getElem?_eq_getElem h]
  exact hd.idxOf_getElem d h

/-- The digits read back are the number. -/
theorem value_digitText {digits : List UInt8} (hb : 1 < digits.length) (hd : digits.Nodup)
    (num : ℕ) : value digits (digitText digits num) = num := by
  by_cases hn : num = 0
  · rw [hn, value, digitText, if_pos rfl, List.map_singleton, List.map_singleton,
      idxOf_getD hd (Nat.zero_lt_of_lt hb)]
    simp
  · have hid : (Nat.digits digits.length num).map (fun d => digits.idxOf (digits.getD d 0)) =
        Nat.digits digits.length num := by
      refine (List.map_congr_left fun d h => ?_).trans (List.map_id _)
      exact idxOf_getD hd (Nat.digits_lt_base hb h)
    rw [value, digitText, if_neg hn, List.map_map]
    exact (congrArg _ hid).trans (Nat.ofDigits_digits ..)

theorem value_hex (num : Word) : value hexDigits (KlogCall.text (.hex num)) = num.toNat :=
  value_digitText (by decide) (by decide) _

/-- `klog_print_dec` puts the digit of a number below 10 behind a 0, where the tens are read. -/
theorem value_dec (num : Word) : value decDigits (KlogCall.text (.dec num)) =
    if num.toNat < 10 then 10 * num.toNat else num.toNat := by
  rw [KlogCall.text]
  by_cases hn : num.toNat < 10
  · have hd : decDigits.Nodup := by decide
    have h0 := idxOf_getD hd (d := 0) (by decide)
    have h1 := idxOf_getD hd (d := num.toNat) hn
    rw [if_neg (Nat.not_le.mpr hn), if_pos hn, value, List.map_cons, List.map_singleton, h0, h1]
    simp [Nat.ofDigits, decDigits]
  · rw [if_pos (Nat.not_lt.mp hn), if_neg hn]
    exact value_digitText (by decide) (by decide) _

theorem length_digitText {digits : List UInt8} (hb : 1 < digits.length) {n num : ℕ} (hn : 0 < n)
    (h : num < digits.length ^ n) : (digitText digits num).length ≤ n := by
  rw [digitText, List.length_map]
  split_ifs
  · exact hn
  · exact (Nat.digits_length_le_iff hb num).mpr h

/-! ### Reading back -/

/-- The indices are in the bounds of `klog_buffer`. -/
structure InBounds (k : Klog) : Prop where
  line : k.klog_line_index < klogLines
  char : k.klog_char_index < klogLineSize

/-- Where the next character goes, the lines one behind the other. -/
def cursor (k : Klog) : ℕ := k.klog_line_index * klogLineSize + k.klog_char_index

/-- The place `j + 1` characters before the place `i`, in the circle. -/
def behind (i j : ℕ) : ℕ := (i + klogLines * klogLineSize - 1 - j) % (klogLines * klogLineSize)

/-- The character `j + 1` places before the next one. -/
def before (k : Klog) (j : ℕ) : UInt8 :=
  k.klog_buffer (behind k.cursor j / klogLineSize) (behind k.cursor j % klogLineSize)

theorem init_inBounds : init.InBounds := ⟨by decide, by decide⟩

theorem InBounds.store (h : k.InBounds) (c : UInt8) : k.store c = some { k with
    klog_buffer := Function.update k.klog_buffer k.klog_line_index
      (Function.update (k.klog_buffer k.klog_line_index) k.klog_char_index c) } :=
  if_pos ⟨h.line, h.char⟩

/-- The cursor is at the row and the column of the indices. -/
theorem InBounds.cursor (h : k.InBounds) : k.cursor < klogLines * klogLineSize ∧
    k.cursor / klogLineSize = k.klog_line_index ∧ k.cursor % klogLineSize = k.klog_char_index := by
  obtain ⟨hline, hchar⟩ := h
  unfold Klog.cursor klogLines klogLineSize at *
  omega

section
variable {i j : ℕ}

theorem behind_zero (hi : i < klogLines * klogLineSize) :
    behind ((i + 1) % (klogLines * klogLineSize)) 0 = i := by
  unfold behind klogLines klogLineSize at *
  omega

theorem behind_succ (hi : i < klogLines * klogLineSize) (hj : j < klogLineSize) :
    behind ((i + 1) % (klogLines * klogLineSize)) (j + 1) = behind i j := by
  unfold behind klogLines klogLineSize at *
  omega

/-- A few characters before a place is another place, and not in the line after it. -/
theorem behind_ne (hi : i < klogLines * klogLineSize) (hj : j < klogLineSize) :
    behind i j ≠ i ∧ behind i j / klogLineSize ≠ (i / klogLineSize + 1) % klogLines := by
  unfold behind klogLines klogLineSize at *
  omega

end

/-- A character goes to the cursor; of the other lines the next one alone may be cleared. -/
theorem InBounds.put_cells (h : k.InBounds) (c : UInt8) : ∃ k', k.put c = some k' ∧ k'.InBounds ∧
    k'.cursor = (k.cursor + 1) % (klogLines * klogLineSize) ∧
    ∀ r, r ≠ (k.klog_line_index + 1) % klogLines → ∀ j, k'.klog_buffer r j =
      if r = k.klog_line_index ∧ j = k.klog_char_index then c else k.klog_buffer r j := by
  have hstore := h.store c
  obtain ⟨hline, hchar⟩ := h
  -- the stored character, as a cell
  have cell : ∀ r j, Function.update k.klog_buffer k.klog_line_index
      (Function.update (k.klog_buffer k.klog_line_index) k.klog_char_index c) r j =
      if r = k.klog_line_index ∧ j = k.klog_char_index then c else k.klog_buffer r j := by
    intro r j
    by_cases hr : r = k.klog_line_index
    · subst hr
      rw [Function.update_self, Function.update_apply]
      simp
    · rw [Function.update_of_ne hr, if_neg fun hx => hr hx.1]
  refine ⟨_, by rw [Klog.put, hstore]; rfl, ?_⟩
  unfold next_char
  dsimp only
  by_cases hend : k.klog_char_index + 1 ≥ klogLineSize
  · rw [if_pos hend]
    refine ⟨⟨Nat.mod_lt _ (by decide), (by decide : 0 < klogLineSize)⟩, ?_, fun r hr j => ?_⟩
    · show (k.klog_line_index + 1) % klogLines * klogLineSize + 0 = _
      unfold Klog.cursor klogLines klogLineSize at *
      omega
    · exact (congrFun (Function.update_of_ne hr ..) j).trans (cell r j)
  · rw [if_neg hend]
    refine ⟨⟨hline, Nat.not_le.mp hend⟩, ?_, fun r _ j => cell r j⟩
    show k.klog_line_index * klogLineSize + (k.klog_char_index + 1) = _
    unfold Klog.cursor klogLines klogLineSize at *
    omega

/-- **One character**: it is the one before the next, and those before it are still there. -/
theorem InBounds.put (h : k.InBounds) (c : UInt8) : ∃ k', k.put c = some k' ∧ k'.InBounds ∧
    k'.cursor = (k.cursor + 1) % (klogLines * klogLineSize) ∧ k'.before 0 = c ∧
    ∀ j < klogLineSize, k'.before (j + 1) = k.before j := by
  obtain ⟨k', hput, hk', hcur, hcell⟩ := h.put_cells c
  obtain ⟨hlt, hrow, hcol⟩ := h.cursor
  refine ⟨k', hput, hk', hcur, ?_, fun j hj => ?_⟩
  · have hne : k.klog_line_index ≠ (k.klog_line_index + 1) % klogLines := by
      have hline := h.line
      unfold klogLines at *
      omega
    rw [before, hcur, behind_zero hlt, hrow, hcol, hcell _ hne, if_pos ⟨rfl, rfl⟩]
  · obtain ⟨hplace, hline⟩ := behind_ne hlt hj
    rw [before, hcur, behind_succ hlt hj, before]
    rw [hrow] at hline
    rw [hcell _ hline, if_neg]
    rintro ⟨hr, hc⟩
    refine hplace ?_
    rw [← Nat.div_add_mod (behind k.cursor j) klogLineSize, hr, hc, ← hrow, ← hcol, Nat.div_add_mod]

/-- **A text is read back**, the last character first. -/
theorem InBounds.puts (h : k.InBounds) {cs : List UInt8} (hcs : cs.length ≤ klogLineSize) :
    ∃ k', k.puts cs = some k' ∧ k'.InBounds ∧
      k'.cursor = (k.cursor + cs.length) % (klogLines * klogLineSize) ∧
      ∀ j (hj : j < cs.reverse.length), k'.before j = cs.reverse[j] := by
  induction cs using List.reverseRecOn with
  | nil => exact ⟨k, rfl, h, (Nat.mod_eq_of_lt h.cursor.1).symm, nofun⟩
  | append_singleton cs c ih =>
      rw [List.length_append, List.length_singleton] at hcs
      obtain ⟨m, hm, hmb, hcur, hback⟩ := ih (by omega)
      obtain ⟨k', hk', hkb, hcur', hzero, hsucc⟩ := hmb.put c
      refine ⟨k', ?_, hkb, ?_, fun j hj => ?_⟩
      · rw [Klog.puts, List.foldlM_append]
        show (k.puts cs).bind _ = _
        rw [hm]
        show (m.put c).bind pure = _
        rw [hk']
        rfl
      · rw [hcur', hcur, List.length_append, List.length_singleton, Nat.mod_add_mod, Nat.add_assoc]
      · cases j with
        | zero => simpa using hzero
        | succ j =>
            have hj' : j < cs.reverse.length := by simpa using hj
            have hlt : j < klogLineSize := by
              rw [List.length_reverse] at hj'
              omega
            rw [hsucc j hlt, hback j hj']
            simp

/-- The indices stay in the bounds. -/
theorem InBounds.print {str : List UInt8} (h : k.InBounds) (hk : k.klog_print str = some k') :
    k'.InBounds := by
  induction str generalizing k with
  | nil => cases hk
  | cons c str ih =>
      rw [klog_print] at hk
      split at hk
      · cases hk; exact h
      split at hk
      · exact ih ⟨Nat.mod_lt _ (by decide), (by decide : 0 < klogLineSize)⟩ hk
      · obtain ⟨m, hm, hrest⟩ := Option.bind_eq_some_iff.mp hk
        obtain ⟨m', hm', hin, -⟩ := h.put c
        obtain rfl : m = m' := Option.some.inj (hm.symm.trans hm')
        exact ih hin hrest

/-- What is stored says which text it was. -/
theorem puts_inj (h : k.InBounds) {cs ds : List UInt8} (hcs : cs.length < klogLineSize)
    (hds : ds.length < klogLineSize) (he : k.puts cs = k.puts ds) : cs = ds := by
  obtain ⟨k₁, hk₁, -, hcur₁, hback₁⟩ := h.puts hcs.le
  obtain ⟨k₂, hk₂, -, hcur₂, hback₂⟩ := h.puts hds.le
  obtain rfl : k₁ = k₂ := Option.some.inj (hk₁.symm.trans (he.trans hk₂))
  have hlen : cs.length = ds.length := by
    have hsame := hcur₁.symm.trans hcur₂
    unfold klogLines klogLineSize at *
    omega
  refine List.reverse_injective (List.ext_getElem (by simpa using hlen) fun j hj hj' => ?_)
  exact (hback₁ j hj).symm.trans (hback₂ j hj')

theorem length_text (num : Word) : (KlogCall.text (.hex num)).length < klogLineSize ∧
    (KlogCall.text (.dec num)).length < klogLineSize := by
  have hhex : (digitText hexDigits num.toNat).length ≤ 8 :=
    length_digitText (by decide) (by decide) (num.isLt.trans_le (by decide))
  have hdec : (digitText decDigits num.toNat).length ≤ 10 :=
    length_digitText (by decide) (by decide) (num.isLt.trans_le (by decide))
  refine ⟨hhex.trans_lt (by decide), ?_⟩
  rw [KlogCall.text]
  split_ifs
  · exact hdec.trans_lt (by decide)
  · simp [klogLineSize]

/-- A number below 10 and its tenfold are the same digits. -/
theorem text_tenfold {m n : Word} (hm : m.toNat < 10) (hn : n.toNat = 10 * m.toNat) :
    KlogCall.text (.dec m) = KlogCall.text (.dec n) := by
  by_cases h0 : m.toNat = 0
  · rw [BitVec.eq_of_toNat_eq (hn.trans (by rw [h0]) : n.toNat = m.toNat)]
  · have hlen : decDigits.length = 10 := rfl
    have hdiv : n.toNat / 10 = m.toNat := by omega
    have hmod : n.toNat % 10 = 0 := by omega
    have hnone : m.toNat / 10 = 0 := Nat.div_eq_of_lt hm
    rw [KlogCall.text, if_neg (Nat.not_le.mpr hm), KlogCall.text, if_pos (by omega),
      digitText_eq (by decide), digitText_eq (by decide), hlen, hdiv, hmod, hnone,
      Nat.mod_eq_of_lt hm, if_pos (Nat.pos_of_ne_zero h0), if_neg (Nat.lt_irrefl 0)]

theorem text_hex_iff {m n : Word} : KlogCall.text (.hex m) = KlogCall.text (.hex n) ↔ m = n := by
  refine ⟨fun h => ?_, fun h => by rw [h]⟩
  have hv := congrArg (value hexDigits) h
  rw [value_hex, value_hex] at hv
  exact BitVec.eq_of_toNat_eq hv

/-- Below 10 the text is that of the tenfold. -/
theorem text_dec_iff {m n : Word} : KlogCall.text (.dec m) = KlogCall.text (.dec n) ↔
    m = n ∨ (m.toNat < 10 ∧ n.toNat = 10 * m.toNat) ∨ (n.toNat < 10 ∧ m.toNat = 10 * n.toNat) := by
  constructor
  · intro h
    have hv := congrArg (value decDigits) h
    rw [value_dec, value_dec] at hv
    rw [← BitVec.toNat_inj]
    split_ifs at hv <;> omega
  · rintro (rfl | ⟨hm, hn⟩ | ⟨hn, hm⟩)
    · rfl
    · exact text_tenfold hm hn
    · exact (text_tenfold hn hm).symm

/-- Two short texts are printed, and leave the same log only if they are the same. -/
theorem InBounds.puts_two (h : k.InBounds) {cs ds : List UInt8} (hcs : cs.length < klogLineSize)
    (hds : ds.length < klogLineSize) :
    ∃ k₁ k₂, k.puts cs = some k₁ ∧ k.puts ds = some k₂ ∧ (k₁ = k₂ ↔ cs = ds) := by
  obtain ⟨k₁, h₁, -⟩ := h.puts hcs.le
  obtain ⟨k₂, h₂, -⟩ := h.puts hds.le
  refine ⟨k₁, k₂, h₁, h₂, fun he => puts_inj h hcs hds (by rw [h₁, h₂, he]), fun he => ?_⟩
  rw [he] at h₁
  exact Option.some.inj (h₁.symm.trans h₂)

/-- **The printed numbers.**  From any log in the bounds of `klog_buffer` every call ends; two
numbers printed by `klog_print_hex` leave the same log only if they are equal, by `klog_print_dec`
also if one is below 10 and the other its tenfold, and for no others. -/
theorem number_of_log (hk : k.InBounds) (m n : Word) :
    (∃ k₁ k₂, k.klog_print_hex m = some k₁ ∧ k.klog_print_hex n = some k₂ ∧ (k₁ = k₂ ↔ m = n)) ∧
    ∃ k₁ k₂, k.klog_print_dec m = some k₁ ∧ k.klog_print_dec n = some k₂ ∧
      (k₁ = k₂ ↔ m = n ∨ (m.toNat < 10 ∧ n.toNat = 10 * m.toNat) ∨
        (n.toNat < 10 ∧ m.toNat = 10 * n.toNat)) := by
  obtain ⟨k₁, k₂, h₁, h₂, hhex⟩ := hk.puts_two (length_text m).1 (length_text n).1
  obtain ⟨j₁, j₂, i₁, i₂, hdec⟩ := hk.puts_two (length_text m).2 (length_text n).2
  simp only [klog_print_hex_eq, klog_print_dec_eq]
  exact ⟨⟨k₁, k₂, h₁, h₂, hhex.trans text_hex_iff⟩, j₁, j₂, i₁, i₂, hdec.trans text_dec_iff⟩

/-- A number is printed within the bounds. -/
theorem InBounds.number (h : k.InBounds) {cs : List UInt8} (hcs : cs.length < klogLineSize)
    (hk : k.puts cs = some k') : k'.InBounds := by
  obtain ⟨m, hm, hin, -⟩ := h.puts hcs.le
  obtain rfl : m = k' := Option.some.inj (hm.symm.trans hk)
  exact hin

theorem InBounds.call {c : KlogCall} (h : k.InBounds) (hk : k.call c = some k') : k'.InBounds := by
  cases c with
  | print str => exact h.print hk
  | hex num => exact h.number (length_text num).1 ((klog_print_hex_eq num k).symm.trans hk)
  | dec num => exact h.number (length_text num).2 ((klog_print_dec_eq num k).symm.trans hk)

/-- Every log that calls leave is in the bounds. -/
theorem inBounds_of_run {calls : List KlogCall} (h : Run call anyStep init calls k) : k.InBounds :=
  h.inv init_inBounds fun _ _ _ hk _ hc => hk.call hc

/-- 5 and 50, printed over the end of a line. -/
theorem number_of_log_tenfold : ∃ k k', Run call anyStep init
    [.print (.replicate 41 65 ++ [0])] k ∧ k.klog_char_index = 41 ∧
      k.klog_print_dec 5 = some k' ∧ k.klog_print_dec 50 = some k' := by
  obtain ⟨k, hr, hchar⟩ := exists_run call anyStep (fun k => k.klog_char_index = 41) init
    [.print (.replicate 41 65 ++ [0])] (by decide +kernel)
  obtain ⟨-, k₁, k₂, h₁, h₂, hiff⟩ := number_of_log (inBounds_of_run hr) 5 50
  obtain rfl := hiff.mpr (by decide)
  exact ⟨k, k₁, hr, hchar, h₁, h₂⟩

end Klog

end PandOS
