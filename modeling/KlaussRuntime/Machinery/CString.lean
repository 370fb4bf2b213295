import KlaussRuntime.Machinery.Bytes
import Mathlib.Data.List.TakeWhile
import Mathlib.Tactic

/-!
# Machinery/CString — strings as the C library reads them

A string is the bytes before its NUL; `cstr` reads one out of a buffer.  Searching returns a position
(`strchr`, `strstr`) with the two facts a caller needs: what was not found is nowhere
(`strstr_eq_none_iff`), and text that follows does not move the first occurrence
(`strstr_append`).  `strtol` and `strtoul` saturate, `snprintk` cuts its text to the buffer, and
`decimal` is what `%u` prints.
-/

namespace Machinery

/-- The bytes of a text. -/
def ascii (s : String) : List Byte := s.toList.map fun c => BitVec.ofNat 8 c.toNat

/-- The string at the start of a buffer. -/
def cstr (buf : List Byte) : List Byte := buf.takeWhile (· ≠ 0)

theorem cstr_append {s : List Byte} (h : (0 : Byte) ∉ s) (t : List Byte) :
    cstr (s ++ t) = s ++ cstr t :=
  List.takeWhile_append_of_pos fun b hb => by
    rw [decide_eq_true_iff]
    exact ne_of_mem_of_not_mem hb h

theorem cstr_of_not_mem {s : List Byte} (h : (0 : Byte) ∉ s) : cstr s = s := by
  simpa [cstr] using cstr_append h []

theorem cstr_append_zero {s : List Byte} (h : (0 : Byte) ∉ s) (t : List Byte) :
    cstr (s ++ 0 :: t) = s := by
  rw [cstr_append h, cstr, List.takeWhile_cons_of_neg (by simp), List.append_nil]

theorem zero_not_mem_cstr (buf : List Byte) : (0 : Byte) ∉ cstr buf := fun h => by
  simpa using List.mem_takeWhile_imp h

/-- A buffer without a NUL is its own string; any other one goes on after it. -/
theorem cstr_cases (buf : List Byte) :
    cstr buf = buf ∨ ∃ rest, buf = cstr buf ++ 0 :: rest := by
  by_cases h : (0 : Byte) ∈ buf
  · obtain ⟨s, rest, hbuf, hs⟩ := List.eq_append_cons_of_mem h
    refine .inr ⟨rest, ?_⟩
    rw [hbuf, cstr_append_zero hs]
  · exact .inl (cstr_of_not_mem h)

/-- **A cut copy reads as a short text** when the bytes are the text or go on with a NUL. -/
theorem cstr_take_eq_iff {s t : List Byte} {n : ℕ} (ht : (0 : Byte) ∉ t) (hn : t.length < n) :
    cstr (s.take n) = t ↔ s = t ∨ t ++ [0] <+: s := by
  constructor
  · intro h
    obtain hall | ⟨rest, hrest⟩ := cstr_cases (s.take n)
    · -- no NUL in the copy: it is all of `t`, so nothing was cut off
      left
      have htake : s.take n = t := hall.symm.trans h
      have hlen := congrArg List.length htake
      rw [List.length_take] at hlen
      rw [← htake, List.take_of_length_le (by omega)]
    · right
      rw [h] at hrest
      have hcopy : t ++ [0] <+: s.take n := ⟨rest, by rw [hrest, List.append_assoc]; rfl⟩
      exact hcopy.trans (List.take_prefix n s)
  · rintro (rfl | ⟨rest, rfl⟩)
    · rw [List.take_of_length_le hn.le, cstr_of_not_mem ht]
    · rw [List.append_assoc, List.take_append, List.take_of_length_le hn.le, List.singleton_append]
      obtain ⟨k, hk⟩ : ∃ k, n - t.length = k + 1 := ⟨n - t.length - 1, by omega⟩
      rw [hk, List.take_succ_cons, cstr_append_zero ht]

/-- Zero where the two strings are the same; the sign is that of the first difference. -/
def strcmp (s t : List Byte) : ℤ :=
  if cstr s = cstr t then 0 else if cstr s < cstr t then -1 else 1

theorem strcmp_eq_zero_iff {s t : List Byte} : strcmp s t = 0 ↔ cstr s = cstr t := by
  unfold strcmp
  split_ifs with heq <;> simp [heq]

/-! ## Characters -/

def isdigit (b : Byte) : Bool := 0x30 ≤ b && b ≤ 0x39

def isspace (b : Byte) : Bool := b == 0x20 || (0x09 ≤ b && b ≤ 0x0d)

def tolower (b : Byte) : Byte := if 0x41 ≤ b ∧ b ≤ 0x5a then b + 0x20 else b

/-- The value of a hexadecimal digit. -/
def hexVal (b : Byte) : Option ℕ :=
  if isdigit b then some (b.toNat - 0x30)
  else if 0x61 ≤ tolower b ∧ tolower b ≤ 0x66 then some ((tolower b).toNat - 0x57)
  else none

def isxdigit (b : Byte) : Bool := (hexVal b).isSome

/-! ## Searching -/

/-- The position of the first `c`. -/
def strchr (c : Byte) (s : List Byte) : Option ℕ := s.findIdx? (· == c)

/-- The position of the first `pat`. -/
def strstr (pat : List Byte) : List Byte → Option ℕ
  | [] => if pat = [] then some 0 else none
  | b :: s => if pat.isPrefixOf (b :: s) then some 0 else (strstr pat s).map (· + 1)

/-- The text after the last `c`. -/
def strrchr (c : Byte) (s : List Byte) : Option (List Byte) :=
  if c ∈ s then some (s.reverse.takeWhile (· ≠ c)).reverse else none

/-- **The first `c`** cuts the string. -/
theorem strchr_eq_some {c : Byte} {s : List Byte} {i : ℕ} (h : strchr c s = some i) :
    ∃ p r, s = p ++ c :: r ∧ i = p.length ∧ c ∉ p := by
  obtain ⟨hi, hc, hlt⟩ := List.findIdx?_eq_some_iff_getElem.mp h
  simp only [beq_iff_eq] at hc
  refine ⟨s.take i, s.drop (i + 1), ?_, by simp [hi.le], fun hmem => ?_⟩
  · rw [← hc, ← List.drop_eq_getElem_cons hi, List.take_append_drop]
  · obtain ⟨j, hj, hget⟩ := List.mem_iff_getElem.mp hmem
    simp only [List.length_take, lt_min_iff] at hj
    rw [List.getElem_take] at hget
    simpa [hget] using hlt j hj.1

theorem append_cons_inj {c : Byte} {s s' t t' : List Byte} (h : c ∉ s) (h' : c ∉ s')
    (heq : s ++ c :: t = s' ++ c :: t') : s = s' ∧ t = t' := by
  have hcut : ∀ {s t : List Byte}, c ∉ s → (s ++ c :: t).takeWhile (· ≠ c) = s := fun {s t} hs => by
    rw [List.takeWhile_append_of_pos fun b hb => by
      rw [decide_eq_true_iff]; exact ne_of_mem_of_not_mem hb hs]
    simp
  obtain rfl : s = s' := by rw [← hcut h, heq, hcut h']
  exact ⟨rfl, (List.cons.inj (List.append_cancel_left heq)).2⟩

/-- **What is not found is nowhere.** -/
theorem strstr_eq_none_iff {pat s : List Byte} : strstr pat s = none ↔ ¬ pat <:+: s := by
  induction s with
  | nil => simp [strstr]
  | cons b s ih =>
    rw [strstr, List.infix_cons_iff, not_or, ← ih]
    by_cases hp : pat.isPrefixOf (b :: s)
    · simp [hp, List.isPrefixOf_iff_prefix.mp hp]
    · simp [hp, mt List.isPrefixOf_iff_prefix.mpr hp]

/-- A text without the first character of the pattern is passed over. -/
theorem strstr_skip {c : Byte} (pat : List Byte) {s : List Byte} (h : c ∉ s) (t : List Byte) :
    strstr (c :: pat) (s ++ t) = (strstr (c :: pat) t).map (· + s.length) := by
  induction s with
  | nil => simp
  | cons b s ih =>
    rw [List.mem_cons, not_or] at h
    have hne : (c == b) = false := by simpa using h.1
    rw [List.cons_append, strstr, List.isPrefixOf_cons_cons, hne, ih h.2]
    simp [Option.map_map, Function.comp_def, Nat.add_assoc]

theorem strstr_add_length_le {pat s : List Byte} {i : ℕ} (h : strstr pat s = some i) :
    i + pat.length ≤ s.length := by
  induction s generalizing i with
  | nil =>
    rw [strstr] at h
    split_ifs at h with hp
    cases h
    simp [hp]
  | cons b s ih =>
    rw [strstr] at h
    split_ifs at h with hp
    · cases h
      simpa using (List.isPrefixOf_iff_prefix.mp hp).length_le
    · obtain ⟨j, hj, rfl⟩ := Option.map_eq_some_iff.mp h
      have := ih hj
      rw [List.length_cons]
      omega

/-- **Text that follows does not move the first occurrence.** -/
theorem strstr_append {pat s : List Byte} {i : ℕ} (h : strstr pat s = some i) (t : List Byte) :
    strstr pat (s ++ t) = some i := by
  induction s generalizing i with
  | nil =>
    rw [strstr] at h
    split_ifs at h with hp
    subst hp
    rw [← h]
    cases t <;> simp [strstr]
  | cons b s ih =>
    -- an occurrence at the front that reached into `t` would be longer than the one found in `s`
    have hfront : pat.isPrefixOf (b :: (s ++ t)) = pat.isPrefixOf (b :: s) := by
      rw [Bool.eq_iff_iff, List.isPrefixOf_iff_prefix, List.isPrefixOf_iff_prefix, ← List.cons_append]
      refine ⟨fun hp => List.prefix_of_prefix_length_le hp (List.prefix_append _ t) ?_,
        fun hp => hp.trans (List.prefix_append _ t)⟩
      have := strstr_add_length_le h
      omega
    rw [strstr] at h
    rw [List.cons_append, strstr, hfront]
    split_ifs at h ⊢ with hp
    · exact h
    · obtain ⟨j, hj, rfl⟩ := Option.map_eq_some_iff.mp h
      rw [ih hj, Option.map_some]

/-! ## Numbers -/

/-- The value of a string of digits after `acc`. -/
def digitsVal (acc : ℕ) (s : List Byte) : ℕ := s.foldl (fun v b => 10 * v + (b.toNat - 0x30)) acc

/-- White space, a sign, digits: the sign and the value. -/
def readNumber (s : List Byte) : Bool × ℕ :=
  let s := s.dropWhile isspace
  let (neg, s) := match s with
    | 0x2d :: s => (true, s)
    | 0x2b :: s => (false, s)
    | s => (false, s)
  (neg, digitsVal 0 (s.takeWhile isdigit))

theorem takeWhile_isdigit_append (w : List Byte) {t : List Byte} (ht : ∀ b ∈ t.head?, isdigit b = false) :
    (w ++ t).takeWhile isdigit = w.takeWhile isdigit := by
  rw [List.takeWhile_append]
  split_ifs with hall
  · have hnone : t.takeWhile isdigit = [] := by
      cases t with
      | nil => rfl
      | cons b t => exact List.takeWhile_cons_of_neg (by rw [ht b rfl]; decide)
    have hw : w.takeWhile isdigit = w := (List.takeWhile_prefix _).eq_of_length hall
    rw [hnone, List.append_nil, hw]
  · rfl

/-- **A number ends where its string has no digit**, when it begins before that. -/
theorem readNumber_append {s t : List Byte} (hs : ∃ b ∈ s, isspace b = false)
    (ht : ∀ b ∈ t.head?, isdigit b = false) : readNumber (s ++ t) = readNumber s := by
  have hne : s.dropWhile isspace ≠ [] := fun hnil => by
    obtain ⟨b, hb, hspace⟩ := hs
    rw [List.dropWhile_eq_nil_iff.mp hnil b hb] at hspace
    cases hspace
  obtain ⟨b, w, hw⟩ := List.exists_cons_of_ne_nil hne
  have hdrop : (s ++ t).dropWhile isspace = b :: (w ++ t) := by
    rw [List.dropWhile_append, hw]
    rfl
  have hdigits : ∀ w : List Byte, (w ++ t).takeWhile isdigit = w.takeWhile isdigit :=
    fun w => takeWhile_isdigit_append w ht
  by_cases hminus : b = 0x2d
  · subst hminus
    rw [readNumber, readNumber, hdrop, hw]
    exact congrArg (fun d => (true, digitsVal 0 d)) (hdigits w)
  · by_cases hplus : b = 0x2b
    · subst hplus
      rw [readNumber, readNumber, hdrop, hw]
      exact congrArg (fun d => (false, digitsVal 0 d)) (hdigits w)
    · have hother : ∀ {s u : List Byte}, s.dropWhile isspace = b :: u →
          readNumber s = (false, digitsVal 0 ((b :: u).takeWhile isdigit)) := fun {s u} hu => by
        rw [readNumber, hu]
        split
        next hsplit =>
          split at hsplit
          · next heq => exact absurd (List.cons.inj heq).1 hminus
          · next heq => exact absurd (List.cons.inj heq).1 hplus
          · cases hsplit
            rfl
      rw [hother hdrop, hother hw, ← List.cons_append, hdigits (b :: w)]

/-- `strtol(s, NULL, 10)`, saturating. -/
def strtol (s : List Byte) : ℤ :=
  let (neg, v) := readNumber s
  if neg then max (-(v : ℤ)) (-2 ^ 63) else min (v : ℤ) (2 ^ 63 - 1)

theorem strtol_lt (s : List Byte) : strtol s < 2 ^ 63 := by
  simp only [strtol]
  split <;> omega

/-- `strtoul(s, NULL, 10)`, saturating; a sign negates modulo `2⁶⁴`. -/
def strtoul (s : List Byte) : ℕ :=
  let (neg, v) := readNumber s
  if v ≥ 2 ^ 64 then 2 ^ 64 - 1 else if neg then (2 ^ 64 - v) % 2 ^ 64 else v

/-- What `%u` prints. -/
def decimal (n : ℕ) : List Byte := (Nat.toDigits 10 n).map fun c => BitVec.ofNat 8 c.toNat

theorem toNat_ofNat_isDigit {c : Char} (h : c.isDigit = true) :
    (BitVec.ofNat 8 c.toNat).toNat = c.toNat ∧ 0x30 ≤ c.toNat ∧ c.toNat ≤ 0x39 := by
  simp only [Char.isDigit, Bool.and_eq_true, decide_eq_true_iff] at h
  have h₁ : 0x30 ≤ c.toNat := h.1
  have h₂ : c.toNat ≤ 0x39 := h.2
  exact ⟨by rw [BitVec.toNat_ofNat]; omega, h₁, h₂⟩

theorem isdigit_of_mem_decimal {n : ℕ} {b : Byte} (h : b ∈ decimal n) : isdigit b = true := by
  obtain ⟨c, hc, rfl⟩ := List.mem_map.mp h
  obtain ⟨htoNat, hlo, hhi⟩ :=
    toNat_ofNat_isDigit (Nat.isDigit_of_mem_toDigits (by decide) (by decide) hc)
  simp only [isdigit, Bool.and_eq_true, decide_eq_true_iff, BitVec.le_def, htoNat]
  exact ⟨hlo, hhi⟩

theorem decimal_ne_nil (n : ℕ) : decimal n ≠ [] := by
  simp [decimal, Nat.toDigits_ne_nil]

theorem length_decimal_le {n k : ℕ} (hk : 0 < k) (h : n < 10 ^ k) : (decimal n).length ≤ k := by
  rw [decimal, List.length_map]
  exact (Nat.length_toDigits_le_iff (by decide) hk).mpr h

/-- **Reading back what was printed.** -/
theorem digitsVal_decimal (n : ℕ) : digitsVal 0 (decimal n) = n := by
  conv_rhs => rw [← Nat.ofDigitChars_toDigits (b := 10) (n := n) (by decide) (by decide)]
  rw [digitsVal, decimal, List.foldl_map, Nat.ofDigitChars_eq_foldl]
  refine List.foldl_ext _ _ _ fun v c hc => ?_
  rw [(toNat_ofNat_isDigit (Nat.isDigit_of_mem_toDigits (by decide) (by decide) hc)).1]
  rfl

/-- What `snprintk` leaves of a text in a buffer of `size` bytes. -/
def snprintk (size : ℕ) (text : List Byte) : List Byte := text.take (size - 1)

theorem snprintk_of_lt {size : ℕ} {text : List Byte} (h : text.length < size) :
    snprintk size text = text := List.take_of_length_le (Nat.le_sub_one_of_lt h)

end Machinery
