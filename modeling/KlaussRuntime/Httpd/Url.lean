import KlaussRuntime.Machinery.CString
import Mathlib.Data.List.GetD

/-!
# Httpd/Url — the request target (`httpd.c`: `url_decode`, the query cut)

`httpd_serve` copies the target into `url`, cuts it at the first `?`, and decodes the path in place:
`url_decode` reads ahead of where it writes, in one buffer.  `percentDecode` says what decoding is;
the loop leaves it at the front of the buffer and touches nothing behind the path
(`urlDecodeLoop_eq`), so the query is still there afterwards and `target` is the path decoded once,
up to its first NUL, and the text after the `?` (`target_eq`).
-/

namespace KlaussRuntime.Httpd

open Machinery

/-! ## Decoding -/

/-- The byte two hexadecimal digits spell. -/
def hexByte (a b : Byte) : Byte := BitVec.ofNat 8 (16 * (hexVal a).getD 0 + (hexVal b).getD 0)

/-- `+` is a blank. -/
def plusToSpace (c : Byte) : Byte := if c = 0x2b then 0x20 else c

/-- `%XX` is the byte it spells, `+` a blank, everything else itself. -/
def percentDecode : List Byte → List Byte
  | [] => []
  | c :: s =>
    match s with
    | a :: b :: t =>
      if c = 0x25 ∧ isxdigit a ∧ isxdigit b then hexByte a b :: percentDecode t
      else plusToSpace c :: percentDecode (a :: b :: t)
    | s => plusToSpace c :: percentDecode s

/-- The loop of `url_decode`: reads at `s`, writes at `o`.  Returns the buffer and where the NUL went. -/
def urlDecodeLoop : ℕ → List Byte → ℕ → ℕ → List Byte × ℕ
  | 0, buf, _, o => (buf, o)
  | k + 1, buf, s, o =>
    let c := buf.getD s 0
    if c = 0 then (buf.set o 0, o)
    else if c = 0x25 ∧ isxdigit (buf.getD (s + 1) 0) ∧ isxdigit (buf.getD (s + 2) 0) then
      urlDecodeLoop k (buf.set o (hexByte (buf.getD (s + 1) 0) (buf.getD (s + 2) 0))) (s + 3) (o + 1)
    else if c = 0x2b then urlDecodeLoop k (buf.set o 0x20) (s + 1) (o + 1)
    else urlDecodeLoop k (buf.set o c) (s + 1) (o + 1)

/-- Every round reads on, so the buffer's length bounds the rounds. -/
def urlDecode (buf : List Byte) : List Byte × ℕ := urlDecodeLoop buf.length buf 0 0

theorem length_percentDecode_le (path : List Byte) : (percentDecode path).length ≤ path.length := by
  fun_induction percentDecode path with
  | case1 => exact le_rfl
  | case2 c a b t _ ih =>
    simp only [List.length_cons]
    omega
  | case3 c a b t _ ih => exact Nat.succ_le_succ ih
  | case4 c s _ ih => exact Nat.succ_le_succ ih

variable {done w path tail : List Byte} {k g : ℕ} {x : Byte}

/-- Reading from the part of the buffer that has not been written. -/
theorem getD_append_window (done w : List Byte) (g j : ℕ) :
    (done ++ w).getD (done.length + g + j) 0 = (w.drop g).getD j 0 := by
  rw [List.getD_append_right _ _ _ _ (by omega), List.getD_eq_getElem?_getD,
    List.getD_eq_getElem?_getD, List.getElem?_drop]
  congr 3
  omega

theorem set_append_window (hw : w ≠ []) : (done ++ w).set done.length x = (done ++ [x]) ++ w.tail := by
  obtain ⟨y, w, rfl⟩ := List.exists_cons_of_ne_nil hw
  simp

theorem urlDecodeLoop_escape {a b : Byte} {s : List Byte} (hw : w.drop g = 0x25 :: a :: b :: s)
    (ha : isxdigit a) (hb : isxdigit b) :
    urlDecodeLoop (k + 1) (done ++ w) (done.length + g) done.length
      = urlDecodeLoop k ((done ++ [hexByte a b]) ++ w.tail) ((done ++ [hexByte a b]).length + (g + 2))
        (done ++ [hexByte a b]).length := by
  have hne : w ≠ [] := by rintro rfl; simp at hw
  have hread := getD_append_window done w g
  simp only [hw] at hread
  have hc : (done ++ w).getD (done.length + g) 0 = 0x25 := hread 0
  have h₁ : (done ++ w).getD (done.length + g + 1) 0 = a := hread 1
  have h₂ : (done ++ w).getD (done.length + g + 2) 0 = b := hread 2
  have hgo : ∀ x, (done ++ [x]).length + (g + 2) = done.length + g + 3 := fun x => by simp; omega
  rw [urlDecodeLoop, hc, h₁, h₂, if_neg (by decide), if_pos ⟨rfl, ha, hb⟩, hgo, List.length_append,
    set_append_window hne]
  rfl

theorem urlDecodeLoop_plain {c : Byte} {s : List Byte} (hw : w.drop g = c :: s) (hc : c ≠ 0)
    (hesc : ¬ (c = 0x25 ∧ isxdigit (s.getD 0 0) ∧ isxdigit (s.getD 1 0))) :
    urlDecodeLoop (k + 1) (done ++ w) (done.length + g) done.length
      = urlDecodeLoop k ((done ++ [plusToSpace c]) ++ w.tail) ((done ++ [plusToSpace c]).length + g)
        (done ++ [plusToSpace c]).length := by
  have hne : w ≠ [] := by rintro rfl; simp at hw
  have hread := getD_append_window done w g
  simp only [hw] at hread
  have hc₀ : (done ++ w).getD (done.length + g) 0 = c := hread 0
  have h₁ : (done ++ w).getD (done.length + g + 1) 0 = s.getD 0 0 := hread 1
  have h₂ : (done ++ w).getD (done.length + g + 2) 0 = s.getD 1 0 := hread 2
  have hgo : ∀ x, (done ++ [x]).length + g = done.length + g + 1 := fun x => by simp; omega
  rw [urlDecodeLoop, hc₀, h₁, h₂, if_neg hc, if_neg hesc, hgo, List.length_append, plusToSpace]
  split_ifs with hplus <;> rw [set_append_window hne] <;> rfl

theorem urlDecodeLoop_nil (hw : w.drop g = 0 :: tail) :
    urlDecodeLoop (k + 1) (done ++ w) (done.length + g) done.length
      = (done ++ 0 :: w.drop 1, done.length) := by
  have hne : w ≠ [] := by rintro rfl; simp at hw
  have hc : (done ++ w).getD (done.length + g) 0 = 0 := by
    rw [← Nat.add_zero (done.length + g), getD_append_window, hw]
    rfl
  rw [urlDecodeLoop, hc, if_pos rfl, set_append_window hne, List.append_assoc, List.drop_one]
  rfl

/-- One byte more is written, and the window is one byte shorter. -/
theorem append_window (done w p : List Byte) (x : Byte) :
    (done ++ [x] ++ p ++ 0 :: w.tail.drop (p.length + 1), (done ++ [x]).length + p.length)
      = (done ++ x :: p ++ 0 :: w.drop ((x :: p).length + 1), done.length + (x :: p).length) := by
  rw [List.drop_tail, List.length_cons]
  simp
  omega

/-- **The decoder in its buffer**: `done` is written, and the window `w` behind it holds, from `g` on,
the path that is still to be read. -/
theorem urlDecodeLoop_eq (path : List Byte) (hpath : 0 ∉ path) (hk : path.length < k)
    (hw : w.drop g = path ++ 0 :: tail) :
    urlDecodeLoop k (done ++ w) (done.length + g) done.length
      = (done ++ percentDecode path ++ 0 :: w.drop ((percentDecode path).length + 1),
        done.length + (percentDecode path).length) := by
  -- each round reads one character or one escape; the fuel covers the path and its NUL
  fun_induction percentDecode path generalizing done w g k with
  | case1 =>
    obtain ⟨k, rfl⟩ := Nat.exists_eq_add_one_of_ne_zero (Nat.ne_of_gt hk)
    simpa using urlDecodeLoop_nil hw
  | case2 c a b t hesc ih =>
    obtain ⟨k, rfl⟩ := Nat.exists_eq_add_one_of_ne_zero (Nat.ne_of_gt ((Nat.zero_le _).trans_lt hk))
    obtain ⟨rfl, ha, hb⟩ := hesc
    have hrest : w.tail.drop (g + 2) = t ++ 0 :: tail := by
      rw [List.drop_tail, ← List.drop_drop (i := 3), hw]
      rfl
    rw [urlDecodeLoop_escape hw ha hb, ih (fun h => hpath (List.mem_of_mem_drop (i := 3) h))
      (by simp only [List.length_cons] at hk; omega) hrest, append_window]
  | case3 c a b t hesc ih =>
    obtain ⟨k, rfl⟩ := Nat.exists_eq_add_one_of_ne_zero (Nat.ne_of_gt ((Nat.zero_le _).trans_lt hk))
    have hrest : w.tail.drop g = a :: b :: t ++ 0 :: tail := by
      rw [List.drop_tail, ← List.drop_drop (i := 1), hw]
      rfl
    rw [urlDecodeLoop_plain hw (ne_of_mem_of_not_mem List.mem_cons_self hpath) hesc,
      ih (fun h => hpath (List.mem_cons_of_mem _ h)) (Nat.lt_of_succ_lt_succ hk) hrest, append_window]
  | case4 c s hshort ih =>
    obtain ⟨k, rfl⟩ := Nat.exists_eq_add_one_of_ne_zero (Nat.ne_of_gt ((Nat.zero_le _).trans_lt hk))
    have hrest : w.tail.drop g = s ++ 0 :: tail := by
      rw [List.drop_tail, ← List.drop_drop (i := 1), hw]
      rfl
    -- fewer than two characters follow, so the NUL stands where a digit would have to
    have hesc : ¬ (c = 0x25 ∧ isxdigit ((s ++ 0 :: tail).getD 0 0)
        ∧ isxdigit ((s ++ 0 :: tail).getD 1 0)) := by
      rintro ⟨-, h₁, h₂⟩
      match s, hshort with
      | [], _ => exact absurd (show isxdigit 0 = true from h₁) (by decide)
      | [a], _ => exact absurd (show isxdigit 0 = true from h₂) (by decide)
      | a :: b :: t, hshort => exact hshort a b t rfl
    rw [urlDecodeLoop_plain hw (ne_of_mem_of_not_mem List.mem_cons_self hpath) hesc,
      ih (fun h => hpath (List.mem_cons_of_mem _ h)) (Nat.lt_of_succ_lt_succ hk) hrest, append_window]

theorem urlDecode_eq (hpath : 0 ∉ path) (tail : List Byte) :
    urlDecode (path ++ 0 :: tail)
      = (percentDecode path ++ 0 :: (path ++ 0 :: tail).drop ((percentDecode path).length + 1),
        (percentDecode path).length) := by
  have h : urlDecodeLoop (path ++ 0 :: tail).length ([] ++ (path ++ 0 :: tail))
      (([] : List Byte).length + 0) ([] : List Byte).length = _ :=
    urlDecodeLoop_eq path hpath (by simp) rfl
  simpa [urlDecode] using h

/-! ## The target -/

/-- `url` and `query` as the rest of `httpd_serve` reads them, and the part of `url[]` the decoder
wrote. -/
structure Target where
  url : List Byte
  query : List Byte
  written : List Byte

/-- Cut the query off at the first `?`, then decode the path in place. -/
def target (raw : List Byte) : Target :=
  let q := strchr 0x3f raw
  let buf := raw ++ [0]
  let buf := match q with
    | some q => buf.set q 0
    | none => buf
  let (buf, o) := urlDecode buf
  { url := cstr buf
    query := match q with
      | some q => cstr (buf.drop (q + 1))
      | none => []
    written := buf.take (o + 1) }

/-- The part of the raw target before the query. -/
def pathOf (raw : List Byte) : List Byte := raw.takeWhile (· ≠ 0x3f)

/-- The part after it. -/
def queryOf (raw : List Byte) : List Byte := (raw.dropWhile (· ≠ 0x3f)).tail

theorem pathOf_append {p : List Byte} (h : 0x3f ∉ p) (r : List Byte) :
    pathOf (p ++ 0x3f :: r) = p ∧ queryOf (p ++ 0x3f :: r) = r := by
  have hpos : ∀ b ∈ p, decide (b ≠ 0x3f) = true := fun b hb =>
    decide_eq_true (ne_of_mem_of_not_mem hb h)
  rw [pathOf, queryOf, List.takeWhile_append_of_pos hpos, List.dropWhile_append_of_pos hpos]
  simp

theorem pathOf_of_not_mem {p : List Byte} (h : 0x3f ∉ p) : pathOf p = p ∧ queryOf p = [] := by
  have hpos : ∀ b ∈ p, decide (b ≠ 0x3f) = true := fun b hb =>
    decide_eq_true (ne_of_mem_of_not_mem hb h)
  rw [pathOf, queryOf, List.takeWhile_eq_self_iff.mpr hpos, List.dropWhile_eq_nil_iff.mpr hpos]
  exact ⟨rfl, rfl⟩

/-- What a string in front of a NUL reads as, and where the decoder's writes end. -/
theorem cstr_decoded (p tail : List Byte) :
    cstr (p ++ 0 :: tail) = cstr p ∧ (p ++ 0 :: tail).take (p.length + 1) = p ++ [0] := by
  refine ⟨?_, by simp [List.take_append]⟩
  induction p with
  | nil => rfl
  | cons b p ih =>
    simp only [cstr, List.cons_append, List.takeWhile_cons] at ih ⊢
    rw [ih]

theorem drop_decoded (p x : List Byte) :
    (percentDecode p ++ 0 :: (p ++ x).drop ((percentDecode p).length + 1)).drop (p.length + 1)
      = x.drop 1 := by
  have hle := length_percentDecode_le p
  rw [List.drop_append, List.drop_eq_nil_of_le (by omega), List.nil_append,
    show p.length + 1 - (percentDecode p).length = p.length - (percentDecode p).length + 1 by omega,
    List.drop_succ_cons, List.drop_drop, List.drop_append, List.drop_eq_nil_of_le (by omega),
    List.nil_append]
  congr 1
  omega

/-- **The target is decoded once**: the path up to its first NUL, and the query untouched. -/
theorem target_eq {raw : List Byte} (h : 0 ∉ raw) :
    target raw = ⟨cstr (percentDecode (pathOf raw)), queryOf raw,
      percentDecode (pathOf raw) ++ [0]⟩ := by
  rw [target]
  cases hq : strchr 0x3f raw with
  | none =>
    have hnone : (0x3f : Byte) ∉ raw := fun hmem => by
      simpa using List.findIdx?_eq_none_iff.mp hq _ hmem
    obtain ⟨hpath, hquery⟩ := pathOf_of_not_mem hnone
    simp only [urlDecode_eq h [], hpath, hquery, cstr_decoded]
  | some q =>
    obtain ⟨p, r, rfl, rfl, hfirst⟩ := strchr_eq_some hq
    obtain ⟨hpath, hquery⟩ := pathOf_append hfirst r
    have hp : 0 ∉ p := fun hmem => h (List.mem_append_left _ hmem)
    have hr : 0 ∉ r := fun hmem => h (List.mem_append_right _ (List.mem_cons_of_mem _ hmem))
    have hset : (p ++ 0x3f :: r ++ [0]).set p.length 0 = p ++ 0 :: (r ++ [0]) := by simp
    have hbehind := drop_decoded p (0 :: (r ++ [0]))
    simp only [hset, urlDecode_eq hp, hpath, hquery, cstr_decoded, hbehind, List.drop_one,
      List.tail_cons, cstr_append_zero hr]

end KlaussRuntime.Httpd
