import KlaussRuntime.Machinery.Memory
import Mathlib.Data.Int.ModEq
import Mathlib.Data.List.Count

/-!
# Machinery/Fields — integers in memory, shifted and stored

A field is an integer of `w` bytes at an address, read modulo `256 ^ w` (`intBytes`).  `bump` adds to a
field in place.  A list of bumps adds to a field as often as the list names it, as long as it meets no
other field of the list (`Mem.read_bumpAll`); a list of stores leaves at each address what the last
store there put (`Mem.storeAll`), and a store no other store of the list meets can be read back
(`Mem.read_storeAll`).
-/

namespace Machinery

/-! ## Integers of a width -/

/-- The `w` bytes of an integer, in two's complement, least significant first. -/
def intBytes (w : ℕ) (v : ℤ) : List Byte := leBytes w (v % 256 ^ w).toNat

@[simp] theorem length_intBytes (w : ℕ) (v : ℤ) : (intBytes w v).length = w := length_leBytes _ _

theorem leNat_intBytes (w : ℕ) (v : ℤ) : (leNat (intBytes w v) : ℤ) = v % 256 ^ w := by
  have hpos : (0 : ℤ) < 256 ^ w := by positivity
  have hnonneg : 0 ≤ v % 256 ^ w := Int.emod_nonneg v hpos.ne'
  have hlt : (v % 256 ^ w).toNat < 256 ^ w := by
    rw [Int.toNat_lt hnonneg]
    exact_mod_cast Int.emod_lt_of_pos v hpos
  rw [intBytes, leNat_leBytes, Nat.mod_eq_of_lt hlt, Int.toNat_of_nonneg hnonneg]

/-- **Fields hold integers modulo their width.** -/
theorem intBytes_eq_iff {w : ℕ} {v v' : ℤ} : intBytes w v = intBytes w v' ↔ v ≡ v' [ZMOD 256 ^ w] := by
  refine ⟨fun h => ?_, fun h => by rw [intBytes, intBytes, h]⟩
  have hval := congrArg (fun bs => (leNat bs : ℤ)) h
  simp only [leNat_intBytes] at hval
  exact hval

theorem intBytes_leNat_add (w : ℕ) (v δ : ℤ) :
    intBytes w (leNat (intBytes w v) + δ) = intBytes w (v + δ) := by
  rw [intBytes_eq_iff, leNat_intBytes]
  exact (Int.mod_modEq v _).add_right δ

/-! ## Places -/

/-- Two stretches of memory that do not meet. -/
def Apart (p n q k : ℕ) : Prop := p + n ≤ q ∨ q + k ≤ p

instance (p n q k : ℕ) : Decidable (Apart p n q k) := inferInstanceAs (Decidable (_ ∨ _))

theorem Apart.symm {p n q k : ℕ} (h : Apart p n q k) : Apart q k p n := Or.symm h

/-- A string to be stored, and where. -/
abbrev Store := ℕ × List Byte

/-- The addresses a store writes. -/
def Store.Has (s : Store) (a : ℕ) : Prop := s.1 ≤ a ∧ a < s.1 + s.2.length

namespace Mem

variable (m : Mem)

/-! ## Bumps -/

/-- Add to the field of `w` bytes at `p`. -/
def bump (p w : ℕ) (δ : ℤ) : Mem := m.write p (intBytes w (leNat (m.read p w) + δ))

theorem read_bump_self {p w : ℕ} {v : ℤ} (h : m.read p w = intBytes w v) (δ : ℤ) :
    (m.bump p w δ).read p w = intBytes w (v + δ) := by
  have hback := m.read_write_self p (intBytes w (leNat (m.read p w) + δ))
  rw [length_intBytes] at hback
  rw [bump, hback, h, intBytes_leNat_add]

theorem read_bump_of_apart {p w q n : ℕ} (h : Apart p w q n) (δ : ℤ) :
    (m.bump p w δ).read q n = m.read q n := by
  refine m.read_write_of_disjoint ?_
  rw [length_intBytes]
  exact h.symm

theorem bump_apply_of_not_mem {p w a : ℕ} (h : a < p ∨ p + w ≤ a) (δ : ℤ) : m.bump p w δ a = m a := by
  refine m.write_apply_of_not_mem ?_
  rwa [length_intBytes]

theorem bump_zero (p w : ℕ) : m.bump p w 0 = m := by
  have hsame : intBytes w (leNat (m.read p w)) = m.read p w := by
    have hlt : leNat (m.read p w) < 256 ^ w := by simpa using leNat_lt (m.read p w)
    rw [intBytes, Int.emod_eq_of_lt (by positivity) (by exact_mod_cast hlt), Int.toNat_natCast]
    simpa using leBytes_leNat (m.read p w)
  funext a
  rw [bump, add_zero, hsame]
  by_cases ha : p ≤ a ∧ a < p + w
  · obtain ⟨k, rfl⟩ := Nat.exists_eq_add_of_le ha.1
    rw [m.write_apply_of_lt (by rw [length_read]; omega)]
    simp [Mem.read]
  · exact m.write_apply_of_not_mem (by rw [length_read]; omega)

/-- Add to every field of a list, in turn. -/
def bumpAll (δ : ℤ) (l : List (ℕ × ℕ)) : Mem := l.foldl (fun m fld => m.bump fld.1 fld.2 δ) m

/-- **A list of bumps adds to a field as often as it names it.** -/
theorem read_bumpAll {p w : ℕ} (δ : ℤ) {l : List (ℕ × ℕ)}
    (hl : ∀ fld ∈ l, fld = (p, w) ∨ Apart fld.1 fld.2 p w) {v : ℤ} (h : m.read p w = intBytes w v) :
    (m.bumpAll δ l).read p w = intBytes w (v + l.count (p, w) * δ) := by
  induction l generalizing m v with
  | nil => simpa [bumpAll] using h
  | cons fld l ih =>
    have hrest := fun x hx => hl x (List.mem_cons_of_mem fld hx)
    by_cases heq : fld = (p, w)
    · rw [bumpAll, List.foldl_cons, heq]
      refine (ih (m.bump p w δ) hrest (m.read_bump_self h δ)).trans ?_
      rw [List.count_cons_self]
      push_cast
      congr 1
      ring
    · rw [bumpAll, List.foldl_cons, List.count_cons_of_ne heq]
      refine ih _ hrest ?_
      rw [m.read_bump_of_apart ((hl fld List.mem_cons_self).resolve_left heq), h]

theorem bumpAll_zero (l : List (ℕ × ℕ)) : m.bumpAll 0 l = m := by
  induction l with
  | nil => rfl
  | cons fld l ih =>
    rw [bumpAll, List.foldl_cons, bump_zero]
    exact ih

theorem bumpAll_apply_of_not_mem (δ : ℤ) {l : List (ℕ × ℕ)} {a : ℕ}
    (h : ∀ fld ∈ l, a < fld.1 ∨ fld.1 + fld.2 ≤ a) : m.bumpAll δ l a = m a := by
  induction l generalizing m with
  | nil => rfl
  | cons fld l ih =>
    rw [bumpAll, List.foldl_cons]
    exact (ih _ fun x hx => h x (List.mem_cons_of_mem fld hx)).trans
      (m.bump_apply_of_not_mem (h fld List.mem_cons_self) δ)

/-! ## Stores -/

/-- The memory after some stores, in turn. -/
def storeAll (l : List Store) : Mem := l.foldl (fun m s => m.write s.1 s.2) m

theorem storeAll_append (l l' : List Store) : m.storeAll (l ++ l') = (m.storeAll l).storeAll l' :=
  List.foldl_append

theorem storeAll_apply_of_not_has {l : List Store} {a : ℕ} (h : ∀ s ∈ l, ¬ s.Has a) :
    m.storeAll l a = m a := by
  induction l generalizing m with
  | nil => rfl
  | cons s l ih =>
    rw [storeAll, List.foldl_cons]
    refine (ih _ fun x hx => h x (List.mem_cons_of_mem s hx)).trans (m.write_apply_of_not_mem ?_)
    have hs := h s List.mem_cons_self
    rw [Store.Has] at hs
    omega

theorem read_storeAll_of_apart {l : List Store} {p n : ℕ}
    (h : ∀ s ∈ l, Apart s.1 s.2.length p n) : (m.storeAll l).read p n = m.read p n := by
  induction l generalizing m with
  | nil => rfl
  | cons s l ih =>
    rw [storeAll, List.foldl_cons]
    exact (ih _ fun x hx => h x (List.mem_cons_of_mem s hx)).trans
      (m.read_write_of_disjoint (h s List.mem_cons_self).symm)

/-- **A store that no other meets can be read back.** -/
theorem read_storeAll {l : List Store}
    (hl : l.Pairwise fun s t => Apart s.1 s.2.length t.1 t.2.length) {s : Store} (hs : s ∈ l) :
    (m.storeAll l).read s.1 s.2.length = s.2 := by
  induction l generalizing m with
  | nil => cases hs
  | cons t l ih =>
    rw [List.pairwise_cons] at hl
    rw [storeAll, List.foldl_cons]
    rcases List.mem_cons.mp hs with rfl | hmem
    · exact (read_storeAll_of_apart _ fun x hx => (hl.1 x hx).symm).trans (m.read_write_self s.1 s.2)
    · exact ih _ hl.2 hmem

end Mem

end Machinery
