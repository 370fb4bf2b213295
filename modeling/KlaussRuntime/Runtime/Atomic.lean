import KlaussRuntime.Machinery.Memory
import KlaussRuntime.Machinery.Sections

/-!
# Runtime/Atomic — the `__sync_*` libcalls

Every read-modify-write of an atomic object is a call: `irq_save`, a plain load, a plain store,
`irq_restore`.  The arithmetic is C's, on operands narrower than `int` promoted to it, and all arguments
come in 64-bit registers whose upper bits are undefined.

`Sync.new_eq_apply` says that promotion leaves no trace in the object, and `Sync.performs` what one call does
to the memory; `Sync.atomic` is the whole system, any contexts interrupting each other anywhere.
-/

namespace KlaussRuntime.Runtime

open Machinery

namespace Sync

/-- The size of an object. -/
inductive Size
  | one | two | four | eight
  deriving DecidableEq

def Size.bytes : Size → ℕ
  | .one => 1
  | .two => 2
  | .four => 4
  | .eight => 8

abbrev Size.bits (n : Size) : ℕ := 8 * n.bytes

/-- The operations of `SYNC_FETCH_AND`. -/
inductive Op
  | add | sub | and | or | xor | nand | max | min | umax | umin
  deriving DecidableEq

/-! ## The source's arithmetic -/

section Promotion

variable {w : ℕ}

/-- An operand of the unsigned type `T`, promoted: to `int` where that is wider. -/
def promote (x : BitVec w) : BitVec (max w 32) := x.setWidth _

/-- `(S)x`, promoted. -/
def promoteSigned (x : BitVec w) : BitVec (max w 32) := x.signExtend _

/-- `x < y` on promoted operands of `T`: `int`s, or `T` itself. -/
def lessPromoted (x y : BitVec w) : Bool :=
  if w < 32 then (promote x).slt (promote y) else (promote x).ult (promote y)

def lessSigned (x y : BitVec w) : Bool := (promoteSigned x).slt (promoteSigned y)

/-- `(T)(NEW)`. -/
def Op.new (op : Op) (old val : BitVec w) : BitVec w :=
  (match op with
    | .add => promote old + promote val
    | .sub => promote old - promote val
    | .and => promote old &&& promote val
    | .or => promote old ||| promote val
    | .xor => promote old ^^^ promote val
    | .nand => ~~~(promote old &&& promote val)
    | .max => if lessSigned val old then promote old else promote val
    | .min => if lessSigned old val then promote old else promote val
    | .umax => if lessPromoted val old then promote old else promote val
    | .umin => if lessPromoted old val then promote old else promote val).setWidth w

/-- What the operation is, on an object of `w` bits. -/
def Op.apply (op : Op) (old val : BitVec w) : BitVec w :=
  match op with
  | .add => old + val
  | .sub => old - val
  | .and => old &&& val
  | .or => old ||| val
  | .xor => old ^^^ val
  | .nand => ~~~(old &&& val)
  | .max => if val.toInt < old.toInt then old else val
  | .min => if old.toInt < val.toInt then old else val
  | .umax => if val.toNat < old.toNat then old else val
  | .umin => if old.toNat < val.toNat then old else val

@[simp] theorem setWidth_promote (x : BitVec w) : (promote x).setWidth w = x := by
  rw [promote, BitVec.setWidth_setWidth_of_le _ (le_max_left ..), BitVec.setWidth_eq]

theorem toInt_promoteSigned (x : BitVec w) : (promoteSigned x).toInt = x.toInt :=
  BitVec.toInt_signExtend_of_le (le_max_left ..)

theorem toNat_promote (x : BitVec w) : (promote x).toNat = x.toNat :=
  BitVec.toNat_setWidth_of_le (le_max_left ..)

theorem lessSigned_iff (x y : BitVec w) : lessSigned x y = true ↔ x.toInt < y.toInt := by
  rw [lessSigned, BitVec.slt_iff_toInt_lt, toInt_promoteSigned, toInt_promoteSigned]

/-- A promoted operand that is narrower than `int` is not negative there. -/
theorem toInt_promote (x : BitVec w) (h : w < 32) : (promote x).toInt = x.toNat := by
  have hlt : x.toNat < 2 ^ 31 := x.isLt.trans_le (Nat.pow_le_pow_right (by decide) (by omega))
  have hmax : max w 32 = 32 := max_eq_right h.le
  rw [BitVec.toInt_eq_toNat_of_lt, toNat_promote]
  rw [toNat_promote, hmax]
  omega

theorem lessPromoted_iff (x y : BitVec w) : lessPromoted x y = true ↔ x.toNat < y.toNat := by
  rw [lessPromoted]
  split_ifs with h
  · rw [BitVec.slt_iff_toInt_lt, toInt_promote x h, toInt_promote y h]
    exact Int.ofNat_lt
  · rw [BitVec.ult_iff_toNat_lt, toNat_promote, toNat_promote]

/-- **Promotion leaves no trace**: the object gets what the operation is on its own bits. -/
theorem new_eq_apply (op : Op) (old val : BitVec w) : op.new old val = op.apply old val := by
  have hle : w ≤ max w 32 := le_max_left ..
  cases op with
  | add => simp [Op.new, Op.apply, BitVec.setWidth_add _ _ hle]
  | sub =>
    refine BitVec.eq_sub_iff_add_eq.mpr ?_
    calc (promote old - promote val).setWidth w + val
        = (promote old - promote val).setWidth w + (promote val).setWidth w := by rw [setWidth_promote]
      _ = (promote old - promote val + promote val).setWidth w := (BitVec.setWidth_add _ _ hle).symm
      _ = old := by rw [BitVec.sub_add_cancel, setWidth_promote]
  | and => simp [Op.new, Op.apply]
  | or => simp [Op.new, Op.apply]
  | xor => simp [Op.new, Op.apply]
  | nand => simp [Op.new, Op.apply, BitVec.setWidth_not hle]
  | max | min =>
    simp only [Op.new, Op.apply, lessSigned_iff, apply_ite (BitVec.setWidth w), setWidth_promote]
  | umax | umin =>
    simp only [Op.new, Op.apply, lessPromoted_iff, apply_ite (BitVec.setWidth w), setWidth_promote]

end Promotion

/-! ## Objects -/

/-- `*p` of type `T`. -/
def load (m : Mem) (p : ℕ) (n : Size) : BitVec n.bits := BitVec.ofNat _ (leNat (m.read p n.bytes))

/-- `*p = v`. -/
def store (m : Mem) (p : ℕ) (n : Size) (v : BitVec n.bits) : Mem := m.write p (leBytes n.bytes v.toNat)

theorem load_store (m : Mem) (p : ℕ) (n : Size) (v : BitVec n.bits) : load (store m p n v) p n = v := by
  have hread := (m.read_write_self p (leBytes n.bytes v.toNat))
  rw [length_leBytes] at hread
  rw [load, store, hread, leNat_leBytes, show 256 ^ n.bytes = 2 ^ n.bits from (pow_mul 2 8 n.bytes).symm,
    Nat.mod_eq_of_lt v.isLt, BitVec.ofNat_toNat, BitVec.setWidth_eq]

theorem store_apply (m : Mem) (p : ℕ) (n : Size) (v : BitVec n.bits) {a : ℕ}
    (h : a < p ∨ p + n.bytes ≤ a) : store m p n v a = m a :=
  m.write_apply_of_not_mem (by rwa [length_leBytes])

/-! ## The calls -/

/-- The functions, with their value arguments. -/
inductive Function
  | fetchAnd (op : Op) (arg : BitVec 64)
  | lockTestAndSet (arg : BitVec 64)
  | valCompareAndSwap (expected desired : BitVec 64)
  deriving DecidableEq

structure Call where
  function : Function
  size : Size
  ptr : ℕ
  deriving DecidableEq

namespace Call

/-- The store of a call that has loaded `old`. -/
def storeNew (c : Call) (old : BitVec c.size.bits) (m : Mem) : Mem :=
  match c.function with
  | .fetchAnd op arg => store m c.ptr c.size (op.new old (arg.setWidth _))
  | .lockTestAndSet arg => store m c.ptr c.size (arg.setWidth _)
  | .valCompareAndSwap expected desired =>
    if old = expected.setWidth _ then store m c.ptr c.size (desired.setWidth _) else m

/-- What a call makes of an object that holds `old`; only the low bits of its arguments count. -/
def value (c : Call) (old : BitVec c.size.bits) : BitVec c.size.bits :=
  match c.function with
  | .fetchAnd op arg => op.apply old (arg.setWidth _)
  | .lockTestAndSet arg => arg.setWidth _
  | .valCompareAndSwap expected desired => if old = expected.setWidth _ then desired.setWidth _ else old

/-- **A call as one indivisible step**: it returns the zero-extended old value, the object gets the new
one, and nothing else changes. -/
structure Performs (c : Call) (m : Mem) (r : BitVec 64) (m' : Mem) : Prop where
  result : r = (load m c.ptr c.size).setWidth 64
  object : load m' c.ptr c.size = c.value (load m c.ptr c.size)
  others : ∀ a, a < c.ptr ∨ c.ptr + c.size.bytes ≤ a → m' a = m a

theorem load_storeNew (c : Call) (m : Mem) :
    load (c.storeNew (load m c.ptr c.size) m) c.ptr c.size = c.value (load m c.ptr c.size) := by
  rw [storeNew, value]
  cases c.function with
  | fetchAnd op arg => exact (load_store ..).trans (new_eq_apply ..)
  | lockTestAndSet arg => exact load_store ..
  | valCompareAndSwap expected desired =>
    by_cases heq : load m c.ptr c.size = expected.setWidth c.size.bits
    · simp only [if_pos heq, load_store]
    · simp only [if_neg heq]

theorem storeNew_apply (c : Call) (old : BitVec c.size.bits) (m : Mem) {a : ℕ}
    (h : a < c.ptr ∨ c.ptr + c.size.bytes ≤ a) : c.storeNew old m a = m a := by
  rw [storeNew]
  cases c.function with
  | fetchAnd op arg => exact store_apply _ _ _ _ h
  | lockTestAndSet arg => exact store_apply _ _ _ _ h
  | valCompareAndSwap expected desired =>
    dsimp only
    split_ifs
    · exact store_apply _ _ _ _ h
    · rfl

end Call

/-- The libcalls, as they run with interrupts disabled. -/
def libcalls : Routines Mem Call (BitVec 64) where
  Local c := BitVec c.size.bits
  load c m := load m c.ptr c.size
  store c old m := c.storeNew old m
  result _ old := old.setWidth 64

theorem performs (c : Call) (m : Mem) :
    c.Performs m (libcalls.result c (libcalls.load c m)) (libcalls.store c (libcalls.load c m) m) where
  result := rfl
  object := c.load_storeNew m
  others _ ha := c.storeNew_apply _ m ha

/-! ## The system -/

open Sections

variable {C : Type*} [DecidableEq C]

/-- **The libcalls are atomic.**  In every run of contexts that interrupt each other wherever interrupts are
enabled, the calls and the contexts' own accesses act one at a time, in an order that keeps each
context's; and every call leaves the enable bit as it was. -/
theorem atomic {init : Mem} {first : C} {enabled : Bool} {frame : C → Bool} {s : Core C libcalls}
    (hreach : Reaches Core.step anyStep (Core.start init first enabled frame) s) :
    (∃ order, Serial Call.Performs init order s.shared ∧
      ∀ c, own order c = s.done c ++ (s.pc c).pending) ∧
    ∀ k old, s.pc s.cur = .returning k old → s.enabled = s.entry s.cur :=
  ⟨serial_of_reaches performs hreach, fun _ _ hpc => enabled_of_returning hreach hpc⟩

/-- A task's byte increment, interrupted before it has disabled interrupts by a handler's exchange. -/
def interruptedAdd : List (Act Bool Mem Call) :=
  [.call ⟨.fetchAnd .add 0x3301, .one, 0⟩, .interrupt true, .call ⟨.lockTestAndSet 0x44ff, .one, 0⟩,
    .go, .go, .go, .go, .go, .switch false true, .go, .go, .go, .go]

theorem atomic_interruptedAdd : ∃ s : Core Bool libcalls,
    Reaches Core.step anyStep (Core.start (fun _ => 0) false true fun _ => true) s ∧ s.shared 0 = 0 ∧
    (∃ order, Serial Call.Performs (fun _ => 0) order s.shared ∧
      ∀ c, own order c = s.done c ++ (s.pc c).pending) ∧
    ∀ k old, s.pc s.cur = .returning k old → s.enabled = s.entry s.cur := by
  have hend : (runAll Core.step anyStep
      (Core.start (ρ := libcalls) (fun _ => 0) false true fun _ => true) interruptedAdd).map
      (fun s => s.shared 0) = some 0 := by decide +kernel
  obtain ⟨s, hrun, hs⟩ := Option.map_eq_some_iff.mp hend
  have hreach := Reaches.of_runAll _ hrun
  exact ⟨s, hreach, hs, atomic hreach⟩

end Sync

end KlaussRuntime.Runtime
