import KlaussRuntime.Machinery.Cells
import KlaussRuntime.Machinery.Straight
import Mathlib.Data.List.FinRange

/-!
# Cpu/Core — the core's registers, stack and interrupts

What the context-switch code of the three kernels uses of the KlaussCPU: sixteen 64-bit registers and a 32-bit
stack pointer, `PUSH` and `POP` of eight bytes, `DI`, the word an interrupt pushes and `IRET` pops — the PC
in its low half, and above it the flags, the interrupt mask and the enable bit.

A context is what a thread sees of the core: registers, stack pointer and PC.  Its **frame** is the word of
an interrupt and the sixteen registers under it.  `Pushing.pushes` and `Popping.pops` say what the register
saves and restores all three kernels share do to a frame, and `Core.iret_of_words` what `IRET` makes of it.
-/

namespace KlaussRuntime.Cpu

open Machinery Function

abbrev Reg := Fin 16

scoped instance neZeroRegs : NeZero 16 := ⟨by decide⟩

scoped instance neZeroLines : NeZero 4 := ⟨by decide⟩

structure Core where
  regs : Reg → BitVec 64
  sp : Address
  flags : BitVec 7
  /-- the bit of `DI` and `EI` -/
  enabled : Bool
  /-- `INT_MASK`: one bit for each source -/
  mask : BitVec 4
  mem : Cells

/-- The instructions that go on to the next one. -/
inductive Plain
  | push (r : Reg)
  | pop (r : Reg)
  | di (r : Reg)
  | getsp (r : Reg)
  | setsp (r : Reg)
  | setr (r : Reg) (w : BitVec 64)
  | copy (d s : Reg)
  | ldidx32 (d b : Reg) (offset : Address)
  | ldidx64 (d b : Reg) (offset : Address)
  | stidx32 (v b : Reg) (offset : Address)
  | stidx64 (v b : Reg) (offset : Address)
  | memset32 (v a : Reg)
  | cmprv (r : Reg) (w : BitVec 64)

/-- An instruction; a jump goes to an index of its routine. -/
inductive Instr (F : Type*)
  | plain (i : Plain)
  | jmpe (target : ℕ)
  | jmpne (target : ℕ)
  | call (f : F)
  | iret

/-- Plain instructions, as code. -/
abbrev block {F : Type*} (is : List Plain) : List (Instr F) := is.map .plain

theorem call_of_append {F : Type*} {is : List Plain} {rest : List (Instr F)} {i : ℕ} {f : F}
    (h : (block is ++ rest)[i]? = some (.call f)) :
    ∃ k, i = is.length + k ∧ rest[k]? = some (.call f) := by
  rcases Nat.lt_or_ge i is.length with hlt | hge
  · rw [List.getElem?_append_left (by simpa using hlt), List.getElem?_map, Option.map_eq_some_iff] at h
    obtain ⟨ins, -, hins⟩ := h
    cases hins
  · rw [List.getElem?_append_right (by simpa using hge), List.length_map] at h
    exact ⟨i - is.length, by omega, h⟩

theorem call_of_jmpe {F : Type*} {target : ℕ} {rest : List (Instr F)} {i : ℕ} {f : F}
    (h : (.jmpe target :: rest)[i]? = some (.call f)) : ∃ k, i = k + 1 ∧ rest[k]? = some (.call f) := by
  cases i with
  | zero => cases h
  | succ k => exact ⟨k, rfl, h⟩

/-- `REG_INT_MASK`. -/
def intMask : Address := 0xF00F0000

/-- The high half of the word an interrupt pushes. -/
def frameHigh (enabled : Bool) (mask : BitVec 4) (flags : BitVec 7) : BitVec 32 :=
  0#20 ++ BitVec.ofBool (!enabled) ++ mask ++ flags

namespace Core

def set (c : Core) (r : Reg) (w : BitVec 64) : Core := { c with regs := update c.regs r w }

def pushWord (c : Core) (w : BitVec 64) : Core :=
  { c with sp := below c.sp 8, mem := c.mem.store64 (below c.sp 8) w }

/-- The address `offset` from where a register points. -/
def at_ (c : Core) (b : Reg) (offset : Address) : Address := (c.regs b).setWidth 32 + offset

theorem at_zero (c : Core) (b : Reg) : c.at_ b 0 = (c.regs b).setWidth 32 := BitVec.add_zero _

def exec : Plain → Core → Core
  | .push r, c => c.pushWord (c.regs r)
  | .pop r, c => { c.set r (c.mem.load64 c.sp) with sp := c.sp + 8 }
  | .di r, c => { c.set r (if c.enabled then 1 else 0) with enabled := false }
  | .getsp r, c => c.set r (c.sp.setWidth 64)
  | .setsp r, c => { c with sp := (c.regs r).setWidth 32 }
  | .setr r w, c => c.set r w
  | .copy d s, c => c.set d (c.regs s)
  | .ldidx32 d b offset, c => c.set d ((c.mem (c.at_ b offset)).setWidth 64)
  | .ldidx64 d b offset, c => c.set d (c.mem.load64 (c.at_ b offset))
  | .stidx32 v b offset, c => { c with mem := c.mem.store32 (c.at_ b offset) ((c.regs v).setWidth 32) }
  | .stidx64 v b offset, c => { c with mem := c.mem.store64 (c.at_ b offset) (c.regs v) }
  | .memset32 v a, c =>
    if (c.regs a).setWidth 32 = intMask then { c with mask := (c.regs v).setWidth 4 }
    else { c with mem := c.mem.store32 ((c.regs a).setWidth 32) ((c.regs v).setWidth 32) }
  | .cmprv r w, c => { c with flags := if c.regs r = w then c.flags ||| 1 else c.flags &&& ~~~1 }

/-- The flag `CMPRV` sets where its operands are equal. -/
def equal (c : Core) : Bool := c.flags.getLsbD 0

theorem set_same (c : Core) (r : Reg) (w : BitVec 64) : (c.set r w).regs r = w := update_self ..

theorem set_other (c : Core) {r r' : Reg} (w : BitVec 64) (h : r' ≠ r) : (c.set r w).regs r' = c.regs r' :=
  update_of_ne h ..

theorem equal_cmprv (c : Core) (r : Reg) (w : BitVec 64) :
    (exec (.cmprv r w) c).equal = decide (c.regs r = w) := by
  change (if c.regs r = w then c.flags ||| 1 else c.flags &&& ~~~1).getLsbD 0 = _
  split_ifs with h
  · simp [h]
  · simp [h]

/-- An interrupt of source `n` is taken when it comes. -/
def Open (c : Core) (n : Fin 4) : Prop := c.enabled = true ∧ c.mask.getLsbD n = true

instance (c : Core) (n : Fin 4) : Decidable (c.Open n) := inferInstanceAs (Decidable (_ ∧ _))

/-- What the hardware does on an interrupt of source `n` at `pc`. -/
def interrupt (c : Core) (n : Fin 4) (pc : Address) : Core :=
  { c.pushWord (frameHigh c.enabled c.mask c.flags ++ pc) with
    mask := c.mask &&& ~~~(BitVec.twoPow 4 n) }

/-- `IRET`, up to the PC. -/
def iret (c : Core) : Core :=
  let high := c.mem (c.sp + 4)
  { c with
    sp := c.sp + 8
    flags := high.extractLsb' 0 7
    mask := high.extractLsb' 7 4
    enabled := !high.getLsbD 11 }

end Core

/-- What a thread sees of the core. -/
@[ext] structure Ctx where
  regs : Reg → BitVec 64
  sp : Address
  pc : Address

def Core.ctx (c : Core) (pc : Address) : Ctx := ⟨c.regs, c.sp, pc⟩

/-! ## Frames -/

/-- The words of a context's frame, from the top. -/
def frame (c : Ctx) (high : BitVec 32) : List (BitVec 64) := (high ++ c.pc) :: List.ofFn c.regs

@[simp] theorem length_frame (c : Ctx) (high : BitVec 32) : (frame c high).length = 17 := by simp [frame]

theorem getElem?_frame_succ (c : Ctx) (high : BitVec 32) (r : Reg) :
    (frame c high)[r.val + 1]? = some (c.regs r) := by
  rw [frame, List.getElem?_cons_succ, List.getElem?_ofFn, dif_pos r.isLt]

theorem or_eq_append (pc : Address) {w : BitVec 64} {high : BitVec 32} (h : w.toNat = high.toNat <<< 32) :
    pc.setWidth 64 ||| w = high ++ pc := by
  refine BitVec.eq_of_toNat_eq ?_
  rw [BitVec.toNat_or, BitVec.toNat_setWidth_of_le (by decide), BitVec.toNat_append, Nat.or_comm, h]

@[simp] theorem setWidth_address (a : Address) : (a.setWidth 64).setWidth 32 = a := by
  rw [BitVec.setWidth_setWidth_of_le _ (by decide), BitVec.setWidth_eq]

/-! ## Saving the registers -/

/-- `x` is what `x₀` has become, with nothing changed outside `region` but registers, flags and the stack
pointer. -/
structure Since (x₀ : Core) (region : Address → Prop) (x : Core) : Prop where
  enabled : x.enabled = x₀.enabled
  mask : x.mask = x₀.mask
  mem : ∀ a, ¬ region a → x.mem a = x₀.mem a

theorem Since.refl (x : Core) (region : Address → Prop) : Since x region x := ⟨rfl, rfl, fun _ _ => rfl⟩

/-- The core is saving the context `c` and has pushed `j` of its registers. -/
structure Pushing (c : Ctx) (high : BitVec 32) (j : ℕ) (x : Core) : Prop where
  sp : x.sp = below c.sp (8 * (j + 1))
  words : Words x.mem c.sp ((frame c high).take (j + 1))
  regs : ∀ r : Reg, j ≤ r → x.regs r = c.regs r

/-- The core is restoring the context `c` and has `k` of its registers to pop. -/
structure Popping (c : Ctx) (high : BitVec 32) (k : ℕ) (x : Core) : Prop where
  sp : x.sp = below c.sp (8 * (k + 1))
  words : Words x.mem c.sp (frame c high)
  regs : ∀ r : Reg, k ≤ r → x.regs r = c.regs r

variable {c : Ctx} {high : BitVec 32} {x x₀ : Core} {P Q : Core → Prop}

theorem Pushing.push {r : Reg} (h : Pushing c high r x) :
    Pushing c high (r + 1) (Core.exec (.push r) x) ∧ Since x (Under c.sp 136) (Core.exec (.push r) x) := by
  have hsp : below x.sp 8 = below c.sp (8 * (r + 1 + 1)) := by
    rw [h.sp, below_below]
    rfl
  have hlen : ((frame c high).take (r + 1)).length = r + 1 := by
    rw [List.length_take, length_frame]
    omega
  have htake : (frame c high).take (r + 1 + 1) = (frame c high).take (r + 1) ++ [c.regs r] := by
    rw [List.take_add_one, getElem?_frame_succ]
    rfl
  have hwords := h.words.push (by rw [hlen]; omega) (c.regs r)
  rw [hlen, ← htake, ← hsp, ← h.regs r le_rfl] at hwords
  refine ⟨⟨hsp, hwords, fun r' hr' => h.regs r' (by omega)⟩, rfl, rfl, fun a ha => ?_⟩
  change x.mem.store64 (below x.sp 8) _ a = x.mem a
  rw [hsp]
  refine store64_below_apply _ fun ⟨k, hpos, hk, heq⟩ => ha ⟨k, hpos, by omega, heq⟩

theorem Popping.pop {r : Reg} (h : Popping c high (r + 1) x) :
    Popping c high r (Core.exec (.pop r) x) := by
  have hload : x.mem.load64 x.sp = c.regs r := by
    rw [h.sp]
    exact h.words _ _ (getElem?_frame_succ c high r)
  refine ⟨?_, h.words, fun r' hr' => ?_⟩
  · change x.sp + 8 = _
    rw [h.sp]
    exact below_add c.sp (8 * (r + 1)) 8
  · change update x.regs r _ r' = _
    rcases eq_or_ne r' r with rfl | hne
    · rw [update_self, hload]
    · rw [update_of_ne hne]
      have : r'.val ≠ r.val := fun heq => hne (Fin.ext heq)
      exact h.regs r' (by omega)

/-- `PUSH` of the registers from `j` on. -/
def pushes (j : ℕ) : List Plain := ((List.finRange 16).drop j).map .push

/-- `POP` of all registers, the last pushed first. -/
def pops : List Plain := (List.finRange 16).reverse.map .pop

theorem Since.trans {region : Address → Prop} {y : Core} (h : Since x₀ region x) (h' : Since x region y) :
    Since x₀ region y where
  enabled := h'.enabled.trans h.enabled
  mask := h'.mask.trans h.mask
  mem a ha := (h'.mem a ha).trans (h.mem a ha)

theorem drop_finRange {n i : ℕ} {r : Fin n} {rs : List (Fin n)} (h : r :: rs = (List.finRange n).drop i) :
    r.val = i ∧ rs = (List.finRange n).drop (i + 1) := by
  have hi : i < (List.finRange n).length := by
    by_contra hge
    rw [List.drop_eq_nil_of_le (by omega)] at h
    cases h
  rw [List.drop_eq_getElem_cons hi] at h
  obtain ⟨rfl, rfl⟩ := List.cons.inj h
  exact ⟨by simp, rfl⟩

/-- **The registers are pushed**, and nothing but the frame changes. -/
theorem Pushing.pushes {j : ℕ} (hj : j ≤ 16) (h : Pushing c high j x)
    (hP : ∀ y, Since x (Under c.sp 136) y → P y)
    (hQ : ∀ y, Pushing c high 16 y → Since x (Under c.sp 136) y → Q y) :
    Safely Core.exec P Q (pushes j) x := by
  refine Safely.each (fun rs y => ∃ i ≤ 16, rs = (List.finRange 16).drop i ∧ Pushing c high i y ∧
    Since x (Under c.sp 136) y) ⟨j, hj, rfl, h, Since.refl ..⟩ ?_ ?_
  · rintro r rs y ⟨i, hi, hrs, hpush, hsince⟩
    obtain ⟨rfl, rfl⟩ := drop_finRange hrs
    obtain ⟨hpush', hsince'⟩ := hpush.push
    exact ⟨hP y hsince, _, r.isLt, rfl, hpush', hsince.trans hsince'⟩
  · rintro y ⟨i, hi, hrs, hpush, hsince⟩
    have hlen := congrArg List.length hrs
    rw [List.length_drop, List.length_finRange, List.length_nil] at hlen
    obtain rfl : i = 16 := by omega
    exact hQ y hpush hsince

theorem reverse_take_finRange {n k : ℕ} {r : Fin n} {rs : List (Fin n)} (hk : k ≤ n)
    (h : r :: rs = ((List.finRange n).take k).reverse) :
    k = r.val + 1 ∧ rs = ((List.finRange n).take r).reverse := by
  cases k with
  | zero => simp at h
  | succ k =>
    have hget : (List.finRange n)[k]? = some ⟨k, hk⟩ := by
      simp [Nat.lt_of_succ_le hk]
    rw [List.take_add_one, hget, Option.toList_some, List.reverse_append, List.reverse_singleton,
      List.singleton_append] at h
    obtain ⟨rfl, rfl⟩ := List.cons.inj h
    exact ⟨rfl, rfl⟩

/-- **The registers are popped**, and nothing changes in memory. -/
theorem Popping.pops (h : Popping c high 16 x) (hP : ∀ y, Since x (fun _ => False) y → P y)
    (hQ : ∀ y, Popping c high 0 y → Since x (fun _ => False) y → Q y) :
    Safely Core.exec P Q pops x := by
  refine Safely.each (fun rs y => ∃ k ≤ 16, rs = ((List.finRange 16).take k).reverse ∧
    Popping c high k y ∧ Since x (fun _ => False) y) ⟨16, le_rfl, rfl, h, Since.refl ..⟩ ?_ ?_
  · rintro r rs y ⟨k, hk, hrs, hpop, hsince⟩
    obtain ⟨rfl, rfl⟩ := reverse_take_finRange hk hrs
    exact ⟨hP y hsince, r, r.isLt.le, rfl, hpop.pop, hsince.trans ⟨rfl, rfl, fun _ _ => rfl⟩⟩
  · rintro y ⟨k, hk, hrs, hpop, hsince⟩
    have hlen := congrArg List.length hrs
    rw [List.length_reverse, List.length_take, List.length_finRange, List.length_nil] at hlen
    obtain rfl : k = 0 := by omega
    exact hQ y hpop hsince

theorem words_patch {m : Cells} (h : Words m c.sp (frame c high)) (high' : BitVec 32) :
    Words (m.store32 (below c.sp 4) high') c.sp (frame c high') := by
  have hne : ∀ k, k < 2 ^ 32 → k ≠ 4 → m.store32 (below c.sp 4) high' (below c.sp k) = m (below c.sp k) :=
    fun k hk hk4 => Cells.store32_apply _ fun heq => hk4 (below_injective hk (by decide) heq)
  have htop : Words m c.sp [high ++ c.pc] := h.take 1
  intro i w hw
  have hi : i < 17 := by
    have := (List.getElem?_eq_some_iff.mp hw).1
    rwa [length_frame] at this
  cases i with
  | zero =>
    obtain rfl : high' ++ c.pc = w := Option.some.inj hw
    rw [Cells.load64, below_add_four c.sp 0, Cells.store32_same, hne _ (by decide) (by decide),
      htop.top.1]
  | succ i =>
    have hw' : (frame c high)[i + 1]? = some w := by
      rw [frame, List.getElem?_cons_succ] at hw ⊢
      exact hw
    rw [← h (i + 1) w hw']
    have hlow := hne (8 * (i + 1 + 1)) (by omega) (by omega)
    have hhigh := hne (8 * (i + 1) + 4) (by omega) (by omega)
    refine Cells.load64_congr hlow ?_
    rw [below_add_four]
    exact hhigh

/-- A frame's high half with which its thread runs on with interrupts of source `n` taken. -/
def Resumable (n : Fin 4) (high : BitVec 32) : Prop :=
  high.getLsbD 11 = false ∧ high.getLsbD (7 + n) = true

theorem Core.Open.resumable {n : Fin 4} (h : x.Open n) : Resumable n (frameHigh x.enabled x.mask x.flags) := by
  refine ⟨?_, ?_⟩
  · rw [frameHigh, BitVec.getLsbD_append, BitVec.getLsbD_append, BitVec.getLsbD_append, h.1]
    rfl
  · rw [frameHigh, BitVec.getLsbD_append, BitVec.getLsbD_append, if_neg (by omega),
      if_pos (by omega), Nat.add_sub_cancel_left, h.2]

theorem Core.not_open_interrupt (x : Core) (n : Fin 4) (pc : Address) : ¬ (x.interrupt n pc).Open n := by
  rintro ⟨-, hmask⟩
  change (x.mask &&& ~~~BitVec.twoPow 4 n).getLsbD n = true at hmask
  rw [BitVec.getLsbD_and, BitVec.getLsbD_not, BitVec.getLsbD_twoPow] at hmask
  simp at hmask

/-- **`IRET` restores the context** whose registers are back. -/
theorem iret_of_words (hregs : x.regs = c.regs) (hsp : x.sp = below c.sp 8)
    (hwords : Words x.mem c.sp [high ++ c.pc]) :
    x.iret.ctx (x.mem x.sp) = c ∧ ∀ n, Resumable n high → x.iret.Open n := by
  obtain ⟨hpc, hhigh⟩ := hwords.top
  have hhigh' : x.mem (x.sp + 4) = high := by
    rw [hsp, below_add_four c.sp 0]
    exact hhigh
  refine ⟨Ctx.ext hregs ?_ ?_, fun n hn => ⟨?_, ?_⟩⟩
  · change x.sp + 8 = c.sp
    rw [hsp]
    exact (below_add c.sp 0 8).trans (below_zero _)
  · change x.mem x.sp = c.pc
    rw [hsp, hpc]
  · change (!(x.mem (x.sp + 4)).getLsbD 11) = true
    rw [hhigh', hn.1]
    rfl
  · change ((x.mem (x.sp + 4)).extractLsb' 7 4).getLsbD n = true
    rw [hhigh', BitVec.getLsbD_extractLsb', hn.2, decide_eq_true n.isLt]
    rfl

end KlaussRuntime.Cpu
