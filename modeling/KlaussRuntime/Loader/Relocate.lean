import KlaussRuntime.Machinery.Memory
import Mathlib.Tactic.IntervalCases

/-!
# Loader/Relocate — `arch_elf_relocate`, one relocation of an extension

Zephyr's loader copies an extension into memory and calls `arch_elf_relocate` for each of its relocations.  The
helpers of the loader give the place `loc` of the field and the address of the symbol; everything is
computed in 64 bits and stored little-endian.

With `S` the symbol, `A` the addend and `P` the place, each kind of field evaluates to `S + A` the way it is
used (`Relocated`): an address, a distance from the field, or a distance from the instruction that holds
it; a short call keeps its opcode.  A call that does not succeed stores nothing.
-/

namespace KlaussRuntime.Loader.Llext

open Machinery

/-! ## Fields in memory -/

def sysGetLe32 (m : Mem) (p : ℕ) : BitVec 32 := BitVec.ofNat 32 (leNat (m.read p 4))

def sysGetLe64 (m : Mem) (p : ℕ) : BitVec 64 := word (m.read p 8)

def sysPutLe32 (v : BitVec 32) (p : ℕ) (m : Mem) : Mem := m.write p (leBytes 4 v.toNat)

def sysPutLe64 (v : BitVec 64) (p : ℕ) (m : Mem) : Mem := m.write p (wordBytes v)

/-! ## The hook -/

/-- The relocation types. -/
inductive RelocType where
  | none
  | abs32
  | abs64
  | pcrel32
  | pc32
  | pc64
  | call18
  | unknown
deriving DecidableEq

/-- `ELF32_R_TYPE`. -/
def relocType (info : BitVec 32) : RelocType :=
  match info.toNat % 256 with
  | 0 => .none
  | 1 => .abs32
  | 2 => .abs64
  | 3 => .pcrel32
  | 4 => .pc32
  | 5 => .pc64
  | 6 => .call18
  | _ => .unknown

def klausscpuPcrelInsnBias : BitVec 64 := 4

def ENOEXEC : ℤ := 8

def ENOTSUP : ℤ := 134

/-- An entry, and what the loader's helpers answer for it. -/
structure Rela where
  info : BitVec 32
  addend : BitVec 32
  /-- `llext_get_reloc_instruction_location` -/
  loc : BitVec 64
  /-- the result of `llext_read_symbol` -/
  readSymbol : ℤ
  /-- the result of `llext_lookup_symbol`, and the address -/
  lookupSymbol : ℤ × BitVec 64

/-- `sym_base_addr + rel->r_addend`. -/
def Rela.target (r : Rela) : BitVec 64 := r.lookupSymbol.2 + r.addend.signExtend 64

def archElfRelocate (r : Rela) (m : Mem) : ℤ × Mem :=
  if relocType r.info = .none then (0, m)
  else if r.readSymbol ≠ 0 then (r.readSymbol, m)
  else if r.lookupSymbol.1 ≠ 0 then (r.lookupSymbol.1, m)
  else
    let p := r.loc.toNat
    match relocType r.info with
    | .none => (0, m)
    | .abs32 => (0, sysPutLe32 (r.target.setWidth 32) p m)
    | .abs64 => (0, sysPutLe64 r.target p m)
    | .pcrel32 => (0, sysPutLe32 ((r.target - r.loc + klausscpuPcrelInsnBias).setWidth 32) p m)
    | .pc32 => (0, sysPutLe32 ((r.target - r.loc).setWidth 32) p m)
    | .pc64 => (0, sysPutLe64 (r.target - r.loc) p m)
    | .call18 =>
      let disp := r.target - r.loc
      if disp &&& 3 ≠ 0 ∨ disp.toInt < -(1 <<< 19) ∨ disp.toInt ≥ 1 <<< 19 then (-ENOEXEC, m)
      else
        (0, sysPutLe32 (sysGetLe32 m p &&& ~~~0x3FFFF ||| (disp.sshiftRight 2).setWidth 32 &&& 0x3FFFF) p m)
    | .unknown => (-ENOTSUP, m)

/-! ## What a relocation is for -/

/-- How many bytes a field has. -/
def RelocType.size : RelocType → ℕ
  | .none | .unknown => 0
  | .abs64 | .pc64 => 8
  | .abs32 | .pcrel32 | .pc32 | .call18 => 4

/-- Where the short call in this word, at `p`, goes: its low 18 bits are a signed distance in words. -/
def callTarget (p : ℤ) (insn : BitVec 32) : ℤ := p + 4 * (insn.setWidth 18).toInt

/-- What the field at `p` means for the target `T = S + A`, the way each type is used: as an address, as a
distance from the instruction, which begins 4 bytes before its field, as a distance from the field, or as a
short call that keeps its opcode. -/
def Reaching (type : RelocType) (T : ℤ) (p : ℕ) (m m' : Mem) : Prop :=
  match type with
  | .none | .unknown => True
  | .abs32 => ((sysGetLe32 m' p).toNat : ℤ) = T % 2 ^ 32
  | .abs64 => (sysGetLe64 m' p).toInt = T
  | .pcrel32 => ((p : ℤ) - 4 + (sysGetLe32 m' p).toNat) % 2 ^ 32 = T % 2 ^ 32
  | .pc32 => (sysGetLe32 m' p).toInt = (T - p).bmod (2 ^ 32)
  | .pc64 => (sysGetLe64 m' p).toInt = T - p
  | .call18 => callTarget p (sysGetLe32 m' p) = T ∧ sysGetLe32 m' p >>> 18 = sysGetLe32 m p >>> 18

/-- **The field reaches its target**, and nothing else was stored. -/
structure Relocated (type : RelocType) (T : ℤ) (p : ℕ) (m m' : Mem) : Prop where
  field : Reaching type T p m m'
  outside : ∀ a, a < p ∨ p + type.size ≤ a → m' a = m a

/-- A short call at `p` can go there. -/
def InReach (T : ℤ) (p : ℕ) : Prop := 4 ∣ T - p ∧ -2 ^ 19 ≤ T - p ∧ T - p < 2 ^ 19

/-- `S + A`. -/
def Rela.goal (r : Rela) : ℤ := r.lookupSymbol.2.toNat + r.addend.toInt

/-- **Relocations reach their targets**: a call that returns 0 relocates, any other stores nothing, and which
it is depends on the symbol, the type and the reach of a short call. -/
structure Relocates (r : Rela) (m : Mem) : Prop where
  relocated : (archElfRelocate r m).1 = 0 →
    Relocated (relocType r.info) r.goal r.loc.toNat m (archElfRelocate r m).2
  unchanged : (archElfRelocate r m).1 ≠ 0 → (archElfRelocate r m).2 = m
  succeeds : (archElfRelocate r m).1 = 0 ↔ relocType r.info = .none ∨
    r.readSymbol = 0 ∧ r.lookupSymbol.1 = 0 ∧ relocType r.info ≠ .unknown ∧
      (relocType r.info = .call18 → InReach r.goal r.loc.toNat)
  /-- instructions lie on words -/
  misaligned : relocType r.info = .call18 → 4 ∣ r.loc.toNat → ¬ (4 : ℤ) ∣ r.goal → (archElfRelocate r m).1 ≠ 0

theorem sysGetLe32_put (v : BitVec 32) (p : ℕ) (m : Mem) : sysGetLe32 (sysPutLe32 v p m) p = v := by
  have hread := m.read_write_self p (leBytes 4 v.toNat)
  rw [length_leBytes] at hread
  rw [sysGetLe32, sysPutLe32, hread, leNat_leBytes]
  exact BitVec.eq_of_toNat_eq (by rw [BitVec.toNat_ofNat]; have := v.isLt; omega)

theorem sysGetLe64_put (v : BitVec 64) (p : ℕ) (m : Mem) : sysGetLe64 (sysPutLe64 v p m) p = v := by
  have hread := m.read_write_self p (wordBytes v)
  rw [length_wordBytes] at hread
  rw [sysGetLe64, sysPutLe64, hread, word_wordBytes]

theorem sysPutLe32_outside (v : BitVec 32) (m : Mem) {p a : ℕ} (h : a < p ∨ p + 4 ≤ a) :
    sysPutLe32 v p m a = m a :=
  m.write_apply_of_not_mem (by rwa [length_leBytes])

theorem sysPutLe64_outside (v : BitVec 64) (m : Mem) {p a : ℕ} (h : a < p ∨ p + 8 ≤ a) :
    sysPutLe64 v p m a = m a :=
  m.write_apply_of_not_mem (by rwa [length_wordBytes])

/-! ## The sums

Every sum of the hook is the sum of the integers, cut to 64 bits: nothing is lost where that fits, and the
narrower fields are the same integer cut further. -/

theorem target_eq (r : Rela) : r.target = BitVec.ofInt 64 r.goal := by
  rw [Rela.target, Rela.goal, BitVec.ofInt_add, BitVec.ofInt_natCast, BitVec.ofNat_toNat, BitVec.setWidth_eq]
  rfl

theorem target_sub_eq (r : Rela) : r.target - r.loc = BitVec.ofInt 64 (r.goal - r.loc.toNat) := by
  rw [Int.sub_eq_add_neg, BitVec.ofInt_add, BitVec.ofInt_neg, ← target_eq, BitVec.ofInt_natCast,
    BitVec.ofNat_toNat, BitVec.setWidth_eq, BitVec.sub_eq_add_neg]

theorem setWidth_ofInt {v : ℕ} (hv : v ≤ 64) (z : ℤ) : (BitVec.ofInt 64 z).setWidth v = BitVec.ofInt v z := by
  refine BitVec.eq_of_toNat_eq ?_
  have hdvd : ((2 ^ v : ℕ) : ℤ) ∣ ((2 ^ 64 : ℕ) : ℤ) := Int.natCast_dvd_natCast.mpr (Nat.pow_dvd_pow 2 hv)
  have hpos : (0 : ℤ) ≤ z % (2 ^ 64 : ℕ) := Int.emod_nonneg z (by decide)
  rw [BitVec.toNat_setWidth, BitVec.toNat_ofInt, BitVec.toNat_ofInt, ← Int.emod_emod_of_dvd z hdvd,
    Int.toNat_emod hpos (Int.natCast_nonneg _), Int.toNat_natCast]

theorem toInt_ofInt_64 {z : ℤ} (h : -2 ^ 63 ≤ z) (h' : z < 2 ^ 63) : (BitVec.ofInt 64 z).toInt = z := by
  rw [BitVec.toInt_ofInt]
  exact Int.bmod_eq_of_le (by omega) (by omega)

theorem and_three_eq_zero_iff (x : BitVec 64) : x &&& 3 = 0 ↔ (4 : ℤ) ∣ x.toInt := by
  have hmod : x &&& 3 = 0 ↔ x.toNat % 4 = 0 := by
    rw [← BitVec.toNat_inj, BitVec.toNat_and]
    exact (Nat.and_two_pow_sub_one_eq_mod x.toNat 2) ▸ Iff.rfl
  rw [hmod, BitVec.toInt_eq_toNat_cond]
  split <;> omega

/-! ## The word of a short call -/

theorem patch_ushiftRight (w d : BitVec 32) : (w &&& ~~~0x3FFFF ||| d &&& 0x3FFFF) >>> 18 = w >>> 18 := by
  refine BitVec.eq_of_getLsbD_eq fun i hi => ?_
  simp only [BitVec.getLsbD_ushiftRight, BitVec.getLsbD_or, BitVec.getLsbD_and, BitVec.getLsbD_not]
  interval_cases i <;> simp

theorem patch_setWidth (w d : BitVec 32) :
    (w &&& ~~~0x3FFFF ||| d &&& 0x3FFFF).setWidth 18 = d.setWidth 18 := by
  refine BitVec.eq_of_getLsbD_eq fun i hi => ?_
  simp only [BitVec.getLsbD_setWidth, BitVec.getLsbD_or, BitVec.getLsbD_and, BitVec.getLsbD_not]
  interval_cases i <;> simp

/-! ## One relocation -/

variable {r : Rela} {m : Mem}

theorem relocated_abs32 (r : Rela) (m : Mem) :
    Relocated .abs32 r.goal r.loc.toNat m (sysPutLe32 (r.target.setWidth 32) r.loc.toNat m) where
  field := by
    rw [Reaching, sysGetLe32_put, target_eq, setWidth_ofInt (by decide), BitVec.toNat_ofInt]
    omega
  outside _ h := sysPutLe32_outside _ m h

theorem relocated_pcrel32 (r : Rela) (m : Mem) :
    Relocated .pcrel32 r.goal r.loc.toNat m
      (sysPutLe32 ((r.target - r.loc + klausscpuPcrelInsnBias).setWidth 32) r.loc.toNat m) where
  field := by
    have hbias : r.target - r.loc + klausscpuPcrelInsnBias = BitVec.ofInt 64 (r.goal - r.loc.toNat + 4) := by
      rw [BitVec.ofInt_add, ← target_sub_eq]
      rfl
    rw [Reaching, sysGetLe32_put, hbias, setWidth_ofInt (by decide), BitVec.toNat_ofInt]
    omega
  outside _ h := sysPutLe32_outside _ m h

theorem relocated_pc32 (r : Rela) (m : Mem) :
    Relocated .pc32 r.goal r.loc.toNat m (sysPutLe32 ((r.target - r.loc).setWidth 32) r.loc.toNat m) where
  field := by rw [Reaching, sysGetLe32_put, target_sub_eq, setWidth_ofInt (by decide), BitVec.toInt_ofInt]
  outside _ h := sysPutLe32_outside _ m h

/-- The addresses are those of a 32-bit bus. -/
structure Rela.Low (r : Rela) : Prop where
  symbol : r.lookupSymbol.2.toNat < 2 ^ 32
  loc : r.loc.toNat < 2 ^ 32

theorem Rela.goal_bounds (r : Rela) (h : r.Low) : -2 ^ 31 ≤ r.goal ∧ r.goal < 2 ^ 33 := by
  have hlo := BitVec.le_toInt r.addend
  have hhi := @BitVec.toInt_lt _ r.addend
  have hsym := h.symbol
  rw [Rela.goal]
  omega

theorem toInt_target (h : r.Low) : r.target.toInt = r.goal := by
  have hgoal := r.goal_bounds h
  rw [target_eq]
  exact toInt_ofInt_64 (by omega) (by omega)

theorem toInt_target_sub (h : r.Low) : (r.target - r.loc).toInt = r.goal - r.loc.toNat := by
  have hgoal := r.goal_bounds h
  have hloc := h.loc
  rw [target_sub_eq]
  exact toInt_ofInt_64 (by omega) (by omega)

theorem relocated_abs64 (m : Mem) (h : r.Low) :
    Relocated .abs64 r.goal r.loc.toNat m (sysPutLe64 r.target r.loc.toNat m) where
  field := by rw [Reaching, sysGetLe64_put, toInt_target h]
  outside _ h := sysPutLe64_outside _ m h

theorem relocated_pc64 (m : Mem) (h : r.Low) :
    Relocated .pc64 r.goal r.loc.toNat m (sysPutLe64 (r.target - r.loc) r.loc.toNat m) where
  field := by rw [Reaching, sysGetLe64_put, toInt_target_sub h]
  outside _ h := sysPutLe64_outside _ m h

/-- **The reach check** is exact. -/
theorem reach_iff (h : r.Low) :
    ¬ (r.target - r.loc &&& 3 ≠ 0 ∨ (r.target - r.loc).toInt < -(1 <<< 19) ∨
        (r.target - r.loc).toInt ≥ 1 <<< 19) ↔
      InReach r.goal r.loc.toNat := by
  rw [ne_eq, and_three_eq_zero_iff, toInt_target_sub h, InReach,
    show ((1 <<< 19 : ℕ) : ℤ) = 2 ^ 19 from rfl]
  omega

theorem toInt_setWidth_words (h : r.Low) (hreach : InReach r.goal r.loc.toNat) :
    4 * ((((r.target - r.loc).sshiftRight 2).setWidth 32).setWidth 18).toInt = r.goal - r.loc.toNat := by
  obtain ⟨⟨k, hk⟩, hlo, hhi⟩ := hreach
  have hword : (r.target - r.loc).sshiftRight 2 = BitVec.ofInt 64 k := by
    refine BitVec.eq_of_toInt_eq ?_
    rw [BitVec.toInt_sshiftRight, toInt_target_sub h, toInt_ofInt_64 (by omega) (by omega), hk,
      Int.shiftRight_eq_div_pow]
    omega
  rw [hword, setWidth_ofInt (by decide), ← setWidth_ofInt (show 32 ≤ 64 by decide), BitVec.setWidth_setWidth_of_le _ (by decide),
    setWidth_ofInt (by decide), BitVec.toInt_ofInt, Int.bmod_eq_of_le (by omega) (by omega), hk]

theorem relocated_call18 (m : Mem) (h : r.Low) (hreach : InReach r.goal r.loc.toNat) :
    Relocated .call18 r.goal r.loc.toNat m
      (sysPutLe32 (sysGetLe32 m r.loc.toNat &&& ~~~0x3FFFF |||
        ((r.target - r.loc).sshiftRight 2).setWidth 32 &&& 0x3FFFF) r.loc.toNat m) where
  field := by
    rw [Reaching, sysGetLe32_put]
    refine ⟨?_, patch_ushiftRight _ _⟩
    rw [callTarget, patch_setWidth, toInt_setWidth_words h hreach]
    omega
  outside _ h := sysPutLe32_outside _ m h

/-- **What one call does**: nothing, for no relocation; an error that stores nothing; or the field. -/
theorem archElfRelocate_cases (m : Mem) (h : r.Low) :
    (relocType r.info = .none ∧ archElfRelocate r m = (0, m)) ∨
    (∃ e ≠ 0, archElfRelocate r m = (e, m) ∧ relocType r.info ≠ .none ∧
      (r.readSymbol ≠ 0 ∨ r.lookupSymbol.1 ≠ 0 ∨ relocType r.info = .unknown ∨
        relocType r.info = .call18 ∧ ¬ InReach r.goal r.loc.toNat)) ∨
    (∃ m', archElfRelocate r m = (0, m') ∧ r.readSymbol = 0 ∧ r.lookupSymbol.1 = 0 ∧
      relocType r.info ≠ .unknown ∧ (relocType r.info = .call18 → InReach r.goal r.loc.toNat) ∧
      Relocated (relocType r.info) r.goal r.loc.toNat m m') := by
  by_cases hnone : relocType r.info = .none
  · exact .inl ⟨hnone, if_pos hnone⟩
  refine .inr ?_
  by_cases hread : r.readSymbol ≠ 0
  · exact .inl ⟨_, hread, by rw [archElfRelocate, if_neg hnone, if_pos hread], hnone, .inl hread⟩
  by_cases hfound : r.lookupSymbol.1 ≠ 0
  · exact .inl ⟨_, hfound, by rw [archElfRelocate, if_neg hnone, if_neg hread, if_pos hfound], hnone,
      .inr (.inl hfound)⟩
  rw [archElfRelocate, if_neg hnone, if_neg hread, if_neg hfound]
  rw [not_not] at hread hfound
  cases htype : relocType r.info with
  | none => exact absurd htype hnone
  | abs32 => exact .inr ⟨_, rfl, hread, hfound, nofun, nofun, relocated_abs32 r m⟩
  | abs64 => exact .inr ⟨_, rfl, hread, hfound, nofun, nofun, relocated_abs64 m h⟩
  | pcrel32 => exact .inr ⟨_, rfl, hread, hfound, nofun, nofun, relocated_pcrel32 r m⟩
  | pc32 => exact .inr ⟨_, rfl, hread, hfound, nofun, nofun, relocated_pc32 r m⟩
  | pc64 => exact .inr ⟨_, rfl, hread, hfound, nofun, nofun, relocated_pc64 m h⟩
  | unknown => exact .inl ⟨_, by decide, rfl, nofun, .inr (.inr (.inl rfl))⟩
  | call18 =>
    dsimp only
    split_ifs with hreach
    · have hfar : ¬ InReach r.goal r.loc.toNat := fun hin => (reach_iff h).mpr hin hreach
      exact .inl ⟨_, by decide, rfl, nofun, .inr (.inr (.inr ⟨rfl, hfar⟩))⟩
    · have hin := (reach_iff h).mp hreach
      exact .inr ⟨_, rfl, hread, hfound, nofun, fun _ => hin, relocated_call18 m h hin⟩

/-- **Extension relocations make every reference reach its target.** -/
theorem relocates (r : Rela) (m : Mem) (h : r.Low) : Relocates r m := by
  obtain ⟨hnone, heq⟩ | ⟨e, he, heq, hnone, hwhy⟩ | ⟨m', heq, hread, hfound, hknown, hcall, hrel⟩ :=
    archElfRelocate_cases m h
  · exact
      { relocated := fun _ => by
          rw [heq, hnone]
          exact ⟨trivial, fun _ _ => rfl⟩
        unchanged := fun hne => absurd (by rw [heq]) hne
        succeeds := ⟨fun _ => .inl hnone, fun _ => by rw [heq]⟩
        misaligned := fun htype => absurd (hnone.symm.trans htype) nofun }
  · exact
      { relocated := fun hzero => absurd (by rwa [heq] at hzero) he
        unchanged := fun _ => by rw [heq]
        succeeds := by
          rw [heq]
          refine ⟨fun hzero => absurd hzero he, ?_⟩
          rintro (hnone' | ⟨hread, hfound, hknown, hcall⟩)
          · exact absurd hnone' hnone
          · obtain hw | hw | hw | ⟨htype, hfar⟩ := hwhy
            · exact absurd hread hw
            · exact absurd hfound hw
            · exact absurd hw hknown
            · exact absurd (hcall htype) hfar
        misaligned := fun _ _ _ => by rwa [heq] }
  · exact
      { relocated := fun _ => by rwa [heq]
        unchanged := fun hne => absurd (by rw [heq]) hne
        succeeds := by
          rw [heq]
          exact ⟨fun _ => .inr ⟨hread, hfound, hknown, hcall⟩, fun _ => rfl⟩
        misaligned := fun htype hword hoff => by
          obtain ⟨hdvd, -, -⟩ := hcall htype
          omega }

/-- A short call at `0x2000` to `0x1000`, over a word of ones. -/
def shortCall : Rela where
  info := 0x106
  addend := 0
  loc := 0x2000
  readSymbol := 0
  lookupSymbol := (0, 0x1000)

theorem relocates_shortCall :
    shortCall.Low ∧ Relocates shortCall (fun _ => 0xff) ∧ (archElfRelocate shortCall fun _ => 0xff).1 = 0 ∧
      sysGetLe32 (archElfRelocate shortCall fun _ => 0xff).2 0x2000 = 0xfffffc00 := by
  have hlow : shortCall.Low := ⟨by decide, by decide⟩
  exact ⟨hlow, relocates shortCall _ hlow, rfl, by decide +kernel⟩

end KlaussRuntime.Loader.Llext
