import KlaussRuntime.Machinery.Heap
import KlaussRuntime.Machinery.Machine
import Mathlib.Algebra.Ring.Nat
import Mathlib.Data.List.FinRange

/-!
# Vnc/IndexedBuffers — the indexed buffers when memory runs out

`Vnc/VgaOut` follows the buffers of `vga_out.c` while every allocation succeeds.  Here each may fail: a call
is one step, and with it come the three answers `k_aligned_alloc` has for `idx_alloc`.  The answers that are
not asked for do not matter, and an answer that is the address of a live buffer is none of an allocator.

Whatever fails, every entry of `idx_buf` is a live buffer, and so nothing is freed twice and nothing freed is
presented (`Vga.Sound`).  That no buffer is lost, and that all have the geometry recorded (`Vga.Exact`), needs
that a failure comes with the first buffer or not at all: with a later one the first, already allocated, is
forgotten.  And a first buffer freed in vain must not be the one presented last, since `idx_last` stays.
-/

namespace KlaussRuntime.Vnc.Indexed

open Machinery Function

def IDX_NBUF : ℕ := 3

instance neZeroNbuf : NeZero IDX_NBUF := ⟨by decide⟩

def VGA_SCREEN_H : Int32 := 480

def ENOMEM : ℤ := 12

def ENODEV : ℤ := 19

def EINVAL : ℤ := 22

/-- A width and a height, of C's type `int`. -/
abbrev Geometry := Int32 × Int32

/-- `idx_buf`, and the heap it was allocated from. -/
structure Pool where
  heap : Heap Geometry
  idxBuf : Fin IDX_NBUF → Option ℕ

/-- What is scanned out: the RGB framebuffer, or indexed frames with this base and geometry. -/
inductive Scan where
  | fb
  | indexed (base : ℕ) (geometry : Geometry)

structure Vga extends Pool where
  idxLast : Option ℕ
  idxW : Int32
  idxH : Int32
  idxActive : Bool
  scan : Scan
  /-- ghost: what was presented while no buffer was live there -/
  presentedFreed : List ℕ

def Vga.init : Vga := ⟨⟨Heap.empty, fun _ => none⟩, none, 0, 0, false, .fb, []⟩

/-- What `k_aligned_alloc` answers for each buffer. -/
abbrev Answers := Fin IDX_NBUF → Option ℕ

/-- The first test of `idx_alloc`; the product can wrap around. -/
def badGeometry (w h : Int32) : Prop :=
  (w ≠ 320 ∧ w ≠ 640) ∨ h ≤ 0 ∨ h * (if w = 320 then 2 else 1) > VGA_SCREEN_H

instance (w h : Int32) : Decidable (badGeometry w h) := inferInstanceAs (Decidable (_ ∨ _ ∨ _))

namespace Pool

/-- `k_free(idx_buf[i])`, and the entry is written next. -/
def free (p : Pool) (i : Fin IDX_NBUF) : Pool :=
  ⟨p.heap.release (p.idxBuf i), update p.idxBuf i none⟩

def fill (p : Pool) (i : Fin IDX_NBUF) (b : ℕ) (g : Geometry) : Pool :=
  ⟨p.heap.alloc b g, update p.idxBuf i (some b)⟩

/-- The loop of `idx_alloc`, over the indices still to come. -/
def allocFrom (g : Geometry) (answers : Answers) : List (Fin IDX_NBUF) → Pool → Option (ℤ × Pool)
  | [], p => some (0, p)
  | i :: rest, p =>
    match answers i with
    | none => some (- ENOMEM, ⟨(p.free i).heap, update (p.free i).idxBuf 0 none⟩)
    | some b =>
      if (p.free i).heap.live b = none then allocFrom g answers rest ((p.free i).fill i b g) else none

end Pool

namespace Vga

def showFb (s : Vga) : Vga := { s with idxActive := false, scan := .fb }

/-- `idx_alloc` goes on to its loop. -/
def Reallocates (s : Vga) (w h : Int32) : Prop :=
  ¬ badGeometry w h ∧ ¬ (s.idxBuf 0 ≠ none ∧ w = s.idxW ∧ h = s.idxH)

instance (s : Vga) (w h : Int32) : Decidable (s.Reallocates w h) := inferInstanceAs (Decidable (_ ∧ _))

/-- A new geometry: stop scanning old buffers. -/
def stopScan (s : Vga) : Vga := if s.idxActive then s.showFb else s

/-- The loop of `idx_alloc` has ended. -/
def loopDone (s : Vga) (w h : Int32) (r : ℤ × Pool) : ℤ × Vga :=
  (r.1, if r.1 = 0 then { s with toPool := r.2, idxW := w, idxH := h, idxLast := none }
    else { s with toPool := r.2 })

def idxAlloc (s : Vga) (w h : Int32) (answers : Answers) : Option (ℤ × Vga) :=
  if badGeometry w h then some (- EINVAL, s)
  else if s.idxBuf 0 ≠ none ∧ w = s.idxW ∧ h = s.idxH then some (0, s)
  else (s.stopScan.toPool.allocFrom (w, h) answers (List.finRange IDX_NBUF)).map (s.stopScan.loopDone w h)

/-- The loop of `vga_out_indexed_buffer`: the first entry that is not the last presented, nor on the screen
while indexed frames are shown. -/
def pick (s : Vga) (onScreen : BitVec 32) : Option ℕ :=
  (((List.finRange IDX_NBUF).map s.idxBuf).find? fun b =>
    b ≠ s.idxLast ∧ (s.idxActive = false ∨ BitVec.ofNat 32 (b.getD 0) ≠ onScreen)).getD (s.idxBuf 0)

/-- `vga_out_indexed_buffer`; `onScreen` is what `FB_ACTIVE` reads as. -/
def indexedBuffer (vgaOk : Bool) (s : Vga) (w h : Int32) (answers : Answers) (onScreen : BitVec 32) :
    Option (Option ℕ × Vga) :=
  if ¬ vgaOk then some (none, s)
  else (s.idxAlloc w h answers).map fun r => (if r.1 ≠ 0 then none else r.2.pick onScreen, r.2)

/-- `buf` is one of `idx_buf`. -/
def Ours (s : Vga) (b : ℕ) : Prop := ∃ i, s.idxBuf i = some b

instance (s : Vga) (b : ℕ) : Decidable (s.Ours b) := inferInstanceAs (Decidable (∃ i, s.idxBuf i = some b))

/-- The scan-out is programmed with `b`: the mode, or only the base if it is set. -/
def program (s : Vga) (b : ℕ) : Vga :=
  { s with
    idxActive := true
    idxLast := some b
    scan := match s.idxActive, s.scan with
      | true, .indexed _ g => .indexed b g
      | _, _ => .indexed b (s.idxW, s.idxH)
    presentedFreed := if s.heap.live b = none then b :: s.presentedFreed else s.presentedFreed }

def presentIndexed (vgaOk : Bool) (s : Vga) (buf : Option ℕ) : ℤ × Vga :=
  if ¬ vgaOk then (- ENODEV, s)
  else
    match buf with
    | none => (- EINVAL, s)
    | some b => if s.Ours b then (0, s.program b) else (- EINVAL, s)

def showIndexed (vgaOk : Bool) (s : Vga) (w h : Int32) (answers : Answers) (onScreen : BitVec 32) :
    Option (ℤ × Vga) :=
  if ¬ vgaOk then some (- ENODEV, s)
  else (s.indexedBuffer vgaOk w h answers onScreen).map fun r =>
    match r.1 with
    | none => (if r.2.idxBuf 0 = none then - ENOMEM else - EINVAL, r.2)
    | some b => r.2.presentIndexed vgaOk (some b)

end Vga

inductive Call where
  | indexedBuffer (w h : Int32) (answers : Answers) (onScreen : BitVec 32)
  | presentIndexed (buf : Option ℕ)
  | showIndexed (w h : Int32) (answers : Answers) (onScreen : BitVec 32)
  | showFb

/-- A call, and its answers; `vgaOk` is whether there is a controller. -/
def Vga.step (vgaOk : Bool) (s : Vga) : Call → Option Vga
  | .indexedBuffer w h answers onScreen => (s.indexedBuffer vgaOk w h answers onScreen).map Prod.snd
  | .presentIndexed buf => some (s.presentIndexed vgaOk buf).2
  | .showIndexed w h answers onScreen => (s.showIndexed vgaOk w h answers onScreen).map Prod.snd
  | .showFb => some (if vgaOk then s.showFb else s)

/-! ## The loop of `idx_alloc` -/

namespace Pool

/-- Every entry is a live buffer of its own. -/
def Sound (p : Pool) : Prop := ∃ kind, p.heap.Points p.idxBuf kind

variable {p p' : Pool} {kind : Fin IDX_NBUF → Geometry} {g : Geometry} {answers : Answers}
  {l : List (Fin IDX_NBUF)} {i : Fin IDX_NBUF} {b : ℕ} {rc : ℤ}

theorem points_fill (hp : p.heap.Points p.idxBuf kind) (hb : (p.free i).heap.live b = none) :
    ((p.free i).fill i b g).heap.Points ((p.free i).fill i b g).idxBuf (update kind i g) :=
  (hp.release i).alloc (update_self ..) hb

theorem covers_fill (hc : p.heap.Covers p.idxBuf) :
    ((p.free i).fill i b g).heap.Covers ((p.free i).fill i b g).idxBuf :=
  (hc.release i).alloc (update_self ..)

/-- **Wherever the loop ends**, the entries are live buffers. -/
theorem sound_allocFrom (hp : p.Sound) (h : p.allocFrom g answers l = some (rc, p')) : p'.Sound := by
  induction l generalizing p with
  | nil =>
    obtain ⟨-, rfl⟩ := Prod.mk.inj (Option.some.inj h)
    exact hp
  | cons i rest ih =>
    obtain ⟨kind, hp⟩ := hp
    rw [allocFrom] at h
    split at h
    · obtain ⟨-, rfl⟩ := Prod.mk.inj (Option.some.inj h)
      exact ⟨kind, (hp.release i).clear 0⟩
    · rw [Option.ite_none_right_eq_some] at h
      exact ih ⟨_, points_fill hp h.1⟩ h.2

/-- **A loop without a failure** returns 0, makes every buffer it comes to anew and loses none. -/
theorem allocFrom_of_some (hall : ∀ i ∈ l, answers i ≠ none) (hp : p.heap.Points p.idxBuf kind)
    (hc : p.heap.Covers p.idxBuf) (h : p.allocFrom g answers l = some (rc, p')) :
    rc = 0 ∧ p'.heap.Points p'.idxBuf (fun i => if i ∈ l then g else kind i) ∧
      p'.heap.Covers p'.idxBuf := by
  induction l generalizing p kind with
  | nil =>
    cases h
    exact ⟨rfl, by simpa using hp, hc⟩
  | cons i rest ih =>
    obtain ⟨b, hb⟩ := Option.ne_none_iff_exists'.mp (hall i (List.mem_cons_self ..))
    rw [allocFrom, hb] at h
    dsimp only at h
    rw [Option.ite_none_right_eq_some] at h
    obtain ⟨hrc, hpoints, hcovers⟩ := ih (fun j hj => hall j (List.mem_cons_of_mem i hj))
      (points_fill hp h.1) (covers_fill hc) h.2
    refine ⟨hrc, ?_, hcovers⟩
    have hkind : (fun j => if j ∈ rest then g else update kind i g j)
        = fun j => if j ∈ i :: rest then g else kind j := by
      funext j
      rcases eq_or_ne j i with rfl | hne
      · simp
      · simp [hne]
    exact hkind ▸ hpoints

/-- **A first buffer freed in vain**: the others are as they were. -/
theorem allocFrom_of_none (hnone : answers 0 = none) (h : p.allocFrom g answers (0 :: l) = some (rc, p')) :
    rc = - ENOMEM ∧ p' = p.free 0 := by
  rw [allocFrom, hnone] at h
  obtain ⟨hrc, rfl⟩ := Prod.mk.inj (Option.some.inj h)
  refine ⟨hrc.symm, ?_⟩
  rw [Pool.free, update_idem]

end Pool

/-! ## Calls -/

namespace Vga

variable {vgaOk : Bool} {s s' t : Vga} {w h : Int32} {answers : Answers} {a : Call} {b : ℕ} {rc : ℤ}

/-- What holds whatever fails. -/
structure Sound (s : Vga) : Prop where
  pool : s.toPool.Sound
  presented : s.presentedFreed = []

/-- **The buffers are in order**: the entries of `idx_buf`, each of its own, and `idx_last` are live buffers of
the geometry recorded, none was freed twice and none is lost. -/
structure Exact (s : Vga) : Prop where
  points : s.heap.Points s.idxBuf fun _ => (s.idxW, s.idxH)
  covers : s.heap.Covers s.idxBuf
  last : ∀ b, s.idxLast = some b → s.heap.live b = some (s.idxW, s.idxH)

/-- No allocation fails, or the first one does and the buffer freed for it is not the last presented. -/
def Spares (s : Vga) (answers : Answers) : Prop :=
  (∀ i, answers i ≠ none) ∨ answers 0 = none ∧ (s.idxBuf 0 = none ∨ s.idxLast ≠ s.idxBuf 0)

instance (s : Vga) (answers : Answers) : Decidable (s.Spares answers) :=
  inferInstanceAs (Decidable (_ ∨ _ ∧ (_ ∨ _)))

/-- The condition on a call. -/
def spared (vgaOk : Bool) (s : Vga) : Call → Prop
  | .indexedBuffer w h answers _ | .showIndexed w h answers _ =>
    vgaOk = true → s.Reallocates w h → s.Spares answers
  | .presentIndexed _ | .showFb => True

instance (vgaOk : Bool) (s : Vga) : ∀ a, Decidable (spared vgaOk s a)
  | .indexedBuffer .. | .showIndexed .. => inferInstanceAs (Decidable (_ → _ → _))
  | .presentIndexed _ | .showFb => .isTrue trivial

/-- What `idx_alloc` leaves: everything, or what its loop does to the pool. -/
theorem idxAlloc_cases (hrun : s.idxAlloc w h answers = some (rc, t)) :
    ¬ s.Reallocates w h ∧ t = s ∨
    s.Reallocates w h ∧ s.toPool.allocFrom (w, h) answers (List.finRange IDX_NBUF) = some (rc, t.toPool) ∧
      t.presentedFreed = s.presentedFreed ∧
      (rc = 0 → t.idxW = w ∧ t.idxH = h ∧ t.idxLast = none) ∧
      (rc ≠ 0 → t.idxW = s.idxW ∧ t.idxH = s.idxH ∧ t.idxLast = s.idxLast) := by
  rw [idxAlloc] at hrun
  split_ifs at hrun with hbad hsame
  · exact .inl ⟨fun hre => hre.1 hbad, (Prod.mk.inj (Option.some.inj hrun)).2.symm⟩
  · exact .inl ⟨fun hre => hre.2 hsame, (Prod.mk.inj (Option.some.inj hrun)).2.symm⟩
  · obtain ⟨⟨rc', p⟩, hloop, hdone⟩ := Option.map_eq_some_iff.mp hrun
    cases hdone
    have hfb : s.stopScan.toPool = s.toPool ∧ s.stopScan.presentedFreed = s.presentedFreed ∧
        s.stopScan.idxW = s.idxW ∧ s.stopScan.idxH = s.idxH ∧ s.stopScan.idxLast = s.idxLast := by
      unfold stopScan
      split <;> exact ⟨rfl, rfl, rfl, rfl, rfl⟩
    obtain ⟨hpool, hpresented, hgeometry⟩ := hfb
    rw [hpool] at hloop
    refine .inr ⟨⟨hbad, hsame⟩, ?_⟩
    dsimp only
    split
    case isTrue h0 => exact ⟨hloop, hpresented, fun _ => ⟨rfl, rfl, rfl⟩, fun hne => absurd h0 hne⟩
    case isFalse hne => exact ⟨hloop, hpresented, fun h0 => absurd h0 hne, fun _ => hgeometry⟩

theorem presentIndexed_cases (vgaOk : Bool) (s : Vga) (buf : Option ℕ) :
    (s.presentIndexed vgaOk buf).2 = s ∨
      ∃ b, s.Ours b ∧ (s.presentIndexed vgaOk buf).2 = s.program b := by
  cases vgaOk with
  | false => exact .inl rfl
  | true =>
    cases buf with
    | none => exact .inl rfl
    | some b =>
      by_cases hours : s.Ours b
      · exact .inr ⟨b, hours, congrArg Prod.snd (if_pos hours)⟩
      · exact .inl (congrArg Prod.snd (if_neg hours))

/-- **What a call does**: nothing, back to the framebuffer, or `idx_alloc`; and then it may present one of the
buffers. -/
theorem step_cases (hstep : s.step vgaOk a = some s') :
    ∃ t, (t = s ∨ t = s.showFb ∨ ∃ w h answers rc, s.idxAlloc w h answers = some (rc, t) ∧
      (spared vgaOk s a → s.Reallocates w h → s.Spares answers)) ∧
      (s' = t ∨ ∃ b, t.Ours b ∧ s' = t.program b) := by
  cases a with
  | presentIndexed buf =>
    cases hstep
    exact ⟨s, .inl rfl, presentIndexed_cases vgaOk s buf⟩
  | showFb =>
    cases hstep
    cases vgaOk with
    | false => exact ⟨s, .inl rfl, .inl rfl⟩
    | true => exact ⟨s.showFb, .inr (.inl rfl), .inl rfl⟩
  | indexedBuffer w h answers onScreen =>
    obtain ⟨r, hr, rfl⟩ := Option.map_eq_some_iff.mp hstep
    cases vgaOk with
    | false =>
      cases hr
      exact ⟨s, .inl rfl, .inl rfl⟩
    | true =>
      obtain ⟨⟨rc, t⟩, ht, rfl⟩ := Option.map_eq_some_iff.mp hr
      exact ⟨t, .inr (.inr ⟨w, h, answers, rc, ht, fun hsp => hsp rfl⟩), .inl rfl⟩
  | showIndexed w h answers onScreen =>
    obtain ⟨r, hr, rfl⟩ := Option.map_eq_some_iff.mp hstep
    cases vgaOk with
    | false =>
      cases hr
      exact ⟨s, .inl rfl, .inl rfl⟩
    | true =>
      obtain ⟨r', hr', rfl⟩ := Option.map_eq_some_iff.mp hr
      obtain ⟨⟨rc, t⟩, ht, rfl⟩ := Option.map_eq_some_iff.mp hr'
      refine ⟨t, .inr (.inr ⟨w, h, answers, rc, ht, fun hsp => hsp rfl⟩), ?_⟩
      dsimp only
      split
      · exact .inl rfl
      · exact presentIndexed_cases true t _

/-! ## Whatever fails -/

theorem Sound.program (hs : s.Sound) (hours : s.Ours b) : (s.program b).Sound := by
  obtain ⟨kind, hp⟩ := hs.pool
  obtain ⟨i, hi⟩ := hours
  refine ⟨⟨kind, hp⟩, (if_neg ?_).trans hs.presented⟩
  rw [hp.live hi]
  exact Option.some_ne_none _

theorem Sound.step (hs : s.Sound) (hstep : s.step vgaOk a = some s') : s'.Sound := by
  obtain ⟨t, ht, hs'⟩ := step_cases hstep
  have hsound : t.Sound := by
    obtain rfl | rfl | ⟨w, h, answers, rc, halloc, -⟩ := ht
    · exact hs
    · exact ⟨hs.pool, hs.presented⟩
    · obtain ⟨-, rfl⟩ | ⟨-, hloop, hpresented, -⟩ := idxAlloc_cases halloc
      · exact hs
      · exact ⟨Pool.sound_allocFrom hs.pool hloop, hpresented.trans hs.presented⟩
  obtain rfl | ⟨b, hours, rfl⟩ := hs'
  · exact hsound
  · exact hsound.program hours

theorem init_sound : init.Sound := ⟨⟨fun _ => (0, 0), Heap.points_empty _⟩, rfl⟩

/-- **Nothing is freed twice and nothing freed is presented**, whatever fails. -/
theorem sound_of_reaches (hrun : Reaches (step vgaOk) anyStep init s) : s.Sound :=
  hrun.invariant (fun hs _ hstep => hs.step hstep) init_sound

/-! ## Buffers in order -/

theorem Exact.program (hs : s.Exact) (hours : s.Ours b) : (s.program b).Exact := by
  obtain ⟨i, hi⟩ := hours
  refine ⟨hs.points, hs.covers, fun c hc => ?_⟩
  cases hc
  exact hs.points.live hi

/-- **New buffers**, or the first one freed in vain. -/
theorem Exact.idxAlloc (hs : s.Exact) (halloc : s.idxAlloc w h answers = some (rc, t))
    (hspares : s.Reallocates w h → s.Spares answers) : t.Exact := by
  obtain ⟨-, rfl⟩ | ⟨hre, hloop, -, hdone, hfailed⟩ := idxAlloc_cases halloc
  · exact hs
  rcases hspares hre with hall | ⟨hnone, hlast⟩
  · obtain ⟨hrc, hpoints, hcovers⟩ :=
      Pool.allocFrom_of_some (fun i _ => hall i) hs.points hs.covers hloop
    obtain ⟨hw, hh, hlast⟩ := hdone hrc
    refine ⟨?_, hcovers, fun b hb => ?_⟩
    · simpa [hw, hh] using hpoints
    · rw [hlast] at hb
      cases hb
  · obtain ⟨hrc, hp⟩ := Pool.allocFrom_of_none hnone hloop
    obtain ⟨hw, hh, hsame⟩ := hfailed (by rw [hrc]; decide)
    refine ⟨?_, ?_, fun b hb => ?_⟩
    · rw [hw, hh, hp]
      exact hs.points.release 0
    · rw [hp]
      exact hs.covers.release 0
    · rw [hsame] at hb
      rw [hw, hh, hp, ← hs.last b hb, Pool.free]
      cases h0 : s.idxBuf 0 with
      | none => rfl
      | some c =>
        refine Heap.live_free_of_ne ?_
        rintro rfl
        rcases hlast with hzero | hne
        · rw [h0] at hzero
          cases hzero
        · exact hne (hb.trans h0.symm)

theorem Exact.step (hs : s.Exact) (hspared : spared vgaOk s a) (hstep : s.step vgaOk a = some s') :
    s'.Exact := by
  obtain ⟨t, ht, hs'⟩ := step_cases hstep
  have hexact : t.Exact := by
    obtain rfl | rfl | ⟨w, h, answers, rc, halloc, hcare⟩ := ht
    · exact hs
    · exact ⟨hs.points, hs.covers, hs.last⟩
    · exact hs.idxAlloc halloc (hcare hspared)
  obtain rfl | ⟨b, hours, rfl⟩ := hs'
  · exact hexact
  · exact hexact.program hours

theorem init_exact : init.Exact := ⟨Heap.points_empty _, Heap.covers_empty, fun _ hb => by cases hb⟩

/-- **The indexed buffers survive**, any calls with any geometries and failures that come with the first of
the buffers, if the one freed for it was not presented last.  The entries of `idx_buf` and `idx_last` are live
buffers of the geometry recorded; no buffer is lost, freed twice, or presented after it was freed. -/
theorem buffers_survive {vgaOk : Bool} {s : Vga} (hrun : Reaches (step vgaOk) (spared vgaOk) init s) :
    s.Exact ∧ s.Sound :=
  ⟨hrun.invariant (fun hs hspared hstep => hs.step hspared hstep) init_exact,
    sound_of_reaches (hrun.mono fun _ _ _ => trivial)⟩

/-- Buffers, one of them presented, and a new geometry for which there is no memory. -/
theorem buffers_survive_full : ∃ s, runAll (step true) (spared true) init
    [.indexedBuffer 320 200 (fun i => some (i + 1)) 0, .presentIndexed (some 2),
      .indexedBuffer 640 480 (fun _ => none) 0] = some s ∧ s.idxLast = some 2 ∧ s.Exact ∧ s.Sound := by
  have hend : (runAll (step true) (spared true) init
      [.indexedBuffer 320 200 (fun i => some (i + 1)) 0, .presentIndexed (some 2),
        .indexedBuffer 640 480 (fun _ => none) 0]).map (fun s => s.idxLast) = some (some 2) := by
    decide +kernel
  obtain ⟨s, hs, hlast⟩ := Option.map_eq_some_iff.mp hend
  exact ⟨s, hs, hlast, buffers_survive (Reaches.of_runAll _ hs)⟩

/-- **A buffer is lost**: on first use the second allocation fails, and the first buffer is forgotten. -/
theorem buffers_lost : ¬ ∀ s, Reaches (step true) anyStep init s → s.Exact ∧ s.Sound := fun hall => by
  have hend : (runAll (step true) anyStep init
      [.indexedBuffer 320 200 (fun i => if i = 0 then some 1 else none) 0]).map
        (fun s => (s.heap.live 1, decide (s.Ours 1))) = some (some (320, 200), false) := by
    decide +kernel
  obtain ⟨s, hs, hs'⟩ := Option.map_eq_some_iff.mp hend
  obtain ⟨hlive, hours⟩ := Prod.mk.inj hs'
  exact of_decide_eq_false hours ((hall s (Reaches.of_runAll _ hs)).1.covers 1
    (by rw [hlive]; exact Option.some_ne_none _))

end Vga

end KlaussRuntime.Vnc.Indexed
