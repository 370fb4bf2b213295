import KlaussRuntime.Machinery.Machine
import Mathlib.Data.Finset.Insert
import Mathlib.Data.List.FinRange
import Mathlib.Tactic

/-!
# Vnc/VgaOut — indexed frames on the VGA port

`vga_out.c` keeps three buffers for 8-bit frames.  A renderer asks for one (`vga_out_indexed_buffer`), draws
into it and presents it; the frame base it programs is scanned from the next vertical blank on.  With one
buffer on the screen and one presented, the third is free.

The controller has the base last programmed and the one being scanned; a vertical blank may come between
any two accesses of the rendering thread.  While indexed frames are shown the test against `FB_ACTIVE`
keeps the screen's buffer out.  After a switch back to the RGB framebuffer it is not made, and a new
geometry frees the buffers at once, but the screen goes on scanning an indexed frame until the blank:
`safe_of_careful` says that waiting for it is enough, `not_forall_safe` that it is needed.
-/

namespace KlaussRuntime.Vnc

open Machinery Function

abbrev idxNbuf : ℕ := 3

local instance neZeroIdxNbuf : NeZero idxNbuf := ⟨by decide⟩

def vgaScreenH : ℤ := 480

/-- Where the rendering thread is; `shows` says that `vga_out_show_indexed` has asked for the buffer. -/
inductive VgaPc
  | idle
  /-- `idx_alloc` begins -/
  | alloc (w h : ℤ) (shows : Bool)
  /-- `vga_out_show_fb` is to program the framebuffer; called by `idx_alloc`, it goes on there -/
  | programFb (next : Option (ℤ × ℤ × Bool))
  /-- `k_free(idx_buf[i])` -/
  | free (i : Fin idxNbuf) (w h : ℤ) (shows : Bool)
  /-- `idx_buf[i] = k_aligned_alloc(…)` -/
  | take (i : Fin idxNbuf) (w h : ℤ) (shows : Bool)
  /-- `REG_VGA_FB_ACTIVE` is read -/
  | read (shows : Bool)
  | pick (onScreen : ℕ) (shows : Bool)
  /-- `vga_out_show_indexed` copies its frame -/
  | copy (b : ℕ)
  /-- `vga_out_present_indexed` is to program `b` -/
  | program (b : ℕ)
  | finish (b : ℕ)

/-- The controller, the variables of `vga_out.c` and the rendering thread.  Buffers are addresses. -/
structure VgaOut where
  /-- `FB_BASE`, as last programmed -/
  base : ℕ
  /-- `FB_ACTIVE`, being scanned -/
  active : ℕ
  idxBuf : Fin idxNbuf → Option ℕ
  idxLast : Option ℕ
  idxW : ℤ
  idxH : ℤ
  idxActive : Bool
  pc : VgaPc
  /-- the buffers that were returned and not yet presented -/
  drawing : Finset ℕ
  /-- the buffers that were freed while they were being scanned -/
  freedVisible : List ℕ

/-- After `vga_out_init`: the framebuffer at `fb` is programmed, `active` is what the screen shows. -/
def VgaOut.init (fb active : ℕ) : VgaOut where
  base := fb
  active := active
  idxBuf := fun _ => none
  idxLast := none
  idxW := 0
  idxH := 0
  idxActive := false
  pc := .idle
  drawing := ∅
  freedVisible := []

inductive VgaAct
  | vblank
  /-- `vga_out_indexed_buffer(w, h)` -/
  | indexedBuffer (w h : ℤ)
  | presentIndexed (b : ℕ)
  | showIndexed (w h : ℤ)
  | showFb
  /-- the thread goes on; `addr` is what `k_aligned_alloc` returns if it comes to that -/
  | run (addr : ℕ)

def badGeometry (w h : ℤ) : Prop :=
  (w ≠ 320 ∧ w ≠ 640) ∨ h ≤ 0 ∨ h * (if w = 320 then 2 else 1) > vgaScreenH

instance (w h : ℤ) : Decidable (badGeometry w h) := inferInstanceAs (Decidable (_ ∨ _ ∨ _))

namespace VgaOut

/-- `buf` is one of `idx_buf`. -/
def Ours (s : VgaOut) (b : ℕ) : Prop := ∃ i, s.idxBuf i = some b

instance (s : VgaOut) (b : ℕ) : Decidable (s.Ours b) :=
  inferInstanceAs (Decidable (∃ i, s.idxBuf i = some b))

/-- The loop of `vga_out_indexed_buffer`, given what `FB_ACTIVE` read as. -/
def pickBuffer (s : VgaOut) (onScreen : ℕ) : Option ℕ :=
  (((List.finRange idxNbuf).filterMap s.idxBuf).find? fun b =>
    some b ≠ s.idxLast ∧ (s.idxActive = false ∨ b ≠ onScreen)).or (s.idxBuf 0)

/-- `vga_out_show_fb` as far as the flag. -/
def showFb (s : VgaOut) (next : Option (ℤ × ℤ × Bool)) : VgaOut :=
  { s with idxActive := false, pc := .programFb next }

/-- `vga_out_present_indexed` begins: the buffer is the renderer's no longer. -/
def present (s : VgaOut) (b : ℕ) : VgaOut :=
  { s with drawing := s.drawing.erase b, pc := if s.Ours b then .program b else .idle }

/-- One step of the rendering thread. -/
def run (fb : ℕ) (s : VgaOut) (addr : ℕ) : Option VgaOut :=
  match s.pc with
  | .idle => none
  | .alloc w h shows =>
    if badGeometry w h then some { s with pc := .idle }
    else if s.idxBuf 0 ≠ none ∧ w = s.idxW ∧ h = s.idxH then some { s with pc := .read shows }
    else if s.idxActive then some (s.showFb (some (w, h, shows)))
    else some { s with pc := .free 0 w h shows }
  | .programFb none => some { s with base := fb, pc := .idle }
  | .programFb (some (w, h, shows)) => some { s with base := fb, pc := .free 0 w h shows }
  | .free i w h shows =>
    let s := { s with pc := .take i w h shows }
    match s.idxBuf i with
    | none => some s
    | some b =>
      some { s with
        idxBuf := update s.idxBuf i none
        freedVisible := if b = s.active then b :: s.freedVisible else s.freedVisible }
  | .take i w h shows =>
    -- an allocation that succeeds: not the framebuffer, and not another of the buffers
    if addr = 0 ∨ addr = fb ∨ s.Ours addr then none
    else
      let s := { s with idxBuf := update s.idxBuf i (some addr) }
      if hi : i.val + 1 < idxNbuf then some { s with pc := .free ⟨i + 1, hi⟩ w h shows }
      else some { s with idxW := w, idxH := h, idxLast := none, pc := .read shows }
  | .read shows => some { s with pc := .pick s.active shows }
  | .pick onScreen shows =>
    (s.pickBuffer onScreen).map fun b =>
      { s with drawing := insert b s.drawing, pc := if shows then .copy b else .idle }
  | .copy b => some (s.present b)
  | .program b => some { s with base := b, pc := .finish b }
  | .finish b => some { s with idxActive := true, idxLast := some b, pc := .idle }

/-- A call, made by a thread that is in none. -/
def call (s s' : VgaOut) : Option VgaOut :=
  match s.pc with
  | .idle => some s'
  | _ => none

/-- Without a controller (`vgaOk`) every call returns at once. -/
def step (fb : ℕ) (vgaOk : Bool) (s : VgaOut) : VgaAct → Option VgaOut
  | .vblank => some { s with active := s.base }
  | .run addr => s.run fb addr
  | .indexedBuffer w h => if vgaOk then s.call { s with pc := .alloc w h false } else s.call s
  | .presentIndexed b => if vgaOk then s.call (s.present b) else s.call s
  | .showIndexed w h => if vgaOk then s.call { s with pc := .alloc w h true } else s.call s
  | .showFb => if vgaOk then s.call (s.showFb none) else s.call s

/-- **Nothing visible is drawn into or freed.** -/
structure Safe (s : VgaOut) : Prop where
  drawing : ∀ b ∈ s.drawing, b ≠ s.active
  freed : s.freedVisible = []

/-- A vertical blank has come since the frame base was programmed: when an old buffer is freed, and when
a buffer is looked for while the RGB framebuffer is shown. -/
def Latched (s : VgaOut) : VgaPc → Prop
  | .free i .. => s.idxBuf i ≠ none → s.active = s.base
  | .read _ => s.idxActive = false → s.active = s.base
  | _ => True

def careful (s : VgaOut) : VgaAct → Prop
  | .run _ => s.Latched s.pc
  | _ => True

/-! ## What is programmed and what is kept -/

/-- What is programmed between two calls: the last frame presented, or the framebuffer. -/
def Shown (fb : ℕ) (s : VgaOut) : Prop :=
  if s.idxActive then s.idxLast = some s.base else s.base = fb

def Full (s : VgaOut) : Prop := ∀ i, s.idxBuf i ≠ none

/-- All buffers are there, or none is. -/
def Ready (s : VgaOut) : Prop := s.Full ∨ ∀ i, s.idxBuf i = none

/-- What the thread can rely on where it is. -/
def At (fb : ℕ) (s : VgaOut) : VgaPc → Prop
  | .idle | .alloc .. => s.Shown fb ∧ s.Ready
  | .programFb _ => s.idxActive = false ∧ s.Ready
  | .free i .. | .take i .. => s.idxActive = false ∧ s.base = fb ∧ ∀ j < i, s.idxBuf j ≠ none
  | .read _ | .copy _ => s.Shown fb ∧ s.Full
  | .pick onScreen _ => s.Shown fb ∧ s.Full ∧
      (s.active = s.base ∨ s.idxActive = true ∧ s.active = onScreen)
  | .program b => s.Shown fb ∧ s.Full ∧ b ≠ fb ∧ b ∉ s.drawing
  | .finish b => s.base = b ∧ s.Full

/-- What holds at every moment. -/
structure Good (fb : ℕ) (s : VgaOut) : Prop where
  ne_fb : ∀ i b, s.idxBuf i = some b → b ≠ fb
  inj : ∀ i j b, s.idxBuf i = some b → s.idxBuf j = some b → i = j
  drawing : ∀ b ∈ s.drawing, b ≠ s.base ∧ b ≠ s.active ∧ b ≠ fb
  freed : s.freedVisible = []
  knows : s.At fb s.pc

variable {fb : ℕ} {s s' : VgaOut}

theorem Good.safe (h : s.Good fb) : s.Safe := ⟨fun b hb => (h.drawing b hb).2.1, h.freed⟩

theorem good_init (fb active : ℕ) : (init fb active).Good fb where
  ne_fb _ _ h := by cases h
  inj _ _ _ h := by cases h
  drawing b h := absurd h (Finset.notMem_empty b)
  freed := rfl
  knows := ⟨rfl, .inr fun _ => rfl⟩

theorem Good.vblank (h : s.Good fb) : ({ s with active := s.base } : VgaOut).Good fb where
  ne_fb := h.ne_fb
  inj := h.inj
  drawing b hb := ⟨(h.drawing b hb).1, (h.drawing b hb).1, (h.drawing b hb).2.2⟩
  freed := h.freed
  knows := by
    have hknows := h.knows
    cases hpc : s.pc with
    | pick onScreen shows =>
      rw [hpc] at hknows
      exact ⟨hknows.1, hknows.2.1, .inl rfl⟩
    | _ =>
      rw [hpc] at hknows
      exact hknows

theorem Good.goto (h : s.Good fb) {p : VgaPc} (hp : s.At fb p) :
    ({ s with pc := p } : VgaOut).Good fb where
  ne_fb := h.ne_fb
  inj := h.inj
  drawing := h.drawing
  freed := h.freed
  knows := by cases p <;> exact hp

/-- **With three buffers one is always free**: at most one is the last presented and one on the
screen. -/
theorem Good.pickBuffer (h : s.Good fb) (hfull : s.Full) (onScreen : ℕ) :
    ∃ b, s.pickBuffer onScreen = some b ∧ s.Ours b ∧ some b ≠ s.idxLast ∧
      (s.idxActive = true → b ≠ onScreen) := by
  rw [VgaOut.pickBuffer]
  cases hfind : ((List.finRange idxNbuf).filterMap s.idxBuf).find? fun b =>
      some b ≠ s.idxLast ∧ (s.idxActive = false ∨ b ≠ onScreen) with
  | some b =>
    obtain ⟨i, -, hi⟩ := List.mem_filterMap.mp (List.mem_of_find?_eq_some hfind)
    have hb := List.find?_some hfind
    rw [decide_eq_true_iff] at hb
    refine ⟨b, rfl, ⟨i, hi⟩, hb.1, fun hactive => ?_⟩
    rcases hb.2 with hoff | hne
    · rw [hactive] at hoff
      cases hoff
    · exact hne
  | none =>
    exfalso
    choose buf hbuf using fun i => Option.ne_none_iff_exists'.mp (hfull i)
    -- each of the three is the last presented or the one on the screen
    have hused : ∀ i, some (buf i) = s.idxLast ∨ buf i = onScreen := fun i => by
      have hnot := List.find?_eq_none.mp hfind (buf i)
        (List.mem_filterMap.mpr ⟨i, List.mem_finRange i, hbuf i⟩)
      by_contra hcon
      rw [not_or] at hcon
      exact hnot (decide_eq_true ⟨hcon.1, .inr hcon.2⟩)
    have hinj : ∀ i j, buf i = buf j → i = j := fun i j hij =>
      h.inj i j (buf i) (hbuf i) (hij ▸ hbuf j)
    have hsame : ∀ {i j}, some (buf i) = s.idxLast → some (buf j) = s.idxLast → i = j :=
      fun hi hj => hinj _ _ (Option.some.inj (hi.trans hj.symm))
    have hsame' : ∀ {i j}, buf i = onScreen → buf j = onScreen → i = j :=
      fun hi hj => hinj _ _ (hi.trans hj.symm)
    rcases hused 0 with h0 | h0 <;> rcases hused 1 with h1 | h1
    · exact absurd (hsame h0 h1) (by decide)
    · rcases hused 2 with h2 | h2
      · exact absurd (hsame h0 h2) (by decide)
      · exact absurd (hsame' h1 h2) (by decide)
    · rcases hused 2 with h2 | h2
      · exact absurd (hsame h1 h2) (by decide)
      · exact absurd (hsame' h0 h2) (by decide)
    · exact absurd (hsame' h0 h1) (by decide)

theorem Shown.base_eq (h : s.Shown fb) (hoff : s.idxActive = false) : s.base = fb := by
  simpa [Shown, hoff] using h

/-- A buffer that is neither the last presented nor the framebuffer is not programmed. -/
theorem Shown.ne_base (h : s.Shown fb) {b : ℕ} (hlast : some b ≠ s.idxLast) (hfb : b ≠ fb) :
    b ≠ s.base := by
  rw [Shown] at h
  split_ifs at h
  · exact fun heq => hlast (by rw [h, heq])
  · rwa [h]

theorem Good.programFb (h : s.Good fb) {p : VgaPc}
    (hp : ({ s with base := fb } : VgaOut).At fb p) :
    ({ s with base := fb, pc := p } : VgaOut).Good fb where
  ne_fb := h.ne_fb
  inj := h.inj
  drawing b hb := ⟨(h.drawing b hb).2.2, (h.drawing b hb).2⟩
  freed := h.freed
  knows := by cases p <;> exact hp

theorem Good.showFb (h : s.Good fb) (hready : s.Ready) (next : Option (ℤ × ℤ × Bool)) :
    (s.showFb next).Good fb where
  ne_fb := h.ne_fb
  inj := h.inj
  drawing := h.drawing
  freed := h.freed
  knows := ⟨rfl, hready⟩

theorem Good.present (h : s.Good fb) (hshown : s.Shown fb) (hready : s.Ready) (b : ℕ) :
    (s.present b).Good fb where
  ne_fb := h.ne_fb
  inj := h.inj
  drawing c hc := h.drawing c (Finset.mem_of_mem_erase hc)
  freed := h.freed
  knows := by
    rw [VgaOut.present]
    dsimp only
    split_ifs with hours
    · obtain ⟨i, hi⟩ := hours
      have hfull : s.Full := hready.resolve_right fun hnone => by simp [hnone i] at hi
      exact ⟨hshown, hfull, h.ne_fb i b hi, Finset.notMem_erase b s.drawing⟩
    · exact ⟨hshown, hready⟩

theorem Good.free (h : s.Good fb) {i : Fin idxNbuf} {w ht : ℤ} {shows : Bool} {b : ℕ}
    (hpc : s.At fb (.free i w ht shows)) (hb : s.idxBuf i = some b) (hactive : s.active = s.base) :
    ({ s with
        pc := .take i w ht shows
        idxBuf := update s.idxBuf i none
        freedVisible := if b = s.active then b :: s.freedVisible else s.freedVisible } :
      VgaOut).Good fb where
  ne_fb j c hj := by
    rcases eq_or_ne j i with rfl | hne
    · simp at hj
    · exact h.ne_fb j c (by simpa [hne] using hj)
  inj j k c hj hk := by
    rcases eq_or_ne j i with rfl | hj'
    · simp at hj
    rcases eq_or_ne k i with rfl | hk'
    · simp at hk
    exact h.inj j k c (by simpa [hj'] using hj) (by simpa [hk'] using hk)
  drawing := h.drawing
  freed := by
    rw [if_neg]
    · exact h.freed
    · rw [hactive, hpc.2.1]
      exact h.ne_fb i b hb
  knows := ⟨hpc.1, hpc.2.1, fun j hj => by
    change update s.idxBuf i none j ≠ none
    rw [update_of_ne hj.ne]
    exact hpc.2.2 j hj⟩

/-- A buffer is allocated: not the framebuffer, and not another of the buffers. -/
theorem Good.take (h : s.Good fb) {i : Fin idxNbuf} {addr : ℕ} (hfb : addr ≠ fb)
    (hnew : ¬ s.Ours addr) {w ht : ℤ} {last : Option ℕ} {p : VgaPc}
    (hp : ({ s with
        idxBuf := update s.idxBuf i (some addr)
        idxW := w
        idxH := ht
        idxLast := last } : VgaOut).At fb p) :
    ({ s with
        idxBuf := update s.idxBuf i (some addr)
        idxW := w
        idxH := ht
        idxLast := last
        pc := p } : VgaOut).Good fb where
  ne_fb j c hj := by
    rcases eq_or_ne j i with rfl | hne
    · obtain rfl : addr = c := by simpa using hj
      exact hfb
    · exact h.ne_fb j c (by simpa [hne] using hj)
  inj j k c hj hk := by
    have hold : ∀ {j}, j ≠ i → update s.idxBuf i (some addr) j = some c →
        s.idxBuf j = some c := fun hne hj => by simpa [hne] using hj
    have hself : ∀ {j}, j = i → update s.idxBuf i (some addr) j = some c → addr = c := by
      rintro j rfl hj
      simpa using hj
    rcases eq_or_ne j i with hj' | hj' <;> rcases eq_or_ne k i with hk' | hk'
    · rw [hj', hk']
    · exact absurd ⟨k, hself hj' hj ▸ hold hk' hk⟩ hnew
    · exact absurd ⟨j, hself hk' hk ▸ hold hj' hj⟩ hnew
    · exact h.inj j k c (hold hj' hj) (hold hk' hk)
  drawing := h.drawing
  freed := h.freed
  knows := by cases p <;> exact hp

theorem Good.pick (h : s.Good fb) {onScreen : ℕ} {shows : Bool}
    (hpc : s.At fb (.pick onScreen shows)) :
    ∃ b, s.pickBuffer onScreen = some b ∧
      ({ s with drawing := insert b s.drawing, pc := if shows then .copy b else .idle } :
        VgaOut).Good fb := by
  obtain ⟨hshown, hfull, hactive⟩ := hpc
  obtain ⟨b, hpick, ⟨i, hi⟩, hlast, hscreen⟩ := h.pickBuffer hfull onScreen
  have hbase : b ≠ s.base := hshown.ne_base hlast (h.ne_fb i b hi)
  have hvisible : b ≠ s.active := by
    rcases hactive with heq | ⟨hon, heq⟩
    · rwa [heq]
    · rw [heq]
      exact hscreen hon
  refine ⟨b, hpick, h.ne_fb, h.inj, fun c hc => ?_, h.freed, ?_⟩
  · rcases Finset.mem_insert.mp hc with rfl | hold
    · exact ⟨hbase, hvisible, h.ne_fb i c hi⟩
    · exact h.drawing c hold
  · cases shows with
    | true => exact ⟨hshown, hfull⟩
    | false => exact ⟨hshown, .inl hfull⟩

/-- **One step of the rendering thread.** -/
theorem Good.run (h : s.Good fb) {addr : ℕ} (hcare : s.careful (.run addr))
    (hstep : s.run fb addr = some s') : s'.Good fb := by
  have hknows := h.knows
  rw [VgaOut.run] at hstep
  rw [careful] at hcare
  cases hpc : s.pc with
  | idle => simp [hpc] at hstep
  | alloc w ht shows =>
    rw [hpc] at hstep hknows
    dsimp only at hstep
    split_ifs at hstep with hbad hsame hon
    · cases hstep
      exact h.goto hknows
    · cases hstep
      exact h.goto ⟨hknows.1, hknows.2.resolve_right fun hnone => hsame.1 (hnone 0)⟩
    · cases hstep
      exact h.showFb hknows.2 _
    · cases hstep
      have hoff : s.idxActive = false := eq_false_of_ne_true hon
      exact h.goto ⟨hoff, hknows.1.base_eq hoff, fun j hj => absurd hj (Nat.not_lt_zero _)⟩
  | programFb next =>
    rw [hpc] at hstep hknows
    cases next with
    | none =>
      cases hstep
      refine h.programFb ⟨?_, hknows.2⟩
      simp [Shown, hknows.1]
    | some next =>
      cases hstep
      exact h.programFb ⟨hknows.1, rfl, fun j hj => absurd hj (Nat.not_lt_zero _)⟩
  | free i w ht shows =>
    rw [hpc] at hstep hknows hcare
    dsimp only at hstep
    cases hb : s.idxBuf i with
    | none =>
      rw [hb] at hstep
      cases hstep
      exact h.goto hknows
    | some b =>
      rw [hb] at hstep
      cases hstep
      exact h.free hknows hb (hcare (by simp [hb]))
  | take i w ht shows =>
    rw [hpc] at hstep hknows
    dsimp only at hstep
    have hfilled : ∀ j ≤ i, update s.idxBuf i (some addr) j ≠ none := fun j hj => by
      rcases eq_or_ne j i with rfl | hne
      · simp
      · rw [update_of_ne hne]
        exact hknows.2.2 j (lt_of_le_of_ne hj hne)
    split_ifs at hstep with hbad hi
    · rw [not_or, not_or] at hbad
      cases hstep
      refine h.take hbad.2.1 hbad.2.2 ⟨hknows.1, hknows.2.1, fun j hj => hfilled j ?_⟩
      exact Fin.mk_le_mk.mpr (Nat.lt_succ_iff.mp hj)
    · rw [not_or, not_or] at hbad
      cases hstep
      refine h.take hbad.2.1 hbad.2.2 ⟨?_, fun j => hfilled j ?_⟩
      · simp [Shown, hknows.1, hknows.2.1]
      · have hj := j.isLt
        rw [Fin.le_def]
        omega
  | read shows =>
    rw [hpc] at hstep hknows hcare
    cases hstep
    refine h.goto ⟨hknows.1, hknows.2, ?_⟩
    cases hon : s.idxActive with
    | true => exact .inr ⟨rfl, rfl⟩
    | false => exact .inl (hcare hon)
  | pick onScreen shows =>
    rw [hpc] at hstep hknows
    obtain ⟨b, hpick, hgood⟩ := h.pick hknows
    dsimp only at hstep
    rw [hpick] at hstep
    cases hstep
    exact hgood
  | copy b =>
    rw [hpc] at hstep hknows
    cases hstep
    exact h.present hknows.1 (.inl hknows.2) b
  | program b =>
    rw [hpc] at hstep hknows
    cases hstep
    obtain ⟨-, hfull, hfb, hnot⟩ := hknows
    exact ⟨h.ne_fb, h.inj,
      fun c hc => ⟨ne_of_mem_of_not_mem hc hnot, (h.drawing c hc).2⟩, h.freed, rfl, hfull⟩
  | finish b =>
    rw [hpc] at hstep hknows
    cases hstep
    refine ⟨h.ne_fb, h.inj, h.drawing, h.freed, ?_, .inl hknows.2⟩
    simp [Shown, hknows.1]

theorem Good.call {t : VgaOut} (hs : s.pc = .idle → t.Good fb) (hstep : s.call t = some s') :
    s'.Good fb := by
  rw [VgaOut.call] at hstep
  split at hstep
  · next hpc =>
    cases hstep
    exact hs hpc
  · cases hstep

theorem Good.step (h : s.Good fb) {vgaOk : Bool} {a : VgaAct} (hcare : s.careful a)
    (hstep : s.step fb vgaOk a = some s') : s'.Good fb := by
  have hidle : s.pc = .idle → s.At fb .idle := fun hpc => hpc ▸ h.knows
  have hoff : s.pc = .idle → s.Good fb := fun _ => h
  cases a with
  | vblank =>
    cases hstep
    exact h.vblank
  | run addr => exact h.run hcare hstep
  | indexedBuffer w ht =>
    cases vgaOk with
    | false => exact Good.call hoff hstep
    | true => exact Good.call (fun hpc => h.goto (p := .alloc w ht _) (hidle hpc)) hstep
  | presentIndexed b =>
    cases vgaOk with
    | false => exact Good.call hoff hstep
    | true => exact Good.call (fun hpc => h.present (hidle hpc).1 (hidle hpc).2 b) hstep
  | showIndexed w ht =>
    cases vgaOk with
    | false => exact Good.call hoff hstep
    | true => exact Good.call (fun hpc => h.goto (p := .alloc w ht _) (hidle hpc)) hstep
  | showFb =>
    cases vgaOk with
    | false => exact Good.call hoff hstep
    | true => exact Good.call (fun hpc => h.showFb (hidle hpc).2 none) hstep

/-- A first buffer is allocated and presented, and comes on the screen. -/
def firstFrame : List VgaAct :=
  [.vblank, .indexedBuffer 320 200, .run 0, .run 0, .run 1, .run 0, .run 2, .run 0, .run 3, .run 0,
    .run 0, .presentIndexed 1, .run 0, .run 0, .vblank]

instance (s : VgaOut) : ∀ p, Decidable (s.Latched p)
  | .free i .. => inferInstanceAs (Decidable (s.idxBuf i ≠ none → s.active = s.base))
  | .read _ => inferInstanceAs (Decidable (s.idxActive = false → s.active = s.base))
  | .idle | .alloc .. | .programFb _ | .take .. | .pick .. | .copy _ | .program _ | .finish _ =>
    .isTrue trivial

instance (s : VgaOut) : ∀ a, Decidable (s.careful a)
  | .run _ => inferInstanceAs (Decidable (s.Latched s.pc))
  | .vblank | .indexedBuffer .. | .presentIndexed _ | .showIndexed .. | .showFb => .isTrue trivial

end VgaOut

end KlaussRuntime.Vnc
