import KlaussRuntime.Machinery.Machine
import KlaussRuntime.Vnc.Framebuffer
import KlaussRuntime.Vnc.Hextile

/-!
# Vnc/Session — one client's session, interleaved with drawing

`serve_client` loops over three stages: answer a pending incremental request from the dirty box,
wait for the client, handle one message.  The framebuffer is drawn to by other threads all the while;
they and the session meet only in the sections under `fb_lock`.  A `Session` is the server's loop
variables, the framebuffer with its dirty box, and, as a ghost, what the client was last sent of each
pixel; `step` moves it by one action of the server, of its clock, of the client or of a drawing
thread.

`fb_take_dirty` empties the whole box, while the update that follows it covers only the box's part in
the requested region, or has been copied out before.  As long as every take drops only covered dirt
(`DropsCovered`), a pixel that differs from what the client has is in the box or about to be sent
(`Kept`).
-/

namespace KlaussRuntime.Vnc

open Machinery Machinery.Hextile

/-! ## The server -/

/-- What the build fixes. -/
structure Build where
  geometry : Geometry
  zeroCopy : Bool
  hextile : Bool
  /-- what an out-of-range shift gives on the target -/
  wild : BitVec 32 → BitVec 8 → BitVec 32

/-- The default build: 640 by 480, zero-copy and Hextile compiled in. -/
def Build.default : Build := ⟨Geometry.default, true, true, fun _ _ => 0⟩

/-- VNC_MIN_FRAME_MS, from VNC_MAX_FPS = 10. -/
def vncMinFrameMs : ℤ := 1000 / 10

/-- Intersection of two rectangles; `none` if they don't overlap. -/
def rectIsect (a b : Box) : Option Box :=
  let x0 := max a.x b.x
  let y0 := max a.y b.y
  let x1 := min (a.x + a.w) (b.x + b.w)
  let y1 := min (a.y + a.h) (b.y + b.h)
  if x0 ≥ x1 ∨ y0 ≥ y1 then none else some ⟨x0, y0, x1 - x0, y1 - y0⟩

/-- Where the server stands. -/
inductive Pc where
  /-- the head of the loop -/
  | top
  /-- in `zsock_poll` or reading a message -/
  | waiting
  /-- in `send_update`, with these pieces still to copy out -/
  | sending (left : List Rect) (viaHextile incremental : Bool)
  /-- after a non-incremental update, about to take the dirty box -/
  | dropping
  /-- `serve_client` has returned -/
  | closed
deriving DecidableEq

structure Session where
  screen : Screen
  /-- ghost: the value of each pixel last copied out to the client -/
  sent : ℕ → ℕ → Option (BitVec 16)
  fmt : Pixfmt
  luts : Luts
  clientHextile : Bool
  htSkip : ℕ
  pending : Bool
  rq : Rect
  lastSend : ℤ
  pc : Pc

/-- The session as `serve_client` enters its loop. -/
def Session.start (B : Build) (screen : Screen) : Session where
  screen := screen
  sent _ _ := none
  fmt := nativeFmt
  luts := buildLuts B.wild nativeFmt
  clientHextile := false
  htSkip := 0
  pending := false
  rq := ⟨0, 0, 0, 0⟩
  lastSend := 0
  pc := .top

/-- How an update is sent. -/
inductive Encoding where
  | hextile
  | zeroCopy
  | rows
deriving DecidableEq

/-- The pieces an update is copied out in.  Hextile and the batched rows hold `fb_lock` over several
pieces, the zero-copy path holds no lock and reads pixel by pixel: other threads draw between the
pieces at most. -/
def Encoding.pieces (r : Rect) : Encoding → List Rect
  | .hextile => tileWalk r.x r.y r.w r.h
  | .zeroCopy => (List.range r.h).flatMap fun j =>
      (List.range r.w).map fun i => ⟨r.x + i, r.y + j, 1, 1⟩
  | .rows => (List.range r.h).map fun j => ⟨r.x, r.y + j, r.w, 1⟩

/-- The messages of a client. -/
inductive Msg where
  | setPixelFormat (f : Pixfmt)
  | setEncodings (encodings : List (BitVec 32))
  | fbUpdateReq (incr : Bool) (x y w h : BitVec 16)
  | keyEvent
  | pointerEvent
  | clientCutText
  | unknown

/-- One move of the system. -/
inductive Act where
  /-- another thread draws -/
  | draw (d : Draw)
  /-- stage 1 of the loop, with the clock's answer -/
  | check (now : ℤ)
  /-- `zsock_poll` times out -/
  | pollTimeout
  | message (m : Msg)
  /-- copy the next piece out -/
  | copy
  /-- the update is out; `poor`: Hextile saved less than an eighth -/
  | updateSent (poor : Bool) (now : ℤ)
  /-- take the dirty box after a non-incremental update -/
  | drop
  /-- a send or a receive fails -/
  | hangup

/-- `pending && k_uptime_get() - last_send >= VNC_MIN_FRAME_MS`. -/
def Session.due (s : Session) (now : ℤ) : Bool :=
  s.pending && decide (now - s.lastSend ≥ vncMinFrameMs)

variable (B : Build)

/-- `send_update`, up to its first copy-out: the encoding is chosen and the pieces are laid out. -/
def Session.sendUpdate (s : Session) (r : Rect) (incremental : Bool) : Session :=
  let viaHextile := s.clientHextile && s.htSkip == 0
  let encoding :=
    if viaHextile then .hextile
    else if B.zeroCopy && s.luts.fmtNative && r.x == 0 && r.w == B.geometry.width then .zeroCopy
    else Encoding.rows
  if s.fmt.bytes < 1 ∨ s.fmt.bytes > 4 ∨ r.w = 0 ∨ r.h = 0 then { s with pc := .closed }
  else
    { s with
      htSkip := if s.clientHextile && s.htSkip != 0 then s.htSkip - 1 else s.htSkip
      pc := .sending (encoding.pieces r) viaHextile incremental }

/-- The requested region as C passes it to `rect_isect`. -/
def Session.rqBox (s : Session) : Box := ⟨s.rq.x, s.rq.y, s.rq.w, s.rq.h⟩

def Box.toRect (b : Box) : Rect := ⟨b.x.toNat, b.y.toNat, b.w.toNat, b.h.toNat⟩

/-- Stage 1: take the dirty box and answer with its part in the requested region. -/
def Session.serviceRequest (s : Session) : Session :=
  let (dirty, screen) := fbTakeDirty s.screen
  match dirty.bind (rectIsect · s.rqBox) with
  | some b => ({ s with screen } : Session).sendUpdate B b.toRect true
  | none => { s with screen, pc := .waiting }

/-- The requested rectangle, clamped to the framebuffer. -/
def clampRequest (x y w h : BitVec 16) : Rect :=
  let x := if x.toNat > B.geometry.width then B.geometry.width else x.toNat
  let y := if y.toNat > B.geometry.height then B.geometry.height else y.toNat
  ⟨x, y, if x + w.toNat > B.geometry.width then B.geometry.width - x else w.toNat,
    if y + h.toNat > B.geometry.height then B.geometry.height - y else h.toNat⟩

/-- Stage 3: one message. -/
def Session.handle (s : Session) : Msg → Session
  | .setPixelFormat f => { s with fmt := f, luts := buildLuts B.wild f, pc := .top }
  | .setEncodings encodings =>
    { s with clientHextile := s.clientHextile || (B.hextile && encodings.contains 5), pc := .top }
  | .fbUpdateReq incr x y w h =>
    let r := clampRequest B x y w h
    if r.w = 0 ∨ r.h = 0 then { s with pc := .top }
    else if incr then { s with rq := r, pending := true, pc := .top }
    else s.sendUpdate B r false
  | .keyEvent | .pointerEvent | .clientCutText => { s with pc := .top }
  | .unknown => { s with pc := .closed }

/-- The ghost write of a copy-out: the client now has these pixels as they are. -/
def Session.copyOut (s : Session) (piece : Rect) : ℕ → ℕ → Option (BitVec 16) := fun px py =>
  if piece.Has px py then some (s.screen.at B.geometry px py) else s.sent px py

def step (s : Session) : Act → Option Session
  | .draw d => some { s with screen := d.apply B.geometry s.screen }
  | .check now =>
    if s.pc = .top then
      some (if s.due now then s.serviceRequest B else { s with pc := .waiting })
    else none
  | .pollTimeout => if s.pc = .waiting ∧ s.pending then some { s with pc := .top } else none
  | .message m => if s.pc = .waiting then some (s.handle B m) else none
  | .copy =>
    match s.pc with
    | .sending (piece :: left) viaHextile incremental =>
      some { s with sent := s.copyOut B piece, pc := .sending left viaHextile incremental }
    | _ => none
  | .updateSent poor now =>
    match s.pc with
    | .sending [] viaHextile incremental =>
      some { s with
        htSkip := if viaHextile && poor then htRetry else s.htSkip
        lastSend := now
        pending := s.pending && !incremental
        pc := if incremental then .waiting else .dropping }
    | _ => none
  | .drop =>
    if s.pc = .dropping then
      some { s with screen := (fbTakeDirty s.screen).2, pending := false, pc := .top }
    else none
  | .hangup => if s.pc = .closed then none else some { s with pc := .closed }

/-! ## What a take may drop -/

/-- The client has an outdated value of this pixel. -/
def Session.Stale (s : Session) (px py : ℕ) : Prop :=
  ∃ v, s.sent px py = some v ∧ v ≠ s.screen.at B.geometry px py

/-- **Every take drops only covered dirt**: stage 1 takes the box only when its outdated pixels lie in
the requested region, and a non-incremental update only when the box has no outdated pixel. -/
def DropsCovered (s : Session) : Act → Prop
  | .check now => s.due now = true → ∀ px < B.geometry.width, ∀ py < B.geometry.height,
      s.screen.InBox px py → s.Stale B px py → s.rq.Has px py
  | .drop => ∀ px < B.geometry.width, ∀ py < B.geometry.height,
      s.screen.InBox px py → ¬ s.Stale B px py
  | _ => True

/-- The pieces still to be copied out. -/
def Pc.left : Pc → List Rect
  | .sending left _ _ => left
  | _ => []

/-- **No change is lost**: while the session lives, an outdated pixel is in the dirty box or in a piece
still to be copied out. -/
def Session.Kept (s : Session) : Prop :=
  s.pc ≠ .closed → ∀ px < B.geometry.width, ∀ py < B.geometry.height, s.Stale B px py →
    s.screen.InBox px py ∨ ∃ piece ∈ s.pc.left, piece.Has px py

/-! ## Rectangles and pieces -/

theorem has_of_rectIsect {a b c : Box} (h : rectIsect a b = some c) (px py : ℕ) :
    c.Has px py ↔ a.Has px py ∧ b.Has px py := by
  simp only [rectIsect] at h
  split at h
  · simp at h
  · cases h
    simp only [Box.Has]
    omega

theorem not_has_of_rectIsect {a b : Box} (h : rectIsect a b = none) {px py : ℕ} (ha : a.Has px py) :
    ¬ b.Has px py := by
  simp only [rectIsect] at h
  split at h
  · simp only [Box.Has] at ha ⊢
    omega
  · simp at h

/-- On the screen's side of the axes a box and its rectangle agree. -/
theorem Box.has_toRect {b : Box} (hx : 0 ≤ b.x) (hy : 0 ≤ b.y) (px py : ℕ) :
    b.toRect.Has px py ↔ b.Has px py := by
  simp only [Box.toRect, Rect.Has, Box.Has]
  omega

theorem Session.has_rqBox (s : Session) (px py : ℕ) : s.rqBox.Has px py ↔ s.rq.Has px py := by
  simp only [Session.rqBox, Rect.Has, Box.Has]
  omega

/-- The intersection with a request stays on the screen's side of the axes. -/
theorem rectIsect_rqBox_nonneg {s : Session} {a c : Box} (h : rectIsect a s.rqBox = some c) :
    0 ≤ c.x ∧ 0 ≤ c.y := by
  simp only [rectIsect] at h
  split at h
  · simp at h
  · cases h
    simp only [Session.rqBox]
    omega

/-- **Every encoding copies out exactly the rectangle.** -/
theorem Encoding.exists_piece_has (e : Encoding) (r : Rect) (px py : ℕ) :
    (∃ piece ∈ e.pieces r, piece.Has px py) ↔ r.Has px py := by
  cases e with
  | hextile => simp only [Encoding.pieces, tileWalk_eq]; exact exists_tile_has
  | zeroCopy =>
    constructor
    · rintro ⟨piece, hmem, hp⟩
      simp only [Encoding.pieces, List.mem_flatMap, List.mem_map, List.mem_range] at hmem
      obtain ⟨j, hj, i, hi, rfl⟩ := hmem
      simp only [Rect.Has] at hp ⊢
      omega
    · rintro ⟨⟨hx0, hx1⟩, hy0, hy1⟩
      refine ⟨⟨px, py, 1, 1⟩, ?_, by simp only [Rect.Has]; omega⟩
      simp only [Encoding.pieces, List.mem_flatMap, List.mem_map, List.mem_range]
      refine ⟨py - r.y, by omega, px - r.x, by omega, ?_⟩
      rw [Nat.add_sub_cancel' hx0, Nat.add_sub_cancel' hy0]
  | rows =>
    constructor
    · rintro ⟨piece, hmem, hp⟩
      simp only [Encoding.pieces, List.mem_map, List.mem_range] at hmem
      obtain ⟨j, hj, rfl⟩ := hmem
      simp only [Rect.Has] at hp ⊢
      omega
    · rintro ⟨hx, hy0, hy1⟩
      refine ⟨⟨r.x, py, r.w, 1⟩, ?_, hx, by simp only; omega⟩
      simp only [Encoding.pieces, List.mem_map, List.mem_range]
      exact ⟨py - r.y, by omega, by rw [Nat.add_sub_cancel' hy0]⟩

variable {B} {s s' : Session} {px py : ℕ}

/-! ## One step -/

/-- **What starting an update does**: the session ends, or it is left as it was with the rectangle's
pixels to copy out. -/
theorem Session.sendUpdate_cases (s : Session) (r : Rect) (incremental : Bool) :
    (s.sendUpdate B r incremental).pc = .closed ∨
      (s.sendUpdate B r incremental).screen = s.screen ∧
      (s.sendUpdate B r incremental).sent = s.sent ∧
      (s.sendUpdate B r incremental).pc ≠ .closed ∧
      ∀ px py, (∃ piece ∈ (s.sendUpdate B r incremental).pc.left, piece.Has px py) ↔ r.Has px py := by
  simp only [Session.sendUpdate]
  split
  · exact Or.inl rfl
  · exact Or.inr ⟨rfl, rfl, nofun, Encoding.exists_piece_has _ r⟩

theorem Session.stale_congr {s s' : Session} (hfb : s'.screen.fb = s.screen.fb) (hsent : s'.sent = s.sent) :
    s'.Stale B px py ↔ s.Stale B px py := by
  simp only [Session.Stale, Screen.at, hfb, hsent]

/-- A session whose framebuffer, box and client are as before keeps what was kept, provided nothing
was left to copy out. -/
theorem Session.Kept.congr {s s' : Session} (h : s.Kept B) (hopen : s.pc ≠ .closed)
    (hleft : s.pc.left = []) (hscreen : s'.screen = s.screen) (hsent : s'.sent = s.sent) :
    s'.Kept B := by
  intro _ px hpx py hpy hstale
  rw [Session.stale_congr (by rw [hscreen]) hsent] at hstale
  rcases h hopen px hpx py hpy hstale with hbox | ⟨piece, hmem, _⟩
  · exact Or.inl (hscreen ▸ hbox)
  · rw [hleft] at hmem
    simp at hmem

/-- Drawing keeps every change: a pixel it changes is in the box it leaves. -/
theorem Session.Kept.draw (h : s.Kept B) (d : Draw) :
    ({ s with screen := d.apply B.geometry s.screen } : Session).Kept B := by
  intro hopen px hpx py hpy hstale
  by_cases hsame : (d.apply B.geometry s.screen).at B.geometry px py = s.screen.at B.geometry px py
  · have hold : s.Stale B px py := by
      obtain ⟨v, hv, hne⟩ := hstale
      exact ⟨v, hv, hsame ▸ hne⟩
    exact (h hopen px hpx py hpy hold).imp_left (d.inBox_of_inBox ·)
  · exact Or.inl (d.changed_inBox hpx hpy hsame)

/-- Copying a piece out keeps every change: its pixels are up to date. -/
theorem Session.Kept.copy (h : s.Kept B) {piece : Rect} {left : List Rect} {viaHextile incr : Bool}
    (hpc : s.pc = .sending (piece :: left) viaHextile incr) :
    ({ s with sent := s.copyOut B piece, pc := .sending left viaHextile incr } : Session).Kept B := by
  intro _ px hpx py hpy ⟨v, hv, hne⟩
  simp only [Session.copyOut] at hv
  split at hv
  · exact absurd (Option.some.inj hv).symm hne
  · rename_i hout
    rcases h (by rw [hpc]; nofun) px hpx py hpy ⟨v, hv, hne⟩ with hbox | ⟨q, hq, hhas⟩
    · exact Or.inl hbox
    · rw [hpc] at hq
      rcases List.mem_cons.mp hq with rfl | hq
      · exact absurd hhas hout
      · exact Or.inr ⟨q, hq, hhas⟩

/-- A non-incremental update leaves the box as it was, so starting one keeps every change. -/
theorem Session.Kept.sendUpdate (h : s.Kept B) (hopen : s.pc ≠ .closed) (hleft : s.pc.left = [])
    (r : Rect) (incr : Bool) : (s.sendUpdate B r incr).Kept B := by
  rcases s.sendUpdate_cases (B := B) r incr with hclosed | ⟨hscreen, hsent, _, _⟩
  · exact fun hne => absurd hclosed hne
  · exact h.congr hopen hleft hscreen hsent

/-- **What stage 1 does** once it is due: the session ends, or the box is empty and its part in the
requested region is to be copied out. -/
theorem Session.serviceRequest_cases (s : Session) :
    (s.serviceRequest B).pc = .closed ∨
      (s.serviceRequest B).screen = (fbTakeDirty s.screen).2 ∧
      (s.serviceRequest B).sent = s.sent ∧
      (s.serviceRequest B).pc ≠ .closed ∧
      ∀ px py, (∃ piece ∈ (s.serviceRequest B).pc.left, piece.Has px py) ↔
        s.screen.InBox px py ∧ s.rq.Has px py := by
  simp only [Session.serviceRequest]
  rcases htake : fbTakeDirty s.screen with ⟨_ | d, screen⟩
  · refine Or.inr ⟨rfl, rfl, nofun, fun px py => ?_⟩
    simp [Pc.left, not_inBox_of_fbTakeDirty htake]
  · simp only [Option.bind_some]
    have hbox := has_of_fbTakeDirty htake
    have hrq := s.has_rqBox
    cases hisect : rectIsect d s.rqBox with
    | none =>
      refine Or.inr ⟨rfl, rfl, nofun, fun px py => ?_⟩
      simp only [Pc.left, List.not_mem_nil, false_and, exists_false, false_iff, not_and]
      exact fun hin => (hrq px py).not.mp (not_has_of_rectIsect hisect ((hbox px py).mpr hin))
    | some b =>
      obtain ⟨hx, hy⟩ := rectIsect_rqBox_nonneg hisect
      refine (Session.sendUpdate_cases { s with screen } b.toRect true).imp_right ?_
      rintro ⟨hscreen, hsent, hopen, hleft⟩
      refine ⟨hscreen, hsent, hopen, fun px py => ?_⟩
      rw [← hbox, ← hrq, ← has_of_rectIsect hisect, ← Box.has_toRect hx hy]
      exact hleft px py

/-- An outdated pixel is in the box when nothing is left to copy out. -/
theorem Session.Kept.inBox (h : s.Kept B) (hopen : s.pc ≠ .closed) (hleft : s.pc.left = [])
    (hpx : px < B.geometry.width) (hpy : py < B.geometry.height) (hstale : s.Stale B px py) :
    s.screen.InBox px py := by
  rcases h hopen px hpx py hpy hstale with hin | ⟨piece, hmem, _⟩
  · exact hin
  · rw [hleft] at hmem
    simp at hmem

/-- **Stage 1 keeps every change** exactly when the outdated pixels of the box lie in the requested
region. -/
theorem Session.Kept.serviceRequest (h : s.Kept B) (hpc : s.pc = .top)
    (hcov : ∀ px < B.geometry.width, ∀ py < B.geometry.height,
      s.screen.InBox px py → s.Stale B px py → s.rq.Has px py) : (s.serviceRequest B).Kept B := by
  rcases s.serviceRequest_cases (B := B) with hclosed | ⟨hscreen, hsent, hopen, hleft⟩
  · exact fun hne => absurd hclosed hne
  · intro _ px hpx py hpy hstale
    rw [Session.stale_congr (by rw [hscreen, fbTakeDirty_fb]) hsent] at hstale
    have hin := h.inBox (by rw [hpc]; nofun) (by rw [hpc]; rfl) hpx hpy hstale
    exact Or.inr ((hleft px py).mpr ⟨hin, hcov px hpx py hpy hin hstale⟩)

/-- Taking the box keeps every change when no pixel of it is outdated. -/
theorem Session.Kept.drop (h : s.Kept B) (hpc : s.pc = .dropping)
    (hcov : ∀ px < B.geometry.width, ∀ py < B.geometry.height,
      s.screen.InBox px py → ¬ s.Stale B px py) :
    ({ s with screen := (fbTakeDirty s.screen).2, pending := false, pc := .top } : Session).Kept B := by
  intro _ px hpx py hpy hstale
  have hold : s.Stale B px py := by
    refine hstale.imp fun v hv => ⟨hv.1, ?_⟩
    simpa only [Screen.at, fbTakeDirty_fb] using hv.2
  exact absurd hold (hcov px hpx py hpy (h.inBox (by simp [hpc]) (by rw [hpc]; rfl) hpx hpy hold))

theorem Session.Kept.handle (h : s.Kept B) (hpc : s.pc = .waiting) (m : Msg) :
    (s.handle B m).Kept B := by
  have hopen : s.pc ≠ .closed := by rw [hpc]; nofun
  have hleft : s.pc.left = [] := by rw [hpc]; rfl
  cases m with
  | fbUpdateReq incr x y w h' =>
    simp only [Session.handle]
    split
    · exact h.congr hopen hleft rfl rfl
    · split
      · exact h.congr hopen hleft rfl rfl
      · exact h.sendUpdate hopen hleft _ _
  | unknown => exact fun hne => absurd rfl hne
  | _ => exact h.congr hopen hleft rfl rfl

/-- **One step keeps every change** when its take, if it makes one, drops only covered dirt. -/
theorem Session.Kept.step {a : Act} (h : s.Kept B) (hcov : DropsCovered B s a)
    (hstep : step B s a = some s') : s'.Kept B := by
  cases a with
  | draw d =>
    cases hstep
    exact h.draw d
  | check now =>
    simp only [Vnc.step, Option.ite_none_right_eq_some] at hstep
    obtain ⟨hpc, hstep⟩ := hstep
    cases hstep
    split
    · rename_i hdue
      exact h.serviceRequest hpc (hcov hdue)
    · exact h.congr (by rw [hpc]; nofun) (by rw [hpc]; rfl) rfl rfl
  | pollTimeout =>
    simp only [Vnc.step, Option.ite_none_right_eq_some] at hstep
    obtain ⟨⟨hpc, _⟩, hstep⟩ := hstep
    cases hstep
    exact h.congr (by rw [hpc]; nofun) (by rw [hpc]; rfl) rfl rfl
  | message m =>
    simp only [Vnc.step, Option.ite_none_right_eq_some] at hstep
    obtain ⟨hpc, hstep⟩ := hstep
    cases hstep
    exact h.handle hpc m
  | copy =>
    simp only [Vnc.step] at hstep
    split at hstep
    · rename_i piece left viaHextile incr hpc
      cases hstep
      exact h.copy hpc
    · simp at hstep
  | updateSent poor now =>
    simp only [Vnc.step] at hstep
    split at hstep
    · rename_i viaHextile incr hpc
      cases hstep
      exact h.congr (by rw [hpc]; nofun) (by rw [hpc]; rfl) rfl rfl
    · simp at hstep
  | drop =>
    simp only [Vnc.step, Option.ite_none_right_eq_some] at hstep
    obtain ⟨hpc, hstep⟩ := hstep
    cases hstep
    exact h.drop hpc hcov
  | hangup =>
    simp only [Vnc.step, Option.ite_none_left_eq_some] at hstep
    obtain rfl := Option.some.inj hstep.2
    exact fun hne => absurd rfl hne

/-- The client has received every pixel at least once. -/
def Session.Received (B : Build) (s : Session) : Prop :=
  ∀ px < B.geometry.width, ∀ py < B.geometry.height, s.sent px py ≠ none

/-- **No screen change is lost** in a run whose takes drop only covered dirt: whenever the server
waits for a client that has received every pixel, a pixel that differs from what the client has is in
the dirty box. -/
theorem changed_inBox_of_dropsCovered (B : Build) {screen : Screen} {s : Session}
    (hrun : Reaches (step B) (DropsCovered B) (Session.start B screen) s) (hwait : s.pc = .waiting)
    (hall : s.Received B) {px py : ℕ} (hpx : px < B.geometry.width) (hpy : py < B.geometry.height)
    (hne : s.sent px py ≠ some (s.screen.at B.geometry px py)) : s.screen.InBox px py := by
  have hkept : s.Kept B :=
    hrun.invariant (fun h hcov hstep => h.step hcov hstep) fun _ px _ py _ ⟨_, hv, _⟩ => nomatch hv
  obtain ⟨v, hv⟩ := Option.ne_none_iff_exists'.mp (hall px hpx py hpy)
  refine hkept.inBox (by rw [hwait]; nofun) (by rw [hwait]; rfl) hpx hpy ⟨v, hv, fun heq => hne ?_⟩
  rw [hv, heq]

/-! ## A change that is lost -/

theorem reaches_copied {left : List Rect} {viaHextile incr : Bool}
    (hpc : s.pc = .sending left viaHextile incr) :
    Reaches (step B) (DropsCovered B) s
      { s with
        sent := fun px py => if ∃ piece ∈ left, piece.Has px py then
          some (s.screen.at B.geometry px py) else s.sent px py
        pc := .sending [] viaHextile incr } := by
  induction left generalizing s with
  | nil =>
    have hsame : s = { s with pc := .sending [] viaHextile incr } := by rw [← hpc]
    simp only [List.not_mem_nil, false_and, exists_false, if_false]
    rw [← hsame]
    exact Reaches.refl
  | cons piece left ih =>
    have hfirst : Reaches (step B) (DropsCovered B) s
        { s with sent := s.copyOut B piece, pc := .sending left viaHextile incr } :=
      Reaches.refl.snoc (a := .copy) trivial (by simp only [step, hpc])
    refine hfirst.trans ?_
    convert ih (s := { s with sent := s.copyOut B piece, pc := .sending left viaHextile incr }) rfl
      using 2
    ext px py : 2
    simp only [List.exists_mem_cons_iff, Session.copyOut]
    by_cases hleft : ∃ q ∈ left, q.Has px py <;> simp [hleft]

/-- A black screen with nothing dirty. -/
def blank : Screen := ⟨fun _ => 0, 0, 0, 0, 0⟩

/-- The default build, its client just repainted from the blank screen. -/
def repainted : Session where
  screen := blank
  sent px py := if (⟨0, 0, 640, 480⟩ : Rect).Has px py then some 0 else none
  fmt := nativeFmt
  luts := buildLuts Build.default.wild nativeFmt
  clientHextile := false
  htSkip := 0
  pending := false
  rq := ⟨0, 0, 0, 0⟩
  lastSend := 0
  pc := .waiting

theorem reaches_repainted :
    Reaches (step Build.default) (DropsCovered Build.default)
      (Session.start Build.default blank) repainted := by
  -- the client asks for the whole screen, non-incrementally
  have hask : Reaches (step Build.default) (DropsCovered Build.default)
      (Session.start Build.default blank)
      { Session.start Build.default blank with
        pc := .sending (Encoding.zeroCopy.pieces ⟨0, 0, 640, 480⟩) false false } :=
    (Reaches.refl.snoc (a := .check 0) nofun rfl).snoc
      (a := .message (.fbUpdateReq false 0 0 640 480)) trivial rfl
  have hcopied := hask.trans (reaches_copied rfl)
  simp only [Encoding.exists_piece_has] at hcopied
  have hdropping := hcopied.snoc (a := Act.updateSent false 0) trivial rfl
  have hclean : ∀ px py, ¬ blank.InBox px py := by
    simp only [Screen.InBox, blank]
    omega
  have htop := hdropping.snoc (a := Act.drop) (fun px _ py _ hin => absurd hin (hclean px py)) rfl
  exact htop.snoc (a := Act.check 0) nofun rfl

theorem repainted_received : repainted.Received Build.default := by
  intro px hpx py hpy
  have hin : (⟨0, 0, 640, 480⟩ : Rect).Has px py :=
    ⟨⟨Nat.zero_le _, by rw [Nat.zero_add]; exact hpx⟩, Nat.zero_le _, by rw [Nat.zero_add]; exact hpy⟩
  simp [repainted, hin]

/-- **A change is lost**: after a full repaint the client asks, incrementally, for the pixel at the
origin; someone draws at (5,5); stage 1 takes the box, finds no overlap with the request and waits with
the box empty. -/
theorem not_forall_changed_inBox :
    ¬ ∀ (screen : Screen) (s : Session),
      Reaches (step Build.default) anyStep (Session.start Build.default screen) s →
      s.pc = .waiting → s.Received Build.default →
      ∀ px < Build.default.geometry.width, ∀ py < Build.default.geometry.height,
        s.sent px py ≠ some (s.screen.at Build.default.geometry px py) → s.screen.InBox px py := by
  intro hall
  have hrepainted : Reaches (step Build.default) anyStep _ repainted :=
    reaches_repainted.mono fun _ _ _ => trivial
  have hasked := hrepainted.snoc (a := Act.message (.fbUpdateReq true 0 0 1 1)) trivial rfl
  have hdrawn := hasked.snoc (a := Act.draw (.putPixel 5 5 0xFFFF)) trivial rfl
  have hserved := hdrawn.snoc (a := Act.check 100) trivial rfl
  have hin := hall blank _ hserved rfl repainted_received 5 (by decide) 5 (by decide) (by decide)
  revert hin
  decide

/-- The repainted session after a pixel is drawn. -/
def drawnOver : Session :=
  { repainted with screen := fbPutPixel Build.default.geometry blank 5 5 0xFFFF }

/-- On the same run, up to the drawing, the dirt is kept. -/
theorem changed_inBox_drawnOver :
    drawnOver.pc = .waiting ∧ drawnOver.Received Build.default ∧
      drawnOver.sent 5 5 ≠ some (drawnOver.screen.at Build.default.geometry 5 5) ∧
      drawnOver.screen.InBox 5 5 :=
  ⟨rfl, repainted_received, by decide,
    changed_inBox_of_dropsCovered Build.default
      (reaches_repainted.snoc (a := Act.draw (.putPixel 5 5 0xFFFF)) trivial rfl) rfl
      repainted_received (by decide) (by decide) (by decide)⟩

end KlaussRuntime.Vnc
