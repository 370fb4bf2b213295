import KlaussRuntime.Vnc.Messages

/-!
# Vnc/Connection — the server and its connections, one after the other

`vnc_main` accepts one client at a time and hands it to `serve_client`: a handshake, then the loop of
`Vnc/Session` with its messages read off the socket.  A `Conn` is the session, the bytes still to
come, and a log of what happened on the connection — messages handled, calls of `send_update`, sizes of
what Hextile made of them — together with the calls of the input callbacks.

* `update_onScreen` — whatever the client sends, every rectangle handed to `send_update` lies on the
  screen.
* `Conn.Framed.connStep` — on a stream of well-formed messages the log is the messages so far, and what
  is left of the stream is the messages to come.
-/

namespace KlaussRuntime.Vnc

open Machinery Machinery.Hextile

/-! ## The server -/

/-- What happens on a connection. -/
inductive Event where
  /-- a message was read and handled -/
  | handled (m : ClientMsg)
  /-- `send_update` was called, and goes on to `send_rect_hextile` or to `send_rect` -/
  | update (r : Box) (hextile : Bool)
  /-- a Hextile update is out in `total` bytes; Raw would have taken `raw` -/
  | compressed (total raw : ℕ)

structure Conn where
  session : Session
  /-- the client's bytes not read yet -/
  inlet : Inlet
  /-- the arguments of the last `send_update` -/
  rect : Box
  log : List Event
  /-- the calls of `s_key_cb` and `s_ptr_cb` -/
  calls : List Callback

/-- One move of the system. -/
inductive Move where
  /-- a client connects; its bytes come as the inlet says -/
  | accept (i : Inlet)
  /-- stage 1 of the loop, with the clock's answer -/
  | check (now : ℤ)
  /-- stage 3 of the loop -/
  | receive
  /-- `send_update` returns; `total` is what `send_rect_hextile` counted -/
  | updateSent (total : ℕ) (now : ℤ)
  /-- another thread marks a rectangle dirty, under `fb_lock` -/
  | markDirty (x y w h : ℤ)
  | draw (d : Draw)
  | pollTimeout
  | copy
  | drop
  /-- a send, a receive or the poll fails -/
  | hangup

/-- `client_hextile` and no update left to send Raw. -/
def Session.viaHextile (s : Session) : Bool := s.clientHextile && s.htSkip == 0

/-- A rectangle as C passes it. -/
def boxOf (r : Rect) : Box := ⟨r.x, r.y, r.w, r.h⟩

variable (B : Build)

/-- The rectangle stage 1 hands to `send_update`. -/
def Session.dueUpdate (s : Session) (now : ℤ) : Option Box :=
  if s.due now then (fbTakeDirty s.screen).1.bind (rectIsect · s.rqBox) else none

/-- The rectangle a message makes stage 3 hand to `send_update`. -/
def ClientMsg.askedUpdate : ClientMsg → Option Box
  | .fbUpdateReq incr x y w h =>
    let r := clampRequest B x y w h
    if incr ≠ 0 ∨ r.w = 0 ∨ r.h = 0 then none else some (boxOf r)
  | _ => none

/-- The connection with its session moved on, which may have called `send_update`. -/
def Conn.goOn (c : Conn) (s : Session) : Option Box → Conn
  | none => { c with session := s }
  | some r => { c with session := s, rect := r, log := c.log ++ [.update r c.session.viaHextile] }

/-- The connection after reading a message. -/
def Conn.read (c : Conn) (m : ClientMsg) (i : Inlet) : Conn :=
  { c with inlet := i, log := c.log ++ [.handled m], calls := c.calls ++ m.callbacks }

def Conn.close (c : Conn) : Conn := { c with session := { c.session with pc := .closed } }

/-- `w * h * bytes` of the update under way. -/
def Conn.rawBytes (c : Conn) : ℕ := (c.rect.w * c.rect.h).toNat * c.session.fmt.bytes

/-- What the log says when an update is out. -/
def Conn.sizeEvent (c : Conn) (total : ℕ) : List Event :=
  match c.session.pc with
  | .sending _ true _ => [.compressed total c.rawBytes]
  | _ => []

/-- A move of the session the log does not show. -/
def Conn.move (c : Conn) (a : Act) : Option Conn :=
  (step B c.session a).map fun s => { c with session := s }

def connStep (c : Conn) : Move → Option Conn
  | .accept i =>
    if c.session.pc = .closed then
      match readHandshake.run i with
      | some (_, i) => some ⟨Session.start B c.session.screen, i, ⟨0, 0, 0, 0⟩, [], []⟩
      | none => some { c with inlet := i, log := [], calls := [] }
    else none
  | .check now =>
    (step B c.session (.check now)).map fun s => c.goOn s (c.session.dueUpdate now)
  | .receive =>
    if c.session.pc = .waiting then
      match readMessage.run c.inlet with
      | some (m, i) => some ((c.read m i).goOn (c.session.handle B m.toMsg) (m.askedUpdate B))
      | none => some c.close
    else none
  | .updateSent total now =>
    (step B c.session (.updateSent (decide (total * 8 > c.rawBytes * 7)) now)).map fun s =>
      { c with session := s, log := c.log ++ c.sizeEvent total }
  | .markDirty x y w h => some { c with
      session := { c.session with screen := dirtyAddLocked B.geometry c.session.screen x y w h } }
  | .draw d => c.move B (.draw d)
  | .pollTimeout => c.move B .pollTimeout
  | .copy => c.move B .copy
  | .drop => c.move B .drop
  | .hangup => c.move B .hangup

/-- The server before its first client. -/
def Conn.boot (screen : Screen) : Conn :=
  ⟨{ Session.start B screen with pc := .closed }, ⟨fun _ _ => 0, 0, []⟩, ⟨0, 0, 0, 0⟩, [], []⟩

/-! ## What a move does -/

/-- The box lies on the screen and is not empty. -/
def Box.OnScreen (G : Geometry) (b : Box) : Prop :=
  0 ≤ b.x ∧ 0 ≤ b.y ∧ 0 < b.w ∧ 0 < b.h ∧ b.x + b.w ≤ G.width ∧ b.y + b.h ≤ G.height

/-- The settings a client makes are as before, and so is what is being sent. -/
structure Session.Calm (s s' : Session) : Prop where
  fmt : s'.fmt = s.fmt
  rq : s'.rq = s.rq
  clientHextile : s'.clientHextile = s.clientHextile
  htSkip : s'.htSkip = s.htSkip
  closed : s'.pc = .closed ↔ s.pc = .closed
  sending : ∀ {left viaHextile incr}, s'.pc = .sending left viaHextile incr →
    ∃ left', s.pc = .sending left' viaHextile incr

variable {B} {s s' : Session} {c c' : Conn}

theorem Session.sendUpdate_settings (s : Session) (r : Rect) (incr : Bool) :
    (s.sendUpdate B r incr).fmt = s.fmt ∧ (s.sendUpdate B r incr).rq = s.rq ∧
      (s.sendUpdate B r incr).clientHextile = s.clientHextile := by
  simp only [Session.sendUpdate]
  split <;> exact ⟨rfl, rfl, rfl⟩

/-- **Starting an update**: its arguments are refused, or it is on its way and counted. -/
theorem Session.sendUpdate_pc (s : Session) (r : Rect) (incr : Bool) :
    (s.sendUpdate B r incr).pc = .closed ∧ (s.fmt.bytes < 1 ∨ s.fmt.bytes > 4 ∨ r.w = 0 ∨ r.h = 0) ∨
      (∃ left, (s.sendUpdate B r incr).pc = .sending left s.viaHextile incr) ∧
      (s.sendUpdate B r incr).htSkip = if s.clientHextile then s.htSkip - 1 else s.htSkip := by
  by_cases hbad : s.fmt.bytes < 1 ∨ s.fmt.bytes > 4 ∨ r.w = 0 ∨ r.h = 0
  · exact .inl ⟨by simp only [Session.sendUpdate, if_pos hbad], hbad⟩
  · refine .inr ⟨⟨_, by simp only [Session.sendUpdate, if_neg hbad]; rfl⟩, ?_⟩
    simp only [Session.sendUpdate, if_neg hbad]
    cases s.clientHextile with
    | false => rfl
    | true =>
      rcases Nat.eq_zero_or_pos s.htSkip with h0 | hpos
      · simp [h0]
      · simp [hpos.ne']

/-- Other threads, time-outs, copies and takes leave the client's settings alone. -/
theorem Session.calm_of_step {a : Act} (h : step B s a = some s')
    (ha : (∃ d, a = .draw d) ∨ a = .pollTimeout ∨ a = .copy ∨ a = .drop) : s.Calm s' := by
  obtain ⟨d, rfl⟩ | rfl | rfl | rfl := ha
  · cases h
    exact ⟨rfl, rfl, rfl, rfl, Iff.rfl, fun hpc => ⟨_, hpc⟩⟩
  · simp only [step, Option.ite_none_right_eq_some] at h
    obtain rfl := Option.some.inj h.2
    exact ⟨rfl, rfl, rfl, rfl, by simp [h.1.1], fun h => Pc.noConfusion h⟩
  · simp only [step] at h
    split at h
    · rename_i piece left viaHextile incr hpc
      cases h
      refine ⟨rfl, rfl, rfl, rfl, by simp [hpc], fun hpc' => ⟨piece :: left, ?_⟩⟩
      obtain ⟨-, rfl, rfl⟩ := Pc.sending.inj hpc'
      exact hpc
    · simp at h
  · simp only [step, Option.ite_none_right_eq_some] at h
    obtain rfl := Option.some.inj h.2
    exact ⟨rfl, rfl, rfl, rfl, by simp [h.1], fun h => Pc.noConfusion h⟩

/-- **Stage 1**: nothing is due, or the box's part in the requested region is sent. -/
theorem Session.check_cases {now : ℤ} (h : step B s (.check now) = some s') :
    s.dueUpdate now = none ∧ s.Calm s' ∨
      ∃ r d screen, s.dueUpdate now = some r ∧ rectIsect d s.rqBox = some r ∧
        s' = ({ s with screen } : Session).sendUpdate B r.toRect true := by
  simp only [step, Option.ite_none_right_eq_some] at h
  obtain ⟨hpc, h⟩ := h
  cases h
  by_cases hdue : s.due now = true
  · simp only [Session.dueUpdate, hdue, if_true, Session.serviceRequest]
    cases hbox : (fbTakeDirty s.screen).1.bind (rectIsect · s.rqBox) with
    | none => exact .inl ⟨rfl, rfl, rfl, rfl, rfl, by simp [hpc], fun h => Pc.noConfusion h⟩
    | some r =>
      obtain ⟨d, -, hr⟩ := Option.bind_eq_some_iff.mp hbox
      exact .inr ⟨r, d, _, rfl, hr, rfl⟩
  · simp only [Session.dueUpdate, hdue, Bool.false_eq_true, if_false]
    exact .inl ⟨trivial, rfl, rfl, rfl, rfl, by simp [hpc], fun h => Pc.noConfusion h⟩

/-- **The end of an update.** -/
theorem Session.updateSent_cases {poor : Bool} {now : ℤ} (h : step B s (.updateSent poor now) = some s') :
    ∃ viaHextile incr, s.pc = .sending [] viaHextile incr ∧ s'.fmt = s.fmt ∧ s'.rq = s.rq ∧
      s'.clientHextile = s.clientHextile ∧
      s'.htSkip = (if viaHextile && poor then htRetry else s.htSkip) ∧
      (s'.pc = .waiting ∨ s'.pc = .dropping) := by
  simp only [step] at h
  split at h
  · rename_i viaHextile incr hpc
    cases h
    refine ⟨viaHextile, incr, hpc, rfl, rfl, rfl, rfl, ?_⟩
    cases incr <;> simp
  · simp at h

/-- The message lists encoding 5. -/
def ClientMsg.listsHextile : ClientMsg → Bool
  | .setEncodings encodings => encodings.contains 5
  | _ => false

/-- The region lies on the screen. -/
def InScreen (G : Geometry) (r : Rect) : Prop := r.x + r.w ≤ G.width ∧ r.y + r.h ≤ G.height

theorem clampRequest_inScreen (x y w h : BitVec 16) :
    InScreen B.geometry (clampRequest B x y w h) := by
  simp only [InScreen, clampRequest]
  split_ifs <;> omega

/-- **Stage 3**: the message asks for a repaint, which is sent, or the server goes back to the head of
the loop. -/
theorem Session.handle_cases (B : Build) (s : Session) (m : ClientMsg) :
    (∃ r, m.askedUpdate B = some (boxOf r) ∧ InScreen B.geometry r ∧ r.w ≠ 0 ∧ r.h ≠ 0 ∧
        m.listsHextile = false ∧ s.handle B m.toMsg = s.sendUpdate B r false) ∨
      (m.askedUpdate B = none ∧ (s.handle B m.toMsg).pc = .top ∧
        ((s.handle B m.toMsg).rq = s.rq ∨ InScreen B.geometry (s.handle B m.toMsg).rq) ∧
        (s.handle B m.toMsg).htSkip = s.htSkip ∧
        (s.handle B m.toMsg).clientHextile = (s.clientHextile || (B.hextile && m.listsHextile)) ∧
        ((s.handle B m.toMsg).fmt = s.fmt ∨ m = .setPixelFormat (s.handle B m.toMsg).fmt)) := by
  cases m with
  | fbUpdateReq incr x y w h =>
    have hclamp := clampRequest_inScreen (B := B) x y w h
    simp only [ClientMsg.askedUpdate, ClientMsg.toMsg, Session.handle, ClientMsg.listsHextile]
    by_cases hempty : (clampRequest B x y w h).w = 0 ∨ (clampRequest B x y w h).h = 0
    · right
      simp [hempty]
    · by_cases hincr : incr = 0#8
      · left
        rw [not_or] at hempty
        exact ⟨_, by simp [hincr, hempty], hclamp, hempty.1, hempty.2, trivial, by simp [hincr, hempty]⟩
      · right
        simp [hincr, hempty, hclamp]
  | _ => right; simp [ClientMsg.askedUpdate, ClientMsg.toMsg, Session.handle, ClientMsg.listsHextile]

/-- **What a move can do.** -/
inductive Outcome (B : Build) (c : Conn) : Move → Conn → Prop
  | calm (a : Move) (s' : Session) (hcalm : c.session.Calm s') : Outcome B c a { c with session := s' }
  | greeted (i i' : Inlet) (hpc : c.session.pc = .closed)
      (hread : readHandshake.run i = some ((), i')) :
      Outcome B c (.accept i) ⟨Session.start B c.session.screen, i', ⟨0, 0, 0, 0⟩, [], []⟩
  | refused (i : Inlet) (hpc : c.session.pc = .closed) (hread : readHandshake.run i = none) :
      Outcome B c (.accept i) { c with inlet := i, log := [], calls := [] }
  | served (now : ℤ) (r d : Box) (screen : Screen) (hopen : c.session.pc ≠ .closed)
      (hr : rectIsect d c.session.rqBox = some r) :
      Outcome B c (.check now)
        (c.goOn (({ c.session with screen } : Session).sendUpdate B r.toRect true) (some r))
  | handled (m : ClientMsg) (i : Inlet) (hpc : c.session.pc = .waiting)
      (hread : readMessage.run c.inlet = some (m, i)) :
      Outcome B c .receive ((c.read m i).goOn (c.session.handle B m.toMsg) (m.askedUpdate B))
  | ended (hread : readMessage.run c.inlet = none) : Outcome B c .receive c.close
  | sent (total : ℕ) (now : ℤ) (s' : Session)
      (hs' : step B c.session (.updateSent (decide (total * 8 > c.rawBytes * 7)) now) = some s') :
      Outcome B c (.updateSent total now) { c with session := s', log := c.log ++ c.sizeEvent total }
  | hungUp : Outcome B c .hangup c.close

theorem outcome_of_connStep {a : Move} (h : connStep B c a = some c') : Outcome B c a c' := by
  have hmove {a : Move} {act : Act} (h : c.move B act = some c')
      (hact : (∃ d, act = .draw d) ∨ act = .pollTimeout ∨ act = .copy ∨ act = .drop) :
      Outcome B c a c' := by
    obtain ⟨s', hs', rfl⟩ := Option.map_eq_some_iff.mp h
    exact .calm a s' (Session.calm_of_step hs' hact)
  cases a with
  | accept i =>
    simp only [connStep, Option.ite_none_right_eq_some] at h
    obtain ⟨hpc, h⟩ := h
    split at h
    · rename_i i' hread
      cases h
      exact .greeted i i' hpc hread
    · rename_i hread
      cases h
      exact .refused i hpc hread
  | check now =>
    obtain ⟨s', hs', rfl⟩ := Option.map_eq_some_iff.mp h
    obtain ⟨hpc, -⟩ := Option.ite_none_right_eq_some.mp hs'
    obtain ⟨hdue, hcalm⟩ | ⟨r, d, screen, hdue, hr, rfl⟩ := Session.check_cases hs'
    · rw [hdue]
      exact .calm _ s' hcalm
    · rw [hdue]
      exact .served now r d screen (by simp [hpc]) hr
  | receive =>
    simp only [connStep, Option.ite_none_right_eq_some] at h
    obtain ⟨hpc, h⟩ := h
    split at h
    · rename_i m i hread
      cases h
      exact .handled m i hpc hread
    · rename_i hread
      cases h
      exact .ended hread
  | updateSent total now =>
    obtain ⟨s', hs', rfl⟩ := Option.map_eq_some_iff.mp h
    exact .sent total now s' hs'
  | markDirty x y w h' =>
    cases h
    exact .calm _ _ ⟨rfl, rfl, rfl, rfl, Iff.rfl, fun hpc => ⟨_, hpc⟩⟩
  | draw d => exact hmove h (.inl ⟨d, rfl⟩)
  | pollTimeout => exact hmove h (.inr (.inl rfl))
  | copy => exact hmove h (.inr (.inr (.inl rfl)))
  | drop => exact hmove h (.inr (.inr (.inr rfl)))
  | hangup =>
    obtain ⟨s', hs', rfl⟩ := Option.map_eq_some_iff.mp h
    simp only [step, Option.ite_none_left_eq_some] at hs'
    cases hs'.2
    exact .hungUp

/-! ## Every update is on the screen -/

theorem onScreen_boxOf {G : Geometry} {r : Rect} (h : InScreen G r) (hw : r.w ≠ 0) (hh : r.h ≠ 0) :
    (boxOf r).OnScreen G := by
  simp only [InScreen, boxOf, Box.OnScreen] at *
  omega

/-- What a region on the screen meets is on the screen, wherever the other box lies. -/
theorem onScreen_rectIsect {G : Geometry} {d r : Box} (hrq : InScreen G s.rq)
    (h : rectIsect d s.rqBox = some r) : r.OnScreen G := by
  simp only [rectIsect] at h
  split at h
  · simp at h
  · cases h
    simp only [InScreen, Box.OnScreen, Session.rqBox] at *
    omega

/-- The requested region and every update so far are on the screen. -/
structure Conn.OnScreen (B : Build) (c : Conn) : Prop where
  rq : InScreen B.geometry c.session.rq
  updates : ∀ {r hextile}, Event.update r hextile ∈ c.log → r.OnScreen B.geometry

theorem Conn.OnScreen.goOn (hlog : ∀ {r hextile}, Event.update r hextile ∈ c.log →
    r.OnScreen B.geometry) (hrq : InScreen B.geometry s'.rq) {r : Option Box}
    (hr : ∀ b ∈ r, b.OnScreen B.geometry) : (c.goOn s' r).OnScreen B := by
  cases r with
  | none => exact ⟨hrq, hlog⟩
  | some b =>
    refine ⟨hrq, fun {r hextile} hmem => ?_⟩
    rcases List.mem_append.mp hmem with hold | hnew
    · exact hlog hold
    · obtain ⟨rfl, -⟩ := Event.update.inj (List.mem_singleton.mp hnew)
      exact hr r rfl

/-- One move keeps the requested region and the updates on the screen. -/
theorem Conn.OnScreen.connStep {a : Move} (h : c.OnScreen B) (hstep : connStep B c a = some c') :
    c'.OnScreen B := by
  cases outcome_of_connStep hstep with
  | calm a s' hcalm => exact ⟨hcalm.rq ▸ h.rq, h.updates⟩
  | greeted i i' hpc hread => exact ⟨⟨Nat.zero_le _, Nat.zero_le _⟩, fun h => absurd h List.not_mem_nil⟩
  | refused i hpc hread => exact ⟨h.rq, fun h => absurd h List.not_mem_nil⟩
  | served now r d screen hopen hr =>
    refine Conn.OnScreen.goOn h.updates ?_ ?_
    · rw [(Session.sendUpdate_settings _ _ _).2.1]
      exact h.rq
    · intro b hb
      exact onScreen_rectIsect h.rq (hr.trans hb)
  | handled m i hpc hread =>
    have hlog : ∀ {r hextile}, Event.update r hextile ∈ (c.read m i).log → r.OnScreen B.geometry :=
      fun hmem => h.updates (by simpa [Conn.read] using hmem)
    obtain ⟨r, hask, hin, hw, hh, -, hhandle⟩ | ⟨hask, -, hrq, -⟩ := c.session.handle_cases B m
    · rw [hask, hhandle]
      refine Conn.OnScreen.goOn hlog ?_ ?_
      · rw [(Session.sendUpdate_settings _ _ _).2.1]
        exact h.rq
      · intro b hb
        cases hb
        exact onScreen_boxOf hin hw hh
    · rw [hask]
      exact Conn.OnScreen.goOn hlog (hrq.elim (fun heq => heq ▸ h.rq) id) (by simp)
  | ended hread => exact ⟨h.rq, h.updates⟩
  | sent total now s' hs' =>
    obtain ⟨viaHextile, incr, -, -, hrq, -⟩ := Session.updateSent_cases hs'
    refine ⟨hrq ▸ h.rq, fun {r hextile} hmem => ?_⟩
    rcases List.mem_append.mp hmem with hold | hnew
    · exact h.updates hold
    · unfold Conn.sizeEvent at hnew
      split at hnew <;> simp at hnew
  | hungUp => exact ⟨h.rq, h.updates⟩

/-- **Every update stays on the screen**, whatever clients send and other threads draw. -/
theorem update_onScreen {screen : Screen} (hrun : Reaches (connStep B) anyStep (Conn.boot B screen) c)
    {r : Box} {hextile : Bool} (hmem : .update r hextile ∈ c.log) : r.OnScreen B.geometry := by
  have h : c.OnScreen B := hrun.invariant (fun h _ hstep => h.connStep hstep)
    ⟨⟨Nat.zero_le _, Nat.zero_le _⟩, fun h => absurd h List.not_mem_nil⟩
  exact h.updates hmem

/-! ## Every message is handled once -/

/-- The bytes of messages one after the other. -/
def stream (msgs : List (ClientMsg × (ℕ → Byte))) : List Byte := msgs.flatMap fun m => m.1.wire m.2

def Event.message? : Event → Option ClientMsg
  | .handled m => some m
  | _ => none

/-- The messages handled on the connection. -/
def Conn.messages (c : Conn) : List ClientMsg := c.log.filterMap Event.message?

/-- The connection goes on: no other client, and nothing fails. -/
def Move.Served : Move → Prop
  | .accept _ | .hangup => False
  | _ => True

/-- A format the senders take. -/
def Pixfmt.Sendable (f : Pixfmt) : Prop := 1 ≤ f.bytes ∧ f.bytes ≤ 4

/-- **The first `k` messages are handled, the others are still to come**, and the connection ends only
after the last. -/
structure Conn.Framed (msgs : List (ClientMsg × (ℕ → Byte))) (k : ℕ) (c : Conn) : Prop where
  le : k ≤ msgs.length
  messages : c.messages = (msgs.map Prod.fst).take k
  calls : c.calls = c.messages.flatMap ClientMsg.callbacks
  pending : c.inlet.pending = stream (msgs.drop k)
  healthy : c.inlet.Healthy
  sendable : c.session.fmt.Sendable
  closed : c.session.pc = .closed → k = msgs.length

variable {msgs : List (ClientMsg × (ℕ → Byte))} {k : ℕ}

theorem rectIsect_pos {d b r : Box} (h : rectIsect d b = some r) : 0 < r.w ∧ 0 < r.h := by
  simp only [rectIsect] at h
  split at h
  · simp at h
  · cases h
    simp only
    omega

theorem Pixfmt.Sendable.sendUpdate_open (h : s.fmt.Sendable) {r : Rect} (hw : r.w ≠ 0) (hh : r.h ≠ 0)
    (incr : Bool) : (s.sendUpdate B r incr).pc ≠ .closed := by
  rcases s.sendUpdate_pc (B := B) r incr with ⟨-, hbad⟩ | ⟨⟨left, hpc⟩, -⟩
  · obtain ⟨h1, h4⟩ := h
    omega
  · simp [hpc]

theorem sendable_of_bpp {f : Pixfmt} (h : f.bpp = 8 ∨ f.bpp = 16 ∨ f.bpp = 32) : f.Sendable := by
  rcases h with h | h | h <;> simp [Pixfmt.Sendable, Pixfmt.bytes, h]

theorem readMessage_of_ended {i : Inlet} (h : i.pending = []) : readMessage.run i = none := by
  have hrecv : (recvAll 1).run i = none := by
    simp [recvAll, StateT.run, Inlet.pieces, Inlet.piecesFrom, Inlet.recv, h]
  rw [readMessage, StateT.run_bind, hrecv]
  rfl

theorem Conn.messages_goOn (c : Conn) (s : Session) (r : Option Box) :
    (c.goOn s r).messages = c.messages := by
  cases r with
  | none => rfl
  | some b => simp [Conn.goOn, Conn.messages, Event.message?]

theorem Conn.goOn_session (c : Conn) (s : Session) (r : Option Box) : (c.goOn s r).session = s := by
  cases r <;> rfl

theorem Conn.goOn_inlet (c : Conn) (s : Session) (r : Option Box) : (c.goOn s r).inlet = c.inlet := by
  cases r <;> rfl

theorem Conn.goOn_calls (c : Conn) (s : Session) (r : Option Box) : (c.goOn s r).calls = c.calls := by
  cases r <;> rfl

theorem Conn.Framed.goOn (h : c.Framed msgs k) (r : Option Box) (hfmt : s'.fmt = c.session.fmt)
    (hopen : s'.pc = .closed → c.session.pc = .closed) : (c.goOn s' r).Framed msgs k where
  le := h.le
  messages := (c.messages_goOn s' r).trans h.messages
  calls := by rw [Conn.goOn_calls, Conn.messages_goOn, h.calls]
  pending := by rw [Conn.goOn_inlet, h.pending]
  healthy := by rw [Conn.goOn_inlet]; exact h.healthy
  sendable := by rw [Conn.goOn_session, hfmt]; exact h.sendable
  closed := by rw [Conn.goOn_session]; exact fun hpc => h.closed (hopen hpc)

/-- **Reading the next message.** -/
theorem Conn.Framed.readMessage (h : c.Framed msgs k) (hwf : ∀ m ∈ msgs, m.1.WellFormed)
    (hk : k < msgs.length) : ∃ i', readMessage.run c.inlet = some (msgs[k].1, i') ∧ i'.Healthy ∧
      i'.pending = stream (msgs.drop (k + 1)) := by
  have hpending : c.inlet.pending = msgs[k].1.wire msgs[k].2 ++ stream (msgs.drop (k + 1)) := by
    rw [h.pending, stream, List.drop_eq_getElem_cons hk, List.flatMap_cons]
    rfl
  exact takes_readMessage (hwf _ (List.getElem_mem hk)) _ h.healthy hpending

/-- **Handling the next message.** -/
theorem Conn.Framed.handled (h : c.Framed msgs k) (hwf : ∀ m ∈ msgs, m.1.WellFormed)
    (hk : k < msgs.length) {i : Inlet} (hi : i.Healthy)
    (hpending : i.pending = stream (msgs.drop (k + 1))) :
    ((c.read msgs[k].1 i).goOn (c.session.handle B msgs[k].1.toMsg) (msgs[k].1.askedUpdate B)).Framed
        msgs (k + 1) ∧
      (c.session.handle B msgs[k].1.toMsg).pc ≠ .closed := by
  have hmessages : (c.read msgs[k].1 i).messages = c.messages ++ [msgs[k].1] := by
    simp [Conn.messages, Conn.read, Event.message?]
  have hsendable : (c.session.handle B msgs[k].1.toMsg).fmt.Sendable ∧
      (c.session.handle B msgs[k].1.toMsg).pc ≠ .closed := by
    obtain ⟨r, -, -, hw, hh, -, hhandle⟩ | ⟨-, hpc, -, -, -, hfmt⟩ := c.session.handle_cases B msgs[k].1
    · rw [hhandle, (Session.sendUpdate_settings _ _ _).1]
      exact ⟨h.sendable, h.sendable.sendUpdate_open hw hh false⟩
    · refine ⟨?_, by simp [hpc]⟩
      rcases hfmt with hfmt | hfmt
      · rw [hfmt]
        exact h.sendable
      · have hm := hwf _ (List.getElem_mem hk)
        rw [hfmt] at hm
        exact sendable_of_bpp hm
  refine ⟨⟨hk, ?_, ?_, ?_, ?_, ?_, ?_⟩, hsendable.2⟩
  · rw [Conn.messages_goOn, hmessages, h.messages, List.take_add_one, List.getElem?_map,
      List.getElem?_eq_getElem hk]
    rfl
  · rw [Conn.goOn_calls, Conn.messages_goOn, hmessages, List.flatMap_append, ← h.calls,
      List.flatMap_singleton]
    rfl
  · rw [Conn.goOn_inlet]
    exact hpending
  · rw [Conn.goOn_inlet]
    exact hi
  · rw [Conn.goOn_session]
    exact hsendable.1
  · rw [Conn.goOn_session]
    exact fun hpc => absurd hpc hsendable.2

/-- **One move**: the framing stays, or the next message is handled. -/
theorem Conn.Framed.connStep {a : Move} (h : c.Framed msgs k) (hwf : ∀ m ∈ msgs, m.1.WellFormed)
    (hserved : a.Served) (hstep : connStep B c a = some c') :
    c'.Framed msgs k ∨ a = .receive ∧ c'.Framed msgs (k + 1) := by
  cases outcome_of_connStep hstep with
  | calm a s' hcalm => exact .inl (h.goOn none hcalm.fmt hcalm.closed.mp)
  | greeted i i' hpc hread => exact hserved.elim
  | refused i hpc hread => exact hserved.elim
  | served now r d screen hopen hr =>
    obtain ⟨hw, hh⟩ := rectIsect_pos hr
    have hsendable : ({ c.session with screen } : Session).fmt.Sendable := h.sendable
    refine .inl (h.goOn (some r) (Session.sendUpdate_settings _ _ _).1 fun hpc => absurd hpc ?_)
    refine hsendable.sendUpdate_open ?_ ?_ true <;> simp only [Box.toRect] <;> omega
  | handled m i hpc hread =>
    rcases Nat.lt_or_ge k msgs.length with hk | hk
    · obtain ⟨i', hread', hi', hpending⟩ := h.readMessage hwf hk
      rw [hread'] at hread
      cases hread
      exact .inr ⟨rfl, (h.handled hwf hk hi' hpending).1⟩
    · have hended : c.inlet.pending = [] := by
        rw [h.pending, List.drop_of_length_le hk]
        rfl
      rw [readMessage_of_ended hended] at hread
      cases hread
  | ended hread =>
    have hlast : k = msgs.length := by
      refine Nat.le_antisymm h.le (Nat.le_of_not_lt fun hk => ?_)
      obtain ⟨i', hread', -⟩ := h.readMessage hwf hk
      rw [hread'] at hread
      cases hread
    exact .inl ⟨h.le, h.messages, h.calls, h.pending, h.healthy, h.sendable, fun _ => hlast⟩
  | sent total now s' hs' =>
    obtain ⟨viaHextile, incr, -, hfmt, -, -, -, hpc⟩ := Session.updateSent_cases hs'
    have hmessages : (c.log ++ c.sizeEvent total).filterMap Event.message? = c.messages := by
      unfold Conn.sizeEvent
      split <;> simp [Conn.messages, Event.message?]
    have hcalls := congrArg (List.flatMap ClientMsg.callbacks) hmessages
    refine .inl ⟨h.le, hmessages.trans h.messages, h.calls.trans hcalls.symm, h.pending, h.healthy,
      hfmt ▸ h.sendable, fun hclosed => ?_⟩
    rcases hpc with hpc | hpc <;> exact Pc.noConfusion (hpc.symm.trans hclosed)
  | hungUp => exact hserved.elim

/-- The connection, with nothing failing and no other client. -/
abbrev Serves (B : Build) : Conn → Conn → Prop := Reaches (connStep B) fun _ a => a.Served

theorem Conn.Framed.serves (h : c.Framed msgs k) (hwf : ∀ m ∈ msgs, m.1.WellFormed)
    (hrun : Serves B c c') : ∃ k', c'.Framed msgs k' := by
  have hmove {c c' : Conn} {a : Move} (hk : ∃ k, c.Framed msgs k) (hserved : a.Served)
      (hstep : Vnc.connStep B c a = some c') : ∃ k, c'.Framed msgs k := by
    obtain ⟨k, h⟩ := hk
    exact (h.connStep hwf hserved hstep).elim (fun h => ⟨k, h⟩) fun h => ⟨k + 1, h.2⟩
  exact hrun.invariant hmove ⟨k, h⟩

theorem Conn.Framed.move {a : Move} (h : c.Framed msgs k) (hwf : ∀ m ∈ msgs, m.1.WellFormed)
    (hstep : Vnc.connStep B c a = some c') (hserved : a.Served) (hne : a ≠ .receive) :
    Serves B c c' ∧ c'.Framed msgs k :=
  ⟨Reaches.refl.snoc hserved hstep,
    (h.connStep hwf hserved hstep).resolve_right fun hread => hne hread.1⟩

theorem Conn.Framed.copies {left : List Rect} {viaHextile incr : Bool} (h : c.Framed msgs k)
    (hwf : ∀ m ∈ msgs, m.1.WellFormed) (hpc : c.session.pc = .sending left viaHextile incr) :
    ∃ c', Serves B c c' ∧ c'.Framed msgs k ∧ c'.session.pc = .sending [] viaHextile incr := by
  induction left generalizing c with
  | nil => exact ⟨c, Reaches.refl, h, hpc⟩
  | cons piece left ih =>
    have hcopy : Vnc.connStep B c .copy = some { c with session :=
        { c.session with sent := c.session.copyOut B piece, pc := .sending left viaHextile incr } } := by
      simp only [Vnc.connStep, Conn.move, step, hpc, Option.map_some]
    obtain ⟨hrun, h'⟩ := h.move hwf hcopy trivial (by simp)
    obtain ⟨c', hrun', hc', hpc'⟩ := ih h' rfl
    exact ⟨c', hrun.trans hrun', hc', hpc'⟩

/-- At the head of the loop the server may find nothing due, and waits for the client. -/
theorem connStep_check (hpc : c.session.pc = .top) :
    connStep B c (.check c.session.lastSend)
      = some { c with session := { c.session with pc := .waiting } } := by
  have hdue : c.session.due c.session.lastSend = false := by
    simp [Session.due, vncMinFrameMs]
  simp [connStep, step, hpc, hdue, Session.dueUpdate, Conn.goOn]

theorem Conn.Framed.waits_of_top (h : c.Framed msgs k) (hwf : ∀ m ∈ msgs, m.1.WellFormed)
    (hpc : c.session.pc = .top) :
    ∃ c', Serves B c c' ∧ c'.Framed msgs k ∧ c'.session.pc = .waiting := by
  obtain ⟨hrun, h'⟩ := h.move (B := B) hwf (connStep_check hpc) trivial (by simp)
  exact ⟨_, hrun, h', rfl⟩

/-- **An open connection comes to wait for the client.** -/
theorem Conn.Framed.waits (h : c.Framed msgs k) (hwf : ∀ m ∈ msgs, m.1.WellFormed)
    (hopen : c.session.pc ≠ .closed) :
    ∃ c', Serves B c c' ∧ c'.Framed msgs k ∧ c'.session.pc = .waiting := by
  have hdropping {c : Conn} (h : c.Framed msgs k) (hpc : c.session.pc = .dropping) :
      ∃ c', Serves B c c' ∧ c'.Framed msgs k ∧ c'.session.pc = .waiting := by
    have hdrop : Vnc.connStep B c .drop = some { c with session := { c.session with
        screen := (fbTakeDirty c.session.screen).2, pending := false, pc := .top } } := by
      simp [Vnc.connStep, Conn.move, step, hpc]
    obtain ⟨hrun, h'⟩ := h.move hwf hdrop trivial (by simp)
    obtain ⟨c', hrun', hc'⟩ := h'.waits_of_top (B := B) hwf rfl
    exact ⟨c', hrun.trans hrun', hc'⟩
  cases hpc : c.session.pc with
  | top => exact h.waits_of_top hwf hpc
  | waiting => exact ⟨c, Reaches.refl, h, hpc⟩
  | dropping => exact hdropping h hpc
  | closed => exact absurd hpc hopen
  | sending left viaHextile incr =>
    obtain ⟨c₁, hrun₁, h₁, hpc₁⟩ := h.copies (B := B) hwf hpc
    obtain ⟨c₂, hsent⟩ : ∃ c₂, Vnc.connStep B c₁ (.updateSent 0 0) = some c₂ := by
      simp [Vnc.connStep, step, hpc₁]
    obtain ⟨hrun₂, h₂⟩ := h₁.move hwf hsent trivial (by simp)
    obtain ⟨s₂, hs₂, rfl⟩ := Option.map_eq_some_iff.mp hsent
    obtain ⟨-, -, -, -, -, -, -, hpc₂ | hpc₂⟩ := Session.updateSent_cases hs₂
    · exact ⟨_, hrun₁.trans hrun₂, h₂, hpc₂⟩
    · obtain ⟨c', hrun', hc'⟩ := hdropping h₂ hpc₂
      exact ⟨c', (hrun₁.trans hrun₂).trans hrun', hc'⟩

theorem Conn.Framed.receives (h : c.Framed msgs k) (hwf : ∀ m ∈ msgs, m.1.WellFormed)
    (hk : k < msgs.length) (hpc : c.session.pc = .waiting) :
    ∃ i, Serves B c ((c.read msgs[k].1 i).goOn (c.session.handle B msgs[k].1.toMsg)
        (msgs[k].1.askedUpdate B)) ∧
      ((c.read msgs[k].1 i).goOn (c.session.handle B msgs[k].1.toMsg)
        (msgs[k].1.askedUpdate B)).Framed msgs (k + 1) := by
  obtain ⟨i, hread, hi, hpending⟩ := h.readMessage hwf hk
  have hreceive : Vnc.connStep B c .receive = some ((c.read msgs[k].1 i).goOn
      (c.session.handle B msgs[k].1.toMsg) (msgs[k].1.askedUpdate B)) := by
    simp only [Vnc.connStep, hpc, if_true, hread]
  exact ⟨i, Reaches.refl.snoc (a := .receive) trivial hreceive, (h.handled hwf hk hi hpending).1⟩

/-- **The server can go on to the last message.** -/
theorem Conn.Framed.serves_all (h : c.Framed msgs k) (hwf : ∀ m ∈ msgs, m.1.WellFormed) :
    ∃ c', Serves B c c' ∧ c'.Framed msgs msgs.length := by
  induction hn : msgs.length - k generalizing c k with
  | zero => exact ⟨c, Reaches.refl, Nat.le_antisymm h.le (Nat.sub_eq_zero_iff_le.mp hn) ▸ h⟩
  | succ n ih =>
    have hk : k < msgs.length := by omega
    obtain ⟨c₁, hrun₁, h₁, hpc₁⟩ := h.waits (B := B) hwf fun hclosed => absurd (h.closed hclosed) hk.ne
    obtain ⟨i, hrun₂, h₂⟩ := h₁.receives (B := B) hwf hk hpc₁
    obtain ⟨c', hrun', hc'⟩ := ih h₂ (by omega)
    exact ⟨c', (hrun₁.trans hrun₂).trans hrun', hc'⟩

/-- **A client whose handshake is in order** is taken in, with nothing on the log. -/
theorem connStep_accept (hpc : c.session.pc = .closed) {i : Inlet} (hi : i.Healthy) {hello : Hello}
    (hpending : i.pending = hello.wire ++ stream msgs) :
    ∃ i', connStep B c (.accept i)
        = some ⟨Session.start B c.session.screen, i', ⟨0, 0, 0, 0⟩, [], []⟩ ∧
      (⟨Session.start B c.session.screen, i', ⟨0, 0, 0, 0⟩, [], []⟩ : Conn).Framed msgs 0 := by
  obtain ⟨i', hread, hi', hpending'⟩ := takes_readHandshake hello hi hpending
  exact ⟨i', by simp only [connStep, hpc, if_true, hread],
    Nat.zero_le _, rfl, rfl, hpending', hi', sendable_of_bpp (.inr (.inl rfl)), fun h => Pc.noConfusion h⟩

/-- **Messages are framed and updates stay on the screen.**  Whatever happens, every rectangle handed to
`send_update` lies on the screen.  On a connection whose bytes are a handshake and well-formed messages,
split in any way: at every moment the server has handled the first of them, each once, and has the
others still to read; the connection does not end before the last; and the server can go on to it. -/
theorem serveClient_framed (B : Build) (screen : Screen) :
    (∀ c, Reaches (connStep B) anyStep (Conn.boot B screen) c →
      ∀ r hextile, .update r hextile ∈ c.log → r.OnScreen B.geometry) ∧
    ∀ (c₀ : Conn) (i : Inlet) (hello : Hello) (msgs : List (ClientMsg × (ℕ → Byte))),
      c₀.session.pc = .closed → i.Healthy → i.pending = hello.wire ++ stream msgs →
      (∀ m ∈ msgs, m.1.WellFormed) →
      ∃ c₁, connStep B c₀ (.accept i) = some c₁ ∧ c₁.Framed msgs 0 ∧ ∀ c, Serves B c₁ c →
        (∃ k, c.Framed msgs k) ∧ ∃ c', Serves B c c' ∧ c'.Framed msgs msgs.length := by
  refine ⟨fun c hrun r hextile => update_onScreen hrun, fun c₀ i hello msgs hpc hi hpending hwf => ?_⟩
  obtain ⟨i', haccept, h₁⟩ := connStep_accept (B := B) hpc hi hpending
  refine ⟨_, haccept, h₁, fun c hrun => ?_⟩
  obtain ⟨k, h⟩ := h₁.serves hwf hrun
  exact ⟨⟨k, h⟩, h.serves_all hwf⟩

/-- Four messages, a byte at a time. -/
theorem serveClient_framed_bytewise :
    let msgs : List (ClientMsg × (ℕ → Byte)) :=
      [(.setEncodings [5, 0], fun _ => 0), (.fbUpdateReq 1 600 0 100 50, fun _ => 0),
        (.clientCutText 100, fun i => BitVec.ofNat 8 i), (.keyEvent 1 0x61, fun _ => 0xff)]
    let hello : Hello := ⟨List.replicate 12 0x20, 1, rfl⟩
    let i : Inlet := ⟨fun _ _ => 1, 0, hello.wire ++ stream msgs⟩
    ∃ c₁, connStep Build.default (Conn.boot Build.default blank) (.accept i) = some c₁ ∧
      ∃ c, Serves Build.default c₁ c ∧ c.Framed msgs 4 := by
  intro msgs hello i
  obtain ⟨c₁, haccept, -, hserves⟩ := (serveClient_framed Build.default blank).2
    (Conn.boot Build.default blank) i hello msgs rfl (fun _ _ _ => Nat.one_pos) rfl (by decide)
  exact ⟨c₁, haccept, (hserves c₁ Reaches.refl).2⟩

end KlaussRuntime.Vnc
