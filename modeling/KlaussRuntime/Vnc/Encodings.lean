import KlaussRuntime.Machinery.Histories
import KlaussRuntime.Vnc.Connection

/-!
# Vnc/Encodings — which encoding an update is sent in

`send_update` looks at two module variables: `client_hextile`, set by a `SetEncodings` that lists
encoding 5, and `ht_skip`, set to `HT_RETRY` by a Hextile update that saved too little and counted
down by the Raw updates after it.  `serve_client` resets both for a new client.

Both can be read off the log of the connection (`asked`, `skipAfter`), so the choice at each update is
a condition on the events before it: the log is `Regular` (`Logged.connStep`).  What follows from that is
about logs alone: `raw_after_poor` for the updates after a poor one, and `last_lists_of_keeps` for the
last `SetEncodings` before a Hextile update.  Nothing ever clears `client_hextile`, so the last one lists
encoding 5 only if none drops it again.
-/

namespace KlaussRuntime.Vnc

open Machinery Machinery.Hextile

/-! ## Reading a log -/

/-- The encodings a `SetEncodings` lists. -/
def Event.encodings? : Event → Option (List (BitVec 32))
  | .handled (.setEncodings encodings) => some encodings
  | _ => none

/-- What the most recent `SetEncodings` listed. -/
def lastEncodings (log : List Event) : Option (List (BitVec 32)) :=
  (log.filterMap Event.encodings?).getLast?

/-- A `SetEncodings` that lists encoding 5. -/
def Event.listsHextile : Event → Bool
  | .handled m => m.listsHextile
  | _ => false

/-- An update: its rectangle, and whether it was sent in Hextile. -/
def Event.update? : Event → Option (Box × Bool)
  | .update r hextile => some (r, hextile)
  | _ => none

def updates (log : List Event) : List (Box × Bool) := log.filterMap Event.update?

/-- `client_hextile` after these events. -/
def asked (B : Build) (log : List Event) : Bool := B.hextile && log.any Event.listsHextile

/-- How an event changes `ht_skip`. -/
def skipStep (skip : ℕ) : Event → ℕ
  | .handled _ => skip
  | .update _ _ => skip - 1
  | .compressed total raw => if total * 8 > raw * 7 then htRetry else skip

/-- `ht_skip` after these events. -/
def skipAfter (log : List Event) : ℕ := log.foldl skipStep 0

/-- What the server does next, after these events: an update goes out in Hextile when it was asked for and
none is to be skipped, and the size of an update is known right after a Hextile one. -/
def Allowed (B : Build) (log : List Event) : Event → Prop
  | .handled _ => True
  | .update _ hextile => hextile = (asked B log && skipAfter log == 0)
  | .compressed _ _ => ∃ pre r, log = pre ++ [.update r true]

variable {B : Build} {log pre post : List Event} {e : Event}

theorem Event.listsHextile_eq (e : Event) : e.listsHextile = e.encodings?.any (·.contains 5) := by
  cases e with
  | handled m => cases m <;> rfl
  | _ => rfl

theorem Event.eq_of_encodings? {encodings : List (BitVec 32)} (h : e.encodings? = some encodings) :
    e = .handled (.setEncodings encodings) := by
  cases e with
  | handled m =>
    cases m with
    | setEncodings encodings' => rw [Option.some.inj h]
    | _ => cases h
  | _ => cases h

theorem Event.eq_of_update? {r : Box} {hextile : Bool} (h : e.update? = some (r, hextile)) :
    e = .update r hextile := by
  cases e with
  | update r' hextile' =>
    cases h
    rfl
  | _ => cases h

@[simp] theorem skipAfter_append_singleton (log : List Event) (e : Event) :
    skipAfter (log ++ [e]) = skipStep (skipAfter log) e := by simp [skipAfter]

@[simp] theorem asked_append (log post : List Event) :
    asked B (log ++ post) = (asked B log || B.hextile && post.any Event.listsHextile) := by
  simp [asked, Bool.and_or_distrib_left]

@[simp] theorem updates_append (log post : List Event) :
    updates (log ++ post) = updates log ++ updates post := by simp [updates]

/-! ## After a poor update -/

theorem asked_of_hextile {r : Box} (h : Regular (Allowed B) (pre ++ .update r true :: post)) :
    asked B pre = true := by
  have hallowed : true = (asked B pre && skipAfter pre == 0) := h.allowed_of_cons
  exact (Bool.and_eq_true_iff.mp hallowed.symm).1

/-- **Up to `HT_RETRY` updates after a poor one** all went out Raw, and the others of the `HT_RETRY` are
left to skip. -/
theorem raw_after_poor {total raw : ℕ} (hpoor : total * 8 > raw * 7)
    (h : Regular (Allowed B) (pre ++ .compressed total raw :: post))
    (hn : (updates post).length ≤ htRetry) :
    skipAfter (pre ++ .compressed total raw :: post) = htRetry - (updates post).length ∧
      ∀ u ∈ updates post, u.2 = false := by
  induction post using List.reverseRecOn with
  | nil => simp [skipStep, hpoor, updates]
  | append_singleton post e ih =>
    have hsplit : pre ++ Event.compressed total raw :: (post ++ [e])
        = (pre ++ .compressed total raw :: post) ++ [e] := by simp
    rw [hsplit] at h ⊢
    rw [updates_append, List.length_append] at hn
    obtain ⟨hskip, hraw⟩ := ih h.of_append (by omega)
    have hallowed := h.allowed_last
    rw [skipAfter_append_singleton, hskip, updates_append]
    cases e with
    | handled m =>
      have hnone : updates [Event.handled m] = [] := rfl
      rw [hnone, List.append_nil]
      exact ⟨rfl, hraw⟩
    | update r hextile =>
      have hone : updates [Event.update r hextile] = [(r, hextile)] := rfl
      rw [hone] at hn ⊢
      rw [List.length_singleton] at hn
      have hne : (htRetry - (updates post).length == 0) = false := by
        rw [beq_eq_false_iff_ne]
        omega
      have hfalse : hextile = false := by
        rw [hallowed, hskip, hne, Bool.and_false]
      refine ⟨by rw [skipStep, List.length_append, List.length_singleton]; omega, fun u hu => ?_⟩
      rcases List.mem_append.mp hu with hu | hu
      · exact hraw u hu
      · rw [List.mem_singleton.mp hu]
        exact hfalse
    | compressed total' raw' =>
      -- the update it is about would be a Hextile one among those after the poor one
      obtain ⟨pre', r, hlast⟩ := hallowed
      rcases List.eq_nil_or_concat post with rfl | ⟨post', e', rfl⟩
      · exact absurd (List.append_inj' hlast rfl).2 (by simp)
      · rw [List.concat_eq_append, ← List.cons_append, ← List.append_assoc] at hlast
        obtain rfl : e' = .update r true := by simpa using (List.append_inj' hlast rfl).2
        have := hraw (r, true) (by simp [updates, Event.update?])
        simp at this

/-- **Exactly the next `HT_RETRY` updates after a poor one go out Raw.** -/
theorem raw_iff_after_poor {total raw k : ℕ} {r : Box} {hextile : Bool} (hpoor : total * 8 > raw * 7)
    (h : Regular (Allowed B) (pre ++ .compressed total raw :: post))
    (hk : (updates post)[k]? = some (r, hextile)) :
    (k < htRetry → hextile = false) ∧ (k = htRetry → hextile = true) := by
  obtain ⟨post₁, e, post₂, rfl, he, hlen⟩ := exists_of_getElem?_filterMap hk
  obtain rfl := Event.eq_of_update? he
  have hsplit : pre ++ Event.compressed total raw :: (post₁ ++ .update r hextile :: post₂)
      = (pre ++ .compressed total raw :: post₁) ++ .update r hextile :: post₂ := by simp
  obtain ⟨pre', r', hpre⟩ : Allowed B pre (.compressed total raw) := h.allowed_of_cons
  rw [hsplit] at h
  have hallowed : hextile = (asked B (pre ++ .compressed total raw :: post₁)
    && skipAfter (pre ++ .compressed total raw :: post₁) == 0) := h.allowed_of_cons
  constructor
  · intro hlt
    obtain ⟨hskip, -⟩ := raw_after_poor hpoor h.of_append (hlen.trans_le hlt.le)
    have hne : (htRetry - (updates post₁).length == 0) = false := by
      rw [beq_eq_false_iff_ne, updates, hlen]
      omega
    rw [hallowed, hskip, hne, Bool.and_false]
  · intro heq
    obtain ⟨hskip, -⟩ := raw_after_poor hpoor h.of_append (hlen.trans heq).le
    have hasked : asked B pre' = true := by
      rw [hpre, List.append_assoc, List.append_assoc] at h
      exact asked_of_hextile h
    rw [hallowed, hskip, updates, hlen, heq, Nat.sub_self, hpre]
    simp [hasked]

/-! ## The last list of encodings -/

/-- **No `SetEncodings` drops Hextile again**: one that does not list encoding 5 comes after none that
does. -/
def KeepsHextile (log : List Event) : Prop :=
  ∀ ⦃pre : List Event⦄ ⦃encodings : List (BitVec 32)⦄ ⦃post : List Event⦄,
    log = pre ++ .handled (.setEncodings encodings) :: post → 5 ∉ encodings →
      pre.any Event.listsHextile = false

theorem KeepsHextile.of_append (h : KeepsHextile (log ++ post)) : KeepsHextile log :=
  fun pre encodings rest heq =>
    h (show log ++ post = pre ++ .handled (.setEncodings encodings) :: (rest ++ post) by rw [heq]; simp)

/-- Where Hextile is kept, the most recent list has it if any has. -/
theorem last_lists_of_keeps (h : KeepsHextile log) (hany : log.any Event.listsHextile = true) :
    ∃ encodings, lastEncodings log = some encodings ∧ 5 ∈ encodings := by
  induction log using List.reverseRecOn with
  | nil => simp at hany
  | append_singleton log e ih =>
    rw [List.any_append, Bool.or_eq_true_iff] at hany
    cases he : e.encodings? with
    | none =>
      have hlast : lastEncodings (log ++ [e]) = lastEncodings log := by simp [lastEncodings, he]
      have hnot : [e].any Event.listsHextile = false := by
        rw [List.any_cons, Event.listsHextile_eq, he]
        rfl
      rw [hlast]
      exact ih h.of_append (hany.resolve_right (by rw [hnot]; exact Bool.false_ne_true))
    | some encodings =>
      obtain rfl := Event.eq_of_encodings? he
      refine ⟨encodings, by simp [lastEncodings, he], ?_⟩
      by_contra hnot
      rcases hany with hany | hany
      · have hnone := h (show log ++ [_] = log ++ .handled (.setEncodings encodings) :: [] from rfl) hnot
        rw [hnone] at hany
        exact absurd hany Bool.false_ne_true
      · simp only [List.any_cons, List.any_nil, Bool.or_false, Event.listsHextile,
          ClientMsg.listsHextile, List.contains_iff_mem] at hany
        exact hnot hany

/-! ## The server -/

/-- **The two variables are what the log says.** -/
structure Logged (B : Build) (c : Conn) : Prop where
  regular : Regular (Allowed B) c.log
  hextile : c.session.pc ≠ .closed → c.session.clientHextile = asked B c.log
  skip : c.session.pc ≠ .closed → c.session.htSkip = skipAfter c.log
  skips : c.session.pc ≠ .closed → c.session.htSkip ≠ 0 → c.session.clientHextile = true
  sending : ∀ {left hextile incr}, c.session.pc = .sending left hextile incr →
    ∃ pre r, c.log = pre ++ [.update r hextile]

variable {s' : Session} {c c' : Conn}

theorem Logged.calm (h : Logged B c) (hcalm : c.session.Calm s') :
    Logged B { c with session := s' } where
  regular := h.regular
  hextile hopen := hcalm.clientHextile.trans (h.hextile (mt hcalm.closed.mpr hopen))
  skip hopen := hcalm.htSkip.trans (h.skip (mt hcalm.closed.mpr hopen))
  skips hopen hne := hcalm.clientHextile.trans
    (h.skips (mt hcalm.closed.mpr hopen) (hcalm.htSkip ▸ hne))
  sending hpc := by
    obtain ⟨left', hpc'⟩ := hcalm.sending hpc
    exact h.sending hpc'

theorem Logged.close (h : Logged B c) : Logged B c.close :=
  ⟨h.regular, fun hopen => absurd rfl hopen, fun hopen => absurd rfl hopen,
    fun hopen => absurd rfl hopen, fun h => Pc.noConfusion h⟩

/-- **Calling `send_update`**: the choice is the one the log allows, and it is counted. -/
theorem Logged.sendUpdate (h : Logged B c) (hopen : c.session.pc ≠ .closed) (s₀ : Session)
    (hextile : s₀.clientHextile = c.session.clientHextile) (hskip : s₀.htSkip = c.session.htSkip)
    (r : Box) (rect : Rect) (incr : Bool) : Logged B (c.goOn (s₀.sendUpdate B rect incr) (some r)) := by
  have hvia : s₀.viaHextile = c.session.viaHextile := by
    rw [Session.viaHextile, Session.viaHextile, hextile, hskip]
  have hregular : Regular (Allowed B) (c.log ++ [.update r c.session.viaHextile]) :=
    h.regular.snoc (by rw [Allowed, Session.viaHextile, h.hextile hopen, h.skip hopen])
  rcases s₀.sendUpdate_pc (B := B) rect incr with ⟨hclosed, -⟩ | ⟨⟨left, hpc⟩, hcount⟩
  · exact ⟨hregular, fun hopen => absurd hclosed hopen, fun hopen => absurd hclosed hopen,
      fun hopen => absurd hclosed hopen, fun hpc => Pc.noConfusion (hclosed.symm.trans hpc)⟩
  · have hkeep : (s₀.sendUpdate B rect incr).clientHextile = c.session.clientHextile :=
      (Session.sendUpdate_settings _ _ _).2.2.trans hextile
    -- with no Hextile asked for there is nothing to count down
    have hcount' : (s₀.sendUpdate B rect incr).htSkip = c.session.htSkip - 1 := by
      rw [hcount, hextile, hskip]
      split_ifs with hasked
      · rfl
      · have hzero : c.session.htSkip = 0 := by
          by_contra hne
          exact hasked (h.skips hopen hne)
        rw [hzero]
    refine ⟨hregular, fun _ => ?_, fun _ => ?_, fun _ hne => ?_, fun {left' hextile' incr'} hpc' => ?_⟩
    · exact (hkeep.trans (h.hextile hopen)).trans (by simp [Conn.goOn, Event.listsHextile])
    · rw [Conn.goOn_session, hcount', h.skip hopen]
      exact (skipAfter_append_singleton c.log (.update r c.session.viaHextile)).symm
    · refine hkeep.trans (h.skips hopen fun hzero => hne ?_)
      exact hcount'.trans (by rw [hzero])
    · obtain ⟨-, rfl, -⟩ := Pc.sending.inj (hpc.symm.trans hpc')
      exact ⟨c.log, r, by rw [hvia]; rfl⟩

theorem Logged.read (h : Logged B c) (hpc : c.session.pc = .waiting) (m : ClientMsg) (i : Inlet) :
    Logged B ((c.read m i).goOn (c.session.handle B m.toMsg) (m.askedUpdate B)) := by
  have hopen : c.session.pc ≠ .closed := by simp [hpc]
  have hregular : Regular (Allowed B) (c.log ++ [.handled m]) := h.regular.snoc trivial
  have hasked : asked B (c.log ++ [.handled m]) = (asked B c.log || B.hextile && m.listsHextile) := by
    simp [Event.listsHextile]
  have hskip : skipAfter (c.log ++ [.handled m]) = skipAfter c.log := skipAfter_append_singleton _ _
  obtain ⟨r, hask, -, -, -, hlists, hhandle⟩ | ⟨hask, hpc', -, hcount, hhextile, -⟩ :=
    c.session.handle_cases B m
  · have hread : Logged B (c.read m i) :=
      ⟨hregular, fun _ => (h.hextile hopen).trans (by rw [Conn.read, hasked, hlists]; simp),
        fun _ => (h.skip hopen).trans hskip.symm, fun _ => h.skips hopen,
        fun hsending => Pc.noConfusion (hpc.symm.trans hsending)⟩
    rw [hask, hhandle]
    exact hread.sendUpdate hopen c.session rfl rfl _ r false
  · rw [hask]
    refine ⟨hregular, fun _ => ?_, fun _ => ?_, fun _ hne => ?_,
      fun hsending => Pc.noConfusion (hpc'.symm.trans hsending)⟩
    · exact hhextile.trans (by rw [h.hextile hopen]; exact hasked.symm)
    · exact (hcount.trans (h.skip hopen)).trans hskip.symm
    · exact hhextile.trans (by rw [h.skips hopen (hcount ▸ hne), Bool.true_or])

theorem Logged.sent (h : Logged B c) {total : ℕ} {now : ℤ}
    (hs' : step B c.session (.updateSent (decide (total * 8 > c.rawBytes * 7)) now) = some s') :
    Logged B { c with session := s', log := c.log ++ c.sizeEvent total } := by
  obtain ⟨hextile, incr, hpc, -, -, hkeep, hcount, hpc'⟩ := Session.updateSent_cases hs'
  have hopen : c.session.pc ≠ .closed := by simp [hpc]
  have hidle {left hextile incr} : s'.pc ≠ .sending left hextile incr := by
    rcases hpc' with hpc' | hpc' <;> simp [hpc']
  obtain ⟨pre, r, hlog⟩ := h.sending hpc
  cases hextile with
  | false =>
    have hsize : c.sizeEvent total = [] := by simp only [Conn.sizeEvent, hpc]
    rw [hsize, List.append_nil]
    exact ⟨h.regular, fun _ => hkeep.trans (h.hextile hopen), fun _ => hcount.trans (h.skip hopen),
      fun _ hne => hkeep.trans (h.skips hopen (by rw [hcount] at hne; exact hne)),
      fun hsending => absurd hsending hidle⟩
  | true =>
    have hsize : c.sizeEvent total = [.compressed total c.rawBytes] := by
      simp only [Conn.sizeEvent, hpc]
    have hasked : c.session.clientHextile = true := by
      rw [h.hextile hopen, hlog, asked_append, asked_of_hextile (hlog ▸ h.regular), Bool.true_or]
    rw [hsize]
    refine ⟨h.regular.snoc ⟨pre, r, hlog⟩, fun _ => ?_, fun _ => ?_, fun _ _ => hkeep.trans hasked,
      fun hsending => absurd hsending hidle⟩
    · exact (hkeep.trans (h.hextile hopen)).trans (by simp [Event.listsHextile])
    · rw [skipAfter_append_singleton, ← h.skip hopen, hcount, skipStep]
      simp

/-- **One move keeps the log and the two variables in step.** -/
theorem Logged.connStep {a : Move} (h : Logged B c) (hstep : connStep B c a = some c') :
    Logged B c' := by
  cases outcome_of_connStep hstep with
  | calm a s' hcalm => exact h.calm hcalm
  | greeted i i' hpc hread => exact ⟨.nil, fun _ => by simp [Session.start, asked], fun _ => rfl,
      fun _ hne => absurd rfl hne, fun h => Pc.noConfusion h⟩
  | refused i hpc hread =>
    exact ⟨.nil, fun hopen => absurd hpc hopen, fun hopen => absurd hpc hopen,
      fun hopen => absurd hpc hopen, fun hsending => Pc.noConfusion (hpc.symm.trans hsending)⟩
  | served now r d screen hopen hr => exact h.sendUpdate hopen { c.session with screen } rfl rfl r r.toRect true
  | handled m i hpc hread => exact h.read hpc m i
  | ended hread => exact h.close
  | sent total now s' hs' => exact h.sent hs'
  | hungUp => exact h.close

/-- **Encodings sent are encodings asked for**, on a connection whose lists never drop Hextile again: a
Hextile update comes after a `SetEncodings` the last of which lists encoding 5.  On every connection,
exactly the next `HT_RETRY` updates after one that saved too little go out Raw. -/
theorem hextile_asked_for (B : Build) {screen : Screen} {c : Conn}
    (hrun : Reaches (connStep B) anyStep (Conn.boot B screen) c) (hkeeps : KeepsHextile c.log) :
    (∀ pre r post, c.log = pre ++ .update r true :: post →
      ∃ encodings, lastEncodings pre = some encodings ∧ 5 ∈ encodings) ∧
    ∀ pre total raw post, c.log = pre ++ .compressed total raw :: post → total * 8 > raw * 7 →
      ∀ k r hextile, (updates post)[k]? = some (r, hextile) →
        (k < htRetry → hextile = false) ∧ (k = htRetry → hextile = true) := by
  have h : Logged B c := hrun.invariant (fun h _ hstep => h.connStep hstep)
    ⟨.nil, fun hopen => absurd rfl hopen, fun hopen => absurd rfl hopen,
      fun hopen => absurd rfl hopen, fun h => Pc.noConfusion h⟩
  constructor
  · intro pre r post hlog
    have hregular := h.regular
    rw [hlog] at hregular hkeeps
    exact last_lists_of_keeps hkeeps.of_append (Bool.and_eq_true_iff.mp (asked_of_hextile hregular)).2
  · intro pre total raw post hlog hpoor k r hextile hk
    exact raw_iff_after_poor hpoor (hlog ▸ h.regular) hk

/-! ## A list that drops Hextile -/

/-- From the head of the loop, the next message is handled; what it does can be read off. -/
theorem Conn.Framed.handles {msgs : List (ClientMsg × (ℕ → Byte))} {k : ℕ} (h : c.Framed msgs k)
    (hwf : ∀ m ∈ msgs, m.1.WellFormed) (hk : k < msgs.length) (hpc : c.session.pc = .top) :
    ∃ c', Reaches (Vnc.connStep B) anyStep c c' ∧ c'.Framed msgs (k + 1) ∧
      c'.session = ({ c.session with pc := .waiting } : Session).handle B msgs[k].1.toMsg ∧
      c'.log = c.log ++ .handled msgs[k].1 ::
        ((msgs[k].1.askedUpdate B).map fun r => .update r c.session.viaHextile).toList := by
  obtain ⟨hwait, h₁⟩ := h.move (B := B) hwf (connStep_check hpc) trivial (by simp)
  obtain ⟨i, hreceive, h₂⟩ := h₁.receives (B := B) hwf hk rfl
  refine ⟨_, (hwait.trans hreceive).mono fun _ _ _ => trivial, h₂, Conn.goOn_session _ _ _, ?_⟩
  cases msgs[k].1.askedUpdate B with
  | none => rfl
  | some r => simp [Conn.goOn, Conn.read, Session.viaHextile]

/-- A client that lists encoding 5 and asks for a repaint. -/
def painter : List (ClientMsg × (ℕ → Byte)) :=
  [(.setEncodings [5], fun _ => 0), (.fbUpdateReq 0 0 0 16 16, fun _ => 0)]

/-- One that lists only encoding 0 in between. -/
def dropper : List (ClientMsg × (ℕ → Byte)) :=
  [(.setEncodings [5], fun _ => 0), (.setEncodings [0], fun _ => 0),
    (.fbUpdateReq 0 0 0 16 16, fun _ => 0)]

theorem reaches_accepted (msgs : List (ClientMsg × (ℕ → Byte))) :
    ∃ c, Reaches (connStep Build.default) anyStep (Conn.boot Build.default blank) c ∧
      c.Framed msgs 0 ∧ c.session = Session.start Build.default blank ∧ c.log = [] := by
  let hello : Hello := ⟨List.replicate 12 0x20, 1, rfl⟩
  let i : Inlet := ⟨fun _ n => n, 0, hello.wire ++ stream msgs⟩
  have hpending : i.pending = hello.wire ++ stream msgs := rfl
  obtain ⟨i', haccept, h⟩ := connStep_accept (B := Build.default) (c := Conn.boot Build.default blank)
    rfl (fun _ _ hn => hn) hpending
  exact ⟨_, Reaches.refl.snoc (a := .accept i) trivial haccept, h, rfl, rfl⟩

theorem reaches_painter : ∃ c, Reaches (connStep Build.default) anyStep (Conn.boot Build.default blank) c ∧
    c.log = [.handled (.setEncodings [5]), .handled (.fbUpdateReq 0 0 0 16 16),
      .update ⟨0, 0, 16, 16⟩ true] := by
  have hwf : ∀ m ∈ painter, m.1.WellFormed := by decide
  obtain ⟨c₀, hrun₀, h₀, hs₀, hlog₀⟩ := reaches_accepted painter
  obtain ⟨c₁, hrun₁, h₁, hs₁, hlog₁⟩ := h₀.handles (B := Build.default) hwf (by decide) (by rw [hs₀]; rfl)
  rw [hs₀] at hs₁ hlog₁
  obtain ⟨c₂, hrun₂, -, -, hlog₂⟩ := h₁.handles (B := Build.default) hwf (by decide) (by rw [hs₁]; rfl)
  rw [hs₁] at hlog₂
  refine ⟨c₂, (hrun₀.trans hrun₁).trans hrun₂, ?_⟩
  rw [hlog₂, hlog₁, hlog₀]
  rfl

/-- On a run with a Hextile update, which was asked for. -/
theorem hextile_asked_for_painter : ∃ c, Reaches (connStep Build.default) anyStep
      (Conn.boot Build.default blank) c ∧ KeepsHextile c.log ∧
    ∃ pre r post, c.log = pre ++ .update r true :: post ∧
      ∃ encodings, lastEncodings pre = some encodings ∧ 5 ∈ encodings := by
  obtain ⟨c, hrun, hlog⟩ := reaches_painter
  have hkeeps : KeepsHextile c.log := by
    intro pre encodings post heq hnot
    rw [hlog] at heq
    cases pre with
    | nil => rfl
    | cons e pre =>
      have hmem : Event.handled (.setEncodings encodings) ∈
          [.handled (.fbUpdateReq 0 0 0 16 16), .update ⟨0, 0, 16, 16⟩ true] := by
        rw [(List.cons.inj heq).2]
        simp
      simp at hmem
  exact ⟨c, hrun, hkeeps, _, _, [], hlog,
    (hextile_asked_for Build.default hrun hkeeps).1 [.handled (.setEncodings [5]),
      .handled (.fbUpdateReq 0 0 0 16 16)] ⟨0, 0, 16, 16⟩ [] hlog⟩

/-- **An encoding dropped from the list is still used**: the client's last list has only encoding 0, and
the repaint goes out in Hextile. -/
theorem not_forall_hextile_asked :
    ¬ ∀ (screen : Screen) (c : Conn),
      Reaches (connStep Build.default) anyStep (Conn.boot Build.default screen) c →
      ∀ pre r post, c.log = pre ++ .update r true :: post →
        ∃ encodings, lastEncodings pre = some encodings ∧ 5 ∈ encodings := by
  intro hall
  have hwf : ∀ m ∈ dropper, m.1.WellFormed := by decide
  obtain ⟨c₀, hrun₀, h₀, hs₀, hlog₀⟩ := reaches_accepted dropper
  obtain ⟨c₁, hrun₁, h₁, hs₁, hlog₁⟩ := h₀.handles (B := Build.default) hwf (by decide) (by rw [hs₀]; rfl)
  rw [hs₀] at hs₁ hlog₁
  obtain ⟨c₂, hrun₂, h₂, hs₂, hlog₂⟩ := h₁.handles (B := Build.default) hwf (by decide) (by rw [hs₁]; rfl)
  rw [hs₁] at hs₂ hlog₂
  obtain ⟨c₃, hrun₃, -, -, hlog₃⟩ := h₂.handles (B := Build.default) hwf (by decide) (by rw [hs₂]; rfl)
  rw [hs₂] at hlog₃
  have hlog : c₃.log = [.handled (.setEncodings [5]), .handled (.setEncodings [0]),
      .handled (.fbUpdateReq 0 0 0 16 16)] ++ [.update ⟨0, 0, 16, 16⟩ true] := by
    rw [hlog₃, hlog₂, hlog₁, hlog₀]
    rfl
  obtain ⟨encodings, hlast, hmem⟩ := hall blank c₃
    (((hrun₀.trans hrun₁).trans hrun₂).trans hrun₃) _ _ [] hlog
  obtain rfl : [0] = encodings := Option.some.inj hlast
  simp at hmem

end KlaussRuntime.Vnc
