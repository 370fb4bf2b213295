import KlaussRuntime.Disk.SdDriver

/-!
# Disk/SdCommands — what the card has done when a command returns

The bytes of the driver, each against the card: what a poll leaves behind (`poll_yields`), that the six
bytes of a command are the command the card executes (`sdCmd_yields`), what a data token and the bytes
after it are, and what the bytes of a block become.  A card is followed as one card in changing modes,
`c.inMode m`.
-/

namespace KlaussRuntime.Disk

open Machinery

variable {b : Bus} {c : Card} {m : Mode} {a n : ℕ} {multi : Bool}

/-! ## Single steps -/

theorem spiXfer_yields {tx : Byte} {Q : Byte → Card → Prop}
    (h : ∀ rx c', b.card.next tx rx = some c' → Q rx c') :
    Yields (spiXfer tx) b fun rx b' => Q rx b'.card := by
  intro rx b' hrun
  obtain ⟨card, _ | ⟨⟨rx'⟩ | _ | _, events⟩⟩ := b
  case cons.byte =>
    obtain ⟨c', hc, hb⟩ := Option.map_eq_some_iff.mp hrun
    cases hb
    exact h rx c' hc
  all_goals cases hrun

theorem spiXfer_to {tx : Byte} {c c' : Card} (hb : b.card = c) (h : ∀ rx, c.next tx rx = some c') :
    Yields (spiXfer tx) b fun _ b' => b'.card = c' :=
  spiXfer_yields (Q := fun _ c'' => c'' = c') fun rx _ hnext => Option.some.inj <|
    hnext.symm.trans (hb ▸ h rx)

theorem expired_yields : Yields expired b fun _ b' => b'.card = b.card := by
  intro e b' hrun
  obtain ⟨card, _ | ⟨_ | _ | _, events⟩⟩ := b
  case cons.expired =>
    cases hrun
    rfl
  all_goals cases hrun

theorem lateness_yields : Yields lateness b fun _ b' => b'.card = b.card := by
  intro g b' hrun
  obtain ⟨card, _ | ⟨_ | _ | _, events⟩⟩ := b
  case cons.late =>
    cases hrun
    rfl
  all_goals cases hrun

theorem csDeassert_yields : Yields csDeassert b fun _ b' => b'.card = b.card.deselect := .modify rfl

/-- **A poll**: bytes that do not stop it keep `I`. -/
theorem poll_yields {stop : Byte → Bool} (I : Card → Prop) {Q : Byte → Card → Prop} (hb : I b.card)
    (hgo : ∀ c rx c', I c → c.next 0xFF rx = some c' → stop rx = false → I c')
    (hstop : ∀ c rx c', I c → c.next 0xFF rx = some c' → stop rx = true → Q rx c') :
    Yields (poll stop) b fun r b' => (r = none → I b'.card) ∧ ∀ rx, r = some rx → Q rx b'.card := by
  have hfor : ∀ n (b : Bus), I b.card → Yields (pollFor stop n) b fun r b' =>
      (r = none → I b'.card) ∧ ∀ rx, r = some rx → Q rx b'.card := by
    intro n
    induction n with
    | zero =>
      intro b _ r b' hrun
      cases hrun
    | succ n ih =>
      intro b hb
      refine (spiXfer_yields fun rx c' h => (⟨hgo _ rx c' hb h, hstop _ rx c' hb h⟩ :
        (stop rx = false → I c') ∧ (stop rx = true → Q rx c'))).bind fun rx b' h => .ite (fun hs => ?_) ?_
      · exact .pure ⟨by simp, by simpa using h.2 hs⟩
      · intro hs
        have hI := h.1 (by simpa using hs)
        refine expired_yields.bind fun e b'' heq => .ite (fun _ => ?_) fun _ => ?_
        · exact .pure ⟨fun _ => heq ▸ hI, by simp⟩
        · exact ih b'' (heq ▸ hI)
  exact hfor _ b hb

section Keeps

variable {I : Card → Prop}

theorem txBytes_keeps {bs : List Byte} (hb : I b.card)
    (h : ∀ tx ∈ bs, ∀ c rx c', I c → c.next tx rx = some c' → I c') :
    Yields (txBytes bs) b fun _ b' => I b'.card := by
  induction bs generalizing b with
  | nil => exact .pure hb
  | cons tx bs ih =>
    refine (spiXfer_yields (Q := fun _ => I) fun rx c' => h tx List.mem_cons_self _ rx c' hb).bind ?_
    exact fun _ b' hb' => ih hb' fun tx htx => h tx (List.mem_cons_of_mem _ htx)

theorem pollR1_keeps (hb : I b.card) (h : ∀ c rx c', I c → c.next 0xFF rx = some c' → I c') :
    Yields (pollR1 n) b fun _ b' => I b'.card := by
  induction n generalizing b with
  | zero => exact .pure hb
  | succ n ih =>
    refine (spiXfer_yields (Q := fun _ => I) fun rx c' => h _ rx c' hb).bind ?_
    exact fun _ b' hb' => .ite (fun _ => .pure hb') fun _ => ih hb'

theorem sdWaitNotBusy_keeps (hb : I b.card) (h : ∀ c rx c', I c → c.next 0xFF rx = some c' → I c') :
    Yields sdWaitNotBusy b fun _ b' => I b'.card := by
  refine (poll_yields I (Q := fun _ => I) hb (fun c rx c' hc hn _ => h c rx c' hc hn)
    fun c rx c' hc hn _ => h c rx c' hc hn).bind ?_
  rintro (_ | rx) b' ⟨hnone, hsome⟩
  · exact .pure (hnone rfl)
  · exact .pure (hsome rx rfl)

end Keeps

/-! ## Commands -/

/-- The card hears commands, or answers none. -/
def Mode.listening : Mode → Bool
  | .idle [] | .stuck => true
  | _ => false

/-- The modes a deselected card can be in. -/
def Mode.Quiet (m : Mode) : Prop := m.listening ∨ ∃ back : Back, m = .busy back ∧ back.mode.listening

theorem next_of_listening {rx : Byte} {c' : Card} (hm : m.listening)
    (h : (c.inMode m).next 0xFF rx = some c') : c' = c.inMode m := by
  match m, hm with
  | .idle [], _ => exact (Option.some.inj h).symm
  | .stuck, _ =>
    rw [Card.next_stuck, Option.ite_none_left_eq_some] at h
    exact (Option.some.inj h.2).symm

theorem sdWaitReady_yields (hb : b.card = c.inMode m) (hm : m.Quiet) :
    Yields sdWaitReady b fun rc b' =>
      ∃ m', b'.card = c.inMode m' ∧ m'.Quiet ∧ (rc = 0 → m'.listening) := by
  refine (poll_yields (fun c' => ∃ m', c' = c.inMode m' ∧ m'.Quiet)
    (Q := fun _ c' => ∃ m', c' = c.inMode m' ∧ m'.listening) ⟨m, hb, hm⟩ ?_ ?_).bind ?_
  · rintro _ rx c' ⟨m', rfl, hm' | ⟨back, rfl, hback⟩⟩ hnext -
    · exact ⟨m', next_of_listening hm' hnext, .inl hm'⟩
    · rw [Card.next_busy_poll, Option.some.injEq] at hnext
      refine ⟨_, hnext.symm, ?_⟩
      split
      · exact .inr ⟨back, rfl, hback⟩
      · exact .inl hback
  · rintro _ rx c' ⟨m', rfl, hm' | ⟨back, rfl, hback⟩⟩ hnext hstop
    · exact ⟨m', next_of_listening hm' hnext, hm'⟩
    · obtain rfl : rx = 0xFF := eq_of_beq hstop
      rw [Card.next_busy_poll, Option.some.injEq] at hnext
      exact ⟨back.mode, hnext.symm, hback⟩
  · rintro (_ | rx) b' ⟨hnone, hsome⟩
    · obtain ⟨m', h, hm'⟩ := hnone rfl
      exact .pure ⟨m', h, hm', by simp⟩
    · obtain ⟨m', h, hm'⟩ := hsome rx rfl
      exact .pure ⟨m', h, .inl hm', fun _ => hm'⟩

/-- **The six bytes of a command.** -/
theorem frame_yields {cmd : Byte} {arg : BitVec 32} {crc : Byte} (hb : b.card = c.inMode (.idle [])) :
    Yields (txBytes (frame cmd arg crc)) b fun _ b' =>
      b'.card = c.inMode (.answer (0x40 ||| (cmd &&& 0x3F)) arg 8) := by
  have hcmd : (0x40 ||| (cmd &&& 0x3F)) &&& 0xC0 = (0x40 : Byte) := by
    revert cmd
    decide +kernel
  have hfirst : ∀ rx, (c.inMode (.idle [])).next (0x40 ||| (cmd &&& 0x3F)) rx
      = some (c.inMode (.idle [0x40 ||| (cmd &&& 0x3F)])) := fun _ =>
    congrArg (fun m => some (c.inMode m)) (if_pos hcmd)
  refine (spiXfer_to hb hfirst).bind fun _ b₁ h₁ => ?_
  refine (spiXfer_to h₁ fun _ => rfl).bind fun _ b₂ h₂ => ?_
  refine (spiXfer_to h₂ fun _ => rfl).bind fun _ b₃ h₃ => ?_
  refine (spiXfer_to h₃ fun _ => rfl).bind fun _ b₄ h₄ => ?_
  refine (spiXfer_to h₄ fun _ => rfl).bind fun _ b₅ h₅ => ?_
  refine (spiXfer_to h₅ fun _ => rfl).bind fun _ b₆ h₆ => .pure ?_
  rw [h₆, Card.argument, packed_bytes]
  rfl

/-- **The answer to a command.** -/
theorem pollR1_yields {cmd : Byte} {arg : BitVec 32}
    (hb : b.card = c.inMode (if n = 0 then .idle [] else .answer cmd arg n)) :
    Yields (pollR1 n) b fun r b' =>
      b'.card = c.execute cmd arg r ∨ (r = 0xFF ∧ b'.card = c.inMode (.idle [])) := by
  induction n generalizing b with
  | zero => exact .pure (.inr ⟨rfl, hb⟩)
  | succ n ih =>
    refine (spiXfer_yields (Q := fun rx c' => (rx &&& 0x80 = 0 → c' = c.execute cmd arg rx) ∧
      (rx &&& 0x80 ≠ 0 → c' = c.inMode (if n = 0 then .idle [] else .answer cmd arg n))) ?_).bind
      fun rx b' h => .ite (fun hr => .pure (.inl (h.1 hr))) fun hr => ih (h.2 hr)
    intro rx c' hnext
    rw [hb, if_neg n.succ_ne_zero, Card.next_answer, Nat.add_sub_cancel] at hnext
    refine ⟨fun hr => ?_, fun hr => ?_⟩
    · rw [if_pos hr] at hnext
      exact (Option.some.inj hnext).symm
    · rw [if_neg hr] at hnext
      rw [← Option.some.inj hnext]
      exact congrArg c.inMode (if_congr (by omega) rfl rfl)

theorem pollR1_stuck (hb : b.card = c.inMode .stuck) :
    Yields (pollR1 n) b fun r b' => r = 0xFF ∧ b'.card = c.inMode .stuck := by
  induction n generalizing b with
  | zero => exact .pure ⟨rfl, hb⟩
  | succ n ih =>
    refine (spiXfer_yields (Q := fun rx c' => rx &&& 0x80 ≠ 0 ∧ c' = c.inMode .stuck) ?_).bind
      fun rx b' h => .ite (fun hr => absurd hr h.1) fun _ => ih h.2
    intro rx c' hnext
    rw [hb, Card.next_stuck, Option.ite_none_left_eq_some] at hnext
    exact ⟨hnext.1, (Option.some.inj hnext.2).symm⟩

/-- **A command**: the card has executed it, with the answer the driver saw, or has not taken it. -/
theorem sdCmd_yields {cmd : Byte} {arg : BitVec 32} {crc : Byte} (hcmd : cmd ≠ 0)
    (hb : b.card = c.inMode m) (hm : m.Quiet) :
    Yields (sdCmd cmd arg crc) b fun r b' =>
      b'.card = c.execute (0x40 ||| (cmd &&& 0x3F)) arg r ∨
        (r = 0xFF ∧ ∃ m', b'.card = c.inMode m' ∧ m'.Quiet) := by
  rw [sdCmd, if_neg hcmd]
  refine (sdWaitReady_yields hb hm).bind ?_
  rintro rc b' ⟨m', hb', hm', hready⟩
  refine .ite (fun _ => .pure (.inr ⟨rfl, m', hb', hm'⟩)) fun hrc => ?_
  match m', hready (not_not.mp hrc) with
  | .idle [], _ =>
    refine (frame_yields hb').bind fun _ b'' hb'' => (pollR1_yields (n := 8) hb'').mono ?_
    exact fun r b₃ h => h.imp_right fun h => ⟨h.1, _, h.2, .inl rfl⟩
  | .stuck, _ =>
    refine (txBytes_keeps (I := (· = c.inMode .stuck)) hb' ?_).bind fun _ b'' hb'' =>
      (pollR1_stuck hb'').mono fun r b₃ h => .inr ⟨h.1, _, h.2, .inl rfl⟩
    rintro tx - _ rx c' rfl hnext
    rw [Card.next_stuck, Option.ite_none_left_eq_some] at hnext
    exact (Option.some.inj hnext.2).symm

/-! ## Data from the card -/

theorem sdWaitToken_yields (hb : b.card = c.inMode (.token a multi)) :
    Yields sdWaitToken b fun rc b' => (rc = 0 → b'.card = c.inMode (.data a multi 0)) ∧
      (rc ≠ 0 → b'.card = c.inMode (.token a multi) ∨ b'.card = c.inMode .ended) := by
  refine (poll_yields (· = c.inMode (.token a multi))
    (Q := fun rx c' => c' = c.inMode (if rx = 0xFE then .data a multi 0 else .ended)) hb ?_ ?_).bind ?_
  · rintro _ rx c' rfl hnext hgo
    rw [Card.next_token, if_pos (by simpa using hgo)] at hnext
    exact (Option.some.inj hnext).symm
  · rintro _ rx c' rfl hnext hstop
    rw [Card.next_token, if_neg (by simpa using hstop)] at hnext
    exact (Option.some.inj hnext).symm
  · rintro (_ | rx) b' ⟨hnone, hsome⟩
    · exact .pure ⟨by simp, fun _ => .inl (hnone rfl)⟩
    · have h := hsome rx rfl
      by_cases hrx : rx = 0xFE
      · rw [if_pos hrx] at h
        exact .pure ⟨fun _ => h, by simp [hrx]⟩
      · rw [if_neg hrx] at h
        exact .pure ⟨fun h0 => absurd (h0.symm.trans (if_pos hrx)) (by decide), fun _ => .inr h⟩

/-- **The bytes after the token are the sector's.** -/
theorem rxBytes_yields {i : ℕ} (hb : b.card = c.inMode (.data a multi i)) (hn : i + n ≤ 512) :
    Yields (rxBytes n) b fun bs b' =>
      bs = c.disk.read (512 * a + i) n ∧ b'.card = c.inMode (.data a multi (i + n)) := by
  induction n generalizing b i with
  | zero => exact .pure ⟨rfl, hb⟩
  | succ n ih =>
    refine (spiXfer_yields (Q := fun rx c' => rx = c.disk (512 * a + i) ∧
      c' = c.inMode (.data a multi (i + 1))) fun rx c' hnext => ?_).bind fun rx b' h => ?_
    · rw [hb, Card.next_data, if_pos (show i < 513 by omega), Option.ite_none_left_eq_some] at hnext
      exact ⟨not_not.mp fun hne => hnext.1 ⟨by omega, hne⟩, (Option.some.inj hnext.2).symm⟩
    · refine (ih h.2 (by omega)).bind fun bs b'' h' => .pure ⟨?_, ?_⟩
      · rw [h.1, h'.1, Nat.add_comm n, Mem.read_add]
        rfl
      · rw [h'.2, Nat.add_assoc, Nat.add_comm 1]

/-- What a call that filled `n` sectors from `off` on has done to the buffer. -/
structure Fetched (disk : Mem) (a off n : ℕ) (buf : Mem) (r : ℤ × Mem) : Prop where
  outside : ∀ q, q < off ∨ off + 512 * n ≤ q → r.2 q = buf q
  content : r.1 = 0 → r.2.read off (512 * n) = disk.read (512 * a) (512 * n)

theorem sdRxBlock_yields {pipe : Bool} {buf : Mem} {off : ℕ} (hb : b.card = c.inMode (.data a multi 0)) :
    Yields (sdRxBlock pipe buf off) b fun r b' =>
      Fetched c.disk a off 1 buf r ∧ b'.card = c.inMode (.data a multi 512) := by
  have hbytes : ∀ {rc : ℤ} {bs : List Byte}, bs.length = 512 →
      (rc = 0 → bs = c.disk.read (512 * a) 512) → Fetched c.disk a off 1 buf (rc, buf.write off bs) := by
    intro rc bs hlen h
    refine ⟨fun q hq => buf.write_apply_of_not_mem (by omega), fun hrc => ?_⟩
    rw [mul_one, ← h hrc, ← hlen]
    exact buf.read_write_self off bs
  refine (rxBytes_yields hb (Nat.le_of_eq (Nat.zero_add 512))).bind ?_
  rintro bs b' ⟨hbs, hb'⟩
  have hexact := @hbytes 0 bs (hbs ▸ Mem.length_read _ _ 512) fun _ => hbs
  refine .ite (fun _ => ?_) fun _ => .pure ⟨hexact, hb'⟩
  refine lateness_yields.bind ?_
  rintro (_ | g) b'' hb''
  · exact .pure ⟨hexact, hb''.trans hb'⟩
  · exact .pure ⟨hbytes g.length_bytes (by simp), hb''.trans hb'⟩

theorem crc_yields (hb : b.card = c.inMode (.data a multi 512)) :
    Yields (txBytes [0xFF, 0xFF]) b fun _ b' =>
      b'.card = c.inMode (if multi then .token (a + 1) true else .idle []) := by
  refine (spiXfer_to hb fun rx => c.next_data a multi rx 512).bind fun _ b₁ h₁ => ?_
  exact (spiXfer_to h₁ fun rx => c.next_data a multi rx 513).bind fun _ b₂ h₂ => .pure h₂

/-! ## Data to the card -/

theorem txBytes_take {i : ℕ} {got bs : List Byte} (hb : b.card = c.inMode (.take a multi i got))
    (hlen : i + bs.length ≤ 512) :
    Yields (txBytes bs) b fun _ b' => b'.card = c.inMode (.take a multi (i + bs.length) (bs.reverse ++ got)) := by
  induction bs generalizing b i got with
  | nil => exact .pure hb
  | cons tx bs ih =>
    rw [List.length_cons] at hlen
    refine (spiXfer_to hb fun rx => (c.next_take a multi tx rx i got).trans (if_pos (by omega))).bind ?_
    intro _ b' hb'
    rw [List.length_cons, Nat.add_comm bs.length, ← Nat.add_assoc, List.reverse_cons, List.append_assoc]
    exact ih hb' (by omega)

/-- **A data block**: the card accepts it for the sector it has come to, or not at all. -/
theorem sendBlock_yields {src : Mem} {off : ℕ} (hb : b.card = c.inMode (.receive a multi)) :
    Yields (sendBlock (if multi then 0xFC else 0xFE) src off) b fun resp b' =>
      (resp &&& 0x1F = 0x05 → b'.card = (c.accept a (src.read off 512)).inMode
        (.busy (if multi then .receive (a + 1) else .idle))) ∧
      (resp &&& 0x1F ≠ 0x05 → b'.card = c.inMode (.busy (if multi then .receive a else .idle))) := by
  have htoken : Yields (txBytes [0xFF, if multi then 0xFC else 0xFE]) b fun _ b' =>
      b'.card = c.inMode (.take a multi 0 []) := by
    cases multi
    · refine (spiXfer_to hb fun _ => rfl).bind fun _ b₁ h₁ => ?_
      exact (spiXfer_to h₁ fun _ => rfl).bind fun _ b₂ h₂ => .pure h₂
    · refine (spiXfer_to hb fun _ => rfl).bind fun _ b₁ h₁ => ?_
      exact (spiXfer_to h₁ fun _ => rfl).bind fun _ b₂ h₂ => .pure h₂
  refine htoken.bind fun _ b₁ h₁ => ?_
  refine (txBytes_take h₁ (by simp)).bind fun _ b₂ h₂ => ?_
  rw [Mem.length_read, Nat.zero_add, List.append_nil] at h₂
  have hcrc : Yields (txBytes [0xFF, 0xFF]) b₂ fun _ b' =>
      b'.card = c.inMode (.respond a multi (src.read off 512)) := by
    refine (spiXfer_to h₂ fun rx => c.next_take a multi _ rx 512 _).bind fun _ b₃ h₃ => ?_
    refine (spiXfer_to h₃ fun rx => c.next_take a multi _ rx 513 _).bind fun _ b₄ h₄ => .pure ?_
    rw [h₄, List.reverse_reverse]
  refine hcrc.bind fun _ b₃ h₃ => spiXfer_yields (Q := fun resp c' =>
    (resp &&& 0x1F = 0x05 → c' = _) ∧ (resp &&& 0x1F ≠ 0x05 → c' = _)) fun rx c' hnext => ?_
  rw [h₃, Card.next_respond] at hnext
  refine ⟨fun hr => ?_, fun hr => ?_⟩
  · rw [if_pos hr] at hnext
    exact (Option.some.inj hnext).symm
  · rw [if_neg hr] at hnext
    exact (Option.some.inj hnext).symm

theorem sdWaitNotBusy_yields {back : Back} (hb : b.card = c.inMode (.busy back)) :
    Yields sdWaitNotBusy b fun rc b' => (rc = 0 → b'.card = c.inMode back.mode) ∧
      (rc ≠ 0 → b'.card = c.inMode (.busy back)) := by
  refine (poll_yields (· = c.inMode (.busy back)) (Q := fun _ c' => c' = c.inMode back.mode) hb
    ?_ ?_).bind ?_
  · rintro _ rx c' rfl hnext hgo
    rw [Card.next_busy_poll, if_pos (by simpa using hgo)] at hnext
    exact (Option.some.inj hnext).symm
  · rintro _ rx c' rfl hnext hstop
    rw [Card.next_busy_poll, if_neg (by simpa using hstop)] at hnext
    exact (Option.some.inj hnext).symm
  · rintro (_ | rx) b' ⟨hnone, hsome⟩
    · exact .pure ⟨by simp, fun _ => hnone rfl⟩
    · exact .pure ⟨fun _ => hsome rx rfl, by simp⟩

end KlaussRuntime.Disk
