import KlaussRuntime.Netboot.Receive

/-!
# Netboot/Launch — what the network loader starts

lwIP calls `netboot_accept` and `netboot_recv` from the main loop, in any order and for any number of
connections, and so it does in the 100 ms between an image being complete and `launch_image`, which
reads length and entry from the receive globals.

The program that is launched is one that was fully received as long as only the connection accepted
last sends to a transfer, and none is accepted once an image is ready (`launch_faithful`).  Nothing in
the loader sees to that: with two connections a program neither has sent is acknowledged and
started, and one more connection in the 100 ms has an image of length zero started
(`launch_unfaithful`).
-/

namespace KlaussRuntime.Netboot

open Machinery Function

inductive Conn where
  | unused
  | accepted
  | closed
deriving DecidableEq

/-- Where the main loop is. -/
inductive Main where
  | polling
  /-- in the 100 ms before the launch -/
  | flushing
  /-- in `launch_image` with these arguments -/
  | launched (entry len : ℕ)

/-- The loader, with the stream each connection has delivered and the connection accepted last. -/
structure Sys (C : Type) where
  rx : Rx C
  main : Main
  conns : C → Conn
  streams : C → List Byte
  last : Option C

inductive Act (C : Type) where
  /-- `netboot_accept`, with or without an error -/
  | accept (c : C) (err : Bool)
  /-- `netboot_recv` with a chain of buffers; none is the peer's close, or an error -/
  | recv (c : C) (p : Option (List (List Byte)))
  /-- the main loop looks at `g_image_ready` -/
  | check
  /-- the 100 ms are over -/
  | launch

variable {C : Type} [DecidableEq C]

namespace Sys

def start (staging : Mem) : Sys C := ⟨.start staging, .polling, fun _ => .unused, fun _ => [], none⟩

def accept (s : Sys C) (c : C) : Sys C :=
  { s with rx := s.rx.reset, conns := update s.conns c .accepted, last := some c }

def close (s : Sys C) (c : C) : Sys C := { s with conns := update s.conns c .closed }

def recv (s : Sys C) (c : C) (p : List (List Byte)) : Sys C :=
  { s with
    rx := s.rx.consumeAll c p
    streams := update s.streams c (s.streams c ++ p.flatten) }

end Sys

def step (s : Sys C) (a : Act C) : Option (Sys C) :=
  match s.main with
  | .launched _ _ => none
  | main =>
    match a with
    | .accept c err =>
      if s.conns c = .unused then some (if err then s else s.accept c) else none
    | .recv c p =>
      if s.conns c = .accepted then
        some (match p with
          | none => s.close c
          | some p => s.recv c p)
      else none
    | .check =>
      match main with
      | .polling => some (if s.rx.imageReady then { s with main := .flushing } else s)
      | _ => none
    | .launch =>
      match main with
      | .flushing => some { s with main := .launched s.rx.entryPc s.rx.imgLen }
      | _ => none

/-- **The program launched is one that was fully received**: length and entry are those of a header for
which status 0 was acknowledged, and what is staged is what some connection sent after that header. -/
def Faithful (s : Sys C) : Prop :=
  ∀ entry len, s.main = .launched entry len → ∃ a ∈ s.rx.acks, a.status = 0 ∧
    len = rdLe32 a.header 4 ∧ entry = rdLe32 a.header 8 ∧
    ∃ c i, ((s.streams c).drop i).take (12 + len) = a.header ++ s.rx.staging.read 0 len

/-- Only the connection accepted last sends to a transfer, and none is accepted once an image is
ready. -/
def Solo (s : Sys C) : Act C → Prop
  | .accept _ false => s.rx.imageReady = false
  | .recv c (some _) => s.last = some c ∨ s.rx.phase = .done
  | _ => True

variable {s s' : Sys C} {a : Act C} {c d : C} {staging : Mem}

theorem Sys.streams_recv_self (s : Sys C) (c : C) (p : List (List Byte)) :
    (s.recv c p).streams c = s.streams c ++ p.flatten := update_self ..

theorem Sys.streams_recv_of_ne (s : Sys C) (p : List (List Byte)) (h : d ≠ c) :
    (s.recv c p).streams d = s.streams d := update_of_ne h ..

/-- What is unused after a connection has changed was so before. -/
theorem unused_of_update {st : Conn} (h : update s.conns c st d = .unused)
    (hst : st ≠ .unused) : s.conns d = .unused := by
  have hne : d ≠ c := by
    rintro rfl
    rw [update_self] at h
    exact hst h
  rwa [update_of_ne hne] at h

/-! ## What a step can do -/

inductive Effect (s : Sys C) : Act C → Sys C → Prop
  | stays {a : Act C} : Effect s a s
  | accepts (c : C) (hc : s.conns c = .unused) (hmain : ∀ e l, s.main ≠ .launched e l) :
      Effect s (.accept c false) (s.accept c)
  | closes {a : Act C} (c : C) (hc : s.conns c = .accepted) : Effect s a (s.close c)
  | recvs (c : C) (p : List (List Byte)) (hc : s.conns c = .accepted)
      (hmain : ∀ e l, s.main ≠ .launched e l) : Effect s (.recv c (some p)) (s.recv c p)
  | flushes {a : Act C} (hready : s.rx.imageReady = true) : Effect s a { s with main := .flushing }
  | launches {a : Act C} (hmain : s.main = .flushing) :
      Effect s a { s with main := .launched s.rx.entryPc s.rx.imgLen }

theorem effect_of_step (hs : step s a = some s') : Effect s a s' := by
  simp only [step] at hs
  split at hs
  · cases hs
  · next hmain =>
    cases a with
    | accept c err =>
      simp only at hs
      split_ifs at hs with hc herr
      · cases hs
        exact .stays
      · cases hs
        obtain rfl : err = false := Bool.eq_false_iff.mpr herr
        exact .accepts c hc hmain
    | recv c p =>
      simp only at hs
      split_ifs at hs with hc
      cases hs
      rcases p with _ | p
      · exact .closes c hc
      · exact .recvs c p hc hmain
    | check =>
      simp only at hs
      split at hs
      · cases hs
        split_ifs with hready
        · exact .flushes hready
        · exact .stays
      · cases hs
    | launch =>
      simp only at hs
      split at hs
      · next hflush =>
        cases hs
        exact .launches hflush
      · cases hs

/-! ## Every run -/

/-- What holds in every run. -/
structure Sys.Ok (s : Sys C) : Prop where
  rx : s.rx.Ok
  launched : ∀ entry len, s.main = .launched entry len → entry = s.rx.entryPc ∧ len = s.rx.imgLen

omit [DecidableEq C] in
theorem Sys.Ok.start (staging : Mem) : (start staging : Sys C).Ok := ⟨.start staging, nofun⟩

theorem Sys.Ok.step (h : s.Ok) (hs : Netboot.step s a = some s') : s'.Ok := by
  cases effect_of_step hs with
  | stays => exact h
  | accepts c hc hmain => exact ⟨h.rx.reset, fun e l hl => absurd hl (hmain e l)⟩
  | closes => exact ⟨h.rx, h.launched⟩
  | recvs c p hc hmain =>
    obtain ⟨_, -, hadv, -⟩ := h.rx.takes_consumeAll c p
    exact ⟨hadv.ok, fun e l hl => absurd hl (hmain e l)⟩
  | flushes => exact ⟨h.rx, nofun⟩
  | launches =>
    refine ⟨h.rx, fun e l hl => ?_⟩
    obtain ⟨rfl, rfl⟩ := Main.launched.inj hl
    exact ⟨rfl, rfl⟩

theorem Sys.ok_of_reaches (h : Reaches step anyStep (start staging) s) : s.Ok :=
  h.invariant (fun hok _ hs => hok.step hs) (Ok.start staging)

omit [DecidableEq C] in
/-- **A launch while a header is awaited** is of length zero, and not faithful. -/
theorem Sys.Ok.not_faithful (h : s.Ok) {entry len : ℕ} (hmain : s.main = .launched entry len)
    (hphase : s.rx.phase = .header) : ¬ Faithful s := by
  intro hfaithful
  obtain ⟨a, ha, hstatus, hlen, -⟩ := hfaithful entry len hmain
  have hpos := h.rx.acks a ha hstatus
  rw [← hlen, (h.launched entry len hmain).2, (h.rx.header hphase).2.1] at hpos
  exact absurd hpos (lt_irrefl 0)

/-! ## Runs with one sender at a time -/

/-- The state is about what the connection accepted last has sent. -/
structure Sys.Tidy (s : Sys C) : Prop where
  ok : s.Ok
  sound : s.rx.Sound
  unused : ∀ c, s.conns c = .unused → s.streams c = []
  nobody : s.last = none → s.rx.phase = .header
  last : ∀ c, s.last = some c → s.rx.received <+: s.streams c ∧
    (s.rx.phase ≠ .done → s.rx.received = s.streams c)
  waiting : s.main ≠ .polling → s.rx.imageReady = true

omit [DecidableEq C] in
theorem Sys.Tidy.start (staging : Mem) : (start staging : Sys C).Tidy :=
  ⟨.start staging, nofun, fun _ _ => rfl, fun _ => rfl, nofun, fun h => absurd rfl h⟩

theorem Sys.Tidy.accept (h : s.Tidy) (hc : s.conns c = .unused) (hready : s.rx.imageReady = false)
    (hok : (s.accept c).Ok) : (s.accept c).Tidy where
  ok := hok
  sound hset := by
    rw [Sys.accept, Rx.reset, hready] at hset
    cases hset
  unused d hd := h.unused d (unused_of_update hd nofun)
  nobody := nofun
  last d hd := by
    cases hd
    change [] <+: s.streams c ∧ (_ → [] = s.streams c)
    rw [h.unused c hc]
    exact ⟨List.prefix_rfl, fun _ => rfl⟩
  waiting hmain := h.waiting hmain

theorem Sys.Tidy.recv (h : s.Tidy) (hc : s.conns c = .accepted) (p : List (List Byte))
    (hsolo : s.last = some c ∨ s.rx.phase = .done) (hok : (s.recv c p).Ok) : (s.recv c p).Tidy := by
  obtain ⟨bytes, hpre, hadv, hall⟩ := h.ok.rx.takes_consumeAll c p
  have hstream (d : C) : s.streams d <+: (s.recv c p).streams d := by
    rcases eq_or_ne d c with rfl | hne
    · rw [s.streams_recv_self]
      exact List.prefix_append ..
    · rw [s.streams_recv_of_ne p hne]
  have hdone (hphase : s.rx.phase = .done) : (s.recv c p).rx = s.rx := Rx.consumeAll_done hphase c p
  refine ⟨hok, hadv.sound h.sound, fun d hd => ?_, fun hnone => ?_, fun d hd => ?_, fun hmain => ?_⟩
  · have hne : d ≠ c := by
      rintro rfl
      exact absurd (hc.symm.trans hd) (by decide)
    rw [s.streams_recv_of_ne p hne]
    exact h.unused d hd
  · have hphase := h.nobody hnone
    rcases hsolo with hlast | hd
    · exact absurd (hnone.symm.trans hlast) nofun
    · exact absurd (hphase.symm.trans hd) (by decide)
  · obtain ⟨hfront, hwhole⟩ := h.last d hd
    by_cases hphase : s.rx.phase = .done
    · rw [hdone hphase]
      exact ⟨hfront.trans (hstream d), fun hne => absurd hphase hne⟩
    · -- the sender is the connection accepted last, and its bytes are added on both sides
      obtain rfl : d = c := Option.some.inj (hd.symm.trans (hsolo.resolve_right hphase))
      rw [show (s.recv d p).rx.received = _ from hadv.received, hwhole hphase, s.streams_recv_self]
      exact ⟨(List.prefix_append_right_inj _).mpr hpre, fun hne => by rw [hall hne]⟩
  · by_cases hphase : s.rx.phase = .done
    · rw [hdone hphase]
      exact h.waiting hmain
    · exact absurd (h.sound (h.waiting hmain)).phase hphase

theorem Sys.Tidy.step (h : s.Tidy) (hsolo : Solo s a) (hs : Netboot.step s a = some s') : s'.Tidy := by
  have hok := h.ok.step hs
  cases effect_of_step hs with
  | stays => exact h
  | accepts c hc => exact h.accept hc hsolo hok
  | closes c hc =>
    exact ⟨hok, h.sound, fun d hd => h.unused d (unused_of_update hd nofun), h.nobody, h.last,
      h.waiting⟩
  | recvs c p hc => exact h.recv hc p hsolo hok
  | flushes hready => exact ⟨hok, h.sound, h.unused, h.nobody, h.last, fun _ => hready⟩
  | launches hmain =>
    exact ⟨hok, h.sound, h.unused, h.nobody, h.last, fun _ => h.waiting (by rw [hmain]; nofun)⟩

omit [DecidableEq C] in
theorem Sys.Tidy.faithful (h : s.Tidy) : Faithful s := by
  intro entry len hmain
  have hready := h.waiting (by rw [hmain]; nofun)
  have hcomplete := h.sound hready
  obtain ⟨rfl, rfl⟩ := h.ok.launched entry len hmain
  obtain ⟨a, ha, hhdr, hstatus⟩ := hcomplete.acked
  refine ⟨a, ha, hstatus, by rw [hhdr, hcomplete.header.imgLen], by rw [hhdr, hcomplete.header.entryPc],
    ?_⟩
  obtain ⟨c, hc⟩ : ∃ c, s.last = some c := by
    rw [← Option.ne_none_iff_exists']
    intro hnone
    exact absurd ((h.nobody hnone).symm.trans hcomplete.phase) (by decide)
  obtain ⟨rest, hrest⟩ := (h.last c hc).1
  refine ⟨c, 0, ?_⟩
  rw [List.drop_zero, ← hrest, Rx.received, hcomplete.offset, hhdr]
  refine List.take_left' ?_
  rw [List.length_append, hcomplete.header.length, Mem.length_read]

/-- **The launched program was fully received** in every run in which only the connection accepted last
sends to a transfer and none is accepted once an image is ready; and in any run whatsoever, what is
launched while a new header is awaited was not. -/
theorem launch_faithful (staging : Mem) (s : Sys C) :
    (Reaches step Solo (Sys.start staging) s → Faithful s) ∧
    (Reaches step anyStep (Sys.start staging) s → s.rx.phase = .header →
      ∀ entry len, s.main = .launched entry len → ¬ Faithful s) := by
  refine ⟨fun h => ?_, fun h hphase entry len hmain => ?_⟩
  · exact (h.invariant Sys.Tidy.step (Sys.Tidy.start staging)).faithful
  · exact (Sys.ok_of_reaches h).not_faithful hmain hphase

/-- A header for eight bytes to be entered at 0x20. -/
def sampleHeader : List Byte := [0x4b, 0x4e, 0x45, 0x54, 8, 0, 0, 0, 0x20, 0, 0, 0]

/-- **One transfer after another**: a connection sends half an image and closes, the next sends a whole
one, and that is launched. -/
theorem launch_faithful_run :
    ∃ s : Sys Bool, Reaches step Solo (Sys.start fun _ => 0) s ∧ s.main = .launched 0x20 8 ∧
      s.rx.staging.read 0 8 = [1, 2, 3, 4, 5, 6, 7, 8] ∧ Faithful s := by
  have hstart : Reaches step Solo (Sys.start fun _ => 0) (Sys.start fun _ => 0 : Sys Bool) := .refl
  have hfirst := (hstart.snoc (a := Act.accept false false) rfl rfl).snoc
    (a := Act.recv false (some [sampleHeader, [9, 9, 9, 9]])) (.inl rfl) rfl
  have hsecond := (hfirst.snoc (a := Act.recv false none) trivial rfl).snoc
    (a := Act.accept true false) rfl rfl
  have hhalf := hsecond.snoc (a := Act.recv true (some [sampleHeader ++ [1, 2, 3]])) (.inl rfl) rfl
  have hwhole := hhalf.snoc (a := Act.recv true (some [[4, 5], [6, 7, 8]])) (.inl rfl) rfl
  have hlaunched := (hwhole.snoc (a := Act.check) trivial rfl).snoc (a := Act.launch) trivial rfl
  exact ⟨_, hlaunched, rfl, by decide +kernel, (launch_faithful _ _).1 hlaunched⟩

/-- The second half of one connection's image behind the first half of another's. -/
theorem not_faithful_mixed {s : Sys Bool} (hmain : s.main = .launched 0x20 8)
    (hfalse : s.streams false = sampleHeader ++ [1, 2, 3, 4, 5, 6, 7, 8])
    (htrue : s.streams true = sampleHeader ++ [9, 9, 9, 9])
    (hstaged : s.rx.staging.read 0 8 = [9, 9, 9, 9, 5, 6, 7, 8])
    (hacks : ∀ a ∈ s.rx.acks, a.header = sampleHeader) : ¬ Faithful s := by
  intro hfaithful
  obtain ⟨a, ha, -, -, -, c, i, hwindow⟩ := hfaithful 0x20 8 hmain
  rw [hacks a ha, hstaged] at hwindow
  have hlength := congrArg List.length hwindow
  rw [List.length_take, List.length_drop] at hlength
  cases c with
  | false =>
    rw [hfalse] at hwindow hlength
    obtain rfl : i = 0 := by
      simp only [List.length_append, sampleHeader, List.length_cons, List.length_nil] at hlength
      omega
    exact absurd hwindow (by decide)
  | true =>
    rw [htrue] at hlength
    simp only [List.length_append, sampleHeader, List.length_cons, List.length_nil] at hlength
    omega

/-- **Not what was received**: in the first run, the rest of one connection's image completes the
other's; in the second, a connection is accepted in the 100 ms before the launch. -/
theorem launch_unfaithful :
    (∃ s : Sys Bool, Reaches step anyStep (Sys.start fun _ => 0) s ∧ s.main = .launched 0x20 8 ∧
      s.streams false = sampleHeader ++ [1, 2, 3, 4, 5, 6, 7, 8] ∧
      s.streams true = sampleHeader ++ [9, 9, 9, 9] ∧
      s.rx.staging.read 0 8 = [9, 9, 9, 9, 5, 6, 7, 8] ∧ ¬ Faithful s) ∧
    ∃ s : Sys Bool, Reaches step anyStep (Sys.start fun _ => 0) s ∧ s.main = .launched 0x20 0 ∧
      ¬ Faithful s := by
  have hstart : Reaches step anyStep (Sys.start fun _ => 0) (Sys.start fun _ => 0 : Sys Bool) := .refl
  have hopen := hstart.snoc (a := Act.accept false false) trivial rfl
  constructor
  · have hhalf := (hopen.snoc (a := Act.recv false (some [sampleHeader ++ [1, 2, 3, 4]])) trivial rfl)
    have hother := (hhalf.snoc (a := Act.accept true false) trivial rfl).snoc
      (a := Act.recv true (some [sampleHeader ++ [9, 9, 9, 9]])) trivial rfl
    have hmixed := hother.snoc (a := Act.recv false (some [[5, 6, 7, 8]])) trivial rfl
    have hlaunched := (hmixed.snoc (a := Act.check) trivial rfl).snoc (a := Act.launch) trivial rfl
    exact ⟨_, hlaunched, rfl, by decide +kernel, by decide +kernel, by decide +kernel,
      not_faithful_mixed rfl (by decide +kernel) (by decide +kernel) (by decide +kernel)
        (by decide +kernel)⟩
  · have hwhole := hopen.snoc (a := Act.recv false (some [sampleHeader ++ [1, 2, 3, 4, 5, 6, 7, 8]]))
      trivial rfl
    have hlate := (hwhole.snoc (a := Act.check) trivial rfl).snoc
      (a := Act.accept true false) trivial rfl
    have hlaunched := hlate.snoc (a := Act.launch) trivial rfl
    exact ⟨_, hlaunched, rfl, (Sys.ok_of_reaches hlaunched).not_faithful rfl rfl⟩

end KlaussRuntime.Netboot
