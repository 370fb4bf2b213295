import KlaussRuntime.Servers.WorkerPool

/-!
# Servers/Workers — what a worker does to its slot

`Slot.Ok` says what a slot looks like next to the accept loop and its worker: a worker that is not at its
end keeps the slot busy, and what it has read is still there.  The steps of the three worker functions are
few in kind (`Move`): most go on, the others free, close, clear the flag, give the slot up or end.  Each kind
keeps the slot in order (`Slot.Ok.move`) and spends the socket and the session the slot has, and no other
(`Move.sockets`, `Move.sessions`).
-/

namespace KlaussRuntime.Servers

open Machinery Function

/-! ## The invariant -/

variable {srv : Server} {n : ℕ} {s s' : Sys} {i : ℕ} {sl sl' : Slot} {w w' : Worker} {pc pc' : AcceptPc}

/-- What a worker has read is still what the slot holds. -/
structure Worker.Ready (srv : Server) (sock session : Option ℕ) (w : Worker) : Prop where
  cfd : srv ≠ .ssh → w.pc.begun = true → w.pc.opened = true → w.cfd = sock
  session : srv ≠ .http → w.pc.begun = true → w.pc.unfreed = true → w.session = session

/-- **A slot, its workers, and the accept loop.** -/
structure Slot.Ok (srv : Server) (pc : AcceptPc) (i : ℕ) (sl : Slot) : Prop where
  single : sl.workers.length ≤ 1
  unused : sl.used = false → sl.workers = []
  claimed : pc.claims = some i → sl.busy = true ∧ sl.retired = false ∧ ∀ w ∈ sl.workers, w.pc = .exit
  joined : pc.joined = some i → sl.workers = []
  idle : sl.busy = false → ∀ w ∈ sl.workers, w.pc = .exit
  retired : sl.retired = true → sl.busy = true ∧ ∀ w ∈ sl.workers, w.pc.retiring = true
  ready : ∀ w ∈ sl.workers, w.Ready srv sl.sock sl.session
  plain : srv = .http → sl.session = none

/-- What the accept loop has written into its slot. -/
def AcceptPc.Stored (srv : Server) (slots : ℕ → Slot) : AcceptPc → Prop
  | .new _ _ => srv ≠ .http
  | .store left c x i => (Field.sock ∈ left ∨ (slots i).sock = some c) ∧
      (Field.session ∈ left ∨ (slots i).session = x) ∧ (srv = .http → x = none)
  | .join c x i | .mark c x i => (slots i).sock = some c ∧ (slots i).session = x
  | .create c x i => (slots i).sock = some c ∧ (slots i).session = x ∧ (slots i).used = true
  | _ => True

structure Inv (srv : Server) (s : Sys) : Prop where
  slots : ∀ i, (s.slots i).Ok srv s.acceptor i
  stored : s.acceptor.Stored srv s.slots
  sockets : Linear s.sockets s.sockHeld
  sessions : Affine s.sessions s.sessionHeld

theorem Inv.init : Inv srv Sys.init where
  slots i := by constructor <;> simp [Sys.init, AcceptPc.claims, AcceptPc.joined]
  stored := trivial
  sockets := by
    have hnone : Sys.init.sockHeld = fun _ => none := by
      funext x
      cases x <;> rfl
    rw [hnone]
    exact Linear.empty
  sessions := by
    have hnone : Sys.init.sessionHeld = fun _ => none := by
      funext x
      cases x <;> rfl
    rw [hnone]
    exact Linear.empty.toAffine

theorem Inv.owned (h : Inv srv s) : Owned s where
  single i := (h.slots i).single
  joined c x i hpc := (h.slots i).joined (by rw [hpc]; rfl)
  undisturbed i hi := ((h.slots i).claimed hi).2.2
  idle i := (h.slots i).idle
  closed c hc := h.sockets.spent_or_held hc
  freed := h.sessions.once
  retired i hi := ((h.slots i).retired hi).1

/-! ## Kinds of steps -/

/-- **What a step of a worker can be.** -/
inductive Move (srv : Server) (sl : Slot) (w : Worker) : Effect → Slot → Option Worker → Prop where
  /-- the worker goes on, and changes `rx_lock` at most -/
  | quiet {w' : Worker} {r : Bool} (hstays : w.pc.retiring = false) (hopened : w'.pc.opened = w.pc.opened)
      (hunfreed : w'.pc.unfreed = true → w.pc.unfreed = true) (hready : w'.Ready srv sl.sock sl.session) :
      Move srv sl w .none { sl with rxLock := r } (some w')
  | free {x : Option ℕ} (hpc : w.pc = .free) (hx : x = sl.session) :
      Move srv sl w (.free x) sl (some { w with pc := .close })
  | close {c : Option ℕ} (hpc : w.pc = .close) (hc : c = sl.sock) :
      Move srv sl w (.close c) sl (some { w with pc := .clear })
  | clear (hpc : w.pc = .clear) :
      Move srv sl w .none { sl with busy := false } (some { w with pc := .exit })
  | giveUp (hpc : w.pc = .release) :
      Move srv sl w .none { sl with retired := true } (some { w with pc := .retire })
  | retire (hpc : w.pc = .retire) : Move srv sl w (.close sl.sock) sl (some { w with pc := .unplug })
  | unplug (hpc : w.pc = .unplug) :
      Move srv sl w .none { sl with sock := none } (some { w with pc := .exit })
  | ends (hpc : w.pc = .exit) : Move srv sl w .none sl none

section Moves

variable {e : Effect} {ans : Answer} {next : Option Worker}

theorem Move.goes {pc : Pc} (hready : w.Ready srv sl.sock sl.session) (hbegun : w.pc.begun = true)
    (hstays : w.pc.retiring = false) (hopened : pc.opened = w.pc.opened)
    (hunfreed : pc.unfreed = true → w.pc.unfreed = true) (r : Bool) :
    Move srv sl w .none { sl with rxLock := r } (some { w with pc }) :=
  .quiet hstays hopened hunfreed
    ⟨fun hsrv _ hpc => hready.cfd hsrv hbegun (hopened ▸ hpc),
      fun hsrv _ hpc => hready.session hsrv hbegun (hunfreed hpc)⟩

theorem httpdConnEntry_move (hready : w.Ready .http sl.sock sl.session)
    (h : httpdConnEntry sl w ans = some (e, sl', next)) : Move .http sl w e sl' next := by
  obtain ⟨pc, cfd, session⟩ := w
  cases pc with
  | start =>
    cases h
    exact .quiet rfl rfl (fun _ => rfl) ⟨fun _ _ _ => rfl, fun hsrv => absurd rfl hsrv⟩
  | serve => cases ans <;> cases h <;> exact .goes hready rfl rfl (by rfl) (fun _ => rfl) sl.rxLock
  | close =>
    cases h
    exact .close rfl (hready.cfd (by decide) rfl rfl)
  | clear =>
    cases h
    exact .clear rfl
  | exit =>
    cases h
    exact .ends rfl
  | _ => cases h

theorem httpsdConnEntry_move (hready : w.Ready .https sl.sock sl.session)
    (h : httpsdConnEntry sl w ans = some (e, sl', next)) : Move .https sl w e sl' next := by
  obtain ⟨pc, cfd, session⟩ := w
  cases pc with
  | start =>
    cases h
    exact .quiet rfl rfl (fun _ => rfl) ⟨fun _ _ _ => rfl, fun _ _ _ => rfl⟩
  | handshake => cases ans <;> cases h <;> exact .goes hready rfl rfl (by rfl) (fun _ => rfl) sl.rxLock
  | serve => cases ans <;> cases h <;> exact .goes hready rfl rfl (by rfl) (fun _ => rfl) sl.rxLock
  | shutdown =>
    cases h
    exact .goes hready rfl rfl (by rfl) (fun _ => rfl) sl.rxLock
  | free =>
    cases h
    exact .free rfl (hready.session (by decide) rfl rfl)
  | close =>
    cases h
    exact .close rfl (hready.cfd (by decide) rfl rfl)
  | clear =>
    cases h
    exact .clear rfl
  | exit =>
    cases h
    exact .ends rfl
  | _ => cases h

theorem sshConnEntry_move (hready : w.Ready .ssh sl.sock sl.session)
    (h : sshConnEntry sl w ans = some (e, sl', next)) : Move .ssh sl w e sl' next := by
  obtain ⟨pc, cfd, session⟩ := w
  cases pc with
  | start =>
    cases h
    exact .quiet rfl rfl (fun _ => rfl) ⟨fun hsrv => absurd rfl hsrv, fun _ _ _ => rfl⟩
  | handshake => cases ans <;> cases h <;> exact .goes hready rfl rfl (by rfl) (fun _ => rfl) sl.rxLock
  | serve => cases ans <;> cases h <;> exact .goes hready rfl rfl (by rfl) (fun _ => rfl) sl.rxLock
  | claim =>
    cases h
    exact .goes hready rfl rfl (by rfl) (fun _ => rfl) true
  | shell => cases ans <;> cases h <;> exact .goes hready rfl rfl (by rfl) (fun _ => rfl) sl.rxLock
  | unlockRx =>
    cases h
    exact .goes hready rfl rfl (by rfl) (fun _ => rfl) false
  | release =>
    cases ans with
    | stuck =>
      cases h
      exact .giveUp rfl
    | _ =>
      cases h
      exact .goes hready rfl rfl (by rfl) (fun _ => rfl) sl.rxLock
  | free =>
    cases h
    exact .free rfl (hready.session (by decide) rfl rfl)
  | close =>
    cases h
    exact .close rfl rfl
  | clear =>
    cases h
    exact .clear rfl
  | retire =>
    cases h
    exact .retire rfl
  | unplug =>
    cases h
    exact .unplug rfl
  | exit =>
    cases h
    exact .ends rfl
  | shutdown => cases h

theorem connEntry_move (hready : w.Ready srv sl.sock sl.session) (h : srv.connEntry sl w ans = some (e, sl', next)) :
    Move srv sl w e sl' next := by
  cases srv with
  | http => exact httpdConnEntry_move hready h
  | https => exact httpsdConnEntry_move hready h
  | ssh => exact sshConnEntry_move hready h

end Moves

theorem Move.of_exit {e : Effect} {next : Option Worker} (hm : Move srv sl w e sl' next)
    (hpc : w.pc = .exit) : sl' = sl ∧ next = none := by
  cases hm with
  | ends => exact ⟨rfl, rfl⟩
  | quiet hstays => simp [hpc, Pc.retiring] at hstays
  | free h => simp [hpc] at h
  | close h => simp [hpc] at h
  | clear h => simp [hpc] at h
  | giveUp h => simp [hpc] at h
  | retire h => simp [hpc] at h
  | unplug h => simp [hpc] at h

/-- A worker that has closed and freed what it had needs nothing. -/
theorem Worker.Ready.of_closed {sock session : Option ℕ} (hopened : w.pc.opened = false) (hunfreed : w.pc.unfreed = false) :
    w.Ready srv sock session :=
  ⟨fun _ _ ho => absurd (hopened.symm.trans ho) Bool.false_ne_true,
    fun _ _ hu => absurd (hunfreed.symm.trans hu) Bool.false_ne_true⟩

namespace Slot.Ok

theorem busy_of_live (h : sl.Ok srv pc i) (hw : sl.workers = [w]) (hlive : w.pc ≠ .exit) :
    sl.busy = true := by
  by_contra hb
  exact hlive (h.idle (by simpa using hb) w (by simp [hw]))

theorem moved (h : sl.Ok srv pc i) (hw : sl.workers = [w]) (hlive : w.pc ≠ .exit)
    (hused : sl'.used = sl.used) (hsession : sl'.session = sl.session)
    (hidle : sl'.busy = sl.busy ∨ w'.pc = .exit)
    (hretired : sl'.retired = true → sl'.busy = true ∧ w'.pc.retiring = true)
    (hready : w'.Ready srv sl'.sock sl'.session) : Slot.Ok srv pc i { sl' with workers := [w'] } where
  single := Nat.le_refl 1
  unused h0 := by
    rw [h.unused (hused ▸ h0)] at hw
    cases hw
  claimed hc := absurd ((h.claimed hc).2.2 w (by simp [hw])) hlive
  joined hj := by
    rw [h.joined hj] at hw
    cases hw
  idle hb v hv := by
    obtain rfl := List.mem_singleton.mp hv
    rcases hidle with hsame | hexit
    · have hb : sl'.busy = false := hb
      rw [hsame, h.busy_of_live hw hlive] at hb
      cases hb
    · exact hexit
  retired hr := ⟨(hretired hr).1, fun v hv => List.mem_singleton.mp hv ▸ (hretired hr).2⟩
  ready v hv := List.mem_singleton.mp hv ▸ hready
  plain hsrv := hsession.trans (h.plain hsrv)

/-- **A step of a worker keeps its slot in order.** -/
theorem move {e : Effect} {next : Option Worker} (h : sl.Ok srv pc i) (hw : sl.workers = [w])
    (hm : Move srv sl w e sl' next) : Slot.Ok srv pc i { sl' with workers := next.toList } := by
  have hmem : w ∈ sl.workers := by rw [hw]; exact List.mem_singleton_self w
  have hready := h.ready w hmem
  have hretired (hr : sl.retired = true) : sl.busy = true ∧ w.pc.retiring = true :=
    ⟨(h.retired hr).1, (h.retired hr).2 w hmem⟩
  cases hm with
  | quiet hstays hopened hunfreed hready' =>
    refine h.moved hw (fun hpc => by simp [hpc, Pc.retiring] at hstays) rfl rfl (.inl rfl) (fun hr => ?_)
      hready'
    rw [(hretired hr).2] at hstays
    cases hstays
  | free hpc =>
    refine h.moved hw (by simp [hpc]) rfl rfl (.inl rfl) (fun hr => ?_) ?_
    · simpa [hpc, Pc.retiring] using (hretired hr).2
    · exact ⟨fun hsrv _ _ => hready.cfd hsrv (by rw [hpc]; rfl) (by rw [hpc]; rfl),
        fun _ _ hu => by cases hu⟩
  | close hpc =>
    refine h.moved hw (by simp [hpc]) rfl rfl (.inl rfl) (fun hr => ?_) (.of_closed rfl rfl)
    simpa [hpc, Pc.retiring] using (hretired hr).2
  | clear hpc =>
    refine h.moved hw (by simp [hpc]) rfl rfl (.inr rfl) (fun hr => ?_) (.of_closed rfl rfl)
    simpa [hpc, Pc.retiring] using (hretired hr).2
  | giveUp hpc =>
    have hlive : w.pc ≠ .exit := by simp [hpc]
    refine h.moved hw hlive rfl rfl (.inl rfl) (fun _ => ⟨h.busy_of_live hw hlive, rfl⟩) ?_
    exact ⟨fun hsrv _ _ => hready.cfd hsrv (by rw [hpc]; rfl) (by rw [hpc]; rfl),
      fun _ _ hu => by cases hu⟩
  | retire hpc =>
    exact h.moved hw (by simp [hpc]) rfl rfl (.inl rfl) (fun hr => ⟨(hretired hr).1, rfl⟩)
      (.of_closed rfl rfl)
  | unplug hpc =>
    exact h.moved hw (by simp [hpc]) rfl rfl (.inr rfl) (fun hr => ⟨(hretired hr).1, rfl⟩)
      (.of_closed rfl rfl)
  | ends hpc => exact {
      single := Nat.zero_le 1
      unused := fun _ => rfl
      claimed := fun hc => ⟨(h.claimed hc).1, (h.claimed hc).2.1, fun v hv => by cases hv⟩
      joined := fun _ => rfl
      idle := fun _ v hv => by cases hv
      retired := fun hr => ⟨(hretired hr).1, fun v hv => by cases hv⟩
      ready := fun v hv => by cases hv
      plain := h.plain }

end Slot.Ok

/-! ## Sockets and sessions -/

section Held

variable {l : Ledger} {holds : Holder → Option ℕ} {x : Holder} {e : Effect} {next : Option Worker}

theorem Slot.heldSock_eq (hw : sl.workers = [w]) :
    sl.heldSock = if w.pc.opened then sl.sock else none := by
  rw [Slot.heldSock, hw]
  simp

theorem Slot.heldSession_eq (hw : sl.workers = [w]) :
    sl.heldSession = if w.pc.unfreed then sl.session else none := by
  rw [Slot.heldSession, hw]
  simp

/-- **A worker closes the socket it has**, and no other. -/
theorem Move.sockets (hm : Move srv sl w e sl' next) (hw : sl.workers = [w]) (h : Linear l holds)
    (hx : holds x = sl.heldSock) :
    Linear (e.onSockets l) (update holds x { sl' with workers := next.toList }.heldSock) := by
  rw [Slot.heldSock_eq hw] at hx
  have hsame {y : Option ℕ} (hy : y = holds x) : Linear l (update holds x y) := by
    rw [hy, update_eq_self]
    exact h
  have hclosed (hopened : w.pc.opened = true) :
      Linear ((Effect.close sl.sock).onSockets l) (update holds x none) := by
    rw [hopened, if_pos rfl] at hx
    cases hc : sl.sock with
    | none => exact hsame (by rw [hx, hc])
    | some c => exact h.spend (hx.trans hc)
  cases hm with
  | quiet hstays hopened =>
    refine hsame ?_
    rw [Slot.heldSock_eq rfl, hopened, hx]
  | free hpc =>
    refine hsame ?_
    rw [Slot.heldSock_eq rfl, hx, hpc]
    rfl
  | close hpc hc =>
    subst hc
    exact hclosed (by rw [hpc]; rfl)
  | clear hpc =>
    refine hsame ?_
    rw [Slot.heldSock_eq rfl, hx, hpc]
    rfl
  | giveUp hpc =>
    refine hsame ?_
    rw [Slot.heldSock_eq rfl, hx, hpc]
    rfl
  | retire hpc => exact hclosed (by rw [hpc]; rfl)
  | unplug hpc =>
    refine hsame ?_
    rw [Slot.heldSock_eq rfl, hx, hpc]
    rfl
  | ends hpc =>
    refine hsame ?_
    rw [hx, hpc]
    rfl

/-- **…and frees the session it has.** -/
theorem Move.sessions (hm : Move srv sl w e sl' next) (hw : sl.workers = [w]) (h : Affine l holds)
    (hx : holds x = sl.heldSession) :
    Affine (e.onSessions l) (update holds x { sl' with workers := next.toList }.heldSession) := by
  rw [Slot.heldSession_eq hw] at hx
  cases hm with
  | @quiet w' r hstays hopened hunfreed =>
    rw [Slot.heldSession_eq rfl]
    cases hu : w'.pc.unfreed with
    | true =>
      rw [hunfreed hu, if_pos rfl] at hx
      rw [if_pos rfl, ← hx, update_eq_self]
      exact h
    | false => exact h.drop x
  | free hpc hses =>
    subst hses
    rw [hpc] at hx
    have hx : holds x = sl.session := hx
    cases hc : sl.session with
    | none => exact h.drop x
    | some c => exact h.spend (hx.trans hc)
  | close => exact h.drop x
  | clear => exact h.drop x
  | giveUp => exact h.drop x
  | retire => exact h.drop x
  | unplug => exact h.drop x
  | ends => exact h.drop x

end Held

theorem heldBy_acceptor (v v' : Option ℕ) (f : ℕ → Option ℕ) :
    heldBy v' f = update (heldBy v f) .acceptor v' := by
  funext x
  cases x with
  | acceptor => rw [update_self]; rfl
  | slot i => rw [update_of_ne (by simp)]; rfl

theorem heldBy_slot (v : Option ℕ) (g : Slot → Option ℕ) (slots : ℕ → Slot) (i : ℕ) (sl : Slot) :
    heldBy v (fun j => g (update slots i sl j))
      = update (heldBy v fun j => g (slots j)) (.slot i) (g sl) := by
  funext x
  cases x with
  | acceptor => rw [update_of_ne (by simp)]; rfl
  | slot j =>
    by_cases hj : j = i
    · subst hj
      rw [update_self, heldBy, update_self]
    · rw [update_of_ne (by simpa using hj), heldBy, update_of_ne hj]
      rfl

/-! ## Steps of the workers -/

theorem AcceptPc.Stored.congr {slots slots' : ℕ → Slot} (h : pc.Stored srv slots)
    (hsame : ∀ i, pc.claims = some i → (slots' i).sock = (slots i).sock ∧
      (slots' i).session = (slots i).session ∧ (slots' i).used = (slots i).used) :
    pc.Stored srv slots' := by
  cases pc with
  | new c i => exact h
  | store left c x i =>
    obtain ⟨hsock, hsession, -⟩ := hsame i rfl
    exact ⟨hsock ▸ h.1, hsession ▸ h.2.1, h.2.2⟩
  | join c x i =>
    obtain ⟨hsock, hsession, -⟩ := hsame i rfl
    exact ⟨hsock ▸ h.1, hsession ▸ h.2⟩
  | mark c x i =>
    obtain ⟨hsock, hsession, -⟩ := hsame i rfl
    exact ⟨hsock ▸ h.1, hsession ▸ h.2⟩
  | create c x i =>
    obtain ⟨hsock, hsession, hused⟩ := hsame i rfl
    exact ⟨hsock ▸ h.1, hsession ▸ h.2.1, hused ▸ h.2.2⟩
  | _ => exact trivial

theorem eq_of_getElem?_of_length_le_one {ws : List Worker} {k : ℕ} (h : ws.length ≤ 1)
    (hk : ws[k]? = some w) : ws = [w] ∧ k = 0 := by
  obtain ⟨hlt, rfl⟩ := List.getElem?_eq_some_iff.mp hk
  obtain rfl : k = 0 := by omega
  obtain ⟨w, rfl⟩ := List.length_eq_one_iff.mp (show ws.length = 1 by omega)
  exact ⟨rfl, rfl⟩

theorem replaceWorker_singleton (next : Option Worker) : replaceWorker [w] 0 next = next.toList := by
  cases next <;> rfl

theorem Inv.work {k : ℕ} {ans : Answer} (h : Inv srv s) (hstep : workStep srv s i k ans = some s') :
    Inv srv s' := by
  obtain ⟨w, hk, hmap⟩ := Option.bind_eq_some_iff.mp hstep
  obtain ⟨⟨e, sl', next⟩, hentry, rfl⟩ := Option.map_eq_some_iff.mp hmap
  obtain ⟨hw, rfl⟩ := eq_of_getElem?_of_length_le_one (h.slots i).single hk
  have hm := connEntry_move ((h.slots i).ready w (by simp [hw])) hentry
  simp only [hw, replaceWorker_singleton, Sys.setSlot]
  constructor
  case slots =>
    exact (forall_update_iff s.slots fun j sl => sl.Ok srv s.acceptor j).mpr
      ⟨(h.slots i).move hw hm, fun j _ => h.slots j⟩
  case stored =>
    refine h.stored.congr fun j hj => ?_
    by_cases hij : j = i
    · subst hij
      -- a worker in a slot the accept loop has taken can only end
      have hexit : w.pc = .exit := ((h.slots j).claimed hj).2.2 w (by simp [hw])
      simp [(hm.of_exit hexit).1]
    · simp [update_of_ne hij]
  case sockets =>
    rw [Sys.sockHeld, heldBy_slot]
    exact hm.sockets hw h.sockets rfl
  case sessions =>
    rw [Sys.sessionHeld, heldBy_slot]
    exact hm.sessions hw h.sessions rfl

end KlaussRuntime.Servers
