import KlaussRuntime.Servers.Workers

/-!
# Servers/Accepting — the accept loop and its slots

The accept loop takes a slot only when its flag is clear, so its last worker is at the end; from then on
the slot is the loop's until it creates the next worker, to whom the socket and the session pass
(`Inv.create`).  With the steps of the workers every step keeps the invariant (`Inv.step`), and a slot that
is retired stays so.
-/

namespace KlaussRuntime.Servers

open Machinery Function

variable {srv : Server} {n : ℕ} {s s' : Sys} {i : ℕ} {sl sl' : Slot} {w w' : Worker} {pc pc' : AcceptPc}

/-! ## Steps of the accept loop -/

theorem Slot.Ok.congr (h : sl.Ok srv pc i) (hclaims : pc'.claims = some i → pc.claims = some i)
    (hjoined : pc'.joined = some i → sl.workers = []) : sl.Ok srv pc' i :=
  { h with claimed := fun hc => h.claimed (hclaims hc), joined := hjoined }

namespace Inv

/-- The accept loop goes on, with the sockets and sessions it has then. -/
theorem main (h : Inv srv s) {l l' : Ledger}
    (hclaims : ∀ i, pc'.claims = some i → s.acceptor.claims = some i)
    (hjoined : ∀ i, pc'.joined = some i → (s.slots i).workers = []) (hstored : pc'.Stored srv s.slots)
    (hsockets : Linear l (update s.sockHeld .acceptor pc'.sock))
    (hsessions : Affine l' (update s.sessionHeld .acceptor pc'.session)) :
    Inv srv ⟨pc', s.slots, l, l'⟩ where
  slots i := (h.slots i).congr (hclaims i) (hjoined i)
  stored := hstored
  sockets := by
    rw [Sys.sockHeld, heldBy_acceptor s.acceptor.sock]
    exact hsockets
  sessions := by
    rw [Sys.sessionHeld, heldBy_acceptor s.acceptor.session]
    exact hsessions

theorem same_socket (h : Inv srv s) (hpc : pc'.sock = s.acceptor.sock) :
    Linear s.sockets (update s.sockHeld .acceptor pc'.sock) := by
  rw [hpc]
  exact (update_eq_self Holder.acceptor s.sockHeld).symm ▸ h.sockets

theorem same_session (h : Inv srv s) (hpc : pc'.session = s.acceptor.session) :
    Affine s.sessions (update s.sessionHeld .acceptor pc'.session) := by
  rw [hpc]
  exact (update_eq_self Holder.acceptor s.sessionHeld).symm ▸ h.sessions

/-- The accept loop writes the slot it takes or has; no worker minds. -/
theorem mainSlot (h : Inv srv s) (hok : sl'.Ok srv pc' i) (hclaims : ∀ j, pc'.claims = some j → j = i)
    (hjoined : ∀ j, pc'.joined = some j → j = i)
    (hstored : pc'.Stored srv (update s.slots i sl'))
    (hsock : pc'.sock = s.acceptor.sock) (hsession : pc'.session = s.acceptor.session)
    (hheld : sl'.heldSock = (s.slots i).heldSock) (hheld' : sl'.heldSession = (s.slots i).heldSession) :
    Inv srv ⟨pc', update s.slots i sl', s.sockets, s.sessions⟩ where
  slots := (forall_update_iff s.slots fun j sl => sl.Ok srv pc' j).mpr
    ⟨hok, fun j hj => (h.slots j).congr (fun hc => absurd (hclaims j hc) hj)
      (fun hc => absurd (hjoined j hc) hj)⟩
  stored := hstored
  sockets := by
    rw [Sys.sockHeld, heldBy_slot, hheld, hsock]
    exact (update_eq_self (Holder.slot i) s.sockHeld).symm ▸ h.sockets
  sessions := by
    rw [Sys.sessionHeld, heldBy_slot, hheld', hsession]
    exact (update_eq_self (Holder.slot i) s.sessionHeld).symm ▸ h.sessions

end Inv

theorem Slot.held_of_exit (h : ∀ w ∈ sl.workers, w.pc = .exit) :
    sl.heldSock = none ∧ sl.heldSession = none := by
  have hopened : sl.workers.any (·.pc.opened) = false := by
    rw [List.any_eq_false]
    exact fun w hw => by simp [h w hw, Pc.opened]
  have hunfreed : sl.workers.any (·.pc.unfreed) = false := by
    rw [List.any_eq_false]
    exact fun w hw => by simp [h w hw, Pc.unfreed]
  exact ⟨by simp [heldSock, hopened], by simp [heldSession, hunfreed]⟩

theorem Field.stores_sock {left : List Field} {c : ℕ} {x : Option ℕ} (f : Field)
    (h : Field.sock ∈ f :: left ∨ sl.sock = some c) : Field.sock ∈ left ∨ (f.write c x sl).sock = some c := by
  cases f with
  | sock => exact .inr rfl
  | session => simpa [Field.write] using h
  | rxLock => simpa [Field.write] using h

theorem Field.stores_session {left : List Field} {c : ℕ} {x : Option ℕ} (f : Field)
    (h : Field.session ∈ f :: left ∨ sl.session = x) :
    Field.session ∈ left ∨ (f.write c x sl).session = x := by
  cases f with
  | sock => simpa [Field.write] using h
  | session => exact .inr rfl
  | rxLock => simpa [Field.write] using h

theorem Field.workers_write (f : Field) (c : ℕ) (x : Option ℕ) (sl : Slot) :
    (f.write c x sl).workers = sl.workers := by
  cases f <;> rfl

namespace Slot.Ok

theorem take (h : sl.Ok srv pc i) (hfree : sl.busy = false) (hjoined : pc'.joined = none) :
    Slot.Ok srv pc' i { sl with busy := true } := by
  have hkeeps : sl.retired = false := by
    by_contra hr
    have hbusy := (h.retired (by simpa using hr)).1
    rw [hfree] at hbusy
    cases hbusy
  exact { h with
    claimed := fun _ => ⟨rfl, hkeeps, h.idle hfree⟩
    joined := fun hj => by rw [hjoined] at hj; cases hj
    idle := fun hb => by cases hb
    retired := fun hr => ⟨rfl, (h.retired hr).2⟩ }

theorem giveBack (h : sl.Ok srv pc i) (hclaims : pc.claims = some i) (hpc' : pc'.claims = none)
    (hjoined : pc'.joined = none) : Slot.Ok srv pc' i { sl with busy := false } :=
  { h with
    claimed := fun hc => by rw [hpc'] at hc; cases hc
    joined := fun hj => by rw [hjoined] at hj; cases hj
    idle := fun _ => (h.claimed hclaims).2.2
    retired := fun hr => by
      have hr : sl.retired = true := hr
      rw [(h.claimed hclaims).2.1] at hr
      cases hr }

theorem write (h : sl.Ok srv pc i) (hclaims : pc.claims = some i) (hjoined : pc'.joined = none) (f : Field)
    (c : ℕ) {x : Option ℕ} (hx : srv = .http → x = none) : (f.write c x sl).Ok srv pc' i := by
  have hready {sock session : Option ℕ} : ∀ w ∈ sl.workers, w.Ready srv sock session := fun w hw =>
    .of_closed (by rw [(h.claimed hclaims).2.2 w hw]; rfl) (by rw [(h.claimed hclaims).2.2 w hw]; rfl)
  have hnot : ¬ pc'.joined = some i := by rw [hjoined]; exact fun hj => by cases hj
  cases f with
  | sock => exact { h with
      claimed := fun _ => h.claimed hclaims, joined := fun hj => absurd hj hnot, ready := hready }
  | session => exact { h with
      claimed := fun _ => h.claimed hclaims, joined := fun hj => absurd hj hnot, ready := hready, plain := hx }
  | rxLock => exact { h with
      claimed := fun _ => h.claimed hclaims, joined := fun hj => absurd hj hnot, ready := hready }

/-- **A thread is created** in a slot the accept loop has taken, and whose last worker it has joined. -/
theorem create (h : sl.Ok srv pc i) (hclaims : pc.claims = some i) (hjoined : pc.joined = some i)
    (hused : sl.used = true) (hpc' : pc'.claims = none) (hpc'' : pc'.joined = none) :
    Slot.Ok srv pc' i { sl with workers := sl.workers ++ [⟨.start, none, none⟩] } := by
  rw [h.joined hjoined]
  exact { h with
    single := Nat.le_refl 1
    unused := fun hu => by
      have hu : sl.used = false := hu
      rw [hused] at hu
      cases hu
    claimed := fun hc => by rw [hpc'] at hc; cases hc
    joined := fun hj => by rw [hpc''] at hj; cases hj
    idle := fun hb => by
      have hb : sl.busy = false := hb
      rw [(h.claimed hclaims).1] at hb
      cases hb
    retired := fun hr => by
      have hr : sl.retired = true := hr
      rw [(h.claimed hclaims).2.1] at hr
      cases hr
    ready := fun w hw => by
      obtain rfl := List.mem_singleton.mp hw
      exact ⟨fun _ hb _ => (by cases hb), fun _ hb _ => (by cases hb)⟩ }

end Slot.Ok

theorem busy_of_find {slots : ℕ → Slot} (h : (List.range n).find? (fun i => !(slots i).busy) = some i) :
    (slots i).busy = false := by
  simpa using List.find?_some h

/-- **`k_thread_create`** hands the socket and the session to the worker. -/
theorem Inv.create {slots : ℕ → Slot} {l l' : Ledger} {c : ℕ} {x : Option ℕ}
    (h : Inv srv ⟨.create c x i, slots, l, l'⟩) :
    Inv srv ⟨.accept, update slots i
      { slots i with workers := (slots i).workers ++ [⟨.start, none, none⟩] }, l, l'⟩ := by
  obtain ⟨hsock, hsession, hused⟩ := h.stored
  have hslot : (slots i).Ok srv (.create c x i) i := h.slots i
  obtain ⟨hheld, hheld'⟩ := Slot.held_of_exit (hslot.claimed rfl).2.2
  have hok := hslot.create rfl rfl hused (rfl : AcceptPc.accept.claims = none) rfl
  rw [hslot.joined rfl] at hok ⊢
  constructor
  case slots =>
    exact (forall_update_iff slots fun j sl => sl.Ok srv .accept j).mpr
      ⟨hok, fun j _ => (h.slots j).congr (fun hc => by cases hc) (fun hc => by cases hc)⟩
  case stored => exact trivial
  case sockets =>
    have hacc : Sys.sockHeld ⟨.create c x i, slots, l, l'⟩ .acceptor = some c := rfl
    have hfree : Sys.sockHeld ⟨.create c x i, slots, l, l'⟩ (.slot i) = none := hheld
    have hpass := h.sockets.pass hacc hfree
    rw [Sys.sockHeld, heldBy_slot, heldBy_acceptor (some c), Slot.heldSock_eq rfl]
    rw [← hsock] at hpass
    exact hpass
  case sessions =>
    rw [Sys.sessionHeld, heldBy_slot, heldBy_acceptor x, Slot.heldSession_eq rfl]
    cases hx : (slots i).session with
    | none => exact (h.sessions.drop .acceptor).drop (.slot i)
    | some d =>
      have hacc : Sys.sessionHeld ⟨.create c x i, slots, l, l'⟩ .acceptor = some d := hsession.symm.trans hx
      exact h.sessions.pass hacc (.slot i)

/-- **Every step of an accept loop keeps the invariant**; a loop without sessions is HTTP's. -/
theorem Inv.acceptLoop {fields : List Field} {hasSession ok : Bool} (h : Inv srv s)
    (hfields : Field.sock ∈ fields) (hplain : hasSession = false → srv = .http)
    (hsession : hasSession = true → srv ≠ .http) (hsessions : srv ≠ .http → Field.session ∈ fields)
    (hstep : acceptLoop n fields hasSession s ok = some s') : Inv srv s' := by
  obtain ⟨pc, slots, l, l'⟩ := s
  cases pc with
  | accept =>
    cases ok with
    | false =>
      cases hstep
      exact h
    | true =>
      cases hstep
      exact h.main (fun i hi => by cases hi) (fun i hi => by cases hi) trivial (h.sockets.issue rfl)
        (h.same_session rfl)
  | pick c =>
    simp only [Servers.acceptLoop] at hstep
    cases hfind : (List.range n).find? fun i => !(slots i).busy with
    | none =>
      rw [hfind] at hstep
      cases hstep
      exact h.main (fun i hi => by cases hi) (fun i hi => by cases hi) trivial (h.same_socket rfl)
        (h.same_session rfl)
    | some i =>
      rw [hfind] at hstep
      cases hstep
      have hfree := busy_of_find hfind
      cases hasSession with
      | true =>
        exact h.mainSlot ((h.slots i).take hfree rfl) (fun j hj => (Option.some.inj hj).symm)
          (fun j hj => by cases hj) (hsession rfl) rfl rfl rfl rfl
      | false =>
        refine h.mainSlot ((h.slots i).take hfree rfl) (fun j hj => (Option.some.inj hj).symm)
          (fun j hj => by cases hj) ⟨.inl hfields, .inr ?_, fun _ => rfl⟩ rfl rfl rfl rfl
        rw [update_self]
        exact (h.slots i).plain (hplain rfl)
  | reject c =>
    cases hstep
    exact h.main (fun i hi => by cases hi) (fun i hi => by cases hi) trivial (h.sockets.spend rfl)
      (h.same_session rfl)
  | new c i =>
    cases ok with
    | true =>
      cases hstep
      exact h.main (fun j hj => hj) (fun j hj => by cases hj)
        ⟨.inl hfields, .inl (hsessions h.stored), fun hsrv => absurd hsrv h.stored⟩ (h.same_socket rfl)
        (h.sessions.issue _)
    | false =>
      cases hstep
      exact h.main (fun j hj => hj) (fun j hj => by cases hj) trivial (h.same_socket rfl)
        (h.same_session rfl)
  | dropSock c i =>
    cases hstep
    exact h.main (fun j hj => hj) (fun j hj => by cases hj) trivial (h.sockets.spend rfl)
      (h.same_session rfl)
  | dropBusy i =>
    cases hstep
    exact h.mainSlot ((h.slots i).giveBack rfl rfl rfl) (fun j hj => by cases hj)
      (fun j hj => by cases hj) trivial rfl rfl rfl rfl
  | store left c x i =>
    obtain ⟨hsock, hses, hx⟩ := h.stored
    cases left with
    | nil =>
      simp only [Servers.acceptLoop, Option.some.injEq] at hstep
      subst hstep
      have hset : (slots i).sock = some c ∧ (slots i).session = x :=
        ⟨hsock.resolve_left List.not_mem_nil, hses.resolve_left List.not_mem_nil⟩
      split
      · exact h.main (fun j hj => hj) (fun j hj => by cases hj) hset (h.same_socket rfl)
          (h.same_session rfl)
      · rename_i hunused
        exact h.main (fun j hj => hj)
          (fun j hj => by cases hj; exact (h.slots i).unused (by simpa using hunused)) hset
          (h.same_socket rfl) (h.same_session rfl)
    | cons f left =>
      cases hstep
      -- the workers of the slot are at their end, before and after the write
      have hexit := ((h.slots i).claimed rfl).2.2
      have hexit' : ∀ w ∈ (f.write c x (slots i)).workers, w.pc = .exit := by
        rwa [Field.workers_write]
      refine h.mainSlot ((h.slots i).write rfl rfl f c hx) (fun j hj => (Option.some.inj hj).symm)
        (fun j hj => by cases hj) ?_ rfl rfl ?_ ?_
      · simp only [AcceptPc.Stored, update_self]
        exact ⟨f.stores_sock hsock, f.stores_session hses, hx⟩
      · exact (Slot.held_of_exit hexit').1.trans (Slot.held_of_exit hexit).1.symm
      · exact (Slot.held_of_exit hexit').2.trans (Slot.held_of_exit hexit).2.symm
  | join c x i =>
    obtain ⟨hnone, hstep⟩ := Option.ite_none_right_eq_some.mp hstep
    cases hstep
    exact h.main (fun j hj => hj) (fun j hj => by cases hj; exact hnone) h.stored (h.same_socket rfl)
      (h.same_session rfl)
  | mark c x i =>
    cases hstep
    have hok : (slots i).Ok srv (.create c x i) i := (h.slots i).congr id fun hj => (h.slots i).joined hj
    have hok' : Slot.Ok srv (.create c x i) i { slots i with used := true } :=
      { hok with unused := fun hu => by cases hu }
    refine h.mainSlot hok' (fun j hj => (Option.some.inj hj).symm) (fun j hj => (Option.some.inj hj).symm)
      ?_ rfl rfl rfl rfl
    simp only [AcceptPc.Stored, update_self]
    exact ⟨h.stored.1, h.stored.2, trivial⟩
  | create c x i =>
    cases hstep
    exact h.create

theorem Inv.step {a : Act} (h : Inv srv s) (hstep : Servers.step srv n s a = some s') : Inv srv s' := by
  cases a with
  | work i k ans => exact h.work hstep
  | main ok =>
    cases srv with
    | http =>
      exact h.acceptLoop (by decide) (fun _ => rfl) (fun hs => by cases hs) (fun hs => absurd rfl hs) hstep
    | https =>
      exact h.acceptLoop (by decide) (fun hs => by cases hs) (fun _ => by decide) (fun _ => by decide) hstep
    | ssh =>
      exact h.acceptLoop (by decide) (fun hs => by cases hs) (fun _ => by decide) (fun _ => by decide) hstep

/-! ## Retired slots -/

theorem Move.retired {e : Effect} {next : Option Worker} (hm : Move srv sl w e sl' next)
    (hr : sl.retired = true) : sl'.retired = true := by
  cases hm with
  | giveUp => rfl
  | _ => exact hr

theorem Field.retired_write (f : Field) (c : ℕ) (x : Option ℕ) (sl : Slot) :
    (f.write c x sl).retired = sl.retired := by
  cases f <;> rfl

theorem retired_update {slots : ℕ → Slot} {j : ℕ} (hsl : (slots i).retired = true → sl.retired = true)
    (hr : (slots j).retired = true) : (update slots i sl j).retired = true := by
  by_cases hj : j = i
  · subst hj
    rw [update_self]
    exact hsl hr
  · rwa [update_of_ne hj]

theorem retired_acceptLoop {fields : List Field} {hasSession ok : Bool} {j : ℕ}
    (hstep : acceptLoop n fields hasSession s ok = some s') (hr : (s.slots j).retired = true) :
    (s'.slots j).retired = true := by
  obtain ⟨pc, slots, l, l'⟩ := s
  cases pc with
  | accept => cases ok <;> cases hstep <;> exact hr
  | pick c =>
    simp only [acceptLoop] at hstep
    split at hstep <;> cases hstep
    · exact hr
    · exact retired_update id hr
  | new c i => cases ok <;> cases hstep <;> exact hr
  | dropBusy i =>
    cases hstep
    exact retired_update id hr
  | store left c x i =>
    cases left with
    | nil =>
      cases hstep
      exact hr
    | cons f left =>
      cases hstep
      exact retired_update (fun hi => (f.retired_write c x _).trans hi) hr
  | join c x i =>
    obtain ⟨-, hstep⟩ := Option.ite_none_right_eq_some.mp hstep
    cases hstep
    exact hr
  | mark c x i =>
    cases hstep
    exact retired_update id hr
  | create c x i =>
    cases hstep
    exact retired_update id hr
  | _ =>
    cases hstep
    exact hr

/-- **A retired slot stays retired.** -/
theorem Inv.retired_step {a : Act} {j : ℕ} (h : Inv srv s) (hstep : Servers.step srv n s a = some s')
    (hr : (s.slots j).retired = true) : (s'.slots j).retired = true := by
  cases a with
  | main ok => cases srv <;> exact retired_acceptLoop hstep hr
  | work i k ans =>
    obtain ⟨w, hk, hmap⟩ := Option.bind_eq_some_iff.mp hstep
    obtain ⟨⟨e, sl', next⟩, hentry, rfl⟩ := Option.map_eq_some_iff.mp hmap
    have hm := connEntry_move ((h.slots i).ready w (List.mem_of_getElem? hk)) hentry
    exact retired_update hm.retired hr

/-! ## Main results -/

theorem inv_of_reaches (h : Reaches (step srv n) anyStep Sys.init s) : Inv srv s :=
  h.invariant (fun hs _ hstep => hs.step hstep) Inv.init

/-- **Connection slots are owned by one worker**, in each of the three servers and with any number of slots,
and a retired slot stays busy forever. -/
theorem slots_owned (srv : Server) (n : ℕ) (h : Reaches (step srv n) anyStep Sys.init s) :
    Owned s ∧ ∀ (s' : Sys) (i : ℕ), Reaches (step srv n) anyStep s s' →
      (s.slots i).retired = true → (s'.slots i).busy = true := by
  have hinv := inv_of_reaches h
  refine ⟨hinv.owned, fun s' i hreach hr => ?_⟩
  have hlater := @Reaches.invariant _ _ _ _ _ _ (fun s => Inv srv s ∧ (s.slots i).retired = true) hreach
    (fun hs _ hstep => ⟨hs.1.step hstep, hs.1.retired_step hstep hs.2⟩) ⟨hinv, hr⟩
  exact ((hlater.1.slots i).retired hlater.2).1

/-- A connection to the SSH server whose shell does not end. -/
def sshStuck : List Act :=
  List.replicate 9 (Act.main true) ++ List.replicate 5 (Act.work 0 0 .done) ++
    [Act.work 0 0 .stuck, .work 0 0 .done, .work 0 0 .done, .work 0 0 .done]

/-- A slot that is retired, its socket closed. -/
theorem slots_owned_retired : ∃ s : Sys, (s.slots 0).retired = true ∧ s.sockets.spent 0 = 1 ∧ Owned s := by
  have hend : (runAll (step .ssh 1) anyStep Sys.init sshStuck).map
      (fun s => ((s.slots 0).retired, s.sockets.spent 0)) = some (true, 1) := by decide +kernel
  obtain ⟨s, hrun, hs⟩ := Option.map_eq_some_iff.mp hend
  obtain ⟨hretired, hclosed⟩ := Prod.mk.inj hs
  exact ⟨s, hretired, hclosed, (slots_owned .ssh 1 (.of_runAll sshStuck hrun)).1⟩

end KlaussRuntime.Servers
