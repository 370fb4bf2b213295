import KlaussRuntime.Machinery.Machine
import KlaussRuntime.Machinery.Tokens

/-!
# Servers/WorkerPool — connection slots and the threads that serve them

The HTTP, HTTPS and SSH servers hand an accepted socket to a worker thread of a fixed pool.  The accept
loop takes a slot whose `busy` flag is clear, fills in the slot's socket and session, joins the slot's last
worker and creates the next one in the same thread object; a worker closes its socket and clears the flag
*before* its thread ends.  An SSH worker whose shell is still in use does not: the slot is retired.

A `Sys` is the accept loop, the slots with their live workers, and which sockets and sessions have been
closed and freed.  Sockets and sessions are `Machinery.Ledger` tokens: the accept loop has one, then the
worker of its slot (`Sys.sockHeld`, `Sys.sessionHeld`).  `Owned` says that a slot has one owner.
-/

namespace KlaussRuntime.Servers

open Machinery

/-! ## Workers -/

inductive Server where
  | http
  | https
  | ssh
deriving DecidableEq

/-- Where a worker is. -/
inductive Pc where
  /-- the thread begins, and reads its socket and session out of the slot -/
  | start
  /-- `wolfSSL_accept`, `wolfSSH_accept` -/
  | handshake
  /-- `httpd_serve` or `sftp_serve`, as long as it goes on -/
  | serve
  | shutdown
  /-- `ssh_shell_claim`, then `ca->rx_lock` is set -/
  | claim
  /-- the read loop of the shell -/
  | shell
  /-- `ca->rx_lock = NULL` -/
  | unlockRx
  | release
  | free
  | close
  /-- the busy flag is cleared -/
  | clear
  /-- the socket of a slot that is retired is closed -/
  | retire
  /-- `ca->sock = -1` -/
  | unplug
  /-- nothing is left but to end -/
  | exit
deriving DecidableEq

structure Worker where
  pc : Pc
  /-- `cfd` -/
  cfd : Option ℕ
  /-- `ssl`, `ssh` -/
  session : Option ℕ
deriving DecidableEq

/-- How a call turned out. -/
inductive Answer where
  | done
  /-- there is more to serve or read -/
  | again
  | failed
  /-- `WS_SFTP_COMPLETE` -/
  | sftp
  /-- the shell still runs an extension that ignored the end of its input -/
  | stuck

structure Slot where
  busy : Bool
  /-- the thread object was created at some time -/
  used : Bool
  sock : Option ℕ
  session : Option ℕ
  rxLock : Bool
  /-- the threads created in this slot that have not ended -/
  workers : List Worker
  /-- an SSH worker has given the slot up -/
  retired : Bool

/-- What a worker does to sockets and sessions. -/
inductive Effect where
  | none
  | close (c : Option ℕ)
  | free (x : Option ℕ)

/-- One step of `httpd_conn_entry`; no worker when the thread ends. -/
def httpdConnEntry (sl : Slot) (w : Worker) (ans : Answer) : Option (Effect × Slot × Option Worker) :=
  match w.pc with
  | .start => some (.none, sl, some { w with cfd := sl.sock, pc := .serve })
  | .serve =>
    match ans with
    | .again => some (.none, sl, some w)
    | _ => some (.none, sl, some { w with pc := .close })
  | .close => some (.close w.cfd, sl, some { w with pc := .clear })
  | .clear => some (.none, { sl with busy := false }, some { w with pc := .exit })
  | .exit => some (.none, sl, none)
  | _ => none

/-- One step of `httpsd_conn_entry`. -/
def httpsdConnEntry (sl : Slot) (w : Worker) (ans : Answer) : Option (Effect × Slot × Option Worker) :=
  match w.pc with
  | .start => some (.none, sl, some { cfd := sl.sock, session := sl.session, pc := .handshake })
  | .handshake =>
    match ans with
    | .failed => some (.none, sl, some { w with pc := .free })
    | _ => some (.none, sl, some { w with pc := .serve })
  | .serve =>
    match ans with
    | .again => some (.none, sl, some w)
    | _ => some (.none, sl, some { w with pc := .shutdown })
  | .shutdown => some (.none, sl, some { w with pc := .free })
  | .free => some (.free w.session, sl, some { w with pc := .close })
  | .close => some (.close w.cfd, sl, some { w with pc := .clear })
  | .clear => some (.none, { sl with busy := false }, some { w with pc := .exit })
  | .exit => some (.none, sl, none)
  | _ => none

/-- One step of `ssh_conn_entry`; the socket is always read out of the slot. -/
def sshConnEntry (sl : Slot) (w : Worker) (ans : Answer) : Option (Effect × Slot × Option Worker) :=
  match w.pc with
  | .start => some (.none, sl, some { w with session := sl.session, pc := .handshake })
  | .handshake =>
    match ans with
    | .sftp => some (.none, sl, some { w with pc := .serve })
    | .failed => some (.none, sl, some { w with pc := .free })
    | _ => some (.none, sl, some { w with pc := .claim })
  | .serve =>
    match ans with
    | .again => some (.none, sl, some w)
    | _ => some (.none, sl, some { w with pc := .free })
  | .claim => some (.none, { sl with rxLock := true }, some { w with pc := .shell })
  | .shell =>
    match ans with
    | .again => some (.none, sl, some w)
    | _ => some (.none, sl, some { w with pc := .unlockRx })
  | .unlockRx => some (.none, { sl with rxLock := false }, some { w with pc := .release })
  | .release =>
    match ans with
    | .stuck => some (.none, { sl with retired := true }, some { w with pc := .retire })
    | _ => some (.none, sl, some { w with pc := .free })
  | .free => some (.free w.session, sl, some { w with pc := .close })
  | .close => some (.close sl.sock, sl, some { w with pc := .clear })
  | .clear => some (.none, { sl with busy := false }, some { w with pc := .exit })
  | .retire => some (.close sl.sock, sl, some { w with pc := .unplug })
  | .unplug => some (.none, { sl with sock := none }, some { w with pc := .exit })
  | .exit => some (.none, sl, none)
  | .shutdown => none

def Server.connEntry : Server → Slot → Worker → Answer → Option (Effect × Slot × Option Worker)
  | .http => httpdConnEntry
  | .https => httpsdConnEntry
  | .ssh => sshConnEntry

/-! ## The accept loop -/

/-- What the accept loop writes into a slot. -/
inductive Field where
  | sock
  | session
  | rxLock
deriving DecidableEq

def Field.write (c : ℕ) (x : Option ℕ) (sl : Slot) : Field → Slot
  | .sock => { sl with sock := some c }
  | .session => { sl with session := x }
  | .rxLock => { sl with rxLock := false }

/-- Where the accept loop is, with socket `c`, session `x` and slot `i`. -/
inductive AcceptPc where
  | accept
  /-- a free slot is looked for and taken, under the mutex -/
  | pick (c : ℕ)
  | reject (c : ℕ)
  /-- `wolfSSL_new`, `wolfSSH_new` -/
  | new (c i : ℕ)
  /-- no session: the socket is closed, -/
  | dropSock (c i : ℕ)
  /-- and the slot is given back -/
  | dropBusy (i : ℕ)
  /-- these fields are left to write -/
  | store (left : List Field) (c : ℕ) (x : Option ℕ) (i : ℕ)
  /-- `k_thread_join` of the slot's last worker -/
  | join (c : ℕ) (x : Option ℕ) (i : ℕ)
  /-- the slot is marked used -/
  | mark (c : ℕ) (x : Option ℕ) (i : ℕ)
  /-- `k_thread_create` -/
  | create (c : ℕ) (x : Option ℕ) (i : ℕ)

structure Sys where
  acceptor : AcceptPc
  slots : ℕ → Slot
  sockets : Ledger
  sessions : Ledger

def Sys.setSlot (s : Sys) (i : ℕ) (sl : Slot) : Sys := { s with slots := Function.update s.slots i sl }

/-- One step of an accept loop over `n` slots that writes `fields`; `ok` is whether a connection or a
session is got. -/
def acceptLoop (n : ℕ) (fields : List Field) (hasSession : Bool) (s : Sys) (ok : Bool) : Option Sys :=
  match s.acceptor with
  | .accept =>
    if ok then some { s with acceptor := .pick s.sockets.issued, sockets := s.sockets.issue } else some s
  | .pick c =>
    match (List.range n).find? fun i => !(s.slots i).busy with
    | none => some { s with acceptor := .reject c }
    | some i => some { s.setSlot i { s.slots i with busy := true } with
        acceptor := if hasSession then .new c i else .store fields c none i }
  | .reject c => some { s with acceptor := .accept, sockets := s.sockets.spend c }
  | .new c i =>
    if ok then
      some { s with acceptor := .store fields c (some s.sessions.issued) i, sessions := s.sessions.issue }
    else some { s with acceptor := .dropSock c i }
  | .dropSock c i => some { s with acceptor := .dropBusy i, sockets := s.sockets.spend c }
  | .dropBusy i => some { s.setSlot i { s.slots i with busy := false } with acceptor := .accept }
  | .store (f :: left) c x i =>
    some { s.setSlot i (f.write c x (s.slots i)) with acceptor := .store left c x i }
  | .store [] c x i =>
    some { s with acceptor := if (s.slots i).used then .join c x i else .mark c x i }
  | .join c x i => if (s.slots i).workers = [] then some { s with acceptor := .mark c x i } else none
  | .mark c x i => some { s.setSlot i { s.slots i with used := true } with acceptor := .create c x i }
  | .create _ _ i => some { s.setSlot i
      { s.slots i with workers := (s.slots i).workers ++ [⟨.start, none, none⟩] } with acceptor := .accept }

def httpdMain (n : ℕ) : Sys → Bool → Option Sys := acceptLoop n [.sock] false

def httpsdMain (n : ℕ) : Sys → Bool → Option Sys := acceptLoop n [.sock, .session] true

def sshListenerEntry (n : ℕ) : Sys → Bool → Option Sys := acceptLoop n [.session, .sock, .rxLock] true

def Server.main : Server → ℕ → Sys → Bool → Option Sys
  | .http => httpdMain
  | .https => httpsdMain
  | .ssh => sshListenerEntry

/-! ## The system -/

inductive Act where
  /-- the accept loop takes a step -/
  | main (ok : Bool)
  /-- worker `k` of slot `i` takes a step -/
  | work (i k : ℕ) (ans : Answer)

def Effect.onSockets : Effect → Ledger → Ledger
  | .close (some c), l => l.spend c
  | _, l => l

def Effect.onSessions : Effect → Ledger → Ledger
  | .free (some x), l => l.spend x
  | _, l => l

/-- The live workers of a slot after one of them has moved. -/
def replaceWorker (ws : List Worker) (k : ℕ) : Option Worker → List Worker
  | some w => ws.set k w
  | none => ws.eraseIdx k

def workStep (srv : Server) (s : Sys) (i k : ℕ) (ans : Answer) : Option Sys :=
  ((s.slots i).workers[k]?).bind fun w =>
    (srv.connEntry (s.slots i) w ans).map fun (e, sl, w') =>
      { s.setSlot i { sl with workers := replaceWorker (s.slots i).workers k w' } with
        sockets := e.onSockets s.sockets, sessions := e.onSessions s.sessions }

def step (srv : Server) (n : ℕ) (s : Sys) : Act → Option Sys
  | .main ok => srv.main n s ok
  | .work i k ans => workStep srv s i k ans

/-- Nothing has been accepted yet. -/
def Sys.init : Sys :=
  ⟨.accept, fun _ => ⟨false, false, none, none, false, [], false⟩, .empty, .empty⟩

/-! ## Who has what -/

namespace Pc

/-- The worker has read its socket and session. -/
def begun : Pc → Bool
  | start => false
  | _ => true

/-- The worker has not closed its socket. -/
def opened : Pc → Bool
  | clear | unplug | exit => false
  | _ => true

/-- The worker has not freed its session, or given it up. -/
def unfreed : Pc → Bool
  | close | clear | retire | unplug | exit => false
  | _ => true

/-- The worker is on its way out of a slot that is retired. -/
def retiring : Pc → Bool
  | retire | unplug | exit => true
  | _ => false

end Pc

namespace AcceptPc

/-- The socket the accept loop has. -/
def sock : AcceptPc → Option ℕ
  | accept | dropBusy _ => none
  | pick c | reject c | new c _ | dropSock c _ | store _ c _ _ | join c _ _ | mark c _ _ | create c _ _ =>
    some c

/-- The session the accept loop has. -/
def session : AcceptPc → Option ℕ
  | store _ _ x _ | join _ x _ | mark _ x _ | create _ x _ => x
  | _ => none

/-- The slot the accept loop has taken. -/
def claims : AcceptPc → Option ℕ
  | new _ i | dropSock _ i | dropBusy i | store _ _ _ i | join _ _ i | mark _ _ i | create _ _ i => some i
  | _ => none

/-- …and whose last worker it has joined. -/
def joined : AcceptPc → Option ℕ
  | mark _ _ i | create _ _ i => some i
  | _ => none

end AcceptPc

inductive Holder where
  | acceptor
  | slot (i : ℕ)
deriving DecidableEq

/-- The socket of a slot, as long as a worker has to close it. -/
def Slot.heldSock (sl : Slot) : Option ℕ := if sl.workers.any (·.pc.opened) then sl.sock else none

/-- The session of a slot, as long as a worker has to free it. -/
def Slot.heldSession (sl : Slot) : Option ℕ := if sl.workers.any (·.pc.unfreed) then sl.session else none

/-- The accept loop has `v`, and slot `i` has what `f i` says. -/
def heldBy (v : Option ℕ) (f : ℕ → Option ℕ) : Holder → Option ℕ
  | .acceptor => v
  | .slot i => f i

def Sys.sockHeld (s : Sys) : Holder → Option ℕ :=
  heldBy s.acceptor.sock fun i => (s.slots i).heldSock

def Sys.sessionHeld (s : Sys) : Holder → Option ℕ :=
  heldBy s.acceptor.session fun i => (s.slots i).heldSession

/-- **Slots have one owner.** -/
structure Owned (s : Sys) : Prop where
  /-- one live worker at most -/
  single : ∀ i, (s.slots i).workers.length ≤ 1
  /-- a thread object is created when its last thread has ended -/
  joined : ∀ c x i, s.acceptor = .create c x i → (s.slots i).workers = []
  /-- the accept loop writes a slot when no worker will touch it any more -/
  undisturbed : ∀ i, s.acceptor.claims = some i → ∀ w ∈ (s.slots i).workers, w.pc = .exit
  /-- …and so it is with a slot whose flag is clear -/
  idle : ∀ i, (s.slots i).busy = false → ∀ w ∈ (s.slots i).workers, w.pc = .exit
  /-- a socket is closed once, unless somebody still has it to close -/
  closed : ∀ c, c < s.sockets.issued →
    s.sockets.spent c = 1 ∨ s.sockets.spent c = 0 ∧ ∃ x, s.sockHeld x = some c
  freed : ∀ x, s.sessions.spent x ≤ 1
  retired : ∀ i, (s.slots i).retired = true → (s.slots i).busy = true

end KlaussRuntime.Servers
