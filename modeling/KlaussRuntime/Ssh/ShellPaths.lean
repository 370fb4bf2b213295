import KlaussRuntime.Machinery.CString
import KlaussRuntime.Machinery.Slots

/-!
# Ssh/ShellPaths — the working directory and the redirection of each shell

The functions of `shell_paths.c`: a table of `N_SLOTS` records, claimed by a shell on its first call and
never given back, holds each shell's working directory and its redirection; paths are resolved against
the directory and normalised.  The shells are the serial console and one for each of the
`SSH_MAX_CONNS` connections.

A shell that had a record of its own would answer a call as `CwdSlot.answer` says.  As long as no more
than `N_SLOTS` shells call, the table answers just so (`perform_isolates`): a shell's answers do not
depend on the others, and it sees the directory it last set.  A fifth shell finds the table full; what
it sets is lost.
-/

namespace KlaussRuntime.Ssh

open Machinery

def fsRoot : List Byte := ascii "/SD:"

def fsRootsl : List Byte := ascii "/SD:/"

def nSlots : ℕ := 4

def maxComps : ℕ := 32

def shellPathMax : ℕ := 192

abbrev sshMaxConns : ℕ := 5

/-- The serial console, and a shell for each connection. -/
inductive Shell
  | serial
  | ssh (i : Fin sshMaxConns)
  deriving DecidableEq

/-- An open file: its path, and whether it was opened to append. -/
structure OpenFile where
  path : List Byte
  append : Bool
  deriving DecidableEq

/-- `struct cwd_slot` without the shell it belongs to. -/
structure CwdSlot where
  cwd : List Byte
  rf : Option OpenFile
  redir : Bool
  deriving DecidableEq

def CwdSlot.fresh : CwdSlot := ⟨fsRootsl, none, false⟩

abbrev ShellTable := Slots nSlots Shell CwdSlot

def slotFor (t : ShellTable) (sh : Shell) : Option (Fin nSlots × CwdSlot) × ShellTable :=
  t.claim sh .fresh

/-- `strncpy` into a buffer of `SHELL_PATH_MAX` bytes, closed by a NUL. -/
def copyPath (path : List Byte) : List Byte := (cstr path).take (shellPathMax - 1)

def shellCwd (t : ShellTable) (sh : Shell) : List Byte × ShellTable :=
  match slotFor t sh with
  | (some (_, s), t) => (s.cwd, t)
  | (none, t) => (fsRootsl, t)

def shellCwdSet (t : ShellTable) (sh : Shell) (absPath : List Byte) : ShellTable :=
  match slotFor t sh with
  | (some (i, s), t) => t.put i sh { s with cwd := copyPath absPath }
  | (none, t) => t

def shellCwdReset (t : ShellTable) (sh : Shell) : ShellTable := shellCwdSet t sh fsRootsl

/-! ## Paths -/

/-- One component of a path after those kept so far. -/
def component (comps : List (List Byte)) (tok : List Byte) : List (List Byte) :=
  if tok = ascii "." then comps
  else if tok = ascii ".." then comps.dropLast
  else if comps.length < maxComps then comps ++ [tok] else comps

/-- `n += snprintf(out + n, out_sz - n, …)`: the text in `out`, and `n`. -/
def printAt (outSz : ℕ) (out : List Byte × ℕ) (text : List Byte) : List Byte × ℕ :=
  (out.1.take out.2 ++ snprintk (outSz - out.2) text, out.2 + text.length)

/-- `normalize`: the text left in `out`. -/
def normalize (raw : List Byte) (outSz : ℕ) : List Byte :=
  let tmp := copyPath raw
  let toks := ((tmp.drop fsRoot.length).splitOn 0x2f).filter (· ≠ [])
  let comps := toks.foldl component []
  let out := printAt outSz ([], 0) fsRoot
  if comps = [] then (printAt outSz out (ascii "/")).1
  else (comps.foldl (fun out c => if out.2 < outSz then printAt outSz out (0x2f :: c) else out) out).1

/-- What `shell_path_resolve` makes of a path, given the working directory. -/
def resolve (cwd : List Byte) (path : Option (List Byte)) (outSz : ℕ) : List Byte :=
  let path := cstr (path.getD [])
  let raw :=
    if path = [] then cwd
    else if fsRoot.isPrefixOf path then path
    else if path.head? = some 0x2f then fsRoot ++ path
    else cwd ++ 0x2f :: path
  normalize (snprintk shellPathMax raw) outSz

def shellPathResolve (t : ShellTable) (sh : Shell) (path : Option (List Byte)) (outSz : ℕ) :
    List Byte × ShellTable :=
  let (cwd, t) := shellCwd t sh
  (resolve cwd path outSz, t)

/-! ## Output redirection -/

/-- What the arguments ask for. -/
inductive Redirect
  | none
  | noName
  | file (k : ℕ) (append : Bool) (fname : List Byte)

/-- The first argument after the command that starts with `>`, and the file it names. -/
def findRedirect (argv : List (List Byte)) : Redirect :=
  match (argv.zipIdx.drop 1).find? fun a => a.1.head? = some 0x3e with
  | Option.none => .none
  | some (arg, k) =>
    let append : Bool := arg[1]? = some 0x3e
    let rest := arg.drop (if append then 2 else 1)
    if rest ≠ [] then .file k append rest
    else match argv[k + 1]? with
      | some next => .file k append next
      | Option.none => .noName

/-- What a call gives back to its shell; a file is opened, closed or written on the way. -/
inductive Answer
  | done
  | path (p : List Byte)
  | redir (rc : ℤ) (argc : ℕ) (opened : Option OpenFile)
  | closed (file : Option OpenFile)
  | toFile (file : Option OpenFile) (data : List Byte)
  | toTerminal (data : List Byte)
  deriving DecidableEq

/-- The record and the answer of `shell_redir_begin` once it has resolved the name; `opens` is how
`fs_open` ends. -/
def openRedirect (s : CwdSlot) (k argc : ℕ) (target : OpenFile) (opens : Bool) : Answer × CwdSlot :=
  if opens then (.redir 1 k (some target), { s with rf := some target, redir := true })
  else (.redir (-1) argc none, { s with rf := none })

def shellRedirBegin (t : ShellTable) (sh : Shell) (argv : List (List Byte)) (opens : Bool) :
    Answer × ShellTable :=
  match findRedirect argv with
  | .none => (.redir 0 argv.length none, t)
  | .noName => (.redir (-2) argv.length none, t)
  | .file k append fname =>
    match slotFor t sh with
    | (none, t) => (.redir (-3) argv.length none, t)
    | (some (i, s), t) =>
      let (path, t) := shellPathResolve t sh (some fname) shellPathMax
      let (answer, s) := openRedirect s k argv.length ⟨path, append⟩ opens
      (answer, t.put i sh s)

def shellRedirEnd (t : ShellTable) (sh : Shell) : Answer × ShellTable :=
  match slotFor t sh with
  | (some (i, s), t) =>
    if s.redir then (.closed s.rf, t.put i sh { s with rf := none, redir := false }) else (.done, t)
  | (none, t) => (.done, t)

/-- Output of a command: to the file its shell is redirected to, else to the terminal. -/
def shOutput (t : ShellTable) (sh : Shell) (toFile toTerminal : List Byte) : Answer × ShellTable :=
  match slotFor t sh with
  | (some (_, s), t) => (if s.redir then .toFile s.rf toFile else .toTerminal toTerminal, t)
  | (none, t) => (.toTerminal toTerminal, t)

/-- `sh_print` of a formatted text. -/
def shPrint (t : ShellTable) (sh : Shell) (text : List Byte) : Answer × ShellTable :=
  let buf := snprintk 256 (cstr text)
  shOutput t sh (buf ++ ascii "\n") buf

def shWrite (t : ShellTable) (sh : Shell) (data : List Byte) (len : ℕ) : Answer × ShellTable :=
  shOutput t sh (data.take len) (cstr (data.take len))

/-! ## Calls -/

inductive Call
  | cwd
  | cwdSet (absPath : List Byte)
  | cwdReset
  | pathResolve (path : Option (List Byte)) (outSz : ℕ)
  | redirBegin (argv : List (List Byte)) (opens : Bool)
  | redirEnd
  | print (text : List Byte)
  | write (data : List Byte) (len : ℕ)

def perform (t : ShellTable) (sh : Shell) : Call → Answer × ShellTable
  | .cwd => let (p, t) := shellCwd t sh; (.path p, t)
  | .cwdSet p => (.done, shellCwdSet t sh p)
  | .cwdReset => (.done, shellCwdReset t sh)
  | .pathResolve p outSz => let (p, t) := shellPathResolve t sh p outSz; (.path p, t)
  | .redirBegin argv opens => shellRedirBegin t sh argv opens
  | .redirEnd => shellRedirEnd t sh
  | .print text => shPrint t sh text
  | .write data len => shWrite t sh data len

/-- Before any call: every slot is free. -/
def ShellTable.init : ShellTable := fun _ => none

/-! ## A record of one's own -/

namespace CwdSlot

def output (s : CwdSlot) (toFile toTerminal : List Byte) : Answer :=
  if s.redir then .toFile s.rf toFile else .toTerminal toTerminal

/-- What a shell with a record of its own answers, and the record after it. -/
def answer (s : CwdSlot) : Call → Answer × CwdSlot
  | .cwd => (.path s.cwd, s)
  | .cwdSet p => (.done, { s with cwd := copyPath p })
  | .cwdReset => (.done, { s with cwd := copyPath fsRootsl })
  | .pathResolve p outSz => (.path (resolve s.cwd p outSz), s)
  | .redirBegin argv opens =>
    match findRedirect argv with
    | .none => (.redir 0 argv.length none, s)
    | .noName => (.redir (-2) argv.length none, s)
    | .file k append fname =>
      openRedirect s k argv.length ⟨resolve s.cwd (some fname) shellPathMax, append⟩ opens
  | .redirEnd =>
    if s.redir then (.closed s.rf, { s with rf := none, redir := false }) else (.done, s)
  | .print text => (s.output (snprintk 256 (cstr text) ++ ascii "\n") (snprintk 256 (cstr text)), s)
  | .write data len => (s.output (data.take len) (cstr (data.take len)), s)

end CwdSlot

section Isolation

variable {keys : Finset Shell} {t : ShellTable} {sh : Shell}

/-- The record each shell has. -/
abbrev records (t : ShellTable) : Shell → CwdSlot := t.view .fresh

/-- A table after a call that found its shell's slot and left the record `s` in it. -/
structure Left (keys : Finset Shell) (t : ShellTable) (sh : Shell) (s : CwdSlot) (t' : ShellTable) :
    Prop where
  within : t'.Within keys
  records_eq : records t' = Function.update (records t) sh s

theorem slotFor_spec (h : t.Within keys) (hsh : sh ∈ keys) (hcard : keys.card ≤ nSlots) :
    ∃ i t', slotFor t sh = (some (i, records t sh), t') ∧ t' i = some (sh, records t sh) ∧
      records t' = records t ∧ t'.Within keys := h.claim hsh hcard

theorem Left.same {t' : ShellTable} (h : t'.Within keys) (hrec : records t' = records t) :
    Left keys t sh (records t sh) t' := ⟨h, by rw [hrec, Function.update_eq_self]⟩

theorem Left.put {t' : ShellTable} {i : Fin nSlots} {s : CwdSlot} (h : t'.Within keys)
    (hrec : records t' = records t) (hslot : t' i = some (sh, records t sh)) :
    Left keys t sh s (t'.put i sh s) :=
  ⟨h.put hslot, by rw [← hrec]; exact Slots.view_put (h.put hslot) (.inr ⟨_, hslot⟩)⟩

/-- Full table or not, a shell is shown its record's directory. -/
theorem shellCwd_fst (t : ShellTable) (sh : Shell) : (shellCwd t sh).1 = (records t sh).cwd := by
  rw [shellCwd, slotFor, Slots.claim]
  cases hfind : t.find sh with
  | some e => rw [records, Slots.view_eq_of_find hfind]
  | none =>
    rw [records, Slots.view_eq_of_none hfind]
    cases t.free <;> rfl

theorem shellCwd_spec (h : t.Within keys) (hsh : sh ∈ keys) (hcard : keys.card ≤ nSlots) :
    ∃ t', shellCwd t sh = ((records t sh).cwd, t') ∧ records t' = records t ∧ t'.Within keys := by
  obtain ⟨i, t', hslot, -, hrec, hwithin⟩ := slotFor_spec h hsh hcard
  exact ⟨t', by rw [shellCwd, hslot], hrec, hwithin⟩

theorem shellCwdSet_spec (h : t.Within keys) (hsh : sh ∈ keys) (hcard : keys.card ≤ nSlots)
    (path : List Byte) :
    Left keys t sh { records t sh with cwd := copyPath path } (shellCwdSet t sh path) := by
  obtain ⟨i, t', hslot, hi, hrec, hwithin⟩ := slotFor_spec h hsh hcard
  rw [shellCwdSet, hslot]
  exact Left.put hwithin hrec hi

theorem shellPathResolve_spec (h : t.Within keys) (hsh : sh ∈ keys) (hcard : keys.card ≤ nSlots)
    (path : Option (List Byte)) (outSz : ℕ) :
    ∃ t', shellPathResolve t sh path outSz = (resolve (records t sh).cwd path outSz, t') ∧
      records t' = records t ∧ t'.Within keys := by
  obtain ⟨t', hcwd, hrest⟩ := shellCwd_spec h hsh hcard
  exact ⟨t', by rw [shellPathResolve, hcwd], hrest⟩

theorem shOutput_spec (h : t.Within keys) (hsh : sh ∈ keys) (hcard : keys.card ≤ nSlots)
    (toFile toTerminal : List Byte) :
    (shOutput t sh toFile toTerminal).1 = (records t sh).output toFile toTerminal ∧
      Left keys t sh (records t sh) (shOutput t sh toFile toTerminal).2 := by
  obtain ⟨i, t', hslot, -, hrec, hwithin⟩ := slotFor_spec h hsh hcard
  rw [shOutput, hslot]
  exact ⟨rfl, Left.same hwithin hrec⟩

theorem shellRedirEnd_spec (h : t.Within keys) (hsh : sh ∈ keys) (hcard : keys.card ≤ nSlots) :
    (shellRedirEnd t sh).1 = ((records t sh).answer .redirEnd).1 ∧
      Left keys t sh ((records t sh).answer .redirEnd).2 (shellRedirEnd t sh).2 := by
  obtain ⟨i, t', hslot, hi, hrec, hwithin⟩ := slotFor_spec h hsh hcard
  rw [shellRedirEnd, hslot, CwdSlot.answer]
  dsimp only
  split
  · exact ⟨rfl, Left.put hwithin hrec hi⟩
  · exact ⟨rfl, Left.same hwithin hrec⟩

/-- The name is resolved through the table once more; the slot found before stays the shell's. -/
theorem shellRedirBegin_spec (h : t.Within keys) (hsh : sh ∈ keys) (hcard : keys.card ≤ nSlots)
    (argv : List (List Byte)) (opens : Bool) :
    (shellRedirBegin t sh argv opens).1 = ((records t sh).answer (.redirBegin argv opens)).1 ∧
      Left keys t sh ((records t sh).answer (.redirBegin argv opens)).2
        (shellRedirBegin t sh argv opens).2 := by
  rw [shellRedirBegin, CwdSlot.answer]
  cases findRedirect argv with
  | none => exact ⟨rfl, Left.same h rfl⟩
  | noName => exact ⟨rfl, Left.same h rfl⟩
  | file k append fname =>
    obtain ⟨i, t', hslot, hi, hrec, hwithin⟩ := slotFor_spec h hsh hcard
    have hagain : slotFor t' sh = (some (i, records t sh), t') := by
      rw [slotFor, Slots.claim, hwithin.find_of_slot hi]
    have hresolve : shellPathResolve t' sh (some fname) shellPathMax
        = (resolve (records t sh).cwd (some fname) shellPathMax, t') := by
      rw [shellPathResolve, shellCwd, hagain]
    simp only [hslot, hresolve, true_and]
    exact Left.put hwithin hrec hi

/-- **Among at most `N_SLOTS` shells** every call is answered from the caller's own record. -/
theorem perform_isolates (hcard : keys.card ≤ nSlots) :
    Isolates perform CwdSlot.answer records (·.Within keys) keys := by
  refine ⟨fun {t sh} c h hsh => ?_⟩
  suffices hsuff : (perform t sh c).1 = ((records t sh).answer c).1 ∧
      Left keys t sh ((records t sh).answer c).2 (perform t sh c).2 from
    ⟨hsuff.2.within, hsuff.1, hsuff.2.records_eq⟩
  cases c with
  | cwd =>
    obtain ⟨t', hcwd, hrec, hwithin⟩ := shellCwd_spec h hsh hcard
    rw [perform, hcwd]
    exact ⟨rfl, Left.same hwithin hrec⟩
  | cwdSet p => exact ⟨rfl, shellCwdSet_spec h hsh hcard p⟩
  | cwdReset => exact ⟨rfl, shellCwdSet_spec h hsh hcard fsRootsl⟩
  | pathResolve p outSz =>
    obtain ⟨t', hresolve, hrec, hwithin⟩ := shellPathResolve_spec h hsh hcard p outSz
    rw [perform, hresolve]
    exact ⟨rfl, Left.same hwithin hrec⟩
  | redirBegin argv opens => exact shellRedirBegin_spec h hsh hcard argv opens
  | redirEnd => exact shellRedirEnd_spec h hsh hcard
  | print text => exact shOutput_spec h hsh hcard _ _
  | write data len => exact shOutput_spec h hsh hcard _ _

end Isolation

/-! ## Working directories -/

/-- The directory a shell sets with a call. -/
def Call.sets : Call → Option (List Byte)
  | .cwdSet p => some (cstr p)
  | .cwdReset => some fsRootsl
  | _ => none

/-- The directory last set, the root if none was. -/
def lastSet (cs : List Call) : List Byte := (cs.filterMap Call.sets).getLast?.getD fsRootsl

/-- The directory a call sets fits in the buffer. -/
def Call.Fits : Call → Prop
  | .cwdSet p => (cstr p).length < shellPathMax
  | _ => True

instance : DecidablePred Call.Fits
  | .cwdSet p => inferInstanceAs (Decidable ((cstr p).length < shellPathMax))
  | .cwd | .cwdReset | .pathResolve .. | .redirBegin .. | .redirEnd | .print _ | .write .. =>
    .isTrue trivial

/-- After these calls the shell sees the directory it last set, and all its answers were those of the
run in which only it calls. -/
structure Isolated (calls : List (Shell × Call)) (sh : Shell) : Prop where
  cwd : (shellCwd (endState perform .init calls) sh).1 = lastSet (ofKey sh calls)
  answers : ofKey sh (answers perform .init calls)
    = ofKey sh (answers perform .init (calls.filter (·.1 = sh)))

theorem copyPath_of_lt {p : List Byte} (h : (cstr p).length < shellPathMax) :
    copyPath p = cstr p := List.take_of_length_le (Nat.le_sub_one_of_lt h)

theorem cwd_answer (s : CwdSlot) {c : Call} (hc : c.Fits) :
    (s.answer c).2.cwd = c.sets.getD s.cwd := by
  cases c with
  | cwdSet p => exact copyPath_of_lt hc
  | redirBegin argv opens =>
    rw [CwdSlot.answer]
    cases findRedirect argv with
    | none => rfl
    | noName => rfl
    | file k append fname => cases opens <;> rfl
  | redirEnd =>
    rw [CwdSlot.answer]
    split <;> rfl
  | cwd => rfl
  | cwdReset => rfl
  | pathResolve p outSz => rfl
  | print text => rfl
  | write data len => rfl

theorem cwd_ownEnd (s : CwdSlot) {cs : List Call} (hcs : ∀ c ∈ cs, c.Fits) :
    (ownEnd CwdSlot.answer s cs).cwd = (cs.filterMap Call.sets).getLast?.getD s.cwd := by
  induction cs generalizing s with
  | nil => rfl
  | cons c cs ih =>
    rw [List.forall_mem_cons] at hcs
    rw [ownEnd, List.foldl_cons]
    refine (ih (s.answer c).2 hcs.2).trans ?_
    rw [cwd_answer s hcs.1]
    cases hsets : c.sets with
    | none => rw [List.filterMap_cons_none hsets, Option.getD_none]
    | some p => rw [List.filterMap_cons_some hsets, List.getLast?_cons, Option.getD_some,
        Option.getD_some]

theorem mem_of_mem_ofKey {sh : Shell} {calls : List (Shell × Call)} {c : Call}
    (h : c ∈ ofKey sh calls) : (sh, c) ∈ calls := by
  obtain ⟨e, he, rfl⟩ := List.mem_map.mp h
  obtain ⟨hmem, hsh⟩ := List.mem_filter.mp he
  rwa [← of_decide_eq_true hsh]

/-- **Shell sessions do not share working directories**, as long as no more than `N_SLOTS` shells call
and no directory is longer than its buffer. -/
theorem isolated_of_few_shells {calls : List (Shell × Call)}
    (hfew : (calls.map Prod.fst).toFinset.card ≤ nSlots)
    (hfits : ∀ call ∈ calls, call.2.Fits) (sh : Shell) : Isolated calls sh := by
  have hmem : ∀ c ∈ calls, c.1 ∈ (calls.map Prod.fst).toFinset := fun c hc =>
    List.mem_toFinset.mpr (List.mem_map_of_mem hc)
  have hiso := perform_isolates hfew
  have hinit : ShellTable.init.Within (calls.map Prod.fst).toFinset := Slots.within_empty
  refine ⟨?_, hiso.answers_filter hinit hmem sh⟩
  obtain ⟨-, hrec⟩ := hiso.view_endState hinit hmem sh
  have hfresh : records .init sh = .fresh := congrFun Slots.view_empty sh
  rw [shellCwd_fst, hrec, hfresh,
    cwd_ownEnd CwdSlot.fresh fun c hc => hfits _ (mem_of_mem_ofKey hc)]
  rfl

/-- Two shells, each in a directory of its own. -/
def twoShells : List (Shell × Call) :=
  [(.serial, .cwdSet (ascii "/SD:/a")), (.ssh 0, .cwdReset), (.ssh 0, .cwdSet (ascii "/SD:/b")),
    (.serial, .pathResolve (some (ascii "x")) 192)]

theorem isolated_twoShells :
    Isolated twoShells .serial ∧
      answers perform .init twoShells
        = [(.serial, .done), (.ssh 0, .done), (.ssh 0, .done), (.serial, .path (ascii "/SD:/a/x"))] :=
  ⟨isolated_of_few_shells (by decide) (by decide +kernel) .serial, by decide +kernel⟩

/-- All of the table's slots taken by the console and the first three connections. -/
def fiveShells : List (Shell × Call) :=
  [(.serial, .cwdReset), (.ssh 0, .cwdReset), (.ssh 1, .cwdReset), (.ssh 2, .cwdReset),
    (.ssh 3, .cwdReset), (.ssh 3, .cwdSet (ascii "/SD:/a"))]

/-- **A fifth shell has no directory of its own**: what it sets is lost. -/
theorem not_forall_isolated : ¬ ∀ calls sh, Isolated calls sh := fun h => by
  have hcwd := (h fiveShells (.ssh 3)).cwd
  revert hcwd
  decide +kernel

end KlaussRuntime.Ssh
