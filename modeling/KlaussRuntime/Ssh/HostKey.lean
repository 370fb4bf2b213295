import KlaussRuntime.Machinery.Buffers

/-!
# Ssh/HostKey — the SSH host key across a boot

`sshkeys_init` loads the host key from its file, or generates one; `sshkeys_persist` saves a generated key.  The
file is opened for writing without `FS_O_TRUNC`, so a save puts the key over the first bytes and leaves what
lies behind them.  Loading reads up to `PRIV_DER_MAX` bytes, and takes all it reads for the key.

A file that was no longer than the key is the key after the save (`take_put_key`); so is what is read of a file
whatever its length if the key fills `PRIV_DER_MAX`.  Of a longer file the next boot loads more.
-/

namespace KlaussRuntime.Ssh.HostKey

open Machinery

def PRIV_DER_MAX : ℕ := 256

/-- The static variables. -/
structure Keys where
  /-- `s_priv_der` -/
  privDer : Buffer PRIV_DER_MAX
  /-- `s_priv_der_len` -/
  privDerLen : ℕ
  initialized : Bool
  needsPersist : Bool

/-- After the start. -/
def Keys.boot : Keys := ⟨.zero _, 0, false, false⟩

/-- A file, if there is one. -/
abbrev File := Option (List Byte)

/-- How opening and reading the file goes. -/
inductive Reading where
  | refused
  /-- `fs_read` fails, with this in the buffer -/
  | failed (garbage : Buffer PRIV_DER_MAX)
  | fine

/-- How a save goes: whether the file is opened, how many bytes are written at most, and whether `fs_write`
reports an error. -/
structure Writing where
  opened : Bool
  written : ℕ
  failed : Bool

/-- `generate_keypair`: an error code, or the key `wc_EccKeyToDer` leaves. -/
abbrev Generated := Except ℤ { der : List Byte // der.length ≤ PRIV_DER_MAX }

/-! ## Loading and saving -/

/-- What `load_from_sd` makes of the bytes it has read. -/
def accept (k : Keys) (br : ℕ) : ℤ × Keys :=
  if br < 16 ∨ k.privDer.bytes.head? ≠ some 0x30 then (-1, k) else (0, { k with privDerLen := br })

def loadFromSd (rd : Reading) (file : File) (k : Keys) : ℤ × Keys :=
  match rd, file with
  | .refused, _ | _, none => (-1, k)
  | .failed garbage, some _ => (-1, { k with privDer := garbage })
  | .fine, some bytes =>
    accept { k with privDer := k.privDer.put 0 (bytes.take PRIV_DER_MAX) } (bytes.take PRIV_DER_MAX).length

/-- The file after `n` bytes of `bs` are written from its beginning on. -/
def overwrite (file : File) (bs : List Byte) (n : ℕ) : List Byte := put 0 (bs.take n) (file.getD [])

def saveToSd (wr : Writing) (file : File) (k : Keys) : ℤ × File :=
  if ¬ wr.opened then (-1, file)
  else
    let bw := min wr.written k.privDerLen
    let file := overwrite file (k.privDer.bytes.take k.privDerLen) bw
    if wr.failed ∨ bw ≠ k.privDerLen then (-1, some file) else (0, some file)

def generateKeypair (gen : Generated) (k : Keys) : ℤ × Keys :=
  match gen with
  | .error rc => (rc, k)
  | .ok der => (0, { k with privDer := k.privDer.put 0 der, privDerLen := der.1.length })

def sshkeysInit (rd : Reading) (gen : Generated) (file : File) (k : Keys) : ℤ × Keys :=
  if k.initialized then (0, k)
  else
    let (rc, k) := loadFromSd rd file k
    if rc = 0 then (0, { k with initialized := true })
    else
      let (rc, k) := generateKeypair gen k
      if rc ≠ 0 then (rc, k) else (0, { k with needsPersist := true, initialized := true })

def sshkeysPersist (wr : Writing) (file : File) (k : Keys) : ℤ × Keys × File :=
  if ¬ k.initialized ∨ ¬ k.needsPersist then (0, k, file)
  else
    let (rc, file) := saveToSd wr file k
    if rc = 0 then (0, { k with needsPersist := false }, file) else (-1, k, file)

/-! ## One boot and the next -/

variable {rd : Reading} {gen : Generated} {wr : Writing} {file file' : File} {k : Keys}
  {der : { der : List Byte // der.length ≤ PRIV_DER_MAX }}

theorem needsPersist_loadFromSd (rd : Reading) (file : File) (k : Keys) :
    (loadFromSd rd file k).2.needsPersist = k.needsPersist := by
  unfold loadFromSd accept
  split
  any_goals rfl
  split_ifs <;> rfl

/-- **A boot that generates** has the key it generated, to be saved. -/
theorem generated (h : (sshkeysInit rd (.ok der) file .boot).2.needsPersist = true) :
    (sshkeysInit rd (.ok der) file .boot).2.initialized = true ∧
      (sshkeysInit rd (.ok der) file .boot).2.privDer.Holds
        (sshkeysInit rd (.ok der) file .boot).2.privDerLen der := by
  have hboot := needsPersist_loadFromSd rd file .boot
  unfold sshkeysInit at h ⊢
  rw [if_neg (by decide)] at h ⊢
  generalize loadFromSd rd file .boot = r at h hboot ⊢
  dsimp only at h ⊢
  by_cases hrc : r.1 = 0
  · rw [if_pos hrc] at h
    exact absurd (hboot.symm.trans h) (by decide)
  · rw [if_neg hrc]
    exact ⟨rfl, r.2.privDer.holds_put_zero der.2⟩

/-- **A save that succeeds** has written the whole key. -/
theorem saved (h : (sshkeysPersist wr file k).1 = 0) (hinit : k.initialized = true)
    (hpersist : k.needsPersist = true) {key : List Byte} (hkey : k.privDer.Holds k.privDerLen key) :
    (sshkeysPersist wr file k).2.2 = some (put 0 key (file.getD [])) := by
  unfold sshkeysPersist saveToSd at *
  rw [if_neg (by simp [hinit, hpersist])] at h ⊢
  by_cases hopen : wr.opened = true
  · rw [if_neg (by simp [hopen])] at h ⊢
    dsimp only at h ⊢
    by_cases hshort : wr.failed = true ∨ min wr.written k.privDerLen ≠ k.privDerLen
    · rw [if_pos hshort] at h
      cases h
    · rw [if_neg hshort]
      have hall : min wr.written k.privDerLen = k.privDerLen := by
        by_contra hne
        exact hshort (.inr hne)
      rw [if_pos rfl, hall, overwrite, hkey.bytes, hkey.length, List.take_length]
  · rw [if_pos hopen] at h
    cases h

theorem take_put_key {key bytes : List Byte} (hle : key.length ≤ PRIV_DER_MAX)
    (hfit : bytes.length ≤ key.length ∨ key.length = PRIV_DER_MAX) :
    (put 0 key bytes).take PRIV_DER_MAX = key := by
  rw [put_zero]
  rcases hfit with hshort | hfull
  · rw [List.drop_eq_nil_of_le hshort, List.append_nil, List.take_of_length_le hle]
  · rw [← hfull, List.take_left]

/-- **The next boot loads the key** from a file that begins with it. -/
theorem loaded {key bytes : List Byte} (gen : Generated) (hread : bytes.take PRIV_DER_MAX = key)
    (hle : key.length ≤ PRIV_DER_MAX) (hmin : 16 ≤ key.length) (hder : key.head? = some 0x30) :
    (sshkeysInit .fine gen (some bytes) .boot).1 = 0 ∧
      (sshkeysInit .fine gen (some bytes) .boot).2.privDer.Holds
        (sshkeysInit .fine gen (some bytes) .boot).2.privDerLen key ∧
      (sshkeysInit .fine gen (some bytes) .boot).2.needsPersist = false := by
  have hholds := (Buffer.zero PRIV_DER_MAX).holds_put_zero hle
  have hhead : ((Buffer.zero PRIV_DER_MAX).put 0 key).bytes.head? = some 0x30 := by
    have htake := congrArg List.head? hholds.bytes
    rw [List.head?_take, if_neg (by omega), hder] at htake
    exact htake
  have haccept : loadFromSd .fine (some bytes) .boot =
      (0, { Keys.boot with privDer := (Buffer.zero PRIV_DER_MAX).put 0 key, privDerLen := key.length }) := by
    unfold loadFromSd accept
    dsimp only
    rw [hread, if_neg]
    · rfl
    · rintro (hlt | hne)
      · omega
      · exact hne hhead
  unfold sshkeysInit
  rw [if_neg (by decide), haccept]
  exact ⟨rfl, hholds, rfl⟩

/-- A key of 121 bytes, as P-256 keys are. -/
def someKey : { der : List Byte // der.length ≤ PRIV_DER_MAX } := ⟨0x30 :: List.replicate 120 7, by decide⟩

/-- Everything is written. -/
def wholeWrite : Writing := ⟨true, PRIV_DER_MAX, false⟩

/-- A file that is longer than the key, and is not taken for one. -/
def oldFile : File := some (List.replicate 200 0)

end KlaussRuntime.Ssh.HostKey
