import KlaussRuntime.Machinery.Bytes
import KlaussRuntime.Machinery.Machine

/-!
# Ssh/TlsCert — the TLS key and certificate across boots

`tlscert_init` loads the key and the certificate from two files; if one of them is missing or too short,
or the certificate does not cover the board's address, it generates a new pair and saves it, the key
first and then the certificate.  Nothing checks on loading that the two belong together.

A save may fail to open its file, stop short, or be cut off by the loss of power (`Save`); the files stay
as they are then, through any number of boots.  `paired_of_careful` says when the pair in memory is
always one that a single `generate()` made: whenever a boot leaves a key it wrote, it leaves no other
certificate that loads.  Without that a new key meets an old certificate (`not_forall_paired`).
-/

namespace KlaussRuntime.Ssh

open Machinery

def keyDerMax : ℕ := 256

def certDerMax : ℕ := 1024

/-- The shortest key and the shortest certificate `tlscert_init` takes from a file. -/
def keyDerMin : ℕ := 64

def certDerMin : ℕ := 100

/-- The naive search of `mem_contains`. -/
def memContains (hay needle : List Byte) : Bool :=
  (List.range (hay.length + 1 - needle.length)).any fun i => (hay.drop i).take needle.length = needle

/-- What one call of `generate()` leaves in `s_key_der` and `s_cert_der`. -/
structure KeyPair where
  key : List Byte
  cert : List Byte
  key_le : key.length ≤ keyDerMax
  cert_le : cert.length ≤ certDerMax
  deriving DecidableEq

/-- The two files on the card. -/
structure Card where
  key : Option (List Byte)
  cert : Option (List Byte)

/-- The static variables; `s_ip` and `s_have_ip` are one field.  What the two blobs are before
`s_initialized` is set is nobody's concern: the next call loads or generates them again. -/
structure TlsRam where
  key : List Byte
  cert : List Byte
  ip : Option (List Byte)
  initialized : Bool

def TlsRam.init : TlsRam := ⟨[], [], none, false⟩

/-- How a save goes: whether the file was opened (and with that emptied), how many bytes reached it,
and whether the power stayed on. -/
structure Save where
  opened : Bool
  written : ℕ
  powered : Bool

def loadBlob (file : Option (List Byte)) (cap minLen : ℕ) : Option (List Byte) :=
  file.bind fun bytes =>
    let buf := bytes.take cap
    if buf.length < minLen ∨ buf.head? ≠ some 0x30 then none else some buf

/-- What a save leaves in its file. -/
def saveBlob (file : Option (List Byte)) (buf : List Byte) (sv : Save) : Option (List Byte) :=
  if sv.opened then some (buf.take sv.written) else file

/-- `save_blob` returns 0. -/
def Save.Done (sv : Save) (buf : List Byte) : Prop :=
  sv.opened = true ∧ buf.length ≤ sv.written ∧ sv.powered = true

instance (sv : Save) (buf : List Byte) : Decidable (sv.Done buf) :=
  inferInstanceAs (Decidable (_ ∧ _ ∧ _))

/-- The card after both saves; the certificate is saved only if the key was. -/
def Card.save (card : Card) (pair : KeyPair) (keySave certSave : Save) : Card where
  key := saveBlob card.key pair.key keySave
  cert := if keySave.Done pair.key then saveBlob card.cert pair.cert certSave else card.cert

/-- The power is still on when the saves are over. -/
def survives (pair : KeyPair) (keySave certSave : Save) : Bool :=
  keySave.powered && (!decide (keySave.Done pair.key) || certSave.powered)

/-- The pair on the card, if both parts load. -/
def Card.load (card : Card) : Option (List Byte × List Byte) :=
  (loadBlob card.key keyDerMax keyDerMin).bind fun key =>
    (loadBlob card.cert certDerMax certDerMin).map fun cert => (key, cert)

/-- …and it covers the address. -/
def reusable (card : Card) (ip : Option (List Byte)) : Option (List Byte × List Byte) :=
  card.load.filter fun pair => ip.all (memContains pair.2)

/-- The board: its memory, the card, the pairs generated so far and the last result of
`tlscert_init` since the board was switched on. -/
structure Board where
  ram : TlsRam
  card : Card
  log : List KeyPair
  returned : Option ℤ

def Board.init : Board := ⟨.init, ⟨none, none⟩, [], none⟩

/-- The board is switched off and on. -/
def Board.reboot (b : Board) : Board := { b with ram := .init, returned := none }

/-- `tlscert_init(ip4)`: `gen` is the outcome of `generate()`, an error code or a pair. -/
def tlscertInit (b : Board) (ip4 : Option (List Byte)) (gen : Except ℤ KeyPair)
    (keySave certSave : Save) : Board :=
  if b.ram.initialized then { b with returned := some 0 }
  else
    let ip := ip4 <|> b.ram.ip
    match reusable b.card ip with
    | some (key, cert) =>
      { b with ram := { key, cert, ip, initialized := true }, returned := some 0 }
    | none =>
      match gen with
      | .error rc => { b with ram := { b.ram with ip }, returned := some rc }
      | .ok pair =>
        let saved : Board :=
          { b with card := b.card.save pair keySave certSave, log := pair :: b.log }
        if survives pair keySave certSave then
          { saved with
            ram := { key := pair.key, cert := pair.cert, ip, initialized := true }
            returned := some 0 }
        else saved.reboot

inductive BoardEvent
  | reboot
  | init (ip4 : Option (List Byte)) (gen : Except ℤ KeyPair) (keySave certSave : Save)

/-- One event; a failing `generate()` has a code other than 0. -/
def Board.step (b : Board) : BoardEvent → Option Board
  | .reboot => some b.reboot
  | .init _ (.error 0) _ _ => none
  | .init ip4 gen keySave certSave => some (tlscertInit b ip4 gen keySave certSave)

/-- When `tlscert_init` has returned 0, key and certificate in memory are those of one call of
`generate()`. -/
def Board.Paired (b : Board) : Prop :=
  b.returned = some 0 → ∃ pair ∈ b.log, b.ram.key = pair.key ∧ b.ram.cert = pair.cert

/-- A key that was written and loads has no certificate beside it but its own, whole or too short to
load. -/
def KeepsPair (card : Card) (pair : KeyPair) (keySave certSave : Save) : Prop :=
  keySave.opened = true → keyDerMin ≤ keySave.written →
    if keySave.Done pair.key ∧ certSave.opened = true then
      pair.cert.length ≤ certSave.written ∨ certSave.written < certDerMin
    else loadBlob card.cert certDerMax certDerMin = none

instance (card : Card) (pair : KeyPair) (keySave certSave : Save) :
    Decidable (KeepsPair card pair keySave certSave) :=
  inferInstanceAs (Decidable (_ → _ → _))

/-- `tlscert_init` comes to generate a pair. -/
def Board.Generates (b : Board) (ip4 : Option (List Byte)) : Prop :=
  b.ram.initialized = false ∧ reusable b.card (ip4 <|> b.ram.ip) = none

/-- The saves of a call that generates a pair keep it together. -/
def careful (b : Board) : BoardEvent → Prop
  | .init ip4 (.ok pair) keySave certSave =>
    b.Generates ip4 → KeepsPair b.card pair keySave certSave
  | _ => True

section Pairs

variable {b : Board} {card : Card} {pair : KeyPair} {keySave certSave : Save}

theorem loadBlob_take_lt {buf : List Byte} {k cap minLen : ℕ} (h : k < minLen) :
    loadBlob (some (buf.take k)) cap minLen = none := by
  rw [loadBlob, Option.bind_some, if_pos]
  left
  rw [List.length_take, List.length_take]
  omega

theorem eq_of_loadBlob {bytes blob : List Byte} {cap minLen : ℕ} (hlen : bytes.length ≤ cap)
    (h : loadBlob (some bytes) cap minLen = some blob) : blob = bytes := by
  rw [loadBlob, Option.bind_some] at h
  dsimp only at h
  split_ifs at h
  rw [← Option.some.inj h, List.take_of_length_le hlen]

/-- What the card may hold: a pair that loads was generated as such. -/
def Card.Sound (log : List KeyPair) (card : Card) : Prop :=
  ∀ key cert, card.load = some (key, cert) → ∃ pair ∈ log, key = pair.key ∧ cert = pair.cert

theorem Card.load_eq_some {key cert : List Byte} (h : card.load = some (key, cert)) :
    loadBlob card.key keyDerMax keyDerMin = some key ∧
      loadBlob card.cert certDerMax certDerMin = some cert := by
  obtain ⟨key', hkey, hrest⟩ := Option.bind_eq_some_iff.mp h
  obtain ⟨cert', hcert, heq⟩ := Option.map_eq_some_iff.mp hrest
  cases heq
  exact ⟨hkey, hcert⟩

theorem Card.Sound.mono {log : List KeyPair} (h : card.Sound log) (pair : KeyPair) :
    card.Sound (pair :: log) := fun key cert hload => by
  obtain ⟨old, hmem, hrest⟩ := h key cert hload
  exact ⟨old, List.mem_cons_of_mem _ hmem, hrest⟩

/-- **A save that keeps its pair together** leaves a sound card. -/
theorem Card.Sound.save {log : List KeyPair} (h : card.Sound log)
    (hkeep : KeepsPair card pair keySave certSave) :
    (card.save pair keySave certSave).Sound (pair :: log) := by
  intro key cert hload
  obtain ⟨hkey, hcert⟩ := Card.load_eq_some hload
  simp only [Card.save] at hkey hcert
  by_cases hopen : keySave.opened = true
  swap
  · -- the key file was not touched, and then neither was the certificate's
    have hdone : ¬ keySave.Done pair.key := fun hdone => hopen hdone.1
    rw [saveBlob, if_neg hopen] at hkey
    rw [if_neg hdone] at hcert
    refine h.mono pair key cert ?_
    rw [Card.load, hkey, Option.bind_some, hcert, Option.map_some]
  rw [saveBlob, if_pos hopen] at hkey
  have hmin : keyDerMin ≤ keySave.written := by
    by_contra hlt
    rw [loadBlob_take_lt (not_le.mp hlt)] at hkey
    cases hkey
  have hkept := hkeep hopen hmin
  split_ifs at hkept with hboth
  · rw [if_pos hboth.1, saveBlob, if_pos hboth.2] at hcert
    rcases hkept with hall | hshort
    · rw [List.take_of_length_le hboth.1.2.1] at hkey
      rw [List.take_of_length_le hall] at hcert
      exact ⟨pair, List.mem_cons_self, eq_of_loadBlob pair.key_le hkey,
        eq_of_loadBlob pair.cert_le hcert⟩
    · rw [loadBlob_take_lt hshort] at hcert
      cases hcert
  · -- the certificate is the one from before, which does not load
    have hsame : (if keySave.Done pair.key then saveBlob card.cert pair.cert certSave
        else card.cert) = card.cert := by
      split_ifs with hdone
      · rw [saveBlob, if_neg fun hcs => hboth ⟨hdone, hcs⟩]
      · rfl
    rw [hsame, hkept] at hcert
    cases hcert

/-- What holds at every moment. -/
structure Board.Good (b : Board) : Prop where
  card : b.card.Sound b.log
  ram : b.ram.initialized = true → ∃ pair ∈ b.log, b.ram.key = pair.key ∧ b.ram.cert = pair.cert
  returned : b.returned = some 0 → b.ram.initialized = true

theorem Board.Good.reboot (h : b.Good) : b.reboot.Good where
  card := h.card
  ram := fun hinit => by cases hinit
  returned := fun hret => by cases hret

theorem Board.Good.tlscertInit (h : b.Good) {gen : Except ℤ KeyPair} (hgen : gen ≠ .error 0)
    {ip4 : Option (List Byte)}
    (hkeep : ∀ pair, gen = .ok pair → b.Generates ip4 → KeepsPair b.card pair keySave certSave) :
    (tlscertInit b ip4 gen keySave certSave).Good := by
  rw [Ssh.tlscertInit]
  split_ifs with hinit
  · exact ⟨h.card, h.ram, fun _ => hinit⟩
  dsimp only
  split
  · next key cert hreuse =>
    obtain ⟨hload, -⟩ := Option.filter_eq_some_iff.mp hreuse
    exact ⟨h.card, fun _ => h.card key cert hload, fun _ => rfl⟩
  split
  · next rc =>
    have hrc : rc ≠ 0 := fun hzero => hgen (by rw [hzero])
    exact ⟨h.card, fun hram => absurd hram hinit, fun hret => absurd (Option.some.inj hret) hrc⟩
  · next hnone _ pair =>
    have hcard := h.card.save (hkeep pair rfl ⟨eq_false_of_ne_true hinit, hnone⟩)
    split_ifs
    · exact ⟨hcard, fun _ => ⟨pair, List.mem_cons_self, rfl, rfl⟩, fun _ => rfl⟩
    · exact ⟨hcard, fun hram => (by cases hram), fun hret => (by cases hret)⟩

theorem Board.Good.step {b' : Board} {e : BoardEvent} (h : b.Good) (hcare : careful b e)
    (hstep : b.step e = some b') : b'.Good := by
  cases e with
  | reboot =>
    cases hstep
    exact h.reboot
  | init ip4 gen keySave certSave =>
    have hgen : gen ≠ .error 0 := by
      rintro rfl
      cases hstep
    have hkeep : ∀ pair, gen = .ok pair → b.Generates ip4 →
        KeepsPair b.card pair keySave certSave := by
      rintro pair rfl
      exact hcare
    rw [Board.step] at hstep
    · cases hstep
      exact h.tlscertInit hgen hkeep
    · exact hgen

theorem Board.good_init : Board.init.Good :=
  ⟨fun _ _ h => (by cases h), fun h => (by cases h), fun h => (by cases h)⟩

/-- **The TLS key and certificate belong together**, whatever the boots, the addresses and the saves, as
long as every save keeps its pair together. -/
theorem paired_of_careful (h : Reaches Board.step careful Board.init b) : b.Paired := by
  have hgood := h.invariant (fun hb hok hstep => Board.Good.step hb hok hstep) Board.good_init
  exact fun hret => hgood.ram (hgood.returned hret)

end Pairs

/-! ## Two addresses -/

def blobA : KeyPair where
  key := 0x30 :: 1 :: List.replicate 62 0
  cert := 0x30 :: 192 :: 168 :: 1 :: 10 :: List.replicate 95 0
  key_le := by decide
  cert_le := by decide

def blobB : KeyPair where
  key := 0x30 :: 2 :: List.replicate 62 0
  cert := 0x30 :: 192 :: 168 :: 1 :: 20 :: List.replicate 95 0
  key_le := by decide
  cert_le := by decide

def wholeSave : Save := ⟨true, certDerMax, true⟩

def failedOpen : Save := ⟨false, 0, true⟩

/-- A first boot, and one at another address. -/
def movedBoard (certSave : Save) : List BoardEvent :=
  [.init (some [192, 168, 1, 10]) (.ok blobA) wholeSave wholeSave, .reboot,
    .init (some [192, 168, 1, 20]) (.ok blobB) wholeSave certSave]

instance : ∀ b e, Decidable (careful b e)
  | b, .init ip4 (.ok pair) keySave certSave =>
    inferInstanceAs (Decidable (_ ∧ reusable b.card (ip4 <|> b.ram.ip) = none →
      KeepsPair b.card pair keySave certSave))
  | _, .init _ (.error _) _ _ | _, .reboot => .isTrue trivial

theorem paired_movedBoard :
    ∃ b, runAll Board.step careful .init (movedBoard wholeSave) = some b ∧ b.returned = some 0 ∧
      b.Paired := by
  have hend : (runAll Board.step careful .init (movedBoard wholeSave)).map (·.returned)
      = some (some 0) := by decide +kernel
  obtain ⟨b, hrun, hret⟩ := Option.map_eq_some_iff.mp hend
  exact ⟨b, hrun, hret, paired_of_careful (Reaches.of_runAll _ hrun)⟩

/-- **A new key beside an old certificate**: the certificate of the second boot is not saved, and a
third boot at the first address finds its own certificate beside the other key. -/
theorem not_forall_paired : ¬ ∀ b, Reaches Board.step anyStep Board.init b → b.Paired := fun h => by
  have hend : (runAll Board.step anyStep .init
      (movedBoard failedOpen ++ [.reboot, .init (some [192, 168, 1, 10]) (.ok blobA) wholeSave
        wholeSave])).map (fun b => (b.returned, b.ram.key, b.ram.cert, b.log))
      = some (some 0, blobB.key, blobA.cert, [blobB, blobA]) := by decide +kernel
  obtain ⟨b, hrun, hb⟩ := Option.map_eq_some_iff.mp hend
  obtain ⟨hret, hrest⟩ := Prod.mk.inj hb
  obtain ⟨hkey, hrest⟩ := Prod.mk.inj hrest
  obtain ⟨hcert, hlog⟩ := Prod.mk.inj hrest
  obtain ⟨pair, hmem, hpk, hpc⟩ := h b (Reaches.of_runAll _ hrun) hret
  rw [hlog] at hmem
  have hmixed : ∀ pair ∈ [blobB, blobA], blobB.key = pair.key → blobA.cert ≠ pair.cert := by
    decide +kernel
  exact hmixed pair hmem (hkey.symm.trans hpk) (hcert.symm.trans hpc)

end KlaussRuntime.Ssh
