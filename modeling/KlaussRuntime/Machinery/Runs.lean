import Mathlib.Tactic

/-!
# Machinery/Runs — total correctness for programs with a state that may fault

A program over a state `σ` is a `StateT σ Option`: `none` is a fault or a wait that never ends.
`Runs p s Q` says that `p`, started in `s`, comes to an end and leaves a result and a state that meet
`Q`; so a proof of `Runs` also shows that no fault occurs.  The rules follow the shape of the program:
sequencing (`Runs.bind`), a counted loop with its invariant (`Runs.loop`), a list worked off
(`Runs.foldlM`), a part of the state at a time (`Runs.zoom`), an access that a busy device refuses
(`Runs.gated`).
-/

namespace Machinery

variable {σ τ α β : Type}

abbrev Prog (σ : Type) := StateT σ Option

/-- The program ends, without a fault, in `Q`. -/
def Runs (p : Prog σ α) (s : σ) (Q : α → σ → Prop) : Prop :=
  ∃ a s', p.run s = some (a, s') ∧ Q a s'

/-- `for (i = 0; i < n; i++)`, with the variables the body carries from round to round. -/
def loop (body : ℕ → β → Prog σ β) : ℕ → β → Prog σ β
  | 0, b => pure b
  | n + 1, b => do
    let b ← loop body n b
    body n b

/-- An access that faults while the device is busy. -/
def gated (busy : σ → Bool) (f : σ → α × σ) : Prog σ α := fun s =>
  if busy s then none else some (f s)

/-- A program on a part of the state. -/
def zoom (get : σ → τ) (set : τ → σ → σ) (p : Prog τ α) : Prog σ α := fun s =>
  (p.run (get s)).map fun (a, t) => (a, set t s)

namespace Runs

variable {p : Prog σ α} {f : α → Prog σ β} {s : σ} {P Q : α → σ → Prop} {R : β → σ → Prop}

theorem mono (hp : Runs p s P) (h : ∀ a s', P a s' → Q a s') : Runs p s Q := by
  obtain ⟨a, s', hrun, hP⟩ := hp
  exact ⟨a, s', hrun, h a s' hP⟩

theorem pure {a : α} (h : Q a s) : Runs (Pure.pure a) s Q := ⟨a, s, rfl, h⟩

/-- **Sequencing.** -/
theorem bind (hp : Runs p s P) (hf : ∀ a s', P a s' → Runs (f a) s' R) : Runs (p >>= f) s R := by
  obtain ⟨a, s', hrun, hP⟩ := hp
  obtain ⟨b, s'', hrun', hR⟩ := hf a s' hP
  exact ⟨b, s'', by rw [StateT.run_bind, hrun]; exact hrun', hR⟩

theorem get {Q : σ → σ → Prop} (h : Q s s) : Runs (MonadState.get : Prog σ σ) s Q := ⟨s, s, rfl, h⟩

theorem modify {g : σ → σ} {Q : PUnit → σ → Prop} (h : Q ⟨⟩ (g s)) :
    Runs (modify g : Prog σ PUnit) s Q := ⟨⟨⟩, g s, rfl, h⟩

theorem gated {busy : σ → Bool} {g : σ → α × σ} (h : busy s = false) (hQ : Q (g s).1 (g s).2) :
    Runs (Machinery.gated busy g) s Q :=
  ⟨(g s).1, (g s).2, by rw [StateT.run, Machinery.gated, h]; rfl, hQ⟩

theorem gated_bind {busy : σ → Bool} {g : σ → α × σ} (h : busy s = false)
    (hf : Runs (f (g s).1) (g s).2 R) : Runs (Machinery.gated busy g >>= f) s R :=
  (gated (Q := fun a s' => a = (g s).1 ∧ s' = (g s).2) h ⟨rfl, rfl⟩).bind
    fun _ _ ha => ha.1 ▸ ha.2 ▸ hf

/-- **The loop rule**: an invariant that holds before round 0 and that each round carries one on holds
after the last. -/
theorem loop {body : ℕ → β → Prog σ β} (Inv : ℕ → β → σ → Prop) {n : ℕ} {b : β} (h : Inv 0 b s)
    (hbody : ∀ i < n, ∀ b s, Inv i b s → Runs (body i b) s (Inv (i + 1))) :
    Runs (Machinery.loop body n b) s (Inv n) := by
  induction n with
  | zero => exact Runs.pure h
  | succ n ih =>
    exact (ih fun i hi => hbody i (Nat.lt_succ_of_lt hi)).bind fun b s hb =>
      hbody n (Nat.lt_succ_self n) b s hb

/-- **The rule for a list**, with an invariant about the part worked off. -/
theorem foldlM {ι : Type} {body : β → ι → Prog σ β} (Inv : List ι → β → σ → Prop) {b : β}
    (h : Inv [] b s) (hbody : ∀ done x b s, Inv done b s → Runs (body b x) s (Inv (done ++ [x])))
    (l : List ι) : Runs (l.foldlM body b) s (Inv l) := by
  induction l using List.reverseRecOn with
  | nil => exact Runs.pure h
  | append_singleton l x ih =>
    rw [List.foldlM_append]
    refine ih.bind fun b s hb => ?_
    rw [List.foldlM_cons]
    exact (hbody l x b s hb).bind fun b s hb => Runs.pure hb

/-- **The frame rule**: a program on a part of the state leaves the rest alone. -/
theorem zoom {get : σ → τ} {set : τ → σ → σ} {q : Prog τ α} {P : α → τ → Prop}
    (hq : Runs q (get s) P) (h : ∀ a t, P a t → Q a (set t s)) :
    Runs (Machinery.zoom get set q) s Q := by
  obtain ⟨a, t, hrun, hP⟩ := hq
  refine ⟨a, set t s, ?_, h a t hP⟩
  change Option.map _ (q.run (get s)) = _
  rw [hrun]
  rfl

end Runs

end Machinery
