import Mathlib.Data.Finset.Card
import Mathlib.Data.List.FinRange
import Mathlib.Data.Fintype.Card
import Mathlib.Tactic.Common

/-!
# Machinery/Slots — a fixed table of private records, each claimed on first use

A table of `n` slots, each free or holding the record of one key.  `Slots.claim` looks a key's slot up
and takes a free one if there is none; `Slots.view` reads the table as a record for every key.

* While at most `n` keys ever come (`Within`), `claim` finds a slot and changes nobody's record
  (`Within.claim`), and `put` changes the record of its own key (`Within.put`): the table is then as
  good as one record per key.
* A service that answers each key from its own record (`Isolates`) gives every key the answers it would
  get alone (`Isolates.answers_filter`).
-/

namespace Machinery

open Function

variable {n : ℕ} {K V : Type*} [DecidableEq K]

/-- `n` slots: free, or a key with its record. -/
abbrev Slots (n : ℕ) (K V : Type*) := Fin n → Option (K × V)

namespace Slots

/-- The slot of `k`, with its record. -/
def find (t : Slots n K V) (k : K) : Option (Fin n × V) :=
  (List.finRange n).findSome? fun i => ((t i).filter (·.1 = k)).map fun e => (i, e.2)

def free (t : Slots n K V) : Option (Fin n) := (List.finRange n).find? fun i => (t i).isNone

def put (t : Slots n K V) (i : Fin n) (k : K) (v : V) : Slots n K V :=
  update t i (some (k, v))

/-- The slot of `k`; a free one with the record `v` if it has none; nothing if the table is full. -/
def claim (t : Slots n K V) (k : K) (v : V) : Option (Fin n × V) × Slots n K V :=
  match t.find k with
  | some e => (some e, t)
  | none =>
    match t.free with
    | some i => (some (i, v), t.put i k v)
    | none => (none, t)

/-- The record of each key, `v` for one that has no slot. -/
def view (v : V) (t : Slots n K V) (k : K) : V := ((t.find k).map (·.2)).getD v

/-- No key of the table is outside `keys`, and none has two slots. -/
structure Within (keys : Finset K) (t : Slots n K V) : Prop where
  mem : ∀ {i : Fin n} {k : K} {v : V}, t i = some (k, v) → k ∈ keys
  unique : ∀ {i j : Fin n} {k : K} {v w : V}, t i = some (k, v) → t j = some (k, w) → i = j

variable {keys : Finset K} {t : Slots n K V} {i : Fin n} {k : K} {v w : V}

theorem find_eq_some (h : t.find k = some (i, v)) : t i = some (k, v) := by
  obtain ⟨j, -, hj⟩ := List.exists_of_findSome?_eq_some h
  simp only [Option.map_eq_some_iff, Option.filter_eq_some_iff, decide_eq_true_eq,
    Prod.exists] at hj
  obtain ⟨k', v', ⟨hslot, rfl⟩, heq⟩ := hj
  cases heq
  exact hslot

theorem find_eq_none (h : t.find k = none) (i : Fin n) (v : V) : t i ≠ some (k, v) := by
  intro hslot
  have hnone := List.findSome?_eq_none_iff.mp h i (List.mem_finRange i)
  simp [hslot, Option.filter] at hnone

omit [DecidableEq K] in
theorem free_eq_some (h : t.free = some i) : t i = none := by
  simpa using List.find?_some h

omit [DecidableEq K] in
theorem free_eq_none (h : t.free = none) (i : Fin n) : ∃ k v, t i = some (k, v) := by
  have hfull := List.find?_eq_none.mp h i (List.mem_finRange i)
  cases hslot : t i with
  | none => simp [hslot] at hfull
  | some e => exact ⟨e.1, e.2, rfl⟩

theorem Within.find_of_slot (h : Within keys t) (hslot : t i = some (k, v)) :
    t.find k = some (i, v) := by
  cases hfind : t.find k with
  | none => exact absurd hslot (find_eq_none hfind i v)
  | some e =>
    obtain ⟨j, w⟩ := e
    have hj := find_eq_some hfind
    obtain rfl := h.unique hslot hj
    obtain rfl : v = w := by simpa [hslot] using hj
    rfl

theorem view_eq_of_find {e : Fin n × V} (h : t.find k = some e) : view w t k = e.2 := by
  rw [view, h]; rfl

theorem view_eq_of_none (h : t.find k = none) : view w t k = w := by rw [view, h]; rfl

/-- **A record is written** to its own key. -/
theorem view_put (h : Within keys (t.put i k v)) (hslot : t i = none ∨ ∃ u, t i = some (k, u)) :
    view w (t.put i k v) = update (view w t) k v := by
  funext l
  have hself : t.put i k v i = some (k, v) := by simp [put]
  rcases eq_or_ne l k with rfl | hne
  · rw [update_self, view_eq_of_find (h.find_of_slot hself)]
  rw [update_of_ne hne]
  -- the slot of another key is not the one written
  have hother : ∀ {j : Fin n} {u : V}, t j = some (l, u) ↔ t.put i k v j = some (l, u) := by
    intro j u
    rcases eq_or_ne j i with rfl | hji
    · refine ⟨fun hj => ?_, fun hj => ?_⟩
      · rcases hslot with hfree | ⟨u', hu'⟩
        · exact absurd (hfree.symm.trans hj) (by simp)
        · rw [hu', Option.some.injEq, Prod.mk.injEq] at hj
          exact absurd hj.1.symm hne
      · rw [hself, Option.some.injEq, Prod.mk.injEq] at hj
        exact absurd hj.1.symm hne
    · rw [put, update_of_ne hji]
  cases hfind : t.find l with
  | none =>
    have hnone : (t.put i k v).find l = none := by
      cases hput : (t.put i k v).find l with
      | none => rfl
      | some e => exact absurd (hother.mpr (find_eq_some hput)) (find_eq_none hfind _ _)
    rw [view_eq_of_none hfind, view_eq_of_none hnone]
  | some e =>
    rw [view_eq_of_find hfind, view_eq_of_find (h.find_of_slot (hother.mp (find_eq_some hfind)))]

theorem Within.put_free (h : Within keys t) (hk : k ∈ keys) (hfind : t.find k = none) :
    Within keys (t.put i k v) := by
  have hcases : ∀ {j : Fin n} {l : K} {u : V}, t.put i k v j = some (l, u) →
      (j = i ∧ l = k) ∨ (j ≠ i ∧ t j = some (l, u)) := by
    intro j l u hj
    rcases eq_or_ne j i with rfl | hji
    · rw [put, update_self, Option.some.injEq, Prod.mk.injEq] at hj
      exact .inl ⟨rfl, hj.1.symm⟩
    · rw [put, update_of_ne hji] at hj
      exact .inr ⟨hji, hj⟩
  refine ⟨fun hj => ?_, fun hj hj' => ?_⟩
  · rcases hcases hj with ⟨-, rfl⟩ | ⟨-, hold⟩
    · exact hk
    · exact h.mem hold
  · rcases hcases hj with ⟨rfl, rfl⟩ | ⟨-, hold⟩
    · rcases hcases hj' with ⟨rfl, -⟩ | ⟨-, hold'⟩
      · rfl
      · exact absurd hold' (find_eq_none hfind _ _)
    · rcases hcases hj' with ⟨-, rfl⟩ | ⟨-, hold'⟩
      · exact absurd hold (find_eq_none hfind _ _)
      · exact h.unique hold hold'

omit [DecidableEq K] in
/-- **A key writes its own slot.** -/
theorem Within.put (h : Within keys t) (hslot : t i = some (k, v)) :
    Within keys (t.put i k w) := by
  have hcases : ∀ {j : Fin n} {l : K} {u : V}, t.put i k w j = some (l, u) →
      ∃ u', t j = some (l, u') := by
    intro j l u hj
    rcases eq_or_ne j i with rfl | hji
    · rw [Slots.put, update_self, Option.some.injEq, Prod.mk.injEq] at hj
      exact ⟨v, by rw [hslot, hj.1]⟩
    · rw [Slots.put, update_of_ne hji] at hj
      exact ⟨u, hj⟩
  refine ⟨fun hj => ?_, fun hj hj' => ?_⟩
  · obtain ⟨u, hu⟩ := hcases hj
    exact h.mem hu
  · obtain ⟨u, hu⟩ := hcases hj
    obtain ⟨u', hu'⟩ := hcases hj'
    exact h.unique hu hu'

/-- With at most `n` keys there is a free slot for a key that has none: the others fill at most
`n - 1` of them. -/
theorem Within.exists_free (h : Within keys t) (hk : k ∈ keys) (hcard : keys.card ≤ n)
    (hfind : t.find k = none) : ∃ i, t.free = some i := by
  rw [← Option.ne_none_iff_exists']
  intro hfull
  choose owner hrec hslot using free_eq_none hfull
  have hinj : Function.Injective owner := fun i j hij => by
    have hj := hslot j
    rw [← hij] at hj
    exact h.unique (hslot i) hj
  have hsub : insert k (Finset.univ.image owner) ⊆ keys := by
    refine Finset.insert_subset hk fun l hl => ?_
    obtain ⟨i, -, rfl⟩ := Finset.mem_image.mp hl
    exact h.mem (hslot i)
  have hnot : k ∉ Finset.univ.image owner := fun hmem => by
    obtain ⟨i, -, rfl⟩ := Finset.mem_image.mp hmem
    exact find_eq_none hfind i _ (hslot i)
  have hle := Finset.card_le_card hsub
  rw [Finset.card_insert_of_notMem hnot, Finset.card_image_of_injective _ hinj, Finset.card_univ,
    Fintype.card_fin] at hle
  omega

/-- **A claim among at most `n` keys** finds the key's record and changes nobody's. -/
theorem Within.claim (h : Within keys t) (hk : k ∈ keys) (hcard : keys.card ≤ n) :
    ∃ i t', t.claim k w = (some (i, view w t k), t') ∧ t' i = some (k, view w t k) ∧
      view w t' = view w t ∧ Within keys t' := by
  cases hfind : t.find k with
  | some e =>
    obtain ⟨i, v⟩ := e
    rw [view_eq_of_find hfind]
    exact ⟨i, t, by rw [Slots.claim, hfind], find_eq_some hfind, rfl, h⟩
  | none =>
    obtain ⟨i, hi⟩ := h.exists_free hk hcard hfind
    have hput := h.put_free (i := i) (v := w) hk hfind
    rw [view_eq_of_none hfind]
    refine ⟨i, t.put i k w, ?_, update_self i _ t, ?_, hput⟩
    · rw [Slots.claim, hfind]
      simp only [hi]
    · rw [view_put hput (.inl (free_eq_some hi)), update_eq_self_iff,
        view_eq_of_none hfind]

omit [DecidableEq K] in
theorem within_empty : Within keys (fun _ => none : Slots n K V) :=
  ⟨fun h => by simp at h, fun h => by simp at h⟩

theorem view_empty : view w (fun _ => none : Slots n K V) = fun _ => w := by
  funext k
  refine view_eq_of_none ?_
  rw [find, List.findSome?_eq_none_iff]
  exact fun i _ => rfl

end Slots

/-! ## Answers from one's own record -/

section Isolation

variable {S C R : Type*} {step : S → K → C → R × S} {own : V → C → R × V} {view : S → K → V}
  {ok : S → Prop} {keys : Finset K}

/-- The answers to a sequence of calls, each with its caller. -/
def answers (step : S → K → C → R × S) : S → List (K × C) → List (K × R)
  | _, [] => []
  | s, (k, c) :: calls => (k, (step s k c).1) :: answers step (step s k c).2 calls

/-- The state they end in. -/
def endState (step : S → K → C → R × S) : S → List (K × C) → S
  | s, [] => s
  | s, (k, c) :: calls => endState step (step s k c).2 calls

/-- What one record answers, call after call. -/
def ownAnswers (own : V → C → R × V) : V → List C → List R
  | _, [] => []
  | v, c :: cs => (own v c).1 :: ownAnswers own (own v c).2 cs

/-- The record they leave. -/
def ownEnd (own : V → C → R × V) (v : V) (cs : List C) : V := cs.foldl (fun v c => (own v c).2) v

/-- What `k` called, or was answered. -/
def ofKey {α : Type*} (k : K) (l : List (K × α)) : List α := (l.filter (·.1 = k)).map (·.2)

theorem ofKey_cons_self {α : Type*} (k : K) (a : α) (l : List (K × α)) :
    ofKey k ((k, a) :: l) = a :: ofKey k l := by
  simp [ofKey]

theorem ofKey_cons_of_ne {α : Type*} {k l : K} (h : l ≠ k) (a : α) (as : List (K × α)) :
    ofKey k ((l, a) :: as) = ofKey k as := by
  simp [ofKey, h]

theorem ofKey_filter {α : Type*} (k : K) (l : List (K × α)) :
    ofKey k (l.filter (·.1 = k)) = ofKey k l := by
  simp [ofKey, List.filter_filter]

/-- Each call of a key among `keys` is answered from the key's record and changes no other. -/
structure Isolates (step : S → K → C → R × S) (own : V → C → R × V) (view : S → K → V)
    (ok : S → Prop) (keys : Finset K) : Prop where
  step : ∀ {s : S} {k : K} (c : C), ok s → k ∈ keys → ok (step s k c).2 ∧
    (step s k c).1 = (own (view s k) c).1 ∧
    view (step s k c).2 = update (view s) k (own (view s k) c).2

namespace Isolates

/-- **Every key is answered from its own record**, whatever the others call. -/
theorem ofKey_answers (h : Isolates step own view ok keys) {s : S} (hs : ok s)
    {calls : List (K × C)} (hcalls : ∀ c ∈ calls, c.1 ∈ keys) (k : K) :
    ofKey k (answers step s calls) = ownAnswers own (view s k) (ofKey k calls) := by
  induction calls generalizing s with
  | nil => rfl
  | cons call calls ih =>
    obtain ⟨l, c⟩ := call
    rw [List.forall_mem_cons] at hcalls
    obtain ⟨hok, hanswer, hview⟩ := h.step c hs hcalls.1
    rw [answers]
    rcases eq_or_ne l k with rfl | hne
    · rw [ofKey_cons_self, ofKey_cons_self, ownAnswers, ih hok hcalls.2, hanswer, hview,
        update_self]
    · rw [ofKey_cons_of_ne hne, ofKey_cons_of_ne hne, ih hok hcalls.2, hview,
        update_of_ne hne.symm]

theorem view_endState (h : Isolates step own view ok keys) {s : S} (hs : ok s)
    {calls : List (K × C)} (hcalls : ∀ c ∈ calls, c.1 ∈ keys) (k : K) :
    ok (endState step s calls) ∧
      view (endState step s calls) k = ownEnd own (view s k) (ofKey k calls) := by
  induction calls generalizing s with
  | nil => exact ⟨hs, rfl⟩
  | cons call calls ih =>
    obtain ⟨l, c⟩ := call
    rw [List.forall_mem_cons] at hcalls
    obtain ⟨hok, -, hview⟩ := h.step c hs hcalls.1
    obtain ⟨hend, hrec⟩ := ih hok hcalls.2
    refine ⟨hend, ?_⟩
    rw [endState, hrec, hview]
    rcases eq_or_ne l k with rfl | hne
    · rw [update_self, ofKey_cons_self]; rfl
    · rw [update_of_ne hne.symm, ofKey_cons_of_ne hne]

/-- **The others might as well not be there.** -/
theorem answers_filter (h : Isolates step own view ok keys) {s : S} (hs : ok s)
    {calls : List (K × C)} (hcalls : ∀ c ∈ calls, c.1 ∈ keys) (k : K) :
    ofKey k (answers step s calls) = ofKey k (answers step s (calls.filter (·.1 = k))) := by
  rw [h.ofKey_answers hs hcalls, h.ofKey_answers hs fun c hc => hcalls c (List.mem_of_mem_filter hc),
    ofKey_filter]

end Isolates

end Isolation

end Machinery
