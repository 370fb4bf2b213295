import KlaussRuntime.Webapi.Routes

/-!
# Webapi/Invariant — slots, registrations and pins

A slot stays with its registration as long as a thread has a pin on it: unregistering takes the handler
out first, so no pin is added, and frees the slot only after the last one is gone.  `Sys.Ok` says so,
together with what `inflight` counts, and that a slot without a handler has one thread that tears it
down; every step keeps it as long as no route is torn down twice (`Sys.Ok.step`).
-/

namespace KlaussRuntime.Webapi

open Machinery Function

variable {T H : Type} [DecidableEq T] {s s' : Sys T H} {tb tb' : Table H} {t u : T} {i j : Slot}
  {ph : Phase H} {name url : List Byte}

/-! ## The table on its own -/

theorem Table.routes_setRoute_self (tb : Table H) (i : Slot) (r : Route H) :
    (tb.setRoute i r).routes i = r := update_self ..

theorem Table.routes_setRoute_of_ne (tb : Table H) (r : Route H) (h : j ≠ i) :
    (tb.setRoute i r).routes j = tb.routes j := update_of_ne h ..

theorem Table.routes_occupy_self (tb : Table H) (i : Slot) (name : List Byte) (fn : H) :
    (tb.occupy i name fn).routes i = ⟨name, some fn, 0, tb.log.length⟩ :=
  tb.routes_setRoute_self i _

theorem Table.routes_occupy_of_ne (tb : Table H) (name : List Byte) (fn : H) (h : j ≠ i) :
    (tb.occupy i name fn).routes j = tb.routes j := tb.routes_setRoute_of_ne _ h

theorem Table.routes_free_self (tb : Table H) (i : Slot) :
    (tb.free i).routes i = { tb.routes i with name := [] } := tb.routes_setRoute_self i _

theorem Table.routes_free_of_ne (tb : Table H) (h : j ≠ i) : (tb.free i).routes j = tb.routes j :=
  tb.routes_setRoute_of_ne _ h

/-- Prefixes tell occupied slots apart, a route with a handler is occupied, and an occupied slot is that
of a logged registration, with its handler or none. -/
structure Table.Ok (tb : Table H) : Prop where
  distinct : ∀ i j, (tb.routes i).name ≠ [] → (tb.routes i).name = (tb.routes j).name → i = j
  live : ∀ i, (tb.routes i).fn ≠ none → (tb.routes i).name ≠ []
  logged : ∀ i, (tb.routes i).name ≠ [] → ∃ fn,
    tb.log[(tb.routes i).reg]? = some ((tb.routes i).name, fn) ∧
      ((tb.routes i).fn = some fn ∨ (tb.routes i).fn = none)

/-- The slots are with the same registrations, and no handler is new. -/
structure Table.Keeps (tb tb' : Table H) : Prop where
  log : tb'.log = tb.log
  name : ∀ i, (tb'.routes i).name = (tb.routes i).name
  reg : ∀ i, (tb'.routes i).reg = (tb.routes i).reg
  fn : ∀ i, (tb'.routes i).fn = (tb.routes i).fn ∨ (tb'.routes i).fn = none

theorem Table.keeps_setRoute (tb : Table H) (i : Slot) (r : Route H) (hname : r.name = (tb.routes i).name)
    (hreg : r.reg = (tb.routes i).reg) (hfn : r.fn = (tb.routes i).fn ∨ r.fn = none) :
    tb.Keeps (tb.setRoute i r) := by
  have hat (j : Slot) : j = i ∧ (tb.setRoute i r).routes j = r ∨
      (tb.setRoute i r).routes j = tb.routes j := by
    by_cases hj : j = i
    · exact .inl ⟨hj, by rw [hj, routes_setRoute_self]⟩
    · exact .inr (tb.routes_setRoute_of_ne r hj)
  refine ⟨rfl, fun j => ?_, fun j => ?_, fun j => ?_⟩
  · rcases hat j with ⟨rfl, hr⟩ | hr <;> rw [hr]
    exact hname
  · rcases hat j with ⟨rfl, hr⟩ | hr <;> rw [hr]
    exact hreg
  · rcases hat j with ⟨rfl, hr⟩ | hr <;> rw [hr]
    · exact hfn
    · exact .inl rfl

theorem Table.Ok.keeps (h : tb.Ok) (hk : tb.Keeps tb') : tb'.Ok := by
  refine ⟨fun i j => ?_, fun i hfn => ?_, fun i => ?_⟩
  · rw [hk.name i, hk.name j]
    exact h.distinct i j
  · rw [hk.name i]
    rcases hk.fn i with hsame | hnone
    · exact h.live i (hsame ▸ hfn)
    · exact absurd hnone hfn
  · rw [hk.name i, hk.reg i, hk.log]
    intro hi
    obtain ⟨fn, hlog, hfn⟩ := h.logged i hi
    exact ⟨fn, hlog, (hk.fn i).elim (fun hsame => hsame ▸ hfn) .inr⟩

theorem Table.getElem?_log_occupy {reg : ℕ} {e : List Byte × H} (i : Slot) (name : List Byte) (fn : H)
    (h : tb.log[reg]? = some e) : (tb.occupy i name fn).log[reg]? = some e :=
  (List.getElem?_append_left (List.getElem?_eq_some_iff.mp h).1).trans h

theorem Table.Ok.occupy (h : tb.Ok) (hne : name ≠ []) (hnone : tb.slotOf name = none) (i : Slot)
    (fn : H) : (tb.occupy i name fn).Ok := by
  have hoff {j : Slot} (hj : j ≠ i) := tb.routes_occupy_of_ne name fn hj
  -- no other slot has this prefix
  have hnew {j : Slot} (hj : j ≠ i) : ((tb.occupy i name fn).routes j).name ≠ name := fun heq =>
    Table.slotOf_eq_none hnone j (by rw [hoff hj] at heq; rwa [heq]) (by rw [← hoff hj, heq])
  refine ⟨fun j k hj hjk => ?_, fun j hfn => ?_, fun j hj => ?_⟩
  · by_cases hji : j = i
    · by_cases hki : k = i
      · rw [hji, hki]
      · rw [hji, routes_occupy_self] at hjk
        exact absurd hjk.symm (hnew hki)
    · by_cases hki : k = i
      · rw [hki, routes_occupy_self] at hjk
        exact absurd hjk (hnew hji)
      · rw [hoff hji] at hj hjk
        rw [hoff hki] at hjk
        exact h.distinct j k hj hjk
  · by_cases hji : j = i
    · rwa [hji, routes_occupy_self]
    · rw [hoff hji] at hfn ⊢
      exact h.live j hfn
  · by_cases hji : j = i
    · rw [hji, routes_occupy_self]
      exact ⟨fn, List.getElem?_concat_length, .inl rfl⟩
    · rw [hoff hji] at hj ⊢
      obtain ⟨fn', hlog, hfn⟩ := h.logged j hj
      exact ⟨fn', getElem?_log_occupy i name fn hlog, hfn⟩

theorem Table.Ok.free (h : tb.Ok) (hfn : (tb.routes i).fn = none) : (tb.free i).Ok := by
  have hname {j : Slot} (hj : ((tb.free i).routes j).name ≠ []) : j ≠ i := by
    rintro rfl
    exact hj (by rw [routes_free_self])
  refine ⟨fun j k hj hjk => ?_, fun j hlive => ?_, fun j hj => ?_⟩
  · have hji := hname hj
    have hki := hname (hjk ▸ hj)
    rw [tb.routes_free_of_ne hji] at hj hjk
    rw [tb.routes_free_of_ne hki] at hjk
    exact h.distinct j k hj hjk
  · have hji : j ≠ i := by
      rintro rfl
      rw [routes_free_self] at hlive
      exact hlive hfn
    rw [tb.routes_free_of_ne hji] at hlive ⊢
    exact h.live j hlive
  · have hji := hname hj
    rw [tb.routes_free_of_ne hji] at hj ⊢
    exact h.logged j hj

theorem Table.Keeps.refl (tb : Table H) : tb.Keeps tb :=
  ⟨rfl, fun _ => rfl, fun _ => rfl, fun _ => .inl rfl⟩

theorem Table.keeps_pin (tb : Table H) (i : Slot) : tb.Keeps (tb.pin i) :=
  tb.keeps_setRoute i _ rfl rfl (.inl rfl)

theorem Table.keeps_unpin (tb : Table H) (i : Slot) : tb.Keeps (tb.unpin i) :=
  tb.keeps_setRoute i _ rfl rfl (.inl rfl)

theorem Table.keeps_retire (tb : Table H) (i : Slot) : tb.Keeps (tb.retire i) := by
  obtain ⟨-, hname, hreg, hfn⟩ :=
    tb.keeps_setRoute i { tb.routes i with fn := none } rfl rfl (.inr rfl)
  exact ⟨rfl, hname, hreg, hfn⟩

/-- What a change to one slot leaves as it was, it leaves in every slot. -/
theorem Table.proj_setRoute {B : Type} (f : Route H → B) (tb : Table H) {r : Route H}
    (hr : f r = f (tb.routes i)) (j : Slot) : f ((tb.setRoute i r).routes j) = f (tb.routes j) := by
  by_cases hj : j = i
  · rw [hj, routes_setRoute_self, hr]
  · rw [tb.routes_setRoute_of_ne r hj]

theorem Table.fn_pin (tb : Table H) (i j : Slot) : ((tb.pin i).routes j).fn = (tb.routes j).fn :=
  tb.proj_setRoute Route.fn (r := { tb.routes i with inflight := (tb.routes i).inflight + 1 }) rfl j

theorem Table.fn_unpin (tb : Table H) (i j : Slot) : ((tb.unpin i).routes j).fn = (tb.routes j).fn :=
  tb.proj_setRoute Route.fn (r := { tb.routes i with inflight := (tb.routes i).inflight - 1 }) rfl j

theorem Table.fn_free (tb : Table H) (i j : Slot) : ((tb.free i).routes j).fn = (tb.routes j).fn :=
  tb.proj_setRoute Route.fn (r := { tb.routes i with name := [] }) rfl j

theorem Table.inflight_retire (tb : Table H) (i j : Slot) :
    ((tb.retire i).routes j).inflight = (tb.routes j).inflight :=
  tb.proj_setRoute Route.inflight (r := { tb.routes i with fn := none }) rfl j

theorem Table.inflight_free (tb : Table H) (i j : Slot) :
    ((tb.free i).routes j).inflight = (tb.routes j).inflight :=
  tb.proj_setRoute Route.inflight (r := { tb.routes i with name := [] }) rfl j

theorem Table.inflight_setRoute (tb : Table H) (i j : Slot) (d : ℤ) :
    ((tb.setRoute i { tb.routes i with inflight := (tb.routes i).inflight + d }).routes j).inflight
      = (tb.routes j).inflight + if i = j then d else 0 := by
  by_cases hj : j = i
  · rw [hj, if_pos rfl, routes_setRoute_self]
  · rw [if_neg (Ne.symm hj), add_zero, tb.routes_setRoute_of_ne _ hj]

/-! ## The system -/

/-- The slot is with this registration. -/
def Table.IsWith (tb : Table H) (i : Slot) (reg : ℕ) : Prop :=
  (tb.routes i).name ≠ [] ∧ (tb.routes i).reg = reg

/-- The slot is being torn down. -/
def Table.IsTorn (tb : Table H) (name : List Byte) (i : Slot) : Prop :=
  (tb.routes i).name = name ∧ name ≠ [] ∧ (tb.routes i).fn = none

theorem Table.Keeps.isWith (hk : tb.Keeps tb') {reg : ℕ} (h : tb.IsWith i reg) : tb'.IsWith i reg := by
  rwa [IsWith, hk.name, hk.reg]

theorem Table.Keeps.isTorn (hk : tb.Keeps tb') (h : tb.IsTorn name i) : tb'.IsTorn name i := by
  obtain ⟨hname, hne, hfn⟩ := h
  refine ⟨(hk.name i).trans hname, hne, ?_⟩
  rcases hk.fn i with hsame | hnone
  · rw [hsame, hfn]
  · exact hnone

/-- **The invariant**: a pinned slot is with the registration it was pinned for, `inflight` counts the
pins, and a slot whose handler is taken out has one thread that tears it down. -/
structure Sys.Ok [Fintype T] (s : Sys T H) : Prop where
  table : s.table.Ok
  held : ∀ t i reg, (s.phase t).pin = some (i, reg) → s.table.IsWith i reg
  calls : ∀ t reg fn, (s.phase t).call = some (reg, fn) → ∃ name, s.table.log[reg]? = some (name, fn)
  inflight : ∀ i, (s.table.routes i).inflight = count (Phase.pins i) s.phase
  torn : ∀ t name i, (s.phase t).unregistering = some (name, i) → s.table.IsTorn name i
  ended : ∀ t name i, s.phase t = .drained name i → (s.table.routes i).inflight = 0
  alone : ∀ t u name name' i, (s.phase t).unregistering = some (name, i) →
    (s.phase u).unregistering = some (name', i) → t = u
  busy : ∀ i, (s.table.routes i).name ≠ [] → (s.table.routes i).fn = none →
    ∃ t name, (s.phase t).unregistering = some (name, i)

/-- What holds of the thread that moves and of those that stay. -/
theorem Sys.forall_after (s : Sys T H) (tb : Table H) (t : T) (ph : Phase H)
    {P : T → Phase H → Prop} (ht : P t ph) (hrest : ∀ u ≠ t, P u (s.phase u)) (u : T) :
    P u ((s.after tb t ph).phase u) :=
  (forall_update_iff s.phase P).mpr ⟨ht, hrest⟩ u

theorem Sys.phase_after_self (s : Sys T H) (tb : Table H) (t : T) (ph : Phase H) :
    (s.after tb t ph).phase t = ph := update_self ..

theorem Sys.phase_after_of_ne (s : Sys T H) (tb : Table H) (ph : Phase H) (h : u ≠ t) :
    (s.after tb t ph).phase u = s.phase u := update_of_ne h ..

variable [Fintype T]

omit [DecidableEq T] in
theorem Sys.start_ok : (Sys.start : Sys T H).Ok where
  table := ⟨by simp [start, Table.start], by simp [start, Table.start], by simp [start, Table.start]⟩
  held := by simp [start, Phase.pin]
  calls := by simp [start, Phase.call]
  inflight := by simp [start, Table.start, count, Phase.pins, Phase.pin]
  torn := by simp [start, Phase.unregistering]
  ended := by simp [start]
  alone := by simp [start, Phase.unregistering]
  busy := by simp [start, Table.start]

theorem Sys.Ok.alone_after (h : s.Ok) (tb : Table H)
    (hone : ∀ name i, ph.unregistering = some (name, i) → ∀ u ≠ t, ∀ name',
      (s.phase u).unregistering ≠ some (name', i)) (u v : T) (name name' : List Byte) (i : Slot) :
    ((s.after tb t ph).phase u).unregistering = some (name, i) →
      ((s.after tb t ph).phase v).unregistering = some (name', i) → u = v := by
  by_cases hu : u = t <;> by_cases hv : v = t
  · intro _ _
    rw [hu, hv]
  · rw [hu, s.phase_after_self, s.phase_after_of_ne tb ph hv]
    exact fun hph hother => absurd hother (hone name i hph v hv name')
  · rw [hv, s.phase_after_self, s.phase_after_of_ne tb ph hu]
    exact fun hother hph => absurd hother (hone name' i hph u hu name)
  · rw [s.phase_after_of_ne tb ph hu, s.phase_after_of_ne tb ph hv]
    exact h.alone u v name name' i

/-- **A thread moves** over a table whose slots stay with their registrations. -/
theorem Sys.Ok.after (h : s.Ok) (hk : s.table.Keeps tb')
    (hheld : ∀ i reg, ph.pin = some (i, reg) → s.table.IsWith i reg)
    (hcalls : ∀ reg fn, ph.call = some (reg, fn) → ∃ name, s.table.log[reg]? = some (name, fn))
    (hin : ∀ i, (tb'.routes i).inflight + (if (s.phase t).pins i then 1 else 0)
      = (s.table.routes i).inflight + if ph.pins i then 1 else 0)
    (htorn : ∀ name i, ph.unregistering = some (name, i) → tb'.IsTorn name i)
    (hended : ∀ name i, ph = .drained name i → (tb'.routes i).inflight = 0)
    (hstay : ∀ u ≠ t, ∀ name i, s.phase u = .drained name i → (tb'.routes i).inflight = 0)
    (hone : ∀ name i, ph.unregistering = some (name, i) → ∀ u ≠ t, ∀ name',
      (s.phase u).unregistering ≠ some (name', i))
    (hfn : ∀ i, (tb'.routes i).fn = none → (s.table.routes i).fn = none ∨
      ∃ name, ph.unregistering = some (name, i))
    (hun : (s.phase t).unregistering = none ∨ ph.unregistering = (s.phase t).unregistering) :
    (s.after tb' t ph).Ok where
  table := h.table.keeps hk
  held := s.forall_after tb' t ph (P := fun _ ph => ∀ i reg, ph.pin = some (i, reg) → tb'.IsWith i reg)
    (fun i reg hp => hk.isWith (hheld i reg hp)) fun u _ i reg hp => hk.isWith (h.held u i reg hp)
  calls := s.forall_after tb' t ph
    (P := fun _ ph => ∀ reg fn, ph.call = some (reg, fn) → ∃ name, tb'.log[reg]? = some (name, fn))
    (hk.log ▸ hcalls) fun u _ => hk.log ▸ h.calls u
  inflight i := by
    have hcount := count_update (Phase.pins i) s.phase t ph
    have hold := h.inflight i
    have hnew := hin i
    change (tb'.routes i).inflight = (count (Phase.pins i) (update s.phase t ph) : ℤ)
    split_ifs at hcount hnew <;> omega
  torn := s.forall_after tb' t ph
    (P := fun _ ph => ∀ name i, ph.unregistering = some (name, i) → tb'.IsTorn name i)
    htorn fun u _ name i hu => hk.isTorn (h.torn u name i hu)
  ended := s.forall_after tb' t ph
    (P := fun _ ph => ∀ name i, ph = .drained name i → (tb'.routes i).inflight = 0) hended hstay
  alone := h.alone_after tb' hone
  busy i hname hnone := by
    rcases hfn i hnone with hold | ⟨name, hph⟩
    · obtain ⟨u, name, hu⟩ := h.busy i (hk.name i ▸ hname) hold
      refine ⟨u, name, ?_⟩
      by_cases hut : u = t
      · rw [hut, s.phase_after_self]
        rw [hut] at hu
        rcases hun with hnot | hsame
        · rw [hnot] at hu
          cases hu
        · rw [hsame, hu]
      · rw [s.phase_after_of_ne tb' ph hut, hu]
    · exact ⟨t, name, by rw [s.phase_after_self, hph]⟩

omit [DecidableEq T] in
theorem Sys.Ok.not_pins_of_drained (h : s.Ok) (hu : s.phase u = .drained name i) (t : T) :
    (s.phase t).pins i = false := by
  have hzero : (count (Phase.pins i) s.phase : ℤ) = 0 :=
    (h.inflight i).symm.trans (h.ended u name i hu)
  exact count_eq_zero_iff.mp (Nat.cast_eq_zero.mp hzero) t

/-! ## Each kind of step -/

/-- **A thread moves on** with the pin and the slot it has. -/
theorem Sys.Ok.move (h : s.Ok) (hpin : ph.pin = (s.phase t).pin)
    (hcall : ph.call = (s.phase t).call ∨ ph.call = none)
    (hun : ph.unregistering = (s.phase t).unregistering)
    (hended : ∀ name i, ph = .drained name i → (s.table.routes i).inflight = 0) :
    (s.move t ph).Ok := by
  refine h.after (Table.Keeps.refl _) (hpin ▸ h.held t) ?_ (fun i => ?_) (hun ▸ h.torn t) hended
    (fun u _ => h.ended u) ?_ (fun _ => .inl) (.inr hun)
  · rcases hcall with hsame | hnone
    · exact hsame ▸ h.calls t
    · rw [hnone]
      nofun
  · rw [Phase.pins, Phase.pins, hpin]
  · intro name i hph u hut name' hu
    exact hut (h.alone u t name' name i hu (hun ▸ hph))

/-- **A request is pinned** to a route that has a handler. -/
theorem Sys.Ok.pin (h : s.Ok) (ht : s.phase t = .dispatching url) {fn : H}
    (hfn : (s.table.routes i).fn = some fn) :
    (s.after (s.table.pin i) t (.pinned i (s.table.routes i).reg fn)).Ok := by
  have hinflight (j : Slot) : ((s.table.pin i).routes j).inflight
      = (s.table.routes j).inflight + if i = j then 1 else 0 := s.table.inflight_setRoute i j 1
  have hname := h.table.live i (by rw [hfn]; exact Option.some_ne_none fn)
  refine h.after (s.table.keeps_pin i) ?_ ?_ (fun j => ?_) nofun nofun ?_ nofun (fun j hj => .inl ?_)
    (.inl (by rw [ht]; rfl))
  · rintro j reg hj
    cases hj
    exact ⟨hname, rfl⟩
  · -- the handler in the slot is the one its registration was logged with
    rintro reg fn' hcall
    cases hcall
    obtain ⟨fn', hlog, hsame | hnone⟩ := h.table.logged i hname
    · obtain rfl := Option.some.inj (hfn.symm.trans hsame)
      exact ⟨_, hlog⟩
    · rw [hnone] at hfn
      cases hfn
  · rw [hinflight, ht]
    simp [Phase.pins, Phase.pin]
  · -- a drained slot has no handler
    intro u _ name j hu
    have htorn := h.torn u name j (by rw [hu]; rfl)
    rw [hinflight, if_neg, h.ended u name j hu, add_zero]
    rintro rfl
    rw [htorn.2.2] at hfn
    cases hfn
  · exact (s.table.fn_pin i j).symm.trans hj

/-- **A pin is given back.** -/
theorem Sys.Ok.unpin (h : s.Ok) {reg : ℕ} (ht : s.phase t = .leaving i reg) :
    (s.after (s.table.unpin i) t .idle).Ok := by
  have hinflight (j : Slot) : ((s.table.unpin i).routes j).inflight
      = (s.table.routes j).inflight + if i = j then -1 else 0 := s.table.inflight_setRoute i j (-1)
  refine h.after (s.table.keeps_unpin i) nofun nofun (fun j => ?_) nofun nofun ?_ nofun
    (fun j hj => .inl ?_) (.inl (by rw [ht]; rfl))
  · rw [hinflight, ht]
    by_cases hj : i = j <;> simp [Phase.pins, Phase.pin, hj]
  · -- a drained slot has no pin
    intro u _ name j hu
    rw [hinflight, if_neg, h.ended u name j hu, add_zero]
    rintro rfl
    have hnot := h.not_pins_of_drained hu t
    rw [ht] at hnot
    simp [Phase.pins, Phase.pin] at hnot
  · exact (s.table.fn_unpin i j).symm.trans hj

/-- **A route is retired** when it is not being torn down yet. -/
theorem Sys.Ok.retire (h : s.Ok) (ht : s.phase t = .idle) (hslot : s.table.slotOf name = some i)
    (hlive : (s.table.routes i).fn ≠ none) :
    (s.after (s.table.retire i) t (.draining name i)).Ok := by
  have hkeeps := s.table.keeps_retire i
  obtain ⟨hname, hne⟩ := Table.slotOf_eq_some hslot
  refine h.after hkeeps nofun nofun (fun j => ?_) ?_ nofun (fun u _ name j hu => ?_) ?_ (fun j hj => ?_)
    (.inl (by rw [ht]; rfl))
  · rw [Table.inflight_retire, ht]
    rfl
  · rintro name' j hj
    cases hj
    exact ⟨(hkeeps.name i).trans hname, hne, congrArg Route.fn (s.table.routes_setRoute_self i _)⟩
  · rw [Table.inflight_retire]
    exact h.ended u name j hu
  · rintro name' j hj u - name'' hu
    obtain ⟨-, rfl⟩ := Prod.mk.inj (Option.some.inj hj)
    exact hlive (h.torn u name'' i hu).2.2
  · by_cases hji : j = i
    · exact .inr ⟨name, by rw [hji]; rfl⟩
    · refine .inl (Eq.trans ?_ hj)
      exact congrArg Route.fn (s.table.routes_setRoute_of_ne _ hji).symm

/-- **A slot is freed** when its last pin is gone. -/
theorem Sys.Ok.free (h : s.Ok) (ht : s.phase t = .drained name i) :
    (s.after (s.table.free i) t .idle).Ok := by
  have htorn := h.torn t name i (by rw [ht]; rfl)
  have hoff {j : Slot} (hj : j ≠ i) := s.table.routes_free_of_ne hj
  -- nobody else tears this slot down
  have halone {u : T} (hu : u ≠ t) {name' : List Byte} {j : Slot}
      (hun : (s.phase u).unregistering = some (name', j)) : j ≠ i := by
    rintro rfl
    exact hu (h.alone u t name' name j hun (by rw [ht]; rfl))
  refine ⟨h.table.free htorn.2.2, ?_, ?_, fun j => ?_, ?_, ?_, h.alone_after _ nofun,
    fun j hj hnone => ?_⟩
  · refine s.forall_after _ t .idle
      (P := fun _ ph => ∀ j reg, ph.pin = some (j, reg) → (s.table.free i).IsWith j reg) nofun ?_
    intro u _ j reg hu
    have hj : j ≠ i := by
      rintro rfl
      have hpins := h.not_pins_of_drained ht u
      rw [Phase.pins, hu] at hpins
      simp at hpins
    rw [Table.IsWith, hoff hj]
    exact h.held u j reg hu
  · exact s.forall_after _ t .idle
      (P := fun _ ph => ∀ reg fn, ph.call = some (reg, fn) →
        ∃ name, s.table.log[reg]? = some (name, fn)) nofun fun u _ => h.calls u
  · have hcount := count_update (Phase.pins j) s.phase t .idle
    rw [ht] at hcount
    have hsame : count (Phase.pins j) (update s.phase t .idle) = count (Phase.pins j) s.phase :=
      hcount
    refine (s.table.inflight_free i j).trans ?_
    rw [h.inflight j, ← hsame]
    rfl
  · refine s.forall_after _ t .idle
      (P := fun _ ph => ∀ name j, ph.unregistering = some (name, j) →
        (s.table.free i).IsTorn name j) nofun ?_
    intro u hu name' j hun
    rw [Table.IsTorn, hoff (halone hu hun)]
    exact h.torn u name' j hun
  · refine s.forall_after _ t .idle
      (P := fun _ ph => ∀ name j, ph = .drained name j →
        ((s.table.free i).routes j).inflight = 0) nofun ?_
    intro u hu name' j hun
    rw [hoff (halone hu (by rw [hun]; rfl))]
    exact h.ended u name' j hun
  · have hji : j ≠ i := by
      rintro rfl
      exact hj (congrArg Route.name (s.table.routes_free_self j))
    rw [Sys.after, hoff hji] at hj hnone
    obtain ⟨u, name', hu⟩ := h.busy j hj hnone
    refine ⟨u, name', ?_⟩
    rw [s.phase_after_of_ne, hu]
    rintro rfl
    rw [ht] at hu
    exact hji (Prod.mk.inj (Option.some.inj hu)).2.symm

omit [DecidableEq T] in
/-- **A registration** takes a slot nobody has a pin on. -/
theorem Sys.Ok.occupy (h : s.Ok) (hfree : (s.table.routes i).name = []) (hne : name ≠ [])
    (hnone : s.table.slotOf name = none) (fn : H) :
    Sys.Ok ⟨s.table.occupy i name fn, s.phase⟩ := by
  have hoff {j : Slot} (hj : j ≠ i) := s.table.routes_occupy_of_ne name fn hj
  have hheld {t : T} {j : Slot} {reg : ℕ} (hp : (s.phase t).pin = some (j, reg)) : j ≠ i := by
    rintro rfl
    exact (h.held t j reg hp).1 hfree
  have htorn {t : T} {name : List Byte} {j : Slot}
      (hu : (s.phase t).unregistering = some (name, j)) : j ≠ i := by
    rintro rfl
    obtain ⟨hname, hne, -⟩ := h.torn t name j hu
    exact hne (hname.symm.trans hfree)
  refine ⟨h.table.occupy hne hnone i fn, fun t j reg hp => ?_, fun t reg fn' hcall => ?_, fun j => ?_,
    fun t name j hu => ?_, fun t name j hu => ?_, h.alone, fun j hj hfn => ?_⟩
  · rw [Table.IsWith, hoff (hheld hp)]
    exact h.held t j reg hp
  · obtain ⟨name', hlog⟩ := h.calls t reg fn' hcall
    exact ⟨name', Table.getElem?_log_occupy i name fn hlog⟩
  · by_cases hj : j = i
    · have hzero : count (Phase.pins i) s.phase = 0 := count_eq_zero_iff.mpr fun t => by
        rw [Phase.pins, Option.any_eq_false]
        rintro ⟨k, reg⟩ hp
        simpa using hheld hp
      rw [hj, Table.routes_occupy_self, hzero]
      rfl
    · rw [hoff hj]
      exact h.inflight j
  · rw [Table.IsTorn, hoff (htorn hu)]
    exact h.torn t name j hu
  · rw [hoff (htorn (by rw [hu]; rfl))]
    exact h.ended t name j hu
  · have hji : j ≠ i := by
      rintro rfl
      rw [Table.routes_occupy_self] at hfn
      cases hfn
    rw [hoff hji] at hj hfn
    exact h.busy j hj hfn

/-- **Every step keeps the invariant**, as long as no route is torn down twice. -/
theorem Sys.Ok.step {a : Act T H} (h : s.Ok) (hok : Fresh s a) (hs : step s a = some s') : s'.Ok := by
  cases effect_of_step hs with
  | stays => exact h
  | moves t ph hpin hcall hun hended => exact h.move hpin hcall hun hended
  | pins t url i fn ht hfn => exact h.pin ht hfn
  | unpins t i reg ht => exact h.unpin ht
  | occupies name fn i hne hnone hfree => exact h.occupy hfree hne hnone fn
  | retires t name i ht hslot => exact h.retire ht hslot (hok i hslot)
  | frees t name i ht => exact h.free ht

omit [DecidableEq T] in
theorem Sys.Ok.fresh {a : Act T H} (h : s.Ok) (hser : Serialised s a) : Fresh s a := by
  cases a with
  | unregister t arg =>
    rcases arg with _ | name
    · trivial
    · intro i hslot hnone
      obtain ⟨hname, hne⟩ := Table.slotOf_eq_some hslot
      obtain ⟨u, name', hu⟩ := h.busy i (hname ▸ hne) hnone
      rw [hser u] at hu
      cases hu
  | _ => trivial

theorem Sys.ok_of_serialised (h : Reaches step Serialised Sys.start s) : s.Ok :=
  h.invariant (fun hok hser hs => hok.step (hok.fresh hser) hs) Sys.start_ok

end KlaussRuntime.Webapi
