import KlaussRuntime.Webapi.Invariant

/-!
# Webapi/Consistency — the table under any callers

`active_routes` is to count the routes with a handler, prefixes are to tell occupied slots apart, and
the second lock section of `webapi_unregister` is to clear the slot of its own prefix.  The first
section does not look whether the route it finds is being torn down already: a second call for the
prefix counts `active_routes` down once more and keeps the slot in hand while the first call frees it
(`routes_inconsistent`).  Nothing else goes wrong: a run stays consistent exactly as long as no call
does that (`routes_consistent_iff`).
-/

namespace KlaussRuntime.Webapi

open Machinery

variable {T H : Type} [DecidableEq T] {s s' : Sys T H} {tb tb' : Table H} {i : Slot} {a : Act T H}

/-- The number of routes with a handler. -/
def Table.live (tb : Table H) : ℕ := count (fun r : Route H => r.fn.isSome) tb.routes

/-- **Route table consistency.** -/
structure Consistent (s : Sys T H) : Prop where
  active : s.table.activeRoutes = s.table.live
  distinct : ∀ i j, (s.table.routes i).name ≠ [] → (s.table.routes i).name = (s.table.routes j).name →
    i = j
  /-- a slot that is about to be cleared has not been registered for another prefix -/
  cleared : ∀ t name i, s.phase t = .drained name i →
    (s.table.routes i).name = name ∨ (s.table.routes i).name = []

/-- **Writing one slot** changes the number of handlers by what was there and what is there. -/
theorem Table.live_setRoute (tb : Table H) (i : Slot) (r : Route H) :
    (tb.setRoute i r).live + (if (tb.routes i).fn.isSome then 1 else 0)
      = tb.live + if r.fn.isSome then 1 else 0 :=
  count_update (fun r : Route H => r.fn.isSome) tb.routes i r

theorem Table.live_congr (h : ∀ i, (tb'.routes i).fn = (tb.routes i).fn) : tb'.live = tb.live := by
  simp only [live, count, h]

/-- A slot is retired, and one route less has a handler if it had one. -/
theorem Table.live_retire (tb : Table H) (i : Slot) :
    (tb.retire i).live + (if (tb.routes i).fn.isSome then 1 else 0) = tb.live :=
  tb.live_setRoute i { tb.routes i with fn := none }

variable [Fintype T]

omit [DecidableEq T] [Fintype T] in
theorem Sys.active_start : (start : Sys T H).table.activeRoutes = (start : Sys T H).table.live := by
  simp [start, Table.start, Table.live, count]

/-- **Every step keeps the count**, as long as no route is torn down twice. -/
theorem Sys.Ok.active_step (h : s.Ok) (hactive : s.table.activeRoutes = s.table.live)
    (hok : Fresh s a) (hs : Webapi.step s a = some s') : s'.table.activeRoutes = s'.table.live := by
  cases effect_of_step hs with
  | stays => exact hactive
  | moves => exact hactive
  | pins t url i => exact hactive.trans (congrArg _ (Table.live_congr (s.table.fn_pin i)).symm)
  | unpins t i => exact hactive.trans (congrArg _ (Table.live_congr (s.table.fn_unpin i)).symm)
  | frees t name i => exact hactive.trans (congrArg _ (Table.live_congr (s.table.fn_free i)).symm)
  | occupies name fn i hne hnone hfree =>
    have hempty : (s.table.routes i).fn = none := not_not.mp fun hfn => h.table.live i hfn hfree
    have hlive := s.table.live_setRoute i ⟨name, some fn, 0, s.table.log.length⟩
    rw [hempty] at hlive
    change s.table.activeRoutes + 1 = (s.table.setRoute i _).live
    rw [hactive, ← Nat.cast_succ]
    exact congrArg _ hlive.symm
  | retires t name i ht hslot =>
    have hlive := s.table.live_retire i
    rw [if_pos (Option.isSome_iff_ne_none.mpr (hok i hslot))] at hlive
    change s.table.activeRoutes - 1 = (s.table.retire i).live
    omega

omit [Fintype T] in
/-- **A route torn down twice** is counted out twice. -/
theorem Sys.not_active_of_not_fresh (hactive : s.table.activeRoutes = s.table.live)
    (hok : ¬ Fresh s a) (hs : step s a = some s') : s'.table.activeRoutes ≠ s'.table.live := by
  cases a with
  | unregister t arg =>
    rcases arg with _ | name
    · exact absurd trivial hok
    · simp only [Fresh, not_forall, not_not] at hok
      obtain ⟨i, hslot, hnone⟩ := hok
      have hlive := s.table.live_retire i
      rw [hnone] at hlive
      simp only [step, Sys.unregister, hslot] at hs
      split at hs
      · cases hs
        change s.table.activeRoutes - 1 ≠ (s.table.retire i).live
        simp at hlive
        omega
      · cases hs
  | _ => exact absurd trivial hok

omit [DecidableEq T] in
theorem Sys.Ok.consistent (h : s.Ok) (hactive : s.table.activeRoutes = s.table.live) :
    Consistent s :=
  ⟨hactive, h.table.distinct, fun t name i ht => .inl (h.torn t name i (by rw [ht]; rfl)).1⟩

/-- **The route table stays consistent** exactly as long as no `webapi_unregister` finds a route that
is being torn down: a run without one is consistent throughout, and its next step is one of them or
leads to a consistent table. -/
theorem routes_consistent_iff (h : Reaches step Fresh Sys.start s) :
    Consistent s ∧ ∀ a s', step s a = some s' → (Consistent s' ↔ Fresh s a) := by
  obtain ⟨hok, hactive⟩ : s.Ok ∧ s.table.activeRoutes = s.table.live :=
    h.invariant (fun {s _ _} (hinv : s.Ok ∧ s.table.activeRoutes = s.table.live) hok hs =>
      ⟨hinv.1.step hok hs, hinv.1.active_step hinv.2 hok hs⟩) ⟨Sys.start_ok, Sys.active_start⟩
  refine ⟨hok.consistent hactive, fun a s' hs => ⟨fun hcons => ?_, fun hfresh => ?_⟩⟩
  · by_contra hnot
    exact Sys.not_active_of_not_fresh hactive hnot hs hcons.active
  · exact (hok.step hfresh hs).consistent (hok.active_step hactive hfresh hs)

/-- **One call after the other**: the backend of `/a/` is registered, unregistered and freed. -/
theorem routes_consistent_iff_run :
    ∃ s s' : Sys Bool Unit, s.phase true = .drained [0x2f, 0x61, 0x2f] 0 ∧
      step s (.free true) = some s' ∧ Consistent s ∧ Consistent s' := by
  have hstart : Reaches step Fresh Sys.start (Sys.start : Sys Bool Unit) := Reaches.refl
  have hloaded := hstart.snoc (a := Act.register (some [0x2f, 0x61, 0x2f]) (some ())) trivial rfl
  have hretired := hloaded.snoc (a := Act.unregister true (some [0x2f, 0x61, 0x2f]))
    (fun i hi => by cases hi; exact Option.some_ne_none ()) rfl
  have hdrained := hretired.snoc (a := Act.drain true) trivial rfl
  obtain ⟨hcons, hnext⟩ := routes_consistent_iff hdrained
  exact ⟨_, _, rfl, rfl, hcons, (hnext (.free true) _ rfl).mpr trivial⟩

/-- **Two threads unregister `/a/`**, and one of them is slow: when `/b/` has come into the slot,
`active_routes` is zero beside a route with a handler, and the slow thread is about to clear it. -/
theorem routes_inconsistent :
    ∃ s : Sys Bool Unit, Reaches step anyStep Sys.start s ∧ s.table.activeRoutes = 0 ∧
      (s.table.routes 0).fn = some () ∧ (s.table.routes 0).name = [0x2f, 0x62, 0x2f] ∧
      s.phase true = .drained [0x2f, 0x61, 0x2f] 0 ∧ ¬ Consistent s := by
  have hstart : Reaches step anyStep Sys.start (Sys.start : Sys Bool Unit) := Reaches.refl
  have hloaded := hstart.snoc (a := Act.register (some [0x2f, 0x61, 0x2f]) (some ())) trivial rfl
  have hfirst := hloaded.snoc (a := Act.unregister false (some [0x2f, 0x61, 0x2f])) trivial rfl
  have hsecond := hfirst.snoc (a := Act.unregister true (some [0x2f, 0x61, 0x2f])) trivial rfl
  have hdrained := (hsecond.snoc (a := Act.drain false) trivial rfl).snoc
    (a := Act.drain true) trivial rfl
  have hfreed := hdrained.snoc (a := Act.free false) trivial rfl
  have hother := hfreed.snoc (a := Act.register (some [0x2f, 0x62, 0x2f]) (some ())) trivial rfl
  refine ⟨_, hother, rfl, rfl, rfl, rfl, fun hcons => ?_⟩
  rcases hcons.cleared true [0x2f, 0x61, 0x2f] 0 rfl with hsame | hempty
  · exact absurd (show ([0x2f, 0x62, 0x2f] : List Byte) = [0x2f, 0x61, 0x2f] from hsame) (by decide)
  · exact List.cons_ne_nil (0x2f : Byte) [0x62, 0x2f] hempty

end KlaussRuntime.Webapi
