import KlaussRuntime.Webapi.Invariant

/-!
# Webapi/Unload — after `webapi_unregister` has returned

The owner of a handler unloads its code once `webapi_unregister` is back.  That is safe when calls of
`webapi_unregister` are serialised: no thread is in a handler that was registered under the prefix,
and none comes to be (`unregistered_idle`).  The argument is one fact about registrations: when the
call returns, no slot is with one of that prefix, and a registration no slot is with never comes
back (`Table.Gone.step`).
-/

namespace KlaussRuntime.Webapi

open Machinery

variable {T H : Type} [DecidableEq T] {s s' s'' : Sys T H} {tb tb' : Table H} {t : T} {i : Slot}
  {name url : List Byte} {a : Act T H} {reg : ℕ} {fn : H}

/-! ## Registrations that are over -/

/-- A registration there was, and that no slot is with. -/
def Table.Gone (tb : Table H) (reg : ℕ) : Prop := reg < tb.log.length ∧ ∀ i, ¬ tb.IsWith i reg

theorem Table.Keeps.gone (hk : tb.Keeps tb') (h : tb.Gone reg) : tb'.Gone reg := by
  refine ⟨by rw [hk.log]; exact h.1, fun i hi => h.2 i ?_⟩
  rwa [IsWith, hk.name, hk.reg] at hi

theorem Table.Gone.occupy (h : tb.Gone reg) (i : Slot) (name : List Byte) (fn : H) :
    (tb.occupy i name fn).Gone reg := by
  refine ⟨h.1.trans_le (List.length_append ▸ Nat.le_add_right ..), fun j hj => ?_⟩
  by_cases hji : j = i
  · have hat : (tb.occupy i name fn).routes i = _ := tb.routes_setRoute_self i _
    rw [IsWith, hji, hat] at hj
    exact h.1.ne' hj.2
  · have hoff : (tb.occupy i name fn).routes j = tb.routes j := tb.routes_setRoute_of_ne _ hji
    rw [IsWith, hoff] at hj
    exact h.2 j hj

theorem Table.isWith_free {j : Slot} : (tb.free i).IsWith j reg ↔ j ≠ i ∧ tb.IsWith j reg := by
  by_cases hji : j = i
  · have hat : ((tb.free i).routes i).name = [] := congrArg Route.name (tb.routes_setRoute_self i _)
    simp [IsWith, hji, hat]
  · have hoff : (tb.free i).routes j = tb.routes j := tb.routes_setRoute_of_ne _ hji
    simp [IsWith, hji, hoff]

/-- **What is over stays over.** -/
theorem Table.Gone.step (h : s.table.Gone reg) (hs : step s a = some s') : s'.table.Gone reg := by
  cases effect_of_step hs with
  | stays => exact h
  | moves => exact h
  | pins => exact (keeps_pin _ _).gone h
  | unpins => exact (keeps_unpin _ _).gone h
  | occupies name fn i => exact h.occupy i name fn
  | retires => exact (keeps_retire _ _).gone h
  | frees => exact ⟨h.1, fun j hj => h.2 j (isWith_free.mp hj).2⟩

variable [Fintype T]

/-- **When `webapi_unregister` returns**, every registration of its prefix is over. -/
theorem Sys.Ok.gone_of_returns (h : s.Ok) (hs : Webapi.step s a = some s') (hret : Returns name s a)
    (hlog : s'.table.log[reg]? = some (name, fn)) : s'.table.Gone reg := by
  refine ⟨(List.getElem?_eq_some_iff.mp hlog).1, fun j hj => ?_⟩
  -- a slot that is with the registration has its prefix
  have hname (hsame : s'.table.log = s.table.log) (hj : s.table.IsWith j reg) :
      (s.table.routes j).name = name := by
    obtain ⟨fn', hlog', -⟩ := h.table.logged j hj.1
    rw [hj.2, ← hsame, hlog] at hlog'
    exact (Prod.mk.inj (Option.some.inj hlog')).1.symm
  cases a with
  | unregister t arg =>
    obtain ⟨rfl, hnone⟩ := hret
    obtain rfl : s' = s := by
      simp only [Webapi.step, Sys.unregister, hnone] at hs
      split at hs
      · exact (Option.some.inj hs).symm
      · cases hs
    exact Table.slotOf_eq_none hnone j hj.1 (hname rfl hj)
  | free t =>
    obtain ⟨i, ht⟩ := hret
    simp only [Webapi.step, ht] at hs
    cases hs
    obtain ⟨hji, hwith⟩ := Table.isWith_free.mp hj
    have htorn := h.torn t name i (by rw [ht]; rfl)
    exact hji (h.table.distinct j i hwith.1 ((hname rfl hwith).trans htorn.1.symm))
  | _ => exact hret.elim

/-! ## Requests -/

/-- A live route for requests to this URL. -/
def Table.Serves (tb : Table H) (url : List Byte) (i : Slot) : Prop :=
  (tb.routes i).fn ≠ none ∧ (tb.routes i).name <+: url

/-- …with the longest prefix of all. -/
def Table.Longest (tb : Table H) (url : List Byte) (i : Slot) : Prop :=
  tb.Serves url i ∧ ∀ j, tb.Serves url j → (tb.routes j).name.length ≤ (tb.routes i).name.length

theorem Table.Ok.fits_iff (h : tb.Ok) : tb.fits url i = true ↔ tb.Serves url i := by
  simp only [fits, Serves, Bool.and_eq_true, decide_eq_true_iff, List.isPrefixOf_iff_prefix,
    Option.isSome_iff_ne_none]
  exact ⟨fun hfits => ⟨hfits.1.1, hfits.2⟩, fun hserves => ⟨⟨hserves.1, h.live i hserves.1⟩, hserves.2⟩⟩

/-- **The loop of `webapi_handle`** ends with the longest live route. -/
theorem Table.Ok.exists_best (h : tb.Ok) (hserves : tb.Serves url i) :
    ∃ j, tb.best url = some j ∧ tb.Longest url j := by
  have hpos : 0 < (tb.routes i).name.length := List.length_pos_iff.mpr (h.live i hserves.1)
  obtain ⟨j, hj⟩ : ∃ j, tb.best url = some j :=
    exists_bestOf (List.mem_finRange i) (h.fits_iff.mpr hserves) hpos
  obtain ⟨hfits, hmax⟩ := bestOf_eq_some hj
  exact ⟨j, hj, h.fits_iff.mp hfits,
    fun k hk => hmax k (List.mem_finRange k) (h.fits_iff.mpr hk)⟩

omit [Fintype T] in
/-- **A request is given to the longest live route.** -/
theorem Sys.dispatch_longest (h : s.table.Ok) (ht : s.phase t = .dispatching url)
    (hs : Webapi.step s (.dispatch t) = some s') (hserves : s.table.Serves url i) :
    ∃ j fn, s.table.Longest url j ∧ (s.table.routes j).fn = some fn ∧
      s'.phase t = .pinned j (s.table.routes j).reg fn := by
  obtain ⟨j, hbest, hlongest⟩ := h.exists_best hserves
  obtain ⟨fn, hfn⟩ := Option.ne_none_iff_exists'.mp hlongest.1.1
  refine ⟨j, fn, hlongest, hfn, ?_⟩
  simp only [Webapi.step, ht, dispatch, hbest, hfn] at hs
  cases hs
  exact Function.update_self ..

/-! ## Runs -/

/-- **A backend is idle once unregistered.**  In a run with serialised `webapi_unregister` calls: a
handler that a thread is in is one of the log; after a call has returned no thread has, and none will
have, a pin for a registration of its prefix; a request goes to the longest live route; and
`inflight` is the number of threads with a pin. -/
theorem unregistered_idle (h : Reaches step Serialised Sys.start s) :
    (∀ t i reg fn, s.phase t = .inside i reg fn → ∃ name, s.table.log[reg]? = some (name, fn)) ∧
    (∀ a s' name, step s a = some s' → Serialised s a → Returns name s a →
      ∀ s'', Reaches step Serialised s' s'' → ∀ reg fn, s'.table.log[reg]? = some (name, fn) →
        ∀ t i, (s''.phase t).pin ≠ some (i, reg)) ∧
    (∀ t url s' i, s.phase t = .dispatching url → step s (.dispatch t) = some s' →
      s.table.Serves url i → ∃ j fn, s.table.Longest url j ∧ (s.table.routes j).fn = some fn ∧
        s'.phase t = .pinned j (s.table.routes j).reg fn) ∧
    ∀ i, (s.table.routes i).inflight = count (Phase.pins i) s.phase := by
  have hok := Sys.ok_of_serialised h
  refine ⟨fun t i reg fn ht => hok.calls t reg fn (by rw [ht]; rfl), ?_,
    fun t url s' i ht hs => Sys.dispatch_longest hok.table ht hs, hok.inflight⟩
  intro a s' name hs hser hret s'' hrest reg fn hlog t i hpin
  have hgone : s''.table.Gone reg :=
    hrest.invariant (fun {s _ _} (hgone : s.table.Gone reg) _ hs => hgone.step hs)
      (hok.gone_of_returns hs hret hlog)
  exact hgone.2 i ((Sys.ok_of_serialised ((h.snoc hser hs).trans hrest)).held t i reg hpin)

/-- **A request is answered** by the backend of `/a/`, which is then unregistered. -/
theorem unregistered_idle_run :
    ∃ s s' : Sys Bool Unit, s.phase true = .drained [0x2f, 0x61, 0x2f] 0 ∧
      step s (.free true) = some s' ∧ s'.table.log = [([0x2f, 0x61, 0x2f], ())] ∧
      (s.table.routes 0).inflight = count (Phase.pins 0) s.phase ∧
      ∀ s'', Reaches step Serialised s' s'' → ∀ t i, (s''.phase t).pin ≠ some (i, 0) := by
  have hstart : Reaches step Serialised Sys.start (Sys.start : Sys Bool Unit) := Reaches.refl
  have hloaded := hstart.snoc (a := Act.register (some [0x2f, 0x61, 0x2f]) (some ())) trivial rfl
  have hasked := hloaded.snoc (a := Act.handle false [0x2f, 0x61, 0x2f, 0x62]) trivial rfl
  have hpinned := hasked.snoc (a := Act.dispatch false) trivial rfl
  have hinside := hpinned.snoc (a := Act.enter false) trivial rfl
  have hdone := (hinside.snoc (a := Act.leave false) trivial rfl).snoc
    (a := Act.unpin false) trivial rfl
  have hretired := hdone.snoc (a := Act.unregister true (some [0x2f, 0x61, 0x2f]))
    (fun t => by cases t <;> rfl) rfl
  have hdrained := hretired.snoc (a := Act.drain true) trivial rfl
  obtain ⟨-, hidle, -, hin⟩ := unregistered_idle hdrained
  exact ⟨_, _, rfl, rfl, rfl, hin 0, fun s'' h =>
    hidle (.free true) _ [0x2f, 0x61, 0x2f] rfl trivial ⟨0, rfl⟩ s'' h 0 () rfl⟩

end KlaussRuntime.Webapi
