import KlaussRuntime.Httpd.Effects

/-!
# Httpd/Confinement — no request leaves the document root

Every path `httpd_serve` hands to the file system is `/SD:` and the target's path decoded once, whole,
without its trailing slash, or the index.html in it; none has two dots in a row, and no array is too
small for what is written to it (`httpdServe_confined`).
-/

namespace KlaussRuntime.Httpd

open Machinery

/-- Without one trailing slash. -/
def trimSlash (url : List Byte) : List Byte :=
  if url.getLast? = some 0x2f then url.dropLast else url

/-- What an event may be when the decoded path is `url`. -/
def Event.InRoot (url : List Byte) : Event → Prop
  | .fill b bytes => bytes.length ≤ b.size
  | .stat p | .openFile p | .openDir p =>
    (p = docRoot ++ trimSlash url ∨ p = docRoot ++ trimSlash url ++ ascii "/index.html") ∧
      docRoot <+: p ∧ ¬ ascii ".." <:+: p

variable {a b url p : List Byte} {d : Byte}

theorem twice_infix_append (h : [d, d] <:+: a ++ b) :
    [d, d] <:+: a ∨ [d, d] <:+: b ∨ (a.getLast? = some d ∧ b.head? = some d) := by
  induction a with
  | nil => exact .inr (.inl h)
  | cons x a ih =>
    rw [List.cons_append, List.infix_cons_iff] at h
    rcases h with hpre | hin
    · -- at the front: inside `a`, or across the seam when `a` has ended
      obtain ⟨rfl, hnext⟩ := List.cons_prefix_cons.mp hpre
      cases a with
      | nil =>
        obtain ⟨t, ht⟩ := hnext
        exact .inr (.inr ⟨rfl, by rw [← List.nil_append b, ← ht]; rfl⟩)
      | cons y a =>
        obtain ⟨rfl, -⟩ := List.cons_prefix_cons.mp hnext
        exact .inl (List.IsPrefix.isInfix ⟨a, rfl⟩)
    · rcases ih hin with h₁ | h₂ | ⟨hlast, hhead⟩
      · exact .inl (List.infix_cons h₁)
      · exact .inr (.inl h₂)
      · refine .inr (.inr ⟨?_, hhead⟩)
        rw [List.getLast?_cons, hlast]
        rfl

theorem trimSlash_isPrefixOf (url : List Byte) : trimSlash url <+: url := by
  rw [trimSlash]
  split
  · exact List.dropLast_prefix url
  · exact List.prefix_refl url

theorem pathUnder_eq (hne : url ≠ []) : pathUnder url = docRoot ++ trimSlash url := by
  have hlen : (docRoot ++ url).length > docRoot.length := by
    rw [List.length_append]
    exact Nat.lt_add_of_pos_right (List.length_pos_iff.mpr hne)
  simp only [pathUnder, dropSlash, trimSlash, List.getLast?_append_of_ne_nil _ hne, and_iff_right hlen]
  split
  · exact List.dropLast_append_of_ne_nil hne
  · rfl

/-- **A path a request reaches lies under the root.** -/
theorem inRoot_of_reachable (h : Reachable url p) :
    (p = docRoot ++ trimSlash url ∨ p = docRoot ++ trimSlash url ++ ascii "/index.html") ∧
      docRoot <+: p ∧ ¬ ascii ".." <:+: p := by
  obtain ⟨hgood, hp⟩ := h
  simp only [badPath, Bool.or_eq_false_iff, bne_eq_false_iff_eq, Option.isSome_eq_false_iff,
    Option.isNone_iff_eq_none, strstr_eq_none_iff] at hgood
  have hne : url ≠ [] := by
    rintro rfl
    cases hgood.1
  rw [pathUnder_eq hne] at hp
  have hroot : ¬ ascii ".." <:+: docRoot ++ trimSlash url := fun hin => by
    rcases twice_infix_append hin with h₁ | h₂ | h₃
    · exact absurd h₁ (by decide)
    · exact hgood.2 (h₂.trans (trimSlash_isPrefixOf url).isInfix)
    · exact absurd h₃.1 (by decide)
  refine ⟨hp, ?_, ?_⟩
  · rcases hp with rfl | rfl
    · exact List.prefix_append _ _
    · exact (List.prefix_append _ _).trans (List.prefix_append _ _)
  · rcases hp with rfl | rfl
    · exact hroot
    · intro hin
      rcases twice_infix_append hin with h₁ | h₂ | h₃
      · exact hroot h₁
      · exact absurd h₂ (by decide)
      · exact absurd h₃.2 (by decide)

theorem Event.Confined.inRoot {e : Event} (h : e.Confined (Reachable url)) : e.InRoot url := by
  cases e with
  | fill b bytes => exact h
  | stat p | openFile p | openDir p => exact inRoot_of_reachable h

/-- **Path confinement**: every event of a call belongs to a request with a request line in the one
read, and is a path under the root, made from its target, or a buffer filled no further than its
end. -/
theorem httpdServe_confined (env : Env) (c : Conn) :
    ∃ evs, (httpdServe env c).2.events = c.events ++ evs ∧ ∀ e ∈ evs, ∃ method raw version,
      cstr (c.inlet.recv (reqMax - 1)).1 = method ++ 0x20 :: (raw ++ 0x20 :: version) ∧
      0x20 ∉ method ∧ 0x20 ∉ raw ∧ e.InRoot (cstr (percentDecode (pathOf raw))) := by
  cases hline : c.line? with
  | none =>
    refine ⟨[], ?_, by simp⟩
    rw [(httpdServe_of_none env hline).2, List.append_nil]
  | some line =>
    obtain ⟨evs, -, hevs, ⟨o, ho, -⟩, -⟩ := httpdServe_settles env hline
    obtain ⟨hsplit, -⟩ := Option.filter_eq_some_iff.mp hline
    obtain ⟨hreq, hmethod, hurl⟩ := splitLine_eq_some hsplit
    refine ⟨evs, ?_, fun e he => ⟨line.method, line.url, line.version, hreq, hmethod, hurl,
      (hevs e he).inRoot⟩⟩
    rw [ho]
    exact Conn.settled_events ..

end KlaussRuntime.Httpd
