import MiniJava.Proofs.Typing.Expression

/-!
# Judging computations

A computation is judged by the rules if what it finds is harmless exactly for a well-typed part of
the program, and then everything it returns is recorded. A report that is full hides findings, so
the rules are concluded only from a report that is still open; without a limit it always is. Binding
two computations that are judged judges both parts, and marks made on the way change no judgment.
-/
namespace MiniJava.Typing

open ClassTable
open Check

/-- A computation over a table is right about a part of a program. -/
structure Judges {α : Type} (x : Found α) (always : α → Prop) (typed : Prop)
    (recorded : α → Prop) : Prop where
  always : always x.value
  clean : OnlyUninitialized x.findings ↔ typed
  recorded : typed → recorded x.value

/-- A computation of the body pass is right about a part of a program, in every state with the
declarations of a table. -/
structure Judged {α : Type} (t : ClassTable) (x : CheckM α) (always : α → Prop) (typed : Prop)
    (recorded : α → Prop) : Prop where
  same : ∀ st, SameDeclarations st.table t → SameDeclarations (x st).2.table t
  always : ∀ st, SameDeclarations st.table t → always (x st).1
  findings : ∀ st, SameDeclarations st.table t →
    ∃ fs, (x st).2.report = st.report.addAll fs ∧ (typed → OnlyUninitialized fs) ∧
      ((x st).2.report.Open → OnlyUninitialized fs → typed ∧ recorded (x st).1)

section Judged
variable {α β : Type} {t : ClassTable} {always : α → Prop} {typed typed' : Prop}
  {recorded : α → Prop}

theorem Judged.pure {a : α} (h : always a) (hr : recorded a) :
    Judged t (pure a) always True recorded :=
  ⟨fun _ same => same, fun _ _ => h,
    fun _ _ => ⟨[], rfl, fun _ => onlyUninitialized_nil, fun _ _ => ⟨trivial, hr⟩⟩⟩

theorem Judged.take {find : ClassTable → Found α}
    (h : ∀ u, SameDeclarations u t → Judges (find u) always typed recorded) :
    Judged t (take find) always typed recorded := by
  refine ⟨fun _ same => same, fun st same => (h st.table same).always, fun st same => ?_⟩
  have judges := h st.table same
  exact ⟨(find st.table).findings, rfl, judges.clean.mpr,
    fun _ clean => ⟨judges.clean.mp clean, judges.recorded (judges.clean.mp clean)⟩⟩

/-- A part after another one. -/
theorem Judged.bind {x : CheckM α} {f : α → CheckM β} {always' : β → Prop}
    {recorded' : α → β → Prop} (hx : Judged t x always typed recorded)
    (hf : ∀ a, always a → Judged t (f a) always' typed' (recorded' a)) :
    Judged t (x >>= f) always' (typed ∧ typed') fun b => ∃ a, recorded a ∧ recorded' a b := by
  refine ⟨?_, ?_, ?_⟩
  · intro st same
    exact (hf _ (hx.always st same)).same _ (hx.same st same)
  · intro st same
    exact (hf _ (hx.always st same)).always _ (hx.same st same)
  · intro st same
    obtain ⟨fs, hfs, onlyFirst, first⟩ := hx.findings st same
    obtain ⟨gs, hgs, onlyRest, rest⟩ := (hf _ (hx.always st same)).findings _ (hx.same st same)
    refine ⟨fs ++ gs, ?_, ?_, ?_⟩
    · rw [Report.addAll_append, ← hfs]
      exact hgs
    · rintro ⟨ht, ht'⟩
      exact onlyUninitialized_append.mpr ⟨onlyFirst ht, onlyRest ht'⟩
    · intro hopen only
      obtain ⟨only, only'⟩ := onlyUninitialized_append.mp only
      have hopen' : (x st).2.report.Open := (Report.Open.of_addAll (hgs ▸ hopen)).1
      obtain ⟨ht, hr⟩ := first hopen' only
      obtain ⟨ht', hr'⟩ := rest hopen only'
      exact ⟨⟨ht, ht'⟩, _, hr, hr'⟩

theorem Judged.congr {x : CheckM α} {recorded' : α → Prop} (h : Judged t x always typed recorded)
    (iff : typed' ↔ typed) (imp : ∀ a, always a → recorded a → recorded' a) :
    Judged t x always typed' recorded' := by
  refine ⟨h.same, h.always, fun st same => ?_⟩
  obtain ⟨fs, hfs, only, hopen⟩ := h.findings st same
  refine ⟨fs, hfs, fun ht => only (iff.mp ht), fun isOpen clean => ?_⟩
  obtain ⟨ht, hr⟩ := hopen isOpen clean
  exact ⟨iff.mpr ht, imp _ (h.always st same) hr⟩

/-- The last step puts together what was returned before. -/
theorem Judged.map {x : CheckM α} (h : Judged t x always typed recorded) (f : α → β)
    {always' : β → Prop} (recorded' : β → Prop) (value : ∀ a, always a → always' (f a))
    (imp : ∀ a, recorded a → recorded' (f a)) :
    Judged t (do let a ← x; return f a) always' typed recorded' := by
  have last : ∀ a, always a → Judged t (Pure.pure (f a) : CheckM β) always' True (· = f a) :=
    fun a ha => .pure (value a ha) rfl
  exact (h.bind last).congr (and_iff_left trivial).symm fun _ _ ⟨a, hr, hb⟩ => hb ▸ imp a hr

/-- Where the report is full nothing is looked at, and nothing is concluded. -/
theorem Judged.ifFull {x : CheckM α} {a : α} (h : Judged t x always typed recorded)
    (ha : always a) : Judged t (do if ← isFull then return a else x) always typed recorded := by
  refine ⟨?_, ?_, ?_⟩
  · intro st same
    rw [ifFull_apply]
    split
    · exact same
    · exact h.same st same
  · intro st same
    rw [ifFull_apply]
    split
    · exact ha
    · exact h.always st same
  · intro st same
    rw [ifFull_apply]
    split
    · rename_i full
      refine ⟨[], rfl, fun _ => onlyUninitialized_nil, fun isOpen => ?_⟩
      rw [isOpen.not_full] at full
      cases full
    · exact h.findings st same

theorem Judged.mark {p : Place} {v : VarRef} :
    Judged t (mark p v) (fun _ => True) True fun _ => True := by
  have remarked : ∀ u, SameDeclarations (markInitialized u p v) u := by
    intro u
    cases v with
    | field r => exact sameDeclarations_modifyField u r fun _ => rfl
    | loc i =>
      have locals : ∀ ls : List Local,
          (ls.modify i setInit).map Local.declared = ls.map Local.declared :=
        fun ls => map_modify_eq Local.declared setInit (fun _ => rfl) ls i
      rw [markInitialized, markLocal]
      cases p.method with
      | some r =>
        apply sameDeclarations_modifyMethod
        intro k
        simp only [Method.declared, locals]
      | none =>
        apply sameDeclarations_modify
        intro k _
        cases he : k.entry with
        | none => simp [Class.declared, he]
        | some e => simp [Class.declared, he, EntryPoint.declared, locals]
  exact ⟨fun st same => (remarked st.table).trans same, fun _ _ => trivial,
    fun _ _ => ⟨[], rfl, fun _ => onlyUninitialized_nil, fun _ _ => ⟨trivial, trivial⟩⟩⟩

end Judged

end MiniJava.Typing
