import MiniJava.Proofs.Declared.Accepted
import MiniJava.Proofs.Steps.Marks

/-!
# Variables that might not have been initialized

At any point of the traversal a variable counts as initialized if it came with a value or has been
assigned to before, in whatever branch, loop, method or class. So in a program with no other fault,
what is reported is the reads with no assignment to the variable before them, in their order.
-/
namespace MiniJava

open Check ClassTable

/-- Whether a variable has to be assigned to before it is read: parameters never, other locals
always, fields only in strict mode. -/
def counts (strict : Bool) (t : ClassTable) : Variable → Bool
  | .loc none _ => true
  | .loc (some r) i => (t.method? r).any (·.paramCount ≤ i)
  | .field _ => strict

section TooEarly
variable (counted : Variable → Bool)

/-- A read is too early if nothing before it assigns to the variable. -/
def Use.judge (before : List Use) : Use → Option Finding
  | .read line x v =>
    if counted v && !before.contains (.write v) then some ⟨line, .uninitialized x⟩ else none
  | .write _ => none

/-- The reads that are too early, in their order. -/
def tooEarly (us : List Use) : List Finding :=
  us.zipIdx.filterMap fun (u, i) => u.judge counted (us.take i)

/-- The same, where other uses stand before. -/
def tooEarlyAfter (before us : List Use) : List Finding :=
  us.zipIdx.filterMap fun (u, i) => u.judge counted (before ++ us.take i)

theorem tooEarlyAfter_cons (before : List Use) (u : Use) (us : List Use) :
    tooEarlyAfter counted before (u :: us) =
      (u.judge counted before).toList ++ tooEarlyAfter counted (before ++ [u]) us := by
  have shifted : us.zipIdx 1 = us.zipIdx.map fun x => (x.1, x.2 + 1) := by
    rw [List.zipIdx_eq_map_add]
    exact List.map_congr_left fun x _ => by rw [Nat.add_comm]
  rw [tooEarlyAfter, List.zipIdx_cons, List.filterMap_cons, shifted, List.filterMap_map]
  simp only [List.take_zero, List.append_nil]
  have rest : (us.zipIdx.filterMap
      ((fun x : Use × Nat => x.1.judge counted (before ++ (u :: us).take x.2)) ∘
        fun x => (x.1, x.2 + 1))) = tooEarlyAfter counted (before ++ [u]) us := by
    refine congrArg (fun g => us.zipIdx.filterMap g) (funext fun x => ?_)
    simp only [Function.comp_apply, List.take_succ_cons, List.append_assoc, List.singleton_append]
  cases u.judge counted before with
  | none => exact rest
  | some f => exact congrArg (f :: ·) rest

theorem tooEarlyAfter_append (us vs : List Use) :
    ∀ before, tooEarlyAfter counted before (us ++ vs) =
      tooEarlyAfter counted before us ++ tooEarlyAfter counted (before ++ us) vs := by
  induction us with
  | nil =>
    intro before
    rw [List.append_nil]
    rfl
  | cons u us ih =>
    intro before
    rw [List.cons_append, tooEarlyAfter_cons, tooEarlyAfter_cons, ih, List.append_assoc,
      List.append_assoc]
    rfl

end TooEarly

/-- The marks at some point are those of the variables that came with a value or have been assigned
to; `t` is the class table before the bodies. -/
structure Tracks (strict : Bool) (t u : ClassTable) (before : List Use) : Prop where
  same : SameDeclarations u t
  marks : ∀ w : Variable, w.Known t →
    (flag u w = true ↔ counts strict t w = false ∨ .write w ∈ before)

/-- A read of a variable that is there. -/
def Use.Reads (t : ClassTable) (u : Use) : Prop :=
  ∃ line x w, u = .read line x w ∧ w.Known t

section Tracks
variable {strict : Bool} {t u : ClassTable} {before : List Use}

/-- A read changes nothing. -/
theorem Tracks.read (h : Tracks strict t u before) {us : List Use} (reads : ∀ x ∈ us, x.Reads t) :
    Tracks strict t u (before ++ us) := by
  refine ⟨h.same, fun w known => ?_⟩
  rw [h.marks w known, List.mem_append]
  constructor
  · rintro (own | assigned)
    · exact Or.inl own
    · exact Or.inr (Or.inl assigned)
  · rintro (own | assigned | now)
    · exact Or.inl own
    · exact Or.inr assigned
    · obtain ⟨_, _, _, read, _⟩ := reads _ now
      cases read

/-- The marks tell which reads are too early. -/
theorem Tracks.judge (h : Tracks strict t u before) {x : Use} (read : x.Reads t) :
    (x.judge (counts strict t) before).toList = unmarked u x := by
  obtain ⟨line, name, w, rfl, known⟩ := read
  have marks := h.marks w known
  rw [Use.judge, unmarked]
  cases hc : counts strict t w with
  | false =>
    have marked : flag u w = true := marks.mpr (Or.inl hc)
    simp [marked]
  | true =>
    by_cases assigned : .write w ∈ before
    · have marked : flag u w = true := marks.mpr (Or.inr assigned)
      simp [marked, assigned]
    · have unmarked : ¬ flag u w = true := by
        rw [marks, hc]
        simp [assigned]
      simp [unmarked, assigned]

/-- A row of reads is judged by the marks, since nothing is assigned to on the way. -/
theorem Tracks.reads (us : List Use) :
    ∀ {before : List Use}, Tracks strict t u before → (∀ x ∈ us, x.Reads t) →
      tooEarlyAfter (counts strict t) before us = us.flatMap (unmarked u) := by
  induction us with
  | nil => exact fun _ _ => rfl
  | cons x us ih =>
    intro before h reads
    obtain ⟨first, rest⟩ := List.forall_mem_cons.mp reads
    have next : Tracks strict t u (before ++ [x]) := h.read (by simpa using first)
    rw [tooEarlyAfter_cons, h.judge first, ih next rest, List.flatMap_cons]

theorem tooEarlyAfter_writes (s : Scope) (x : Name) (before : List Use) :
    tooEarlyAfter (counts strict t) before (s.writes x) = [] := by
  rw [Scope.writes]
  cases s.denotes? x <;> rfl

end Tracks

section Step
variable {strict : Bool} {t u : ClassTable} {before : List Use} {p : Place}

theorem reads_known (proper : p.Proper) (line : Nat) (x : Name) :
    ∀ y ∈ Scope.reads ⟨t, p⟩ line x, y.Reads t := by
  intro y hy
  rw [Scope.reads, Option.mem_toList] at hy
  obtain ⟨w, hw, rfl⟩ := Option.map_eq_some_iff.mp hy
  exact ⟨line, x, w, rfl, Scope.known_of_denotes? (s := ⟨t, p⟩) proper hw⟩

theorem exprReads_known (proper : p.Proper) (e : Expr Unit) :
    ∀ y ∈ e.reads ⟨t, p⟩, y.Reads t := by
  intro y hy
  obtain ⟨e', _, hy⟩ := List.mem_flatMap.mp hy
  unfold Scope.readsAt at hy
  split at hy
  · exact reads_known proper _ _ y hy
  · cases hy

/-- Of a well-typed assignment to an element, the array is read, then the index and the value. -/
theorem stored_early (forest : t.Forest) (same : SameDeclarations u t) (proper : p.Proper)
    {line : Nat} {x : Name} {index value : Expr Unit} {v : VarRef} {ty : Ty}
    (resolved : (Scope.resolve ⟨u, p⟩ line x).value = some (v, ty))
    (only : OnlyUninitialized (stored ⟨u, p⟩ line x index value (some (v, ty)))) :
    stored ⟨u, p⟩ line x index value (some (v, ty)) =
      (Scope.reads ⟨u, p⟩ line x).flatMap (unmarked u) ++
        (early ⟨u, p⟩ index ++ early ⟨u, p⟩ value) := by
  have typed := typeExpr_early forest (Typing.remarked same p) proper
  rw [stored, checkInitialized_findings (s := ⟨u, p⟩) proper resolved] at only ⊢
  refine congrArg (_ ++ ·) ?_
  obtain ⟨_, rest⟩ := onlyUninitialized_append.mp only
  cases hel : ty.element? with
  | none =>
    have fault : Typing.Fault (.notAnArray ty) := by
      intro x
      simp
    rw [hel] at rest
    exact absurd rest (fault.not_uninitialized line)
  | some element =>
    have indexTyped := Typing.exprTyped (p := p) forest same index
    have check := Typing.expect_checks line (typeExpr ⟨u, p⟩ index).value .int .indexMustBeInt
      fun ty x => by simp
    simp only [hel, onlyUninitialized_append] at rest ⊢
    obtain ⟨onlyIndex, onlyInt, rest⟩ := rest
    rw [typed index onlyIndex, (expect_faults line _ .int fun ty x => by simp).eq_nil onlyInt,
      List.nil_append]
    refine congrArg (_ ++ ·) ?_
    -- an index that is not a number would have been reported
    rcases check.clean.mp onlyInt with ok | none
    · rw [if_pos ok] at rest ⊢
      exact operand_early (fun ty x => by simp) (typed value) rest
    · have noted := indexTyped.clean.mp onlyIndex
      rw [none] at noted
      cases noted

/-- Whatever a well-typed step reports is the reads in it of variables without a mark. -/
theorem findings_lookUp (forest : t.Forest) (same : SameDeclarations u t) (proper : p.Proper)
    (s : Step Unit) (only : OnlyUninitialized (lookUp p u s).findings) :
    (lookUp p u s).findings = (s.uses ⟨u, p⟩).flatMap (unmarked u) := by
  have remarked := Typing.remarked same p
  have typed : ∀ e, OnlyUninitialized (typeExpr ⟨u, p⟩ e).findings →
      (typeExpr ⟨u, p⟩ e).findings = early ⟨u, p⟩ e := typeExpr_early forest remarked proper
  have resolve := fun line x => (Typing.resolve_decides forest remarked line x).clean
  cases s with
  | block line => rfl
  | assign line x value =>
    rw [Step.uses, List.flatMap_append, unmarked_writes, List.append_nil]
    simp only [lookUp, Typing.assignment, Found.findings_bind, Found.findings_pure,
      List.append_nil, onlyUninitialized_append] at only ⊢
    obtain ⟨onlyValue, onlyTarget, rest⟩ := only
    obtain ⟨⟨v, ty⟩, hv⟩ := Option.isSome_iff_exists.mp ((resolve line x).mp onlyTarget)
    simp only [hv, Found.findings_bind, Found.findings_pure, List.append_nil] at rest ⊢
    rw [typed value onlyValue, (resolve_faults ⟨u, p⟩ line x).eq_nil onlyTarget,
      (checkStored_faults line u ty _).eq_nil rest, List.append_nil, List.append_nil]
    rfl
  | arrayAssign line x index value =>
    simp only [lookUp, Found.findings_bind, Found.findings_pure, List.append_nil,
      findings_checkArrayAssign] at only ⊢
    obtain ⟨onlyTarget, rest⟩ := onlyUninitialized_append.mp only
    obtain ⟨⟨v, ty⟩, hv⟩ := Option.isSome_iff_exists.mp ((resolve line x).mp onlyTarget)
    rw [hv] at rest ⊢
    rw [(resolve_faults ⟨u, p⟩ line x).eq_nil onlyTarget, List.nil_append,
      stored_early forest same proper hv rest, Step.uses, List.flatMap_append, List.flatMap_append,
      List.append_assoc]
    rfl
  | condition line cond =>
    simp only [lookUp, Found.findings_bind, Found.findings_pure, List.append_nil] at only ⊢
    exact operand_early (fun ty x => by simp) (typed cond) only
  | print line value =>
    simp only [lookUp, Found.findings_bind, Found.findings_pure, List.append_nil] at only ⊢
    exact operand_early (fun ty x => by simp) (typed value) only
  | result value =>
    obtain ⟨cls, _ | ref⟩ := p
    · simp only [lookUp, Found.findings_bind, Found.findings_pure, List.append_nil] at only ⊢
      exact typed value only
    · simp only [lookUp, Found.findings_bind, Found.findings_pure, List.append_nil,
        onlyUninitialized_append] at only ⊢
      obtain ⟨onlyValue, rest⟩ := only
      rw [typed value onlyValue, (checkReturned_faults u ref _).eq_nil rest, List.append_nil]
      rfl

/-- The uses of a step: reads, and then what it assigns to. -/
theorem uses_split (proper : p.Proper) (s : Step Unit) :
    ∃ rs ws, s.uses ⟨t, p⟩ = rs ++ ws ∧ (∀ y ∈ rs, y.Reads t) ∧
      ws = (s.target?.map fun x : Nat × Name => Scope.writes ⟨t, p⟩ x.2).getD [] := by
  cases s with
  | block line => exact ⟨[], [], rfl, nofun, rfl⟩
  | assign line x value => exact ⟨_, _, rfl, exprReads_known proper value, rfl⟩
  | arrayAssign line x index value =>
    refine ⟨_, [], (List.append_nil _).symm, ?_, rfl⟩
    refine List.forall_mem_append.mpr ⟨List.forall_mem_append.mpr ⟨?_, ?_⟩, ?_⟩
    · exact reads_known proper line x
    · exact exprReads_known proper index
    · exact exprReads_known proper value
  | condition line e | print line e | result e =>
    exact ⟨_, [], (List.append_nil _).symm, exprReads_known proper e, rfl⟩

/-- After an assignment its target is marked, and nothing else has changed. -/
theorem Tracks.write (h : Tracks strict t u before) (proper : p.Proper) {v : VarRef}
    (known : (p.variable v).Known t) :
    Tracks strict t (markInitialized u p v) (before ++ [.write (p.variable v)]) := by
  have marked := (Typing.Judged.mark (t := t) (p := p) (v := v)).same ⟨u, .empty none⟩ h.same
  refine ⟨marked, fun w here => ?_⟩
  rw [flag_markInitialized proper ((Variable.known_congr h.same _).mpr known), h.marks w here,
    List.mem_append, List.mem_singleton, Use.write.injEq]
  constructor
  · rintro (now | own | assigned)
    · exact Or.inr (Or.inr now)
    · exact Or.inl own
    · exact Or.inr (Or.inl assigned)
  · rintro (own | assigned | now)
    · exact Or.inr (Or.inl own)
    · exact Or.inr (Or.inr assigned)
    · exact Or.inl now

/-- The target of a well-typed assignment stands for a variable. -/
theorem target_resolves (forest : t.Forest) (same : SameDeclarations u t) {s : Step Unit}
    {line : Nat} {x : Name} (target : s.target? = some (line, x))
    (only : OnlyUninitialized (lookUp p u s).findings) :
    ∃ v ty, (Scope.resolve ⟨u, p⟩ line x).value = some (v, ty) := by
  cases s with
  | assign line' x' value =>
    obtain ⟨rfl, rfl⟩ := Prod.mk.inj (Option.some.inj target)
    simp only [lookUp, Typing.assignment, Found.findings_bind, Found.findings_pure,
      List.append_nil, onlyUninitialized_append] at only
    have resolve := (Typing.resolve_decides forest (Typing.remarked same p) line' x').clean
    obtain ⟨⟨v, ty⟩, hv⟩ := Option.isSome_iff_exists.mp (resolve.mp only.2.1)
    exact ⟨v, ty, hv⟩
  | _ => cases target

/-- A well-typed step: it reports the reads in it that are too early, and the marks stay right. -/
theorem Tracks.step (forest : t.Forest) (h : Tracks strict t u before) {v : Visit}
    (proper : v.place.Proper) (only : OnlyUninitialized (v.findings u)) :
    v.findings u = tooEarlyAfter (counts strict t) before (v.uses t) ∧
      Tracks strict t (v.after u) (before ++ v.uses t) := by
  obtain ⟨p, s⟩ := v
  have remarked := Typing.remarked h.same p
  rw [Visit.findings_eq] at only ⊢
  have found := findings_lookUp forest h.same proper s only
  rw [Step.uses_congr remarked] at found
  obtain ⟨rs, ws, split, reads, writes⟩ := uses_split (t := t) proper s
  rw [found, Visit.after_eq, value_lookUp, Visit.uses, split]
  cases target : s.target? with
  | none =>
    rw [target] at writes
    obtain rfl : ws = [] := writes
    rw [List.append_nil, Tracks.reads rs h reads]
    exact ⟨rfl, h.read reads⟩
  | some x =>
    obtain ⟨line, x⟩ := x
    rw [target] at writes
    obtain rfl : ws = Scope.writes ⟨t, p⟩ x := writes
    obtain ⟨v, ty, resolved⟩ := target_resolves forest h.same target only
    have meaning : Scope.denotes? ⟨t, p⟩ x = some (p.variable v) := by
      rw [← Scope.denotes?_congr remarked]
      exact Scope.denotes?_of_resolve resolved
    have known : (p.variable v).Known t := Scope.known_of_denotes? (s := ⟨t, p⟩) proper meaning
    rw [tooEarlyAfter_append, tooEarlyAfter_writes, Tracks.reads rs h reads, List.flatMap_append,
      unmarked_writes]
    refine ⟨rfl, ?_⟩
    have next := (h.read reads).write proper known
    rw [Scope.writes, meaning, Option.bind_some, resolved, ← List.append_assoc]
    exact next

end Step

/-- The uses of variables in a program, in the order of the traversal. -/
def Program.uses (t : ClassTable) (q : Program .registered) : List Use :=
  q.visits.flatMap (·.uses t)

theorem course_tooEarly {strict : Bool} {t : ClassTable} (forest : t.Forest) (vs : List Visit) :
    ∀ {u : ClassTable} {before : List Use}, Tracks strict t u before →
      (∀ v ∈ vs, v.place.Proper) → OnlyUninitialized (course u vs).flatten →
      (course u vs).flatten =
        tooEarlyAfter (counts strict t) before (vs.flatMap (·.uses t)) := by
  induction vs with
  | nil => exact fun _ _ _ => rfl
  | cons v vs ih =>
    intro u before tracks proper only
    obtain ⟨first, rest⟩ := List.forall_mem_cons.mp proper
    rw [course, List.flatten_cons] at only ⊢
    obtain ⟨onlyFirst, onlyRest⟩ := onlyUninitialized_append.mp only
    obtain ⟨found, next⟩ := tracks.step forest first onlyFirst
    rw [found, ih next rest onlyRest, List.flatMap_cons, tooEarlyAfter_append]

section Start
variable {strict : Bool} {p : Program .bare} {t : ClassTable}

theorem Check.Mirrors.locals_of_method? (mirrors : Mirrors strict p t) {r : MethodRef} {m : Method}
    (hm : t.method? r = some m) : ∃ ps vs : List VarDecl,
      m.locals = ps.map (localOf true) ++ vs.map (localOf false) ∧ m.paramCount = ps.length := by
  obtain ⟨k, hk, hm⟩ := get?_of_method? hm
  rcases mirrors.get?_cases hk with ⟨_, _, none⟩ | ⟨before, d, _, _, _, mirrored⟩
  · rw [none] at hm
    cases hm
  · rw [mirrored.methods, List.getElem?_map] at hm
    obtain ⟨decl, _, rfl⟩ := Option.map_eq_some_iff.mp hm
    exact ⟨decl.params, decl.vars, rfl, rfl⟩

theorem Check.Mirrors.initialized_of_field? (mirrors : Mirrors strict p t) (wf : t.WellFormed)
    {r : FieldRef} {f : Field} (hf : t.field? r = some f) : f.initialized = !strict := by
  have other := wf.not_main_of_field? hf
  obtain ⟨k, hk, hf⟩ := get?_of_field? hf
  rcases mirrors.get?_cases hk with ⟨main, _, _⟩ | ⟨before, d, _, _, _, mirrored⟩
  · rw [wf.isMain_iff.mpr main] at other
    cases other
  · rw [mirrored.fields, List.getElem?_map] at hf
    obtain ⟨decl, _, rfl⟩ := Option.map_eq_some_iff.mp hf
    rfl

theorem flag_localOf {ps vs : List VarDecl} {i : Nat}
    (inside : i < (ps.map (localOf true) ++ vs.map (localOf false)).length) :
    (((ps.map (localOf true) ++ vs.map (localOf false))[i]?).any (·.initialized)) = true ↔
      i < ps.length := by
  by_cases param : i < ps.length
  · rw [List.getElem?_append_left (by simpa using param), List.getElem?_map,
      List.getElem?_eq_getElem param]
    simp [localOf, param]
  · have other : i - ps.length < vs.length := by
      simp only [List.length_append, List.length_map] at inside
      omega
    rw [List.getElem?_append_right (by simpa using param), List.length_map, List.getElem?_map,
      List.getElem?_eq_getElem other]
    simp [localOf, param]

/-- Before the first body, parameters are marked, and fields unless the mode is strict. -/
theorem tracks_start (mirrors : Mirrors strict p t) (wf : t.WellFormed) :
    Tracks strict t t [] := by
  refine ⟨.refl t, fun w known => ?_⟩
  rw [or_iff_left (List.not_mem_nil)]
  cases w with
  | loc m i =>
    rw [flag_loc]
    cases m with
    | none =>
      have locals : localsOf t none = [].map (localOf true) ++ p.main.vars.map (localOf false) := by
        rw [localsOf, mirrors.main]
        rfl
      rw [Variable.Known, locals] at known
      rw [locals, flag_localOf known]
      simp [counts]
    | some r =>
      cases hm : t.method? r with
      | none =>
        rw [Variable.Known, localsOf, hm] at known
        exact absurd known (Nat.not_lt_zero i)
      | some m =>
        obtain ⟨ps, vs, locals, count⟩ := mirrors.locals_of_method? hm
        have all : localsOf t (some r) = ps.map (localOf true) ++ vs.map (localOf false) := by
          rw [localsOf, hm]
          exact locals
        rw [Variable.Known, all] at known
        rw [all, flag_localOf known, counts, hm, Option.any_some, count]
        simp
  | field r =>
    obtain ⟨f, hf⟩ := Option.isSome_iff_exists.mp known
    rw [flag, hf, Option.any_some, mirrors.initialized_of_field? wf hf, counts]
    cases strict <;> simp

end Start

/-- If the bodies of a program have no other fault, then exactly the reads with no assignment to the
same variable before them are reported, in the order of the traversal; and that goes through every
step of the program. -/
theorem uninitialized_reads {strict : Bool} {p : Program .bare} {q : Program .registered}
    {st : State} (ready : ready? ⟨none, strict⟩ p = some (q, st))
    (only : OnlyUninitialized (check ⟨none, strict⟩ p).report.findings) :
    (check ⟨none, strict⟩ p).report.findings =
        tooEarly (counts strict st.table) (q.uses st.table) ∧
      q.visits.map (·.step) = p.steps := by
  have known := ready_of_ready? unlimited_ne ready
  obtain ⟨whole, steps⟩ := check_course ready
  have start := tracks_start (mirrors_of_ready? ready).1 known.wellFormed
  rw [whole] at only ⊢
  exact ⟨course_tooEarly known.wellFormed.forest q.visits start
    (proper_of_entered known.entered) only, steps⟩

/-- In strict mode no field of the sample is assigned to before it is read. -/
theorem uninitialized_reads_branches :
    ∃ q st, ready? ⟨none, true⟩ branches = some (q, st) ∧
      OnlyUninitialized (check ⟨none, true⟩ branches).report.findings ∧
      (check ⟨none, true⟩ branches).report.findings =
        tooEarly (counts true st.table) (q.uses st.table) ∧
      q.visits.map (·.step) = branches.steps := by
  obtain ⟨⟨q, st⟩, ready⟩ := Option.isSome_iff_exists.mp
    (show (ready? ⟨none, true⟩ branches).isSome = true by decide +kernel)
  have findings : (check ⟨none, true⟩ branches).report.findings =
      [⟨1, .uninitialized "v"⟩, ⟨1, .uninitialized "v"⟩, ⟨1, .uninitialized "u"⟩,
        ⟨1, .uninitialized "v"⟩] := by
    decide +kernel
  have only : OnlyUninitialized (check ⟨none, true⟩ branches).report.findings := by
    rw [findings]
    intro f hf
    simp only [List.mem_cons, List.not_mem_nil, or_false] at hf
    rcases hf with rfl | rfl | rfl | rfl <;> exact ⟨_, rfl⟩
  exact ⟨q, st, ready, only, uninitialized_reads ready only⟩

end MiniJava
