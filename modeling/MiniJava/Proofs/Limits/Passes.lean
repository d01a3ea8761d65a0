import MiniJava.Proofs.Limits.Origin
import MiniJava.Proofs.Limits.Report
import MiniJava.Proofs.Traversal

/-!
# The passes under a limit

The body pass asks at every statement, at every method and at its result whether the report is full.
`Cuts` collects the computations for which that makes no difference to the findings that are kept:
it holds of the single steps, and a limit may be asked for wherever two of them are bound.

Then each pass is a run over a report, compared with what it makes of a program where nothing is
dropped. The first two passes stop at the first class for which the report is full.
-/
namespace MiniJava

theorem Truncates.foundIn {α : Type} {run : Report → α × Report} {whole : Found α}
    (h : Truncates run whole) {pass : Pass} (found : FoundIn pass whole.findings) :
    FoundIn pass (run (.empty none)).2.findings :=
  h.findings_of_unlimited ▸ found

namespace Check

variable {α β : Type}

/-- A computation of the body pass that starts with a class table. -/
def startingFrom (t : ClassTable) (x : CheckM α) (r : Report) : (α × ClassTable) × Report :=
  (((x ⟨t, r⟩).1, (x ⟨t, r⟩).2.table), (x ⟨t, r⟩).2.report)

/-- From every class table, a limit only drops the findings that have no room. -/
def Cuts (x : CheckM α) : Prop :=
  ∀ t, ∃ whole, Truncates (startingFrom t x) whole ∧ FoundIn .bodies whole.findings

namespace Cuts

theorem pure (a : α) : Cuts (Pure.pure a : CheckM α) :=
  fun t => ⟨.of (a, t), .found (.of (a, t)), foundIn_nil⟩

theorem take {find : ClassTable → Found α} (h : ∀ t, FoundIn .bodies (find t).findings) :
    Cuts (take find) := by
  intro t
  let whole : Found (α × ClassTable) := ⟨((find t).value, t), (find t).findings⟩
  exact ⟨whole, .found whole, h t⟩

theorem mark (p : Place) (v : VarRef) : Cuts (mark p v) :=
  fun t => ⟨.of ((), markInitialized t p v), .found (.of ((), markInitialized t p v)),
    foundIn_nil⟩

theorem bind {x : CheckM α} {f : α → CheckM β} (hx : Cuts x) (hf : ∀ a, Cuts (f a)) :
    Cuts (x >>= f) := by
  intro t
  obtain ⟨whole, truncates, found⟩ := hx t
  obtain ⟨rest, hrest⟩ := Classical.axiomOfChoice fun s : α × ClassTable => hf s.1 s.2
  refine ⟨whole >>= rest, truncates.andThen fun s => (hrest s).1, ?_⟩
  exact foundIn_append.mpr ⟨found, (hrest whole.value).2⟩

/-- Where the report is full nothing is looked at. -/
theorem ifFull {x : CheckM α} (hx : Cuts x) (a : α) :
    Cuts (do if ← isFull then return a else x) := by
  intro t
  obtain ⟨whole, truncates, found⟩ := hx t
  have unfolded : startingFrom t (do if ← isFull then return a else x) =
      fun r => if r.full then ((a, t), r) else startingFrom t x r := by
    funext r
    simp only [startingFrom, ifFull_apply]
    split <;> rfl
  exact ⟨whole, unfolded ▸ truncates.unlessFull (a, t), found⟩

end Cuts

theorem typeIn_cuts (p : Place) (e : Expr Unit) : Cuts (typeIn p e) :=
  .take fun t => typeExpr_foundIn ⟨t, p⟩ e

theorem checkCond_cuts (p : Place) (line : Nat) (cond : Expr Unit) :
    Cuts (checkCond p line cond) := by
  refine .take fun t => ?_
  simp [typeExpr_foundIn, expect_foundIn _ _ _ .conditionMustBeBoolean fun _ => rfl]

theorem checkResult_cuts (p : Place) (ref : MethodRef) (result : Expr Unit) :
    Cuts (checkResult p ref result) := by
  refine .take fun t => ?_
  rw [Found.findings_bind, foundIn_append]
  refine ⟨typeExpr_foundIn ⟨t, p⟩ result, ?_⟩
  split
  · split <;> simp [SemanticError.passes]
  · exact foundIn_nil

theorem passes_cuts : Passes Cuts where
  pure := .pure
  bind := .bind
  ifFull a hx := .ifFull hx a
  mark := .mark
  typeIn := typeIn_cuts
  cond := checkCond_cuts
  resolve p line x := .take fun t => resolve_foundIn ⟨t, p⟩ line x
  stored line ty value := .take fun t => checkStored_foundIn t line ty value
  arrayAssign p line x index value :=
    .take fun t => checkArrayAssign_foundIn ⟨t, p⟩ line x index value
  printed line value := .take fun _ => expect_foundIn line value .int .printRequiresInt fun _ => rfl
  result := checkResult_cuts

theorem bodies_cuts (p : Program .registered) : Cuts (bodies p) := passes_cuts.bodies p

/-- All classes are entered, however much has been found. -/
def enterEach (t : ClassTable) :
    List (ClassDecl .bare) → Found (ClassTable × List (ClassDecl .registered))
  | [] => .of (t, [])
  | d :: ds =>
    let found := enter t d
    let rest := enterEach found.value.1 ds
    ⟨(rest.value.1, found.value.2 :: rest.value.2), found.findings ++ rest.findings⟩

theorem enterAll_truncates (ds : List (ClassDecl .bare)) :
    ∀ t, Truncates (fun r => (((enterAll t r ds).1, (enterAll t r ds).2.2), (enterAll t r ds).2.1))
      (enterEach t ds) := by
  induction ds with
  | nil => exact fun t => .found (.of (t, []))
  | cons d ds ih =>
    intro t
    have both := (Truncates.found (enter t d)).andThen fun entered =>
      (ih entered.1).map fun rest => (rest.1, entered.2 :: rest.2)
    have stopping := both.unlessFull (t, (d :: ds).map unregistered)
    refine Eq.mp (congrArg (Truncates · _) (funext fun r => ?_)) stopping
    rw [enterAll]
    split <;> rfl

theorem enterEach_foundIn (ds : List (ClassDecl .bare)) :
    ∀ t, FoundIn .hierarchy (enterEach t ds).findings := by
  induction ds with
  | nil => exact fun _ => foundIn_nil
  | cons d ds ih => exact fun t => foundIn_append.mpr ⟨enter_foundIn t d, ih _⟩

/-- The class table and the program that the hierarchy leaves. -/
def registered (p : Program .bare) (entered : ClassTable × List (ClassDecl .registered)) :
    ClassTable × Program .registered :=
  (withInherited entered.1,
    ⟨⟨p.main.line, p.main.name, p.main.param, p.main.vars, p.main.body⟩, entered.2⟩)

def wholeHierarchy (p : Program .bare) : Found (ClassTable × Program .registered) :=
  let entered := enterEach (mainOnly p.main) p.classes
  ⟨registered p entered.value, entered.findings⟩

/-- The hierarchy as a run that starts with any report. -/
def hierarchyFrom (p : Program .bare) (r : Report) : (ClassTable × Program .registered) × Report :=
  let entered := enterAll (mainOnly p.main) r p.classes
  (registered p (entered.1, entered.2.2), entered.2.1)

theorem hierarchyFrom_truncates (p : Program .bare) :
    Truncates (hierarchyFrom p) (wholeHierarchy p) :=
  (enterAll_truncates p.classes (mainOnly p.main)).map (registered p)

/-- All classes are declared, however much has been found. -/
def declareEach (strict : Bool) (t : ClassTable) : List (ClassDecl .registered) → Found ClassTable
  | [] => .of t
  | d :: ds => declareClass strict t d >>= fun t => declareEach strict t ds

theorem declareClasses_truncates (strict : Bool) (ds : List (ClassDecl .registered)) :
    ∀ t, Truncates (fun r => declareClasses strict t r ds) (declareEach strict t ds) := by
  induction ds with
  | nil => exact fun t => .found (.of t)
  | cons d ds ih =>
    intro t
    have stopping := ((Truncates.found (declareClass strict t d)).andThen ih).unlessFull t
    refine Eq.mp (congrArg (Truncates · _) (funext fun r => ?_)) stopping
    rw [declareClasses]

theorem declareEach_foundIn (strict : Bool) (ds : List (ClassDecl .registered)) :
    ∀ t, FoundIn .declarations (declareEach strict t ds).findings := by
  induction ds with
  | nil => exact fun _ => foundIn_nil
  | cons d ds ih => exact fun t => foundIn_append.mpr ⟨declareClass_foundIn strict t d, ih _⟩

def wholeDeclarations (strict : Bool) (p : Program .registered) (t : ClassTable) :
    Found ClassTable :=
  declareMain t p.main >>= fun t => declareEach strict t p.classes

theorem declarations_truncates (strict : Bool) (p : Program .registered) (t : ClassTable) :
    Truncates (declarations strict p t) (wholeDeclarations strict p t) :=
  (Truncates.found (declareMain t p.main)).andThen (declareClasses_truncates strict p.classes)

theorem wholeDeclarations_foundIn (strict : Bool) (p : Program .registered) (t : ClassTable) :
    FoundIn .declarations (wholeDeclarations strict p t).findings :=
  foundIn_append.mpr ⟨declareMain_foundIn t p.main, declareEach_foundIn strict p.classes _⟩

theorem overrides_truncates (t : ClassTable) :
    Truncates (fun r => ((), overrides t r)) (checkClasses t t.classes.toList) :=
  .found _

end Check

end MiniJava
