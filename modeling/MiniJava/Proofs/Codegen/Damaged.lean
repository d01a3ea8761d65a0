import Mathlib.Data.List.Forall2
import MiniJava.Codegen.Generate
import MiniJava.Proofs.Codegen.CutShort

/-!
# Modules from damaged results

Whatever is taken away from the results of the analysis, the functions that are generated are those
of the whole results, or they break off in front of something that was taken away.
-/
namespace MiniJava.Codegen

open IR

/-- The item that an error names is one of the damaged ones. -/
def Damage.Affects (d : Damage) (t : ClassTable) (p : Program .checked) : CodegenError → Prop
  | .missingAnalysis kind line => ∃ k e, (itemExprs p.items)[k]? = some e ∧ d.expr k = true ∧
      e.kind = kind ∧ e.line = line
  | .missingResolution kind line => ∃ k e, (itemExprs p.items)[k]? = some e ∧
      d.unresolved k = true ∧ e.kind = kind ∧ e.line = line
  | .missingTarget name line => ∃ k note, (itemTargets p.items)[k]? = some (⟨line, name⟩, note) ∧
      d.target k = true
  | .missingFieldOffset name => ∃ r f, t.field? r = some f ∧ f.name = name ∧
      d.offset (t.nameOf r.cls) name = true
  | .missingSlot name => ∃ r m, t.method? r = some m ∧ m.name = name ∧
      d.slot (t.nameOf r.cls) name = true
  | .missingClass name => ∃ c ∈ p.classes, c.name = name ∧ d.cls name = true
  | .missingMethod name => ∃ c ∈ p.classes, ∃ m ∈ c.methods, m.name = name ∧
      d.method c.name name = true
  | .dangling => False

section Affects
variable {d : Damage} {t : ClassTable} {p : Program .checked}

theorem Damage.accounts_affects : d.Accounts t (d.Affects t p) where
  offset := fun r f hf cleared => ⟨r, f, hf, rfl, cleared⟩
  slot := fun r m hm cleared => ⟨r, m, hm, rfl, cleared⟩

/-- What damage leaves of a note. -/
theorem Damage.exprNote_left {k : Nat} {e : Expr Note} (he : (itemExprs p.items)[k]? = some e) :
    NoteLeft (d.Affects t p) e (d.exprNote k e.note) := by
  unfold Damage.exprNote
  split
  · rename_i gone
    exact .removed ⟨k, e, he, gone, rfl, rfl⟩
  · split
    · rename_i stripped
      cases hn : e.note with
      | none => exact Eq.subst (motive := NoteLeft _ e) hn NoteLeft.kept
      | some info => exact .stripped hn ⟨k, e, he, stripped, rfl, rfl⟩
    · exact .kept

theorem Damage.targetNote_left {k : Nat} {x : Located Name} {note : Target}
    (hx : (itemTargets p.items)[k]? = some (x, note)) :
    TargetLeft (d.Affects t p) x note (d.targetNote k note) := by
  unfold Damage.targetNote
  split
  · rename_i gone
    exact Or.inr ⟨rfl, k, note, hx, gone⟩
  · exact Or.inl rfl

theorem Damage.items_left :
    ItemsNumberedTo (NoteLeft (d.Affects t p)) (TargetLeft (d.Affects t p)) d.exprNote d.targetNote
      {} p.items where
  exprs := fun k e he => by
    rw [Nat.zero_add]
    exact d.exprNote_left he
  targets := fun k x hx => by
    rw [Nat.zero_add]
    exact d.targetNote_left hx

end Affects

/-- What may be left of the declaration of a method. -/
structure MethodLeft (may : CodegenError → Prop) (m m' : MethodDecl .checked) : Prop where
  name : m'.name = m.name
  note : m'.note = m.note ∨ m'.note = none ∧ may (.missingMethod m.name)
  body : BodyRenoted (NoteLeft may) (TargetLeft may) m.body m'.body
  result : Expr.Renoted (NoteLeft may) m.result m'.result

structure ClassLeft (may : CodegenError → Prop) (c c' : ClassDecl .checked) : Prop where
  name : c'.name = c.name
  note : c'.note = c.note ∨ c'.note = none ∧ may (.missingClass c.name)
  methods : List.Forall₂ (MethodLeft may) c.methods c'.methods

structure ProgramLeft (may : CodegenError → Prop) (p p' : Program .checked) : Prop where
  name : p'.main.name = p.main.name
  main : BodyRenoted (NoteLeft may) (TargetLeft may) p.main.body p'.main.body
  classes : List.Forall₂ (ClassLeft may) p.classes p'.classes

section Declarations
variable {d : Damage} {may : CodegenError → Prop} {n : Counts}

abbrev ItemsLeft (d : Damage) (may : CodegenError → Prop) (n : Counts)
    (items : List (Item Note Target)) : Prop :=
  ItemsNumberedTo (NoteLeft may) (TargetLeft may) d.exprNote d.targetNote n items

theorem ite_none_left {α : Type} {p : Prop} {gone : Bool} {note : Option α}
    (h : gone = true → p) :
    (if gone then none else note) = note ∨ (if gone then none else note) = none ∧ p := by
  cases gone with
  | false => exact Or.inl rfl
  | true => exact Or.inr ⟨rfl, h rfl⟩

theorem methodDecl_left {cls : Name} {m : MethodDecl .checked}
    (missing : d.method cls m.name = true → may (.missingMethod m.name))
    (items : ItemsLeft d may n m.items) :
    MethodLeft may m (d.methodDecl cls m n).1 ∧
      (d.methodDecl cls m n).2 = n.pastItems m.items := by
  obtain ⟨hbody, hresult⟩ := ItemsNumberedTo.append_iff.mp items
  obtain ⟨body, nbody⟩ := relabelBody_renoted m.body n hbody
  rw [← nbody] at hresult
  obtain ⟨result, nresult⟩ := hresult.expr
  refine ⟨⟨rfl, ite_none_left missing, body, result⟩, ?_⟩
  rw [MethodDecl.items, Counts.pastItems_append, ← nbody]
  exact nresult

theorem methodDecls_left {cls : Name} (ms : List (MethodDecl .checked))
    (missing : ∀ m ∈ ms, d.method cls m.name = true → may (.missingMethod m.name)) :
    ∀ n, ItemsLeft d may n (ms.flatMap (·.items)) →
      List.Forall₂ (MethodLeft may) ms (d.methodDecls cls ms n).1 ∧
        (d.methodDecls cls ms n).2 = n.pastItems (ms.flatMap (·.items)) := by
  induction ms with
  | nil => exact fun n _ => ⟨.nil, rfl⟩
  | cons m ms ih =>
    intro n items
    obtain ⟨here, others⟩ := List.forall_mem_cons.mp missing
    rw [List.flatMap_cons] at items
    obtain ⟨hm, hms⟩ := ItemsNumberedTo.append_iff.mp items
    obtain ⟨left, nm⟩ := methodDecl_left here hm
    obtain ⟨lefts, nms⟩ := ih others _ (nm ▸ hms)
    refine ⟨.cons left lefts, ?_⟩
    rw [List.flatMap_cons, Counts.pastItems_append, ← nm]
    exact nms

theorem classDecls_left (cs : List (ClassDecl .checked))
    (missing : ∀ c ∈ cs, (d.cls c.name = true → may (.missingClass c.name)) ∧
      ∀ m ∈ c.methods, d.method c.name m.name = true → may (.missingMethod m.name)) :
    ∀ n, ItemsLeft d may n (cs.flatMap (·.items)) →
      List.Forall₂ (ClassLeft may) cs (d.classDecls cs n).1 := by
  induction cs with
  | nil => exact fun n _ => .nil
  | cons c cs ih =>
    intro n items
    obtain ⟨⟨here, methods⟩, others⟩ := List.forall_mem_cons.mp missing
    rw [List.flatMap_cons] at items
    obtain ⟨hc, hcs⟩ := ItemsNumberedTo.append_iff.mp items
    obtain ⟨lefts, nms⟩ := methodDecls_left c.methods methods n hc
    refine .cons ⟨rfl, ite_none_left here, lefts⟩ ?_
    exact ih others _ (nms ▸ hcs)

theorem Damage.program_left (d : Damage) (t : ClassTable) (p : Program .checked) :
    ProgramLeft (d.Affects t p) p (d.program p) := by
  have items : ItemsLeft d (d.Affects t p) {} p.items := Damage.items_left
  obtain ⟨main, classes⟩ := ItemsNumberedTo.append_iff.mp items
  obtain ⟨body, nbody⟩ := relabelBody_renoted p.main.body {} main
  refine ⟨rfl, body, ?_⟩
  exact classDecls_left p.classes (fun c hc => ⟨fun gone => ⟨c, hc, rfl, gone⟩,
    fun m hm gone => ⟨c, hc, m, hm, rfl, gone⟩⟩) _ (nbody ▸ classes)

end Declarations

def Built.text (b : Built) : String := String.join (b.functions.map (·.text))

/-- The first functions are the second ones, or they stop with an error that may arise behind a front
part of their text. -/
def Built.CutShort (may : CodegenError → Prop) (b' b : Built) : Prop :=
  b' = b ∨ ∃ e, b'.failure = some e ∧ may e ∧ ∃ rest, b'.text ++ rest = b.text

section Functions
variable {d : Damage} {t : ClassTable} {l : Layout} {may : CodegenError → Prop}

theorem codeText_append (a b : List Line) : codeText (a ++ b) = codeText a ++ codeText b := by
  rw [codeText, List.map_append, String.join_append]
  rfl

theorem failed_cutShort {e : CodegenError} (h : may e) (n : LabelCounters) (b : Built) :
    Built.CutShort may (failed n e) b :=
  Or.inr ⟨e, rfl, h, b.text, String.empty_append⟩

theorem text_cons (f : Function) (fs : List Function) (n : LabelCounters)
    (failure : Option CodegenError) :
    Built.text ⟨f :: fs, n, failure⟩ = f.text ++ Built.text ⟨fs, n, failure⟩ :=
  String.join_cons

theorem text_singleton (f : Function) (n : LabelCounters) (failure : Option CodegenError) :
    Built.text ⟨[f], n, failure⟩ = f.text := (text_cons f [] n failure).trans String.append_empty

/-- Unfinished functions begin like functions with more code. -/
theorem unfinished_prefix {h : Header} {code' code : List Line} (front : code' <+: code)
    (finished : Bool) : ∃ rest, (Function.mk h code' false).text ++ rest =
      (Function.mk h code finished).text := by
  obtain ⟨more, rfl⟩ := front
  refine ⟨codeText more ++ if finished then "\x7d\n\n" else "", ?_⟩
  simp only [Function.text, codeText_append, String.append_assoc]
  rfl

/-- A function that is added comes first. -/
theorem exists_text_addFunction (n : LabelCounters) (h : Header) (body : Gen Unit)
    (rest : LabelCounters → Built) : ∃ finished more, (addFunction n h body rest).text =
      (Function.mk h (body { labels := n }).code finished).text ++ more := by
  cases result : (body { labels := n }).result with
  | error e =>
    refine ⟨false, "", ?_⟩
    simp only [addFunction, result]
    exact text_cons _ [] _ _
  | ok a =>
    refine ⟨true, (rest (body { labels := n }).cursor.labels).text, ?_⟩
    simp only [addFunction, result]
    exact text_cons _ _ _ _

theorem addFunction_cutShort {h : Header} {body' body : Gen Unit}
    {rest' rest : LabelCounters → Built} (hbody : CutShort may body' body)
    (hrest : ∀ n, Built.CutShort may (rest' n) (rest n)) (n : LabelCounters) :
    Built.CutShort may (addFunction n h body' rest') (addFunction n h body rest) := by
  rcases hbody { labels := n } with same | ⟨e, stopped, he, front⟩
  · cases result : (body { labels := n }).result with
    | error e =>
      left
      simp only [addFunction, same, result]
    | ok a =>
      rcases hrest (body { labels := n }).cursor.labels with same' | ⟨e, failure, he, more, text⟩
      · left
        simp only [addFunction, same, result, same']
      · right
        simp only [addFunction, same, result]
        refine ⟨e, failure, he, more, ?_⟩
        rw [text_cons, text_cons, String.append_assoc]
        exact congrArg _ text
  · right
    obtain ⟨finished, more, text⟩ := exists_text_addFunction n h body rest
    obtain ⟨more', text'⟩ := unfinished_prefix (h := h) front finished
    rw [text, ← text', String.append_assoc]
    simp only [addFunction, stopped]
    exact ⟨e, rfl, he, _, congrArg (· ++ _) (text_singleton _ _ _)⟩

theorem methodHeader_table (d : Damage) (t : ClassTable) (cls : Name) (m : Method) :
    methodHeader (d.table t) (d.methodIn cls m) = methodHeader t m := by
  rw [methodHeader, methodHeader, d.nameOf_table]
  unfold Damage.methodIn
  split <;> rfl

/-- The code of a method depends on its slot nowhere. -/
theorem methodBody_table (d : Damage) (t : ClassTable) (l : Layout) (scope cls : Name) (m : Method)
    (body : List (Stmt Note Target)) (result : Expr Note) :
    methodBody ⟨d.table t, l, scope ++ "_" ++ (d.methodIn cls m).name, (d.methodIn cls m).locals⟩
      (d.methodIn cls m) body result =
      methodBody (d.env ⟨t, l, scope ++ "_" ++ m.name, m.locals⟩) m body result := by
  unfold Damage.methodIn
  split <;> rfl

variable (accounts : d.Accounts t may)
include accounts

theorem methodFunctions_cutShort (scope : Name) {rest' rest : LabelCounters → Built}
    (hrest : ∀ n, Built.CutShort may (rest' n) (rest n)) {ms ms' : List (MethodDecl .checked)}
    (left : List.Forall₂ (MethodLeft may) ms ms') :
    ∀ n, Built.CutShort may (methodFunctions (d.table t) l scope rest' ms' n)
      (methodFunctions t l scope rest ms n) := by
  induction left with
  | nil => exact hrest
  | @cons m m' ms ms' left _ ih =>
    intro n
    rw [methodFunctions, methodFunctions, left.name]
    rcases left.note with same | ⟨gone, missing⟩
    · rw [same]
      cases m.note with
      | none => exact Or.inl rfl
      | some r =>
        dsimp only
        rw [d.method?_table]
        cases t.method? r with
        | none => exact Or.inl rfl
        | some k =>
          simp only [Option.map_some, methodHeader_table]
          have body := methodBody_cutShort (c := ⟨t, l, scope ++ "_" ++ k.name, k.locals⟩) accounts k
            left.body left.result
          rw [methodBody_table]
          exact addFunction_cutShort body ih n
    · rw [gone]
      exact failed_cutShort missing n _

theorem classFunctions_cutShort {cs cs' : List (ClassDecl .checked)}
    (left : List.Forall₂ (ClassLeft may) cs cs') :
    ∀ n, Built.CutShort may (classFunctions (d.table t) l cs' n) (classFunctions t l cs n) := by
  induction left with
  | nil => exact fun _ => Or.inl rfl
  | @cons c c' cs cs' left _ ih =>
    intro n
    rw [classFunctions, classFunctions, left.name]
    rcases left.note with same | ⟨gone, missing⟩
    · rw [same]
      cases c.note with
      | none => exact Or.inl rfl
      | some id =>
        dsimp only
        rw [d.nameOf_table]
        exact methodFunctions_cutShort accounts _ ih left.methods n
    · rw [gone]
      exact failed_cutShort missing n _

omit accounts in
theorem mainLocals_table (d : Damage) (t : ClassTable) : mainLocals (d.table t) = mainLocals t := by
  rw [mainLocals, mainLocals, d.get?_table]
  cases t.get? 0 <;> rfl

theorem programFunctions_cutShort {p p' : Program .checked} (left : ProgramLeft may p p') :
    Built.CutShort may (programFunctions (d.table t) l p') (programFunctions t l p) := by
  rw [programFunctions, programFunctions, mainLocals_table, left.name]
  have body := mainBody_cutShort (c := ⟨t, l, p.main.name ++ "_main", mainLocals t⟩) accounts
    left.main
  exact addFunction_cutShort body (classFunctions_cutShort accounts left.classes) {}

omit accounts in
/-- What is generated from damaged results is what is generated from the whole ones, or it breaks off
with an error that the damage accounts for. -/
theorem generate_damaged (d : Damage) (t : ClassTable) (l : Layout) (p : Program .checked) :
    generate (d.table t) l (d.program p) = generate t l p ∨
      ∃ e, (generate (d.table t) l (d.program p)).2 = some e ∧ d.Affects t p e ∧
        ∃ rest, (generate (d.table t) l (d.program p)).1.text ++ rest =
          (generate t l p).1.text := by
  rcases programFunctions_cutShort (l := l) d.accounts_affects (d.program_left t p) with
    same | ⟨e, failure, he, rest, text⟩
  · left
    rw [generate, generate, same]
  · right
    refine ⟨e, failure, he, rest, ?_⟩
    rw [generate, generate, Module.text, Module.text, String.append_assoc]
    exact congrArg _ text

end Functions

end MiniJava.Codegen
