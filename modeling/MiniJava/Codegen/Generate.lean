import MiniJava.Check.Analysis
import MiniJava.Codegen.Function
import MiniJava.IR.Module

/-! The module of a program: `main`, then a function for each method in the order of declaration. If
something is lacking, the module ends where it was asked for. -/
namespace MiniJava.Codegen
open IR

/-- Functions one after the other, the last of them unfinished after a failure. -/
structure Built where
  functions : List Function
  labels : LabelCounters
  failure : Option CodegenError

def addFunction (labels : LabelCounters) (h : Header) (body : Gen Unit)
    (rest : LabelCounters → Built) : Built :=
  let e := body { labels }
  match e.result with
  | .error failure => ⟨[⟨h, e.code, false⟩], e.cursor.labels, some failure⟩
  | .ok () =>
    let r := rest e.cursor.labels
    ⟨⟨h, e.code, true⟩ :: r.functions, r.labels, r.failure⟩

def failed (labels : LabelCounters) (e : CodegenError) : Built := ⟨[], labels, some e⟩

def methodFunctions (t : ClassTable) (l : Layout) (cls : Name) (rest : LabelCounters → Built) :
    List (MethodDecl .checked) → LabelCounters → Built
  | [], labels => rest labels
  | d :: ds, labels =>
    match d.note with
    | none => failed labels (.missingMethod d.name)
    | some ref =>
      match t.method? ref with
      | none => failed labels .dangling
      | some m =>
        let c : Env := ⟨t, l, cls ++ "_" ++ m.name, m.locals⟩
        addFunction labels (methodHeader t m) (methodBody c m d.body d.result)
          (methodFunctions t l cls rest ds)

def classFunctions (t : ClassTable) (l : Layout) : List (ClassDecl .checked) → LabelCounters → Built
  | [], labels => ⟨[], labels, none⟩
  | d :: ds, labels =>
    match d.note with
    | none => failed labels (.missingClass d.name)
    | some id => methodFunctions t l (t.nameOf id) (classFunctions t l ds) d.methods labels

def mainLocals (t : ClassTable) : List Local :=
  (((t.get? 0).bind (·.entry)).map (·.locals)).getD []

def programFunctions (t : ClassTable) (l : Layout) (p : Program .checked) : Built :=
  let c : Env := ⟨t, l, p.main.name ++ "_main", mainLocals t⟩
  addFunction {} mainHeader (mainBody c p.main.body) (classFunctions t l p.classes)

def generate (t : ClassTable) (l : Layout) (p : Program .checked) : Module × Option CodegenError :=
  let built := programFunctions t l p
  (⟨l, built.functions⟩, built.failure)

end MiniJava.Codegen
