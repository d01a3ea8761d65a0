import MiniJava.Proofs.Declarations

/-!
# What may be declared

The rules for the declarations of a program, read off its tree alone, and the class table that its
declarations describe. A superclass has to be declared before the class that extends it, while a
declared type may be any class of the program.
-/
namespace MiniJava

/-- The names of the classes, the main class first. -/
def Program.classNames (p : Program .bare) : List Name :=
  p.main.name :: p.classes.map (·.name)

/-- Fields have different names, methods have different names, and no method is named like the
class or like one of its fields. -/
structure ClassDecl.MembersDistinct (d : ClassDecl .bare) : Prop where
  fields : (d.fields.map (·.name)).Nodup
  methods : (d.methods.map (·.name)).Nodup
  not_class : ∀ m ∈ d.methods, m.name ≠ d.name
  not_field : ∀ m ∈ d.methods, m.name ∉ d.fields.map (·.name)

/-- A class may follow the main class and the classes before it. -/
structure ClassDecl.Follows (d : ClassDecl .bare) (main : Name) (before : List (ClassDecl .bare)) :
    Prop where
  new : d.name ∉ main :: before.map (·.name)
  superclass : ∀ s, d.superclass = some s → s ∈ before.map (·.name)
  members : d.MembersDistinct

structure Program.HierarchyRules (p : Program .bare) : Prop where
  names : p.classNames.Nodup
  superclass : ∀ before d after, p.classes = before ++ d :: after →
    ∀ s, d.superclass = some s → s ∈ before.map (·.name)
  members : ∀ d ∈ p.classes, d.MembersDistinct

/-- A class type has to be one of the classes. -/
def Ty.DeclaredIn (names : List Name) (ty : Ty) : Prop := ∀ n, ty = .object n → n ∈ names

/-- The types of a method are declared, and its parameters and variables have different names. -/
structure MethodDecl.DeclarationRules {N : Notes} (names : List Name) (m : MethodDecl N) :
    Prop where
  returnTy : m.returnTy.DeclaredIn names
  types : ∀ v ∈ m.params ++ m.vars, v.ty.DeclaredIn names
  distinct : ((m.params ++ m.vars).map (·.name)).Nodup

structure ClassDecl.DeclarationRules {N : Notes} (names : List Name) (d : ClassDecl N) : Prop where
  fields : ∀ v ∈ d.fields, v.ty.DeclaredIn names
  methods : ∀ m ∈ d.methods, m.DeclarationRules names

/-- In `main` the name of the parameter is taken as well. -/
structure MainClass.DeclarationRules {N : Notes} (names : List Name) (m : MainClass N) : Prop where
  types : ∀ v ∈ m.vars, v.ty.DeclaredIn names
  distinct : (m.param :: m.vars.map (·.name)).Nodup

structure Program.DeclarationRules (p : Program .bare) : Prop where
  main : p.main.DeclarationRules p.classNames
  classes : ∀ d ∈ p.classes, d.DeclarationRules p.classNames

/-- The rules for the classes one after the other. -/
theorem Program.hierarchyRules_iff {p : Program .bare} :
    p.HierarchyRules ↔
      ∀ before d after, p.classes = before ++ d :: after → d.Follows p.main.name before := by
  constructor
  · intro rules before d after split
    have names := rules.names
    rw [classNames, split, List.map_append, List.map_cons, ← List.cons_append] at names
    exact
      { new := fun known => (List.nodup_append.mp names).2.2 _ known _ List.mem_cons_self rfl
        superclass := rules.superclass before d after split
        members := rules.members d (split ▸ List.mem_append_right before List.mem_cons_self) }
  · intro follows
    have distinct : ∀ after before, p.classes = before ++ after →
        (p.main.name :: before.map (·.name)).Nodup → p.classNames.Nodup := by
      intro after
      induction after with
      | nil =>
        intro before split nodup
        rw [classNames, split, List.append_nil]
        exact nodup
      | cons d after ih =>
        intro before split nodup
        refine ih (before ++ [d]) (by rw [split, List.append_assoc]; rfl) ?_
        rw [List.map_append, ← List.cons_append, List.nodup_append]
        refine ⟨nodup, by simp, ?_⟩
        intro x hx y hy same
        rw [List.map_singleton, List.mem_singleton] at hy
        exact (follows before d after split).new (hy ▸ same ▸ hx)
    refine ⟨distinct p.classes [] rfl (by simp), ?_, ?_⟩
    · exact fun before d after split => (follows before d after split).superclass
    · intro d hd
      obtain ⟨before, after, split⟩ := List.append_of_mem hd
      exact (follows before d after split).members

namespace Check

/-- A field as it is entered. -/
def fieldOf (initialized : Bool) (d : VarDecl) : Field :=
  { name := d.name, ty := d.ty, line := d.line, initialized }

/-- A method without its parameters and variables. -/
def headOf {N : Notes} (c : ClassId) (m : MethodDecl N) : Method :=
  { name := m.name, line := m.line, owner := c, returnTy := m.returnTy }

/-- A method with its parameters, which have a value, and its variables, which do not. -/
def methodOf {N : Notes} (c : ClassId) (m : MethodDecl N) : Method :=
  { headOf c m with
    paramCount := m.params.length
    locals := m.params.map (localOf true) ++ m.vars.map (localOf false) }

/-- The parent of a class is the class of the name that it extends, which stands before it. -/
def ParentOf (before : List (ClassDecl .bare)) (d : ClassDecl .bare) (parent : Option ClassId) :
    Prop :=
  match d.superclass with
  | none => parent = none
  | some s => ∃ j e, before[j]? = some e ∧ e.name = s ∧ parent = some (j + 1)

/-- The class at a number is the one that was declared there. -/
structure Mirrored (strict : Bool) (before : List (ClassDecl .bare)) (c : ClassId)
    (d : ClassDecl .bare) (k : Class) : Prop where
  name : k.name = d.name
  line : k.line = d.line
  parent : ParentOf before d k.parent
  fields : k.fields = d.fields.map (fieldOf !strict)
  methods : k.methods = d.methods.map (methodOf c)
  entry : k.entry = none

/-- The table has the main class first and then the classes in the order of the program. -/
structure Mirrors (strict : Bool) (p : Program .bare) (t : ClassTable) : Prop where
  size : t.size = p.classes.length + 1
  main : t.get? 0 = some
    { name := p.main.name
      line := p.main.line
      entry := some { param := p.main.param, locals := p.main.vars.map (localOf false) } }
  classes : ∀ before d after, p.classes = before ++ d :: after →
    ∃ k, t.get? (before.length + 1) = some k ∧ Mirrored strict before (before.length + 1) d k

end Check

end MiniJava
