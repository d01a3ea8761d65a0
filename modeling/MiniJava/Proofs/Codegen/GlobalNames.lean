import Mathlib.Data.List.Nodup
import MiniJava.Document.Names
import MiniJava.Proofs.Codegen.Checked
import MiniJava.Proofs.Codegen.Functions
import MiniJava.Proofs.Codegen.LocalNames
import MiniJava.Proofs.Declared.Accepted
import MiniJava.Proofs.IR.Typing

/-!
# Names of globals

What a module should define: the prelude, a table for each class, `main`, and a function for each
method, which is named like its class and itself with a dot between. No two of them have one name if
the names in the program have no dots.
-/
namespace MiniJava

open IR Codegen Check ClassTable

def ClassDecl.functionNames (d : ClassDecl .bare) : List Name :=
  d.methods.map fun m => d.name ++ "." ++ m.name

/-- The names of the globals of a program, in the order of its module. -/
def Program.globalNames (p : Program .bare) : List Name :=
  preludeNames ++ p.classNames.map (fun n => s!".{n}_vtable") ++
    "main" :: p.classes.flatMap ClassDecl.functionNames

section Names
variable {p : Program .bare}

theorem Program.classNames_subset : p.classNames ⊆ p.names := by
  intro n hn
  rcases List.mem_cons.mp hn with rfl | hn
  · exact List.mem_append_left _ (by simp [MainClass.names])
  · obtain ⟨d, hd, rfl⟩ := List.mem_map.mp hn
    exact List.mem_append_right _ (List.mem_flatMap.mpr ⟨d, hd, by simp [ClassDecl.names]⟩)

theorem VarDecl.name_mem (v : VarDecl) : v.name ∈ v.names :=
  List.mem_append_right _ List.mem_cons_self

theorem Program.mainVar_mem {v : VarDecl} (hv : v ∈ p.main.vars) : v.name ∈ p.names := by
  refine List.mem_append_left _ (List.mem_append_left _ ?_)
  exact List.mem_cons_of_mem _ (List.mem_cons_of_mem _ (List.mem_flatMap.mpr ⟨v, hv, v.name_mem⟩))

section Method
variable {d : ClassDecl .bare} (hd : d ∈ p.classes) {k : MethodDecl .bare} (hk : k ∈ d.methods)
include hd hk

theorem Program.names_of_method : k.names ⊆ p.names := by
  intro n hn
  refine List.mem_append_right _ (List.mem_flatMap.mpr ⟨d, hd, ?_⟩)
  exact List.mem_append_right _ (List.mem_flatMap.mpr ⟨k, hk, hn⟩)

theorem Program.methodName_mem : k.name ∈ p.names :=
  names_of_method hd hk (by simp [MethodDecl.names])

theorem Program.local_mem {v : VarDecl} (hv : v ∈ k.params ++ k.vars) : v.name ∈ p.names := by
  refine names_of_method hd hk ?_
  have named := v.name_mem
  rw [MethodDecl.names]
  rcases List.mem_append.mp hv with hv | hv
  · have inside := List.mem_flatMap.mpr ⟨v, hv, named⟩
    simp [inside]
  · have inside := List.mem_flatMap.mpr ⟨v, hv, named⟩
    simp [inside]

end Method

end Names

section Distinct
variable {p : Program .bare} (identifiers : ∀ n ∈ p.names, IsIdentifier n)

theorem IR.IsIdentifier.dot_not_mem {name : Name} (h : IsIdentifier name) : '.' ∉ name.toList := by
  intro dot
  cases h.chars '.' dot

theorem toList_functionName (cls method : Name) :
    (cls ++ "." ++ method).toList = cls.toList ++ '.' :: method.toList := by
  rw [String.append_assoc, String.toList_append, String.toList_append]
  rfl

theorem functionName_injective {a b m n : Name} (hm : IsIdentifier m) (hn : IsIdentifier n)
    (same : a ++ "." ++ m = b ++ "." ++ n) : a = b ∧ m = n := by
  have chars := congrArg String.toList same
  rw [toList_functionName, toList_functionName] at chars
  obtain ⟨classes, methods⟩ := append_mark_inj hm.dot_not_mem hn.dot_not_mem chars
  exact ⟨String.toList_inj.mp classes, String.toList_inj.mp methods⟩

include identifiers

theorem functionNames_nodup (rules : p.HierarchyRules) :
    (p.classes.flatMap ClassDecl.functionNames).Nodup := by
  have named : ∀ d ∈ p.classes, ∀ k ∈ d.methods, IsIdentifier k.name :=
    fun d hd k hk => identifiers _ (Program.methodName_mem hd hk)
  refine List.nodup_flatMap.mpr ⟨fun d hd => ?_, ?_⟩
  · have methods := (rules.members d hd).methods
    have keys : d.functionNames = (d.methods.map (·.name)).map (d.name ++ "." ++ ·) :=
      List.map_map.symm
    rw [keys]
    exact methods.map fun _ _ same => (String.append_right_inj _).mp same
  · have classes : (p.classes.map (·.name)).Nodup := (List.nodup_cons.mp rules.names).2
    refine (List.pairwise_map.mp classes).imp_of_mem fun {d e} hd he other n hn hn' => ?_
    obtain ⟨k, hk, rfl⟩ := List.mem_map.mp hn
    obtain ⟨l, hl, same⟩ := List.mem_map.mp hn'
    exact other (functionName_injective (named e he l hl) (named d hd k hk) same).1.symm

theorem globalNames_nodup (rules : p.HierarchyRules) : p.globalNames.Nodup := by
  have functions := functionNames_nodup identifiers rules
  -- a function of a method has a dot, but not in front
  have dots : ∀ n ∈ p.classes.flatMap ClassDecl.functionNames,
      '.' ∈ n.toList ∧ isDotted n = false := by
    intro n hn
    obtain ⟨d, hd, hn⟩ := List.mem_flatMap.mp hn
    obtain ⟨k, _, rfl⟩ := List.mem_map.mp hn
    obtain ⟨c, cs, split, other⟩ := (identifiers d.name
      (Program.classNames_subset (List.mem_cons_of_mem _ (List.mem_map_of_mem hd)))).head_ne_dot
    rw [toList_functionName]
    refine ⟨by simp, ?_⟩
    rw [isDotted, toList_functionName, split]
    simpa using other
  have tables : ∀ n ∈ p.classNames.map (fun n => s!".{n}_vtable"), isDotted n = true := by
    intro n hn
    obtain ⟨m, _, rfl⟩ := List.mem_map.mp hn
    change isDotted ("." ++ m ++ "_vtable") = true
    rw [isDotted, String.append_assoc, String.toList_append]
    rfl
  have fixed : ∀ n ∈ "main" :: preludeNames, '.' ∉ n.toList ∧ isDotted n = false := by decide
  obtain ⟨main, prelude⟩ := List.forall_mem_cons.mp fixed
  rw [Program.globalNames]
  refine List.nodup_append.mpr ⟨List.nodup_append.mpr ⟨by decide, ?_, ?_⟩,
    List.nodup_cons.mpr ⟨fun inside => main.1 (dots _ inside).1, functions⟩, ?_⟩
  · exact rules.names.map fun _ _ same => tableName_injective same
  · rintro n hn _ hm rfl
    exact absurd (tables n hm) (by rw [(prelude n hn).2]; decide)
  · rintro n hn _ hm rfl
    rcases List.mem_append.mp hn with hn | hn
    · rcases List.mem_cons.mp hm with rfl | hm
      · exact absurd hn (by decide)
      · exact (prelude n hn).1 (dots n hm).1
    · have dotted := tables n hn
      rcases List.mem_cons.mp hm with rfl | hm
      · exact absurd dotted (by decide)
      · exact absurd dotted (by rw [(dots n hm).2]; decide)

end Distinct

section Functions
variable {t : ClassTable} {l : Layout}

theorem failure_addFunction {n : LabelCounters} {h : Header} {body : Gen Unit}
    {rest : LabelCounters → Built} (ok : (addFunction n h body rest).failure = none) :
    ∃ n', (rest n').failure = none ∧ (addFunction n h body rest).functions.map (·.header.name) =
      h.name :: (rest n').functions.map (·.header.name) := by
  rw [addFunction] at ok ⊢
  generalize body { labels := n } = e at ok ⊢
  obtain ⟨result, code, cursor⟩ := e
  cases result with
  | error failure => cases ok
  | ok u => exact ⟨_, ok, rfl⟩

/-- Without a failure there is a function for every method. -/
theorem methodFunctions_names {cls : Name} {rest : LabelCounters → Built}
    {name : MethodDecl .checked → Name} (ks : List (MethodDecl .checked))
    (named : ∀ k ∈ ks, ∀ r m, k.note = some r → t.method? r = some m →
      (methodHeader t m).name = name k) :
    ∀ n, (methodFunctions t l cls rest ks n).failure = none →
      ∃ n', (rest n').failure = none ∧ (methodFunctions t l cls rest ks n).functions.map
        (·.header.name) = ks.map name ++ (rest n').functions.map (·.header.name) := by
  induction ks with
  | nil => exact fun n ok => ⟨n, ok, rfl⟩
  | cons k ks ih =>
    intro n ok
    obtain ⟨here, named⟩ := List.forall_mem_cons.mp named
    rw [methodFunctions] at ok ⊢
    split at ok
    · cases ok
    · rename_i r hr
      split at ok
      · cases ok
      · rename_i m hm
        obtain ⟨n₁, ok₁, names⟩ := failure_addFunction ok
        obtain ⟨n₂, ok₂, more⟩ := ih named n₁ ok₁
        exact ⟨n₂, ok₂, by rw [names, more, here r m hr hm]; rfl⟩

theorem classFunctions_names {name : ClassDecl .checked → MethodDecl .checked → Name}
    (ds : List (ClassDecl .checked))
    (named : ∀ d ∈ ds, ∀ k ∈ d.methods, ∀ r m, k.note = some r → t.method? r = some m →
      (methodHeader t m).name = name d k) :
    ∀ n, (classFunctions t l ds n).failure = none →
      (classFunctions t l ds n).functions.map (·.header.name) =
        ds.flatMap fun d => d.methods.map (name d) := by
  induction ds with
  | nil => exact fun _ _ => rfl
  | cons d ds ih =>
    intro n ok
    obtain ⟨here, named⟩ := List.forall_mem_cons.mp named
    rw [classFunctions] at ok ⊢
    split at ok
    · cases ok
    · obtain ⟨n', ok', names⟩ := methodFunctions_names d.methods here n ok
      rw [names, ih named n' ok', List.flatMap_cons]

end Functions

section Accepted
variable {p : Program .bare} {c : Checked} {t u : ClassTable} {layout : Layout}
  (known : Accepted p c t) (h : Layout.Prepared t u layout)
include known h

/-- The function of a method is named like the class and the method. -/
theorem Check.Accepted.header_name {d : ClassDecl .checked} (hd : d ∈ c.program.classes)
    {k : MethodDecl .checked} (hk : k ∈ d.methods) {r : MethodRef} {m : Method}
    (hr : k.note = some r) (hm : u.method? r = some m) :
    (methodHeader u m).name = d.name ++ "." ++ k.name := by
  obtain ⟨r', hr', ⟨cls, own⟩, _⟩ := (known.recorded.classes d hd).methods k hk
  obtain rfl := Option.some.inj (hr.symm.trans hr')
  obtain ⟨k', hk', name⟩ := exists_method_of_own own
  obtain ⟨m', hm', declared⟩ := h.same.symm.exists_method? hk'
  obtain rfl := Option.some.inj (hm.symm.trans hm')
  obtain ⟨b, hb, clsName⟩ := h.wellFormed.find?_eq_some_iff.mp cls
  have declaredIn : k'.owner = r.cls := h.wellFormed.owner_eq _ _ (mem_methods_of_method? hk')
  have owner : m.owner = r.cls := (congrArg Method.owner declared).trans declaredIn
  have nameOf : u.nameOf r.cls = d.name := by
    rw [h.same.outline.nameOf, ClassTable.nameOf, hb]
    exact clsName
  have methodName : m.name = k.name := (congrArg Method.name declared).trans name
  rw [methodHeader, owner, nameOf, methodName]

/-- The functions of an accepted program are `main` and one for each method. -/
theorem Check.Accepted.headers :
    (generate u layout c.program).1.functions.map (·.header.name) =
      "main" :: p.classes.flatMap ClassDecl.functionNames := by
  have ok := (known.usable h).generate
  obtain ⟨n, ok, names⟩ := failure_addFunction ok
  have rest := classFunctions_names c.program.classes
    (fun d hd k hk r m hr hm => known.header_name h hd hk hr hm) n ok
  have bare : p.classes.flatMap ClassDecl.functionNames =
      c.program.classes.flatMap fun d => d.methods.map fun k => d.name ++ "." ++ k.name := by
    rw [← known.bare]
    refine (List.flatMap_map _ _ _).trans (List.flatMap_congr fun d _ => ?_)
    exact List.map_map
  rw [bare, ← rest]
  exact names

end Accepted

end MiniJava
