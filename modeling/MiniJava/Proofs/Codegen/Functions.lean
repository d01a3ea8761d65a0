import MiniJava.Codegen.Generate
import MiniJava.Identity
import MiniJava.Proofs.Codegen.Emit

/-!
# Functions of a module

Every function of a module is generated from the body of `main` or of a method, with the labels that
the functions before it have left.
-/
namespace MiniJava.Codegen

open IR

/-- What a function is generated from: its first line, what its code refers to, the expressions and
targets of its body, and its code. -/
structure Source where
  header : Header
  env : Env
  items : List (Item Note Target)
  code : Gen Unit

namespace Source

def ofMain (t : ClassTable) (l : Layout) (p : Program .checked) : Source :=
  let c : Env := ⟨t, l, p.main.name ++ "_main", mainLocals t⟩
  ⟨mainHeader, c, bodyItems p.main.body, mainBody c p.main.body⟩

def ofMethod (t : ClassTable) (l : Layout) (cls : Name) (m : Method) (d : MethodDecl .checked) :
    Source :=
  let c : Env := ⟨t, l, cls ++ "_" ++ m.name, m.locals⟩
  ⟨methodHeader t m, c, d.items, methodBody c m d.body d.result⟩

end Source

/-- The bodies of a program that code is generated from. -/
inductive HasSource (t : ClassTable) (l : Layout) (p : Program .checked) : Source → Prop
  | main : HasSource t l p (.ofMain t l p)
  | method {d : ClassDecl .checked} {k : MethodDecl .checked} {id : ClassId} {r : MethodRef}
      {m : Method} : d ∈ p.classes → d.note = some id → k ∈ d.methods → k.note = some r →
      t.method? r = some m → HasSource t l p (.ofMethod t l (t.nameOf id) m k)

section Induction
variable {t : ClassTable} {l : Layout} {p : Program .checked} {P : LabelCounters → Built → Prop}
  (lacking : ∀ n e, P n (failed n e)) (none : ∀ n, P n ⟨[], n, none⟩)
  (add : ∀ s, HasSource t l p s → ∀ rest : LabelCounters → Built, (∀ n, P n (rest n)) →
    ∀ n, P n (addFunction n s.header s.code rest))
include lacking add

theorem methodFunctions_induction {d : ClassDecl .checked} (hd : d ∈ p.classes) {id : ClassId}
    (note : d.note = some id) {rest : LabelCounters → Built} (hrest : ∀ n, P n (rest n))
    (ks : List (MethodDecl .checked)) (sub : ks ⊆ d.methods) :
    ∀ n, P n (methodFunctions t l (t.nameOf id) rest ks n) := by
  induction ks with
  | nil => exact hrest
  | cons k ks ih =>
    intro n
    obtain ⟨hk, sub⟩ := List.cons_subset.mp sub
    rw [methodFunctions]
    split
    · exact lacking n _
    · rename_i r hr
      split
      · exact lacking n _
      · rename_i m hm
        exact add _ (.method hd note hk hr hm) _ (ih sub) n

include none

theorem classFunctions_induction (ds : List (ClassDecl .checked)) (sub : ds ⊆ p.classes) :
    ∀ n, P n (classFunctions t l ds n) := by
  induction ds with
  | nil => exact none
  | cons d ds ih =>
    intro n
    obtain ⟨hd, sub⟩ := List.cons_subset.mp sub
    rw [classFunctions]
    split
    · exact lacking n _
    · rename_i id note
      exact methodFunctions_induction lacking add hd note (ih sub) _ (List.Subset.refl _) n

/-- What holds of no functions, and of a function and more if it holds of more, holds of all the
functions of a program. -/
theorem programFunctions_induction : P {} (programFunctions t l p) :=
  add _ .main _ (classFunctions_induction lacking none add p.classes (List.Subset.refl _)) {}

end Induction

/-- A function is the code of its source, and it is finished if the code is. -/
def Source.function (s : Source) (n : LabelCounters) : Function :=
  ⟨s.header, (s.code { labels := n }).code, (s.code { labels := n }).result.isOk⟩

theorem mem_addFunction {n : LabelCounters} {s : Source} {rest : LabelCounters → Built}
    {f : Function} (hf : f ∈ (addFunction n s.header s.code rest).functions) :
    f = s.function n ∨ ∃ n', f ∈ (rest n').functions := by
  rw [addFunction] at hf
  rw [Source.function]
  generalize s.code { labels := n } = e at hf
  obtain ⟨result, code, cursor⟩ := e
  cases result with
  | error failure => exact Or.inl (List.mem_singleton.mp hf)
  | ok u =>
    rcases List.mem_cons.mp hf with hf | hf
    · exact Or.inl hf
    · exact Or.inr ⟨_, hf⟩

theorem exists_source {t : ClassTable} {l : Layout} {p : Program .checked} :
    ∀ f ∈ (generate t l p).1.functions, ∃ s n, HasSource t l p s ∧ f = s.function n := by
  refine programFunctions_induction
    (P := fun _ b => ∀ f ∈ b.functions, ∃ s n, HasSource t l p s ∧ f = s.function n)
    (fun _ _ f hf => (by cases hf)) (fun _ f hf => (by cases hf)) ?_
  intro s hs rest ih n f hf
  rcases mem_addFunction hf with rfl | ⟨n', hf⟩
  · exact ⟨s, n, hs, rfl⟩
  · exact ih n' f hf

section Items
variable {ν τ : Type}

mutual

/-- What is inside an expression that is inside another one is inside that one. -/
theorem all_subset : ∀ {e x : Expr ν}, x ∈ e.all → x.all ⊆ e.all
  | .node line note form, x, hx => by
    rcases List.mem_cons.mp hx with rfl | hx
    · exact List.Subset.refl _
    · exact List.Subset.trans (allForm_subset hx) (List.subset_cons_self _ _)

theorem allForm_subset : ∀ {form : ExprForm ν} {x : Expr ν}, x ∈ form.all → x.all ⊆ form.all
  | .binary _ a b, x, hx | .lookup a b, x, hx => by
    rcases List.mem_append.mp hx with hx | hx
    · exact List.Subset.trans (all_subset hx) (List.subset_append_left _ _)
    · exact List.Subset.trans (all_subset hx) (List.subset_append_right _ _)
  | .send r _ args, x, hx => by
    rcases List.mem_append.mp hx with hx | hx
    · exact List.Subset.trans (all_subset hx) (List.subset_append_left _ _)
    · exact List.Subset.trans (allArgs_subset hx) (List.subset_append_right _ _)
  | .length e, x, hx | .newIntArray e, x, hx | .newBooleanArray e, x, hx | .not e, x, hx
  | .bracket e, x, hx => all_subset (e := e) hx

theorem allArgs_subset : ∀ {es : List (Expr ν)} {x : Expr ν}, x ∈ allArgs es → x.all ⊆ allArgs es
  | e :: es, x, hx => by
    rcases List.mem_append.mp hx with hx | hx
    · exact List.Subset.trans (all_subset hx) (List.subset_append_left _ _)
    · exact List.Subset.trans (allArgs_subset hx) (List.subset_append_right _ _)

end

/-- What is inside a listed expression is listed. -/
def Closed (items : List (Item ν τ)) : Prop :=
  ∀ e, .expr e ∈ items → ∀ x ∈ e.all, .expr x ∈ items

theorem Closed.append {xs ys : List (Item ν τ)} (hx : Closed xs) (hy : Closed ys) :
    Closed (xs ++ ys) := by
  intro e he x inside
  rcases List.mem_append.mp he with he | he
  · exact List.mem_append_left _ (hx e he x inside)
  · exact List.mem_append_right _ (hy e he x inside)

theorem Closed.target {x : Located Name} {note : τ} {xs : List (Item ν τ)} (h : Closed xs) :
    Closed (.target x note :: xs) := by
  intro e he y inside
  rcases List.mem_cons.mp he with he | he
  · cases he
  · exact List.mem_cons_of_mem _ (h e he y inside)

theorem closed_items (e : Expr ν) : Closed (e.items : List (Item ν τ)) := by
  intro x hx y inside
  obtain ⟨z, hz, same⟩ := List.mem_map.mp hx
  obtain rfl := Item.expr.inj same
  exact List.mem_map_of_mem (all_subset hz inside)

mutual

theorem closed_stmtItems : ∀ s : Stmt ν τ, Closed s.items
  | .block _ body => closed_bodyItems body
  | .assign _ _ _ e => (closed_items e).target
  | .arrayAssign _ _ _ i e => ((closed_items i).append (closed_items e)).target
  | .ifElse _ e yes no =>
    ((closed_items e).append (closed_stmtItems yes)).append (closed_stmtItems no)
  | .while _ e body => (closed_items e).append (closed_stmtItems body)
  | .print _ e => closed_items e

theorem closed_bodyItems : ∀ body : List (Stmt ν τ), Closed (bodyItems body)
  | [] => nofun
  | s :: body => (closed_stmtItems s).append (closed_bodyItems body)

end

end Items

theorem HasSource.closed {t : ClassTable} {l : Layout} {p : Program .checked} {s : Source}
    (h : HasSource t l p s) : Closed s.items := by
  cases h with
  | main => exact closed_bodyItems _
  | method _ _ _ _ _ => exact (closed_bodyItems _).append (closed_items _)

end MiniJava.Codegen
