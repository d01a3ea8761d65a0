import MiniJava.Check.Declarations
import MiniJava.Proofs.Findings

/-!
# What a check can report

What a check finds is at the line it is made for, and it has one or two errors to report. A property
of what is found in a body is decided by these errors, without another look at the checks.
-/
namespace MiniJava.Check

variable {line : Nat} {f : Finding}

theorem mem_report_iff {α : Type} {a : α} {e : SemanticError} :
    f ∈ (do report line e; return a : Found α).findings ↔ f = ⟨line, e⟩ := by
  simp

theorem mem_checkTy {t : ClassTable} {ty : Ty} (h : f ∈ (checkTy t line ty).findings) :
    ∃ x, f = ⟨line, .unknownType x (Name.closest? x t.names)⟩ := by
  unfold checkTy at h
  split at h
  · split at h
    · cases h
    · exact ⟨_, List.mem_singleton.mp h⟩
  · cases h

section Scopes
variable {s : Scope} {x : Name}

theorem mem_resolve (h : f ∈ (s.resolve line x).findings) :
    f = ⟨line, .mainParamUsed x⟩ ∨
      f = ⟨line, .unknownIdentifier x (Name.closest? x s.visibleNames)⟩ := by
  rw [Scope.resolve] at h
  split at h
  · cases h
  · split at h
    · exact Or.inl (mem_report_iff.mp h)
    · split at h
      · cases h
      · exact Or.inr (mem_report_iff.mp h)

theorem mem_checkInitialized {v : VarRef} (h : f ∈ (s.checkInitialized line x v).findings) :
    f = ⟨line, .uninitialized x⟩ := by
  rw [Scope.checkInitialized] at h
  split at h
  · cases h
  · exact List.mem_singleton.mp h

theorem mem_instantiate (h : f ∈ (s.instantiate line x).findings) :
    f = ⟨line, .unknownType x (Name.closest? x s.table.names)⟩ ∨
      f = ⟨line, .cannotInstantiateMainClass x⟩ := by
  rw [Scope.instantiate] at h
  split at h
  · exact Or.inl (mem_report_iff.mp h)
  · split at h
    · exact Or.inr (mem_report_iff.mp h)
    · cases h

/-- Only the methods of the class of the receiver are suggested. -/
theorem mem_callee {ty : Ty} (h : f ∈ (s.callee line ty x).findings) :
    (ty.className?.bind s.table.find? = none ∧ f = ⟨line, .cannotDereference ty⟩) ∨
      ∃ c, ty.className?.bind s.table.find? = some c ∧ f = ⟨line, .unknownMethod x ty
        (Name.closest? x ((s.table.visibleMethods c).map (·.name)))⟩ := by
  rw [Scope.callee] at h
  split at h
  · rename_i receiver
    exact Or.inl ⟨receiver, mem_report_iff.mp h⟩
  · rename_i c receiver
    split at h
    · exact Or.inr ⟨c, receiver, mem_report_iff.mp h⟩
    · cases h

end Scopes

section Types
variable {e : Expr Note}

theorem mem_expect {ty : Ty} {error : Ty → SemanticError}
    (h : f ∈ (expect line e ty error).findings) : ∃ found, f = ⟨line, error found⟩ := by
  rw [expect] at h
  split at h
  · cases h
  · split at h
    · cases h
    · exact ⟨_, mem_report_iff.mp h⟩

theorem mem_typeBinary {op : BinOp} {lhs rhs : Expr Note}
    (h : f ∈ (typeBinary line op lhs rhs).findings) :
    ∃ l r, f = ⟨line, .invalidOperands op l r⟩ := by
  rw [typeBinary] at h
  split at h
  · split at h
    · cases h
    · exact ⟨_, _, mem_report_iff.mp h⟩
  · cases h

theorem mem_elementTy (h : f ∈ (elementTy line e).findings) : ∃ ty, f = ⟨line, .notAnArray ty⟩ := by
  rw [elementTy] at h
  split at h
  · cases h
  · split at h
    · cases h
    · exact ⟨_, mem_report_iff.mp h⟩

theorem mem_checkArg {s : Scope} {method : Name} {position : Nat} {ty : Ty}
    (h : f ∈ (checkArg s line method position ty e).findings) :
    ∃ found, f = ⟨line, .argTypeMismatch method position ty found⟩ := by
  rw [checkArg] at h
  split at h
  · cases h
  · split at h
    · cases h
    · exact ⟨_, mem_report_iff.mp h⟩

theorem mem_checkStored {t : ClassTable} {ty : Ty}
    (h : f ∈ (checkStored t line ty e).findings) :
    ∃ found, f = ⟨line, .incompatibleTypes ty found⟩ := by
  rw [checkStored] at h
  split at h
  · cases h
  · split at h
    · cases h
    · exact ⟨_, List.mem_singleton.mp h⟩

end Types

end MiniJava.Check
