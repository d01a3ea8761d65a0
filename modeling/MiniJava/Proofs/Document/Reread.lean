import MiniJava.Proofs.Document.Written

/-!
# Read programs are read back

Whatever spelling a program was read from, its encoding is accepted at the same depth: lines that
were read fit, and every node that was found below a level is written below that level again. The
induction is on the levels that may still be opened.
-/

namespace MiniJava.Document
open Json

theorem leaf?_reread {tag : String} {content : Json} {f : ExprForm Unit}
    (h : leaf? tag content = some f) (n : Nat) : form? (n + 1) (ofForm f) = some f := by
  unfold leaf? at h
  split at h
  · obtain ⟨v, _, rfl⟩ := Option.map_eq_some_iff.mp h
    exact form?_int n v
  · obtain ⟨x, _, rfl⟩ := Option.map_eq_some_iff.mp h
    exact form?_name n x
  · obtain ⟨c, _, rfl⟩ := Option.map_eq_some_iff.mp h
    exact form?_newObject n c
  · split at h
    · exact form?_plain tag h (n + 1)
    · simp at h

theorem mapM_reread {α : Type} {read : Json → Option α} {item : α → Json} {items : List Json}
    {xs : List α} (h : items.mapM read = some xs)
    (back : ∀ v x, read v = some x → read (item x) = some x) :
    ∀ x ∈ xs, read (item x) = some x := by
  induction items generalizing xs with
  | nil =>
    obtain rfl := Option.some.inj h
    simp
  | cons v items ih =>
    rw [List.mapM_cons] at h
    obtain ⟨x, hx, h⟩ := Option.bind_eq_some_iff.mp h
    obtain ⟨ys, hys, h⟩ := Option.bind_eq_some_iff.mp h
    obtain rfl := Option.some.inj h
    exact List.forall_mem_cons.mpr ⟨back v x hx, ih hys⟩

/-- What holds of every document that may open so many levels. -/
structure Rereads (n : Nat) : Prop where
  expr : ∀ v e, expr? n v = some e → expr? n (ofExpr e) = some e
  form : ∀ v f, form? n v = some f → form? n (ofForm f) = some f

theorem rereads_args {n : Nat} (ih : Rereads n) {items : List Json} {es : List (Expr Unit)}
    (h : items.mapM (expr? n) = some es) : (ofArgs es).mapM (expr? n) = some es := by
  rw [ofArgs_eq_map]
  exact mapM_written (mapM_reread h ih.expr)

theorem expr?_reread {n : Nat} (ih : ∀ m < n, Rereads m) {v : Json} {e : Expr Unit}
    (h : expr? n v = some e) : expr? n (ofExpr e) = some e := by
  cases n with
  | zero => simp [expr?] at h
  | succ n =>
    rw [expr?] at h
    split at h
    · obtain ⟨line, hline, h⟩ := Option.bind_eq_some_iff.mp h
      obtain ⟨f, hf, h⟩ := Option.bind_eq_some_iff.mp h
      obtain rfl := Option.some.inj h
      exact expr?_node (lt_of_line? hline) ((ih n (Nat.lt_succ_self n)).form _ f hf)
    · simp at h

theorem form?_reread {n : Nat} (ih : ∀ m < n, Rereads m) {v : Json} {f : ExprForm Unit}
    (h : form? n v = some f) : form? n (ofForm f) = some f := by
  rw [form?.eq_def] at h
  split at h
  case h_1 => exact form?_plain _ h _
  case h_2 =>
    split at h
    case h_1 =>
      rename_i unary
      obtain ⟨e, he, rfl⟩ := Option.map_eq_some_iff.mp h
      exact form?_of_unary unary ((ih _ (by omega)).expr _ e he)
    case h_2 =>
      rename_i binary _
      obtain ⟨a, ha, h⟩ := Option.bind_eq_some_iff.mp h
      obtain ⟨b, hb, h⟩ := Option.bind_eq_some_iff.mp h
      obtain rfl := Option.some.inj h
      have below := ih _ (Nat.lt_add_of_pos_right (k := 2) (by decide))
      exact form?_of_binary binary (below.expr _ a ha) (below.expr _ b hb)
    case h_3 => simp at h
    case h_4 =>
      split at h
      · split at h
        · obtain ⟨r, hr, h⟩ := Option.bind_eq_some_iff.mp h
          obtain ⟨es, hes, h⟩ := Option.bind_eq_some_iff.mp h
          obtain rfl := Option.some.inj h
          exact form?_of_send _ ((ih _ (by omega)).expr _ r hr) (rereads_args (ih _ (by omega)) hes)
        · simp at h
      · exact leaf?_reread h _
  case h_3 => simp at h

theorem rereads (n : Nat) : Rereads n := by
  induction n using Nat.strongRecOn with
  | ind n ih => exact ⟨fun _ _ => expr?_reread ih, fun _ _ => form?_reread ih⟩

theorem stmt?_reread {n : Nat} {v : Json} {s : Stmt Unit Unit} (h : stmt? n v = some s) :
    stmt? n (ofStmt s) = some s := by
  induction n using Nat.strongRecOn generalizing v s with
  | ind n ih =>
    cases n with
    | zero => simp [stmt?] at h
    | succ n =>
      rw [stmt?] at h
      split at h
      case h_2 => simp at h
      case h_1 =>
        obtain ⟨line, hline, h⟩ := Option.bind_eq_some_iff.mp h
        have fits := lt_of_line? hline
        split at h
        case h_1 k body _ _ =>
          obtain ⟨ss, hss, h⟩ := Option.bind_eq_some_iff.mp h
          obtain rfl := Option.some.inj h
          have back := mapM_reread hss fun _ _ => ih k (by omega)
          exact stmt?_block fits (by rw [ofBody_eq_map]; exact mapM_written back)
        case h_2 k x value _ _ =>
          obtain ⟨e, he, h⟩ := Option.bind_eq_some_iff.mp h
          obtain rfl := Option.some.inj h
          exact stmt?_assign fits x ((rereads k).expr _ e he)
        case h_3 k x index value _ _ =>
          obtain ⟨i, hi, h⟩ := Option.bind_eq_some_iff.mp h
          obtain ⟨e, he, h⟩ := Option.bind_eq_some_iff.mp h
          obtain rfl := Option.some.inj h
          exact stmt?_arrayAssign fits x ((rereads k).expr _ i hi) ((rereads k).expr _ e he)
        case h_4 k cond yes no _ _ =>
          obtain ⟨c, hc, h⟩ := Option.bind_eq_some_iff.mp h
          obtain ⟨s, hs, h⟩ := Option.bind_eq_some_iff.mp h
          obtain ⟨t, ht, h⟩ := Option.bind_eq_some_iff.mp h
          obtain rfl := Option.some.inj h
          exact stmt?_ifElse fits ((rereads k).expr _ c hc) (ih k (by omega) hs) (ih k (by omega) ht)
        case h_5 k cond body _ _ =>
          obtain ⟨c, hc, h⟩ := Option.bind_eq_some_iff.mp h
          obtain ⟨s, hs, h⟩ := Option.bind_eq_some_iff.mp h
          obtain rfl := Option.some.inj h
          exact stmt?_while fits ((rereads k).expr _ c hc) (ih k (by omega) hs)
        case h_6 k _ _ =>
          obtain ⟨e, he, h⟩ := Option.bind_eq_some_iff.mp h
          obtain rfl := Option.some.inj h
          exact stmt?_print fits ((rereads k).expr _ e he)
        case h_7 => simp at h

theorem list?_reread {α : Type} {item? : Nat → Json → Option α} {item : α → Json} {n : Nat}
    {slot : Option Json} {xs : List α} (h : list? item? n slot = some xs)
    (back : ∀ m v x, item? m v = some x → item? m (item x) = some x) :
    list? item? n (listSlot item xs) = some xs := by
  refine list?_listSlot fun some_item => ?_
  unfold list? at h
  split at h
  · exact absurd (Option.some.inj h).symm some_item
  · next m items => exact ⟨m, rfl, mapM_reread h (back m)⟩
  · simp at h

theorem ty?_reread {n : Nat} {v : Json} {t : Ty} (h : ty? n v = some t) :
    ty? n (ofTy t) = some t := by
  have plain : ∀ tag, plainTy? tag = some t → ty? n (ofTy t) = some t := by
    intro tag h
    unfold plainTy? at h
    split at h <;> simp only [Option.some.injEq, reduceCtorEq] at h <;> subst h <;>
      rw [ofTy, ofText, ty?] <;> rfl
  rw [ty?.eq_def] at h
  split at h
  · exact plain _ h
  · obtain rfl := Option.some.inj h
    rfl
  · exact plain _ h
  · simp at h

theorem var?_reread {n : Nat} {v : Json} {x : VarDecl} (h : var? n v = some x) :
    var? n (ofVar x) = some x := by
  cases n with
  | zero => simp [var?] at h
  | succ n =>
    rw [var?] at h
    split at h
    · obtain ⟨line, hline, h⟩ := Option.bind_eq_some_iff.mp h
      obtain ⟨t, ht, h⟩ := Option.bind_eq_some_iff.mp h
      obtain ⟨name, -, h⟩ := Option.bind_eq_some_iff.mp h
      obtain rfl := Option.some.inj h
      exact var?_ofVar (lt_of_line? hline) (ty?_reread ht)
    · simp at h

theorem method?_reread {n : Nat} {v : Json} {m : MethodDecl .bare} (h : method? n v = some m) :
    method? n (ofMethod m) = some m := by
  cases n with
  | zero => simp [method?] at h
  | succ n =>
    rw [method?] at h
    split at h
    · obtain ⟨line, hline, h⟩ := Option.bind_eq_some_iff.mp h
      obtain ⟨t, ht, h⟩ := Option.bind_eq_some_iff.mp h
      obtain ⟨name, -, h⟩ := Option.bind_eq_some_iff.mp h
      obtain ⟨ps, hps, h⟩ := Option.bind_eq_some_iff.mp h
      obtain ⟨vs, hvs, h⟩ := Option.bind_eq_some_iff.mp h
      obtain ⟨ss, hss, h⟩ := Option.bind_eq_some_iff.mp h
      obtain ⟨e, he, h⟩ := Option.bind_eq_some_iff.mp h
      obtain rfl := Option.some.inj h
      exact method?_ofMethod (lt_of_line? hline) (ty?_reread ht)
        (list?_reread hps fun _ _ _ => var?_reread) (list?_reread hvs fun _ _ _ => var?_reread)
        (list?_reread hss fun _ _ _ => stmt?_reread) ((rereads n).expr _ e he)
    · simp at h

theorem class?_reread {n : Nat} {v : Json} {c : ClassDecl .bare} (h : class? n v = some c) :
    class? n (ofClass c) = some c := by
  cases n with
  | zero => simp [class?] at h
  | succ n =>
    rw [class?] at h
    split at h
    · obtain ⟨line, hline, h⟩ := Option.bind_eq_some_iff.mp h
      obtain ⟨name, -, h⟩ := Option.bind_eq_some_iff.mp h
      obtain ⟨superclass, -, h⟩ := Option.bind_eq_some_iff.mp h
      obtain ⟨fs, hfs, h⟩ := Option.bind_eq_some_iff.mp h
      obtain ⟨ms, hms, h⟩ := Option.bind_eq_some_iff.mp h
      obtain rfl := Option.some.inj h
      exact class?_ofClass (lt_of_line? hline) (list?_reread hfs fun _ _ _ => var?_reread)
        (list?_reread hms fun _ _ _ => method?_reread)
    · simp at h

theorem main?_reread {n : Nat} {v : Json} {c : MainClass .bare} (h : main? n v = some c) :
    main? n (ofMain c) = some c := by
  cases n with
  | zero => simp [main?] at h
  | succ n =>
    rw [main?] at h
    split at h
    · obtain ⟨line, hline, h⟩ := Option.bind_eq_some_iff.mp h
      obtain ⟨name, -, h⟩ := Option.bind_eq_some_iff.mp h
      obtain ⟨param, -, h⟩ := Option.bind_eq_some_iff.mp h
      obtain ⟨vs, hvs, h⟩ := Option.bind_eq_some_iff.mp h
      obtain ⟨ss, hss, h⟩ := Option.bind_eq_some_iff.mp h
      obtain rfl := Option.some.inj h
      exact main?_ofMain (lt_of_line? hline) (list?_reread hvs fun _ _ _ => var?_reread)
        (list?_reread hss fun _ _ _ => stmt?_reread)
    · simp at h

/-- The encoding of a program that was read is accepted at the same depth. -/
theorem program?_reread {n : Nat} {v : Json} {p : Program .bare} (h : program? n v = some p) :
    program? n (toJson p) = some p := by
  cases n with
  | zero => simp [program?] at h
  | succ n =>
    rw [program?] at h
    split at h
    · obtain ⟨main, hmain, h⟩ := Option.bind_eq_some_iff.mp h
      obtain ⟨cs, hcs, h⟩ := Option.bind_eq_some_iff.mp h
      obtain rfl := Option.some.inj h
      exact program?_toJson (main?_reread hmain) (list?_reread hcs fun _ _ _ => class?_reread)
    · simp at h

end MiniJava.Document
