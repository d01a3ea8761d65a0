import MiniJava.Proofs.Document.Schema
import MiniJava.Proofs.Document.Variants

/-!
# The reader reads by shape

What the reader makes of a value is what reading by the shape of its position makes of it, for
expressions and statements by induction on the levels that may still be opened, for declarations
record by record.
-/

namespace MiniJava.Document
open Json

theorem read?_name (n : Nat) (v : Json) : Shape.name.read? n v = text? v := by
  cases n <;> cases v <;> rfl

theorem read?_literal (n : Nat) (v : Json) : Shape.literal.read? n v = int32? v := by
  cases n <;> cases v <;> rfl

theorem readSlot_line (n : Nat) (slot : Option Json) :
    readSlot (Shape.read? n) .line slot = line? slot := by
  cases slot <;> cases n <;> rfl

theorem readSlot_list {item : Record} {item? : Nat → Json → Option item.Tree}
    (same : ∀ n v, (Shape.record item).read? n v = item? n v) (n : Nat) (slot : Option Json) :
    readSlot (Shape.read? n) (.list item) slot = list? item? n slot := by
  cases slot with
  | none => cases n <;> rfl
  | some v =>
    cases n with
    | zero => cases v <;> rfl
    | succ n =>
      have reads : Shape.read? n (.record item) = item? n := funext (same n)
      cases v with
      | arr items =>
        exact congrArg items.mapM reads
      | null | bool | int | real | str | obj => rfl

theorem read?_expr_of {n : Nat} (form : ∀ v, (Shape.choice .form).read? n v = form? n v)
    (v : Json) :
    (Shape.record .expr).read? (n + 1) v = expr? (n + 1) v := by
  rw [read?_record, expr?]
  change (record? ["line", "kind"] v).bind _ = _
  cases h : record? ["line", "kind"] v with
  | none => rfl
  | some slots =>
    match slots, record?_length h with
    | [_, none], _ => exact readSlots_eq_none 1 rfl rfl rfl _
    | [line, some kind], _ =>
      change (readSlot (Shape.read? n) .line line).bind (fun line =>
        ((Shape.choice .form).read? n kind).bind fun form => some (Expr.node line () form)) = _
      rw [readSlot_line, form]
      rfl

/-- Expressions are read by shape as the reader reads them, with at most so many levels. -/
def ExprsAgree (n : Nat) : Prop := ∀ m ≤ n, ∀ v, (Shape.record .expr).read? m v = expr? m v

section
variable {n : Nat} (agree : ExprsAgree n)
include agree

theorem read?_unary {tag : String} {make : Expr Unit → ExprForm Unit} (h : unary? tag = some make)
    (content : Json) :
    ((Shape.record .expr).read? n content).map make =
      form? (n + 1) (.obj [(some tag, content)]) := by
  rw [form?_unary h, agree n (Nat.le_refl n)]

theorem read?_binary {tag : String} {make : Expr Unit → Expr Unit → ExprForm Unit}
    (h : binary? tag = some make) (content : Json) :
    ((Shape.tuple .operands).read? n content).map (fun x => make x.1 x.2) =
      form? (n + 1) (.obj [(some tag, content)]) := by
  cases n with
  | zero =>
    rw [read?_tuple_zero, form?_binary_zero h]
    rfl
  | succ n =>
    match content with
    | .arr [a, b] =>
      change (((Shape.record .expr).read? n a).bind fun a =>
        ((Shape.record .expr).read? n b).bind fun b => some (a, b)).map _ = _
      rw [form?_binary h, agree n (Nat.le_succ n), agree n (Nat.le_succ n)]
      cases expr? n a with
      | none => rfl
      | some a => cases expr? n b <;> rfl
    | .arr [] | .arr [_] | .arr (_ :: _ :: _ :: _) =>
      rw [read?_tuple_none (by simp [Tuple.parts]), form?_binary_none h (by simp)]
      rfl
    | .null | .bool _ | .int _ | .real _ | .str _ | .obj _ =>
      rw [form?_binary_none h (by simp)]
      rfl

theorem read?_message (content : Json) :
    ((Shape.tuple .message).read? n content).map (fun x => .send x.1 x.2.1 x.2.2) =
      form? (n + 1) (.obj [(some "MessageSend", content)]) := by
  cases n with
  | zero =>
    rw [read?_tuple_zero]
    rfl
  | succ n =>
    match content with
    | .arr [r, m, args] =>
      change (((Shape.record .expr).read? n r).bind fun r => (Shape.name.read? n m).bind fun m =>
        ((Shape.list .expr).read? n args).bind fun args => some (r, m, args)).map _ = _
      rw [read?_name, agree n (Nat.le_succ n)]
      cases n with
      | zero =>
        rw [expr?]
        rfl
      | succ n =>
        match m, args with
        | .str (some m), .arr args =>
          have exprs : Shape.read? n (.record .expr) = expr? n := funext (agree n (by omega))
          have list : (Shape.list .expr).read? (n + 1) (.arr args) = args.mapM (expr? n) :=
            congrArg args.mapM exprs
          rw [form?_send, list]
          cases expr? (n + 1) r with
          | none => rfl
          | some r => cases args.mapM (expr? n) <;> rfl
        | .str (some m), .null | .str (some m), .bool _ | .str (some m), .int _
        | .str (some m), .real _ | .str (some m), .str _ | .str (some m), .obj _ =>
          cases expr? (n + 1) r <;> rfl
        | .str none, _ | .null, _ | .bool _, _ | .int _, _ | .real _, _ | .arr _, _ | .obj _, _ =>
          cases expr? (n + 1) r <;> rfl
    | .arr [] | .arr [_] | .arr [_, _] | .arr (_ :: _ :: _ :: _ :: _) =>
      rw [read?_tuple_none (by simp [Tuple.parts]), form?_send_none (by simp)]
      rfl
    | .null | .bool _ | .int _ | .real _ | .str _ | .obj _ => cases n <;> rfl

omit agree in
theorem read?_plain {tag : String} {f : ExprForm Unit} (h : plainForm? tag = some f)
    (content : Json) : (Shape.unit.read? n content).map (fun _ => f) =
      form? (n + 1) (.obj [(some tag, content)]) := by
  have leaf : form? (n + 1) (.obj [(some tag, content)]) = leaf? tag content := by
    unfold plainForm? at h
    split at h <;> cases h <;> rfl
  rw [leaf]
  unfold plainForm? at h
  split at h <;> simp only [Option.some.injEq, reduceCtorEq] at h <;> subst h <;>
    cases n <;> cases content <;> rfl

theorem read?_form (v : Json) : (Shape.choice .form).read? (n + 1) v = form? (n + 1) v := by
  match v with
  | .obj [(some tag, content)] =>
    change ((formVariant? tag).bind fun variant =>
      (variant.content.read? n content).map variant.make) = _
    unfold formVariant?
    split
    case h_1 => exact read?_binary agree rfl content
    case h_2 => exact read?_binary agree rfl content
    case h_3 => exact read?_binary agree rfl content
    case h_4 => exact read?_binary agree rfl content
    case h_5 => exact read?_binary agree rfl content
    case h_6 => exact read?_binary agree rfl content
    case h_7 => exact read?_unary agree rfl content
    case h_8 => exact read?_message agree content
    case h_9 =>
      rw [form?_leaf (by simp)]
      exact congrArg (Option.map ExprForm.int) (read?_literal n content)
    case h_10 => exact read?_plain rfl content
    case h_11 => exact read?_plain rfl content
    case h_12 =>
      rw [form?_leaf (by simp)]
      exact congrArg (Option.map ExprForm.name) (read?_name n content)
    case h_13 => exact read?_plain rfl content
    case h_14 => exact read?_unary agree rfl content
    case h_15 => exact read?_unary agree rfl content
    case h_16 =>
      rw [form?_leaf (by simp)]
      exact congrArg (Option.map ExprForm.newObject) (read?_name n content)
    case h_17 => exact read?_unary agree rfl content
    case h_18 => exact read?_unary agree rfl content
    case h_19 =>
      have other : tag ≠ "MessageSend" := ‹tag = "MessageSend" → False›
      simp only [form?.eq_def, unary?, binary?, leaf?, plainForm?, if_neg other]
      cases content <;> rfl
  | .str (some tag) =>
    change (formVariant? tag).bind Variant.plain? = _
    rw [form?]
    unfold formVariant?
    split
    case h_19 => simp [plainForm?, *]
    all_goals rfl
  | .null | .bool _ | .int _ | .real _ | .str none | .arr _ | .obj [] | .obj [(none, _)]
  | .obj ((none, _) :: _ :: _) | .obj ((some _, _) :: _ :: _) => rfl

end

theorem read?_form_zero (v : Json) : (Shape.choice .form).read? 0 v = form? 0 v := by
  match v with
  | .str (some tag) =>
    change (formVariant? tag).bind Variant.plain? = _
    rw [form?]
    unfold formVariant?
    split
    case h_19 => simp [plainForm?, *]
    all_goals rfl
  | .null | .bool _ | .int _ | .real _ | .str none | .arr _ => rfl
  | .obj [] | .obj [(none, _)] | .obj [(some _, _)] | .obj ((none, _) :: _ :: _)
  | .obj ((some _, _) :: _ :: _) => rfl

theorem exprsAgree (n : Nat) : ExprsAgree n := by
  induction n with
  | zero =>
    intro m hm v
    obtain rfl := Nat.le_zero.mp hm
    rw [read?_record_zero, expr?]
  | succ n ih =>
    intro m hm v
    rcases Nat.le_succ_iff.mp hm with hm | rfl
    · exact ih m hm v
    · refine read?_expr_of (fun v => ?_) v
      cases n with
      | zero => exact read?_form_zero v
      | succ n => exact read?_form (fun m hm => ih m (Nat.le_succ_of_le hm)) v

theorem read?_expr (n : Nat) (v : Json) : (Shape.record .expr).read? n v = expr? n v :=
  exprsAgree n n (Nat.le_refl n) v

section
variable {n : Nat} (agree : ∀ m < n + 1, ∀ v, (Shape.record .stmt).read? m v = stmt? m v)
  (line : Nat)
include agree

theorem read?_block (content : Json) :
    ((Shape.list .stmt).read? n content).map (Stmt.block line) =
      statement? (n + 1) line "Block" content := by
  cases n with
  | zero =>
    rw [read?_list_zero]
    rfl
  | succ n =>
    match content with
    | .arr body =>
      have stmts : Shape.read? n (.record .stmt) = stmt? n := funext (agree n (by omega))
      change (body.mapM (Shape.read? n (.record .stmt))).map _ =
        (body.mapM (stmt? n)).bind fun body => some (Stmt.block line body)
      rw [stmts]
      cases body.mapM (stmt? n) <;> rfl
    | .null | .bool _ | .int _ | .real _ | .str _ | .obj _ => rfl

omit agree in
theorem read?_assignment (content : Json) :
    ((Shape.tuple .assignment).read? n content).map (fun x => Stmt.assign line x.1 () x.2) =
      statement? (n + 1) line "Assign" content := by
  cases n with
  | zero =>
    rw [read?_tuple_zero]
    rfl
  | succ n =>
    match content with
    | .arr [x, e] =>
      change ((Shape.name.read? n x).bind fun x =>
        ((Shape.record .expr).read? n e).bind fun e => some (x, e)).map _ = _
      rw [read?_name, read?_expr]
      match x with
      | .str (some x) =>
        change ((expr? n e).bind fun e => some (x, e)).map _ =
          (expr? n e).bind fun e => some (Stmt.assign line x () e)
        cases expr? n e <;> rfl
      | .str none | .null | .bool _ | .int _ | .real _ | .arr _ | .obj _ => rfl
    | .arr [x] | .arr (x :: _ :: _ :: _) =>
      rw [read?_tuple_none (by simp [Tuple.parts])]
      match x with
      | .str (some _) | .str none | .null | .bool _ | .int _ | .real _ | .arr _ | .obj _ => rfl
    | .arr [] | .null | .bool _ | .int _ | .real _ | .str _ | .obj _ => rfl

omit agree in
theorem read?_arrayAssignment (content : Json) :
    ((Shape.tuple .arrayAssignment).read? n content).map
        (fun x => Stmt.arrayAssign line x.1 () x.2.1 x.2.2) =
      statement? (n + 1) line "ArrayAssign" content := by
  cases n with
  | zero =>
    rw [read?_tuple_zero]
    rfl
  | succ n =>
    match content with
    | .arr [x, i, e] =>
      change ((Shape.name.read? n x).bind fun x => ((Shape.record .expr).read? n i).bind fun i =>
        ((Shape.record .expr).read? n e).bind fun e => some (x, i, e)).map _ = _
      rw [read?_name, read?_expr, read?_expr]
      match x with
      | .str (some x) =>
        change ((expr? n i).bind fun i => (expr? n e).bind fun e => some (x, i, e)).map _ =
          (expr? n i).bind fun i => (expr? n e).bind fun e => some (Stmt.arrayAssign line x () i e)
        cases expr? n i <;> cases expr? n e <;> rfl
      | .str none | .null | .bool _ | .int _ | .real _ | .arr _ | .obj _ => rfl
    | .arr [x] | .arr [x, _] | .arr (x :: _ :: _ :: _ :: _) =>
      rw [read?_tuple_none (by simp [Tuple.parts])]
      match x with
      | .str (some _) | .str none | .null | .bool _ | .int _ | .real _ | .arr _ | .obj _ => rfl
    | .arr [] | .null | .bool _ | .int _ | .real _ | .str _ | .obj _ => rfl

theorem read?_branch (content : Json) :
    ((Shape.tuple .branch).read? n content).map (fun x => Stmt.ifElse line x.1 x.2.1 x.2.2) =
      statement? (n + 1) line "If" content := by
  cases n with
  | zero =>
    rw [read?_tuple_zero]
    rfl
  | succ n =>
    match content with
    | .arr [c, s, t] =>
      change (((Shape.record .expr).read? n c).bind fun c =>
        ((Shape.record .stmt).read? n s).bind fun s =>
          ((Shape.record .stmt).read? n t).bind fun t => some (c, s, t)).map _ =
            (expr? n c).bind fun c => (stmt? n s).bind fun s => (stmt? n t).bind fun t =>
              some (Stmt.ifElse line c s t)
      rw [read?_expr, agree n (by omega), agree n (by omega)]
      cases expr? n c <;> cases stmt? n s <;> cases stmt? n t <;> rfl
    | .arr [] | .arr [_] | .arr [_, _] | .arr (_ :: _ :: _ :: _ :: _) =>
      rw [read?_tuple_none (by simp [Tuple.parts])]
      rfl
    | .null | .bool _ | .int _ | .real _ | .str _ | .obj _ => rfl

theorem read?_loop (content : Json) :
    ((Shape.tuple .loop).read? n content).map (fun x => Stmt.while line x.1 x.2) =
      statement? (n + 1) line "While" content := by
  cases n with
  | zero =>
    rw [read?_tuple_zero]
    rfl
  | succ n =>
    match content with
    | .arr [c, s] =>
      change (((Shape.record .expr).read? n c).bind fun c =>
        ((Shape.record .stmt).read? n s).bind fun s => some (c, s)).map _ =
          (expr? n c).bind fun c => (stmt? n s).bind fun s => some (Stmt.while line c s)
      rw [read?_expr, agree n (by omega)]
      cases expr? n c <;> cases stmt? n s <;> rfl
    | .arr [] | .arr [_] | .arr (_ :: _ :: _ :: _) =>
      rw [read?_tuple_none (by simp [Tuple.parts])]
      rfl
    | .null | .bool _ | .int _ | .real _ | .str _ | .obj _ => rfl

theorem read?_kind (tag : String) (content : Json) :
    ((Shape.choice .kind).read? (n + 1) (.obj [(some tag, content)])).map (· line) =
      statement? (n + 1) line tag content := by
  change (((kindVariant? tag).bind fun variant =>
    (variant.content.read? n content).map variant.make).map _) = _
  unfold kindVariant?
  split
  case h_1 => exact (Option.map_map ..).trans (read?_block agree line content)
  case h_2 => exact (Option.map_map ..).trans (read?_assignment line content)
  case h_3 => exact (Option.map_map ..).trans (read?_arrayAssignment line content)
  case h_4 => exact (Option.map_map ..).trans (read?_branch agree line content)
  case h_5 => exact (Option.map_map ..).trans (read?_loop agree line content)
  case h_6 =>
    refine (Option.map_map ..).trans ?_
    cases h : expr? n content <;> simp [read?_expr, statement?, h]
  case h_7 =>
    unfold statement?
    split <;> first | rfl | contradiction

end

/-- No kind of statement is a string. -/
theorem read?_kind_none {n : Nat} {v : Json} (h : ∀ tag content, v ≠ .obj [(some tag, content)]) :
    (Shape.choice .kind).read? n v = none := by
  match v with
  | .str (some tag) =>
    have shallow : (kindVariant? tag).bind Variant.plain? = none := by
      unfold kindVariant?
      split <;> rfl
    cases n <;> exact shallow
  | .obj [(some tag, content)] => exact absurd rfl (h tag content)
  | .null | .bool _ | .int _ | .real _ | .str none | .arr _ | .obj [] | .obj [(none, _)]
  | .obj ((none, _) :: _ :: _) | .obj ((some _, _) :: _ :: _) => cases n <;> rfl

theorem read?_stmt_of {n : Nat} (agree : ∀ m < n, ∀ v, (Shape.record .stmt).read? m v = stmt? m v)
    (v : Json) : (Shape.record .stmt).read? (n + 1) v = stmt? (n + 1) v := by
  rw [read?_record, stmt?_succ]
  change (record? ["line", "kind"] v).bind _ = _
  cases h : record? ["line", "kind"] v with
  | none => rfl
  | some slots =>
    match slots, record?_length h with
    | [_, none], _ => exact readSlots_eq_none 1 rfl rfl rfl _
    | [line, some kind], _ =>
      change (readSlot (Shape.read? n) .line line).bind (fun line =>
        ((Shape.choice .kind).read? n kind).bind fun kind => some (kind line)) = _
      rw [readSlot_line]
      match kind with
      | .obj [(some tag, content)] =>
        refine congrArg (line? line).bind (funext fun line => ?_)
        cases n with
        | zero => rfl
        | succ n =>
          rw [← read?_kind agree line tag content]
          cases (Shape.choice .kind).read? (n + 1) (.obj [(some tag, content)]) <;> rfl
      | .null | .bool _ | .int _ | .real _ | .str _ | .arr _ | .obj [] | .obj [(none, _)]
      | .obj ((none, _) :: _ :: _) | .obj ((some _, _) :: _ :: _) =>
        rw [read?_kind_none (by simp)]
        exact Option.bind_fun_none _

theorem read?_stmt (n : Nat) (v : Json) : (Shape.record .stmt).read? n v = stmt? n v := by
  induction n using Nat.strongRecOn generalizing v with
  | ind n ih =>
    cases n with
    | zero => rw [read?_record_zero, stmt?]
    | succ n => exact read?_stmt_of (fun m hm v => ih m (by omega) v) v

theorem read?_ty (n : Nat) (v : Json) : (Shape.choice .ty).read? n v = ty? n v := by
  have shallow : ∀ tag, (tyVariant? tag).bind Variant.plain? = plainTy? tag := by
    intro tag
    unfold tyVariant?
    split
    case h_6 => simp [plainTy?, *]
    all_goals rfl
  match n, v with
  | 0, .str (some tag) | n + 1, .str (some tag) => rw [ty?]; exact shallow tag
  | n + 1, .obj [(some tag, content)] =>
    change ((tyVariant? tag).bind fun variant =>
      (variant.content.read? n content).map variant.make) = _
    unfold tyVariant?
    split
    case h_5 =>
      change (Shape.name.read? n content).map Ty.object = _
      rw [read?_name]
      cases content <;> first | rfl | (rename_i text; cases text <;> rfl)
    case h_6 =>
      have other : ty? (n + 1) (.obj [(some tag, content)]) = none := by
        rw [ty?.eq_def]
        split <;> first | rfl | contradiction | simp_all [plainTy?]
      exact other.symm
    all_goals cases n <;> cases content <;> rfl
  | 0, .null | 0, .bool _ | 0, .int _ | 0, .real _ | 0, .str none | 0, .arr _ | n + 1, .null
  | n + 1, .bool _ | n + 1, .int _ | n + 1, .real _ | n + 1, .str none | n + 1, .arr _
  | n + 1, .obj [] | n + 1, .obj [(none, _)] | n + 1, .obj ((none, _) :: _ :: _) => rfl
  | n + 1, .obj ((some _, _) :: _ :: _) => rw [ty?] <;> first | rfl | simp
  | 0, .obj _ => rw [ty?] <;> first | rfl | simp

theorem read?_var (n : Nat) (v : Json) : (Shape.record .var).read? n v = var? n v := by
  cases n with
  | zero => rw [read?_record_zero, var?]
  | succ n =>
    rw [read?_record, var?]
    change (record? ["line", "ty", "name"] v).bind _ = _
    cases h : record? ["line", "ty", "name"] v with
    | none => rfl
    | some slots =>
      match slots, record?_length h with
      | [line, some ty, some name], _ =>
        change (readSlot (Shape.read? n) .line line).bind (fun line =>
          ((Shape.choice .ty).read? n ty).bind fun ty => (Shape.name.read? n name).bind fun name =>
            some (VarDecl.mk line ty name)) = _
        rw [readSlot_line, read?_ty, read?_name]
        rfl
      | [_, none, _], _ => exact readSlots_eq_none 1 rfl rfl rfl _
      | [_, some _, none], _ => exact readSlots_eq_none 2 rfl rfl rfl _

theorem read?_method (n : Nat) (v : Json) : (Shape.record .method).read? n v = method? n v := by
  cases n with
  | zero => rw [read?_record_zero, method?]
  | succ n =>
    rw [read?_record, method?]
    change (record? methodFields v).bind _ = _
    cases h : record? methodFields v with
    | none => rfl
    | some slots =>
      match slots, record?_length h with
      | [line, some ty, some name, params, vars, body, some result], _ =>
        change (readSlot (Shape.read? n) .line line).bind (fun line =>
          ((Shape.choice .ty).read? n ty).bind fun ty => (Shape.name.read? n name).bind fun name =>
            (readSlot (Shape.read? n) (.list .var) params).bind fun params =>
              (readSlot (Shape.read? n) (.list .var) vars).bind fun vars =>
                (readSlot (Shape.read? n) (.list .stmt) body).bind fun body =>
                  ((Shape.record .expr).read? n result).bind fun result =>
                    some (@MethodDecl.mk .bare line () ty name params vars body result)) = _
        rw [readSlot_line, read?_ty, read?_name, readSlot_list read?_var, readSlot_list read?_var,
          readSlot_list read?_stmt, read?_expr]
        rfl
      | [_, none, _, _, _, _, _], _ => exact readSlots_eq_none 1 rfl rfl rfl _
      | [_, some _, none, _, _, _, _], _ => exact readSlots_eq_none 2 rfl rfl rfl _
      | [_, some _, some _, _, _, _, none], _ => exact readSlots_eq_none 6 rfl rfl rfl _

theorem readSlot_superclass (n : Nat) (slot : Option Json) :
    readSlot (Shape.read? n) .superclass slot = superclass? slot := by
  cases slot with
  | none => rfl
  | some v => cases n <;> cases v <;> rfl

theorem read?_cls (n : Nat) (v : Json) : (Shape.record .cls).read? n v = class? n v := by
  cases n with
  | zero => rw [read?_record_zero, class?]
  | succ n =>
    rw [read?_record, class?]
    change (record? classFields v).bind _ = _
    cases h : record? classFields v with
    | none => rfl
    | some slots =>
      match slots, record?_length h with
      | [line, some name, superclass, fields, methods], _ =>
        change (readSlot (Shape.read? n) .line line).bind (fun line =>
          (Shape.name.read? n name).bind fun name =>
            (readSlot (Shape.read? n) .superclass superclass).bind fun superclass =>
              (readSlot (Shape.read? n) (.list .var) fields).bind fun fields =>
                (readSlot (Shape.read? n) (.list .method) methods).bind fun methods =>
                  some (@ClassDecl.mk .bare line () name superclass fields methods)) = _
        rw [readSlot_line, read?_name, readSlot_superclass, readSlot_list read?_var,
          readSlot_list read?_method]
        rfl
      | [_, none, _, _, _], _ => exact readSlots_eq_none 1 rfl rfl rfl _

theorem read?_main (n : Nat) (v : Json) : (Shape.record .main).read? n v = main? n v := by
  cases n with
  | zero => rw [read?_record_zero, main?]
  | succ n =>
    rw [read?_record, main?]
    change (record? mainFields v).bind _ = _
    cases h : record? mainFields v with
    | none => rfl
    | some slots =>
      match slots, record?_length h with
      | [line, some name, some param, vars, body], _ =>
        change (readSlot (Shape.read? n) .line line).bind (fun line =>
          (Shape.name.read? n name).bind fun name => (Shape.name.read? n param).bind fun param =>
            (readSlot (Shape.read? n) (.list .var) vars).bind fun vars =>
              (readSlot (Shape.read? n) (.list .stmt) body).bind fun body =>
                some (@MainClass.mk .bare line name param vars body)) = _
        rw [readSlot_line, read?_name, read?_name, readSlot_list read?_var,
          readSlot_list read?_stmt]
        rfl
      | [_, none, _, _, _], _ => exact readSlots_eq_none 1 rfl rfl rfl _
      | [_, some _, none, _, _], _ => exact readSlots_eq_none 2 rfl rfl rfl _

/-- The reader of programs is reading by the shape of programs. -/
theorem read?_program (n : Nat) (v : Json) :
    (Shape.record .program).read? n v = program? n v := by
  cases n with
  | zero => rw [read?_record_zero, program?]
  | succ n =>
    rw [read?_record, program?]
    change (record? ["main_class", "classes"] v).bind _ = _
    cases h : record? ["main_class", "classes"] v with
    | none => rfl
    | some slots =>
      match slots, record?_length h with
      | [some main, classes], _ =>
        change ((Shape.record .main).read? n main).bind (fun main =>
          (readSlot (Shape.read? n) (.list .cls) classes).bind fun classes =>
            some (@Program.mk .bare main classes)) = _
        rw [read?_main, readSlot_list read?_cls]
        rfl
      | [none, _], _ => exact readSlots_eq_none 0 rfl rfl rfl _

end MiniJava.Document
