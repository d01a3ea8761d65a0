import MiniJava.Proofs.IR.Text

/-!
# Globals in a line

The globals that are named in the text of an instruction are those of its operands. A part of a line
is followed by a character that no name has, so that the names of the parts are the names of the
whole.
-/
namespace MiniJava.IR

/-- A part of a line in which only some globals are named. -/
structure Mentions (globals : List Name) (s : String) : Prop where
  line : '\n' ∉ s.toList
  named : globalsIn s ⊆ globals

/-- A text that a name in front of it ends at. -/
def isSeparator (s : String) : Bool :=
  s.toList.all (fun c => c != '\n' && c != '@') && s.toList.head?.any (!isNameChar ·)

section Mentions
variable {globals : List Name} {a b : String}

theorem Mentions.of_not_mem (line : '\n' ∉ a.toList) (silent : '@' ∉ a.toList) :
    Mentions globals a :=
  ⟨line, by rw [globalsIn, marked_of_not_mem silent]; exact List.nil_subset _⟩

theorem Silent.mentions (h : Silent a) : Mentions globals a :=
  .of_not_mem (h.not_mem rfl) (h.not_mem rfl)

theorem Mentions.prepend (line : '\n' ∉ a.toList) (silent : '@' ∉ a.toList)
    (h : Mentions globals b) : Mentions globals (a ++ b) := by
  refine ⟨?_, ?_⟩
  · rw [String.toList_append, List.mem_append]
    exact not_or.mpr ⟨line, h.line⟩
  · rw [globalsIn, String.toList_append, marked_silent_append silent]
    exact h.named

theorem Mentions.append (ha : Mentions globals a) (apart : Apart b.toList)
    (hb : Mentions globals b) : Mentions globals (a ++ b) := by
  refine ⟨?_, ?_⟩
  · rw [String.toList_append, List.mem_append]
    exact not_or.mpr ⟨ha.line, hb.line⟩
  · rw [globalsIn, String.toList_append, marked_append apart]
    exact List.append_subset.mpr ⟨ha.named, hb.named⟩

section Separator
variable {sep : String} (h : isSeparator sep = true)
include h

theorem not_mem_separator : '\n' ∉ sep.toList ∧ '@' ∉ sep.toList := by
  obtain ⟨chars, -⟩ := Bool.and_eq_true_iff.mp h
  have chars := List.all_eq_true.mp chars
  exact ⟨fun line => by simpa using chars _ line, fun mark => by simpa using chars _ mark⟩

theorem apart_separator (rest : String) : Apart (sep ++ rest).toList := by
  obtain ⟨-, first⟩ := Bool.and_eq_true_iff.mp h
  intro c hc
  rw [String.toList_append] at hc
  cases chars : sep.toList with
  | nil =>
    rw [chars] at first
    cases first
  | cons d ds =>
    rw [chars] at first hc
    obtain rfl := Option.some.inj hc
    exact (Bool.not_eq_true' _).mp first

theorem Mentions.joined (ha : Mentions globals a) (hb : Mentions globals b) :
    Mentions globals (a ++ sep ++ b) := by
  obtain ⟨line, silent⟩ := not_mem_separator h
  rw [String.append_assoc]
  exact ha.append (apart_separator h b) (hb.prepend line silent)

theorem Mentions.closed (ha : Mentions globals a) : Mentions globals (a ++ sep) := by
  obtain ⟨line, silent⟩ := not_mem_separator h
  have apart := apart_separator h ""
  rw [String.append_empty] at apart
  exact ha.append apart (.of_not_mem line silent)

end Separator

theorem Mentions.commas : ∀ {xs : List String}, (∀ x ∈ xs, Mentions globals x) →
    Mentions globals (commas xs)
  | [], _ => Silent.mentions (a := "") nofun
  | [x], h => by
    rw [IR.commas, String.intercalate_singleton]
    exact h x List.mem_cons_self
  | x :: y :: xs, h => by
    obtain ⟨hx, h⟩ := List.forall_mem_cons.mp h
    rw [IR.commas, String.intercalate_cons_cons]
    exact hx.joined (by decide) (Mentions.commas h)

end Mentions

/-- The name of an operand without its mark. -/
def Value.name : Value → Name
  | .temp n => s!"_{n}"
  | .this => "this"
  | .param x => "." ++ x
  | .slot x | .global x => x
  | .int _ | .bool _ => ""

def Value.isLocal : Value → Bool
  | .temp _ | .this | .param _ | .slot _ => true
  | .global _ | .int _ | .bool _ => false

/-- Every character of the name is one of a name. -/
def Value.Named (v : Value) : Prop := IsName v.name

theorem Value.toList_text : ∀ {v : Value}, v.isLocal = true → v.text.toList = '%' :: v.name.toList
  | .temp n, _ => by
    change ("%" ++ ("_" ++ toString n)).toList = _
    rw [String.toList_append]
    rfl
  | .this, _ => rfl
  | .param x, _ => by
    change ("%" ++ ("." ++ x)).toList = _
    rw [String.toList_append]
    rfl
  | .slot x, _ => by
    change ("%" ++ x).toList = _
    rw [String.toList_append]
    rfl

theorem not_mem_name {v : Value} (h : v.Named) {mark : Char} (hmark : isNameChar mark = false) :
    mark ∉ v.name.toList := by
  intro inside
  rw [h mark inside] at hmark
  cases hmark

/-- What instructions may name: known operands and, of the globals, some. -/
structure Vocabulary (names : Names) (globals : List Name) : Prop where
  named : ∀ x ∈ names, x.1.Named
  globals : ∀ n ty, (.global n, ty) ∈ names → n ∈ globals

section Vocabulary
variable {names : Names} {globals : List Name}

theorem mentions_local {v : Value} (named : v.Named) (isLocal : v.isLocal = true) :
    Mentions globals v.text := by
  refine .of_not_mem ?_ ?_ <;> rw [Value.toList_text isLocal, List.mem_cons, not_or]
  · exact ⟨by decide, not_mem_name named rfl⟩
  · exact ⟨by decide, not_mem_name named rfl⟩

theorem mentions_global {n : Name} (named : IsName n) (known : n ∈ globals) :
    Mentions globals ("@" ++ n) := by
  have text : ("@" ++ n).toList = '@' :: (n.toList ++ []) := by
    rw [String.toList_append, List.append_nil]
    rfl
  have only := marked_name '@' rfl named apart_nil
  refine ⟨?_, ?_⟩
  · rw [text, List.append_nil, List.mem_cons, not_or]
    exact ⟨by decide, not_mem_name (v := .global n) named rfl⟩
  · rw [globalsIn, text, only]
    exact List.cons_subset.mpr ⟨known, List.nil_subset _⟩

variable (h : Vocabulary names globals)
include h

theorem Value.HasType.mentions {v : Value} {ty : IRType} (typed : v.HasType names ty) :
    Mentions globals v.text := by
  cases typed with
  | named mem =>
    have named := h.named _ mem
    cases v with
    | global n => exact mentions_global named (h.globals n _ mem)
    | int n => exact (silent_int n).mentions
    | bool b => cases b <;> exact Silent.mentions (by decide)
    | _ => exact mentions_local named rfl
  | int n => exact (silent_int n).mentions
  | bit _ => exact (silent_int _).mentions
  | bool b => cases b <;> exact Silent.mentions (by decide)

theorem mentions_typed {v : Value} {ty : IRType} (hv : v.HasType names ty) (written : IRType) :
    Mentions globals (typed written v) :=
  (silent_tyText written).mentions.joined (by decide) (hv.mentions h)

theorem mentions_args {args : List (IRType × Value)} (typed : ArgsTyped names args) :
    Mentions globals (argTexts args) :=
  .commas (List.forall_mem_map.mpr fun a ha => mentions_typed h (typed a ha) a.1)

theorem mentions_call {ty result : IRType} {callee : Value} {args : List (IRType × Value)}
    (typed : CallTyped names result callee args) : Mentions globals (callText ty callee args) := by
  have head : Mentions globals ("call " ++ ty.text) :=
    (Silent.append (by decide) (silent_tyText ty)).mentions
  exact ((head.joined (by decide) (typed.1.mentions h)).joined (by decide)
    (mentions_args h typed.2)).closed (by decide)

theorem mentions_incoming {v : Value} {ty : IRType} (typed : v.HasType names ty) (l : Label) :
    Mentions globals (incomingText (v, l)) :=
  (((typed.mentions h).prepend (by decide) (by decide)).joined (by decide)
    l.silent_text.mentions).closed (by decide)

theorem Rhs.Typed.mentions {rhs : Rhs} (typed : rhs.Typed names) : Mentions globals rhs.text := by
  have keyword : ∀ {word : String} (ty : IRType), Silent word →
      Mentions globals (word ++ ty.text) := fun ty silent => (silent.append (silent_tyText ty)).mentions
  cases rhs with
  | load ty ptr => exact (keyword ty (by decide)).joined (by decide) (mentions_typed h typed _)
  | arith op ty a b =>
    have op : Silent op.text := by cases op <;> decide
    exact (op.mentions.joined (by decide) (mentions_typed h typed.2.1 ty)).joined (by decide)
      (typed.2.2.mentions h)
  | compare cond ty a b =>
    have op : Silent ("icmp " ++ cond.text) := by cases cond <;> decide
    exact (op.mentions.joined (by decide) (mentions_typed h typed.2.1 ty)).joined (by decide)
      (typed.2.2.mentions h)
  | cast op source v target =>
    have op : Silent op.text := by cases op <;> decide
    exact (op.mentions.joined (by decide) (mentions_typed h typed.2 source)).joined (by decide)
      (silent_tyText target).mentions
  | address ty base path =>
    refine .prepend (by decide) (by decide) (.commas ?_)
    refine List.forall_mem_cons.mpr ⟨(silent_tyText ty).mentions, List.forall_mem_cons.mpr
      ⟨mentions_typed h typed.1 _, List.forall_mem_map.mpr fun i hi => ?_⟩⟩
    exact mentions_typed h (typed.2 i hi) _
  | call ty callee args => exact mentions_call h typed
  | phi ty incoming =>
    exact (keyword ty (by decide)).joined (by decide)
      (.commas (List.forall_mem_map.mpr fun p hp => mentions_incoming h (typed.2 p hp) p.2))

omit h in
theorem mentions_operand (l : Label) : Mentions globals l.operand :=
  l.silent_text.mentions.prepend (by decide) (by decide)

theorem Instr.Typed.mentions {i : Instr} (typed : i.Typed names) : Mentions globals i.text := by
  cases i with
  | alloca slot ty =>
    exact (Value.HasType.mentions h typed).joined (by decide) (silent_tyText ty).mentions
  | set n rhs =>
    obtain ⟨typed, _, _, _, named⟩ := typed
    exact (named.mentions h).joined (by decide) (typed.mentions h)
  | store ty v ptr =>
    exact ((mentions_typed h typed.1 ty).prepend (by decide) (by decide)).joined (by decide)
      (mentions_typed h typed.2 _)
  | call ty callee args =>
    obtain ⟨_, _, typed⟩ := typed
    exact mentions_call h typed
  | jump l => exact (mentions_operand l).prepend (by decide) (by decide)
  | branch cond yes no =>
    refine .prepend (by decide) (by decide) (.commas ?_)
    exact List.forall_mem_cons.mpr ⟨mentions_typed h typed _, List.forall_mem_cons.mpr
      ⟨mentions_operand yes, List.forall_mem_singleton.mpr (mentions_operand no)⟩⟩
  | ret ty v => exact (mentions_typed h typed ty).prepend (by decide) (by decide)
  | «unreachable» => exact Silent.mentions (by decide)

end Vocabulary

end MiniJava.IR
