import MiniJava.Proofs.IR.Mentions

/-!
# The text of a module, line by line

A module is written in whole lines. The globals it defines are the tables and the functions, in
their order, and every line of a function introduces what its instruction declares or the block that
it begins.
-/
namespace MiniJava.IR

/-- A text of whole lines that defines some globals and names some. -/
structure WholeLines (globals definitions : List Name) (text : String) : Prop where
  complete : Complete text
  definitions : definitionsIn text = definitions
  named : globalsIn text ⊆ globals

section WholeLines
variable {globals ds ds' : List Name} {a b : String}

theorem WholeLines.empty : WholeLines globals [] "" := ⟨Or.inl rfl, rfl, List.nil_subset _⟩

theorem WholeLines.append (ha : WholeLines globals ds a) (hb : WholeLines globals ds' b) :
    WholeLines globals (ds ++ ds') (a ++ b) where
  complete := ha.complete.append hb.complete
  definitions := by rw [ha.complete.definitionsIn_append, ha.definitions, hb.definitions]
  named := by
    rw [ha.complete.globalsIn_append]
    exact List.append_subset.mpr ⟨ha.named, hb.named⟩

theorem WholeLines.join {α : Type} {text : α → String} {defined : α → List Name} :
    ∀ {xs : List α}, (∀ x ∈ xs, WholeLines globals (defined x) (text x)) →
      WholeLines globals (xs.flatMap defined) (String.join (xs.map text))
  | [], _ => .empty
  | x :: xs, h => by
    obtain ⟨hx, h⟩ := List.forall_mem_cons.mp h
    rw [List.map_cons, String.join_cons, List.flatMap_cons]
    exact hx.append (WholeLines.join h)

theorem lines_line (line : '\n' ∉ a.toList) : lines (a ++ "\n") = [a.toList, []] := by
  have text : a ++ "\n" = String.join ([a].map (· ++ "\n")) := by
    rw [List.map_singleton, String.join_cons, String.join_nil, String.append_empty]
  rw [text, lines_join (List.forall_mem_singleton.mpr line)]
  rfl

theorem complete_line (a : String) : Complete (a ++ "\n") :=
  Or.inr ⟨a.toList, by rw [String.toList_append]; rfl⟩

theorem globalsIn_line (a : String) : globalsIn (a ++ "\n") = globalsIn a := by
  rw [globalsIn, String.toList_append, marked_append fun c hc => ?_]
  · exact List.append_nil _
  · obtain rfl := Option.some.inj hc
    rfl

theorem Mentions.written (h : Mentions globals a) :
    WholeLines globals (definedBy a.toList) (a ++ "\n") where
  complete := complete_line a
  definitions := by
    rw [definitionsIn, lines_line h.line]
    exact List.append_nil _
  named := globalsIn_line a ▸ h.named

theorem localsIn_line (line : '\n' ∉ a.toList) : localsIn (a ++ "\n") = introducedBy a.toList := by
  rw [localsIn, lines_line line]
  exact List.append_nil _

theorem definedBy_of_head {c : Char} (hc : c ≠ '@' ∧ c ≠ 'd') (line : List Char) :
    definedBy (c :: line) = [] := by
  have noMark : "@".toList.isPrefixOf (c :: line) = false := by
    simp [List.isPrefixOf, Ne.symm hc.1]
  have noDefine : "define ".toList.isPrefixOf (c :: line) = false := by
    simp [List.isPrefixOf, Ne.symm hc.2]
  have noDeclare : "declare ".toList.isPrefixOf (c :: line) = false := by
    simp [List.isPrefixOf, Ne.symm hc.2]
  rw [definedBy, noMark, noDefine, noDeclare]
  rfl

end WholeLines

/-- A line without its end. -/
def Line.body : Line → String
  | .label l => l.text ++ ":"
  | .instr i => "\t" ++ i.text

theorem Line.text_eq : ∀ line : Line, line.text = line.body ++ "\n"
  | .label l => by
    rw [Line.body, String.append_assoc]
    rfl
  | .instr _ => rfl

/-- The names of the locals that a line introduces. -/
def Line.introduces : Line → List Name
  | .label l => [l.text]
  | .instr i => i.declares.map (·.1.name)

theorem Label.head_text (l : Label) :
    ∃ c cs, l.text.toList = c :: cs ∧ c ≠ '\t' ∧ c ≠ '@' ∧ c ≠ 'd' := by
  cases l with
  | entry => exact ⟨'e', "ntry".toList, by decide, by decide⟩
  | block role n =>
    have first : ∃ c cs, role.text.toList = c :: cs ∧ c ≠ '\t' ∧ c ≠ '@' ∧ c ≠ 'd' := by
      cases role <;> exact ⟨_, _, rfl, by decide⟩
    obtain ⟨c, cs, chars, other⟩ := first
    exact ⟨c, _, by rw [toList_text, chars]; rfl, other⟩

theorem introducedBy_label (l : Label) : introducedBy (l.text ++ ":").toList = [l.text] := by
  obtain ⟨c, cs, chars, tab, _, d⟩ := l.head_text
  have noDefine : "define ".toList.isPrefixOf (c :: (cs ++ [':'])) = false := by
    simp [List.isPrefixOf, Ne.symm d]
  have text : (l.text ++ ":").toList = c :: (cs ++ [':']) := by
    rw [String.toList_append, chars]
    rfl
  have last : (c :: (cs ++ [':'])).getLast? = some ':' := by
    rw [← List.cons_append]
    exact List.getLast?_concat
  have front : (c :: (cs ++ [':'])).dropLast = l.text.toList := by
    rw [← List.cons_append, List.dropLast_concat, chars]
  have plain : introducedBy (c :: (cs ++ [':'])) =
      if "define ".toList.isPrefixOf (c :: (cs ++ [':'])) then marked '%' (c :: (cs ++ [':']))
      else if (c :: (cs ++ [':'])).getLast? = some ':' then
        [String.ofList (c :: (cs ++ [':'])).dropLast] else [] := by
    unfold introducedBy
    split
    · rename_i same
      exact absurd (List.cons.inj same).1 tab
    · rename_i same
      exact absurd (List.cons.inj same).1 tab
    · rfl
  rw [text, plain, noDefine, last, front, if_pos rfl, String.ofList_toList]
  rfl

/-- A line that begins with a keyword introduces nothing. -/
theorem introducedBy_keyword (word : String) {c : Char} (first : word.toList.head? = some c)
    (hc : c ≠ '%') (rest : String) : introducedBy ('\t' :: (word ++ rest).toList) = [] := by
  obtain ⟨cs, chars⟩ := List.head?_eq_some_iff.mp first
  rw [String.toList_append, chars]
  unfold introducedBy
  split
  · rename_i same
    exact absurd (List.cons.inj (List.cons.inj same).2).1 hc
  · rfl
  · rename_i other
    exact absurd rfl (other _)

theorem introducedBy_value {v : Value} (named : v.Named) (isLocal : v.isLocal = true) (sep : String)
    (h : isSeparator sep = true) (rest : String) :
    introducedBy ('\t' :: (v.text ++ sep ++ rest).toList) = [v.name] := by
  have text : (v.text ++ sep ++ rest).toList = '%' :: (v.name.toList ++ (sep ++ rest).toList) := by
    rw [String.append_assoc, String.toList_append, Value.toList_text isLocal]
    rfl
  have first := marked_name '%' rfl named (apart_separator h rest)
  rw [text, introducedBy, first]
  rfl

section Instr
variable {names : Names} {globals : List Name} (h : Vocabulary names globals)
include h

/-- An instruction introduces what it declares. -/
theorem introducedBy_instr {i : Instr} (typed : i.Typed names)
    (locals : ∀ x ∈ i.declares, x.1.isLocal = true) :
    introducedBy ('\t' :: i.text.toList) = i.declares.map (·.1.name) := by
  cases i with
  | alloca slot ty =>
    have isLocal := locals _ List.mem_cons_self
    have named : slot.Named := by
      cases typed with
      | named mem => exact h.named _ mem
    exact introducedBy_value named isLocal " = alloca " (by decide) ty.text
  | set n rhs =>
    obtain ⟨_, ty, hty, _, temp⟩ := typed
    cases temp with
    | named mem =>
      have declares : (Instr.set n rhs).declares = [(.temp n, ty)] := by
        rw [Instr.declares, hty]
        rfl
      rw [declares]
      exact introducedBy_value (h.named _ mem) rfl " = " (by decide) rhs.text
  | store ty v ptr =>
    simp only [Instr.text, String.append_assoc]
    exact introducedBy_keyword "store " rfl (by decide) _
  | call ty callee args =>
    simp only [Instr.text, callText, String.append_assoc]
    exact introducedBy_keyword "call " rfl (by decide) _
  | jump l => exact introducedBy_keyword "br " rfl (by decide) _
  | branch cond yes no => exact introducedBy_keyword "br " rfl (by decide) _
  | ret ty v => exact introducedBy_keyword "ret " rfl (by decide) _
  | «unreachable» => exact introducedBy_keyword "unreachable" rfl (by decide) ""

theorem Line.mentions {line : Line} (typed : ∀ i, line = .instr i → i.Typed names) :
    Mentions globals line.body := by
  cases line with
  | label l => exact l.silent_text.mentions.closed (by decide)
  | instr i => exact ((typed i rfl).mentions h).prepend (by decide) (by decide)

/-- The lines of a function that are typed define no globals and introduce what they declare. -/
theorem Line.written {line : Line} (typed : ∀ i, line = .instr i → i.Typed names)
    (locals : ∀ x ∈ line.declares, x.1.isLocal = true) :
    WholeLines globals [] line.text ∧ localsIn line.text = line.introduces := by
  have inside : Mentions globals line.body := Line.mentions h typed
  have text := line.text_eq
  cases line with
  | label l =>
    obtain ⟨c, cs, chars, _, other⟩ := l.head_text
    have nothing : definedBy (l.text ++ ":").toList = [] := by
      rw [String.toList_append, chars]
      exact definedBy_of_head other _
    rw [text]
    exact ⟨nothing ▸ inside.written, (localsIn_line inside.line).trans (introducedBy_label l)⟩
  | instr i =>
    have chars : ("\t" ++ i.text).toList = '\t' :: i.text.toList := by
      rw [String.toList_append]
      rfl
    have nothing : definedBy ("\t" ++ i.text).toList = [] :=
      chars ▸ definedBy_of_head (by decide) _
    refine ⟨nothing ▸ inside.written, (localsIn_line inside.line).trans ?_⟩
    rw [Line.body, chars]
    exact introducedBy_instr h (typed i rfl) locals

/-- What some lines define and introduce. -/
theorem written_code : ∀ {code : List Line}, LinesTyped names code →
    (∀ x ∈ declared code, x.1.isLocal = true) →
    WholeLines globals [] (codeText code) ∧ localsIn (codeText code) = code.flatMap Line.introduces
  | [], _, _ => ⟨.empty, rfl⟩
  | line :: code, typed, locals => by
    rw [declared_cons] at locals
    obtain ⟨here, locals⟩ := List.forall_mem_append.mp locals
    obtain ⟨first, introduces⟩ := Line.written h
      (fun i same => typed i (same ▸ List.mem_cons_self)) here
    obtain ⟨rest, more⟩ := written_code (fun i hi => typed i (List.mem_cons_of_mem _ hi)) locals
    rw [codeText, List.map_cons, String.join_cons, List.flatMap_cons]
    refine ⟨first.append rest, ?_⟩
    rw [first.complete.localsIn_append, introduces, ← more]
    rfl

end Instr

theorem marked_commas : ∀ xs : List String,
    marked '%' (commas xs).toList = xs.flatMap fun x => marked '%' x.toList
  | [] => rfl
  | [x] => by
    rw [commas, String.intercalate_singleton]
    exact (List.append_nil _).symm
  | x :: y :: xs => by
    rw [commas, String.intercalate_cons_cons, String.append_assoc, String.toList_append,
      marked_append (apart_separator (by decide) _), String.toList_append,
      marked_silent_append (by decide)]
    exact congrArg (marked '%' x.toList ++ ·) (marked_commas (y :: xs))

/-- The first line of a function, without its end. -/
def Header.line (h : Header) : String :=
  "define " ++ h.result.text ++ " @" ++ h.name ++ "(" ++ argTexts h.params ++ ") \x7b"

/-- What a function finds has names that can be read back. -/
structure Header.Named (h : Header) : Prop where
  name : IsName h.name
  params : ∀ a ∈ h.params, a.2.Named ∧ a.2.isLocal = true

section Header
variable {header : Header}

theorem Header.text_eq (h : Header) : h.text = h.line ++ "\n" := by
  simp only [Header.text, Header.line, String.append_assoc]
  rfl

/-- The first line around the name of the function. -/
theorem Header.toList_line (h : Header) : h.line.toList = "define ".toList ++
    ((h.result.text ++ " ").toList ++ '@' :: (h.name.toList ++
      ("(" ++ (argTexts h.params ++ ") \x7b")).toList)) := by
  have split : h.line = "define " ++ ((h.result.text ++ " ") ++ ("@" ++ (h.name ++
      ("(" ++ (argTexts h.params ++ ") \x7b"))))) := by
    simp only [Header.line, String.append_assoc]
    rfl
  have mark : ∀ s, ("@" ++ s).toList = '@' :: s.toList := fun s => by
    rw [String.toList_append]
    rfl
  rw [split, String.toList_append, String.toList_append, mark]
  exact congrArg (fun cs => _ ++ (_ ++ '@' :: cs)) String.toList_append

theorem definedBy_define (rest : List Char) :
    definedBy ("define ".toList ++ rest) = (marked '@' rest).take 1 := by
  have silent : marked '@' ("define ".toList ++ rest) = marked '@' rest :=
    marked_silent_append (by decide) rest
  rw [← silent]
  rfl

theorem introducedBy_define (rest : List Char) :
    introducedBy ("define ".toList ++ rest) = marked '%' rest := by
  have silent : marked '%' ("define ".toList ++ rest) = marked '%' rest :=
    marked_silent_append (by decide) rest
  rw [← silent]
  rfl

section Named
variable (h : header.Named)
include h

theorem marked_params : marked '%' (argTexts header.params).toList =
    header.params.map (·.2.name) := by
  have each : ∀ a ∈ header.params, marked '%' (typed a.1 a.2).toList = [a.2.name] := by
    intro a ha
    obtain ⟨named, isLocal⟩ := h.params a ha
    have silent : '%' ∉ (a.1.text ++ " ").toList :=
      ((silent_tyText a.1).append (by decide)).not_mem rfl
    have only := marked_name '%' rfl named apart_nil
    rw [List.append_nil] at only
    rw [typed, String.toList_append, marked_silent_append silent, Value.toList_text isLocal, only]
    rfl
  rw [argTexts, marked_commas, List.flatMap_map, ← List.flatMap_pure_eq_map]
  exact List.flatMap_congr each

/-- The first line of a function defines the function and introduces its parameters. -/
theorem definedBy_header : definedBy header.line.toList = [header.name] := by
  have silent : '@' ∉ (header.result.text ++ " ").toList :=
    ((silent_tyText _).append (by decide)).not_mem rfl
  have bracket : isSeparator "(" = true := by decide
  have first := marked_name '@' rfl h.name
    (apart_separator bracket (argTexts header.params ++ ") \x7b"))
  rw [header.toList_line, definedBy_define, marked_silent_append silent, first]
  rfl

theorem introducedBy_header : introducedBy header.line.toList = header.params.map (·.2.name) := by
  have silent : '%' ∉ (header.result.text ++ " ").toList :=
    ((silent_tyText _).append (by decide)).not_mem rfl
  have name : '%' ∉ '@' :: header.name.toList := by
    refine not_or.mpr ⟨by decide, fun inside => ?_⟩ ∘ List.mem_cons.mp
    cases h.name '%' inside
  have params : marked '%' ("(" ++ (argTexts header.params ++ ") \x7b")).toList =
      header.params.map (·.2.name) := by
    rw [String.toList_append, marked_silent_append (by decide), String.toList_append,
      marked_append (fun c hc => ?_) (argTexts header.params).toList, marked_params h]
    · exact List.append_nil _
    · obtain rfl := Option.some.inj hc
      rfl
  rw [header.toList_line, introducedBy_define, marked_silent_append silent, ← List.cons_append,
    marked_silent_append name, params]

theorem Header.Named.mentions {globals : List Name} (known : header.name ∈ globals) :
    Mentions globals header.line := by
  have args : Mentions globals (argTexts header.params) := by
    refine .commas (List.forall_mem_map.mpr fun a ha => ?_)
    obtain ⟨named, isLocal⟩ := h.params a ha
    exact (silent_tyText a.1).mentions.joined (by decide) (mentions_local named isLocal)
  have head : Mentions globals ("define " ++ header.result.text) :=
    (Silent.append (by decide) (silent_tyText _)).mentions
  have line : header.line = "define " ++ header.result.text ++ " " ++ ("@" ++ header.name) ++ "(" ++
      argTexts header.params ++ ") \x7b" := by
    simp only [Header.line, String.append_assoc]
    rfl
  rw [line]
  exact ((head.joined (by decide) (mentions_global h.name known)).joined (by decide) args).closed
    (by decide)

theorem Header.Named.written {globals : List Name} (known : header.name ∈ globals) :
    WholeLines globals [header.name] header.text ∧
      localsIn header.text = header.params.map (·.2.name) := by
  have line := h.mentions known
  rw [header.text_eq]
  exact ⟨definedBy_header h ▸ line.written,
    (localsIn_line line.line).trans (introducedBy_header h)⟩

end Named

end Header

/-- What stands in the lines of a finished function: the header, its labels and instructions, and the
closing bracket with an empty line behind it. -/
def Function.rows (f : Function) : List String :=
  f.header.line :: f.body.map Line.body ++ ["\x7d", ""]

theorem Function.text_eq {f : Function} (finished : f.finished = true) :
    f.text = String.join (f.rows.map (· ++ "\n")) := by
  have code : f.body.map Line.text = (f.body.map Line.body).map (· ++ "\n") := by
    rw [List.map_map]
    exact List.map_congr_left fun line _ => line.text_eq
  rw [Function.text, finished, Header.text_eq, codeText, code, rows, List.map_append, List.map_cons,
    String.join_append, String.join_cons]
  rfl

/-- The text of a function splits into its lines, as they were emitted. -/
theorem Function.lines_text {names : Names} {globals : List Name}
    (vocabulary : Vocabulary names globals) {f : Function} (finished : f.finished = true)
    (named : f.header.Named) (known : f.header.name ∈ globals) (typed : LinesTyped names f.body) :
    lines f.text = f.rows.map String.toList ++ [[]] := by
  rw [text_eq finished]
  refine lines_join (List.forall_mem_cons.mpr ⟨(named.mentions known).line, ?_⟩)
  refine List.forall_mem_append.mpr ⟨List.forall_mem_map.mpr fun line member => ?_, by decide⟩
  exact (Line.mentions vocabulary fun i same => typed i (same ▸ member)).line

/-- A finished function defines itself, and introduces its parameters and what its lines do. -/
theorem Function.written {names : Names} {globals : List Name}
    (vocabulary : Vocabulary names globals) {header : Header} (named : header.Named)
    (known : header.name ∈ globals) {code : List Line} (typed : LinesTyped names code)
    (locals : ∀ x ∈ declared code, x.1.isLocal = true) :
    WholeLines globals [header.name] (Function.text ⟨header, code, true⟩) ∧
      localsIn (Function.text ⟨header, code, true⟩) =
        header.params.map (·.2.name) ++ code.flatMap Line.introduces := by
  obtain ⟨head, params⟩ := named.written known
  obtain ⟨body, introduces⟩ := written_code vocabulary typed locals
  have ending : WholeLines globals [] "\x7d\n\n" :=
    ⟨Or.inr ⟨"\x7d\n".toList, rfl⟩, rfl, List.nil_subset _⟩
  refine ⟨(head.append body).append ending, ?_⟩
  rw [Function.text, (head.append body).complete.localsIn_append, head.complete.localsIn_append,
    params, introduces, if_pos rfl]
  exact List.append_nil _

/-- What a table of methods asks for: a name for itself, and the functions in it. -/
structure TableNamed (globals : List Name) (v : VTable) : Prop where
  chars : IsName v.cls
  known : s!".{v.cls}_vtable" ∈ globals
  entries : ∀ e, some e ∈ v.slots →
    IsName (e.owner ++ "." ++ e.name) ∧ e.owner ++ "." ++ e.name ∈ globals

section VTable
variable {globals : List Name}

/-- The rows of a table define nothing. -/
theorem written_rows : ∀ {xs : List String}, xs ≠ [] →
    (∀ x ∈ xs, Mentions globals x ∧ x.toList.head? = some '\t') →
    WholeLines globals [] (String.intercalate ",\n" xs ++ "\n")
  | [x], _, h => by
    obtain ⟨mentions, head⟩ := h x List.mem_cons_self
    obtain ⟨cs, chars⟩ := List.head?_eq_some_iff.mp head
    have nothing : definedBy x.toList = [] := chars ▸ definedBy_of_head (by decide) cs
    rw [String.intercalate_singleton]
    exact nothing ▸ mentions.written
  | x :: y :: xs, _, h => by
    obtain ⟨⟨mentions, head⟩, rest⟩ := List.forall_mem_cons.mp h
    obtain ⟨cs, chars⟩ := List.head?_eq_some_iff.mp head
    have nothing : definedBy (x ++ ",").toList = [] := by
      rw [String.toList_append, chars]
      exact definedBy_of_head (by decide) _
    have text : String.intercalate ",\n" (x :: y :: xs) ++ "\n" =
        (x ++ "," ++ "\n") ++ (String.intercalate ",\n" (y :: xs) ++ "\n") := by
      rw [String.intercalate_cons_cons]
      simp only [String.append_assoc]
      rfl
    have line : Mentions globals (x ++ ",") := mentions.closed (by decide)
    rw [text]
    exact (nothing ▸ line.written).append
      (written_rows (List.cons_ne_nil y xs) rest)

theorem mentions_slotText {v : VTable} (h : TableNamed globals v) {e : Option VTable.Entry}
    (he : e ∈ v.slots) :
    Mentions globals (VTable.slotText e) ∧ (VTable.slotText e).toList.head? = some '\t' := by
  cases e with
  | none => exact ⟨Silent.mentions (by decide), rfl⟩
  | some e =>
    obtain ⟨chars, known⟩ := h.entries e he
    have head : Mentions globals ("\ti8* bitcast (" ++ e.signature.text) :=
      (Silent.append (by decide) (silent_tyText _)).mentions
    have name : e.functionName = "@" ++ (e.owner ++ "." ++ e.name) := by
      change "@" ++ e.owner ++ "." ++ e.name = _
      simp only [String.append_assoc]
    have function : Mentions globals e.functionName := name ▸ mentions_global chars known
    refine ⟨(head.joined (by decide) function).closed (by decide), ?_⟩
    change ("\ti8* bitcast (" ++ e.signature.text ++ "* " ++ e.functionName ++
      " to i8*)").toList.head? = some '\t'
    simp only [String.append_assoc, String.toList_append]
    rfl

/-- A line that defines a global. -/
theorem written_definition {name : Name} (chars : IsName name) (known : name ∈ globals)
    {rest : String} (apart : Apart rest.toList) (line : Mentions globals rest) :
    WholeLines globals [name] ("@" ++ name ++ rest ++ "\n") := by
  have begins : definedBy ("@" ++ (name ++ rest)).toList =
      (marked '@' ('@' :: (name ++ rest).toList)).take 1 := by
    rw [String.toList_append]
    rfl
  have defined : definedBy ("@" ++ name ++ rest).toList = [name] := by
    rw [String.append_assoc, begins, String.toList_append, marked_name '@' rfl chars apart]
    rfl
  exact defined ▸ ((mentions_global chars known).append apart line).written

theorem isName_tableName {cls : Name} (chars : IsName cls) : IsName s!".{cls}_vtable" :=
  .append (.append (a := ".") (by decide) chars) (by decide)

theorem TableNamed.written {v : VTable} (h : TableNamed globals v) :
    WholeLines globals [s!".{v.cls}_vtable"] (v.text ++ "\n") := by
  have blank : WholeLines globals [] "\n" := ⟨Or.inr ⟨[], rfl⟩, rfl, List.nil_subset _⟩
  have last : WholeLines globals [] "]\n" := ⟨Or.inr ⟨"]".toList, rfl⟩, rfl, List.nil_subset _⟩
  have head : ∀ {sep : String}, isSeparator sep = true → WholeLines globals [s!".{v.cls}_vtable"]
      ("@" ++ s!".{v.cls}_vtable" ++ " = global " ++ v.type.text ++ sep ++ "\n") := by
    intro sep hsep
    have rest : Mentions globals (" = global " ++ (v.type.text ++ sep)) :=
      ((silent_tyText _).mentions.closed hsep).prepend (by decide) (by decide)
    have line := written_definition (isName_tableName h.chars) h.known
      (apart_separator (by decide) (v.type.text ++ sep)) rest
    simpa only [String.append_assoc] using line
  have name : s!"{v.globalName} = global " = "@" ++ s!".{v.cls}_vtable" ++ " = global " := by
    change "@." ++ v.cls ++ "_vtable" ++ " = global " =
      "@" ++ ("." ++ v.cls ++ "_vtable") ++ " = global "
    simp only [← String.append_assoc]
    rfl
  cases empty : v.isEmpty with
  | true =>
    have text : v.text =
        "@" ++ s!".{v.cls}_vtable" ++ " = global " ++ v.type.text ++ " []" ++ "\n" := by
      have close : " [" ++ "]\n" = " []" ++ "\n" := rfl
      rw [VTable.text, empty, name, if_pos rfl, String.append_empty]
      simp only [String.append_assoc, close]
    rw [text]
    exact (head (by decide)).append blank
  | false =>
    have text : v.text =
        "@" ++ s!".{v.cls}_vtable" ++ " = global " ++ v.type.text ++ " [" ++ "\n" ++
          (String.intercalate ",\n" (v.slots.map VTable.slotText) ++ "\n") ++ "]\n" := by
      rw [VTable.text, empty, name, if_neg (by decide)]
      simp only [String.append_assoc]
    have filled : v.slots.map VTable.slotText ≠ [] := by
      intro none
      rw [VTable.isEmpty, List.map_eq_nil_iff.mp none] at empty
      cases empty
    have rows := written_rows filled
      (List.forall_mem_map.mpr fun e he => mentions_slotText h he)
    rw [text]
    exact (((head (by decide)).append rows).append last).append blank

end VTable

/-- What every module defines in front of its tables. -/
def preludeNames : List Name :=
  (Builtin.all.filter (·.isExternal)).map (·.name) ++ FixedText.all.map (·.name) ++
    (Builtin.all.filter (!·.isExternal)).map (·.name)

section Prelude
variable {globals ds : List Name}

theorem written_of_toList {text : String} (last : text.toList.getLast? = some '\n')
    (definitions : definitionsIn text = ds) (named : globalsIn text ⊆ globals) :
    WholeLines globals ds text :=
  ⟨Or.inr (List.getLast?_eq_some_iff.mp last), definitions, named⟩

theorem written_literal {cs : List Char} (last : cs.getLast? = some '\n')
    (defined : (cs.splitOn '\n').flatMap definedBy = ds) (named : marked '@' cs ⊆ globals) :
    WholeLines globals ds (String.ofList cs) := by
  refine written_of_toList ?_ ?_ ?_
  · rwa [String.toList_ofList]
  · rwa [definitionsIn, lines, String.toList_ofList]
  · rwa [globalsIn, String.toList_ofList]

theorem localsIn_literal (cs : List Char) :
    localsIn (String.ofList cs) = (cs.splitOn '\n').flatMap introducedBy := by
  rw [localsIn, lines, String.toList_ofList]

theorem written_external {b : Builtin} (external : b.isExternal = true) :
    WholeLines preludeNames [b.name] b.text ∧ localsIn b.text = [] := by
  cases b with
  | calloc | printf | exit =>
    exact ⟨written_literal (by decide +kernel) (by decide +kernel) (by decide +kernel),
      (localsIn_literal _).trans (by decide +kernel)⟩
  | _ => cases external

theorem written_fixedText : ∀ c ∈ FixedText.all, WholeLines preludeNames [c.name] c.text := by
  have values : ∀ c ∈ FixedText.all, c.text.toList.getLast? = some '\n' ∧
      definitionsIn c.text = [c.name] ∧ globalsIn c.text ⊆ preludeNames := by decide +kernel
  intro c hc
  obtain ⟨last, definitions, named⟩ := values c hc
  exact written_of_toList last definitions named

theorem written_pointer : ∀ c ∈ FixedText.all,
    WholeLines preludeNames [] c.pointer ∧ localsIn c.pointer = ["_str"] := by
  have values : ∀ c ∈ FixedText.all, (c.pointer.toList.getLast? = some '\n' ∧
      definitionsIn c.pointer = [] ∧ globalsIn c.pointer ⊆ preludeNames) ∧
      localsIn c.pointer = ["_str"] := by decide +kernel
  intro c hc
  obtain ⟨⟨last, definitions, named⟩, locals⟩ := values c hc
  exact ⟨written_of_toList last definitions named, locals⟩

/-- A function of the prelude: its first line, the line that finds its text, and the rest. -/
theorem written_around {c : FixedText} (hc : c ∈ FixedText.all) {head rest : String}
    {locals : List Name} (first : WholeLines preludeNames ds head ∧ localsIn head = locals)
    (last : WholeLines preludeNames [] rest ∧ localsIn rest = []) :
    WholeLines preludeNames ds (head ++ c.pointer ++ rest) ∧
      localsIn (head ++ c.pointer ++ rest) = locals ++ ["_str"] := by
  obtain ⟨pointer, found⟩ := written_pointer c hc
  have inside := first.1.append pointer
  refine ⟨?_, ?_⟩
  · have whole := inside.append last.1
    rwa [List.append_nil, List.append_nil] at whole
  · rw [inside.complete.localsIn_append, first.1.complete.localsIn_append, first.2, found, last.2,
      List.append_nil]

theorem written_stopText {b : Builtin} (stops : b = .outOfBounds ∨ b = .negativeSize)
    {c : FixedText} (hc : c ∈ FixedText.all) :
    WholeLines preludeNames [b.name] (stopText b c) ∧ localsIn (stopText b c) = ["_str"] := by
  have values : ∀ b ∈ [Builtin.outOfBounds, .negativeSize],
      ((s!"define void @{b.name}() \x7b\n").toList.getLast? = some '\n' ∧
        definitionsIn s!"define void @{b.name}() \x7b\n" = [b.name] ∧
        globalsIn s!"define void @{b.name}() \x7b\n" ⊆ preludeNames) ∧
      localsIn s!"define void @{b.name}() \x7b\n" = [] := by decide +kernel
  obtain ⟨⟨last, definitions, named⟩, locals⟩ := values b (by simpa using stops)
  exact written_around hc ⟨written_of_toList last definitions named, locals⟩
    ⟨written_literal (by decide +kernel) (by decide +kernel) (by decide +kernel),
      (localsIn_literal _).trans (by decide +kernel)⟩

theorem written_internal {b : Builtin} (internal : b.isExternal = false) :
    WholeLines preludeNames [b.name] b.text ∧ (localsIn b.text).Nodup := by
  have texts : FixedText.intFormat ∈ FixedText.all ∧ FixedText.outOfBounds ∈ FixedText.all ∧
      FixedText.negativeSize ∈ FixedText.all := by simp [FixedText.all]
  unfold Builtin.text
  cases b with
  | printInt =>
    have head : WholeLines preludeNames [Builtin.printInt.name]
        "define void @print_int(i32 %i) \x7b\n" ∧
        localsIn "define void @print_int(i32 %i) \x7b\n" = ["i"] :=
      ⟨written_literal (by decide +kernel) (by decide +kernel) (by decide +kernel),
        (localsIn_literal _).trans (by decide +kernel)⟩
    have rest : WholeLines preludeNames []
        "\tcall i32 (i8*, ...) @printf(i8* %_str, i32 %i)\n\tret void\n\x7d\n" ∧
        localsIn "\tcall i32 (i8*, ...) @printf(i8* %_str, i32 %i)\n\tret void\n\x7d\n" = [] :=
      ⟨written_literal (by decide +kernel) (by decide +kernel) (by decide +kernel),
        (localsIn_literal _).trans (by decide +kernel)⟩
    obtain ⟨written, locals⟩ := written_around texts.1 head rest
    exact ⟨written, locals ▸ by decide⟩
  | outOfBounds =>
    obtain ⟨written, locals⟩ := written_stopText (Or.inl rfl) texts.2.1
    exact ⟨written, locals ▸ by decide⟩
  | negativeSize =>
    obtain ⟨written, locals⟩ := written_stopText (Or.inr rfl) texts.2.2
    exact ⟨written, locals ▸ by decide⟩
  | _ => cases internal

theorem builtin_locals_nodup (b : Builtin) : (localsIn b.text).Nodup := by
  cases external : b.isExternal with
  | true =>
    rw [(written_external external).2]
    exact .nil
  | false => exact (written_internal external).2

theorem written_prelude (known : preludeNames ⊆ globals) :
    WholeLines globals preludeNames prelude := by
  have blank : WholeLines preludeNames [] "\n" := ⟨Or.inr ⟨[], rfl⟩, rfl, List.nil_subset _⟩
  have externals : WholeLines preludeNames
      ((Builtin.all.filter (·.isExternal)).flatMap fun b => [b.name])
      (String.join ((Builtin.all.filter (·.isExternal)).map (·.text))) :=
    .join fun b hb => (written_external (List.mem_filter.mp hb).2).1
  have texts : WholeLines preludeNames (FixedText.all.flatMap fun c => [c.name])
      (String.join (FixedText.all.map (·.text))) := .join written_fixedText
  have internals : WholeLines preludeNames
      ((Builtin.all.filter (!·.isExternal)).flatMap fun b => [b.name])
      (String.join ((Builtin.all.filter (!·.isExternal)).map fun b => "\n" ++ b.text)) :=
    .join fun b hb => by
      have internal : b.isExternal = false := (Bool.not_eq_true' _).mp (List.mem_filter.mp hb).2
      exact blank.append (written_internal internal).1
  obtain ⟨complete, definitions, named⟩ := (((externals.append blank).append texts).append
    internals).append blank
  exact ⟨complete, definitions, List.Subset.trans named known⟩

end Prelude

end MiniJava.IR
