import MiniJava.Json.Lexer

/-!
# Tokens of a text

What the lexer accepts, as a grammar: a text is a sequence of blanks, marks, words, numbers and
quoted strings, and its tokens are the same sequence without the blanks. A number ends only where a
character follows that could not continue it, and a word likewise.
-/

namespace MiniJava.Json

open Lexer Quoted

/-- The number that hexadecimal digits continue. -/
def hexFrom? (n : Nat) : List Char → Option Nat
  | [] => some n
  | c :: cs => (hexDigit? c).bind fun d => hexFrom? (16 * n + d) cs

/-- The inside of a quoted string: its pieces and a spelling of them. -/
inductive Inside : List Piece → List Char → Prop where
  | done : Inside [] []
  | char {c : Char} {ps : List Piece} {cs : List Char} (quote : c ≠ '"') (slash : c ≠ '\\')
      (control : ¬ c.toNat < 0x20) (rest : Inside ps cs) : Inside (.char c :: ps) (c :: cs)
  | escape {c e : Char} {ps : List Piece} {cs : List Char} (he : escape? c = some e)
      (rest : Inside ps cs) : Inside (.char e :: ps) ('\\' :: c :: cs)
  | code {ds : List Char} {n : Nat} {ps : List Piece} {cs : List Char} (four : ds.length = 4)
      (hn : hexFrom? 0 ds = some n) (rest : Inside ps cs) :
      Inside (.code n :: ps) ('\\' :: 'u' :: (ds ++ cs))

/-- No character of the class comes next. -/
def Stops (class? : Char → Bool) (cs : List Char) : Prop := ∀ c ∈ cs.head?, class? c = false

/-- The tokens of a text. -/
inductive Lexed : List Token → List Char → Prop where
  | done : Lexed [] []
  | blank {c : Char} {ts : List Token} {cs : List Char} (hc : isBlank c = true)
      (rest : Lexed ts cs) : Lexed ts (c :: cs)
  | mark {c : Char} {t : Token} {ts : List Token} {cs : List Char} (hc : mark? c = some t)
      (rest : Lexed ts cs) : Lexed (t :: ts) (c :: cs)
  | number {w : List Char} {v : Json} {ts : List Token} {cs : List Char}
      (hw : Number.read? w = some v) (stop : Stops isNumeric cs) (rest : Lexed ts cs) :
      Lexed (.scalar v :: ts) (w ++ cs)
  | word {w : List Char} {v : Json} {ts : List Token} {cs : List Char}
      (hw : word? w = some v) (stop : Stops isLower cs) (rest : Lexed ts cs) :
      Lexed (.scalar v :: ts) (w ++ cs)
  | quoted {ps : List Piece} {w : List Char} {ts : List Token} {cs : List Char}
      (hw : Inside ps w) (rest : Lexed ts cs) :
      Lexed (.scalar (.str ((Quoted.text? ps).map String.ofList)) :: ts) ('"' :: (w ++ '"' :: cs))

theorem isNumeric_of_isDigit {c : Char} (h : c.isDigit = true) : isNumeric c = true := by
  simp [isNumeric, h]

theorem all_numeric_of_areDigits {cs : List Char} (h : Number.areDigits cs = true) :
    ∀ c ∈ cs, isNumeric c = true := by
  intro c hc
  rw [Number.areDigits, Bool.and_eq_true, List.all_eq_true] at h
  exact isNumeric_of_isDigit (h.2 c hc)

theorem all_numeric_of_unsigned {cs : List Char}
    (h : Number.areDigits (Number.unsigned cs) = true) :
    ∀ c ∈ cs, isNumeric c = true := by
  unfold Number.unsigned at h
  split at h
  · rintro c (_ | ⟨_, hc⟩)
    · rfl
    · exact all_numeric_of_areDigits h c hc
  · rintro c (_ | ⟨_, hc⟩)
    · rfl
    · exact all_numeric_of_areDigits h c hc
  · exact all_numeric_of_areDigits h

theorem all_numeric_of_isTail {cs : List Char} (h : Number.isTail cs = true) :
    ∀ c ∈ cs, isNumeric c = true := by
  rw [Number.isTail, Bool.and_eq_true] at h
  obtain ⟨hf, he⟩ := h
  have fraction : ∀ c ∈ cs.takeWhile (!Number.isExponentMark ·), isNumeric c = true := by
    split at hf
    · next heq => rw [heq]; simp
    · next ds heq =>
      rw [heq]
      rintro c (_ | ⟨_, hc⟩)
      · rfl
      · exact all_numeric_of_areDigits hf c hc
    · simp at hf
  have exponent : ∀ c ∈ cs.dropWhile (!Number.isExponentMark ·), isNumeric c = true := by
    split at he
    · next heq => rw [heq]; simp
    · next m ds heq =>
      rw [heq]
      have hm : Number.isExponentMark m = true := by
        have := List.head?_dropWhile_not (!Number.isExponentMark ·) cs
        rw [heq] at this
        simpa using this
      rintro c (_ | ⟨_, hc⟩)
      · rw [Number.isExponentMark, Bool.or_eq_true] at hm
        rcases hm with hm | hm <;> simp [isNumeric, hm]
      · exact all_numeric_of_unsigned he c hc
  intro c hc
  rw [← List.takeWhile_append_dropWhile (p := (!Number.isExponentMark ·)) (l := cs)] at hc
  rcases List.mem_append.mp hc with hc | hc
  · exact fraction c hc
  · exact exponent c hc

theorem all_numeric_of_parts {body : List Char}
    (tail : Number.isTail (body.dropWhile Char.isDigit) = true) :
    ∀ d ∈ body, isNumeric d = true := by
  intro d hd
  rw [← List.takeWhile_append_dropWhile (p := Char.isDigit) (l := body)] at hd
  rcases List.mem_append.mp hd with hd | hd
  · exact isNumeric_of_isDigit (List.all_eq_true.mp List.all_takeWhile d hd)
  · exact all_numeric_of_isTail tail d hd

theorem read?_chars {w : List Char} {v : Json} (h : Number.read? w = some v) :
    ∃ c cs, w = c :: cs ∧ startsNumber c = true ∧ ∀ d ∈ cs, isNumeric d = true := by
  cases w with
  | nil => simp [Number.read?, Number.isWhole] at h
  | cons c cs =>
    refine ⟨c, cs, rfl, ?_⟩
    by_cases minus : c = '-'
    · simp only [Number.read?, minus, List.head?_cons, BEq.rfl, if_true, List.tail_cons] at h
      split at h
      · next valid =>
        rw [Bool.and_eq_true] at valid
        exact ⟨by simp [startsNumber, minus], all_numeric_of_parts valid.2⟩
      · simp at h
    · have positive : ((c :: cs).head? == some '-') = false := by simp [minus]
      simp only [Number.read?, positive, Bool.false_eq_true, if_false] at h
      split at h
      · next valid =>
        rw [Bool.and_eq_true] at valid
        obtain ⟨whole, tail⟩ := valid
        refine ⟨?_, fun d hd => all_numeric_of_parts tail d (List.mem_cons_of_mem _ hd)⟩
        by_cases hc : c.isDigit = true
        · simp [startsNumber, hc]
        · simp [hc, Number.isWhole] at whole
      · simp at h

theorem word?_chars {w : List Char} {v : Json} (h : word? w = some v) :
    ∃ c cs, w = c :: cs ∧ isLower c = true ∧ ∀ d ∈ cs, isLower d = true := by
  unfold word? at h
  split at h
  · next hw => rw [eq_of_beq hw]; exact ⟨_, _, rfl, rfl, List.all_eq_true.mp rfl⟩
  · split at h
    · next hw => rw [eq_of_beq hw]; exact ⟨_, _, rfl, rfl, List.all_eq_true.mp rfl⟩
    · split at h
      · next hw => rw [eq_of_beq hw]; exact ⟨_, _, rfl, rfl, List.all_eq_true.mp rfl⟩
      · simp at h

theorem step_blank {c : Char} (hc : isBlank c = true) (acc : List Token) :
    step ⟨.between, acc⟩ c = some ⟨.between, acc⟩ := by
  change fresh acc c = _
  rw [fresh, if_pos hc]

theorem blank_cases {c : Char} (hc : isBlank c = true) :
    c = ' ' ∨ c = '\t' ∨ c = '\n' ∨ c = '\r' := by
  simpa only [isBlank, Bool.or_eq_true, beq_iff_eq, or_assoc] using hc

theorem not_blank_of_startsNumber {c : Char} (hc : startsNumber c = true) : isBlank c = false := by
  refine Bool.eq_false_iff.mpr fun hb => ?_
  rcases blank_cases hb with rfl | rfl | rfl | rfl <;> simp [startsNumber] at hc

theorem step_number {c : Char} (hc : startsNumber c = true) (acc : List Token) :
    step ⟨.between, acc⟩ c = some ⟨.number [c], acc⟩ := by
  change fresh acc c = _
  rw [fresh, not_blank_of_startsNumber hc, if_neg Bool.false_ne_true, if_pos hc]

theorem isLower_range {c : Char} (hc : isLower c = true) : 97 ≤ c.toNat ∧ c.toNat ≤ 122 := by
  rw [isLower, Bool.and_eq_true, decide_eq_true_eq, decide_eq_true_eq] at hc
  exact hc

theorem step_word {c : Char} (hc : isLower c = true) (acc : List Token) :
    step ⟨.between, acc⟩ c = some ⟨.word [c], acc⟩ := by
  obtain ⟨low, high⟩ := isLower_range hc
  have blank : isBlank c = false := by
    refine Bool.eq_false_iff.mpr fun hb => ?_
    rcases blank_cases hb with rfl | rfl | rfl | rfl <;> simp at low
  have number : startsNumber c = false := by
    refine Bool.eq_false_iff.mpr fun hn => ?_
    rw [startsNumber, Bool.or_eq_true, beq_iff_eq] at hn
    rcases hn with hn | rfl
    · rw [Char.isDigit, Bool.and_eq_true, decide_eq_true_eq, decide_eq_true_eq] at hn
      have : c.toNat ≤ 57 := hn.2
      omega
    · simp at low
  change fresh acc c = _
  rw [fresh, blank, number, if_neg Bool.false_ne_true, if_neg Bool.false_ne_true, if_pos hc]

theorem step_quote (acc : List Token) :
    step ⟨.between, acc⟩ '"' = some ⟨.quoted [], acc⟩ := rfl

theorem step_mark {c : Char} {t : Token} (hc : mark? c = some t) (acc : List Token) :
    step ⟨.between, acc⟩ c = some ⟨.between, t :: acc⟩ := by
  unfold mark? at hc
  split at hc <;> first | (obtain rfl := Option.some.inj hc; rfl) | simp at hc

theorem run_of_step {s s' : State} {c : Char} (h : step s c = some s') (cs : List Char) :
    run s (c :: cs) = run s' cs := by
  rw [run, h]

/-- Numbers and words are collected while characters of their class come. -/
theorem run_collect {mode : List Char → Mode} {class? : Char → Bool}
    (collect : ∀ ds acc d, class? d = true → step ⟨mode ds, acc⟩ d = some ⟨mode (d :: ds), acc⟩)
    {w : List Char} (hw : ∀ d ∈ w, class? d = true) (ds cs : List Char) (acc : List Token) :
    run ⟨mode ds, acc⟩ (w ++ cs) = run ⟨mode (w.reverse ++ ds), acc⟩ cs := by
  induction w generalizing ds with
  | nil => rfl
  | cons d w ih =>
    have hd := collect ds acc d (hw d List.mem_cons_self)
    rw [List.cons_append, run_of_step hd, ih fun x hx => hw x (List.mem_cons_of_mem d hx)]
    simp

theorem step_numeric (ds : List Char) (acc : List Token) (d : Char) (hd : isNumeric d = true) :
    step ⟨.number ds, acc⟩ d = some ⟨.number (d :: ds), acc⟩ := by
  simp [step, hd]

theorem step_lower (ds : List Char) (acc : List Token) (d : Char) (hd : isLower d = true) :
    step ⟨.word ds, acc⟩ d = some ⟨.word (d :: ds), acc⟩ := by
  simp [step, hd]

theorem run_number_end {ds cs : List Char} {v : Json} (hv : Number.read? ds.reverse = some v)
    (stop : Stops isNumeric cs) (acc : List Token) :
    run ⟨.number ds, acc⟩ cs = run ⟨.between, push acc v⟩ cs := by
  cases cs with
  | nil => simp [run, finish, hv]
  | cons c cs => simp [run, step, stop c rfl, hv]

theorem run_word_end {ds cs : List Char} {v : Json} (hv : word? ds.reverse = some v)
    (stop : Stops isLower cs) (acc : List Token) :
    run ⟨.word ds, acc⟩ cs = run ⟨.between, push acc v⟩ cs := by
  cases cs with
  | nil => simp [run, finish, hv]
  | cons c cs => simp [run, step, stop c rfl, hv]

theorem run_hex {ds : List Char} {value n left : Nat} (hn : hexFrom? value ds = some n)
    (hleft : ds.length = left) (some_left : 0 < left) (ps : List Piece) (cs : List Char)
    (acc : List Token) :
    run ⟨.hex ps value left, acc⟩ (ds ++ cs) = run ⟨.quoted (.code n :: ps), acc⟩ cs := by
  induction ds generalizing value left with
  | nil => simp at hleft; omega
  | cons d ds ih =>
    obtain ⟨x, hx, hn⟩ := Option.bind_eq_some_iff.mp hn
    rw [List.length_cons] at hleft
    cases ds with
    | nil =>
      obtain rfl := Option.some.inj hn
      have last : left = 1 := by simpa using hleft.symm
      simp [run, step, hx, last]
    | cons d' ds =>
      have more : ¬ left ≤ 1 := by simp at hleft; omega
      have hd : step ⟨.hex ps value left, acc⟩ d =
          some ⟨.hex ps (16 * value + x) (left - 1), acc⟩ := by
        simp [step, hx, more]
      rw [List.cons_append, run_of_step hd]
      exact ih hn (by omega) (by omega)

theorem escape?_ne_u {c e : Char} (he : escape? c = some e) : c ≠ 'u' := by
  rintro rfl
  simp [escape?] at he

theorem run_inside {qs : List Piece} {w : List Char} (hw : Inside qs w) (ps : List Piece)
    (cs : List Char) (acc : List Token) :
    run ⟨.quoted ps, acc⟩ (w ++ cs) = run ⟨.quoted (qs.reverse ++ ps), acc⟩ cs := by
  induction hw generalizing ps with
  | done => rfl
  | @char c qs w quote slash control rest ih =>
    have hc : step ⟨.quoted ps, acc⟩ c = some ⟨.quoted (.char c :: ps), acc⟩ := by
      simp [step, quote, slash, control]
    rw [List.cons_append, run_of_step hc, ih]
    simp
  | @escape c e qs w he rest ih =>
    have hc : step ⟨.escape ps, acc⟩ c = some ⟨.quoted (.char e :: ps), acc⟩ := by
      simp [step, escape?_ne_u he, he]
    have slash : step ⟨.quoted ps, acc⟩ '\\' = some ⟨.escape ps, acc⟩ := rfl
    rw [List.cons_append, List.cons_append, run_of_step slash, run_of_step hc, ih]
    simp
  | @code ds n qs w four hn rest ih =>
    have slash : step ⟨.quoted ps, acc⟩ '\\' = some ⟨.escape ps, acc⟩ := rfl
    have hu : step ⟨.escape ps, acc⟩ 'u' = some ⟨.hex ps 0 4, acc⟩ := rfl
    rw [List.cons_append, List.cons_append, run_of_step slash, run_of_step hu, List.append_assoc,
      run_hex hn four (by decide), ih]
    simp

theorem run_of_lexed {ts : List Token} {cs : List Char} (h : Lexed ts cs) (acc : List Token) :
    run ⟨.between, acc⟩ cs = some (acc.reverse ++ ts) := by
  induction h generalizing acc with
  | done => simp [run, finish]
  | blank hc rest ih => rw [run_of_step (step_blank hc acc), ih]
  | mark hc rest ih =>
    rw [run_of_step (step_mark hc acc), ih]
    simp
  | @number w v ts cs hw stop rest ih =>
    obtain ⟨c, w, rfl, hc, hd⟩ := read?_chars hw
    rw [List.cons_append, run_of_step (step_number hc acc), run_collect step_numeric hd,
      run_number_end (by simpa using hw) stop, ih]
    simp [push]
  | @word w v ts cs hw stop rest ih =>
    obtain ⟨c, w, rfl, hc, hd⟩ := word?_chars hw
    rw [List.cons_append, run_of_step (step_word hc acc), run_collect step_lower hd,
      run_word_end (by simpa using hw) stop, ih]
    simp [push]
  | @quoted ps w ts cs hw rest ih =>
    have close : step ⟨.quoted (ps.reverse ++ []), acc⟩ '"' =
        some ⟨.between, push acc (.str ((Quoted.text? ps).map String.ofList))⟩ := by
      simp [step]
    rw [run_of_step (step_quote acc), run_inside hw, run_of_step close, ih]
    simp [push]

/-- A text that closes the quoted string whose pieces so far are `ps`. -/
def Closing (ps : List Piece) (ts : List Token) (cs : List Char) : Prop :=
  ∃ qs w rest ts', cs = w ++ '"' :: rest ∧ Inside qs w ∧
    ts = .scalar (.str ((Quoted.text? (ps ++ qs)).map String.ofList)) :: ts' ∧ Lexed ts' rest

/-- A text that goes on with the number or the word begun by `ds`. -/
def Continuing (class? : Char → Bool) (value? : List Char → Option Json) (ds : List Char)
    (ts : List Token) (cs : List Char) : Prop :=
  ∃ w rest v ts', cs = w ++ rest ∧ ts = .scalar v :: ts' ∧ value? (ds ++ w) = some v ∧
    Stops class? rest ∧ Lexed ts' rest

/-- What the text has to be for the tokens to come, by what has been begun. -/
def Pending : Mode → List Token → List Char → Prop
  | .between, ts, cs => Lexed ts cs
  | .number ds, ts, cs => Continuing isNumeric Number.read? ds.reverse ts cs
  | .word ds, ts, cs => Continuing isLower word? ds.reverse ts cs
  | .quoted ps, ts, cs => Closing ps.reverse ts cs
  | .escape ps, ts, cs => Closing ps.reverse ts ('\\' :: cs)
  | .hex ps value left, ts, cs => ∃ ds n w, cs = ds ++ w ∧ 0 < ds.length ∧ left ≤ ds.length ∧
      ds.length ≤ max 1 left ∧ hexFrom? value ds = some n ∧ Closing (.code n :: ps).reverse ts w

theorem closing_of_piece {p : Piece} {w : List Char}
    (piece : ∀ qs u, Inside qs u → Inside (p :: qs) (w ++ u)) {ps : List Piece} {ts : List Token}
    {cs : List Char} (h : Closing (p :: ps).reverse ts cs) : Closing ps.reverse ts (w ++ cs) := by
  obtain ⟨qs, u, rest, ts', rfl, inside, rfl, lexed⟩ := h
  exact ⟨p :: qs, w ++ u, rest, ts', by simp, piece qs u inside, by simp, lexed⟩

theorem continuing_cons {class? : Char → Bool} {value? : List Char → Option Json} {ds : List Char}
    {d : Char} {ts : List Token} {cs : List Char}
    (h : Continuing class? value? (d :: ds).reverse ts cs) :
    Continuing class? value? ds.reverse ts (d :: cs) := by
  obtain ⟨w, rest, v, ts', rfl, rfl, hv, stop, lexed⟩ := h
  exact ⟨d :: w, rest, v, ts', rfl, rfl, by simpa using hv, stop, lexed⟩

theorem continuing_end {class? : Char → Bool} {value? : List Char → Option Json} {ds : List Char}
    {v : Json} {ts : List Token} {cs : List Char} (hv : value? ds = some v)
    (stop : Stops class? cs) (lexed : Lexed ts cs) :
    Continuing class? value? ds (.scalar v :: ts) cs :=
  ⟨[], cs, v, ts, rfl, rfl, by rw [List.append_nil, hv], stop, lexed⟩

theorem stops_nil (class? : Char → Bool) : Stops class? [] := by
  intro c hc
  simp at hc

theorem stops_cons {class? : Char → Bool} {c : Char} (hc : ¬ class? c = true) (cs : List Char) :
    Stops class? (c :: cs) := by
  rintro _ ⟨⟩
  rwa [Bool.not_eq_true] at hc

/-- What a run from a state gives: the tokens it has and those of the text to come. -/
def Completes (s : State) (ts : List Token) (cs : List Char) : Prop :=
  ∃ ts', ts = s.tokens.reverse ++ ts' ∧ Pending s.mode ts' cs

theorem completes_of_fresh {acc : List Token} {c : Char} {s : State} {ts : List Token}
    {cs : List Char} (h : fresh acc c = some s) (hs : Completes s ts cs) :
    Completes ⟨.between, acc⟩ ts (c :: cs) := by
  obtain ⟨ts', rfl, pending⟩ := hs
  unfold fresh at h
  split at h
  · next blank =>
    obtain rfl := Option.some.inj h
    exact ⟨ts', rfl, .blank blank pending⟩
  split at h
  · obtain rfl := Option.some.inj h
    obtain ⟨w, rest, v, ts', rfl, rfl, hv, stop, lexed⟩ := pending
    exact ⟨_, rfl, .number hv stop lexed⟩
  split at h
  · obtain rfl := Option.some.inj h
    obtain ⟨w, rest, v, ts', rfl, rfl, hv, stop, lexed⟩ := pending
    exact ⟨_, rfl, .word hv stop lexed⟩
  split at h
  · next quote =>
    obtain rfl := Option.some.inj h
    obtain rfl := eq_of_beq quote
    obtain ⟨qs, w, rest, ts', rfl, inside, rfl, lexed⟩ := pending
    exact ⟨_, rfl, .quoted inside lexed⟩
  · obtain ⟨t, ht, rfl⟩ := Option.map_eq_some_iff.mp h
    exact ⟨t :: ts', by simp, .mark ht pending⟩

/-- A number or a word is over, and the character behind it begins something. -/
theorem continuing_of_fresh {class? : Char → Bool} {value? : List Char → Option Json}
    {ds : List Char} {v : Json} (hv : value? ds = some v) {c : Char} (stop : ¬ class? c = true)
    {acc : List Token} {s : State} (hs : fresh (push acc v) c = some s) {ts : List Token}
    {cs : List Char} (h : Completes s ts cs) :
    ∃ ts', ts = acc.reverse ++ ts' ∧ Continuing class? value? ds ts' (c :: cs) := by
  obtain ⟨ts', rfl, lexed⟩ := completes_of_fresh hs h
  exact ⟨.scalar v :: ts', by simp [push], continuing_end hv (stops_cons stop cs) lexed⟩

/-- A number or a word goes on with a character of its class. Any other ends it, and begins
something. -/
theorem continuing_of_step {class? : Char → Bool} {value? : List Char → Option Json}
    {mode : List Char → Mode} {ds : List Char} {acc : List Token} {c : Char} {s : State}
    (h : (if class? c then some ⟨mode (c :: ds), acc⟩
      else (value? ds.reverse).bind fun v => fresh (push acc v) c) = some s)
    {ts : List Token} {cs : List Char}
    (collects : ∀ ts, Pending (mode (c :: ds)) ts cs →
      Continuing class? value? (c :: ds).reverse ts cs) (hs : Completes s ts cs) :
    ∃ ts', ts = acc.reverse ++ ts' ∧ Continuing class? value? ds.reverse ts' (c :: cs) := by
  split at h
  · obtain rfl := Option.some.inj h
    obtain ⟨ts', rfl, pending⟩ := hs
    exact ⟨ts', rfl, continuing_cons (collects ts' pending)⟩
  · next stop =>
    obtain ⟨v, hv, hfresh⟩ := Option.bind_eq_some_iff.mp h
    exact continuing_of_fresh hv stop hfresh hs

section Quoted
variable {ps : List Piece} {acc : List Token} {c : Char} {s : State} {ts : List Token}
  {cs : List Char}

theorem completes_of_quoted (h : step ⟨.quoted ps, acc⟩ c = some s) (hs : Completes s ts cs) :
    Completes ⟨.quoted ps, acc⟩ ts (c :: cs) := by
  dsimp only [step] at h
  split at h
  · next quote =>
    obtain rfl := Option.some.inj h
    obtain rfl := eq_of_beq quote
    obtain ⟨ts', rfl, lexed⟩ := hs
    exact ⟨_, by simp [push]; rfl, [], [], cs, ts', rfl, .done, by simp, lexed⟩
  split at h
  · next slash =>
    obtain rfl := Option.some.inj h
    obtain rfl := eq_of_beq slash
    exact hs
  split at h
  · simp at h
  · next quote slash control =>
    obtain rfl := Option.some.inj h
    obtain ⟨ts', rfl, closing⟩ := hs
    refine ⟨ts', rfl, closing_of_piece (w := [c]) (fun qs u hu => ?_) closing⟩
    exact .char (by simpa using quote) (by simpa using slash) control hu

theorem completes_of_escape (h : step ⟨.escape ps, acc⟩ c = some s) (hs : Completes s ts cs) :
    Completes ⟨.escape ps, acc⟩ ts (c :: cs) := by
  dsimp only [step] at h
  split at h
  · next hu =>
    obtain rfl := Option.some.inj h
    obtain rfl := eq_of_beq hu
    obtain ⟨ts', rfl, ds, n, w, rfl, -, low, high, hn, closing⟩ := hs
    have four : ds.length = 4 := by simp at high; omega
    refine ⟨ts', rfl, ?_⟩
    exact closing_of_piece (w := '\\' :: 'u' :: ds) (fun qs u hu => .code four hn hu) closing
  · obtain ⟨e, he, rfl⟩ := Option.map_eq_some_iff.mp h
    obtain ⟨ts', rfl, closing⟩ := hs
    exact ⟨ts', rfl, closing_of_piece (w := ['\\', c]) (fun qs u hu => .escape he hu) closing⟩

theorem completes_of_hex {value left : Nat} (h : step ⟨.hex ps value left, acc⟩ c = some s)
    (hs : Completes s ts cs) : Completes ⟨.hex ps value left, acc⟩ ts (c :: cs) := by
  dsimp only [step] at h
  obtain ⟨d, hd, rfl⟩ := Option.map_eq_some_iff.mp h
  split at hs
  · next last =>
    obtain ⟨ts', rfl, closing⟩ := hs
    refine ⟨ts', rfl, [c], 16 * value + d, cs, rfl, by simp, by simpa using last,
      Nat.le_max_left 1 left, ?_, closing⟩
    simp [hexFrom?, hd]
  · next more =>
    obtain ⟨ts', rfl, ds, n, w, rfl, positive, low, high, hn, closing⟩ := hs
    refine ⟨ts', rfl, c :: ds, n, w, rfl, by simp, by simp; omega, by simp; omega, ?_, closing⟩
    simp [hexFrom?, hd, hn]

end Quoted

/-- What is to come behind a character is to come with that character before the step. -/
theorem completes_of_step {s s' : State} {c : Char} (h : step s c = some s') {ts : List Token}
    {cs : List Char} (hs : Completes s' ts cs) : Completes s ts (c :: cs) := by
  obtain ⟨mode, acc⟩ := s
  cases mode with
  | between => exact completes_of_fresh h hs
  | number ds => exact continuing_of_step h (fun _ => id) hs
  | word ds => exact continuing_of_step h (fun _ => id) hs
  | quoted ps => exact completes_of_quoted h hs
  | escape ps => exact completes_of_escape h hs
  | hex ps value left => exact completes_of_hex h hs

theorem completes_of_finish {s : State} {ts : List Token} (h : finish s = some ts) :
    Completes s ts [] := by
  obtain ⟨mode, acc⟩ := s
  cases mode <;> simp only [finish, reduceCtorEq, Option.some.injEq, Option.map_eq_some_iff] at h
  case between => exact ⟨[], by simpa using h.symm, .done⟩
  case number ds =>
    obtain ⟨v, hv, rfl⟩ := h
    exact ⟨[.scalar v], by simp [push], continuing_end hv (stops_nil _) .done⟩
  case word ds =>
    obtain ⟨v, hv, rfl⟩ := h
    exact ⟨[.scalar v], by simp [push], continuing_end hv (stops_nil _) .done⟩

theorem completes_of_run {s : State} {cs : List Char} {ts : List Token}
    (h : run s cs = some ts) : Completes s ts cs := by
  induction cs generalizing s with
  | nil => exact completes_of_finish h
  | cons c cs ih =>
    rw [run] at h
    split at h
    · simp at h
    · next s' hstep => exact completes_of_step hstep (ih h)

/-- The lexer accepts the spellings of token sequences and nothing else. -/
theorem tokens?_iff {cs : List Char} {ts : List Token} : tokens? cs = some ts ↔ Lexed ts cs := by
  constructor
  · intro h
    obtain ⟨ts', rfl, lexed⟩ := completes_of_run h
    exact lexed
  · intro h
    exact run_of_lexed h []

end MiniJava.Json
