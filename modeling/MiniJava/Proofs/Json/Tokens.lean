import MiniJava.Json.Parser
import MiniJava.Proofs.Json.Lexed

/-!
# Texts of a value

Every value has one sequence of tokens, and the parser accepts exactly the sequences of values. The
invariant behind soundness is what the stack of open brackets has consumed so far.
-/

namespace MiniJava.Json

mutual

/-- The tokens of a value. -/
def tokens : Json → List Token
  | .arr items => .openArr :: (itemTokens items ++ [.closeArr])
  | .obj members => .openObj :: (memberTokens members ++ [.closeObj])
  | .null => [.scalar .null]
  | .bool b => [.scalar (.bool b)]
  | .int n => [.scalar (.int n)]
  | .real s => [.scalar (.real s)]
  | .str s => [.scalar (.str s)]

def itemTokens : List Json → List Token
  | [] => []
  | [v] => v.tokens
  | v :: vs => v.tokens ++ .comma :: itemTokens vs

def memberTokens : List (Option String × Json) → List Token
  | [] => []
  | [m] => memberToken m
  | m :: ms => memberToken m ++ .comma :: memberTokens ms

def memberToken : Option String × Json → List Token
  | (key, v) => .scalar (.str key) :: .colon :: v.tokens

end

/-- A text spells a value: blanks may stand around every token. -/
def Spells (v : Json) (cs : List Char) : Prop := Lexed v.tokens cs

/-- Neither an array nor an object. -/
def IsScalar (v : Json) : Prop := v.tokens = [.scalar v]

namespace Parser

def afterItems (vs : List Json) : List Token := vs.flatMap fun v => v.tokens ++ [.comma]

def afterMembers (ms : List (Option String × Json)) : List Token :=
  ms.flatMap fun m => memberToken m ++ [.comma]

/-- The tokens that opened a bracket and what it holds. -/
def frameTokens : Frame → List Token
  | .arr items => .openArr :: afterItems items.reverse
  | .obj ms key => .openObj :: (afterMembers ms.reverse ++ [.scalar (.str key), .colon])

/-- Tokens behind which the stack is as it is. -/
def stackTokens (stack : List Frame) : List Token := stack.reverse.flatMap frameTokens

/-- The tokens that have led to a state. -/
def consumed : State → List Token
  | .value stack => stackTokens stack
  | .first stack => stackTokens stack ++ [.openArr]
  | .key stack ms => stackTokens stack ++ .openObj :: afterMembers ms.reverse
  | .colon stack ms key =>
    stackTokens stack ++ .openObj :: (afterMembers ms.reverse ++ [.scalar (.str key)])
  | .after stack v => stackTokens stack ++ v.tokens

theorem stackTokens_cons (f : Frame) (stack : List Frame) :
    stackTokens (f :: stack) = stackTokens stack ++ frameTokens f := by
  simp [stackTokens]

theorem itemTokens_snoc (vs : List Json) (v : Json) :
    itemTokens (vs ++ [v]) = afterItems vs ++ v.tokens := by
  induction vs with
  | nil => simp [itemTokens, afterItems]
  | cons u vs ih =>
    have more : itemTokens (u :: (vs ++ [v])) = u.tokens ++ .comma :: itemTokens (vs ++ [v]) := by
      cases vs <;> simp [itemTokens]
    rw [List.cons_append, more, ih]
    simp [afterItems]

theorem memberTokens_snoc (ms : List (Option String × Json)) (m : Option String × Json) :
    memberTokens (ms ++ [m]) = afterMembers ms ++ memberToken m := by
  induction ms with
  | nil => simp [memberTokens, afterMembers]
  | cons u ms ih =>
    have more : memberTokens (u :: (ms ++ [m])) =
        memberToken u ++ .comma :: memberTokens (ms ++ [m]) := by
      cases ms <;> simp [memberTokens]
    rw [List.cons_append, more, ih]
    simp [afterMembers]

/-- Values among the tokens are no arrays and no objects. -/
def Simple (t : Token) : Prop := ∀ v, t = .scalar v → v.IsScalar

theorem consumed_open? {stack : List Frame} {t : Token} {s : State} (ht : Simple t)
    (h : open? stack t = some s) : consumed s = stackTokens stack ++ [t] := by
  cases t <;> simp only [open?, Option.some.injEq, reduceCtorEq] at h <;> subst h
  case scalar v => rw [consumed, ht v rfl]
  case openArr => rfl
  case openObj => simp [consumed, afterMembers]

theorem consumed_step {s s' : State} {t : Token} (ht : Simple t) (h : step s t = some s') :
    consumed s' = consumed s ++ [t] := by
  unfold step at h
  split at h
  case h_1 stack t => exact consumed_open? ht h
  case h_2 stack =>
    obtain rfl := Option.some.inj h
    simp [consumed, tokens, itemTokens]
  case h_3 stack t _ =>
    rw [consumed_open? ht h, stackTokens_cons]
    simp [consumed, frameTokens, afterItems]
  case h_4 stack ms key =>
    obtain rfl := Option.some.inj h
    simp [consumed]
  case h_5 stack =>
    obtain rfl := Option.some.inj h
    simp [consumed, tokens, memberTokens, afterMembers]
  case h_6 stack ms key =>
    obtain rfl := Option.some.inj h
    simp [consumed, stackTokens_cons, frameTokens]
  case h_7 items stack v =>
    obtain rfl := Option.some.inj h
    simp [consumed, stackTokens_cons, frameTokens, afterItems]
  case h_8 items stack v =>
    obtain rfl := Option.some.inj h
    simp [consumed, stackTokens_cons, frameTokens, tokens, itemTokens_snoc]
  case h_9 ms key stack v =>
    obtain rfl := Option.some.inj h
    simp [consumed, stackTokens_cons, frameTokens, afterMembers, memberToken]
  case h_10 ms key stack v =>
    obtain rfl := Option.some.inj h
    simp [consumed, stackTokens_cons, frameTokens, tokens, memberTokens_snoc, memberToken]
  case h_11 => simp at h

theorem consumed_run {s : State} {ts : List Token} {v : Json} (simple : ∀ t ∈ ts, Simple t)
    (h : run s ts = some v) : consumed s ++ ts = v.tokens := by
  induction ts generalizing s with
  | nil =>
    rw [run] at h
    unfold finish at h
    split at h
    · obtain rfl := Option.some.inj h
      simp [consumed, stackTokens]
    · simp at h
  | cons t ts ih =>
    rw [run] at h
    split at h
    · simp at h
    next s' hs =>
    have rest := ih (fun u hu => simple u (List.mem_cons_of_mem t hu)) h
    rw [consumed_step (simple t List.mem_cons_self) hs] at rest
    simpa using rest

theorem run_of_step {s s' : State} {t : Token} (h : step s t = some s') (ts : List Token) :
    run s (t :: ts) = run s' ts := by
  rw [run, h]

/-- Just inside an array a value may come as behind a comma. -/
theorem run_first {t : Token} (ht : t ≠ .closeArr) (stack : List Frame) (ts : List Token) :
    run (.first stack) (t :: ts) = run (.value (.arr [] :: stack)) (t :: ts) := by
  cases t <;> first | rfl | contradiction

theorem tokens_head (v : Json) : ∃ t ts, v.tokens = t :: ts ∧ t ≠ .closeArr := by
  cases v <;> exact ⟨_, _, rfl, by simp⟩

mutual

theorem run_value : ∀ (v : Json) (stack : List Frame) (ts : List Token),
    run (.value stack) (v.tokens ++ ts) = run (.after stack v) ts
  | .null, _, _ | .bool _, _, _ | .int _, _, _ | .real _, _, _ | .str _, _, _ => rfl
  | .arr [], _, _ | .obj [], _, _ => rfl
  | .arr (v :: vs), stack, ts => by
    obtain ⟨t, us, hv, ht⟩ := tokens_head v
    have first : run (.first stack) (itemTokens (v :: vs) ++ .closeArr :: ts) =
        run (.value (.arr [] :: stack)) (itemTokens (v :: vs) ++ .closeArr :: ts) := by
      cases vs <;> simp only [itemTokens, hv, List.cons_append] <;> exact run_first ht _ _
    have items := run_items (v :: vs) [] stack ts (List.cons_ne_nil v vs)
    rw [tokens, List.cons_append, List.append_assoc]
    exact first.trans items
  | .obj (m :: ms), stack, ts => by
    have members := run_members (m :: ms) [] stack ts (List.cons_ne_nil m ms)
    rw [tokens, List.cons_append, List.append_assoc]
    exact members

theorem run_items : ∀ (vs done : List Json) (stack : List Frame) (ts : List Token), vs ≠ [] →
    run (.value (.arr done :: stack)) (itemTokens vs ++ .closeArr :: ts) =
      run (.after stack (.arr (done.reverse ++ vs))) ts
  | [], _, _, _, h => absurd rfl h
  | [v], done, stack, ts, _ => by
    rw [itemTokens, run_value v]
    simp [run, step]
  | v :: u :: vs, done, stack, ts, _ => by
    have rest := run_items (u :: vs) (v :: done) stack ts (List.cons_ne_nil u vs)
    have more : itemTokens (v :: u :: vs) = v.tokens ++ .comma :: itemTokens (u :: vs) := by
      simp [itemTokens]
    rw [more, List.append_assoc, run_value v, List.cons_append, run_of_step rfl, rest]
    simp

theorem run_members : ∀ (ms done : List (Option String × Json)) (stack : List Frame)
    (ts : List Token), ms ≠ [] →
    run (.key stack done) (memberTokens ms ++ .closeObj :: ts) =
      run (.after stack (.obj (done.reverse ++ ms))) ts
  | [], _, _, _, h => absurd rfl h
  | [(key, v)], done, stack, ts, _ => by
    rw [memberTokens, memberToken, List.cons_append, List.cons_append, run_of_step rfl,
      run_of_step rfl, run_value v]
    simp [run, step]
  | (key, v) :: m :: ms, done, stack, ts, _ => by
    have rest := run_members (m :: ms) ((key, v) :: done) stack ts (List.cons_ne_nil m ms)
    have more : memberTokens ((key, v) :: m :: ms) =
        .scalar (.str key) :: .colon :: (v.tokens ++ .comma :: memberTokens (m :: ms)) := by
      simp [memberTokens, memberToken]
    rw [more, List.cons_append, List.cons_append, List.append_assoc, run_of_step rfl,
      run_of_step rfl, run_value v, List.cons_append, run_of_step rfl, rest]
    simp

end

end Parser

theorem isScalar_of_read? {w : List Char} {v : Json} (h : Number.read? w = some v) :
    v.IsScalar := by
  have number : (∃ n, v = .int n) ∨ ∃ s, v = .real s := by grind [Number.read?]
  rcases number with ⟨n, rfl⟩ | ⟨s, rfl⟩ <;> rfl

theorem isScalar_of_word? {w : List Char} {v : Json} (h : Lexer.word? w = some v) :
    v.IsScalar := by
  have word : v = .null ∨ ∃ b, v = .bool b := by grind [Lexer.word?]
  rcases word with rfl | ⟨b, rfl⟩ <;> rfl

theorem simple_of_mark? {c : Char} {t : Token} (h : Lexer.mark? c = some t) : Parser.Simple t := by
  unfold Lexer.mark? at h
  split at h <;> first | (obtain rfl := Option.some.inj h; intro v hv; simp at hv) | simp at h

theorem simple_scalar {v : Json} (hv : v.IsScalar) : Parser.Simple (.scalar v) := by
  intro u hu
  obtain rfl := Token.scalar.inj hu
  exact hv

theorem Lexed.simple {ts : List Token} {cs : List Char} (h : Lexed ts cs) :
    ∀ t ∈ ts, Parser.Simple t := by
  induction h with
  | done => simp
  | blank _ _ ih => exact ih
  | mark hc _ ih => exact List.forall_mem_cons.mpr ⟨simple_of_mark? hc, ih⟩
  | number hw _ _ ih => exact List.forall_mem_cons.mpr ⟨simple_scalar (isScalar_of_read? hw), ih⟩
  | word hw _ _ ih => exact List.forall_mem_cons.mpr ⟨simple_scalar (isScalar_of_word? hw), ih⟩
  | quoted _ _ ih => exact List.forall_mem_cons.mpr ⟨simple_scalar rfl, ih⟩

/-- Parsing finds the value that a text spells. -/
theorem parse?_iff {cs : List Char} {v : Json} : parse? cs = some v ↔ Spells v cs := by
  constructor
  · intro h
    obtain ⟨ts, hts, run⟩ := Option.bind_eq_some_iff.mp h
    have lexed := tokens?_iff.mp hts
    have same : ts = v.tokens := Parser.consumed_run lexed.simple run
    rwa [same] at lexed
  · intro h
    have run : Parser.run Parser.start v.tokens = some v := by
      have := Parser.run_value v [] []
      rwa [List.append_nil] at this
    exact Option.bind_eq_some_iff.mpr ⟨v.tokens, tokens?_iff.mpr h, run⟩

end MiniJava.Json
