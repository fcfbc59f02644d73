import FilterQuery.Proofs.Token.Reading

/-!
# The offsets of a cursor

`Cursor.calls_never_fault` says what a cursor does over its whole life. After any
number of calls it stands at the beginning of a character or at the end of its
text, and no slice has been asked for that is not there; it has given out the
first tokens of the text, in order. The next call never moves it back, and moves
it on if there is a token. The offsets of that token are in order and cut its text
out of the input. Nothing comes, and nothing moves, after the end or an error.

A call is read off a scan (`Cursor.step_next`), and what holds after a number of
calls (`Cursor.Reached`) is kept by one more.
-/

namespace FilterQuery

def Lexeme.tokens (answers : List (Option Lexeme)) : List Token :=
  answers.filterMap (Option.map Lexeme.token)

/-- The offsets of a lexeme that a call has taken from a text on its way from one
position to another. -/
structure Lexeme.Lies (text : String) (position stop : Nat) (l : Lexeme) : Prop where
  position_le : position ≤ l.start
  start_lt : l.start < stop
  start_boundary : Text.Boundary text l.start
  contentStart_boundary : Text.Boundary text l.contentStart
  contentEnd_boundary : Text.Boundary text l.contentEnd
  start_le : l.start ≤ l.contentStart
  contentStart_le : l.contentStart ≤ l.contentEnd
  contentEnd_le : l.contentEnd ≤ stop
  text_eq : l.token.isError = false →
    Text.slice? text l.contentStart l.contentEnd = some l.token.text
  quoted : l.token.kind = .literal →
    Text.slice? text l.start l.contentStart = some "\"" ∧
      Text.slice? text l.contentEnd stop = some "\""
  bare : l.token.isError = false → l.token.kind ≠ .literal →
    l.contentStart = l.start ∧ l.contentEnd = stop

namespace Cursor

structure Stands (text : String) (c : Cursor) : Prop where
  input_eq : c.input = text
  position_le : c.position ≤ text.utf8ByteSize
  boundary : Text.Boundary text c.position

structure Moves (c : Cursor) (answer : Option Lexeme) (after : Cursor) : Prop where
  position_le : c.position ≤ after.position
  position_lt : ∀ l ∈ answer, c.position < after.position
  lies : ∀ l ∈ answer, l.Lies c.input c.position after.position
  /-- No answer and an error are the last ones. -/
  fused : (∀ l ∈ answer, l.token.isError = true) →
    ∀ n, after.calls n = some (List.replicate n none, after)

/-- One call of a cursor with `before` behind it and `rest` ahead of it: either
only blanks are left, or a token is cut from what comes after some blanks. -/
inductive Step (fields : AllowList) (before rest : List Char) : Option Lexeme × Cursor → Prop
  | ended : Token.scan fields rest = none →
      Step fields before rest (none, { between fields (before ++ rest) [] with finished := true })
  | taken {t : Token} {blanks opening content closing after : List Char} :
      Token.scan fields rest = some (t, after) → t.Within opening content closing →
      opening ++ content ++ closing ≠ [] →
      rest = blanks ++ (opening ++ content ++ closing ++ after) →
      Step fields before rest
        (some (.cut t (before ++ blanks) opening content),
          { between fields (before ++ blanks ++ opening ++ content ++ closing) after with
            finished := t.isError })

/-- The answers to a number of calls over a text, and the cursor after them. What
is ahead of the cursor holds the tokens that have not been given out. -/
inductive Reached (fields : AllowList) (text : List Char) (n : Nat) :
    List (Option Lexeme) × Cursor → Prop
  | intro {answers : List (Option Lexeme)} {before rest : List Char} {finished : Bool} :
      text = before ++ rest →
      Lexeme.tokens answers = (Lexer.mk fields text false).tokens.take n →
      (Lexer.mk fields rest finished).tokens = (Lexer.mk fields text false).tokens.drop n →
      Reached fields text n (answers, { between fields before rest with finished })

end Cursor

-- ---------------------------------------------------------------------------
-- Where a token lies
-- ---------------------------------------------------------------------------

namespace Token.Within

variable {t : Token} {opening content closing : List Char}

theorem text_eq (h : t.Within opening content closing) (herror : t.isError = false) :
    t.text = String.ofList content := by
  cases h with
  | whole _ _ htext => exact htext
  | quoted _ htext => exact htext
  | error htrue => simp [herror] at htrue

theorem quoted_of_literal (h : t.Within opening content closing) (hkind : t.kind = .literal) :
    opening = ['"'] ∧ closing = ['"'] := by
  cases h with
  | whole _ hne => exact absurd hkind hne
  | quoted => exact ⟨rfl, rfl⟩
  | error htrue => simp [isError, hkind] at htrue

theorem bare_of_ne_literal (h : t.Within opening content closing) (herror : t.isError = false)
    (hne : t.kind ≠ .literal) : opening = [] ∧ closing = [] := by
  cases h with
  | whole => exact ⟨rfl, rfl⟩
  | quoted hkind => exact absurd hkind hne
  | error htrue => simp [herror] at htrue

end Token.Within

theorem Lexeme.lies_cut {t : Token} {opening content closing : List Char}
    (before blanks rest : List Char) (hwithin : t.Within opening content closing)
    (hne : opening ++ content ++ closing ≠ []) :
    (cut t (before ++ blanks) opening content).Lies
      (String.ofList (before ++ blanks ++ opening ++ content ++ closing ++ rest))
      (Text.size before) (Text.size (before ++ blanks ++ opening ++ content ++ closing)) where
  position_le := by simp [cut, Text.size_append]
  start_lt := by
    have hpos := Text.size_pos hne
    simp only [cut, Text.size_append] at hpos ⊢
    omega
  start_boundary := Text.boundary_of_isPrefix (by simp [List.append_assoc])
  contentStart_boundary := Text.boundary_of_isPrefix (by simp [List.append_assoc])
  contentEnd_boundary := Text.boundary_of_isPrefix (by simp [List.append_assoc])
  start_le := by simp [cut, Text.size_append]
  contentStart_le := by simp [cut, Text.size_append]
  contentEnd_le := by simp [cut, Text.size_append]
  text_eq herror := by
    have hslice := Text.slice?_append (before ++ blanks ++ opening) content (closing ++ rest)
    rw [← List.append_assoc, ← hwithin.text_eq herror] at hslice
    exact hslice
  quoted hliteral := by
    obtain ⟨rfl, rfl⟩ := hwithin.quoted_of_literal hliteral
    have hopening := Text.slice?_append (before ++ blanks) ['"'] (content ++ ['"'] ++ rest)
    have hclosing := Text.slice?_append (before ++ blanks ++ ['"'] ++ content) ['"'] rest
    simp only [← List.append_assoc] at hopening
    exact ⟨hopening, hclosing⟩
  bare herror hkind := by
    obtain ⟨rfl, rfl⟩ := hwithin.bare_of_ne_literal herror hkind
    simp [cut]

-- ---------------------------------------------------------------------------
-- One call
-- ---------------------------------------------------------------------------

namespace Cursor

variable {fields : AllowList} {before rest text : List Char} {n : Nat}
  {answers : List (Option Lexeme)} {c : Cursor}

theorem step_next (fields : AllowList) (before rest : List Char) :
    ∃ r, (between fields before rest).next = some r ∧ Step fields before rest r := by
  obtain ⟨blanks, body, rfl, hblanks, hbody⟩ := Text.exists_run Text.isBlank rest
  rw [next, finished_between, skipWhile_run hblanks hbody]
  simp only [Bool.false_eq_true, if_false, Option.bind_eq_bind, Option.bind_some, position_between]
  cases body with
  | nil =>
    have hstep : Step fields before (blanks ++ []) _ :=
      .ended (Token.scan_eq_none_iff.2 (by simpa using hblanks))
    rw [bump_between_nil]
    exact ⟨_, rfl, by simpa using hstep⟩
  | cons first rest =>
    have hscan : Token.scan fields (blanks ++ first :: rest) =
        some (Token.scanFrom fields first rest) := by
      rw [Token.scan, Text.dropWhile_run hblanks hbody]
    have hread : Reads fields (before ++ blanks) (first :: rest) _ _ := reads_read _ first rest
    rw [bump_between_cons]
    simp only [Option.bind_some]
    -- What is read and what is scanned are known only through each other.
    generalize Token.scanFrom fields first rest = scanned at hread hscan
    generalize (between fields (before ++ blanks ++ [first]) rest).read first _ = r at hread ⊢
    cases hread with
    | intro hwithin hne htext =>
      rw [htext] at hscan ⊢
      exact ⟨_, rfl, .taken hscan hwithin hne rfl⟩

theorem calls_of_finished (h : c.finished = true) (n : Nat) :
    c.calls n = some (List.replicate n none, c) := by
  induction n with
  | zero => rfl
  | succ n ih =>
    rw [calls, ih]
    simp [next, h, List.replicate_succ']

theorem moves_of_finished (h : c.finished = true) : c.Moves none c :=
  ⟨Nat.le_refl _, nofun, nofun, fun _ => calls_of_finished h⟩

theorem Step.moves {answer : Option Lexeme} {after : Cursor}
    (h : Step fields before rest (answer, after)) :
    (between fields before rest).Moves answer after := by
  cases h with
  | ended =>
    exact ⟨by simp [Text.size_append], nofun, nofun, fun _ => calls_of_finished rfl⟩
  | @taken t blanks opening content closing after hscan hwithin hne hrest =>
    subst hrest
    have hlies := Lexeme.lies_cut before blanks after hwithin hne
    have hlt := Nat.lt_of_le_of_lt hlies.position_le hlies.start_lt
    refine ⟨Nat.le_of_lt hlt, fun _ _ => hlt, ?_, fun herror => calls_of_finished (herror _ rfl)⟩
    intro l hl
    cases hl
    simpa using hlies

-- ---------------------------------------------------------------------------
-- Any number of calls
-- ---------------------------------------------------------------------------

theorem reached_finished (htext : text = before ++ rest)
    (htake : Lexeme.tokens answers = (Lexer.mk fields text false).tokens.take n)
    (hdrop : (Lexer.mk fields text false).tokens.drop n = []) :
    Reached fields text (n + 1)
      (answers ++ [none], { between fields before rest with finished := true }) := by
  refine .intro htext ?_ ?_
  · rw [List.take_add, hdrop, ← htake]
    simp [Lexeme.tokens]
  · rw [← List.drop_drop, hdrop, Lexer.tokens_of_halted]
    rfl

theorem Reached.next (h : Reached fields text n (answers, c)) :
    ∃ answer after, c.next = some (answer, after) ∧ c.Moves answer after ∧
      Reached fields text (n + 1) (answers ++ [answer], after) := by
  cases h with
  | @intro _ before rest finished htext htake hdrop =>
    cases finished with
    | true =>
      -- A finished cursor stays where it is, and all tokens have been given out.
      rw [Lexer.tokens_of_halted] at hdrop
      exact ⟨none, _, rfl, moves_of_finished rfl, reached_finished htext htake hdrop.symm⟩
    | false =>
      obtain ⟨⟨answer, after⟩, hnext, hstep⟩ := step_next fields before rest
      refine ⟨answer, after, hnext, hstep.moves, ?_⟩
      cases hstep with
      | ended hscan =>
        rw [Lexer.tokens_of_scan_none hscan] at hdrop
        exact reached_finished (by simpa using htext) htake hdrop.symm
      | taken hscan _ _ hrest =>
        rw [Lexer.tokens_of_scan_some hscan] at hdrop
        refine .intro (by simp [htext, hrest]) ?_ ?_
        · rw [List.take_add, ← hdrop, ← htake]
          simp [Lexeme.tokens, Lexeme.cut]
        · rw [← List.drop_drop, ← hdrop]
          rfl

theorem reached_calls (fields : AllowList) (text : List Char) (n : Nat) :
    ∃ r, (ofString fields (String.ofList text)).calls n = some r ∧ Reached fields text n r := by
  induction n with
  | zero => exact ⟨([], between fields [] text), rfl, .intro rfl rfl rfl⟩
  | succ n ih =>
    obtain ⟨⟨answers, c⟩, hcalls, hreached⟩ := ih
    obtain ⟨answer, after, hnext, -, hafter⟩ := hreached.next
    refine ⟨(answers ++ [answer], after), ?_, hafter⟩
    rw [calls, hcalls]
    simp [hnext]

theorem Reached.stands (h : Reached fields text n (answers, c)) :
    c.Stands (String.ofList text) := by
  cases h with
  | @intro _ before rest _ htext =>
    subst htext
    have hboundary := Text.boundary_of_isPrefix (List.prefix_append before rest)
    exact ⟨rfl, hboundary.le_utf8ByteSize, hboundary⟩

theorem Reached.tokens_eq (h : Reached fields text n (answers, c)) :
    Lexeme.tokens answers = (Lexer.mk fields text false).tokens.take n := by
  cases h with
  | intro _ htake => exact htake

theorem length_tokens_le (l : Lexer) : l.tokens.length ≤ l.rest.length := by
  induction hn : l.rest.length using Nat.strongRecOn generalizing l with
  | ind n ih =>
    cases hnext : l.next? with
    | none => simp [Lexer.tokens_of_none hnext]
    | some r =>
      obtain ⟨t, after⟩ := r
      have hlt : after.rest.length < n := hn ▸ Lexer.length_next? hnext
      have hle := ih _ hlt after rfl
      rw [Lexer.tokens_of_some hnext, List.length_cons]
      omega

/-- However often a cursor over a text is called, it never asks for a slice that
is not there, and it gives out the tokens of the text with the offsets at which
they lie in it. -/
theorem calls_never_fault (fields : AllowList) (input : String) (n : Nat) :
    ∃ answers c, (ofString fields input).calls n = some (answers, c) ∧ c.Stands input ∧
      Lexeme.tokens answers = (Lexer.ofString fields input).tokens.take n ∧
      (Lexeme.tokens answers).length ≤ input.length ∧
      ∃ answer after, c.next = some (answer, after) ∧ c.Moves answer after := by
  obtain ⟨text, rfl⟩ : ∃ text, input = String.ofList text :=
    ⟨input.toList, String.ofList_toList.symm⟩
  obtain ⟨⟨answers, c⟩, hcalls, hreached⟩ := reached_calls fields text n
  obtain ⟨answer, after, hnext, hmoves, -⟩ := hreached.next
  have hlength : (Lexeme.tokens answers).length ≤ text.length := by
    rw [hreached.tokens_eq]
    exact Nat.le_trans (List.length_take_le' _ _) (length_tokens_le _)
  rw [Lexer.ofString, String.toList_ofList, String.length_ofList]
  exact ⟨answers, c, hcalls, hreached.stands, hreached.tokens_eq, hlength, answer, after, hnext,
    hmoves⟩

end Cursor

end FilterQuery
