import FilterQuery.Proofs.Token.Spelling

/-!
# Where scanning stops

A text that cannot be scanned to its end has a first piece that no token can be
made of. `Token.Fault` lists such pieces with what is said about them: an open
quote, a single `&` or `|`, and a word that is neither an operator nor an
allowed field.

`tokens_eq_append_error_iff`: scanning gives some tokens and then an error
exactly when the text is one that is scanned into these tokens, followed by such
a piece. What stands behind the piece does not matter, and neither does the
piece to the tokens before it, unless the last of them goes on into it
(`Token.RunsOn`).
-/

namespace FilterQuery

/-- A piece of a text that is no token, the text behind it, and the message
about it. -/
inductive Token.Fault (fields : AllowList) : List Char → List Char → String → Prop
  /-- A quote that is never closed takes in all that follows it. -/
  | unterminated {value : List Char} : '"' ∉ value →
      Fault fields ('"' :: value) [] ("unterminated literal " ++ String.ofList ('"' :: value))
  | unpairedAtEnd {c : Char} : c ∈ ['&', '|'] →
      Fault fields [c] [] ("invalid boolean expression, " ++ Text.quote (String.ofList [c]))
  | unpaired {c d : Char} {rest : List Char} : c ∈ ['&', '|'] → d ≠ c →
      Fault fields [c, d] rest
        ("invalid boolean expression, " ++ Text.quote (String.ofList [c, d]))
  /-- A word is as long as it can be. -/
  | unknownField {word : String} {rest : List Char} : isWord word.toList = true →
      Text.Stops isWordChar rest → isReserved word = false → fields.contains word = false →
      Fault fields word.toList rest (Text.quote word ++ " isn't a valid field")

/-- The last of the tokens stands at the very end of `text` and would take in
the beginning of `next`: a field or a keyword goes on with a letter, a digit or
a dot. -/
def Token.RunsOn (ts : List Token) (text next : List Char) : Prop :=
  ∃ t ∈ ts.getLast?, t.spelling <:+ text ∧ ∃ c ∈ next.head?, t.absorbs c = true

variable {fields : AllowList} {t u : Token} {ts : List Token} {c : Char} {m : String}
  {text rest body piece blanks more : List Char}

-- ---------------------------------------------------------------------------
-- One piece
-- ---------------------------------------------------------------------------

namespace Token

theorem fault_of_scanLiteral (h : scanLiteral text = (⟨.error, m⟩, rest)) :
    ∃ piece, '"' :: text = piece ++ rest ∧ Fault fields piece rest m := by
  obtain ⟨value, after, rfl, hvalue, hafter⟩ := Text.exists_run (· ≠ '"') text
  rw [scanLiteral, Text.dropWhile_run hvalue hafter, Text.takeWhile_run hvalue hafter] at h
  cases after with
  | nil =>
    rw [List.append_nil] at h ⊢
    cases h
    have hquote : '"' ∉ value := Text.not_mem_of_all hvalue (by simp)
    exact ⟨'"' :: value, (List.append_nil _).symm, .unterminated hquote⟩
  | cons q after => cases h

theorem fault_of_scanOperator (hc : c ∈ ['&', '|'])
    (h : scanOperator c text = (⟨.error, m⟩, rest)) :
    ∃ piece, c :: text = piece ++ rest ∧ Fault fields piece rest m := by
  cases text with
  | nil =>
    cases h
    exact ⟨[c], rfl, .unpairedAtEnd hc⟩
  | cons d text =>
    simp only [scanOperator] at h
    split at h
    · cases h
    · rename_i hd
      cases h
      exact ⟨[c, d], rfl, .unpaired hc hd⟩

theorem unknownField_of_ofWord {word : String} (h : ofWord fields word = ⟨.error, m⟩) :
    isReserved word = false ∧ fields.contains word = false ∧
      Text.quote word ++ " isn't a valid field" = m := by
  unfold ofWord at h
  split at h
  · cases h
  · rename_i hreserved
    split at h
    · cases h
    · rename_i hallowed
      exact ⟨by simpa using hreserved, by simpa using hallowed, congrArg Token.text h⟩

theorem fault_of_scanWord (hb : Text.isBlank c = false) (hs : isSign c = false)
    (h : scanWord fields c text = (⟨.error, m⟩, rest)) :
    ∃ piece, c :: text = piece ++ rest ∧ Fault fields piece rest m := by
  obtain ⟨tail, after, rfl, htail, hafter⟩ := Text.exists_run isWordChar text
  rw [scanWord, Text.dropWhile_run htail hafter, Text.takeWhile_run htail hafter] at h
  obtain ⟨hword, rfl⟩ := Prod.mk.inj h
  obtain ⟨hreserved, hallowed, rfl⟩ := unknownField_of_ofWord hword
  have hlist : (String.ofList (c :: tail)).toList = c :: tail := String.toList_ofList
  refine ⟨(String.ofList (c :: tail)).toList, by rw [hlist]; rfl, ?_⟩
  refine .unknownField ?_ hafter hreserved hallowed
  rw [hlist]
  exact isWord_cons.2 ⟨hb, hs, htail⟩

theorem fault_of_scanFrom (hb : Text.isBlank c = false)
    (h : scanFrom fields c text = (⟨.error, m⟩, rest)) :
    ∃ piece, c :: text = piece ++ rest ∧ Fault fields piece rest m := by
  unfold scanFrom at h
  split at h
  · cases h
  · cases h
  · exact fault_of_scanLiteral h
  iterate 2 exact fault_of_scanOperator (by simp) h
  iterate 4
    unfold scanComparator at h
    split at h <;> cases h
  · refine fault_of_scanWord hb ?_ h
    rw [Bool.eq_false_iff, Ne, isSign_iff]
    grind

theorem Fault.scanFrom_eq (h : Fault fields piece rest m) :
    ∃ c tail, piece = c :: tail ∧ Text.isBlank c = false ∧
      scanFrom fields c (tail ++ rest) = (⟨.error, m⟩, rest) := by
  cases h with
  | @unterminated value hquote =>
    refine ⟨'"', value, rfl, by decide, ?_⟩
    have hrun := Text.dropWhile_run (Text.all_ne_of_not_mem hquote) Text.stops_nil
    rw [List.append_nil] at hrun ⊢
    simp only [scanFrom, scanLiteral, hrun]
    rfl
  | @unpairedAtEnd c hc =>
    simp only [List.mem_cons, List.not_mem_nil, or_false] at hc
    refine ⟨c, [], rfl, ?_, ?_⟩
    · rcases hc with rfl | rfl <;> decide
    · rcases hc with rfl | rfl <;> rfl
  | @unpaired c d rest hc hd =>
    simp only [List.mem_cons, List.not_mem_nil, or_false] at hc
    refine ⟨c, [d], rfl, ?_, ?_⟩
    · rcases hc with rfl | rfl <;> decide
    · have hscan : scanOperator c (d :: rest) =
          (⟨.error, "invalid boolean expression, " ++ Text.quote (String.ofList [c, d])⟩, rest) :=
        if_neg hd
      rcases hc with rfl | rfl <;> exact hscan
  | @unknownField word rest hword hrest hreserved hallowed =>
    obtain ⟨c, tail, hlist⟩ : ∃ c tail, word.toList = c :: tail := by
      cases hl : word.toList with
      | nil => simp [hl, isWord] at hword
      | cons c tail => exact ⟨c, tail, rfl⟩
    refine ⟨c, tail, hlist, (isWord_cons.1 (hlist ▸ hword)).1, ?_⟩
    rw [scanFrom_word hword hrest (by rw [hlist]; rfl), ofWord, if_neg (by simp [hreserved]),
      if_neg (by simp [hallowed])]
    rfl

theorem scan_blanks_append (hb : blanks.all Text.isBlank = true) :
    scan fields (blanks ++ text) = scan fields text := by
  rw [scan, scan, List.dropWhile_append_of_pos (List.all_eq_true.1 hb)]

theorem Fault.scan_eq (h : Fault fields piece rest m) :
    scan fields (piece ++ rest) = some (⟨.error, m⟩, rest) := by
  obtain ⟨c, tail, rfl, hc, hscan⟩ := h.scanFrom_eq
  simp only [scan, List.cons_append, List.dropWhile_cons, hc]
  exact congrArg some hscan

theorem fault_of_scan (h : scan fields text = some (⟨.error, m⟩, rest)) :
    ∃ blanks piece, blanks.all Text.isBlank = true ∧ text = blanks ++ (piece ++ rest) ∧
      Fault fields piece rest m := by
  obtain ⟨blanks, body, rfl, hb, hstops⟩ := Text.exists_run Text.isBlank text
  simp only [scan, Text.dropWhile_run hb hstops] at h
  cases body with
  | nil => cases h
  | cons c body =>
    obtain ⟨piece, hbody, hfault⟩ :=
      fault_of_scanFrom (Text.stops_cons.1 hstops) (Option.some.inj h)
    exact ⟨blanks, piece, hb, by rw [hbody], hfault⟩

end Token

-- ---------------------------------------------------------------------------
-- Tokens before a piece
-- ---------------------------------------------------------------------------

theorem Lexer.tokens_blanks_append (hb : blanks.all Text.isBlank = true) :
    (Lexer.mk fields (blanks ++ text) false).tokens = (Lexer.mk fields text false).tokens := by
  have hscan : Token.scan fields (blanks ++ text) = Token.scan fields text :=
    Token.scan_blanks_append hb
  cases hs : Token.scan fields text with
  | none => rw [tokens_of_scan_none hs, tokens_of_scan_none (hscan.trans hs)]
  | some r => rw [tokens_of_scan_some hs, tokens_of_scan_some (hscan.trans hs)]

theorem Spelled.eq_nil (h : Spelled fields ts []) : ts = [] := by
  generalize htext : ([] : List Char) = text at h
  cases h with
  | nil => rfl
  | cons _ hbegins =>
    obtain ⟨c, tail, hbody, -⟩ := hbegins.exists_cons
    simp [hbody] at htext

theorem Spelled.length_spelling_le (h : Spelled fields ts text) :
    ∀ t ∈ ts, t.spelling.length ≤ text.length := by
  induction h with
  | nil => simp
  | cons _ hbegins _ ih =>
    obtain ⟨-, rfl, -⟩ := hbegins
    simp only [List.length_append]
    refine List.forall_mem_cons.2 ⟨by omega, fun t ht => ?_⟩
    have := ih t ht
    omega

theorem Token.RunsOn.cons (h : RunsOn ts rest more) : RunsOn (t :: ts) (text ++ rest) more := by
  obtain ⟨u, hu, hsuffix, hmore⟩ := h
  refine ⟨u, ?_, hsuffix.trans (List.suffix_append text rest), hmore⟩
  rw [List.getLast?_cons, Option.mem_def.1 hu]
  rfl

theorem Token.RunsOn.of_cons (h : RunsOn (t :: ts) (text ++ rest) more) (hts : ts ≠ [])
    (hrest : Spelled fields ts rest) : RunsOn ts rest more := by
  obtain ⟨u, hu, hsuffix, hmore⟩ := h
  obtain ⟨v, hv⟩ : ∃ v, ts.getLast? = some v := ⟨_, List.getLast?_eq_some_getLast hts⟩
  rw [List.getLast?_cons, hv] at hu
  cases hu
  refine ⟨v, hv, ?_, hmore⟩
  -- Of two ends of one text the shorter is an end of the longer, and the rest holds the token.
  rcases List.suffix_or_suffix_of_suffix hsuffix (List.suffix_append text rest) with h | h
  · exact h
  · have hle := hrest.length_spelling_le v (List.mem_of_getLast? hv)
    rw [h.eq_of_length (Nat.le_antisymm h.length_le hle)]
    exact List.suffix_rfl

/-- The tokens of a text do not change with what is written behind it, unless
the last of them takes it in. -/
theorem Spelled.tokens_append (h : Spelled fields ts text) (hend : ¬Token.RunsOn ts text more) :
    (Lexer.mk fields (text ++ more) false).tokens =
      ts ++ (Lexer.mk fields more false).tokens := by
  induction h with
  | nil hb => exact Lexer.tokens_blanks_append hb
  | @cons t ts blanks body rest hb hbegins hrest ih =>
    obtain ⟨hlegal, rfl, hstops⟩ := hbegins
    have hstops : Text.Stops t.absorbs (rest ++ more) := by
      cases rest with
      | cons c rest => exact Text.stops_cons.2 (Text.stops_cons.1 hstops)
      | nil =>
        -- Nothing follows the token, so it is the last one.
        cases hrest.eq_nil
        intro c hc
        refine Bool.eq_false_iff.2 fun habsorbs => hend ⟨t, rfl, ?_, c, hc, habsorbs⟩
        exact List.suffix_append_of_suffix (by simp)
    have hbegins : t.Begins fields (t.spelling ++ (rest ++ more)) (rest ++ more) :=
      ⟨hlegal, rfl, hstops⟩
    rw [← List.append_assoc] at hend
    rw [List.append_assoc, List.append_assoc,
      Lexer.tokens_of_scan_some (Token.scan_of_begins hb hbegins), hlegal.isError,
      ih (mt Token.RunsOn.cons hend)]
    rfl

theorem Token.kind_ne_literal_of_absorbs (h : t.absorbs c = true) : t.kind ≠ .literal := by
  intro hk
  simp [absorbs, hk] at h

theorem Token.Begins.not_runsOn (hbegins : t.Begins fields body (rest ++ more))
    (hrest : rest.all Text.isBlank = true) : ¬RunsOn [t] (text ++ (t.spelling ++ rest)) more := by
  rintro ⟨u, hu, ⟨init, hinit⟩, c, hc, habsorbs⟩
  obtain rfl : t = u := Option.some.inj hu
  cases hlast : rest.getLast? with
  | none =>
    rw [List.getLast?_eq_none_iff.1 hlast] at hbegins
    rw [hbegins.stops c hc] at habsorbs
    cases habsorbs
  | some b =>
    -- The token would end in the blank that the text ends in.
    have hmem : b ∈ t.spelling := by
      have hends := congrArg List.getLast? hinit
      rw [List.getLast?_append, List.getLast?_append, List.getLast?_append, hlast,
        List.getLast?_eq_some_getLast hbegins.legal.spelling_ne_nil] at hends
      simp only [Option.some_or, Option.some.injEq] at hends
      rw [← hends]
      exact List.getLast_mem _
    have hblank := List.all_eq_true.1 hrest b (List.mem_of_getLast? hlast)
    have hspelling := hbegins.legal.mem_spelling (kind_ne_literal_of_absorbs habsorbs) hmem
    rw [hspelling.1] at hblank
    cases hblank

theorem exists_fault (h : (Lexer.mk fields text false).tokens = ts ++ [⟨.error, m⟩]) :
    ∃ before piece rest, text = before ++ (piece ++ rest) ∧ Spelled fields ts before ∧
      Token.Fault fields piece rest m ∧ ¬Token.RunsOn ts before (piece ++ rest) := by
  induction ts generalizing text with
  | nil =>
    cases hs : Token.scan fields text with
    | none =>
      rw [Lexer.tokens_of_scan_none hs] at h
      cases h
    | some r =>
      obtain ⟨t, rest⟩ := r
      rw [Lexer.tokens_of_scan_some hs] at h
      obtain ⟨rfl, -⟩ := List.cons.inj h
      obtain ⟨blanks, piece, hb, rfl, hfault⟩ := Token.fault_of_scan hs
      exact ⟨blanks, piece, rest, rfl, .nil hb, hfault, by rintro ⟨u, hu, -⟩; cases hu⟩
  | cons t ts ih =>
    cases hs : Token.scan fields text with
    | none =>
      rw [Lexer.tokens_of_scan_none hs] at h
      cases h
    | some r =>
      obtain ⟨u, after⟩ := r
      rw [Lexer.tokens_of_scan_some hs] at h
      obtain ⟨rfl, htail⟩ := List.cons.inj h
      have he : u.isError = false := by
        refine Bool.eq_false_iff.2 fun he => ?_
        rw [he, Lexer.tokens_of_halted] at htail
        simp at htail
      rw [he] at htail
      obtain ⟨before, piece, rest, rfl, hspelled, hfault, hend⟩ := ih htail
      obtain ⟨blanks, body, hb, rfl, hbegins⟩ := Token.begins_of_scan hs he
      have hbody := hbegins.text_eq
      refine ⟨blanks ++ (u.spelling ++ before), piece, rest, by simp [hbody], ?_, hfault, ?_⟩
      · exact .cons hb ⟨hbegins.legal, rfl, hbegins.stops.of_append⟩ hspelled
      · cases hspelled with
        | nil hblank => exact hbegins.not_runsOn hblank
        | cons hblank hnext hmore =>
          rw [← List.append_assoc]
          exact fun hrun => hend (hrun.of_cons (by simp) (.cons hblank hnext hmore))

/-- Scanning a text gives tokens and then an error exactly when the text is
`before ++ piece ++ rest`, where `before` alone is scanned into the tokens
without an error, `piece` is no token for the reason that the message gives, and
the last token does not go on into it. -/
theorem tokens_eq_append_error_iff (fields : AllowList) (text : String) (ts : List Token)
    (m : String) :
    (Lexer.ofString fields text).tokens = ts ++ [⟨.error, m⟩] ↔
      ∃ before piece rest : String, text = before ++ piece ++ rest ∧
        (Lexer.ofString fields before).tokens = ts ∧ (∀ t ∈ ts, t.isError = false) ∧
        Token.Fault fields piece.toList rest.toList m ∧
        ¬Token.RunsOn ts before.toList (piece ++ rest).toList := by
  constructor
  · intro h
    obtain ⟨before, piece, rest, htext, hspelled, hfault, hend⟩ := exists_fault h
    refine ⟨String.ofList before, String.ofList piece, String.ofList rest, ?_, ?_, ?_, ?_, ?_⟩
    · rw [← String.ofList_append, ← String.ofList_append, List.append_assoc, ← htext,
        String.ofList_toList]
    · rw [Lexer.ofString, String.toList_ofList]
      exact hspelled.tokens_eq
    · exact fun t ht => (hspelled.legal t ht).isError
    · simpa using hfault
    · simpa using hend
  · rintro ⟨before, piece, rest, rfl, htokens, herror, hfault, hend⟩
    have hspelled := (Lexer.tokens_eq_iff herror).1 htokens
    have happend := hspelled.tokens_append hend
    rw [Lexer.ofString, String.append_assoc, String.toList_append, happend, String.toList_append,
      Lexer.tokens_of_scan_some hfault.scan_eq]
    exact congrArg (fun us => ts ++ _ :: us) Lexer.tokens_of_halted

end FilterQuery
