import FilterQuery.Proofs.Filter.Stop

/-!
# The depth of a parser that is used again

A parser keeps its count of open groups between readings, and most failures
leave it with the groups that were open. `Token.openGroups` says from the tokens
alone how many those are, and `depthLeft` what each result makes of it.

`Parser.accounted_reread`: before each of any number of readings the depth is at
most 64, while a reading goes on it is what the tokens say, and the reading is
that of a new parser that allows as much less nesting as the depth says.
-/

namespace FilterQuery

/-- How many more groups the tokens open than they close, if the first `missing`
of them belong to a predicate. Parentheses count where an item may begin; a
field or literal there takes the next two tokens with it, whatever they are. -/
def Token.openGroups : (missing : Nat) → List Token → Int
  | _, [] => 0
  | missing + 1, _ :: ts => openGroups missing ts
  | 0, t :: ts =>
    match t.kind with
    | .openGroup => openGroups 0 ts + 1
    | .closeGroup => openGroups 0 ts - 1
    | .field | .literal => openGroups 2 ts
    | .operator | .comparator | .error => openGroups 0 ts

/-- The depth that a reading leaves behind, by the depth it began with, the
tokens it pulled and its result. A group ends with its closing parenthesis, also
when that shows it to be empty, and at the end of the tokens the innermost open
group ends. -/
def depthLeft (limit start : Nat) (pulled : List Token) : Except ParseError Filter → Int
  | .ok _ | .error .unmatchedClose | .error .emptyFilter => start
  | .error .nestingTooDeep => limit
  | .error .unclosedGroup => start + Token.openGroups 0 pulled - 1
  | .error _ => start + Token.openGroups 0 pulled

def Reading.raise {σ : Type} (d : Nat) (r : Reading σ) : Reading σ :=
  { r with parser := { r.parser with depth := d + r.parser.depth } }

def Pending.missing : Pending → Nat
  | .idle => 0
  | .operand _ => 2
  | .comparison _ _ => 1

namespace Builder

open Token (openGroups)

variable {limit start d : Nat} {b b' : Builder} {t : Token} {ts us : List Token} {e : ParseError}

-- ---------------------------------------------------------------------------
-- The counter while tokens are taken
-- ---------------------------------------------------------------------------

theorem depth_pos (hd : b.depth = start + b.outer.length) (ho : b.outer ≠ []) : 0 < b.depth := by
  rw [hd]
  exact Nat.add_pos_right start (List.length_pos_iff.2 ho)

theorem Step.depth_eq (h : Step limit b t b') (hd : b.depth = start + b.outer.length) :
    b'.depth = start + b'.outer.length := by
  cases h with
  | operator | operand | comparison | predicate => exact hd
  | openGroup => exact congrArg (· + 1) hd
  | closeGroup => exact Nat.sub_eq_of_eq_add hd

theorem Step.depth_le (h : Step limit b t b') (hle : b.depth ≤ limit) : b'.depth ≤ limit := by
  cases h with
  | operator | operand | comparison | predicate => exact hle
  | openGroup _ hlt => exact hlt
  | closeGroup => exact Nat.le_trans (Nat.sub_le _ _) hle

theorem Step.openGroups_cons (h : Step limit b t b') (rest : List Token) :
    b.outer.length + openGroups b.pending.missing (t :: rest) =
      b'.outer.length + openGroups b'.pending.missing rest := by
  cases h with
  | operator hk => simp [openGroups, Pending.missing, hk]
  | openGroup hk =>
    simp only [openGroups, Pending.missing, hk, List.length_cons]
    omega
  | closeGroup hk =>
    simp only [openGroups, Pending.missing, hk, List.length_cons]
    omega
  | operand hk => rcases hk with hk | hk <;> simp [openGroups, Pending.missing, hk]
  | comparison => rfl
  | predicate => rfl

/-- The builder has taken the tokens, beginning at depth `start`, and has
counted right. -/
structure Counted (limit start : Nat) (ts : List Token) (b : Builder) : Prop where
  depth_eq : b.depth = start + b.outer.length
  depth_le : b.depth ≤ limit
  openGroups_append : ∀ rest,
    openGroups 0 (ts ++ rest) = b.outer.length + openGroups b.pending.missing rest

theorem Counted.step (h : Counted limit start ts b) (hs : Step limit b t b') :
    Counted limit start (ts ++ [t]) b' := by
  refine ⟨hs.depth_eq h.depth_eq, hs.depth_le h.depth_le, fun rest => ?_⟩
  rw [List.append_assoc, List.singleton_append, h.openGroups_append, hs.openGroups_cons]

theorem counted_nil (h : start ≤ limit) : Counted limit start [] { depth := start } :=
  ⟨rfl, h, fun _ => (Int.zero_add _).symm⟩

theorem Counted.feed (h : Counted limit start ts b) (hf : b.feed limit us = .ok b') :
    Counted limit start (ts ++ us) b' :=
  feed_induction Counted.step h hf

theorem Counted.depth_add (h : Counted limit start ts b) (rest : List Token) :
    b.depth + openGroups b.pending.missing rest = start + openGroups 0 (ts ++ rest) := by
  rw [h.openGroups_append, h.depth_eq, Int.natCast_add, Int.add_assoc]

theorem Counted.depth_eq_openGroups (h : Counted limit start ts b) :
    b.depth = start + openGroups 0 ts := by
  have hnil := h.depth_add []
  simpa [openGroups] using hnil

-- ---------------------------------------------------------------------------
-- What a reading leaves behind
-- ---------------------------------------------------------------------------

theorem Counted.depthAfter_of_refusal (h : Counted limit start ts b) (hr : Refusal limit b t e) :
    b.depthAfter e = depthLeft limit start (ts ++ [t]) (.error e) := by
  have hpulled := h.depth_add [t]
  cases hr with
  | lexical hk =>
    have hzero : openGroups b.pending.missing [t] = 0 := by
      cases b.pending <;> simp [openGroups, Pending.missing, hk]
    rw [hzero, Int.add_zero] at hpulled
    exact hpulled
  | unknownOperator hk | unexpectedToken hk =>
    simpa [depthAfter, depthLeft, openGroups, Pending.missing, hk] using hpulled
  | nestingTooDeep hk hd => exact congrArg Nat.cast (Nat.le_antisymm h.depth_le hd)
  | unmatchedClose hk => exact congrArg Nat.cast h.depth_eq
  | @emptyGroup level around outer depth _ hk =>
    -- The group is left, and its closing parenthesis is among the tokens pulled.
    have hpos : 0 < depth := depth_pos h.depth_eq (List.cons_ne_nil _ _)
    simp only [openGroups, Pending.missing, hk] at hpulled
    simp only [depthAfter, depthLeft]
    omega
  | malformedPredicate | unknownComparator =>
    simpa [depthAfter, depthLeft, openGroups, Pending.missing] using hpulled

theorem Counted.depthAfter_of_unfinished (h : Counted limit start ts b) (hu : Unfinished b e) :
    b.depthAfter e = depthLeft limit start ts (.error e) := by
  cases hu with
  | operand | comparison => exact h.depth_eq_openGroups
  | @unclosedGroup level around outer depth =>
    have hpos : 0 < depth := depth_pos h.depth_eq (List.cons_ne_nil _ _)
    have htaken : (depth : Int) = start + openGroups 0 ts := h.depth_eq_openGroups
    simp only [depthAfter, depthLeft]
    omega
  | emptyFilter => exact congrArg Nat.cast h.depth_eq

theorem Counted.depth_conclude {σ : Type} [TokenSource σ] (h : Counted limit start ts b) (s : σ) :
    (b.conclude s).parser.depth = depthLeft limit start ts (b.conclude s).result := by
  unfold conclude
  cases hf : b.finish with
  | error e => exact h.depthAfter_of_unfinished (unfinished_of_finish_eq hf)
  | ok level =>
    obtain ⟨depth, rfl, -⟩ := finish_eq_ok_iff.1 hf
    exact congrArg Nat.cast h.depth_eq

theorem depthAfter_le (b : Builder) (e : ParseError) : b.depthAfter e ≤ b.depth := by
  unfold depthAfter
  split
  · exact Nat.sub_le _ _
  · exact Nat.sub_le _ _
  · exact Nat.le_refl _

theorem depth_conclude_le {σ : Type} [TokenSource σ] (b : Builder) (s : σ) :
    (b.conclude s).parser.depth ≤ b.depth := by
  unfold conclude
  split
  · exact Nat.le_refl _
  · exact depthAfter_le b _

theorem Counted.run {σ : Type} [TokenSource σ] (s : σ) (h : Counted limit start ts b) :
    (b.run limit s).parser.depth ≤ limit ∧ ∃ pulled,
      (TokenSource.drain s).value.1 =
        pulled ++ (TokenSource.drain (b.run limit s).parser.source).value.1 ∧
      (b.run limit s).parser.depth =
        depthLeft limit start (ts ++ pulled) (b.run limit s).result := by
  induction b, s using @run_induct σ _ limit generalizing ts with
  | dry b s hs =>
    rw [run_of_none hs]
    refine ⟨Nat.le_trans (b.depth_conclude_le s) h.depth_le, [], ?_, ?_⟩
    · rw [source_conclude]
      rfl
    · rw [List.append_nil]
      exact h.depth_conclude s
  | refused b s t s' e hs hb =>
    rw [run_of_error hs hb]
    refine ⟨Nat.le_trans (b.depthAfter_le e) h.depth_le, [t], ?_, ?_⟩
    · rw [TokenSource.drain_of_some hs]
      rfl
    · exact h.depthAfter_of_refusal (refusal_of_step_eq hb)
  | taken b s t s' b' hs hb ih =>
    rw [run_of_ok hs hb]
    obtain ⟨hle, pulled, hsource, hdepth⟩ := ih (h.step (step_of_step_eq hb))
    refine ⟨hle, t :: pulled, ?_, ?_⟩
    · rw [TokenSource.drain_of_some hs, hsource]
      rfl
    · rw [List.append_cons]
      exact hdepth

-- ---------------------------------------------------------------------------
-- Counting from another depth
-- ---------------------------------------------------------------------------

def raise (d : Nat) (b : Builder) : Builder :=
  { b with depth := d + b.depth }

theorem Step.raise (h : Step limit b t b') (hd : b.depth = start + b.outer.length) :
    Step (d + limit) (b.raise d) t (b'.raise d) := by
  cases h with
  | operator hk hop => exact .operator hk hop
  | openGroup hk hlt => exact .openGroup hk (Nat.add_lt_add_left hlt d)
  | @closeGroup level around outer depth _ hk hn =>
    -- The count is positive here, so lowering it commutes with raising it.
    have hpos : 1 ≤ depth := depth_pos hd (List.cons_ne_nil _ _)
    have hclose : Step (d + limit) ⟨level, around :: outer, .idle, d + depth⟩ t
        ⟨around.push level.toFilter, outer, .idle, d + depth - 1⟩ := .closeGroup hk hn
    rw [Nat.add_sub_assoc hpos] at hclose
    exact hclose
  | operand hk => exact .operand hk
  | comparison hk => exact .comparison hk
  | predicate hp => exact .predicate hp

theorem Refusal.raise (h : Refusal limit b t e) : Refusal (d + limit) (b.raise d) t e := by
  cases h with
  | lexical hk => exact .lexical hk
  | unknownOperator hk hop => exact .unknownOperator hk hop
  | nestingTooDeep hk hd => exact .nestingTooDeep hk (Nat.add_le_add_left hd d)
  | unmatchedClose hk => exact .unmatchedClose hk
  | emptyGroup hk hc => exact .emptyGroup hk hc
  | unexpectedToken hk => exact .unexpectedToken hk
  | malformedPredicate hk hp => exact .malformedPredicate hk hp
  | unknownComparator hk hp => exact .unknownComparator hk hp

theorem depthAfter_raise (hd : b.depth = start + b.outer.length)
    (he : e = .emptyGroup ∨ e = .unclosedGroup → b.outer ≠ []) :
    (b.raise d).depthAfter e = d + b.depthAfter e := by
  unfold depthAfter
  split
  · exact Nat.add_sub_assoc (depth_pos hd (he (.inl rfl))) d
  · exact Nat.add_sub_assoc (depth_pos hd (he (.inr rfl))) d
  · rfl

theorem Refusal.outer_ne_nil (h : Refusal limit b t e) (he : e = .emptyGroup ∨ e = .unclosedGroup) :
    b.outer ≠ [] := by
  cases h with
  | emptyGroup => exact List.cons_ne_nil _ _
  | _ => simp at he

theorem Unfinished.outer_ne_nil (h : Unfinished b e) (he : e = .emptyGroup ∨ e = .unclosedGroup) :
    b.outer ≠ [] := by
  cases h with
  | unclosedGroup => exact List.cons_ne_nil _ _
  | _ => simp at he

theorem finish_raise (b : Builder) (d : Nat) : (b.raise d).finish = b.finish := by
  unfold finish
  rfl

theorem conclude_raise {σ : Type} [TokenSource σ] (s : σ) (hd : b.depth = start + b.outer.length) :
    (b.raise d).conclude s = (b.conclude s).raise d := by
  unfold conclude
  rw [finish_raise]
  cases hf : b.finish with
  | ok level => rfl
  | error e =>
    simp only [depthAfter_raise hd (unfinished_of_finish_eq hf).outer_ne_nil]
    rfl

/-- Only the room that is left decides what is read, not the depth itself. -/
theorem run_raise {σ : Type} [TokenSource σ] (s : σ) (hd : b.depth = start + b.outer.length) :
    (b.raise d).run (d + limit) s = (b.run limit s).raise d := by
  induction b, s using @run_induct σ _ limit with
  | dry b s hs => rw [run_of_none hs, run_of_none hs, conclude_raise s hd]
  | refused b s t s' e hs hb =>
    have hr := refusal_of_step_eq hb
    rw [run_of_error hs hb, run_of_error hs hr.raise.step_eq, depthAfter_raise hd hr.outer_ne_nil]
    rfl
  | taken b s t s' b' hs hb ih =>
    have hstep := step_of_step_eq hb
    rw [run_of_ok hs hb, run_of_ok hs (hstep.raise hd).step_eq, ih (hstep.depth_eq hd)]
    rfl

end Builder

-- ---------------------------------------------------------------------------
-- Readings of one parser
-- ---------------------------------------------------------------------------

variable {σ : Type} [TokenSource σ]

def Parser.tokens (p : Parser σ) : List Token :=
  (TokenSource.drain p.source).value.1

def Parser.reread (p : Parser σ) : Nat → Parser σ
  | 0 => p
  | n + 1 => p.read.parser.reread n

structure Parser.Accounted (p : Parser σ) : Prop where
  depth_le : p.depth ≤ maxDepth
  /-- While tokens are taken the depth counts the groups they have opened and
  not closed, so it is positive wherever a group is left. -/
  during : ∀ us b, us <+: p.tokens → Builder.feed maxDepth { depth := p.depth } us = .ok b →
    b.depth ≤ maxDepth ∧ b.depth = p.depth + Token.openGroups 0 us ∧ (b.outer ≠ [] → 0 < b.depth)
  after : ∃ pulled, p.tokens = pulled ++ p.read.parser.tokens ∧
    p.read.parser.depth = depthLeft maxDepth p.depth pulled p.read.result
  /-- The reading is that of a new parser that allows less nesting. -/
  fresh : p.read = (Builder.run (maxDepth - p.depth) {} p.source).raise p.depth

theorem Parser.accounted_of_le {p : Parser σ} (h : p.depth ≤ maxDepth) : p.Accounted where
  depth_le := h
  during us b _ hf := by
    have hcounted : Builder.Counted maxDepth p.depth us b := (Builder.counted_nil h).feed hf
    exact ⟨hcounted.depth_le, hcounted.depth_eq_openGroups, Builder.depth_pos hcounted.depth_eq⟩
  after := ((Builder.counted_nil h).run p.source).2
  fresh := by
    have hzero : ({} : Builder).depth = 0 + ({} : Builder).outer.length := rfl
    have hraise : Builder.run (p.depth + (maxDepth - p.depth)) (Builder.raise p.depth {}) p.source =
        (Builder.run (maxDepth - p.depth) {} p.source).raise p.depth :=
      Builder.run_raise p.source hzero
    rw [Nat.add_sub_cancel' h] at hraise
    exact hraise

theorem Parser.depth_reread_le {p : Parser σ} (h : p.depth ≤ maxDepth) (n : Nat) :
    (p.reread n).depth ≤ maxDepth := by
  induction n generalizing p with
  | zero => exact h
  | succ n ih => exact ih ((Builder.counted_nil h).run p.source).1

theorem Parser.readMany_eq_map (p : Parser σ) (n : Nat) :
    p.readMany n = (List.range n).map fun i => (p.reread i).read := by
  induction n generalizing p with
  | zero => rfl
  | succ n ih =>
    rw [Parser.readMany, ih, List.range_succ_eq_map, List.map_cons, List.map_map]
    rfl

/-- A parser that is used `n` times on one source keeps account of its depth
with every reading. -/
theorem Parser.accounted_reread (s : σ) (n : Nat) :
    (Parser.mk s 0).readMany n = (List.range n).map (fun i => ((Parser.mk s 0).reread i).read) ∧
      ∀ i, ((Parser.mk s 0).reread i).Accounted :=
  ⟨Parser.readMany_eq_map _ n,
    fun i => Parser.accounted_of_le (Parser.depth_reread_le (Nat.zero_le _) i)⟩

end FilterQuery
