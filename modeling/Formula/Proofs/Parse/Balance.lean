import Formula.Proofs.Parse.Allocation
import Formula.Proofs.Token.Parens

/-!
# A match takes parentheses in pairs

A closing parenthesis is read only behind a formula that was read behind an opening one. So the
parentheses among the tokens of a match are balanced, and so they stay when a match is kept and
given again, or when the nesting limit is reached on the way.
-/

namespace Formula

/-- The parentheses among tokens are balanced. -/
def Token.Balanced (tokens : List Token) : Prop :=
  ∃ word : DyckWord, tokens.filterMap (fun token => token.kind.paren?) = word.toList

namespace Token.Balanced

variable {left right tokens : List Token} {token opening closing : Token}

/-- There are no parentheses among no tokens. -/
theorem nil : Balanced [] := ⟨0, rfl⟩

/-- Balanced tokens are followed by balanced tokens. -/
theorem append (hleft : Balanced left) (hright : Balanced right) : Balanced (left ++ right) := by
  obtain ⟨first, hfirst⟩ := hleft
  obtain ⟨second, hsecond⟩ := hright
  refine ⟨first + second, ?_⟩
  rw [List.filterMap_append, hfirst, hsecond]
  rfl

/-- A token that is no parenthesis is balanced. -/
theorem singleton (h : token.isParen = false) : Balanced [token] := by
  have hnone : token.kind.paren? = none := by
    rwa [token.isParen_eq, Option.isSome_eq_false_iff, Option.isNone_iff_eq_none] at h
  refine ⟨0, ?_⟩
  simp only [List.filterMap_cons, hnone]
  rfl

/-- Balanced tokens may be put in parentheses. -/
theorem enclose (h : Balanced tokens) (hopens : opening.kind = .leftParen)
    (hcloses : closing.kind = .rightParen) : Balanced (opening :: (tokens ++ [closing])) := by
  obtain ⟨word, hword⟩ := h
  refine ⟨word.nest, ?_⟩
  simp [hopens, hcloses, hword, DyckWord.nest]

end Token.Balanced

namespace Parse

/-- The tokens between two indices have balanced parentheses, and the second index is that of the
end of the input at most. -/
structure Spans (whole : List Token) (start finish : Nat) : Prop where
  le : start ≤ finish
  bound : finish ≤ whole.length
  balanced : Token.Balanced (whole.extract start finish)

variable {context : ParseContext} {whole : List Token} {levels : List Level}
  {position middle finish : Nat} {token opening closing : Token} {task : Task} {memo : Memo}
  {start last state : ParseState} {outcome : Outcome} {rule : Rule}

/-- The tokens up to an index are followed by those from this index on. -/
theorem extract_append (h : position ≤ middle) (hfinish : middle ≤ finish) :
    whole.extract position middle ++ whole.extract middle finish =
      whole.extract position finish := by
  rw [List.extract_eq_take_drop, List.extract_eq_take_drop, List.extract_eq_take_drop,
    show finish - position = (middle - position) + (finish - middle) by omega, List.take_add,
    List.drop_drop, Nat.add_sub_of_le h]

/-- Between an index and the next one there is one token. -/
theorem extract_succ (h : whole[position]? = some token) :
    whole.extract position (position + 1) = [token] := by
  obtain ⟨hlt, rfl⟩ := List.getElem?_eq_some_iff.mp h
  rw [List.extract_eq_take_drop, Nat.add_sub_cancel_left, List.drop_eq_getElem_cons hlt,
    List.take_succ_cons, List.take_zero]

namespace Spans

/-- There are no tokens between an index and itself. -/
theorem refl (h : position ≤ whole.length) : Spans whole position position where
  le := Nat.le_refl _
  bound := h
  balanced := by
    rw [List.extract_eq_take_drop, Nat.sub_self, List.take_zero]
    exact .nil

/-- What spans tokens up to an index is followed by what spans tokens from there on. -/
theorem trans (h : Spans whole position middle) (hlast : Spans whole middle finish) :
    Spans whole position finish where
  le := Nat.le_trans h.le hlast.le
  bound := hlast.bound
  balanced := by
    rw [← extract_append h.le hlast.le]
    exact h.balanced.append hlast.balanced

/-- A token that is no parenthesis is balanced by itself. -/
theorem of_token (htoken : whole[position]? = some token) (hparen : token.isParen = false) :
    Spans whole position (position + 1) where
  le := Nat.le_succ _
  bound := (List.getElem?_eq_some_iff.mp htoken).1
  balanced := extract_succ htoken ▸ .singleton hparen

/-- An operator is balanced by itself. -/
theorem of_operator {operators : OperatorSet} (htoken : whole[position]? = some token)
    (hcontains : operators.contains token = true) : Spans whole position (position + 1) :=
  of_token htoken (OperatorSet.isParen_eq_false_of_contains hcontains)

/-- Parentheses around a formula are a pair. -/
theorem paren (hopening : whole[position]? = some opening) (hopens : opening.kind = .leftParen)
    (h : Spans whole (position + 1) finish) (hclosing : whole[finish]? = some closing)
    (hcloses : closing.kind = .rightParen) : Spans whole position (finish + 1) where
  le := Nat.le_succ_of_le (Nat.le_of_succ_le h.le)
  bound := (List.getElem?_eq_some_iff.mp hclosing).1
  balanced := by
    have hbody := h.balanced.enclose hopens hcloses
    rwa [← extract_succ hclosing, extract_append h.le (Nat.le_succ _), ← List.singleton_append,
      ← extract_succ hopening, extract_append (Nat.le_succ _) (Nat.le_succ_of_le h.le)] at hbody

end Spans

/-- Every match that is kept spans tokens, its first one at least. -/
def MemoSpans (whole : List Token) (memo : Memo) : Prop :=
  ∀ rule position found, memo.outcome? rule position = some (.ok found) →
    position < found.finish ∧ Spans whole position found.finish

/-- An empty memo keeps no match. -/
theorem memoSpans_empty (whole : List Token) : MemoSpans whole {} := by
  intro rule position found hknown
  simp [Memo.outcome?] at hknown

/-- Every match that is kept ends behind its first token. -/
theorem MemoSpans.forward (h : MemoSpans whole state.memo) : Forward state :=
  fun rule position found hknown => (h rule position found hknown).1

/-- A rule that is started knows what was known where it was called. -/
theorem MemoSpans.enter {next : Token} {entered : ParseState}
    (h : MemoSpans whole state.memo) (hentry : state.enter rule position next = .started entered) :
    MemoSpans whole entered.memo := by
  cases htooDeep : state.tooDeep with
  | some error =>
    rw [ParseState.enter_of_tooDeep htooDeep] at hentry
    cases hentry
  | none =>
    cases hknown : state.memo.outcome? rule position with
    | some outcome =>
      rw [ParseState.enter_known htooDeep hknown] at hentry
      cases hentry
    | none =>
      by_cases hdepth : state.depth < nestingLimit
      · rw [ParseState.enter_started htooDeep hknown hdepth] at hentry
        cases hentry
        exact h
      · rw [ParseState.enter_limited htooDeep hknown hdepth] at hentry
        cases hentry

/-- A match that spans tokens may be kept. -/
theorem MemoSpans.leave (h : MemoSpans whole state.memo)
    (houtcome : ∀ found, outcome = .ok found →
      position < found.finish ∧ Spans whole position found.finish) :
    MemoSpans whole (state.leave rule position outcome).memo := by
  intro other place found hknown
  rcases ParseState.outcome?_leave hknown with ⟨-, rfl, hok⟩ | hbefore
  · exact houtcome found hok
  · exact h other place found hbefore

/-- A match spans the tokens from the beginning of the task on. -/
theorem Performs.spans (h : Performs context whole task start outcome last)
    (horigin : task.origin ≤ whole.length) (hmemo : MemoSpans whole start.memo) :
    MemoSpans whole last.memo ∧
      ∀ found, outcome = .ok found → Spans whole task.origin found.finish := by
  have hsucc {position : Nat} {token : Token} (htoken : whole[position]? = some token) :
      position + 1 ≤ whole.length := (List.getElem?_eq_some_iff.mp htoken).1
  induction h with
  | stopped | failed => exact ⟨hmemo, nofun⟩
  | limited => exact ⟨hmemo, nofun⟩
  | known hnone hknown =>
    refine ⟨hmemo, ?_⟩
    rintro found rfl
    exact (hmemo _ _ _ hknown).2
  | started _ hposition _ _ hleast body ih =>
    obtain ⟨hbody, hspans⟩ := ih hposition hmemo
    exact ⟨hbody.leave fun found hfound => ⟨hleast found hfound, hspans found hfound⟩, hspans⟩
  | leaf htoken hkind =>
    refine ⟨hmemo, ?_⟩
    rintro _ ⟨⟩
    refine .of_token htoken ?_
    rcases hkind with hk | hk | hk <;> simp [Token.isParen, hk]
  | paren hopening hopens body hlt hclosing hcloses ih =>
    obtain ⟨hbody, hspans⟩ := ih (hsucc hopening) hmemo
    refine ⟨hbody, ?_⟩
    rintro _ ⟨⟩
    exact .paren hopening hopens (hspans _ rfl) hclosing hcloses
  | unclosed hopening hopens body ih => exact ⟨(ih (hsucc hopening) hmemo).1, nofun⟩
  | prefixed hfixity htoken hcontains inner hlt ih =>
    obtain ⟨hinner, hspans⟩ := ih (hsucc htoken) hmemo
    have hoperand := hspans _ rfl
    refine ⟨hinner, ?_⟩
    rintro _ ⟨⟩
    exact (Spans.of_operator htoken hcontains).trans hoperand
  | fallback hlevels hfixity htoken hcontains attempt operand ihattempt ihoperand =>
    exact ihoperand horigin (ihattempt (hsucc htoken) hmemo).1
  | passed operand ih => exact ih horigin hmemo
  | operand first hlt rest ihfirst ihrest =>
    obtain ⟨hfirst, hspans⟩ := ihfirst horigin hmemo
    have hfound := hspans _ rfl
    obtain ⟨hrest, hbehind⟩ := ihrest hfound.bound hfirst
    exact ⟨hrest, fun found hlast => hfound.trans (hbehind found hlast)⟩
  | ends =>
    refine ⟨hmemo, ?_⟩
    rintro _ ⟨⟩
    exact .refl horigin
  | postfixed hlevels hfixity htoken hcontains hop rest ih =>
    obtain ⟨hrest, hbehind⟩ := ih (hsucc htoken) hmemo
    exact ⟨hrest, fun found hlast =>
      (Spans.of_operator htoken hcontains).trans (hbehind found hlast)⟩
  | left hlevels hfixity htoken hcontains hop second hlt rest ihsecond ihrest =>
    obtain ⟨hsecond, hspans⟩ := ihsecond (hsucc htoken) hmemo
    have hright := hspans _ rfl
    obtain ⟨hrest, hbehind⟩ := ihrest hright.bound hsecond
    exact ⟨hrest, fun found hlast =>
      ((Spans.of_operator htoken hcontains).trans hright).trans (hbehind found hlast)⟩
  | right hlevels hfixity htoken hcontains hop second hlt ih =>
    obtain ⟨hsecond, hspans⟩ := ih (hsucc htoken) hmemo
    have hright := hspans _ rfl
    refine ⟨hsecond, ?_⟩
    rintro _ ⟨⟩
    exact (Spans.of_operator htoken hcontains).trans hright
  | givenBack hlevels hsuffix hfixity htoken hcontains hop second ih =>
    -- The match ends in front of the operator that was given back.
    refine ⟨(ih (hsucc htoken) hmemo).1, ?_⟩
    rintro _ ⟨⟩
    exact .refl horigin

/-- A call keeps matches that span tokens, and its own one is among them. -/
theorem spans_run (hall : ∀ l ∈ context.levels, l.Valid) (hending : context.ending.isEnding)
    (hlevels : levels <:+ context.levels) (hposition : position ≤ whole.length)
    (h : MemoSpans whole start.memo) :
    MemoSpans whole (run context levels position (whole.drop position) start).2.memo ∧
      ∀ found, (run context levels position (whole.drop position) start).1 = .ok found →
        position < found.finish ∧ Spans whole position found.finish := by
  have htraced := traced_call hall hending hlevels hposition h.forward
  obtain ⟨hmemo, hspans⟩ := htraced.performs.spans hposition h
  exact ⟨hmemo, fun found hfound => ⟨htraced.least found hfound, hspans found hfound⟩⟩

end Parse

end Formula
