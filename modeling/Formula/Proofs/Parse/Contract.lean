import Formula.Proofs.Parse.Limit
import Formula.Proofs.Parse.Reader

/-!
# What a rule leaves behind

Wherever a rule is called in a parse, it leaves the reader that called it in order: as many rules
are active as before, nodes were added only, and the reader stands behind balanced tokens or, if
the rule fails, where it stood. The nodes refer to smaller numbers, so that a tree is built from
each of them, whether or not the numbers are looked at on the way down.
-/

namespace Formula

/-- The numbers that a node refers to. -/
def Node.operands : Node → List NodeId
  | .literal _ | .var _ => []
  | .prefixed _ operand | .postfixed operand _ => [operand]
  | .binary _ left right => [left, right]

namespace Arena

/-- Every node refers to smaller numbers only. -/
def Descends (arena : Arena) : Prop :=
  ∀ (id : NodeId) (node : Node), arena.nodes[id]? = some node →
    ∀ operand ∈ node.operands, operand < id

/-- Builds the tree of a node, wherever the numbers in it lead. There is no tree if one of them is
not in use, and no end if they lead on more often than a given number of times. -/
def build (arena : Arena) (depth : Nat) (id : NodeId) : Option (Option Expr) :=
  match depth with
  | 0 => none
  | depth + 1 =>
    match arena.nodes[id]? with
    | none => some none
    | some (.literal value) => some (some (.literal value))
    | some (.var name) => some (some (.var name))
    | some (.prefixed op operand) => do
      let inner ← arena.build depth operand
      some (inner.map (.prefixed op))
    | some (.postfixed operand op) => do
      let inner ← arena.build depth operand
      some (inner.map (.postfixed · op))
    | some (.binary op left right) => do
      match ← arena.build depth left with
      | none => some none
      | some l =>
        let r ← arena.build depth right
        some (r.map (.binary op l))

variable {arena : Arena} {id : NodeId}

/-- If all numbers in use stand for trees, they decrease on the way down. -/
theorem Grounded.descends (h : arena.Grounded) : arena.Descends := by
  intro id node hnode operand hmem
  obtain ⟨e, he⟩ := h id (Array.getElem?_eq_some_iff.mp hnode).1
  rw [expr?, hnode] at he
  by_contra hge
  cases node with
  | literal value | var name => cases hmem
  | prefixed op inner | postfixed inner op =>
    obtain rfl := List.mem_singleton.mp hmem
    simp [hge] at he
  | binary op left right =>
    have hnot : ¬ (left < id ∧ right < id) := by
      rintro ⟨hleft, hright⟩
      rcases List.mem_pair.mp hmem with rfl | rfl
      · exact hge hleft
      · exact hge hright
    simp [hnot] at he

/-- If the numbers decrease on the way down, the tree of a node is built without a look at them, and
the way is no longer than the number says. -/
theorem Descends.build_eq (h : arena.Descends) {depth : Nat} (hdepth : id < depth) :
    arena.build depth id = some (arena.expr? id) := by
  induction depth generalizing id with
  | zero => cases hdepth
  | succ depth ih =>
    rw [build, expr?]
    cases hnode : arena.nodes[id]? with
    | none => rfl
    | some node =>
      have hoperand (operand : NodeId) (hmem : operand ∈ node.operands) :
          operand < id ∧ arena.build depth operand = some (arena.expr? operand) := by
        have hlt := h id node hnode operand hmem
        exact ⟨hlt, ih (Nat.lt_of_lt_of_le hlt (Nat.le_of_lt_succ hdepth))⟩
      cases node with
      | literal value | var name => rfl
      | prefixed op operand | postfixed operand op =>
        obtain ⟨hlt, hbuild⟩ := hoperand operand (List.mem_singleton_self _)
        simp only [hbuild, hlt, if_true]
        rfl
      | binary op left right =>
        obtain ⟨hleft, hfirst⟩ := hoperand left (List.mem_pair.mpr (.inl rfl))
        obtain ⟨hright, hsecond⟩ := hoperand right (List.mem_pair.mpr (.inr rfl))
        simp only [hfirst, hsecond, hleft, hright, and_self, dif_pos]
        cases arena.expr? left with
        | none => rfl
        | some l => cases arena.expr? right <;> rfl

end Arena

/-- The index of the first end of the input. -/
theorem Token.length_beforeEnding (tokens : List Token) :
    (beforeEnding tokens).length = (close tokens).findIdx Token.isEnding := by
  rw [← beforeEnding_close, beforeEnding, List.takeWhile_eq_take_findIdx_not, List.length_take]
  simp only [Bool.not_not]
  exact Nat.min_eq_left List.findIdx_le_length

/-- What a reader keeps is of use: the nodes that are kept exist, nodes refer to smaller numbers
only, and a tree is built from every number in use. -/
structure Reader.Consistent (reader : Reader) : Prop where
  kept : ∀ rule start kept id, reader.kept rule start = some kept → kept.verdict = .ok id →
    id < reader.arena.size
  descends : reader.arena.Descends
  builds : ∀ id < reader.arena.size, ∃ e, reader.arena.expr? id = some e ∧
    ∀ depth, id < depth → reader.arena.build depth id = some (some e)

/-- How a rule that is called leaves the reader. -/
structure Reader.Leaves (tokens : List Token) (start : Reader) (verdict : Verdict)
    (finish : Reader) : Prop where
  depth : finish.depth = start.depth
  grows : start.arena.nodes.toList <+: finish.arena.nodes.toList
  consistent : finish.Consistent
  back : ∀ error, verdict = .error error → finish.position = start.position
  forth : ∀ id, verdict = .ok id →
    start.position < finish.position ∧ finish.position ≤ tokens.findIdx Token.isEnding ∧
      Token.Balanced (tokens.extract start.position finish.position) ∧ id < finish.arena.size

namespace Parse

variable {grammar : Grammar} {whole tokens : List Token} {call : Call} {position finish : Nat}

section

variable {context : ParseContext} {state : ParseState} {made : Call} {active : List Call}

/-- An intact state is a consistent one. -/
theorem Intact.consistent (h : Intact context whole state) (position : Nat) :
    (state.readerAt position).Consistent where
  kept rule place kept id hkept hid := by
    obtain ⟨outcome, hknown, rfl⟩ := Option.map_eq_some_iff.mp hkept
    cases outcome with
    | error error => cases hid
    | ok found =>
      cases hid
      exact (h.known rule place found hknown).node
  descends := h.nodes.descends
  builds id hid := by
    obtain ⟨e, he⟩ := h.nodes id hid
    exact ⟨e, he, fun depth hdepth => he ▸ h.nodes.descends.build_eq hdepth⟩

section

variable (hall : ∀ l ∈ context.levels, l.Valid) (hending : context.ending.isEnding)

include hall hending

/-- A call within the parse leaves matches that span tokens, and its own match does too. -/
theorem Call.Within.spans (h : call.Within context whole)
    (hmemo : MemoSpans whole call.state.memo) :
    MemoSpans whole (call.result context).2.memo ∧
      ∀ found, (call.result context).1 = .ok found →
        call.position < found.finish ∧ Spans whole call.position found.finish := by
  rw [Call.result, h.tokens]
  exact spans_run hall hending h.levels h.position hmemo

/-- Whatever is kept where a call is made spans tokens. -/
theorem Nests.memoSpans (h : Nests context call active made) (hwithin : call.Within context whole)
    (hmemo : MemoSpans whole call.state.memo) : MemoSpans whole made.state.memo := by
  induction h with
  | last => exact hmemo
  | within starts room hmem _ ih =>
    have hinner := hwithin.inner hall hending
    obtain ⟨finish, hthreads, -⟩ := Call.exists_threads context starts room
    -- The body changes the memo in its calls only, and those made earlier have kept it so.
    have hcalls := hthreads.memo_of_call (MemoSpans whole) hmemo fun other hother hkept =>
      ((hinner other hother).1.spans hall hending hkept).1
    exact ih (hinner _ hmem).1 (hcalls _ hmem)

/-- A call within the parse leaves the nodes that there were in their places. -/
theorem Call.Within.nodes_prefix (h : call.Within context whole)
    (hmemo : MemoSpans whole call.state.memo) :
    call.state.arena.nodes.toList <+: (call.result context).2.arena.nodes.toList := by
  rw [Call.result, h.tokens]
  exact (traced_call hall hending h.levels h.position hmemo.forward).performs.nodes_prefix

end

end

/-- The tokens of a match are balanced in the closed token list too. -/
theorem Spans.balanced_close (h : Spans (Token.beforeEnding tokens) position finish) :
    Token.Balanced ((Token.close tokens).extract position finish) := by
  obtain ⟨behind, hclose⟩ := Token.close_eq_append tokens
  have hle := h.le
  have hbound := h.bound
  have hsame : (Token.close tokens).extract position finish =
      (Token.beforeEnding tokens).extract position finish := by
    rw [hclose, List.extract_eq_take_drop, List.extract_eq_take_drop,
      List.drop_append_of_le_length (Nat.le_trans hle hbound), List.take_append_of_le_length]
    rw [List.length_drop]
    omega
  exact hsame ▸ h.balanced

/-- A call leaves the reader in order. -/
theorem Call.Within.leaves (h : call.Within (context grammar tokens) (Token.beforeEnding tokens))
    (hmemo : MemoSpans (Token.beforeEnding tokens) call.state.memo) :
    let result := call.result (context grammar tokens)
    (call.state.readerAt call.position).Leaves (Token.close tokens) (verdict result.1)
      (result.2.readerAt (finishFrom call.position result.1)) := by
  intro result
  have hall := grammar.valid_loosestFirst
  have hending : (context grammar tokens).ending.isEnding := Token.isEnding_firstEnding _
  have hpreserves := h.preserves hall hending
  have hspans := (h.spans hall hending hmemo).2
  have hdepth : result.2.depth = call.state.depth := h.depth_result hall hending
  have hgrows := h.nodes_prefix hall hending hmemo
  cases houtcome : result.1 with
  | error error =>
    exact ⟨hdepth, hgrows, hpreserves.intact.consistent _, fun _ _ => rfl, nofun⟩
  | ok found =>
    obtain ⟨hlt, hfound⟩ := hspans found houtcome
    refine ⟨hdepth, hgrows, hpreserves.intact.consistent _, nofun, ?_⟩
    rintro _ ⟨⟩
    exact ⟨hlt, Token.length_beforeEnding tokens ▸ hfound.bound, hfound.balanced_close,
      (hpreserves.ends found houtcome).node⟩

end Parse

open Parse

/-- Wherever a rule is called in a parse, within whatever rules are active, what is kept is of use
there, and the call comes to an end, calls within calls being no deeper than there are rules for
all the tokens. The reader has the verdict and the state of the parser itself then, and is left in
order: as many rules are active as before, and the nodes are those that there were, with new ones
behind them. If the rule fails, the reader stands where it stood. If it succeeds, the reader stands
behind one more token at least, at the first end of the input at most, the tokens in between have
balanced parentheses, and the node has been made. What is kept is of use again: every node that is
kept exists, and every node refers to smaller numbers only, so that building the tree of a number
in use comes to an end and yields one. -/
theorem rule_call_contract (grammar : Grammar) (tokens : List Token) (active : List Call)
    (call : Call)
    (h : Nests (context grammar tokens) (firstCall grammar tokens {}) active call) :
    let closed := Token.close tokens
    let width := grammar.levels.length + 1
    let result := call.result (context grammar tokens)
    let start := call.state.readerAt call.position
    start.Consistent ∧ ∃ finish,
      (∀ fuel, width * closed.length ≤ fuel →
        start.call closed grammar.loosestFirst fuel call.levels =
          some (verdict result.1, finish)) ∧
      finish = result.2.readerAt finish.position ∧
      start.Leaves closed (verdict result.1) finish := by
  intro closed width result start
  obtain ⟨hwithin, -⟩ := h.within_parse
  have hmemo := h.memoSpans grammar.valid_loosestFirst (Token.isEnding_firstEnding _)
    (within_firstCall grammar tokens) (memoSpans_empty _)
  have hmirrors (fuel : Nat) (hfuel : width * closed.length ≤ fuel) :
      MirrorsCall call.position result
        (start.call closed grammar.loosestFirst fuel call.levels) := by
    have hcall := mirrors_call hwithin.levels hwithin.position hmemo
      (Nat.lt_of_lt_of_le (rulesFrom_lt_mul hwithin.levels) hfuel)
    rwa [CallsAlike, ← hwithin.tokens] at hcall
  exact ⟨hwithin.intact.consistent _, _, hmirrors, rfl, hwithin.leaves hmemo⟩

/-- A name in parentheses is read up to the closing one. Without it the rule goes back in front of
the opening one. -/
theorem rule_call_contract_parens :
    let opening : Token := ⟨.leftParen, "(", ⟨0, 1, 1⟩⟩
    let name : Token := ⟨.letter, "x", ⟨1, 1, 2⟩⟩
    let closing : Token := ⟨.rightParen, ")", ⟨2, 1, 3⟩⟩
    let error : ParseError := ⟨.expected (.closingParen 1), ⟨.ending, "", ⟨2, 1, 3⟩⟩⟩
    let loosest := Grammar.standard.loosestFirst
    let start := ({} : ParseState).readerAt 0
    (∃ finish, start.call (Token.close [opening, name, closing]) loosest 28 loosest =
        some (.ok 0, finish) ∧
      0 < finish.position ∧ finish.position ≤ 3 ∧
      Token.Balanced ((Token.close [opening, name, closing]).extract 0 finish.position) ∧
      ∃ e, finish.arena.build 1 0 = some (some e)) ∧
    ∃ finish, start.call (Token.close [opening, name]) loosest 21 loosest =
        some (.error error, finish) ∧ finish.position = 0 := by
  intro opening name closing error loosest start
  -- Nothing has been kept at the start, so that the reader can be followed step by step.
  have hstart : start = ⟨0, fun _ _ => none, [], [], {}, {}, 0, none⟩ := by
    simp [start, ParseState.readerAt, Memo.outcome?]
  have hread : (start.call (Token.close [opening, name, closing]) loosest 28 loosest).map Prod.fst =
      some (.ok 0) := by
    rw [hstart]
    decide +kernel
  have hfails : (start.call (Token.close [opening, name]) loosest 21 loosest).map Prod.fst =
      some (.error error) := by
    rw [hstart]
    decide +kernel
  obtain ⟨⟨_, behind⟩, hforward, rfl⟩ := Option.map_eq_some_iff.mp hread
  obtain ⟨⟨_, back⟩, hbackward, rfl⟩ := Option.map_eq_some_iff.mp hfails
  obtain ⟨-, finish, hends, -, hforth⟩ :=
    rule_call_contract Grammar.standard [opening, name, closing] [] _ (.last _)
  obtain ⟨-, stay, hstays, -, hunread⟩ :=
    rule_call_contract Grammar.standard [opening, name] [] _ (.last _)
  obtain ⟨hverdict, rfl⟩ :=
    Prod.mk.inj (Option.some.inj (hforward.symm.trans (hends 28 (by decide))))
  obtain ⟨hfault, rfl⟩ :=
    Prod.mk.inj (Option.some.inj (hbackward.symm.trans (hstays 21 (by decide))))
  obtain ⟨hlt, hle, hbalanced, hnode⟩ := hforth.forth 0 hverdict.symm
  obtain ⟨e, -, hbuilds⟩ := hforth.consistent.builds 0 hnode
  exact ⟨⟨behind, hforward, hlt, hle, hbalanced, e, hbuilds 1 (by decide)⟩,
    back, hbackward, hunread.back error hfault.symm⟩

end Formula
