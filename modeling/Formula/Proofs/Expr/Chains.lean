import Formula.Proofs.Expr.RoundTrip
import Formula.Proofs.Parse.Layout
import Formula.Proofs.Parse.Room
import Formula.Proofs.Token.Munch
import Formula.Proofs.Token.Parens

/-!
# Chains of formulas in parentheses

Formulas that are parsed can be put into parentheses and chained by operators of one level.
Their tokens are found again, since no lexeme goes on over a closing parenthesis. They stand
in other places, and something else stands behind them, but they are read as before and with
as many rules active. The loop of the level adds no rules, so that a chain of any length has
room if each of its segments has.
-/

namespace Formula

namespace Scan

variable {kind : TokenKind} {lexeme text rest : List Char} {place : Location}
  {found : List Token}

/-- The one lexeme with a closing parenthesis in it is the parenthesis. -/
theorem Form.eq_paren (h : Form kind lexeme) (hmem : ')' ∈ lexeme) : lexeme = [')'] := by
  cases hkind : kind.paren? with
  | none => exact absurd (h.paren?_of_mem hkind hmem) (by decide)
  | some step =>
    obtain ⟨c, rfl, -⟩ := h.eq_singleton_of_paren? hkind
    rw [List.mem_singleton.mp hmem]

/-- A lexeme that is the longest one remains so where a closing parenthesis follows the
text. -/
theorem Longest.closed (h : Longest kind lexeme rest) (behind : List Char) :
    Longest kind lexeme (rest ++ ')' :: behind) where
  form := h.form
  longest {other longer} hform hprefix := by
    rw [← List.append_assoc] at hprefix
    rcases List.prefix_or_prefix_of_prefix hprefix (List.prefix_append _ _) with
      hle | ⟨more, rfl⟩
    · exact h.longest hform hle
    · cases more with
      | nil => exact h.longest hform (by rw [List.append_nil])
      | cons c more =>
        -- It goes on over the parenthesis, so it is nothing else.
        obtain ⟨rfl, -⟩ := List.cons_prefix_cons.mp ((List.prefix_append_right_inj _).mp hprefix)
        have hparen := hform.eq_paren (List.mem_append_right _ List.mem_cons_self)
        have hne := List.length_pos_iff.mpr h.form.ne_nil
        rw [hparen]
        exact hne

/-- A text is cut in the same way where a closing parenthesis follows it. -/
theorem Munches.closed (h : Munches [] place text found) (behind : List Char) :
    Munches (')' :: behind) place text found := by
  induction h with
  | done => exact .done
  | blank hblank _ ih => exact .blank hblank ih
  | token hlongest hrange _ ih =>
    rw [List.append_nil] at hlongest
    exact .token (hlongest.closed behind) hrange ih

/-- What longest match takes is cut off wherever the text stands. -/
theorem Munches.reads (h : Munches rest place text found) :
    Reads text (found.map Token.piece) rest := by
  induction h with
  | done => exact reads_nil
  | blank hblank _ ih => exact (reads_blank hblank).append ih
  | token hlongest hrange _ ih =>
    have hread := reads_lexeme (lexeme?_eq_some_iff.mpr ⟨rfl, hlongest⟩)
      fun first place => hlongest.form.rangeError?_eq_none_iff.mpr hrange
    exact hread.append ih

/-- A formula that has tokens is cut into them where a closing parenthesis follows it. -/
theorem exists_reads_closed {source : String} {tokens : List Token}
    (h : tokenize source = .ok tokens) : ∃ found place, tokens = found ++ [⟨.ending, "", place⟩] ∧
      ∀ behind, Reads source.toList (found.map Token.piece) (')' :: behind) := by
  obtain ⟨found, hmunches⟩ | ⟨front, c, rest, found, cause, htext, hmunches, hrefused⟩ :=
    munches_or_refused .start source.toList
  · have htokens := hmunches.tokens
    rw [List.append_nil, Scan.tokens] at htokens
    rw [tokenize, htokens] at h
    exact ⟨found, _, (Except.ok.inj h).symm, fun behind => (hmunches.closed behind).reads⟩
  · rw [tokenize, htext, hmunches.tokens, hrefused.tokens] at h
    cases h

end Scan

namespace Parse

variable {grammar : Grammar} {first second tokens : List Token} {e : Expr}

/-- What is parsed from tokens is parsed from all tokens with the same pieces. -/
theorem parseTokens_ok_congr (h : first.map Token.piece = second.map Token.piece)
    (hfirst : parseTokens grammar first = .ok e) : parseTokens grammar second = .ok e := by
  rcases parseTokens_of_pieces grammar h with ⟨found, hsame, hsecond⟩ | ⟨_, _, _, herror, -⟩
  · rw [hfirst] at hsame
    rwa [Except.ok.inj hsame]
  · rw [hfirst] at herror
    cases herror

/-- The limit stops both of two parses of tokens with the same kinds and texts, or none. -/
theorem nestsTooDeep_congr (h : first.map Token.piece = second.map Token.piece)
    (hfirst : NestsTooDeep grammar first) : NestsTooDeep grammar second := by
  obtain ⟨found, hdeep⟩ := hfirst
  rcases parseTokens_of_pieces grammar h with
    ⟨e, hok, -⟩ | ⟨_, error, other, herror, hother, -, -, hsame⟩
  · rw [hdeep] at hok
    cases hok
  · obtain ⟨cause, place⟩ := other
    rw [hdeep] at herror
    cases herror
    cases cause with
    | tooDeep => exact ⟨place, hother⟩
    | expected what => simp [ParseError.unplaced, ParseError.moved] at hsame

namespace Plain

/-- What all levels read from the tokens in front of the end is what is read, with as many
rules active. -/
theorem Attains.readAll {front : List Token} {height : Nat}
    (h : Attains (context grammar tokens) grammar.loosestFirst front e height)
    (hbefore : Token.beforeEnding tokens = front) :
    (∃ finish, (readAll grammar tokens).outcome = .ok (e, finish)) ∧
      (readAll grammar tokens).height = height := by
  subst hbefore
  obtain ⟨hread, hheight⟩ := h.read closed_nil 0
  rw [List.append_nil] at hread hheight
  rw [readAll_of_read hread]
  exact ⟨⟨_, hread⟩, hheight⟩

/-- A parenthesis is no prefix operator, so that each looser level passes on what it begins. -/
theorem Attains.outward {context : ParseContext} {levels : List Level} {opening : Token}
    {height : Nat} (h : Attains context levels (opening :: tokens) e height)
    (opens : opening.kind = .leftParen) (looser : List Level) :
    Attains context (looser ++ levels) (opening :: tokens) e (height + looser.length) := by
  induction looser with
  | nil => exact h
  | cons level looser ih =>
    refine attains_passed (List.cons_ne_nil _ _) (fun _ token htoken => ?_) ih
    cases htoken
    exact OperatorSet.contains_eq_false_of_isParen (by simp [Token.isParen, opens])

end Plain

/-- Where a formula is parsed, and not nested too deeply in parentheses, there is room in
the parentheses for the rules of all levels around them. -/
theorem exists_attains_paren {opening closing ending : Token} (hseparated : grammar.Separated)
    (opens : opening.kind = .leftParen) (closes : closing.kind = .rightParen)
    (ends : ending.isEnding = true) (hinner : ∀ token ∈ tokens, token.isEnding = false)
    (hparsed : parseTokens grammar (tokens ++ [ending]) = .ok e)
    (hshallow : ¬ NestsTooDeep grammar (opening :: (tokens ++ [closing]) ++ [ending])) :
    ∃ height, height + grammar.loosestFirst.length ≤ nestingLimit ∧
      ∀ context : ParseContext, context.levels = grammar.loosestFirst →
        Plain.Attains context [] (opening :: (tokens ++ [closing])) e height := by
  obtain ⟨derivation⟩ := derives_of_parseTokens hparsed
  rw [Token.beforeEnding_concat hinner ends] at derivation
  obtain ⟨height, -, hattains⟩ :=
    Plain.exists_attains derivation hseparated.orderly hseparated.orderly
  have hparen : ∀ context : ParseContext, context.levels = grammar.loosestFirst →
      Plain.Attains context [] (opening :: (tokens ++ [closing])) e (height + 1) := by
    intro context hcontext
    refine Plain.attains_paren opens closes ?_
    rw [hcontext]
    exact hattains context hcontext
  refine ⟨height + 1, ?_, hparen⟩
  have hall := (hparen (context grammar (opening :: (tokens ++ [closing]) ++ [ending]))
    rfl).outward opens grammar.loosestFirst
  rw [List.append_nil] at hall
  have hnone : ∀ token ∈ opening :: (tokens ++ [closing]), token.isEnding = false := by
    intro token hmem
    simp only [List.mem_cons, List.mem_append, List.not_mem_nil, or_false] at hmem
    rcases hmem with rfl | hmem | rfl
    · simp [Token.isEnding, opens]
    · exact hinner token hmem
    · simp [Token.isEnding, closes]
  have hheight := (hall.readAll (Token.beforeEnding_concat hnone ends)).2
  rw [nestsTooDeep_iff hseparated, hheight] at hshallow
  omega

end Parse

open Scan Parse Parse.Plain

/-- In front of any text the usual grammar cuts this one into the pieces. Wherever their
tokens stand, these levels read them as the tree, with room for the rules of the looser
levels. -/
structure Seated (levels : List Level) (text : List Char) (pieces : List (TokenKind × String))
    (e : Expr) : Prop where
  opens : pieces.head? = some (.leftParen, "(")
  reads : ∀ rest, Reads text pieces rest
  attains : ∀ tokens : List Token, tokens.map Token.piece = pieces → ∃ height,
    height + Grammar.standard.loosestFirst.length ≤ nestingLimit + levels.length ∧
      ∀ context : ParseContext, context.levels = Grammar.standard.loosestFirst →
        Attains context levels tokens e height

namespace Seated

variable {level : Level} {levels tighter : List Level} {text behind : List Char}
  {pieces more : List (TokenKind × String)} {e l r : Expr}

/-- What begins with a parenthesis is passed on by looser levels. -/
theorem outward (h : Seated levels text pieces e) (looser : List Level) :
    Seated (looser ++ levels) text pieces e where
  opens := h.opens
  reads := h.reads
  attains tokens htokens := by
    obtain ⟨height, hroom, hattains⟩ := h.attains tokens htokens
    obtain ⟨others, hpieces⟩ := List.head?_eq_some_iff.mp h.opens
    rw [hpieces] at htokens
    obtain ⟨opening, behind, rfl, hopening, -⟩ := List.map_eq_cons_iff.mp htokens
    refine ⟨height + looser.length, ?_, fun context hcontext =>
      (hattains context hcontext).outward (Prod.mk.inj hopening).1 looser⟩
    rw [List.length_append]
    omega

/-- A level that groups to the left goes on with an operator and a second operand. -/
theorem left {op : BinaryOp} (horder : Orderly (level :: tighter))
    (hfixity : level.fixity = .infixOp .left) (hmem : op.operator ∈ level.operators.list)
    (first : Seated (level :: tighter) text pieces l) (second : Seated tighter behind more r) :
    Seated (level :: tighter) (text ++ (op.operator.symbol.toList ++ behind))
      (pieces ++ ([(.operator, op.operator.symbol)] ++ more)) (.binary op l r) where
  opens := by
    rw [List.head?_append, first.opens]
    rfl
  reads rest := (first.reads _).append ((reads_operator op.operator _).append (second.reads rest))
  attains tokens htokens := by
    obtain ⟨before, others, rfl, hbefore, hothers⟩ := List.map_eq_append_iff.mp htokens
    obtain ⟨token, behind, rfl, htoken, hbehind⟩ := List.map_eq_cons_iff.mp hothers
    obtain ⟨height, hroom, hfirst⟩ := first.attains before hbefore
    obtain ⟨other, hother, hsecond⟩ := second.attains behind hbehind
    have hop := Token.operator?_of_piece htoken
    refine ⟨max height (other + 1), ?_, fun context hcontext => attains_left horder hfixity
      ((OperatorSet.contains_iff hop).mpr hmem) (Token.spells_binary hop)
      (hfirst context hcontext) (hsecond context hcontext)⟩
    rw [List.length_cons] at *
    omega

/-- The level of the factorial goes on with another one. -/
theorem factorial (horder : Orderly (level :: tighter)) (hfixity : level.fixity = .postfixOp)
    (hmem : .bang ∈ level.operators.list) (h : Seated (level :: tighter) text pieces e) :
    Seated (level :: tighter) (text ++ Operator.bang.symbol.toList)
      (pieces ++ [(.operator, Operator.bang.symbol)]) (.postfixed e .factorial) where
  opens := by
    rw [List.head?_append, h.opens]
    rfl
  reads rest := (h.reads _).append (reads_operator .bang rest)
  attains tokens htokens := by
    obtain ⟨before, last, rfl, hbefore, hlast⟩ := List.map_eq_append_iff.mp htokens
    obtain ⟨token, rfl, htoken⟩ := List.map_eq_singleton_iff.mp hlast
    obtain ⟨height, hroom, hattains⟩ := h.attains before hbefore
    have hop := Token.operator?_of_piece htoken
    have spells : token.Spells (.postfixed .factorial) := by
      rw [Token.Spells, hop]
      rfl
    exact ⟨height, hroom, fun context hcontext => attains_postfixed horder hfixity
      ((OperatorSet.contains_iff hop).mpr hmem) spells (hattains context hcontext)⟩

/-- What all levels of the usual grammar read with room is parsed. -/
theorem parse {source : String} (h : Seated Grammar.standard.loosestFirst source.toList pieces e) :
    parse source = .ok e := by
  obtain ⟨tokens, place, hpieces, htokens⟩ := tokenize_of_reads (h.reads [])
  obtain ⟨height, hroom, hattains⟩ := h.attains tokens hpieces
  have hattained := hattains (Parse.context .standard (tokens ++ [⟨.ending, "", place⟩])) rfl
  obtain ⟨⟨finish, hread⟩, hheight⟩ := hattained.readAll (beforeEnding_of_tokenize htokens)
  have hparsed : parseTokens .standard (tokens ++ [⟨.ending, "", place⟩]) = .ok e := by
    rcases parseTokens_cases .standard (tokens ++ [⟨.ending, "", place⟩]) with
      ⟨-, -, -, hsame⟩ | ⟨-, hlimit⟩
    · rw [hsame, Plain.parseTokens, hread]
    · omega
  exact (parseWith_eq_ok_iff htokens).mpr hparsed

end Seated

/-- A formula that is parsed. In parentheses it is not nested too deeply. -/
structure Segment where
  source : String
  tree : Expr
  parsed : parse source = .ok tree
  shallow : ¬ ∃ found, parse ("(" ++ source ++ ")") = .error (.parse ⟨.tooDeep, found⟩)

namespace Segment

variable (segment : Segment)

/-- The formula in parentheses. -/
def enclosed : String := "(" ++ segment.source ++ ")"

/-- A segment in parentheses is a primary, and there is room for all levels around it. -/
theorem exists_seated_primary :
    ∃ pieces, Seated [] segment.enclosed.toList pieces segment.tree := by
  obtain ⟨scanned, hscanned, hparsed⟩ := exists_tokens_of_parseWith segment.parsed
  obtain ⟨found, place, rfl, hclosed⟩ := exists_reads_closed hscanned
  have hfound : ∀ token ∈ found, token.isEnding = false := by
    intro token hmem
    rw [← beforeEnding_of_tokenize hscanned] at hmem
    simpa using List.mem_takeWhile_imp hmem
  have hreads : ∀ rest, Reads segment.enclosed.toList
      ((.leftParen, "(") :: (found.map Token.piece ++ [(.rightParen, ")")])) rest :=
    fun rest => reads_paren (hclosed rest)
  -- The tokens of the segment itself show that there is room for those with the same pieces.
  obtain ⟨own, ending, hown, hscannedAll⟩ := tokenize_of_reads (hreads [])
  refine ⟨_, rfl, hreads, fun tokens htokens => ?_⟩
  obtain ⟨opening, behind, rfl, hopening, hbehind⟩ := List.map_eq_cons_iff.mp htokens
  obtain ⟨inner, last, rfl, hinner, hlast⟩ := List.map_eq_append_iff.mp hbehind
  obtain ⟨closing, rfl, hclosing⟩ := List.map_eq_singleton_iff.mp hlast
  have hlexemes : ∀ token ∈ inner, token.isEnding = false := by
    intro token hmem
    obtain ⟨other, hother, hsame⟩ := List.mem_map.mp (hinner ▸ List.mem_map_of_mem hmem)
    have hkind : other.kind = token.kind := congrArg Prod.fst hsame
    simpa [Token.isEnding, hkind] using hfound other hother
  refine exists_attains_paren Grammar.standard_separated (congrArg Prod.fst hopening)
    (congrArg Prod.fst hclosing) (rfl : Token.isEnding ⟨.ending, "", place⟩ = true) hlexemes ?_ ?_
  · refine parseTokens_ok_congr ?_ hparsed
    rw [List.map_append, List.map_append, hinner]
  · intro hdeep
    have hsame : List.map Token.piece (opening :: (inner ++ [closing]) ++ [⟨.ending, "", place⟩]) =
        List.map Token.piece (own ++ [⟨.ending, "", ending⟩]) := by
      rw [List.map_append, List.map_append, htokens, hown]
      rfl
    obtain ⟨stop, hstop⟩ := nestsTooDeep_congr hsame hdeep
    exact segment.shallow ⟨stop, (parseWith_eq_error_iff hscannedAll).mpr hstop⟩

/-- A segment in parentheses is an operand of any levels. -/
theorem exists_seated (levels : List Level) :
    ∃ pieces, Seated levels segment.enclosed.toList pieces segment.tree := by
  obtain ⟨pieces, hseated⟩ := segment.exists_seated_primary
  have houtward := hseated.outward levels
  rw [List.append_nil] at houtward
  exact ⟨pieces, houtward⟩

end Segment

/-- Segments in parentheses with operators between them. -/
def chainText (first : Segment) (links : List (BinaryOp × Segment)) : String :=
  links.foldl (fun text link => text ++ link.1.symbol ++ link.2.enclosed) first.enclosed

/-- The trees of the segments, folded from the left. -/
def chainTree (first : Segment) (links : List (BinaryOp × Segment)) : Expr :=
  links.foldl (fun tree link => .binary link.1 tree link.2.tree) first.tree

/-- A level that groups to the left reads a chain of any length, since each link leaves as
much room as there was. -/
theorem exists_seated_chain {level : Level} {tighter : List Level}
    (horder : Orderly (level :: tighter)) (hfixity : level.fixity = .infixOp .left)
    (first : Segment) (links : List (BinaryOp × Segment))
    (hops : ∀ link ∈ links, link.1.operator ∈ level.operators.list) :
    ∃ pieces, Seated (level :: tighter) (chainText first links).toList pieces
      (chainTree first links) := by
  induction links using List.reverseRecOn with
  | nil => exact first.exists_seated (level :: tighter)
  | append_singleton links link ih =>
    obtain ⟨front, hfront⟩ := ih fun other hother => hops other (List.mem_append_left _ hother)
    obtain ⟨pieces, hlast⟩ := link.2.exists_seated tighter
    have hmem := hops link (List.mem_append_right _ List.mem_cons_self)
    have htext : (chainText first (links ++ [link])).toList = (chainText first links).toList ++
        (link.1.operator.symbol.toList ++ link.2.enclosed.toList) := by
      simp [chainText, BinaryOp.symbol_eq]
    have htree : chainTree first (links ++ [link]) =
        .binary link.1 (chainTree first links) link.2.tree := by
      simp [chainTree]
    rw [htext, htree]
    exact ⟨_, hfront.left horder hfixity hmem hlast⟩

/-- The level of the factorial reads any number of them behind a segment. -/
theorem exists_seated_factorials {level : Level} {tighter : List Level}
    (horder : Orderly (level :: tighter)) (hfixity : level.fixity = .postfixOp)
    (hmem : .bang ∈ level.operators.list) (first : Segment) (count : Nat) :
    ∃ pieces, Seated (level :: tighter)
      (first.enclosed ++ String.ofList (List.replicate count '!')).toList pieces
      ((Expr.postfixed · .factorial)^[count] first.tree) := by
  induction count with
  | zero => simpa using first.exists_seated (level :: tighter)
  | succ count ih =>
    obtain ⟨pieces, hseated⟩ := ih
    have htext : (first.enclosed ++ String.ofList (List.replicate (count + 1) '!')).toList =
        (first.enclosed ++ String.ofList (List.replicate count '!')).toList ++
          Operator.bang.symbol.toList := by
      rw [List.replicate_succ']
      simp [Operator.symbol, Operator.char]
    rw [htext, Function.iterate_succ_apply']
    exact ⟨_, hseated.factorial horder hfixity hmem⟩

/-- Formulas that are parsed, and not nested too deeply in parentheses, are chained in
parentheses, as many as there are. With sums and differences between them, or with products
and quotients, the chain is parsed as their trees folded from the left. Any number of
factorials behind one of them is parsed as so many nodes around its tree. The nesting limit
stops none of these. -/
theorem parse_chain (first : Segment) (links : List (BinaryOp × Segment))
    (hops : (∀ link ∈ links, link.1 = .add ∨ link.1 = .sub) ∨
      ∀ link ∈ links, link.1 = .mul ∨ link.1 = .div) :
    parse (chainText first links) = .ok (chainTree first links) ∧
      ∀ count, parse (first.enclosed ++ String.ofList (List.replicate count '!')) =
        .ok ((Expr.postfixed · .factorial)^[count] first.tree) := by
  have horder : Orderly usualLevels := Grammar.standard_separated.orderly
  have hsuffix : ∀ count, Orderly (usualLevels.drop count) := fun count =>
    horder.of_suffix (List.drop_suffix count usualLevels)
  constructor
  · rcases hops with hsums | hproducts
    · obtain ⟨pieces, hseated⟩ := exists_seated_chain (hsuffix 0) rfl first links
        fun link hlink => by
          rcases hsums link hlink with hop | hop <;> rw [hop] <;> decide
      exact hseated.parse
    · obtain ⟨pieces, hseated⟩ := exists_seated_chain (hsuffix 1) rfl first links
        fun link hlink => by
          rcases hproducts link hlink with hop | hop <;> rw [hop] <;> decide
      exact (hseated.outward (usualLevels.take 1)).parse
  · intro count
    obtain ⟨pieces, hseated⟩ := exists_seated_factorials (hsuffix 4) rfl (by decide) first count
    exact (hseated.outward (usualLevels.take 4)).parse

/-- Three segments with differences between them, and two factorials behind the first. -/
theorem parse_chain_differences :
    parse "(x!)-(-y)-(1 + z)" = .ok (.binary .sub (.binary .sub (.postfixed (.var 'x') .factorial)
      (.prefixed .minus (.var 'y'))) (.binary .add (.literal (.integer 1)) (.var 'z'))) ∧
    parse "(x!)!!" = .ok (.postfixed (.postfixed (.postfixed (.var 'x') .factorial)
      .factorial) .factorial) := by
  have hshallow {source : String} {e : Expr}
      (h : Parse.Plain.parseWith? .standard source = some (.ok e)) :
      ¬ ∃ found, parse source = .error (.parse ⟨.tooDeep, found⟩) := by
    rintro ⟨found, hdeep⟩
    cases (Parse.parseWith_eq_of_plain h).symm.trans hdeep
  let first : Segment := ⟨"x!", .postfixed (.var 'x') .factorial,
    Parse.parseWith_eq_of_plain (by decide +kernel),
    hshallow (e := .postfixed (.var 'x') .factorial) (by decide +kernel)⟩
  let second : Segment := ⟨"-y", .prefixed .minus (.var 'y'),
    Parse.parseWith_eq_of_plain (by decide +kernel),
    hshallow (e := .prefixed .minus (.var 'y')) (by decide +kernel)⟩
  let third : Segment := ⟨"1 + z", .binary .add (.literal (.integer 1)) (.var 'z'),
    Parse.parseWith_eq_of_plain (by decide +kernel),
    hshallow (e := .binary .add (.literal (.integer 1)) (.var 'z')) (by decide +kernel)⟩
  obtain ⟨hchain, hfactorials⟩ := parse_chain first [(.sub, second), (.sub, third)] (by simp)
  exact ⟨hchain, hfactorials 2⟩

end Formula
