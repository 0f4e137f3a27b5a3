import Formula.Proofs.Parse.Work
import Mathlib.Data.Finset.Card
import Mathlib.Data.Finset.Prod

/-!
# Looking rules up

A rule is looked up at a token in vain before it is run, and its outcome is known
afterwards. Since a call only reaches later tokens, and tighter levels at its own one,
no rule is run twice at one token, and none is called there while it is active. How many
calls there are follows from the rules that are run and the nodes that are made: each body
makes two calls, and one more for each infix operator that is applied.
-/

namespace Formula

namespace Rule

/-- How many levels a rule has. -/
def rank : Rule → Nat
  | primary => 0
  | level index => index + 1

/-- The rule of some levels has as many levels. -/
@[simp] theorem rank_ofLevels (levels : List Level) : (ofLevels levels).rank = levels.length := by
  cases levels <;> rfl

/-- A rule can be told from the number of its levels. -/
theorem rank_injective : Function.Injective rank := by
  intro first second h
  cases first <;> cases second <;> simp_all [rank]

end Rule

namespace Memo

variable {memo : Memo} {rule : Rule} {position : Nat} {outcome : Outcome} {key : Rule × Nat}

/-- Whether the outcome of a rule at a token is known. -/
def Knows (memo : Memo) (key : Rule × Nat) : Prop := (memo.outcome? key.1 key.2).isSome

/-- How many times an outcome was looked up. -/
def lookups (memo : Memo) : Nat := memo.found.length + memo.missed.length

/-- An outcome that was not known is one more entry. -/
theorem size_insert (h : memo.outcome? rule position = none) :
    (memo.insert rule position outcome).entries.size = memo.entries.size + 1 := by
  have hnot : (rule, position) ∉ memo.entries := by
    rw [Std.HashMap.mem_iff_isSome_getElem?]
    simp [show memo.entries[(rule, position)]? = none from h]
  rw [insert, Std.HashMap.size_insert, if_neg hnot]

/-- What was just kept is known. -/
theorem knows_insert : (memo.insert rule position outcome).Knows (rule, position) := by
  simp [Knows, outcome?_insert]

/-- What was known stays known. -/
theorem Knows.insert (h : memo.Knows key) : (memo.insert rule position outcome).Knows key := by
  unfold Knows at h ⊢
  rw [outcome?_insert]
  split
  · rfl
  · exact h

/-- All that the first memo knows is known to the last one, which knows besides only
what is in reach. -/
structure Keeps (reach : Rule × Nat → Prop) (first last : Memo) : Prop where
  stays : ∀ rule position outcome, first.outcome? rule position = some outcome →
    last.outcome? rule position = some outcome
  reached : ∀ rule position outcome, last.outcome? rule position = some outcome →
    first.outcome? rule position = some outcome ∨ reach (rule, position)

namespace Keeps

variable {reach wider : Rule × Nat → Prop} {first middle last : Memo}

/-- A memo keeps what another one with the same outcomes knows. -/
theorem of_same (h : ∀ rule position, last.outcome? rule position = first.outcome? rule position) :
    Keeps reach first last where
  stays _ _ _ hknown := by rw [h, hknown]
  reached _ _ _ hknown := .inl (by rw [← h, hknown])

/-- A look-up that is noted changes nothing that is known. -/
theorem noteMiss : Keeps reach memo (memo.noteMiss rule position) := of_same fun _ _ => rfl

/-- The reach may be wider. -/
theorem mono (h : Keeps reach first last) (hwider : ∀ key, reach key → wider key) :
    Keeps wider first last where
  stays := h.stays
  reached _ _ _ hknown := (h.reached _ _ _ hknown).imp_right (hwider _)

/-- What is kept twice is kept. -/
theorem trans (h : Keeps reach first middle) (hlast : Keeps reach middle last) :
    Keeps reach first last where
  stays _ _ _ hknown := hlast.stays _ _ _ (h.stays _ _ _ hknown)
  reached _ _ _ hknown := (hlast.reached _ _ _ hknown).elim (h.reached _ _ _) .inr

/-- What was known is known in the end. -/
theorem knows (h : Keeps reach first last) (hknown : first.Knows key) : last.Knows key := by
  obtain ⟨outcome, houtcome⟩ := Option.isSome_iff_exists.mp hknown
  simp [Knows, h.stays _ _ _ houtcome]

/-- What is out of reach is not known afterwards if it was not before. -/
theorem unknown (h : Keeps reach first last) (hunknown : first.outcome? rule position = none)
    (hreach : ¬ reach (rule, position)) : last.outcome? rule position = none := by
  cases hknown : last.outcome? rule position with
  | none => rfl
  | some outcome =>
    rcases h.reached _ _ _ hknown with hbefore | hinside
    · rw [hunknown] at hbefore
      cases hbefore
    · exact absurd hinside hreach

/-- An outcome within reach may be kept for a rule that was not known. -/
theorem insert (h : Keeps reach first last) (hunknown : first.outcome? rule position = none)
    (hreach : reach (rule, position)) :
    Keeps reach first (last.insert rule position outcome) where
  stays other start outcome' hknown := by
    rw [outcome?_insert, if_neg, h.stays _ _ _ hknown]
    rintro ⟨rfl, rfl⟩
    rw [hunknown] at hknown
    cases hknown
  reached other start outcome' hknown := by
    rw [outcome?_insert] at hknown
    split at hknown
    · rename_i hsame
      obtain ⟨rfl, rfl⟩ := hsame
      exact .inr hreach
    · exact h.reached _ _ _ hknown

end Keeps

end Memo

namespace Parse

variable {context : ParseContext} {whole : List Token} {levels tighter : List Level}
  {level : Level} {position : Nat} {task : Task} {start middle finish : ParseState}
  {outcome : Outcome} {found : Match} {error : ParseError} {key : Rule × Nat}

/-- The rules and tokens at which a task may run rules. -/
def Task.Reaches : Task → Rule × Nat → Prop
  | .call levels position, key =>
    position < key.2 ∨ key.2 = position ∧ key.1.rank ≤ levels.length
  | .body levels position, key =>
    position < key.2 ∨ key.2 = position ∧ key.1.rank < levels.length
  | .onward _ _ operand, key => operand.finish < key.2

/-- A call reaches what the body of its rule reaches. -/
theorem Task.Reaches.of_body (h : (Task.body levels position).Reaches key) :
    (Task.call levels position).Reaches key :=
  h.imp_right fun ⟨hposition, hrank⟩ => ⟨hposition, Nat.le_of_lt hrank⟩

/-- A body reaches what the tighter levels reach at its token. -/
theorem Task.Reaches.of_tighter (h : (Task.call tighter position).Reaches key) :
    (Task.body (level :: tighter) position).Reaches key :=
  h.imp_right fun ⟨hposition, hrank⟩ => ⟨hposition, Nat.lt_succ_of_le hrank⟩

/-- A call at the next token reaches later tokens only. -/
theorem Task.Reaches.of_next (h : (Task.call levels (position + 1)).Reaches key) :
    position < key.2 := by
  rcases h with h | ⟨h, -⟩ <;> omega

/-- A body reaches all that lies behind its token. -/
theorem Task.Reaches.body_of_next {other : List Level}
    (h : (Task.call levels (position + 1)).Reaches key) : (Task.body other position).Reaches key :=
  .inl h.of_next

/-- What goes on behind an operand reaches all that lies behind the next token. -/
theorem Task.Reaches.onward_of_next
    (h : (Task.call levels (found.finish + 1)).Reaches key) :
    (Task.onward level tighter found).Reaches key :=
  h.of_next

/-- A body reaches what goes on behind its first token. -/
theorem Task.Reaches.of_onward (h : (Task.onward level tighter found).Reaches key)
    (hlt : position < found.finish) : (Task.body levels position).Reaches key :=
  .inl (Nat.lt_trans hlt h)

/-- What goes on behind an operand reaches what goes on behind a later one. -/
theorem Task.Reaches.of_later {later : Match} (h : (Task.onward level tighter later).Reaches key)
    (hlt : found.finish < later.finish) : (Task.onward level tighter found).Reaches key :=
  Nat.lt_trans hlt h

/-- A call reaches its own rule. -/
theorem Task.reaches_self : (Task.call levels position).Reaches (.ofLevels levels, position) :=
  .inr ⟨rfl, by simp⟩

/-- The body of a rule does not reach the rule again. -/
theorem Task.not_reaches_body :
    ¬ (Task.body levels position).Reaches (.ofLevels levels, position) := by
  rintro (h | ⟨-, h⟩)
  · exact Nat.lt_irrefl _ h
  · simp at h

/-- Known outcomes are kept, and others become known in reach only. -/
theorem Performs.keeps (h : Performs context whole task start outcome finish) :
    Memo.Keeps task.Reaches start.memo finish.memo := by
  induction h with
  | stopped | known | limited | failed | leaf | ends => exact .of_same fun _ _ => rfl
  | started _ _ _ hunknown _ _ ih =>
    refine Memo.Keeps.insert ?_ hunknown Task.reaches_self
    exact Memo.Keeps.noteMiss.trans (ih.mono fun _ => Task.Reaches.of_body)
  | paren _ _ _ _ _ _ ih | unclosed _ _ _ ih | prefixed _ _ _ _ _ ih =>
    exact ih.mono fun _ => Task.Reaches.body_of_next
  | fallback _ _ _ _ _ _ ihattempt ihoperand =>
    exact (ihattempt.mono fun _ => Task.Reaches.body_of_next).trans
      (ihoperand.mono fun _ => Task.Reaches.of_tighter)
  | passed _ ih => exact ih.mono fun _ => Task.Reaches.of_tighter
  | operand _ hlt _ ihfirst ihrest =>
    exact (ihfirst.mono fun _ => Task.Reaches.of_tighter).trans
      (ihrest.mono fun _ hreach => hreach.of_onward hlt)
  | postfixed _ _ _ _ _ _ ih => exact ih.mono fun _ hreach => hreach.of_later (Nat.lt_succ_self _)
  | left _ _ _ _ _ _ hlt _ ihsecond ihrest =>
    exact (ihsecond.mono fun _ => Task.Reaches.onward_of_next).trans
      (ihrest.mono fun _ hreach => hreach.of_later (Nat.lt_of_succ_lt hlt))
  | right _ _ _ _ _ _ _ ih | givenBack _ _ _ _ _ _ _ ih =>
    exact ih.mono fun _ => Task.Reaches.onward_of_next

/-- A relation between states that every single change of the state obeys, and that
carries over from one to the next. -/
structure Accumulates (context : ParseContext) (whole : List Token)
    (relates : ParseState → ParseState → Prop) : Prop where
  refl : ∀ state, relates state state
  trans : ∀ first middle last, relates first middle → relates middle last → relates first last
  log : ∀ (state : ParseState) (log : FailureLog), relates state { state with failures := log }
  node : ∀ (state : ParseState) (node : Node),
    relates state { state with arena := state.arena.add node }
  hit : ∀ (state : ParseState) (rule : Rule) (position : Nat), state.tooDeep = none →
    relates state { state with memo := state.memo.noteHit rule position }
  limit : ∀ (state : ParseState) (levels : List Level) (position : Nat) (error : ParseError),
    levels <:+ context.levels → position ≤ whole.length → state.tooDeep = none →
    relates state { state with
      memo := state.memo.noteMiss (.ofLevels levels) position, tooDeep := some error }
  rule : ∀ (start finish : ParseState) (levels : List Level) (position depth : Nat)
    (outcome : Outcome), levels <:+ context.levels → position ≤ whole.length →
    start.tooDeep = none → finish.memo.outcome? (.ofLevels levels) position = none →
    relates { start with
      memo := start.memo.noteMiss (.ofLevels levels) position, depth := depth } finish →
    relates start (finish.leave (.ofLevels levels) position outcome)

/-- While its body runs, the outcome of a rule is not known. -/
theorem Performs.unknown_of_body
    (h : Performs context whole (.body levels position) start outcome finish)
    (hunknown : start.memo.outcome? (.ofLevels levels) position = none) :
    finish.memo.outcome? (.ofLevels levels) position = none :=
  h.keeps.unknown hunknown Task.not_reaches_body

/-- A run relates the states that it goes from and to if every single change does. -/
theorem Performs.relates {relates : ParseState → ParseState → Prop}
    (hrelates : Accumulates context whole relates)
    (h : Performs context whole task start outcome finish) : relates start finish := by
  induction h with
  | stopped | ends => exact hrelates.refl _
  | known hnone => exact hrelates.hit _ _ _ hnone
  | limited hlevels hposition hnone => exact hrelates.limit _ _ _ _ hlevels hposition hnone
  | started hlevels hposition hnone hunknown _ body ih =>
    exact hrelates.rule _ _ _ _ _ _ hlevels hposition hnone (body.unknown_of_body hunknown) ih
  | failed => exact hrelates.log _ _
  | leaf => exact hrelates.node _ _
  | paren _ _ _ _ _ _ ih | passed _ ih | givenBack _ _ _ _ _ _ _ ih => exact ih
  | unclosed _ _ _ ih => exact hrelates.trans _ _ _ ih (hrelates.log _ _)
  | prefixed _ _ _ _ _ ih | right _ _ _ _ _ _ _ ih =>
    exact hrelates.trans _ _ _ ih (hrelates.node _ _)
  | fallback _ _ _ _ _ _ ihfirst ihsecond | operand _ _ _ ihfirst ihsecond =>
    exact hrelates.trans _ _ _ ihfirst ihsecond
  | postfixed _ _ _ _ _ _ ih => exact hrelates.trans _ _ _ (hrelates.node _ _) ih
  | left _ _ _ _ _ _ _ _ ihsecond ihrest =>
    exact hrelates.trans _ _ _ ihsecond (hrelates.trans _ _ _ (hrelates.node _ _) ihrest)

/-- Once the limit was reached the memo stays as it is. -/
theorem Performs.eq_of_tooDeep (h : Performs context whole task start outcome finish)
    (hsome : start.tooDeep = some error) :
    finish.memo = start.memo ∧ finish.tooDeep = some error := by
  have hrelates : Accumulates context whole fun first last =>
      ∀ error, first.tooDeep = some error → last.memo = first.memo ∧ last.tooDeep = some error := by
    constructor
    · exact fun _ _ hsome => ⟨rfl, hsome⟩
    · intro first middle last hfirst hlast error hsome
      obtain ⟨hmemo, hmiddle⟩ := hfirst error hsome
      obtain ⟨hagain, hend⟩ := hlast error hmiddle
      exact ⟨hagain.trans hmemo, hend⟩
    · exact fun _ _ _ hsome => ⟨rfl, hsome⟩
    · exact fun _ _ _ hsome => ⟨rfl, hsome⟩
    · intro state rule position hnone error hsome
      rw [hnone] at hsome
      cases hsome
    · intro state levels position failure _ _ hnone error hsome
      rw [hnone] at hsome
      cases hsome
    · intro start finish levels position depth outcome _ _ hnone _ _ error hsome
      rw [hnone] at hsome
      cases hsome
  exact h.relates hrelates error hsome

/-- A run that ends without having reached the limit began so. -/
theorem Performs.tooDeep_start (h : Performs context whole task start outcome finish)
    (hnone : finish.tooDeep = none) : start.tooDeep = none := by
  cases hsome : start.tooDeep with
  | none => rfl
  | some error =>
    rw [(h.eq_of_tooDeep hsome).2] at hnone
    cases hnone

/-- Nodes are added behind those that there are. -/
theorem Performs.nodes_prefix (h : Performs context whole task start outcome finish) :
    start.arena.nodes.toList <+: finish.arena.nodes.toList := by
  have hrelates : Accumulates context whole fun first last =>
      first.arena.nodes.toList <+: last.arena.nodes.toList := by
    constructor
    · exact fun _ => List.prefix_rfl
    · exact fun _ _ _ => List.IsPrefix.trans
    · exact fun _ _ => List.prefix_rfl
    · intro state node
      exact ⟨[node], by simp [Arena.add]⟩
    · exact fun _ _ _ _ => List.prefix_rfl
    · exact fun _ _ _ _ _ _ _ => List.prefix_rfl
    · exact fun _ _ _ _ _ _ _ _ _ _ h => h
  exact h.relates hrelates

/-- No node is removed. -/
theorem Performs.size_le (h : Performs context whole task start outcome finish) :
    start.arena.size ≤ finish.arena.size :=
  h.nodes_prefix.length_le

/-- One if the limit was reached. -/
def stops (state : ParseState) : Nat := if state.tooDeep.isSome then 1 else 0

/-- Every look-up in vain is answered by an entry, but for the one that reached the limit. -/
theorem Performs.entries (h : Performs context whole task start outcome finish) :
    finish.memo.missed.length + (start.memo.entries.size + stops start) =
      start.memo.missed.length + (finish.memo.entries.size + stops finish) := by
  have hrelates : Accumulates context whole fun first last =>
      last.memo.missed.length + (first.memo.entries.size + stops first) =
        first.memo.missed.length + (last.memo.entries.size + stops last) := by
    constructor
    · exact fun _ => rfl
    · intro first middle last hfirst hlast
      omega
    · exact fun _ _ => rfl
    · exact fun _ _ => rfl
    · exact fun _ _ _ _ => rfl
    · intro state levels position error _ _ hnone
      simp only [stops, hnone, Memo.noteMiss, List.length_cons]
      simp
      omega
    · intro start finish levels position depth outcome _ _ hnone hunknown hbody
      have hbody : finish.memo.missed.length + (start.memo.entries.size + stops start) =
          start.memo.missed.length + 1 + (finish.memo.entries.size + stops finish) := hbody
      have hsize : (finish.leave (.ofLevels levels) position outcome).memo.entries.size =
          finish.memo.entries.size + 1 := Memo.size_insert hunknown
      have hstops : stops (finish.leave (.ofLevels levels) position outcome) = stops finish := rfl
      have hmissed : (finish.leave (.ofLevels levels) position outcome).memo.missed =
          finish.memo.missed := rfl
      rw [hsize, hstops, hmissed]
      omega
  exact h.relates hrelates

/-- The rules of a grammar at the tokens and at the end. -/
def InTable (context : ParseContext) (whole : List Token) (key : Rule × Nat) : Prop :=
  key.1.rank ≤ context.levels.length ∧ key.2 ≤ whole.length

/-- Only rules of the grammar are looked up, at the tokens or at the end. -/
theorem Performs.inTable (h : Performs context whole task start outcome finish)
    (hstart : ∀ key ∈ start.memo.missed, InTable context whole key) :
    ∀ key ∈ finish.memo.missed, InTable context whole key := by
  have hself {levels : List Level} {position : Nat} (hlevels : levels <:+ context.levels)
      (hposition : position ≤ whole.length) :
      InTable context whole (.ofLevels levels, position) :=
    ⟨by simpa using hlevels.length_le, hposition⟩
  have hrelates : Accumulates context whole fun first last =>
      (∀ key ∈ first.memo.missed, InTable context whole key) →
        ∀ key ∈ last.memo.missed, InTable context whole key := by
    constructor
    · exact fun _ h => h
    · exact fun _ _ _ hfirst hlast h => hlast (hfirst h)
    · exact fun _ _ h => h
    · exact fun _ _ h => h
    · exact fun _ _ _ _ h => h
    · intro state levels position error hlevels hposition _ h
      exact List.forall_mem_cons.mpr ⟨hself hlevels hposition, h⟩
    · intro start finish levels position depth outcome hlevels hposition _ _ hbody h
      exact hbody (List.forall_mem_cons.mpr ⟨hself hlevels hposition, h⟩)
  exact h.relates hrelates hstart

/-- There are as many places in the table as rules and places for each of them. -/
theorem length_le_of_inTable {keys : List (Rule × Nat)} (hnodup : keys.Nodup)
    (hkeys : ∀ key ∈ keys, InTable context whole key) :
    keys.length ≤ (context.levels.length + 1) * (whole.length + 1) := by
  let place : Rule × Nat → Nat × Nat := Prod.map Rule.rank id
  have hplaces : (keys.map place).Nodup :=
    hnodup.map (Rule.rank_injective.prodMap Function.injective_id)
  have hsubset : (keys.map place).toFinset ⊆
      Finset.range (context.levels.length + 1) ×ˢ Finset.range (whole.length + 1) := by
    intro pair hpair
    obtain ⟨key, hkey, rfl⟩ := List.mem_map.mp (List.mem_toFinset.mp hpair)
    obtain ⟨hrank, hposition⟩ := hkeys key hkey
    simp only [Finset.mem_product, Finset.mem_range, place, Prod.map_fst, Prod.map_snd, id_eq]
    omega
  have hcard := Finset.card_le_card hsubset
  rwa [List.toFinset_card_of_nodup hplaces, List.length_map, Finset.card_product,
    Finset.card_range, Finset.card_range] at hcard

/-- What was looked up in vain within reach is known. -/
def Settled (reach : Rule × Nat → Prop) (state : ParseState) : Prop :=
  state.tooDeep = none → ∀ key ∈ state.memo.missed, reach key → state.memo.Knows key

/-- What is settled within a reach is settled within a narrower one. -/
theorem Settled.mono {reach wider : Rule × Nat → Prop} (h : Settled wider start)
    (hwider : ∀ key, reach key → wider key) : Settled reach start :=
  fun hnone key hmem hreach => h hnone key hmem (hwider key hreach)

/-- Nothing is looked up in vain a second time, and what was is known in the end, unless
the limit was reached. -/
structure Once (first last : Memo) (limit : Option ParseError) : Prop where
  nodup : first.missed.Nodup → last.missed.Nodup
  known : limit = none → ∀ key ∈ last.missed, key ∈ first.missed ∨ last.Knows key

/-- Where nothing is looked up in vain, nothing is so a second time. -/
theorem Once.of_missed_eq {first last : Memo} {limit : Option ParseError}
    (h : last.missed = first.missed) : Once first last limit where
  nodup hnodup := by rwa [h]
  known _ key hmem := .inl (by rwa [← h])

/-- If nothing is looked up in vain twice before a task and in it, nothing is in both. -/
theorem Performs.once_after {first : Memo}
    (h : Performs context whole task middle outcome finish)
    (hfirst : Once first middle.memo middle.tooDeep)
    (hlast : Once middle.memo finish.memo finish.tooDeep) :
    Once first finish.memo finish.tooDeep where
  nodup hnodup := hlast.nodup (hfirst.nodup hnodup)
  known := by
    intro hnone key hmem
    rcases hlast.known hnone key hmem with hmiddle | hknown
    · exact (hfirst.known (h.tooDeep_start hnone) key hmiddle).imp_right h.keeps.knows
    · exact .inr hknown

/-- What was settled before a task is settled behind it. -/
theorem Performs.settled {reach : Rule × Nat → Prop}
    (h : Performs context whole task start outcome middle)
    (honce : Once start.memo middle.memo middle.tooDeep) (hsettled : Settled reach start) :
    Settled reach middle := by
  intro hnone key hmem hreach
  rcases honce.known hnone key hmem with hstart | hknown
  · exact h.keeps.knows (hsettled (h.tooDeep_start hnone) key hstart hreach)
  · exact hknown

/-- A rule that is not known was not looked up in vain before. -/
theorem Settled.not_mem (hsettled : Settled (Task.call levels position).Reaches start)
    (hnone : start.tooDeep = none)
    (hunknown : start.memo.outcome? (.ofLevels levels) position = none) :
    (Rule.ofLevels levels, position) ∉ start.memo.missed := by
  intro hmem
  have hknown := hsettled hnone _ hmem Task.reaches_self
  simp [Memo.Knows, hunknown] at hknown

/-- No rule is run twice at a token, or called there while it is active. -/
theorem Performs.once (h : Performs context whole task start outcome finish)
    (hsettled : Settled task.Reaches start) :
    Once start.memo finish.memo finish.tooDeep := by
  induction h with
  | stopped | known | failed | leaf | ends => exact .of_missed_eq rfl
  | limited _ _ hnone hunknown =>
    exact ⟨fun hnodup => .cons (hsettled.not_mem hnone hunknown) hnodup, nofun⟩
  | @started levels position depth start finish outcome _ _ hnone hunknown _ body ih =>
    have hentered : Once (start.memo.noteMiss (.ofLevels levels) position) finish.memo
        finish.tooDeep := by
      refine ih fun _ key hmem hreach => ?_
      -- The rule itself is out of reach of its body.
      rcases List.mem_cons.mp hmem with rfl | hmem
      · exact absurd hreach Task.not_reaches_body
      · exact hsettled hnone key hmem hreach.of_body
    constructor
    · intro hnodup
      exact hentered.nodup (.cons (hsettled.not_mem hnone hunknown) hnodup)
    · intro hend key hmem
      rcases hentered.known hend key hmem with hbefore | hknown
      · rcases List.mem_cons.mp hbefore with rfl | hbefore
        · exact .inr Memo.knows_insert
        · exact .inl hbefore
      · exact .inr hknown.insert
  | paren _ _ _ _ _ _ ih | unclosed _ _ _ ih | prefixed _ _ _ _ _ ih =>
    exact ih (hsettled.mono fun _ => Task.Reaches.body_of_next)
  | fallback _ _ _ _ attempt operand ihattempt ihoperand =>
    have hfirst := ihattempt (hsettled.mono fun _ => Task.Reaches.body_of_next)
    have hlast := ihoperand ((attempt.settled hfirst hsettled).mono fun _ =>
      Task.Reaches.of_tighter)
    exact operand.once_after hfirst hlast
  | passed _ ih => exact ih (hsettled.mono fun _ => Task.Reaches.of_tighter)
  | operand first hlt rest ihfirst ihrest =>
    have hfirst := ihfirst (hsettled.mono fun _ => Task.Reaches.of_tighter)
    have hlast := ihrest ((first.settled hfirst hsettled).mono fun _ hreach =>
      hreach.of_onward hlt)
    exact rest.once_after hfirst hlast
  | postfixed _ _ _ _ _ _ ih =>
    exact ih (hsettled.mono fun _ hreach => hreach.of_later (Nat.lt_succ_self _))
  | left _ _ _ _ _ second hlt rest ihsecond ihrest =>
    have hfirst := ihsecond (hsettled.mono fun _ => Task.Reaches.onward_of_next)
    have hlast := ihrest ((second.settled hfirst hsettled).mono fun _ hreach =>
      hreach.of_later (Nat.lt_of_succ_lt hlt))
    exact rest.once_after hfirst hlast
  | right _ _ _ _ _ _ _ ih | givenBack _ _ _ _ _ _ _ ih =>
    exact ih (hsettled.mono fun _ => Task.Reaches.onward_of_next)

/-- How many calls a task makes besides those that are paid for by rules that are run
and by nodes that are made. -/
def Task.allowance : Task → Nat
  | .call _ _ => 1
  | .body _ _ => 2
  | .onward _ _ _ => 1

/-- Each rule that is run pays for two calls, and each node for one. -/
theorem Performs.lookups_le (h : Performs context whole task start outcome finish) :
    finish.memo.lookups + 2 * start.memo.missed.length + start.arena.size ≤
      start.memo.lookups + task.allowance + 2 * finish.memo.missed.length + finish.arena.size := by
  induction h with
  | stopped | known | limited | failed | leaf | ends =>
    simp only [Task.allowance, Memo.lookups, Memo.noteHit, Memo.noteMiss, List.length_cons,
      Arena.size_add]
    omega
  | started _ _ _ _ _ _ ih =>
    simp only [Task.allowance, Memo.lookups, Memo.noteMiss, List.length_cons, ParseState.leave,
      Memo.insert] at ih ⊢
    omega
  -- In the other cases the bounds of the parts add up.
  | _ =>
    simp only [Task.allowance, Arena.size_add] at *
    omega

end Parse

end Formula
