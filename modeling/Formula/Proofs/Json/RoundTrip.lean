import Formula.Proofs.Json.Strings
import Formula.Proofs.Json.Values
import Formula.Proofs.Nested.Inverse
import Mathlib.Logic.Function.Iterate

/-!
# JSON texts read back

Where a value has to stand, the text of nested sequences takes the machine that reads JSON
behind these sequences, unless more of them are open at once than the machine allows; then
the text is malformed. So the JSON text of a tree is read back as the tree, up to a depth that
is known.
-/

namespace Formula

namespace Nested

mutual

/-- How many sequences are open at once. -/
def nesting : Nested → Nat
  | number _ => 0
  | symbol _ => 0
  | sequence items => 1 + itemNesting items

/-- How many sequences are open at once in one of the items. -/
def itemNesting : List Nested → Nat
  | [] => 0
  | item :: items => max item.nesting (itemNesting items)

end

mutual

/-- The numbers in nested sequences. -/
def numbers : Nested → List Literal
  | number value => [value]
  | symbol _ => []
  | sequence items => itemNumbers items

/-- The numbers in the items. -/
def itemNumbers : List Nested → List Literal
  | [] => []
  | item :: items => item.numbers ++ itemNumbers items

end

end Nested

namespace Json

/-- The text of nested sequences begins an item, if those of its numbers are numbers. -/
theorem exists_write (n : Nested)
    (hnumbers : ∀ value ∈ n.numbers, BeginsNumber value (writeNumber value).toList) :
    ∃ c text, (write n).toList = c :: text ∧ BeginsItem c := by
  cases n with
  | number value =>
    obtain ⟨c, text, htext, hc, -⟩ := hnumbers value (by simp [Nested.numbers])
    exact ⟨c, text, by rw [write, htext], hc⟩
  | symbol text => exact ⟨'"', _, by rw [write, quote_toList], by decide, by decide⟩
  | sequence items =>
    exact ⟨'[', (writeItems items).toList ++ [']'], by simp [write], by decide, by decide⟩

/-- The items of a sequence begin with the first one. -/
theorem writeItems_cons (item : Nested) (items : List Nested) :
    ∃ text, (writeItems (item :: items)).toList = (write item).toList ++ text := by
  cases items with
  | nil => exact ⟨[], by simp [writeItems]⟩
  | cons next items => exact ⟨',' :: (writeItems (next :: items)).toList, by simp [writeItems]⟩

/-- A bracket opens a sequence unless too many are open. -/
theorem machine_open (frames : List Frame) (text : List Char) :
    machine frames .value ('[' :: text) =
      if frames.length < nestingLimit then machine (.list (some []) :: frames) .firstItem text
      else .error .malformed := by
  rw [machine_cons (finished?_value frames) (by decide)]
  have hstart : valueStart '[' text = .openList text := rfl
  by_cases hroom : frames.length < nestingLimit
  · simp only [step, startValue, hstart, push, if_pos hroom]
  · simp only [step, startValue, hstart, push, if_neg hroom]

/-- A bracket closes a sequence without items. -/
theorem machine_empty (frame : Frame) (frames : List Frame) (text : List Char) :
    machine (frame :: frames) .firstItem (']' :: text) =
      machine frames (.behind (some (.sequence []))) text := by
  rw [machine_cons (finished?_firstItem _) (by decide)]
  rfl

/-- A comma keeps an item and has the next one read. -/
theorem machine_comma (kept : List Nested) (item : Nested) (frames : List Frame)
    (text : List Char) :
    machine (.list (some kept) :: frames) (.behind (some item)) (',' :: text) =
      machine (.list (some (item :: kept)) :: frames) .value text := by
  rw [machine_cons rfl (by decide)]
  rfl

/-- A bracket closes a sequence with its last item. -/
theorem machine_close (kept : List Nested) (item : Nested) (frames : List Frame)
    (text : List Char) :
    machine (.list (some kept) :: frames) (.behind (some item)) (']' :: text) =
      machine frames (.behind (some (.sequence (kept.reverse ++ [item])))) text := by
  rw [machine_cons rfl (by decide)]
  simp [step, continueWith, closeList, addItem]

mutual

/-- The text of nested sequences takes the machine behind them, or it is malformed where too
many of them are open. -/
theorem machine_write (n : Nested) (frames : List Frame) (behind : List Char)
    (hnumbers : ∀ value ∈ n.numbers, BeginsNumber value (writeNumber value).toList)
    (hframes : frames.length ≤ nestingLimit) (hends : EndsNumber behind) :
    machine frames .value ((write n).toList ++ behind) =
      if frames.length + n.nesting ≤ nestingLimit then machine frames (.behind (some n)) behind
      else .error .malformed := by
  match n with
  | .number value =>
    obtain ⟨c, text, htext, hc, hstart⟩ := hnumbers value (by simp [Nested.numbers])
    rw [if_pos (by simpa [Nested.nesting] using hframes), write, htext, List.cons_append,
      machine_cons (finished?_value frames) hc.1]
    simp only [step, startValue, hstart behind hends]
  | .symbol text =>
    rw [if_pos (by simpa [Nested.nesting] using hframes), write, quote_toList, List.cons_append,
      List.append_assoc, machine_cons (finished?_value frames) (by decide)]
    simp [step, startValue, valueStart, stringTail_quoted]
  | .sequence [] =>
    have htext : (write (.sequence [])).toList = ['[', ']'] := by simp [write, writeItems]
    rw [htext, List.cons_append, machine_open, List.cons_append, machine_empty]
    simp only [Nested.nesting, Nested.itemNesting]
    rfl
  | .sequence (item :: items) =>
    have htext : (write (.sequence (item :: items))).toList ++ behind =
        '[' :: ((writeItems (item :: items)).toList ++ ']' :: behind) := by simp [write]
    rw [htext, machine_open]
    by_cases hroom : frames.length < nestingLimit
    · obtain ⟨others, hothers⟩ := writeItems_cons item items
      obtain ⟨c, text, hc, hbegins⟩ := exists_write item fun value hmem =>
        hnumbers value (by simp [Nested.numbers, Nested.itemNumbers, hmem])
      have hfirst : machine (.list (some []) :: frames) .firstItem
            ((writeItems (item :: items)).toList ++ ']' :: behind) =
          machine (.list (some []) :: frames) .value
            ((writeItems (item :: items)).toList ++ ']' :: behind) := by
        rw [hothers, hc]
        exact machine_firstItem hbegins _
      rw [if_pos hroom, hfirst, machine_writeItems (item :: items) (by simp) [] frames
        behind hnumbers hroom, Nested.nesting, Nat.add_assoc]
      rfl
    · have htoo : ¬frames.length + (Nested.sequence (item :: items)).nesting ≤ nestingLimit := by
        rw [Nested.nesting]
        omega
      rw [if_neg hroom, if_neg htoo]

/-- The items of a sequence take the machine behind the sequence. -/
theorem machine_writeItems (items : List Nested) (hne : items ≠ []) (kept : List Nested)
    (frames : List Frame) (behind : List Char) (hnumbers : ∀ value ∈ Nested.itemNumbers items,
      BeginsNumber value (writeNumber value).toList)
    (hframes : frames.length < nestingLimit) :
    machine (.list (some kept) :: frames) .value ((writeItems items).toList ++ ']' :: behind) =
      if frames.length + 1 + Nested.itemNesting items ≤ nestingLimit then
        machine frames (.behind (some (.sequence (kept.reverse ++ items)))) behind
      else .error .malformed := by
  match items with
  | [] => exact absurd rfl hne
  | [item] =>
    have hitem := machine_write item (.list (some kept) :: frames) (']' :: behind)
      (fun value hmem => hnumbers value (by simp [Nested.itemNumbers, hmem])) hframes
      (endsNumber_bracket behind)
    rw [writeItems, hitem, machine_close]
    simp [Nested.itemNesting]
  | item :: next :: others =>
    have hitem := machine_write item (.list (some kept) :: frames)
      (',' :: ((writeItems (next :: others)).toList ++ ']' :: behind))
      (fun value hmem => hnumbers value (by simp [Nested.itemNumbers, hmem])) hframes
      (endsNumber_comma _)
    have hothers := machine_writeItems (next :: others) (by simp) (item :: kept) frames behind
      (fun value hmem => hnumbers value (by
        rw [Nested.itemNumbers]
        exact List.mem_append_right _ hmem)) hframes
    have htext : (writeItems (item :: next :: others)).toList ++ ']' :: behind =
        (write item).toList ++ ',' :: ((writeItems (next :: others)).toList ++ ']' :: behind) := by
      simp [writeItems]
    have hnesting : Nested.itemNesting (item :: next :: others) =
        max item.nesting (Nested.itemNesting (next :: others)) := rfl
    rw [htext, hitem, machine_comma, hothers, hnesting, List.length_cons]
    by_cases hfirst : frames.length + 1 + item.nesting ≤ nestingLimit
    · by_cases hrest : frames.length + 1 + Nested.itemNesting (next :: others) ≤ nestingLimit
      · rw [if_pos hfirst, if_pos hrest, if_pos (by omega)]
        simp
      · rw [if_pos hfirst, if_neg hrest, if_neg (by omega)]
    · rw [if_neg hfirst, if_neg (by omega)]

end

/-- The JSON text of nested sequences is read back as these, or it is malformed where too many
of them are open. -/
theorem read_write (n : Nested)
    (hnumbers : ∀ value ∈ n.numbers, BeginsNumber value (writeNumber value).toList) :
    read (write n) = if n.nesting ≤ nestingLimit then .ok n else .error .malformed := by
  have hwrite := machine_write n [] [] hnumbers (Nat.zero_le _) endsNumber_nil
  rw [List.append_nil, List.length_nil, Nat.zero_add, machine_behind] at hwrite
  rw [read, hwrite]
  by_cases hroom : n.nesting ≤ nestingLimit
  · simp [hroom]
  · simp [hroom]

end Json

/-- The literals of a tree, from left to right. -/
def Expr.literals : Expr → List Literal
  | .literal value => [value]
  | .var _ => []
  | .prefixed _ operand => operand.literals
  | .postfixed operand _ => operand.literals
  | .binary _ left right => left.literals ++ right.literals

/-- The numbers of the nested form are the literals of the tree. -/
theorem Nested.numbers_toNested (e : Expr) : e.toNested.numbers = e.literals := by
  induction e with
  | literal value => rfl
  | var name => rfl
  | prefixed op operand ih => simp [Expr.toNested, numbers, itemNumbers, Expr.literals, ih]
  | postfixed operand op ih => simp [Expr.toNested, numbers, itemNumbers, Expr.literals, ih]
  | binary op left right ihl ihr =>
    simp [Expr.toNested, numbers, itemNumbers, Expr.literals, ihl, ihr]

/-- A tree is one higher than the sequences that are open at once in its nested form. -/
theorem Nested.nesting_toNested (e : Expr) : e.toNested.nesting + 1 = e.depth := by
  induction e with
  | literal value => rfl
  | var name => rfl
  | prefixed op operand ih =>
    simp only [Expr.toNested, nesting, itemNesting, Expr.depth]
    omega
  | postfixed operand op ih =>
    simp only [Expr.toNested, nesting, itemNesting, Expr.depth]
    omega
  | binary op left right ihl ihr =>
    simp only [Expr.toNested, nesting, itemNesting, Expr.depth]
    omega

/-- The JSON text of a tree is read back as the tree if its depth is at most 128, and it is
malformed if the tree is deeper. The variables of the tree are letters, its functions have names,
its integers are any of 64 bits, and each of its reals is read back from its own JSON text; so
the reals are finite, as all others are written as null. -/
theorem toExpr_read_toJson (e : Expr) (hnames : e.ProperlyNamed)
    (hreals : ∀ x, .real x ∈ e.literals →
      Json.read (Json.write (.number (.real x))) = .ok (.number (.real x))) :
    (e.depth ≤ 128 → ∃ n, Json.read e.toJson = .ok n ∧ n.toExpr = .ok e) ∧
      (129 ≤ e.depth → Json.read e.toJson = .error .malformed) := by
  have hnumbers : ∀ value ∈ e.toNested.numbers,
      Json.BeginsNumber value (Json.writeNumber value).toList := by
    intro value hmem
    rw [Nested.numbers_toNested] at hmem
    cases value with
    | integer value => exact Json.beginsNumber_integer value
    | real x => exact Json.beginsNumber_real (hreals x hmem)
  have hread : Json.read e.toJson =
      if e.toNested.nesting ≤ Json.nestingLimit then .ok e.toNested else .error .malformed :=
    Json.read_write e.toNested hnumbers
  have hdepth := Nested.nesting_toNested e
  have hlimit : Json.nestingLimit = 127 := rfl
  refine ⟨fun hle => ⟨e.toNested, ?_, Nested.toExpr_toNested hnames⟩, fun hlt => ?_⟩
  · rw [hread, if_pos (by omega)]
  · rw [hread, if_neg (by omega)]

/-- The sum of a half and a negative integer has its JSON text, and a variable behind 128 signs is
one sign too deep. -/
theorem toExpr_read_toJson_sum :
    let half : Binary64 := .finite false ⟨1022 * 2 ^ 52, by decide⟩
    let e : Expr := .binary .add (.literal (.real half)) (.literal (.integer (-2)))
    let signs : Expr := (Expr.prefixed .minus)^[128] (.var 'x')
    e.toJson = "[0.5,\"+\",-2]" ∧ (∃ n, Json.read e.toJson = .ok n ∧ n.toExpr = .ok e) ∧
      Json.read signs.toJson = .error .malformed := by
  intro half e signs
  have hhalf : ∀ x, .real x ∈ e.literals →
      Json.read (Json.write (.number (.real x))) = .ok (.number (.real x)) := by
    intro x hmem
    have hx : x = half := by simpa [e, Expr.literals] using hmem
    have htext : Json.write (.number (.real half)) = String.ofList ['0', '.', '5'] := by
      decide +kernel
    have hread : Json.unsigned false ['0', '.', '5'] = .ok (.real half, []) := by
      have hzero : Json.integerDigits ['0', '.', '5'] = .ok (['0'], ['.', '5']) := rfl
      have hfive : Json.fraction ['.', '5'] = .ok (['5'], []) := rfl
      have hvalue : Json.realOfParts false 5 (-1) = .ok (.real half) := by
        rw [Json.realOfParts, Json.scaleByTen]
        decide +kernel
      have hparts : Json.assemble false ['0'] ['5'] none = .ok (.real half) := hvalue
      simp only [Json.unsigned, hzero, hfive, Json.exponent, hparts]
    have hnumber := @Json.read_number '0' false (by decide) ['.', '5']
    simp only [Bool.false_eq_true, if_false, hread] at hnumber
    rw [hx, htext, hnumber]
    rfl
  have hsigns : ∀ count, ((Expr.prefixed .minus)^[count] (.var 'x')).ProperlyNamed ∧
      ((Expr.prefixed .minus)^[count] (.var 'x')).literals = [] ∧
      ((Expr.prefixed .minus)^[count] (.var 'x')).depth = count + 1 := by
    intro count
    induction count with
    | zero => exact ⟨rfl, rfl, rfl⟩
    | succ count ih =>
      obtain ⟨hnames, hliterals, hdepth⟩ := ih
      rw [Function.iterate_succ_apply']
      refine ⟨⟨trivial, hnames⟩, hliterals, ?_⟩
      rw [Expr.depth, hdepth, Nat.add_comm]
  obtain ⟨hnames, hliterals, hdepth⟩ := hsigns 128
  refine ⟨by decide +kernel, (toExpr_read_toJson e ⟨trivial, trivial⟩ hhalf).1 (by decide), ?_⟩
  refine (toExpr_read_toJson signs hnames (fun x hmem => ?_)).2 (Nat.le_of_eq hdepth.symm)
  rw [hliterals] at hmem
  cases hmem

end Formula
