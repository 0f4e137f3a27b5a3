import Formula.Json.Read
import Formula.Json.Write
import Formula.Proofs.Json.Numbers

/-!
# JSON numbers where a value has to stand

Where a value has to stand, the text of a number takes the machine that reads JSON behind this
number, whatever text follows that does not go on with it. This holds of all integers of 64 bits,
and of a real if it is read back from a text that has nothing else in it.
-/

namespace Formula

namespace Json

variable {frames : List Frame} {expecting : Expecting} {c : Char} {text behind : List Char}
  {value : Literal} {x : Binary64}

/-- Unless it stands behind the outermost value, the machine does what its step says. -/
theorem machine_cons (hrun : finished? frames expecting = none) (hspace : isSpace c = false)
    (text : List Char) : machine frames expecting (c :: text) =
      match step frames expecting c text with
      | .fault fault => .error fault
      | .next frames expecting rest => machine frames expecting rest := by
  rw [machine, hrun]
  simp only [hspace, Bool.false_eq_true, if_false]
  split <;> simp_all

/-- Behind the outermost value the machine stops. -/
theorem machine_behind (value : Option Nested) (text : List Char) :
    machine [] (.behind value) text = .ok (value, text) := by
  rw [machine.eq_def]
  rfl

/-- The machine does not stop where a value has to stand. -/
theorem finished?_value (frames : List Frame) : finished? frames .value = none := by
  cases frames <;> rfl

/-- The machine does not stop where the first item has to stand. -/
theorem finished?_firstItem (frames : List Frame) : finished? frames .firstItem = none := by
  cases frames <;> rfl

/-- A character may begin an item. -/
def BeginsItem (c : Char) : Prop := isSpace c = false ∧ c ≠ ']'

/-- Where the first item has to stand, an item is read as anywhere else. -/
theorem machine_firstItem (hc : BeginsItem c) (text : List Char) :
    machine frames .firstItem (c :: text) = machine frames .value (c :: text) := by
  rw [machine_cons (finished?_firstItem frames) hc.1, machine_cons (finished?_value frames) hc.1]
  simp only [step, if_neg hc.2]

/-! A number is written as a text that is read as the number wherever no number goes on behind
it. -/

/-- The text begins a value that is a number and has nothing but the number in it. -/
def BeginsNumber (value : Literal) (text : List Char) : Prop :=
  ∃ c others, text = c :: others ∧ BeginsItem c ∧ ∀ behind, EndsNumber behind →
    valueStart c (others ++ behind) = .complete (some (.number value)) behind

/-- A digit is no space. -/
theorem isSpace_of_isDigit (h : c.isDigit) : isSpace c = false := by
  have hother : ∀ other, isSpace other = true → other.isDigit = false := by
    intro other hspace
    simp only [isSpace, Bool.or_eq_true, beq_iff_eq] at hspace
    rcases hspace with ((rfl | rfl) | rfl) | rfl <;> decide
  by_contra hspace
  simp [hother c (by simpa using hspace)] at h

/-- A digit may begin an item. -/
theorem beginsItem_of_isDigit (h : c.isDigit) : BeginsItem c :=
  ⟨isSpace_of_isDigit h, Numeral.Written.ne_of_digit h (by decide)⟩

/-- The text of a number begins an item, and with it the number. -/
theorem exists_signed (negative : Bool) (hc : c.isDigit) (text : List Char) :
    ∃ first others, (if negative then '-' :: c :: text else c :: text) = first :: others ∧
      BeginsItem first ∧ ∀ behind, valueStart first (others ++ behind) =
        match unsigned negative (c :: text ++ behind) with
        | .ok (value, rest) => .complete (some (.number value)) rest
        | .error fault => .fault fault := by
  cases negative with
  | true => exact ⟨'-', c :: text, rfl, ⟨by decide, by decide⟩, fun behind => rfl⟩
  | false =>
    refine ⟨c, text, rfl, beginsItem_of_isDigit hc, fun behind => ?_⟩
    have hne : ∀ other : Char, other.isDigit = false → c ≠ other :=
      fun _ hother => Numeral.Written.ne_of_digit hc hother
    rw [valueStart, if_neg (hne '[' (by decide)), if_neg (hne '\x7b' (by decide)),
      if_neg (hne '"' (by decide)), if_neg (hne '-' (by decide)), if_pos hc]
    rfl

/-- What is read as a number as a whole is read as the number in front of other texts. -/
theorem beginsNumber_of_unsigned {negative : Bool} (hc : c.isDigit)
    (h : unsigned negative (c :: text) = .ok (value, [])) :
    BeginsNumber value (if negative then '-' :: c :: text else c :: text) := by
  obtain ⟨first, others, htext, hfirst, hstart⟩ := exists_signed negative hc text
  refine ⟨first, others, htext, hfirst, fun behind hends => ?_⟩
  obtain ⟨-, happend⟩ := unsigned_append h hends
  rw [hstart, happend, List.nil_append]

/-- An integer of 64 bits is written as a number that is read as this integer. -/
theorem beginsNumber_integer (value : Int64) :
    BeginsNumber (.integer value) (writeNumber (.integer value)).toList := by
  have hword : value.toInt.natAbs ≤ maxWord := by
    have hleast := Int64.minValue_le_toInt value
    have hgreatest := Int64.toInt_le value
    rw [Int64.toInt_minValue] at hleast
    rw [Int64.toInt_maxValue] at hgreatest
    have hmax : maxWord = 2 ^ 64 - 1 := rfl
    omega
  have hread := unsigned_toDigits hword (decide (value.toInt < 0))
  rw [whole_natAbs] at hread
  obtain ⟨c, text, hdigits⟩ :=
    List.exists_cons_of_ne_nil (Nat.toDigits_ne_nil (n := value.toInt.natAbs) (b := 10))
  have hc : c.isDigit := Numeral.digits_toDigits value.toInt.natAbs c (by simp [hdigits])
  rw [hdigits] at hread
  have htext : (writeNumber (.integer value)).toList =
      if decide (value.toInt < 0) then '-' :: c :: text else c :: text := by
    simp only [writeNumber, Numeral.integer, decide_eq_true_eq]
    split <;> simp [Numeral.natural_toList, hdigits]
  rw [htext]
  exact beginsNumber_of_unsigned hc hread

/-- The machine stops behind a number that stands alone. -/
theorem read_number {negative : Bool} (hc : c.isDigit) (text : List Char) :
    read (String.ofList (if negative then '-' :: c :: text else c :: text)) =
      match unsigned negative (c :: text) with
      | .error fault => .error fault
      | .ok (value, rest) =>
        if rest.all isSpace then .ok (.number value) else .error .malformed := by
  obtain ⟨first, others, htext, hfirst, hstart⟩ := exists_signed negative hc text
  have hstart := hstart []
  rw [List.append_nil, List.append_nil] at hstart
  rw [read, String.toList_ofList, htext, machine_cons rfl hfirst.1]
  simp only [step, startValue, hstart]
  cases unsigned negative (c :: text) with
  | error fault => rfl
  | ok found =>
    obtain ⟨value, rest⟩ := found
    simp only [machine_behind]

/-- A text without spaces. -/
def Solid (text : List Char) : Prop := ∀ c ∈ text, isSpace c = false

instance (text : List Char) : Decidable (Solid text) := List.decidableBAll _ text

/-- Two texts without spaces make up one. -/
theorem Solid.append {left right : List Char} (h : Solid left) (hright : Solid right) :
    Solid (left ++ right) :=
  List.forall_mem_append.mpr ⟨h, hright⟩

/-- There are no spaces among digits. -/
theorem solid_of_digits (h : Numeral.Digits text) : Solid text :=
  fun c hc => isSpace_of_isDigit (h c hc)

/-- An integer is written without spaces. -/
theorem solid_integer (n : Int) : Solid (Numeral.integer n).toList := by
  have hdigits := solid_of_digits (Numeral.digits_toDigits n.natAbs)
  rw [Numeral.integer]
  split
  · have hminus : Solid ['-'] := by decide
    simpa [Numeral.natural_toList] using hminus.append hdigits
  · simpa [Numeral.natural_toList] using hdigits

/-- A point and digits, if there are digits. -/
theorem solid_point (h : Numeral.Digits text) :
    Solid (if text.isEmpty then [] else '.' :: text) := by
  have hpoint : Solid ['.'] := by decide
  split
  · nofun
  · exact hpoint.append (solid_of_digits h)

/-- A magnitude is written without spaces, and a digit is in front. -/
theorem exists_magnitude (layout : Numeral.Layout) (rank : Nat) :
    ∃ c text, layout.magnitude rank = String.ofList (c :: text) ∧ c.isDigit ∧ Solid text := by
  suffices hsuffices : ∃ front behind, layout.magnitude rank = String.ofList (front ++ behind) ∧
      Numeral.Digits front ∧ front ≠ [] ∧ Solid behind by
    obtain ⟨front, behind, htext, hdigits, hne, hsolid⟩ := hsuffices
    obtain ⟨c, others, rfl⟩ := List.exists_cons_of_ne_nil hne
    refine ⟨c, others ++ behind, htext, hdigits c List.mem_cons_self, ?_⟩
    exact (solid_of_digits fun other hmem => hdigits other (List.mem_cons_of_mem _ hmem)).append
      hsolid
  rw [Numeral.Layout.magnitude]
  split
  · exact ⟨['0'], ['.', '0'], rfl, Numeral.digits_replicate 1, by simp, by decide⟩
  simp only
  split
  · obtain ⟨whole, fraction, ⟨hproper, -⟩, htext⟩ :=
      Numeral.Layout.plain_eq_text (Binary64.shortest layout.tie rank)
    refine ⟨whole, _, htext, hproper.whole, hproper.whole_ne, ?_⟩
    have hmark : Solid [] := by decide
    exact (solid_point hproper.fraction).append hmark
  · let decimal := Binary64.shortest layout.tie rank
    have hfigures : Numeral.Digits decimal.figures := Numeral.Layout.digits_figures decimal
    have hne : decimal.figures ≠ [] := Numeral.Layout.figures_ne_nil decimal
    have hmark : Solid ['e'] := by decide
    have hsign : Solid (if layout.plus && 0 ≤ decimal.magnitude then "+" else "").toList := by
      split <;> decide
    refine ⟨decimal.figures.take 1, _, ?_, hfigures.of_sublist (List.take_sublist _ _),
      by simp [hne], (solid_point (hfigures.of_sublist (List.drop_sublist 1 _))).append
        ((hmark.append hsign).append (solid_integer decimal.magnitude))⟩
    apply String.toList_inj.mp
    simp [Numeral.Layout.withExponent, decimal]

/-- A real that is read back from its JSON text is finite, and its text is read as the real
in front of other texts too. -/
theorem beginsNumber_real (h : read (writeNumber (.real x)) = .ok (.number (.real x))) :
    BeginsNumber (.real x) (writeNumber (.real x)).toList := by
  have hnull : read "null" = .error .foreign := by cbv
  cases x with
  | nan => cases hnull.symm.trans h
  | infinite negative =>
    cases negative <;> cases hnull.symm.trans h
  | finite negative rank =>
    obtain ⟨c, text, htext, hc, hsolid⟩ := exists_magnitude Numeral.jsonReal rank
    have hwritten : (writeNumber (.real (.finite negative rank))).toList =
        if negative then '-' :: c :: text else c :: text := by
      cases negative <;> simp [writeNumber, Numeral.Layout.write, htext]
    rw [← String.ofList_toList (s := writeNumber _), hwritten, read_number hc] at h
    rw [hwritten]
    cases hread : unsigned negative (c :: text) with
    | error fault =>
      rw [hread] at h
      cases h
    | ok found =>
      obtain ⟨value, rest⟩ := found
      rw [hread] at h
      simp only at h
      split at h
      · rename_i hspaces
        cases h
        -- What is left of the text has no spaces, and nothing but spaces.
        obtain ⟨hsuffix, -⟩ := unsigned_append hread endsNumber_nil
        have hrest : Solid rest := by
          intro other hmem
          rcases List.mem_cons.mp (hsuffix.subset hmem) with rfl | hmem
          · exact isSpace_of_isDigit hc
          · exact hsolid other hmem
        obtain rfl : rest = [] := by
          refine List.eq_nil_iff_forall_not_mem.mpr fun other hmem => ?_
          have hspace := List.all_eq_true.mp hspaces other hmem
          rw [hrest other hmem] at hspace
          cases hspace
        exact beginsNumber_of_unsigned hc hread
      · cases h

end Json

end Formula
