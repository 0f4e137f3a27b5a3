import Formula.Json.String
import Formula.Nested

/-!
# Reading JSON

A JSON text is read as nested sequences from left to right by a machine with a
stack of the arrays and objects that are open. The first fault on the way is the
one reported. Objects, truth values and null are read to their end and then
refused, before the text behind the value is looked at.
-/

namespace Formula

namespace Json

/-- How many arrays and objects may be open at once. -/
def nestingLimit : Nat := 127

/-- Whether a character may stand between the tokens of a JSON text. -/
def isSpace (c : Char) : Bool := c == ' ' || c == '\n' || c == '\t' || c == '\r'

/-- An array or object that is open. An array keeps its items, the last one
first, unless one of them is foreign. -/
inductive Frame where
  | list (items : Option (List Nested))
  | record

/-- What has to come next. -/
inductive Expecting where
  | value
  | firstItem
  | firstKey
  | key
  | colon
  /-- What may stand behind a value; foreign values are not kept. -/
  | behind (value : Option Nested)

/-- What begins at the head of a text where a value has to stand. -/
inductive ValueStart where
  | complete (value : Option Nested) (rest : List Char)
  | openList (rest : List Char)
  | openRecord (rest : List Char)
  | fault (fault : JsonFault)

/-- The text behind the other letters of a word. -/
def wordTail : List Char → List Char → Except JsonFault (List Char)
  | [], text => .ok text
  | wanted :: word, text =>
    match expectChar wanted text with
    | .error fault => .error fault
    | .ok rest => wordTail word rest

/-- A foreign value whose name has these letters behind the first. -/
def foreign (word : List Char) (text : List Char) : ValueStart :=
  match wordTail word text with
  | .ok rest => .complete none rest
  | .error fault => .fault fault

/-- Looks at a character where a value has to stand, and at the text behind it. -/
def valueStart (c : Char) (text : List Char) : ValueStart :=
  if c = '[' then .openList text
  else if c = '\x7b' then .openRecord text
  else if c = '"' then
    match stringTail text with
    | .ok (string, rest) => .complete (some (.symbol (String.ofList string))) rest
    | .error fault => .fault fault
  else if c = '-' then
    match unsigned true text with
    | .ok (value, rest) => .complete (some (.number value)) rest
    | .error fault => .fault fault
  else if c.isDigit then
    match unsigned false (c :: text) with
    | .ok (value, rest) => .complete (some (.number value)) rest
    | .error fault => .fault fault
  else if c = 'n' then foreign ['u', 'l', 'l'] text
  else if c = 't' then foreign ['r', 'u', 'e'] text
  else if c = 'f' then foreign ['a', 'l', 's', 'e'] text
  else .fault .malformed

/-- What is left behind a word is no longer than the text. -/
theorem wordTail_length {word text rest : List Char} (h : wordTail word text = .ok rest) :
    rest.length ≤ text.length := by
  induction word generalizing text with
  | nil =>
    cases h
    exact Nat.le_refl _
  | cons wanted word ih =>
    unfold wordTail at h
    split at h
    · cases h
    · rename_i hchar
      exact Nat.le_trans (ih h) (Nat.le_of_lt (expectChar_length hchar))

/-- The text behind what begins with a character is not longer than the text
behind that character. -/
def ValueStart.Within (bound : Nat) : ValueStart → Prop
  | complete _ rest => rest.length ≤ bound
  | openList rest => rest.length ≤ bound
  | openRecord rest => rest.length ≤ bound
  | fault _ => True

/-- A word that is no value of a formula leaves no more than the text. -/
theorem foreign_within (word text : List Char) : (foreign word text).Within text.length := by
  unfold foreign
  split
  · rename_i hword
    exact wordTail_length hword
  · trivial

/-- The start of a value leaves no more than the text behind its first character. -/
theorem valueStart_within (c : Char) (text : List Char) :
    (valueStart c text).Within text.length := by
  unfold valueStart
  split
  · exact Nat.le_refl _
  split
  · exact Nat.le_refl _
  split
  · split
    · rename_i hstring
      exact Nat.le_of_lt (stringTail_length hstring)
    · trivial
  split
  · split
    · rename_i hnumber
      exact Nat.le_of_lt (unsigned_length hnumber)
    · trivial
  split
  · split
    · rename_i hnumber
      exact Nat.le_of_lt_succ (unsigned_length hnumber)
    · trivial
  split
  · exact foreign_within _ _
  split
  · exact foreign_within _ _
  split
  · exact foreign_within _ _
  · trivial

/-- The array with these items, unless one of them is foreign. -/
def closeList (items : Option (List Nested)) : Option Nested :=
  items.map fun list => .sequence list.reverse

/-- An open array with one more item. -/
def addItem (item : Option Nested) (items : Option (List Nested)) : Option (List Nested) :=
  match item, items with
  | some value, some list => some (value :: list)
  | _, _ => none

/-- What a character that is no space does to the machine. -/
inductive Step where
  | next (frames : List Frame) (expecting : Expecting) (rest : List Char)
  | fault (fault : JsonFault)

/-- Opens an array or object, unless too many are open. -/
def push (frames : List Frame) (frame : Frame) (expecting : Expecting) (rest : List Char) : Step :=
  if frames.length < nestingLimit then .next (frame :: frames) expecting rest
  else .fault .malformed

/-- Begins a value with a character. -/
def startValue (frames : List Frame) (c : Char) (text : List Char) : Step :=
  match valueStart c text with
  | .complete value rest => .next frames (.behind value) rest
  | .openList rest => push frames (.list (some [])) .firstItem rest
  | .openRecord rest => push frames .record .firstKey rest
  | .fault fault => .fault fault

/-- Begins a key with a character. -/
def startKey (frames : List Frame) (c : Char) (text : List Char) : Step :=
  if c = '"' then
    match stringTail text with
    | .ok (_, rest) => .next frames .colon rest
    | .error fault => .fault fault
  else .fault .malformed

/-- Continues with a character behind a value. -/
def continueWith (value : Option Nested) (frames : List Frame) (c : Char) (text : List Char) :
    Step :=
  match frames with
  | [] => .fault .malformed
  | .list items :: outer =>
    if c = ',' then .next (.list (addItem value items) :: outer) .value text
    else if c = ']' then .next outer (.behind (closeList (addItem value items))) text
    else .fault .malformed
  | .record :: outer =>
    if c = ',' then .next (.record :: outer) .key text
    else if c = '\x7d' then .next outer (.behind none) text
    else .fault .malformed

/-- What a character that is no space does in a state of the machine. -/
def step (frames : List Frame) (expecting : Expecting) (c : Char) (text : List Char) : Step :=
  match expecting with
  | .value => startValue frames c text
  | .firstItem =>
    if c = ']' then .next frames.tail (.behind (some (.sequence []))) text
    else startValue frames c text
  | .firstKey =>
    if c = '\x7d' then .next frames.tail (.behind none) text else startKey frames c text
  | .key => startKey frames c text
  | .colon => if c = ':' then .next frames .value text else .fault .malformed
  | .behind value => continueWith value frames c text

/-- A step does not put text back. -/
def Step.Within (bound : Nat) : Step → Prop
  | next _ _ rest => rest.length ≤ bound
  | fault _ => True

/-- A bracket that is opened leaves what stands behind it. -/
theorem push_within {frames : List Frame} {frame : Frame} {expecting : Expecting}
    {rest : List Char} {bound : Nat} (h : rest.length ≤ bound) :
    (push frames frame expecting rest).Within bound := by
  unfold push
  split
  · exact h
  · trivial

/-- Where a value is expected, a step leaves no more than the text behind its character. -/
theorem startValue_within (frames : List Frame) (c : Char) (text : List Char) :
    (startValue frames c text).Within text.length := by
  have h := valueStart_within c text
  unfold startValue
  split <;> rename_i hstart <;> rw [hstart] at h
  · exact h
  · exact push_within h
  · exact push_within h
  · trivial

/-- Where a key is expected, a step leaves no more than the text behind its character. -/
theorem startKey_within (frames : List Frame) (c : Char) (text : List Char) :
    (startKey frames c text).Within text.length := by
  unfold startKey
  split
  · split
    · rename_i hstring
      exact Nat.le_of_lt (stringTail_length hstring)
    · trivial
  · trivial

/-- Behind a value, a step leaves no more than the text behind its character. -/
theorem continueWith_within (value : Option Nested) (frames : List Frame) (c : Char)
    (text : List Char) : (continueWith value frames c text).Within text.length := by
  unfold continueWith
  split
  · trivial
  · split
    · exact Nat.le_refl _
    · split
      · exact Nat.le_refl _
      · trivial
  · split
    · exact Nat.le_refl _
    · split
      · exact Nat.le_refl _
      · trivial

/-- Whatever is expected, a step leaves no more than the text behind its character. -/
theorem step_within (frames : List Frame) (expecting : Expecting) (c : Char) (text : List Char) :
    (step frames expecting c text).Within text.length := by
  cases expecting with
  | value => exact startValue_within _ _ _
  | firstItem =>
    simp only [step]
    split
    · exact Nat.le_refl _
    · exact startValue_within _ _ _
  | firstKey =>
    simp only [step]
    split
    · exact Nat.le_refl _
    · exact startKey_within _ _ _
  | key => exact startKey_within _ _ _
  | colon =>
    simp only [step]
    split
    · exact Nat.le_refl _
    · trivial
  | behind value => exact continueWith_within _ _ _ _

/-- A step that goes on leaves no more than the text behind its character, so that steps come to
an end. -/
theorem step_length {frames after : List Frame} {expecting wanted : Expecting} {c : Char}
    {text rest : List Char} (h : step frames expecting c text = .next after wanted rest) :
    rest.length ≤ text.length := by
  have hwithin := step_within frames expecting c text
  rw [h] at hwithin
  exact hwithin

/-- The outermost value, if the machine stands behind it. -/
def finished? : List Frame → Expecting → Option (Option Nested)
  | [], .behind value => some value
  | _, _ => none

/-- Runs the machine up to the end of the outermost value. The answer is the
value, unless it is foreign, and the text behind it. -/
def machine (frames : List Frame) (expecting : Expecting) (text : List Char) :
    Except JsonFault (Option Nested × List Char) :=
  match finished? frames expecting with
  | some value => .ok (value, text)
  | none =>
    match text with
    | [] => .error .ended
    | c :: behind =>
      if isSpace c then machine frames expecting behind
      else
        match _h : step frames expecting c behind with
        | .fault fault => .error fault
        | .next frames expecting rest => machine frames expecting rest
termination_by text.length
decreasing_by
  · simp
  · exact Nat.lt_succ_of_le (step_length ‹_›)

/-- The nested sequences of a JSON text. -/
def read (text : String) : Except JsonFault Nested :=
  match machine [] .value text.toList with
  | .error fault => .error fault
  | .ok (none, _) => .error .foreign
  | .ok (some value, rest) => if rest.all isSpace then .ok value else .error .malformed

end Json

end Formula
