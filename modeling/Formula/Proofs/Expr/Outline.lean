import Formula.Expr.Outline
import Formula.Proofs.Json.Values
import Formula.Proofs.Nested.Inverse
import Formula.Proofs.Text.Lines
import Mathlib.Data.List.Basic

/-!
# Outlines draw trees

A node is addressed by the branches that lead to it from the root, each of them told by
whether it is the last one below its node. The outline has one line for each address, in
the order in which addresses are sorted, and the address can be read off the line in front
of the label. A label tells what a node is but for its subtrees, so no two trees have one
outline.
-/

namespace Formula

namespace Numeral

variable {x y : Binary64}

/-- The sign of a real is written in front of its magnitude. -/
theorem splitSign_write (x : Binary64) : splitSign (formulaReal.write x).toList =
    (x.isNegative, (formulaReal.write (x.withSign false)).toList) := by
  cases x with
  | nan => rfl
  | infinite negative => cases negative <;> rfl
  | finite negative rank =>
    obtain ⟨c, text, htext, hc, -⟩ := Json.exists_magnitude formulaReal rank
    cases negative with
    | true =>
      simp [Layout.write, Binary64.isNegative, Binary64.withSign, htext, splitSign]
    | false =>
      simp [Layout.write, Binary64.isNegative, Binary64.withSign, htext, splitSign_of_digit hc]

/-- A magnitude is read back. -/
theorem binary64?_write_withSign (x : Binary64) :
    binary64? (formulaReal.write (x.withSign false)).toList = some (x.withSign false) := by
  cases x with
  | nan => decide +kernel
  | infinite negative => cases negative <;> decide +kernel
  | finite negative rank =>
    obtain ⟨written, hproper, hvalue, htext⟩ := Layout.magnitude_eq_text formulaReal rfl rank
    simp [Layout.write, Binary64.withSign, htext, hproper.binary64?, hvalue]

/-- No two reals are written alike. -/
theorem write_injective (h : formulaReal.write x = formulaReal.write y) : x = y := by
  have hsplit := congrArg (fun text => splitSign text.toList) h
  simp only [splitSign_write, Prod.mk.injEq] at hsplit
  obtain ⟨hsign, hmagnitude⟩ := hsplit
  have hread := congrArg binary64? hmagnitude
  rw [binary64?_write_withSign, binary64?_write_withSign] at hread
  cases x <;> cases y <;> simp_all [Binary64.isNegative, Binary64.withSign]

/-- No two integers are written alike. -/
theorem integer_injective {n m : Int} (h : integer n = integer m) : n = m := by
  have hread := congrArg (fun text => integer? text.toList) h
  simpa [integer?_integer] using hread

end Numeral

/-- No two binary operators have the same symbol. -/
theorem BinaryOp.symbol_injective {first second : BinaryOp} (h : first.symbol = second.symbol) :
    first = second := by
  cases first <;> cases second <;> first | rfl | exact absurd h (by decide)

namespace Json

/-- A word has no spaces. -/
theorem solid_of_isName {name : String} (h : isName name) : Solid name.toList := by
  have hspace : ∀ c, isWordChar c → isSpace c = false := by
    intro c hc
    by_contra hspace
    simp only [isSpace, Bool.not_eq_false, Bool.or_eq_true, beq_iff_eq] at hspace
    rcases hspace with ((rfl | rfl) | rfl) | rfl <;> exact absurd hc (by decide)
  rw [isName] at h
  split at h
  · cases h
  · rename_i c rest htext
    obtain ⟨hc, hrest⟩ := Bool.and_eq_true_iff.mp h
    rw [htext]
    refine List.forall_mem_cons.mpr ⟨hspace c (isWordChar_of_isAlpha hc), fun other hmem => ?_⟩
    exact hspace other (List.all_eq_true.mp hrest other hmem)

/-- A real is written without spaces. -/
theorem solid_write (x : Binary64) : Solid (Numeral.formulaReal.write x).toList := by
  cases x with
  | nan => decide
  | infinite negative => cases negative <;> decide
  | finite negative rank =>
    obtain ⟨c, text, htext, hc, hsolid⟩ := exists_magnitude Numeral.formulaReal rank
    have hmagnitude : Solid (c :: text) :=
      List.forall_mem_cons.mpr ⟨isSpace_of_isDigit hc, hsolid⟩
    have hsign : Solid (if negative then "-" else "").toList := by cases negative <;> decide
    simpa [Numeral.Layout.write, htext] using hsign.append hmagnitude

end Json

namespace Expr

variable {e f : Expr} {path : List Bool}

/-! The address of a node is the list of branches to it from the root. -/

/-- The subtree at an address: the only subtree right below a node is the last one. -/
def subtree? : List Bool → Expr → Option Expr
  | [], e => some e
  | true :: path, prefixed _ operand => subtree? path operand
  | true :: path, postfixed operand _ => subtree? path operand
  | false :: path, binary _ left _ => subtree? path left
  | true :: path, binary _ _ right => subtree? path right
  | _ :: _, _ => none

/-- A node of a subtree that hangs at a branch. -/
def hang (last : Bool) (node : List Bool × Expr) : List Bool × Expr :=
  (last :: node.1, node.2)

/-- The nodes with their addresses, every node above its subtrees. -/
def preorder : Expr → List (List Bool × Expr)
  | literal value => [([], literal value)]
  | var name => [([], var name)]
  | prefixed op operand => ([], prefixed op operand) :: operand.preorder.map (hang true)
  | postfixed operand op => ([], postfixed operand op) :: operand.preorder.map (hang true)
  | binary op left right => ([], binary op left right) ::
      (left.preorder.map (hang false) ++ right.preorder.map (hang true))

/-- The branches in front of the label of the node at an address. -/
def indentation : List Bool → String
  | [] => ""
  | [last] => branch last
  | last :: path => trunk last ++ indentation path

/-- The line of a node. -/
def line (node : List Bool × Expr) : String := indentation node.1 ++ node.2.label

/-- The branch is put in front of the address. -/
@[simp] theorem hang_fst (last : Bool) (node : List Bool × Expr) :
    (hang last node).1 = last :: node.1 := rfl

/-- A node stays the same where it hangs. -/
@[simp] theorem hang_snd (last : Bool) (node : List Bool × Expr) :
    (hang last node).2 = node.2 := rfl

/-- There are as many entries as there are nodes. -/
theorem length_preorder (e : Expr) : e.preorder.length = e.nodeCount := by
  induction e with
  | literal => rfl
  | var => rfl
  | prefixed op operand ih => simp [preorder, nodeCount, ih, Nat.add_comm]
  | postfixed operand op ih => simp [preorder, nodeCount, ih, Nat.add_comm]
  | binary op left right hl hr => simp [preorder, nodeCount, hl, hr]; omega

/-- The nodes that hang at a branch have the branch in front of their addresses. -/
theorem mem_map_hang {last : Bool} {nodes : List (List Bool × Expr)} {node : Expr} :
    (path, node) ∈ nodes.map (hang last) ↔ ∃ rest, path = last :: rest ∧ (rest, node) ∈ nodes := by
  constructor
  · intro h
    obtain ⟨⟨rest, other⟩, hmem, heq⟩ := List.mem_map.mp h
    cases heq
    exact ⟨rest, rfl, hmem⟩
  · rintro ⟨rest, rfl, hmem⟩
    exact List.mem_map.mpr ⟨(rest, node), hmem, rfl⟩

/-- The nodes are the subtrees at the addresses that there are. -/
theorem mem_preorder_iff {node : Expr} :
    (path, node) ∈ e.preorder ↔ e.subtree? path = some node := by
  induction e generalizing path with
  | literal value => cases path <;> simp [preorder, subtree?, eq_comm]
  | var name => cases path <;> simp [preorder, subtree?, eq_comm]
  | prefixed op operand ih =>
    rcases path with _ | ⟨_ | _, path⟩ <;>
      simp [preorder, subtree?, mem_map_hang, ih, eq_comm]
  | postfixed operand op ih =>
    rcases path with _ | ⟨_ | _, path⟩ <;>
      simp [preorder, subtree?, mem_map_hang, ih, eq_comm]
  | binary op left right hl hr =>
    rcases path with _ | ⟨_ | _, path⟩ <;>
      simp [preorder, subtree?, mem_map_hang, hl, hr, eq_comm]

/-- Nodes that are in order stay so where they hang. -/
theorem pairwise_map_hang {last : Bool} {nodes : List (List Bool × Expr)}
    (h : nodes.Pairwise fun a b => a.1 < b.1) :
    (nodes.map (hang last)).Pairwise fun a b => a.1 < b.1 := by
  rw [List.pairwise_map]
  exact h.imp fun hlt => by simpa using hlt

/-- Every node stands above its subtrees, and a left subtree above the right one. -/
theorem pairwise_preorder (e : Expr) : e.preorder.Pairwise fun a b => a.1 < b.1 := by
  have hroot : ∀ (last : Bool) (nodes : List (List Bool × Expr)),
      ∀ node ∈ nodes.map (hang last), [] < node.1 := by
    rintro last nodes _ hmem
    obtain ⟨node, -, rfl⟩ := List.mem_map.mp hmem
    exact List.nil_lt_cons ..
  induction e with
  | literal => exact List.pairwise_singleton ..
  | var => exact List.pairwise_singleton ..
  | prefixed op operand ih => exact List.pairwise_cons.mpr ⟨hroot _ _, pairwise_map_hang ih⟩
  | postfixed operand op ih => exact List.pairwise_cons.mpr ⟨hroot _ _, pairwise_map_hang ih⟩
  | binary op left right hl hr =>
    refine List.pairwise_cons.mpr ⟨fun node hmem => ?_, List.pairwise_append.mpr
      ⟨pairwise_map_hang hl, pairwise_map_hang hr, fun a ha b hb => ?_⟩⟩
    · rcases List.mem_append.mp hmem with hmem | hmem <;> exact hroot _ _ node hmem
    · obtain ⟨a, -, rfl⟩ := List.mem_map.mp ha
      obtain ⟨b, -, rfl⟩ := List.mem_map.mp hb
      exact List.Lex.rel (by decide)

/-- Each branch of an address takes four columns. -/
theorem length_indentation (path : List Bool) : (indentation path).length = 4 * path.length := by
  have hbranch : ∀ last, (branch last).length = 4 := by decide
  have htrunk : ∀ last, (trunk last).length = 4 := by decide
  fun_induction indentation path with
  | case1 => rfl
  | case2 last => simp [hbranch]
  | case3 last path hne ih => simp [htrunk, ih, Nat.mul_add, Nat.add_comm]

/-- Addresses are shorter than the tree is deep. -/
theorem length_lt_depth {node : Expr} (h : e.subtree? path = some node) :
    path.length < e.depth := by
  fun_induction subtree? path e with
  | case1 e => exact e.depth_pos
  | case2 path op operand ih | case3 path operand op ih =>
    have hoperand := ih h
    simp only [List.length_cons, depth]
    omega
  | case4 path op left right ih | case5 path op left right ih =>
    have hoperand := ih h
    simp only [List.length_cons, depth]
    omega
  | case6 => cases h

/-- The longest address has one branch for each level below the root. -/
theorem exists_length_eq (e : Expr) :
    ∃ path node, e.subtree? path = some node ∧ path.length + 1 = e.depth := by
  induction e with
  | literal value => exact ⟨[], _, rfl, rfl⟩
  | var name => exact ⟨[], _, rfl, rfl⟩
  | prefixed op operand ih | postfixed operand op ih =>
    obtain ⟨path, node, hnode, hlength⟩ := ih
    refine ⟨true :: path, node, hnode, ?_⟩
    simp only [List.length_cons, depth]
    omega
  | binary op left right hl hr =>
    rcases Nat.le_total left.depth right.depth with hle | hle
    · obtain ⟨path, node, hnode, hlength⟩ := hr
      refine ⟨true :: path, node, hnode, ?_⟩
      simp only [List.length_cons, depth]
      omega
    · obtain ⟨path, node, hnode, hlength⟩ := hl
      refine ⟨false :: path, node, hnode, ?_⟩
      simp only [List.length_cons, depth]
      omega

/-- The outline is set in the most at the nodes of the greatest depth. -/
theorem isGreatest_indentation (e : Expr) :
    IsGreatest {width | ∃ node ∈ e.preorder, (indentation node.1).length = width}
      (4 * (e.depth - 1)) := by
  constructor
  · obtain ⟨path, node, hnode, hlength⟩ := e.exists_length_eq
    refine ⟨(path, node), mem_preorder_iff.mpr hnode, ?_⟩
    rw [length_indentation, ← hlength, Nat.add_sub_cancel]
  · rintro width ⟨⟨path, node⟩, hmem, rfl⟩
    have hlt : path.length < e.depth := length_lt_depth (mem_preorder_iff.mp hmem)
    simp only [length_indentation]
    omega

/-! The lines of the outline are those of the nodes. -/

/-- The root has no branches in front of its label. -/
theorem line_root (e : Expr) : line ([], e) = e.label := String.empty_append ..

/-- Right below the root the label stands behind a branch. -/
theorem line_hang_root (last : Bool) (e : Expr) :
    line (hang last ([], e)) = branch last ++ e.label := rfl

/-- Further below, the line of a node stands behind the trunk of the branch. -/
theorem line_hang_hang (first second : Bool) (node : List Bool × Expr) :
    line (hang first (hang second node)) = trunk first ++ line (hang second node) :=
  String.append_assoc ..

/-- The lines of a subtree are those of its nodes, set in. -/
theorem branchLines_eq_map (indent : String) (last : Bool) (e : Expr) :
    branchLines indent last e = e.preorder.map fun node => indent ++ line (hang last node) := by
  induction e generalizing indent last with
  | literal value => simp [branchLines, preorder, line_hang_root, String.append_assoc]
  | var name => simp [branchLines, preorder, line_hang_root, String.append_assoc]
  | prefixed op operand ih =>
    simp [branchLines, preorder, line_hang_root, line_hang_hang, String.append_assoc, ih]
  | postfixed operand op ih =>
    simp [branchLines, preorder, line_hang_root, line_hang_hang, String.append_assoc, ih]
  | binary op left right hl hr =>
    simp [branchLines, preorder, line_hang_root, line_hang_hang, String.append_assoc, hl, hr,
      Function.comp_def]

/-- The lines of the outline are those of the nodes in order. -/
theorem outlineLines_eq_map (e : Expr) : e.outlineLines = e.preorder.map line := by
  cases e <;> simp [outlineLines, childLines, preorder, line_root, branchLines_eq_map,
    Function.comp_def]

/-! A label says what a node is and then what it holds. -/

/-- The ways in which labels begin. -/
inductive Title where
  | integer
  | real
  | letter
  | application
  | sign
  | factorial
  | operation
deriving DecidableEq

/-- The word in front of a label. -/
def Title.word : Title → String
  | integer => "Integer "
  | real => "Real "
  | letter => "Variable "
  | application => "Apply "
  | sign => "Prefix "
  | factorial => "Postfix "
  | operation => "Binary "

/-- The words make up a prefix code. -/
theorem Title.eq_of_isPrefix {first second : Title}
    (h : first.word.toList <+: second.word.toList) : first = second := by
  cases first <;> cases second <;> first | rfl | exact absurd h (by decide)

/-- There is no line feed in the word in front of a label. -/
theorem Title.feed_notMem_word (title : Title) : '\n' ∉ title.word.toList := by
  cases title <;> decide

/-- How the label of a tree begins. -/
def title : Expr → Title
  | literal (.integer _) => .integer
  | literal (.real _) => .real
  | var _ => .letter
  | prefixed (.apply _) _ => .application
  | prefixed _ _ => .sign
  | postfixed _ _ => .factorial
  | binary _ _ _ => .operation

/-- What a label says behind its word. -/
def detail : Expr → String
  | literal value => value.render
  | var name => String.singleton name
  | prefixed op _ => op.symbol
  | postfixed _ op => op.symbol
  | binary op _ _ => op.symbol

/-- A label is the word and what it says behind the word. -/
theorem label_eq (e : Expr) : e.label = e.title.word ++ e.detail := by
  cases e with
  | literal value => cases value <;> rfl
  | prefixed op operand => cases op <;> rfl
  | _ => rfl

/-- What a label says behind its word has no spaces. -/
theorem solid_detail (h : e.ProperlyNamed) : Json.Solid e.detail.toList := by
  cases e with
  | literal value =>
    cases value with
    | integer value => exact Json.solid_integer value.toInt
    | real value => exact Json.solid_write value
  | var name =>
    have hname : isName (String.singleton name) := by
      have halpha : name.isAlpha := h
      simp [isName, halpha]
    exact Json.solid_of_isName hname
  | prefixed op operand =>
    cases op with
    | plus => exact (by decide : Json.Solid "+".toList)
    | minus => exact (by decide : Json.Solid "-".toList)
    | apply name => exact Json.solid_of_isName h.1
  | postfixed operand op =>
    cases op
    exact (by decide : Json.Solid "!".toList)
  | binary op left right =>
    have hsymbol : ∀ op : BinaryOp, Json.Solid op.symbol.toList := by rintro (_ | _) <;> decide
    exact hsymbol op

/-- There is no line feed in a label. -/
theorem feed_notMem_label (h : e.ProperlyNamed) : '\n' ∉ e.label.toList := by
  have hdetail : '\n' ∉ e.detail.toList := fun hmem => absurd (solid_detail h _ hmem) (by decide)
  simp [label_eq, Title.feed_notMem_word, hdetail]

/-- A label tells its two parts. -/
theorem eq_of_label (h : e.label = f.label) : e.title = f.title ∧ e.detail = f.detail := by
  rw [label_eq, label_eq] at h
  have htext := congrArg String.toList h
  rw [String.toList_append, String.toList_append] at htext
  have htitle : e.title = f.title := by
    rcases List.prefix_or_prefix_of_prefix (List.prefix_append _ e.detail.toList)
      (htext ▸ List.prefix_append _ f.detail.toList) with hprefix | hprefix
    · exact Title.eq_of_isPrefix hprefix
    · exact (Title.eq_of_isPrefix hprefix).symm
  rw [htitle] at h
  exact ⟨htitle, (String.append_right_inj _).mp h⟩

/-- Two trees have the same node at their roots. -/
def SameRoot : Expr → Expr → Prop
  | literal a, literal b => a = b
  | var a, var b => a = b
  | prefixed f _, prefixed g _ => f = g
  | postfixed _ f, postfixed _ g => f = g
  | binary f _ _, binary g _ _ => f = g
  | _, _ => False

/-- A label tells the node at the root of a tree. -/
theorem sameRoot_of_label (h : e.label = f.label) : SameRoot e f := by
  obtain ⟨htitle, hdetail⟩ := eq_of_label h
  -- Where the titles are the same, the nodes are of one sort, and what they hold is equal.
  rcases e with (a | a) | a | ⟨_ | _ | a, operand⟩ | ⟨operand, _⟩ | ⟨a, left, right⟩ <;>
    rcases f with (b | b) | b | ⟨_ | _ | b, operand⟩ | ⟨operand, _⟩ | ⟨b, left, right⟩ <;>
    try cases htitle
  · exact congrArg Literal.integer (Int64.toInt_inj.mp (Numeral.integer_injective hdetail))
  · exact congrArg Literal.real (Numeral.write_injective hdetail)
  · exact String.singleton_inj.mp hdetail
  · rfl
  · exact absurd hdetail (by decide : ("+" : String) ≠ "-")
  · exact absurd hdetail (by decide : ("-" : String) ≠ "+")
  · rfl
  · exact congrArg PrefixOp.apply hdetail
  · rfl
  · exact BinaryOp.symbol_injective hdetail

/-! The lines can be told in the outline, as there is no line feed in them. -/

/-- There is no line feed in the branches in front of a label. -/
theorem feed_notMem_indentation (path : List Bool) : '\n' ∉ (indentation path).toList := by
  have hbranch : ∀ last, '\n' ∉ (branch last).toList := by decide
  have htrunk : ∀ last, '\n' ∉ (trunk last).toList := by decide
  fun_induction indentation path with
  | case1 => decide
  | case2 last => exact hbranch last
  | case3 last path hne ih => simp [htrunk last, ih]

/-- There is no line feed in the label of any node. -/
theorem feed_notMem_preorder (h : e.ProperlyNamed) :
    ∀ node ∈ e.preorder, '\n' ∉ node.2.label.toList := by
  have hhang : ∀ {e : Expr} (last : Bool), (∀ node ∈ e.preorder, '\n' ∉ node.2.label.toList) →
      ∀ node ∈ e.preorder.map (hang last), '\n' ∉ node.2.label.toList := by
    intro e last hnodes
    exact List.forall_mem_map.mpr hnodes
  have hroot := feed_notMem_label h
  induction e with
  | literal => exact List.forall_mem_singleton.mpr hroot
  | var => exact List.forall_mem_singleton.mpr hroot
  | prefixed op operand ih =>
    exact List.forall_mem_cons.mpr ⟨hroot, hhang true (ih h.2 (feed_notMem_label h.2))⟩
  | postfixed operand op ih =>
    exact List.forall_mem_cons.mpr ⟨hroot, hhang true (ih h (feed_notMem_label h))⟩
  | binary op left right hl hr =>
    have hleft := hhang false (hl h.1 (feed_notMem_label h.1))
    have hright := hhang true (hr h.2 (feed_notMem_label h.2))
    exact List.forall_mem_cons.mpr ⟨hroot, List.forall_mem_append.mpr ⟨hleft, hright⟩⟩

/-- Lines that are each ended by a line feed are the pieces of their text. -/
theorem pieces_ended {lines : List String} (h : ∀ line ∈ lines, '\n' ∉ line.toList) :
    Text.pieces (String.join (lines.map (· ++ "\n"))).toList = lines.map String.toList ++ [[]] := by
  induction lines with
  | nil => rfl
  | cons line lines ih =>
    obtain ⟨hline, hlines⟩ := List.forall_mem_cons.mp h
    have htext : (String.join ((line :: lines).map (· ++ "\n"))).toList =
        line.toList ++ '\n' :: (String.join (lines.map (· ++ "\n"))).toList := by
      simp
    rw [htext, Text.pieces_append_feed, Text.pieces_eq_singleton hline, ih hlines]
    rfl

/-- The lines of the outline are cut at its line feeds. -/
theorem pieces_outline (h : e.ProperlyNamed) :
    Text.pieces e.outline.toList = e.outlineLines.map String.toList ++ [[]] := by
  refine pieces_ended fun text hmem => ?_
  rw [outlineLines_eq_map] at hmem
  obtain ⟨node, hnode, rfl⟩ := List.mem_map.mp hmem
  simp [line, feed_notMem_indentation, feed_notMem_preorder h node hnode]

/-- Below the line of a node stand the lines of the outline of its subtrees, set in. -/
theorem branchLines_eq_cons (indent : String) (last : Bool) (e : Expr) :
    branchLines indent last e = (indent ++ branch last ++ e.label) ::
      e.childLines.map (indent ++ trunk last ++ ·) := by
  cases e <;> simp [branchLines, childLines, branchLines_eq_map, String.append_assoc,
    Function.comp_def]

/-- The first line of a subtree tells its root. -/
theorem sameRoot_of_branchLines {indent : String} {last : Bool} {rest others : List String}
    (h : branchLines indent last e ++ rest = branchLines indent last f ++ others) :
    SameRoot e f := by
  rw [branchLines_eq_cons, branchLines_eq_cons] at h
  exact sameRoot_of_label ((String.append_right_inj _).mp (List.cons.inj h).1)

/-- The lines of a subtree tell the subtree and where they end. -/
theorem branchLines_append_injective {indent : String} {last : Bool} {rest others : List String}
    (h : branchLines indent last e ++ rest = branchLines indent last f ++ others) :
    e = f ∧ rest = others := by
  induction e generalizing f indent last rest others with
  | literal value =>
    have hroot := sameRoot_of_branchLines h
    cases f with
    | literal other => exact ⟨congrArg literal hroot, (List.cons.inj h).2⟩
    | _ => cases hroot
  | var name =>
    have hroot := sameRoot_of_branchLines h
    cases f with
    | var other => exact ⟨congrArg var hroot, (List.cons.inj h).2⟩
    | _ => cases hroot
  | prefixed op operand ih =>
    have hroot := sameRoot_of_branchLines h
    cases f with
    | prefixed other _ =>
      obtain ⟨rfl, rfl⟩ := ih (List.cons.inj h).2
      exact ⟨congrArg (prefixed · operand) hroot, rfl⟩
    | _ => cases hroot
  | postfixed operand op ih =>
    have hroot := sameRoot_of_branchLines h
    cases f with
    | postfixed _ other =>
      obtain ⟨rfl, rfl⟩ := ih (List.cons.inj h).2
      exact ⟨congrArg (postfixed operand) hroot, rfl⟩
    | _ => cases hroot
  | binary op left right hl hr =>
    have hroot := sameRoot_of_branchLines h
    cases f with
    | binary other _ _ =>
      have hlines := (List.cons.inj h).2
      rw [List.append_eq, List.append_eq, List.append_assoc, List.append_assoc] at hlines
      obtain ⟨rfl, hbehind⟩ := hl hlines
      obtain ⟨rfl, rfl⟩ := hr hbehind
      exact ⟨congrArg (binary · left right) hroot, rfl⟩
    | _ => cases hroot

/-- No two trees with proper names have the same outline. -/
theorem eq_of_outline (he : e.ProperlyNamed) (hf : f.ProperlyNamed) (h : f.outline = e.outline) :
    f = e := by
  have hpieces := congrArg (fun text => Text.pieces text.toList) h
  simp only [pieces_outline he, pieces_outline hf] at hpieces
  have hlines : f.outlineLines = e.outlineLines :=
    List.map_injective_iff.mpr (fun _ _ => String.toList_inj.mp) (List.append_cancel_right hpieces)
  obtain ⟨hlabel, hchildren⟩ := List.cons.inj hlines
  have hbranches : branchLines "" true f ++ [] = branchLines "" true e ++ [] := by
    rw [branchLines_eq_cons, branchLines_eq_cons, hlabel, hchildren]
  exact (branchLines_append_injective hbranches).1

end Expr

/-- The outline of a tree whose variables are letters and whose functions have names is a
drawing of it. It is cut by its line feeds into one line for each node and nothing behind
the last line. The lines are those of the nodes in the order of their addresses, with the
branches on the way to the node in front of its label; they are set in by four columns for
each branch, so that the greatest indentation is had at the greatest depth. And the tree
can be told from its outline: all not-a-number values count as one value here. -/
theorem outline_draws_tree {e : Expr} (hnames : e.ProperlyNamed) :
    Text.pieces e.outline.toList = e.preorder.map (fun node =>
      (Expr.indentation node.1 ++ node.2.label).toList) ++ [[]] ∧
    e.preorder.length = e.nodeCount ∧
    (∀ path node, (path, node) ∈ e.preorder ↔ e.subtree? path = some node) ∧
    (e.preorder.Pairwise fun above below => above.1 < below.1) ∧
    IsGreatest {width | ∃ node ∈ e.preorder, (Expr.indentation node.1).length = width}
      (4 * (e.depth - 1)) ∧
    ∀ other : Expr, other.ProperlyNamed → other.outline = e.outline → other = e := by
  refine ⟨?_, e.length_preorder, fun path node => Expr.mem_preorder_iff, e.pairwise_preorder,
    e.isGreatest_indentation, fun other hother => Expr.eq_of_outline hnames hother⟩
  rw [Expr.pieces_outline hnames, Expr.outlineLines_eq_map, List.map_map]
  rfl

/-- The lines of a difference of which one operand is a power, and the only tree that has
them. -/
theorem outline_draws_tree_difference :
    let e : Expr := .binary .sub (.binary .pow (.var 'x') (.literal (.integer 2)))
      (.prefixed (.apply "sin") (.var 'y'))
    e.ProperlyNamed ∧
    Text.pieces e.outline.toList = ["Binary -".toList, "├── Binary ^".toList,
      "│   ├── Variable x".toList, "│   └── Integer 2".toList, "└── Apply sin".toList,
      "    └── Variable y".toList, []] ∧
    ∀ other : Expr, other.ProperlyNamed → other.outline = e.outline → other = e := by
  intro e
  have hsine : PrefixOp.ProperlyNamed (.apply "sin") := by decide
  have hnames : e.ProperlyNamed := ⟨⟨rfl, trivial⟩, hsine, rfl⟩
  obtain ⟨hlines, -, -, -, -, hinjective⟩ := outline_draws_tree hnames
  refine ⟨hnames, ?_, hinjective⟩
  rw [hlines]
  decide +kernel

end Formula
