import TinyC.Proofs.Grouping
import TinyC.Proofs.Text.Quoted
import TinyC.Proofs.Tree.Outline

namespace TinyC

theorem Numeral.decimal_inj {first second : Int} (h : decimal first = decimal second) :
    first = second := by
  have hchars : decimalChars first = decimalChars second := String.ofList_injective h
  have hread := ofDecimal?_decimalChars first
  rw [hchars, ofDecimal?_decimalChars second] at hread
  exact (Option.some.inj hread).symm

-- No newline divides the line.
def IsUnbroken (line : String) : Prop := '\n' ∉ line.toList

instance (line : String) : Decidable (IsUnbroken line) := inferInstanceAs (Decidable (_ ∉ _))

theorem IsUnbroken.append {first second : String} (hfirst : IsUnbroken first)
    (hsecond : IsUnbroken second) : IsUnbroken (first ++ second) := by
  simp only [IsUnbroken, String.toList_append, List.mem_append, not_or]
  exact ⟨hfirst, hsecond⟩

theorem Numeral.isUnbroken_decimal (value : Int) : IsUnbroken (decimal value) := by
  intro hmem
  rw [decimal, String.toList_ofList] at hmem
  exact (isPlain_decimalChars value _ hmem).2.1 rfl

-- Lines can be told from their text.
theorem terminated_inj {first second : List String} (hfirst : first ≠ []) (hsecond : second ≠ [])
    (hunbroken : ∀ line ∈ first, IsUnbroken line) (hother : ∀ line ∈ second, IsUnbroken line)
    (h : terminated first = terminated second) : first = second := by
  have hlines := Processor.splitOn_newline_lines hfirst hunbroken
  rw [intercalate_newline hfirst, h, ← intercalate_newline hsecond,
    Processor.splitOn_newline_lines hsecond hother] at hlines
  have hchars := List.append_cancel_right hlines
  exact (List.map_injective_iff.mpr (fun _ _ => String.toList_injective) hchars).symm

namespace Outline

variable {name shown other : String}

theorem heading_inj {indent : Int} {label : String}
    (h : heading indent label = heading indent other) : label = other := by
  have hlabel := (String.append_left_inj _).mp h
  exact (String.append_right_inj _).mp hlabel

theorem valueLine_inj {indent : Int}
    (h : valueLine indent name shown = valueLine indent name other) : shown = other :=
  (String.append_right_inj _).mp h

theorem isUnbroken_indentation (indent : Int) : IsUnbroken (indentation indent) := by
  simp [IsUnbroken, indentation, List.mem_replicate]

theorem isUnbroken_heading (indent : Int) {label : String} (h : IsUnbroken label) :
    IsUnbroken (heading indent label) :=
  ((isUnbroken_indentation indent).append h).append (by decide)

theorem isUnbroken_childLine (indent : Int) (h : IsUnbroken name) :
    IsUnbroken (childLine indent name) :=
  (((isUnbroken_indentation indent).append (by decide)).append h).append (by decide)

theorem isUnbroken_valueLine (indent : Int) (h : IsUnbroken name) (hshown : IsUnbroken shown) :
    IsUnbroken (valueLine indent name shown) :=
  ((((isUnbroken_indentation indent).append (by decide)).append h).append (by decide)).append hshown

-- The lines of a node that has nothing but a tree below it.
theorem forall_isUnbroken_parent (indent : Int) {label : String} {below : List String}
    (hlabel : IsUnbroken label) (hname : IsUnbroken name)
    (hbelow : ∀ line ∈ below, IsUnbroken line) :
    ∀ line ∈ heading indent label :: childLine indent name :: below, IsUnbroken line := by
  simp only [List.forall_mem_cons]
  exact ⟨isUnbroken_heading indent hlabel, isUnbroken_childLine indent hname, hbelow⟩

end Outline

open Outline

-- No other node is called what the nodes of a tier are.
theorem Tier.label_ne {tier : Tier} {other : String}
    (h : other ≠ "AdditiveOp" ∧ other ≠ "MultiplicativeOp") : other ≠ tier.label := by
  cases tier
  · exact h.1
  · exact h.2

namespace Node

theorem isUnbroken_plainOutline (node : Node) (indent : Int) :
    ∀ line ∈ node.plainOutline indent, IsUnbroken line := by
  induction node generalizing indent with
  | bare place => exact List.forall_mem_singleton.mpr (isUnbroken_heading indent (by decide))
  | constant value place =>
    have hvalue := Numeral.isUnbroken_decimal value
    exact List.forall_mem_cons.mpr ⟨isUnbroken_heading indent (by decide),
      List.forall_mem_singleton.mpr (isUnbroken_valueLine indent (by decide) hvalue)⟩
  | unary op operand place ih =>
    have hop : IsUnbroken (Text.quoted op) := Text.newline_not_mem_quoted op
    simp only [plainOutline, List.forall_mem_cons]
    exact ⟨isUnbroken_heading indent (by decide), isUnbroken_valueLine indent (by decide) hop,
      isUnbroken_childLine indent (by decide), ih (indent + 2)⟩
  | group inner place ih =>
    exact forall_isUnbroken_parent indent (by decide) (by decide) (ih (indent + 2))
  | binary tier left op right place ihleft ihright =>
    have hlabel : IsUnbroken tier.label := by cases tier <;> decide
    have hop : IsUnbroken (Text.quoted op) := Text.newline_not_mem_quoted op
    simp only [plainOutline, List.forall_mem_cons, List.forall_mem_append]
    exact ⟨isUnbroken_heading indent hlabel, isUnbroken_childLine indent (by decide),
      ihleft (indent + 2), isUnbroken_valueLine indent (by decide) hop,
      isUnbroken_childLine indent (by decide), ihright (indent + 2)⟩
  | ret value place ih =>
    exact forall_isUnbroken_parent indent (by decide) (by decide) (ih (indent + 2))
  | function name body place ih =>
    have hname : IsUnbroken (Text.quotedOrNone name) := Text.newline_not_mem_quotedOrNone name
    simp only [plainOutline, List.forall_mem_cons]
    exact ⟨isUnbroken_heading indent (by decide), isUnbroken_valueLine indent (by decide) hname,
      isUnbroken_childLine indent (by decide), ih (indent + 2)⟩
  | program main place ih =>
    exact forall_isUnbroken_parent indent (by decide) (by decide) (ih (indent + 2))

-- An outline begins with the kind of its node.
theorem exists_plainOutline_eq_cons (node : Node) (indent : Int) :
    ∃ fields, node.plainOutline indent = heading indent node.label :: fields := by
  cases node <;> exact ⟨_, rfl⟩

theorem plainOutline_ne_nil (node : Node) (indent : Int) : node.plainOutline indent ≠ [] := by
  obtain ⟨fields, hfields⟩ := node.exists_plainOutline_eq_cons indent
  rw [hfields]
  exact List.cons_ne_nil _ _

section

variable {first second : Node} {indent : Int} {rest last : List String}

theorem label_eq_of_plainOutline_append
    (h : first.plainOutline indent ++ rest = second.plainOutline indent ++ last) :
    first.label = second.label := by
  obtain ⟨fields, hfields⟩ := first.exists_plainOutline_eq_cons indent
  obtain ⟨others, hothers⟩ := second.exists_plainOutline_eq_cons indent
  rw [hfields, hothers] at h
  exact heading_inj (List.cons.inj h).1

-- What an outline shows ends where the outline of the node does, whatever lines come behind: the
-- kind of a node says which fields follow, and so where each tree below it ends.
theorem unplaced_eq_of_plainOutline_append
    (h : first.plainOutline indent ++ rest = second.plainOutline indent ++ last) :
    first.unplaced = second.unplaced ∧ rest = last := by
  induction first generalizing second indent rest last with
  | bare place =>
    have hlabel := label_eq_of_plainOutline_append h
    cases second with
    | bare _ => exact ⟨rfl, List.append_cancel_left h⟩
    | _ => simp [label, Tier.label_ne] at hlabel
  | constant value place =>
    have hlabel := label_eq_of_plainOutline_append h
    cases second with
    | constant other _ =>
      simp only [plainOutline, List.cons_append, List.nil_append, List.cons.injEq, true_and] at h
      obtain ⟨hvalue, hrest⟩ := h
      obtain rfl := Numeral.decimal_inj (valueLine_inj hvalue)
      exact ⟨rfl, hrest⟩
    | _ => simp [label, Tier.label_ne] at hlabel
  | unary op operand place ih =>
    have hlabel := label_eq_of_plainOutline_append h
    cases second with
    | unary otherOp other _ =>
      simp only [plainOutline, List.cons_append, List.cons.injEq, true_and] at h
      obtain ⟨hop, hoperand⟩ := h
      obtain rfl := Text.quoted_inj (valueLine_inj hop)
      obtain ⟨hsame, hrest⟩ := ih hoperand
      exact ⟨by rw [unplaced, hsame, unplaced], hrest⟩
    | _ => simp [label, Tier.label_ne] at hlabel
  | group inner place ih =>
    have hlabel := label_eq_of_plainOutline_append h
    cases second with
    | group other _ =>
      simp only [plainOutline, List.cons_append, List.cons.injEq, true_and] at h
      obtain ⟨hsame, hrest⟩ := ih h
      exact ⟨by rw [unplaced, hsame, unplaced], hrest⟩
    | _ => simp [label, Tier.label_ne] at hlabel
  | binary tier left op right place ihleft ihright =>
    have hlabel := (label_eq_of_plainOutline_append h).symm
    cases second with
    | binary otherTier otherLeft otherOp otherRight _ =>
      have htier : tier = otherTier := by
        cases tier <;> cases otherTier <;> first | rfl | simp [label, Tier.label] at hlabel
      subst htier
      simp only [plainOutline, List.cons_append, List.append_assoc, List.cons.injEq,
        true_and] at h
      obtain ⟨hleft, hbehind⟩ := ihleft h
      obtain ⟨hop, hright⟩ := List.cons.inj hbehind
      obtain rfl := Text.quoted_inj (valueLine_inj hop)
      obtain ⟨hsame, hrest⟩ := ihright (List.cons.inj hright).2
      exact ⟨by rw [unplaced, hleft, hsame, unplaced], hrest⟩
    | _ => simp [label, Tier.label_ne] at hlabel
  | ret value place ih =>
    have hlabel := label_eq_of_plainOutline_append h
    cases second with
    | ret other _ =>
      simp only [plainOutline, List.cons_append, List.cons.injEq, true_and] at h
      obtain ⟨hsame, hrest⟩ := ih h
      exact ⟨by rw [unplaced, hsame, unplaced], hrest⟩
    | _ => simp [label, Tier.label_ne] at hlabel
  | function name body place ih =>
    have hlabel := label_eq_of_plainOutline_append h
    cases second with
    | function otherName other _ =>
      simp only [plainOutline, List.cons_append, List.cons.injEq, true_and] at h
      obtain ⟨hname, hbody⟩ := h
      obtain rfl := Text.quotedOrNone_inj (valueLine_inj hname)
      obtain ⟨hsame, hrest⟩ := ih hbody
      exact ⟨by rw [unplaced, hsame, unplaced], hrest⟩
    | _ => simp [label, Tier.label_ne] at hlabel
  | program main place ih =>
    have hlabel := label_eq_of_plainOutline_append h
    cases second with
    | program other _ =>
      simp only [plainOutline, List.cons_append, List.cons.injEq, true_and] at h
      obtain ⟨hsame, hrest⟩ := ih h
      exact ⟨by rw [unplaced, hsame, unplaced], hrest⟩
    | _ => simp [label, Tier.label_ne] at hlabel

end

theorem plainOutline_unplaced (node : Node) (indent : Int) :
    node.unplaced.plainOutline indent = node.plainOutline indent := by
  induction node generalizing indent with
  | unary op operand place ih => simp only [unplaced, plainOutline, ih]
  | group inner place ih => simp only [unplaced, plainOutline, ih]
  | binary tier left op right place ihleft ihright =>
    simp only [unplaced, plainOutline, ihleft, ihright]
  | ret value place ih => simp only [unplaced, plainOutline, ih]
  | function name body place ih => simp only [unplaced, plainOutline, ih]
  | program main place ih => simp only [unplaced, plainOutline, ih]
  | _ => rfl

-- The text of an outline tells its tree, whatever the tree and the indent are.
theorem plainOutlineText_eq_iff (first second : Node) (indent : Int) :
    first.plainOutlineText indent = second.plainOutlineText indent ↔ first.same second := by
  rw [same_iff]
  constructor
  · intro h
    have hlines : first.plainOutline indent = second.plainOutline indent :=
      terminated_inj (first.plainOutline_ne_nil indent) (second.plainOutline_ne_nil indent)
        (first.isUnbroken_plainOutline indent) (second.isUnbroken_plainOutline indent) h
    have hends : first.plainOutline indent ++ [] = second.plainOutline indent ++ [] := by
      rw [hlines]
    exact (unplaced_eq_of_plainOutline_append hends).1
  · intro h
    rw [plainOutlineText, ← plainOutline_unplaced, h, plainOutline_unplaced, plainOutlineText]

end Node

theorem hasWritableConstants_of_parseSource {source : String} {limit : Int} {log : Log}
    {tree : Node} (h : (parseSource source limit log).1 = .ok tree) :
    tree.HasWritableConstants := by
  obtain ⟨_, value, _, _, _, rfl, _, hvalue⟩ := shape_of_parseSource h
  exact hvalue.hasNarrowConstants.hasWritableConstants

-- The trees of two texts have outlines at every indent, which are printed unless the indent is out
-- of bounds. The outlines are equal just if the trees are, so that an outline tells its tree.
theorem outline_determines_tree {source last : String} {limit otherLimit : Int} {log other : Log}
    {tree found : Node} (htree : (parseSource source limit log).1 = .ok tree)
    (hfound : (parseSource last otherLimit other).1 = .ok found) (indent : Int) :
    ∃ text lastText,
      outline (.node tree) indent = .ok text ∧ outline (.node found) indent = .ok lastText ∧
      (indentFault? indent = none → outlineAt (.node tree) indent = .ok text ∧
        outlineAt (.node found) indent = .ok lastText) ∧
      (text = lastText ↔ tree.same found) := by
  have htext := (hasWritableConstants_of_parseSource htree).outline_eq indent
  have hlast := (hasWritableConstants_of_parseSource hfound).outline_eq indent
  refine ⟨_, _, htext, hlast, ?_, tree.plainOutlineText_eq_iff found indent⟩
  intro hindent
  rw [outlineAt, outlineAt, hindent, htext, hlast]
  exact ⟨rfl, rfl⟩

-- The tree of `int f(){return 0x1-2-3;}`, which differs in places only from that of a decimal one.
def hexadecimalDifference : Node :=
  returningOnLine (difference (difference (.constant 1 ⟨1, 16⟩) (.constant 2 ⟨1, 20⟩) 19)
    (.constant 3 ⟨1, 22⟩) 21)

-- An outline shows the parentheses about the first difference, and not how a number is spelled.
theorem outline_determines_tree_difference :
    (parseSource "int f(){return (1-2)-3;}" 1 .silent).1 = .ok leftGrouped ∧
      (parseSource "int f(){return 1-2-3;}" 0 .silent).1 = .ok neverGrouped ∧
      (parseSource "int f(){return 0x1-2-3;}" 0 .silent).1 = .ok hexadecimalDifference ∧
      ∃ text other, outlineAt (.node leftGrouped) 1 = .ok text ∧
        outlineAt (.node neverGrouped) 1 = .ok other ∧
        outlineAt (.node hexadecimalDifference) 1 = .ok other ∧ text ≠ other := by
  have hgrouped : (parseSource "int f(){return (1-2)-3;}" 1 .silent).1 = .ok leftGrouped := by
    decide +kernel
  have hnever : (parseSource "int f(){return 1-2-3;}" 0 .silent).1 = .ok neverGrouped := by
    decide +kernel
  have hhexadecimal : (parseSource "int f(){return 0x1-2-3;}" 0 .silent).1 =
      .ok hexadecimalDifference := by decide +kernel
  obtain ⟨text, other, _, hother, hprinted, hdiffer⟩ :=
    outline_determines_tree hgrouped hnever 1
  obtain ⟨found, last, hfound, _, hlast, hequal⟩ :=
    outline_determines_tree hnever hhexadecimal 1
  have hindent : indentFault? 1 = none := by decide
  obtain ⟨htext, hotherAt⟩ := hprinted hindent
  obtain ⟨_, hlastAt⟩ := hlast hindent
  obtain rfl : other = found := Except.ok.inj (hother.symm.trans hfound)
  obtain rfl : other = last := hequal.mpr (by decide)
  refine ⟨hgrouped, hnever, hhexadecimal, text, other, htext, hotherAt, hlastAt, ?_⟩
  intro heq
  have hsame : ¬ leftGrouped.same neverGrouped := by decide
  exact hsame (hdiffer.mp heq)

end TinyC
