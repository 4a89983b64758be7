import Mathlib.Data.List.Chain
import Mathlib.Data.List.Perm.Basic
import PodLoom.Proofs.Pod.Slices

set_option autoImplicit false

/-!
# Codes in a paragraph and on their own

What a code holds is read as it would be if it were a paragraph of its own: the brackets
around it decide where it ends, and nothing else (`contentEnd`).  So a paragraph can be
read from the outside in.  Its nodes are a level (`Level`): runs of text and codes, of which
only the last may be unclosed, and whose contents are levels again.

A level printed is the text it was read from, so nothing is lost at any depth, and an
unclosed code reaches to the end of the paragraph (`parse_lossless`).  What a code holds is the
same whether it is printed or cut out of the paragraph.
-/

namespace PodLoom.Pod

open Text CodeUnit

open Inline

/-! ## Where a code ends -/

/-- How reading goes on from a point inside the codes `inner`, which are in the code `c`,
which is in the codes `outer`.  Either a closing delimiter of `c` follows, and what stands
before it is read as if `c` did not exist, or everything that follows is read so. -/
inductive ContentEnd (inner : List OpenCode) (c : OpenCode) (outer : List OpenCode)
    (nodes : List Inline) (run : Text) (line : Int) (t : Text) : Prop
  | closed (s padding rest : Text) (after : Int)
      (text : t = s ++ (padding ++ List.replicate (c.extra + 1) greater ++ rest))
      (padded : PaddedBy c.extra padding)
      (read : readNodes (inner ++ c :: outer) nodes run line t
        = readNodes outer
            (c.node (some padding) (readNodes inner nodes run line s).reverse :: c.before) []
            after rest)
      (unbroken : Unbroken inner nodes → allErrata (readNodes inner nodes run line s) = [])
  | unclosed
      (read : readNodes (inner ++ c :: outer) nodes run line t
        = endCodes outer (c.node none (readNodes inner nodes run line t).reverse :: c.before))

/-- A step of the reader that would be made without `c` and the codes around it too, however
short the text after it were, leaves the end of `c` where it is. -/
theorem ContentEnd.step {inner inner' : List OpenCode} {c : OpenCode} {outer : List OpenCode}
    {nodes nodes' : List Inline} {run run' : Text} {line line' : Int} {t' : Text} (taken : Text)
    (hread : readNodes (inner ++ c :: outer) nodes run line (taken ++ t')
      = readNodes (inner' ++ c :: outer) nodes' run' line' t')
    (halone : ∀ s, s <+: t' →
      readNodes inner nodes run line (taken ++ s) = readNodes inner' nodes' run' line' s)
    (hunbroken : Unbroken inner nodes → Unbroken inner' nodes')
    (h : ContentEnd inner' c outer nodes' run' line' t') :
    ContentEnd inner c outer nodes run line (taken ++ t') := by
  cases h with
  | closed s padding rest after text padded read unbroken =>
    have hs := halone s ⟨_, text.symm⟩
    refine .closed (taken ++ s) padding rest after ?_ padded ?_ ?_
    · rw [text, ← List.append_assoc taken]
    · rw [hread, hs, read]
    · rw [hs]
      exact fun h => unbroken (hunbroken h)
  | unclosed read =>
    refine .unclosed ?_
    rw [hread, halone t' (List.prefix_refl _), read]

/-- A code ends at the first closing delimiter of its own that stands outside the codes in
it, or with the paragraph. -/
theorem contentEnd (inner : List OpenCode) (c : OpenCode) (outer : List OpenCode)
    (nodes : List Inline) (run : Text) (line : Int) (t : Text) :
    ContentEnd inner c outer nodes run line t := by
  generalize hstack : inner ++ c :: outer = stack
  fun_induction readNodes stack nodes run line t generalizing inner with
  | case1 stack nodes run line t h =>
    obtain rfl : t = [] := Front.Found.of_eq h
    subst hstack
    refine .unclosed ?_
    rw [readNodes_nil, readNodes_nil, endCodes_append]
  | case2 stack nodes run line t d below padding rest h ih =>
    obtain ⟨rfl, hclosing⟩ := Front.Found.of_eq h
    obtain ⟨htext, hpadded⟩ := closing?_eq_some_iff.1 hclosing
    cases inner with
    | nil =>
      -- the code that closes is `c`
      obtain ⟨rfl, rfl⟩ := List.cons.inj hstack
      refine .closed [] padding rest line htext hpadded ?_ ?_
      · rw [List.nil_append, readNodes_closing _ _ _ _ hclosing, readNodes_nil, endCodes,
          List.reverse_reverse]
      · rintro ⟨-, hnodes⟩
        rw [readNodes_nil, endCodes, allErrata_reverse_eq_nil_iff, allErrata_pushText, hnodes]
    | cons d' inner =>
      obtain ⟨rfl, rfl⟩ := List.cons.inj hstack
      have hnext := ih inner rfl
      subst htext
      refine ContentEnd.step _ (readNodes_closing _ _ _ _ hclosing) (fun s _ => ?_) ?_ hnext
      · exact readNodes_closing _ _ _ _ (closing?_eq_some_iff.2 ⟨rfl, hpadded⟩)
      · exact fun hunbroken => hunbroken.closing padding run
  | case3 stack nodes run line t o h ih =>
    subst hstack
    have hshut : Shut (inner ++ c :: outer) t := shut_of_front (by simp [h])
    have hopening := Front.Found.of_eq h
    have hnext := ih (⟨o.letter, o.extra, o.padding, line, pushText run nodes⟩ :: inner) rfl
    obtain rfl := opening?_eq_some hopening
    refine ContentEnd.step (o.letter :: (List.replicate (o.extra + 1) less ++ o.padding))
      (readNodes_opening _ _ _ _ hshut hopening) (fun s hs => ?_) ?_ hnext
    · have hcut := (List.prefix_append_right_inj
        (o.letter :: (List.replicate (o.extra + 1) less ++ o.padding))).2 hs
      exact readNodes_opening _ _ _ _ (hshut.inner.of_cut hcut) (opening?_of_cut hopening hs)
    · exact fun hunbroken => hunbroken.opening rfl
  | case4 stack nodes run line t u rest h ih =>
    subst hstack
    have hshut : Shut (inner ++ c :: outer) t := shut_of_front (by simp [h])
    have hopening := opening?_of_front_unit h
    obtain rfl : t = u :: rest := Front.Found.of_eq h
    refine ContentEnd.step [u] (readNodes_unit _ _ _ _ hshut hopening) (fun s hs => ?_) id
      (ih inner rfl)
    have hcut := (List.prefix_append_right_inj [u]).2 hs
    exact readNodes_unit _ _ _ _ (hshut.inner.of_cut hcut) (opening?_eq_none_of_cut hs hopening)

/-! ## The levels of a paragraph -/

namespace Inline

/-- A code reads as a paragraph of its own would, and its delimiters are what a capital
letter and its brackets call for. -/
structure ReadAlone (letter : CodeUnit) (delimiter : Delimiter) (children : List Inline)
    (line : Int) : Prop where
  upper : letter.isUpper = true
  proper : delimiter.Proper
  alone : children = parse (line + delimiter.opening.countLines) (sources children)

/-- The nodes of one level of a paragraph: runs of text and codes, no run empty or next to
another, and only the last code unclosed, if any is. -/
inductive Level : List Inline → Prop
  | nil : Level []
  | text {run : Text} {nodes : List Inline} (filled : run ≠ [])
      (apart : ∀ next, nodes.head? ≠ some (.text next)) (rest : Level nodes) :
      Level (.text run :: nodes)
  | closed {letter : CodeUnit} {extra : Nat} {opening closing : Text} {children : List Inline}
      {line : Int} {nodes : List Inline}
      (read : ReadAlone letter ⟨extra, opening, some closing⟩ children line)
      (unbroken : allErrata children = []) (rest : Level nodes) :
      Level (.code letter ⟨extra, opening, some closing⟩ children line :: nodes)
  | unclosed {letter : CodeUnit} {extra : Nat} {opening : Text} {children : List Inline}
      {line : Int} (read : ReadAlone letter ⟨extra, opening, none⟩ children line) :
      Level [.code letter ⟨extra, opening, none⟩ children line]

theorem reverse_pushText (run : Text) (nodes : List Inline) :
    (pushText run nodes).reverse = nodes.reverse ++ pushText run [] := by
  unfold pushText
  split <;> simp

theorem Level.pushText {nodes : List Inline} (h : Level nodes)
    (hcode : ∀ next, nodes.head? ≠ some (.text next)) (run : Text) :
    Level (Pod.pushText run [] ++ nodes) := by
  unfold Pod.pushText
  split
  · exact h
  · rename_i hrun
    exact .text (by simpa using hrun) hcode h

theorem ReadAlone.of_parse {letter : CodeUnit} {delimiter : Delimiter} {line : Int} (t : Text)
    (upper : letter.isUpper = true) (proper : delimiter.Proper) :
    ReadAlone letter delimiter (parse (line + delimiter.opening.countLines) t) line :=
  ⟨upper, proper, by rw [sources_parse]⟩

/-- Where a code opens on the outermost level, one node comes of it.  Reading goes on behind
it, or ends with it. -/
theorem exists_code_readNodes (nodes : List Inline) (run : Text) (line : Int) {t : Text}
    {o : Opening} (h : opening? t = some o) :
    ∃ node : Inline, (∀ next, node ≠ .text next)
      ∧ ((∃ after rest, rest.length < t.length ∧ (∀ later, Level later → Level (node :: later))
            ∧ readNodes [] nodes run line t
              = readNodes [] (node :: pushText run nodes) [] after rest)
        ∨ (Level [node] ∧ readNodes [] nodes run line t = (node :: pushText run nodes).reverse)) := by
  obtain ⟨-, hupper, hpadding, -⟩ := opening?_eq_some_iff.1 h
  rw [readNodes_opening _ _ _ _ (shut_nil t) h]
  rcases contentEnd [] ⟨o.letter, o.extra, o.padding, line, pushText run nodes⟩ [] [] []
    (line + o.padding.countLines) o.content with
    ⟨s, padding, rest, after, htext, hpadded, hread, hunbroken⟩ | ⟨hread⟩
  · have hlength := length_lt_of_opening h
    rw [htext] at hlength
    simp only [List.length_append] at hlength
    refine ⟨_, ?_, .inl ⟨after, rest, by omega, fun later hlater => ?_, hread⟩⟩
    · exact fun _ h => Inline.noConfusion h
    · rw [OpenCode.node, List.reverse_reverse]
      refine .closed (ReadAlone.of_parse s hupper ⟨hpadding, fun _ hclosing => ?_⟩)
        (hunbroken ⟨List.forall_mem_nil _, rfl⟩) hlater
      cases hclosing
      exact hpadded
  · refine ⟨_, ?_, .inr ⟨?_, hread⟩⟩
    · exact fun _ h => Inline.noConfusion h
    · rw [OpenCode.node, List.reverse_reverse]
      exact .unclosed (ReadAlone.of_parse o.content hupper ⟨hpadding, by simp⟩)

/-- What the reader adds to the nodes of the outermost level is a level. -/
theorem exists_level_readNodes (nodes : List Inline) (run : Text) (line : Int) (t : Text) :
    ∃ later, readNodes [] nodes run line t = nodes.reverse ++ later ∧ Level later := by
  cases hopening : opening? t with
  | some o =>
    obtain ⟨node, hcode, ⟨after, rest, hlength, hnode, hread⟩ | ⟨hnode, hread⟩⟩ :=
      exists_code_readNodes nodes run line hopening
    · obtain ⟨later, hlater, hlevel⟩ :=
        exists_level_readNodes (node :: pushText run nodes) [] after rest
      refine ⟨pushText run [] ++ (node :: later), ?_, (hnode later hlevel).pushText ?_ run⟩
      · rw [hread, hlater, List.reverse_cons, reverse_pushText, List.append_assoc,
          List.append_assoc, List.singleton_append]
      · exact fun next hnext => hcode next (Option.some.inj hnext)
    · refine ⟨pushText run [] ++ [node], ?_, hnode.pushText ?_ run⟩
      · rw [hread, List.reverse_cons, reverse_pushText, List.append_assoc]
      · exact fun next hnext => hcode next (Option.some.inj hnext)
  | none =>
    cases t with
    | nil =>
      refine ⟨pushText run [], ?_, ?_⟩
      · rw [readNodes_nil, endCodes, reverse_pushText]
      · simpa using Level.nil.pushText (by simp) run
    | cons u rest =>
      rw [readNodes_unit _ _ _ _ (shut_nil _) hopening]
      exact exists_level_readNodes nodes (u :: run) (line + countLines [u]) rest
termination_by t.length

theorem level_parse (line : Int) (t : Text) : Level (parse line t) := by
  obtain ⟨later, hread, hlevel⟩ := exists_level_readNodes [] [] line t
  rw [parse, hread]
  exact hlevel

/-! ## Lines -/

mutual

/-- A node with its lines counted from another first line. -/
def moved (d : Int) : Inline → Inline
  | .text content => .text content
  | .code letter delimiter children line =>
      .code letter delimiter (allMoved d children) (line + d)

/-- Nodes with their lines counted from another first line. -/
def allMoved (d : Int) : List Inline → List Inline
  | [] => []
  | node :: rest => moved d node :: allMoved d rest

end

variable (d : Int)

theorem allMoved_eq_map (nodes : List Inline) : allMoved d nodes = nodes.map (moved d) := by
  induction nodes with
  | nil => rfl
  | cons node rest ih => rw [allMoved, ih, List.map_cons]

theorem allMoved_reverse (nodes : List Inline) :
    allMoved d nodes.reverse = (allMoved d nodes).reverse := by
  simp [allMoved_eq_map]

theorem allMoved_pushText (run : Text) (nodes : List Inline) :
    pushText run (allMoved d nodes) = allMoved d (pushText run nodes) := by
  unfold pushText
  split <;> rfl

end Inline

/-- An open code with its lines counted from another first line. -/
def OpenCode.moved (d : Int) (c : OpenCode) : OpenCode :=
  { c with line := c.line + d, before := allMoved d c.before }

theorem OpenCode.node_moved (d : Int) (c : OpenCode) (closing : Option Text)
    (nodes : List Inline) :
    (c.moved d).node closing (allMoved d nodes) = (c.node closing nodes).moved d := by
  rw [OpenCode.node, OpenCode.node, Inline.moved, allMoved_reverse]
  rfl

theorem Shut.moved {stack : List OpenCode} {t : Text} (h : Shut stack t) (d : Int) :
    Shut (stack.map (OpenCode.moved d)) t := by
  cases stack with
  | nil => exact shut_nil t
  | cons c outer =>
    intro c' hc'
    cases hc'
    exact h c rfl

theorem endCodes_moved (d : Int) (stack : List OpenCode) (nodes : List Inline) :
    endCodes (stack.map (OpenCode.moved d)) (allMoved d nodes) = allMoved d (endCodes stack nodes) := by
  induction stack generalizing nodes with
  | nil => exact (allMoved_reverse d nodes).symm
  | cons c stack ih =>
    rw [List.map_cons, endCodes, endCodes, ← ih, OpenCode.node_moved]
    rfl

/-- The first line of a paragraph has no part in reading it. -/
theorem readNodes_moved (d : Int) (stack : List OpenCode) (nodes : List Inline) (run : Text)
    (line : Int) (t : Text) :
    readNodes (stack.map (OpenCode.moved d)) (allMoved d nodes) run (line + d) t
      = allMoved d (readNodes stack nodes run line t) := by
  fun_induction readNodes stack nodes run line t with
  | case1 stack nodes run line t h =>
    obtain rfl : t = [] := Front.Found.of_eq h
    rw [readNodes_nil, allMoved_pushText, endCodes_moved]
  | case2 stack nodes run line t c outer padding rest h ih =>
    obtain ⟨rfl, hclosing⟩ := Front.Found.of_eq h
    rw [List.map_cons, readNodes_closing (c := c.moved d) _ _ _ _ hclosing, ← ih, allMoved_pushText,
      OpenCode.node_moved]
    rfl
  | case3 stack nodes run line t o h ih =>
    have hshut : Shut stack t := shut_of_front (by simp [h])
    rw [readNodes_opening _ _ _ _ (hshut.moved d) (Front.Found.of_eq h), ← ih, allMoved_pushText,
      Int.add_right_comm]
    rfl
  | case4 stack nodes run line t u rest h ih =>
    have hshut : Shut stack t := shut_of_front (by simp [h])
    have hopening := opening?_of_front_unit h
    obtain rfl : t = u :: rest := Front.Found.of_eq h
    rw [readNodes_unit _ _ _ _ (hshut.moved d) hopening, ← ih, Int.add_right_comm]

namespace Inline

theorem parse_moved (d line : Int) (t : Text) : parse (line + d) t = allMoved d (parse line t) :=
  readNodes_moved d [] [] [] line t

/-! ## Codes at every depth -/

/-- A code of a paragraph, with the text of the paragraph behind it. -/
structure Occurrence where
  letter : CodeUnit
  delimiter : Delimiter
  children : List Inline
  line : Int
  after : Text
  deriving Repr

namespace Occurrence

/-- The node of the code. -/
def node (c : Occurrence) : Inline := .code c.letter c.delimiter c.children c.line

/-- What stands between the delimiters of the code. -/
def raw (c : Occurrence) : Text := sources c.children

/-- The line its content starts on. -/
def contentLine (c : Occurrence) : Int := c.line + c.delimiter.opening.countLines

/-- Nothing closes the code. -/
def isOpen (c : Occurrence) : Bool := c.delimiter.closing.isNone

/-- The report that nothing closes the code, on the line of the code. -/
def report (c : Occurrence) : Erratum := unterminated c.letter c.delimiter.count c.line

end Occurrence

mutual

/-- The codes of a node at every depth, outer ones first, where `after` stands behind it. -/
def occurrences (after : Text) : Inline → List Occurrence
  | .text _ => []
  | .code letter delimiter children line =>
      ⟨letter, delimiter, children, line, after⟩
        :: allOccurrences (delimiter.back ++ after) children

/-- The codes of a sequence of nodes at every depth, where `after` stands behind it. -/
def allOccurrences (after : Text) : List Inline → List Occurrence
  | [] => []
  | node :: rest => occurrences (sources rest ++ after) node ++ allOccurrences after rest

end

mutual

theorem perm_errata (after : Text) :
    (node : Inline) →
      (errata node).Perm (((occurrences after node).filter (·.isOpen)).map Occurrence.report)
  | .text _ => .nil
  | .code letter delimiter children line => by
      have hinner := perm_allErrata (delimiter.back ++ after) children
      rw [errata, occurrences]
      cases h : delimiter.closing with
      | none =>
        have hopen : Occurrence.isOpen ⟨letter, delimiter, children, line, after⟩ = true := by
          rw [Occurrence.isOpen, h]
          rfl
        rw [List.filter_cons_of_pos hopen, List.map_cons]
        exact (List.perm_append_singleton _ _).trans (hinner.cons _)
      | some padding =>
        have hclosed : ¬ Occurrence.isOpen ⟨letter, delimiter, children, line, after⟩ = true := by
          rw [Occurrence.isOpen, h]
          exact Bool.false_ne_true
        rw [List.filter_cons_of_neg hclosed]
        exact (List.append_nil _).symm ▸ hinner

/-- There is one error for each code that nothing closes, and it tells that code. -/
theorem perm_allErrata (after : Text) :
    (nodes : List Inline) →
      (allErrata nodes).Perm
        (((allOccurrences after nodes).filter (·.isOpen)).map Occurrence.report)
  | [] => .nil
  | node :: rest => by
      rw [allErrata, allOccurrences, List.filter_append, List.map_append]
      exact (perm_errata (sources rest ++ after) node).append (perm_allErrata after rest)

end

theorem length_allErrata (after : Text) (nodes : List Inline) :
    (allErrata nodes).length = (allOccurrences after nodes).countP (·.isOpen) := by
  rw [(perm_allErrata after nodes).length_eq, List.length_map, List.countP_eq_length_filter]

mutual

theorem suffix_of_mem_occurrences {after : Text} {c : Occurrence} :
    (node : Inline) → c ∈ occurrences after node → c.node.source ++ c.after <:+ node.source ++ after
  | .text _, h => by cases h
  | .code letter delimiter children line, h => by
      rw [occurrences, List.mem_cons] at h
      rcases h with rfl | h
      · exact List.suffix_refl _
      · refine (suffix_of_mem_allOccurrences children h).trans ⟨letter :: delimiter.front, ?_⟩
        simp [source]

/-- A code stands in the text it comes from, and the text behind it follows. -/
theorem suffix_of_mem_allOccurrences {after : Text} {c : Occurrence} :
    (nodes : List Inline) → c ∈ allOccurrences after nodes →
      c.node.source ++ c.after <:+ sources nodes ++ after
  | [], h => by cases h
  | node :: rest, h => by
      rw [allOccurrences, List.mem_append] at h
      rw [sources, List.append_assoc]
      rcases h with h | h
      · exact suffix_of_mem_occurrences node h
      · exact (suffix_of_mem_allOccurrences rest h).trans (List.suffix_append _ _)

end

theorem ReadAlone.level {letter : CodeUnit} {delimiter : Delimiter} {children : List Inline}
    {line : Int} (h : ReadAlone letter delimiter children line) : Level children := by
  rw [h.alone]
  exact level_parse ..

/-- Every code of a level, at every depth, reads alone, and if nothing closes it then nothing
stands behind it. -/
theorem Level.readAlone {nodes : List Inline} (h : Level nodes) {after : Text}
    (hafter : allErrata nodes ≠ [] → after = []) {c : Occurrence}
    (hc : c ∈ allOccurrences after nodes) :
    ReadAlone c.letter c.delimiter c.children c.line ∧ (c.isOpen = true → c.after = []) := by
  match nodes, h with
  | _, .nil => cases hc
  | _, .text filled apart rest => exact rest.readAlone hafter hc
  | _, .closed read unbroken rest =>
    rw [allOccurrences, occurrences, List.cons_append, List.mem_cons, List.mem_append] at hc
    rcases hc with rfl | hc | hc
    · exact ⟨read, nofun⟩
    · exact read.level.readAlone (fun h => absurd unbroken h) hc
    · refine rest.readAlone (fun h => hafter ?_) hc
      rw [allErrata, errata, unbroken]
      exact h
  | _, .unclosed read =>
    have hend : after = [] := hafter (by simp [allErrata, errata])
    subst hend
    rw [allOccurrences, occurrences, List.cons_append, List.mem_cons, List.mem_append] at hc
    rcases hc with rfl | hc | hc
    · exact ⟨read, fun _ => rfl⟩
    · exact read.level.readAlone (fun _ => rfl) hc
    · cases hc
termination_by sizeOf nodes

/-- A node is a run of text. -/
def isText : Inline → Bool
  | .text _ => true
  | .code .. => false

/-- No run of text is empty, and none stands next to another. -/
def Separate (nodes : List Inline) : Prop :=
  .text [] ∉ nodes ∧ nodes.IsChain fun node next => ¬(node.isText ∧ next.isText)

theorem Level.separate {nodes : List Inline} (h : Level nodes) : Separate nodes := by
  induction h with
  | nil => exact ⟨List.not_mem_nil, .nil⟩
  | @text run nodes filled apart rest ih =>
    refine ⟨?_, ?_⟩
    · rw [List.mem_cons, Inline.text.injEq]
      exact not_or.2 ⟨fun h => filled h.symm, ih.1⟩
    · refine List.isChain_cons.2 ⟨fun next hnext htext => ?_, ih.2⟩
      cases next with
      | text content => exact apart content hnext
      | code => exact absurd htext.2 Bool.false_ne_true
  | closed read unbroken rest ih =>
    refine ⟨?_, List.isChain_cons.2 ⟨fun _ _ h => absurd h.1 Bool.false_ne_true, ih.2⟩⟩
    rw [List.mem_cons]
    exact not_or.2 ⟨nofun, ih.1⟩
  | unclosed read => exact ⟨by simp, .singleton _⟩

/-- Reading a paragraph loses nothing and treats every code in it as a paragraph of its own.
The nodes printed are the text.  Every code at every depth has a capital letter, the white
space that its brackets call for, and a closing delimiter unless the paragraph ends with it,
and what stands between its delimiters, read on its own from any line, gives its children with
their lines moved.  That is what a reader that counts positions cuts out of the text.  On every
level no run of text is empty or next to another.  There is one error for each code that nothing
closes, and such a reader reports it. -/
theorem parse_lossless (line : Int) (t : Text) :
    sources (parse line t) = t
      ∧ Separate (parse line t)
      ∧ (∀ c ∈ allOccurrences [] (parse line t),
          c.node.source ++ c.after <:+ t
            ∧ c.letter.isUpper = true ∧ c.delimiter.Proper ∧ (c.isOpen = true → c.after = [])
            ∧ (∀ first : Int, parse first c.raw = allMoved (first - c.contentLine) c.children)
            ∧ Separate c.children)
      ∧ cut line t = (allSliced (parse line t), allErrata (parse line t))
      ∧ (allErrata (parse line t)).length
          = (allOccurrences [] (parse line t)).countP (·.isOpen) := by
  refine ⟨sources_parse line t, (level_parse line t).separate, fun c hc => ?_, cut_eq line t,
    length_allErrata [] _⟩
  obtain ⟨hread, hend⟩ := (level_parse line t).readAlone (fun _ => rfl) hc
  have hsuffix := suffix_of_mem_allOccurrences _ hc
  rw [sources_parse, List.append_nil] at hsuffix
  refine ⟨hsuffix, hread.upper, hread.proper, hend, fun first => ?_, hread.level.separate⟩
  have hfirst : first = c.contentLine + (first - c.contentLine) := by omega
  calc parse first c.raw
      = parse (c.contentLine + (first - c.contentLine)) c.raw := congrArg (parse · _) hfirst
    _ = allMoved (first - c.contentLine) (parse c.contentLine c.raw) := parse_moved ..
    _ = allMoved (first - c.contentLine) c.children := by
      rw [Occurrence.raw, Occurrence.contentLine, ← hread.alone]

end Inline

end PodLoom.Pod
