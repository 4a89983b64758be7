import PodLoom.Pod.Escape
import PodLoom.Text.Lines

set_option autoImplicit false

/-!
# Formatting codes

The text of a paragraph is a sequence of plain runs and formatting codes.  A code
is a capital letter and a delimited content, and it is delimited in one of two
ways:

* `B<text>`, where the first unmatched `>` closes the code;
* `B<< text >>`, where white space and as many `>` as were opened close the code,
  and the brackets inside are text.

Codes nest to any depth.  A code that nothing closes runs to the end of the
paragraph and is an error, but a reported one: reading never fails.

`Inline.parse` reads a paragraph in one pass, with the open codes on a stack.
A node keeps its delimiters, so that nothing of the paragraph is lost:
`sources_parse` says that the nodes of a text, printed one after the other, are
the text.
-/

namespace PodLoom.Pod

open Text CodeUnit

/-- The delimiters of a code: the number of brackets beyond the first on each side,
the white space after the opening ones and the white space before the closing
ones, the last absent if the code is not closed. -/
structure Delimiter where
  extra : Nat
  opening : Text
  closing : Option Text
  deriving DecidableEq, Repr, Inhabited

/-- The number of brackets on each side. -/
def Delimiter.count (d : Delimiter) : Nat := d.extra + 1

/-- The brackets and white space before the content. -/
def Delimiter.front (d : Delimiter) : Text := List.replicate d.count less ++ d.opening

/-- The white space and brackets after the content. -/
def Delimiter.back (d : Delimiter) : Text :=
  match d.closing with
  | none => []
  | some padding => padding ++ List.replicate d.count greater

/-- A piece of a paragraph: a run of text, or a formatting code with the line its
letter stands on. -/
inductive Inline where
  | text (content : Text)
  | code (letter : CodeUnit) (delimiter : Delimiter) (children : List Inline) (line : Int)
  deriving Repr, Inhabited

/-- An error in the markup, and the line it is reported at. -/
structure Erratum where
  line : Int
  message : Text
  deriving DecidableEq, Repr, Inhabited

/-! ## Views of a paragraph's nodes -/

namespace Inline

mutual

/-- The source text of a node. -/
def source : Inline → Text
  | .text content => content
  | .code letter delimiter children _ =>
      letter :: (delimiter.front ++ sources children ++ delimiter.back)

/-- The source text of a sequence of nodes. -/
def sources : List Inline → Text
  | [] => []
  | node :: rest => source node ++ sources rest

end

mutual

/-- The content of a node with all formatting removed: escapes stand for their
characters, an unknown escape for itself, and index entries and zero-width codes
for nothing.  A link stands for its content. -/
def plain : Inline → Text
  | .text content => content
  | .code letter _ children _ =>
      if letter = 'X' ∨ letter = 'Z' then []
      else if letter = 'E' then
        let name := (plains children).trim
        (escapeText? name).getD (ofString "E<" ++ name ++ ofString ">")
      else plains children

/-- The content of a sequence of nodes with all formatting removed. -/
def plains : List Inline → Text
  | [] => []
  | node :: rest => plain node ++ plains rest

end

/-- The report of a code that nothing closes. -/
def unterminated (letter : CodeUnit) (count : Nat) (line : Int) : Erratum where
  line := line
  message :=
    ofString "Unterminated " ++ [letter] ++ List.replicate count less ++ ofString "..."
      ++ List.replicate count greater ++ ofString " sequence"

mutual

/-- The errors of a node, those of the content first. -/
def errata : Inline → List Erratum
  | .text _ => []
  | .code letter delimiter children line =>
      allErrata children
        ++ if delimiter.closing.isNone then [unterminated letter delimiter.count line] else []

/-- The errors of a sequence of nodes. -/
def allErrata : List Inline → List Erratum
  | [] => []
  | node :: rest => errata node ++ allErrata rest

end

theorem sources_append (s t : List Inline) : sources (s ++ t) = sources s ++ sources t := by
  induction s with
  | nil => simp [sources]
  | cons node rest ih => simp [sources, ih]

end Inline

/-! ## Delimiters in a text -/

/-- An opening delimiter and the text after it. -/
structure Opening where
  letter : CodeUnit
  extra : Nat
  padding : Text
  content : Text
  deriving DecidableEq, Repr, Inhabited

/-- The opening at the front of a text: a capital letter and a bracket.  Further
brackets belong to the delimiter only if white space follows them; otherwise they
are content. -/
def opening? : Text → Option Opening
  | letter :: bracket :: rest =>
      if letter.isUpper && bracket == less then
        let more := rest.takeWhile (· == less)
        let after := rest.dropWhile (· == less)
        if !more.isEmpty && after.head?.any CodeUnit.isBlank then
          some ⟨letter, more.length, (spanBlank after).1, (spanBlank after).2⟩
        else some ⟨letter, 0, [], rest⟩
      else none
  | _ => none

/-- The closing delimiter at the front of a text for a code opened with `extra`
brackets beyond the first: its white space and the text after it. -/
def closing? (extra : Nat) (t : Text) : Option (Text × Text) :=
  if extra = 0 then (afterFront? [greater] t).map ([], ·)
  else if t.spanBlank.1.isEmpty then none
  else (afterFront? (List.replicate (extra + 1) greater) t.spanBlank.2).map (t.spanBlank.1, ·)

theorem afterFront?_eq_some {front t rest : Text} (h : afterFront? front t = some rest) :
    t = front ++ rest := by
  simp only [afterFront?, Option.ite_none_right_eq_some, Option.some.injEq,
    List.isPrefixOf_iff_prefix] at h
  obtain ⟨⟨tail, rfl⟩, rfl⟩ := h
  simp

theorem spanBlank_append (t : Text) : t.spanBlank.1 ++ t.spanBlank.2 = t :=
  List.takeWhile_append_dropWhile

theorem eq_replicate_takeWhile (u : CodeUnit) (t : Text) :
    t.takeWhile (· == u) = List.replicate (t.takeWhile (· == u)).length u := by
  induction t with
  | nil => rfl
  | cons v rest ih =>
    by_cases h : v = u
    · subst h; simpa [List.takeWhile_cons, List.replicate_succ] using ih
    · simp [h]

/-- An opening delimiter is the front of the text it was found in. -/
theorem opening?_eq_some {t : Text} {o : Opening} (h : opening? t = some o) :
    t = o.letter :: (List.replicate (o.extra + 1) less ++ o.padding ++ o.content) := by
  unfold opening? at h
  split at h
  · rename_i letter bracket rest
    split at h
    · rename_i hb
      have hb : bracket = less := by
        rw [Bool.and_eq_true] at hb
        exact eq_of_beq hb.2
      subst hb
      dsimp only at h
      split at h
      · simp only [Option.some.injEq] at h
        subst h
        simp only [List.append_assoc, spanBlank_append, List.replicate_succ, List.cons_append]
        rw [← eq_replicate_takeWhile, List.takeWhile_append_dropWhile]
      · simp only [Option.some.injEq] at h
        subst h
        simp
    · simp at h
  · simp at h

/-- A closing delimiter is the front of the text it was found in. -/
theorem closing?_eq_some {extra : Nat} {t padding rest : Text}
    (h : closing? extra t = some (padding, rest)) :
    t = padding ++ List.replicate (extra + 1) greater ++ rest := by
  unfold closing? at h
  split at h
  · rename_i hc
    simp only [Option.map_eq_some_iff, Prod.mk.injEq] at h
    obtain ⟨a, ha, rfl, rfl⟩ := h
    simpa [hc] using afterFront?_eq_some ha
  · split at h
    · simp at h
    · simp only [Option.map_eq_some_iff, Prod.mk.injEq] at h
      obtain ⟨a, ha, rfl, rfl⟩ := h
      have := afterFront?_eq_some ha
      rw [List.append_assoc, ← this, spanBlank_append]

theorem length_lt_of_opening {t : Text} {o : Opening} (h : opening? t = some o) :
    o.content.length < t.length := by
  have := congrArg List.length (opening?_eq_some h)
  simp at this
  omega

theorem length_lt_of_closing {extra : Nat} {t padding rest : Text}
    (h : closing? extra t = some (padding, rest)) : rest.length < t.length := by
  have split := congrArg List.length (closing?_eq_some h)
  simp only [List.length_append, List.length_replicate] at split
  unfold closing? at h
  split at h
  · omega
  · split at h
    · simp at h
    · rename_i hne
      simp only [Option.map_eq_some_iff, Prod.mk.injEq] at h
      obtain ⟨_, _, rfl, rfl⟩ := h
      have : t.spanBlank.1.length ≠ 0 := by simpa using hne
      omega

/-! ## Reading -/

/-- A code whose closing delimiter has not been met, and the nodes before it on its
own level, last first. -/
structure OpenCode where
  letter : CodeUnit
  extra : Nat
  padding : Text
  line : Int
  before : List Inline
  deriving Repr, Inhabited

/-- The node of an open code, given its closing white space if it is closed and its
nodes, last first. -/
def OpenCode.node (c : OpenCode) (closing : Option Text) (nodes : List Inline) : Inline :=
  .code c.letter ⟨c.extra, c.padding, closing⟩ nodes.reverse c.line

/-- Put a run of text, last unit first, on nodes, last first. -/
def pushText (run : Text) (nodes : List Inline) : List Inline :=
  if run.isEmpty then nodes else .text run.reverse :: nodes

/-- End the paragraph: every open code ends, unclosed. -/
def endCodes : List OpenCode → List Inline → List Inline
  | [], nodes => nodes.reverse
  | c :: stack, nodes => endCodes stack (c.node none nodes :: c.before)

/-- What stands at a point of a paragraph. -/
inductive Front where
  /-- The paragraph ends. -/
  | finish
  /-- The innermost open code closes after the given white space. -/
  | closing (c : OpenCode) (outer : List OpenCode) (padding : Text) (rest : Text)
  /-- A code opens. -/
  | opening (o : Opening)
  /-- A unit of text. -/
  | unit (u : CodeUnit) (rest : Text)

/-- What stands at a point inside the codes of `stack`.  Closing comes before
opening, and both before text. -/
def front (stack : List OpenCode) (t : Text) : Front :=
  match t with
  | [] => .finish
  | u :: rest =>
      let closed := stack.head?.bind fun c => (closing? c.extra t).map fun (padding, after) =>
        Front.closing c stack.tail padding after
      closed.getD (((opening? t).map Front.opening).getD (.unit u rest))

/-- What each answer of `front` says about the stack and the text. -/
def Front.Found (stack : List OpenCode) (t : Text) : Front → Prop
  | .finish => t = []
  | .closing c outer padding rest => stack = c :: outer ∧ closing? c.extra t = some (padding, rest)
  | .opening o => opening? t = some o
  | .unit u rest => t = u :: rest

theorem front_found (stack : List OpenCode) (t : Text) : (front stack t).Found stack t := by
  cases t with
  | nil => rfl
  | cons u rest =>
    unfold front
    cases stack with
    | nil => cases ho : opening? (u :: rest) <;> simp [Front.Found, ho]
    | cons c outer =>
      cases hc : closing? c.extra (u :: rest) <;> cases ho : opening? (u :: rest) <;>
        simp [Front.Found, hc, ho]

theorem Front.Found.of_eq {stack : List OpenCode} {t : Text} {f : Front}
    (h : front stack t = f) : f.Found stack t := h ▸ front_found stack t

/-- Read on from a point of a paragraph: `stack` holds the open codes, `nodes` the
nodes of the innermost level and `run` the text read since, both last first.  The
line feeds in a closing delimiter are not counted. -/
def readNodes (stack : List OpenCode) (nodes : List Inline) (run : Text) (line : Int)
    (t : Text) : List Inline :=
  match _here : front stack t with
  | .finish => endCodes stack (pushText run nodes)
  | .closing c outer padding rest =>
      readNodes outer (c.node (some padding) (pushText run nodes) :: c.before) [] line rest
  | .opening o =>
      readNodes (⟨o.letter, o.extra, o.padding, line, pushText run nodes⟩ :: stack) [] []
        (line + o.padding.countLines) o.content
  | .unit u rest =>
      readNodes stack nodes (u :: run) (line + countLines [u]) rest
termination_by t.length
decreasing_by
  · exact length_lt_of_closing (Front.Found.of_eq _here).2
  · exact length_lt_of_opening (Front.Found.of_eq _here)
  · rw [show t = u :: rest from Front.Found.of_eq _here]; simp

/-- The nodes of a paragraph whose first line is `line`. -/
def Inline.parse (line : Int) (t : Text) : List Inline := readNodes [] [] [] line t

/-! ## Nothing is lost -/

/-- The source that open codes hold: for each, what precedes it on its level and
its opening delimiter. -/
def openSource : List OpenCode → Text
  | [] => []
  | c :: stack =>
      openSource stack ++ Inline.sources c.before.reverse
        ++ c.letter :: (List.replicate (c.extra + 1) less ++ c.padding)

theorem sources_pushText (run : Text) (nodes : List Inline) :
    Inline.sources (pushText run nodes).reverse = Inline.sources nodes.reverse ++ run.reverse := by
  unfold pushText
  split
  · simp_all
  · simp [Inline.sources_append, Inline.sources, Inline.source]

theorem sources_endCodes (stack : List OpenCode) (nodes : List Inline) :
    Inline.sources (endCodes stack nodes) = openSource stack ++ Inline.sources nodes.reverse := by
  induction stack generalizing nodes with
  | nil => simp [endCodes, openSource]
  | cons c stack ih =>
    rw [endCodes, ih, openSource]
    simp [Inline.sources_append, Inline.sources, OpenCode.node, Inline.source, Delimiter.front,
      Delimiter.back, Delimiter.count]

theorem sources_readNodes (stack : List OpenCode) (nodes : List Inline) (run : Text) (line : Int)
    (t : Text) :
    Inline.sources (readNodes stack nodes run line t)
      = openSource stack ++ Inline.sources nodes.reverse ++ run.reverse ++ t := by
  fun_induction readNodes stack nodes run line t with
  | case1 stack nodes run line t h =>
    rw [show t = [] from Front.Found.of_eq h]
    simp [sources_endCodes, sources_pushText]
  | case2 stack nodes run line t c outer padding rest h ih =>
    obtain ⟨hs, hc⟩ := Front.Found.of_eq h
    rw [ih, closing?_eq_some hc, hs, openSource]
    simp [Inline.sources_append, Inline.sources, OpenCode.node, Inline.source, Delimiter.front,
      Delimiter.back, Delimiter.count, sources_pushText]
  | case3 stack nodes run line t o h ih =>
    rw [ih, opening?_eq_some (Front.Found.of_eq h), openSource]
    simp [Inline.sources, sources_pushText]
  | case4 stack nodes run line t u rest h ih =>
    rw [ih, show t = u :: rest from Front.Found.of_eq h]
    simp

/-- The nodes of a paragraph, printed one after the other, are the paragraph. -/
theorem sources_parse (line : Int) (t : Text) : Inline.sources (Inline.parse line t) = t := by
  simp [Inline.parse, sources_readNodes, openSource, Inline.sources]

end PodLoom.Pod
