import PodLoom.Proofs.Pod.Reading
import PodLoom.Proofs.Text.Trimming

set_option autoImplicit false

/-!
# Contents cut out of a paragraph

What a code holds is handed on as it stands in the paragraph: not printed from the nodes, but
cut out by positions, from behind the opening delimiter to where the closing one starts.  That is
known only when the closing delimiter is read, so it is counted back from there: past its brackets
and, if there is more than one, past all white space before them.  A code that nothing closes holds
the rest of the paragraph, and is reported as the reader leaves it.

`Inline.cut` is a reader that does so.  What it cuts out is what the nodes print, and what it
reports is what is unclosed in the nodes (`cut_eq`).  The one thing that can go wrong is that
more white space is trimmed than the closing delimiter has.  It does not, for where white space
is read as text no code closes, and so it does not close behind that either (`ShutBehindBlank`).
-/

namespace PodLoom.Pod

open Text CodeUnit

/-! ## A reader that counts positions -/

/-- A node as it is handed on: a code comes with the text that it holds. -/
inductive Sliced where
  | text (content : Text)
  | code (letter : CodeUnit) (children : List Sliced) (raw : Text) (line : Int)
  deriving Repr, Inhabited

/-- What stands in a text from one position to another. -/
def slice (t : Text) (start stop : Nat) : Text := (t.take stop).drop start

/-- A code whose closing delimiter has not been met, the position where its content starts, and
the nodes before it on its own level, last first. -/
structure Frame where
  letter : CodeUnit
  extra : Nat
  line : Int
  start : Nat
  before : List Sliced
  deriving Repr, Inhabited

/-- What a code holds whose closing delimiter ends at a position. -/
def Frame.raw (text : Text) (c : Frame) (behind : Nat) : Text :=
  if c.extra = 0 then slice text c.start (behind - 1)
  else slice text c.start (trimEnd (text.take (behind - (c.extra + 1)))).length

/-- The innermost open code, if it closes at the front of a text, and the white space of its
closing delimiter. -/
def closingFrame? (stack : List Frame) (t : Text) : Option (Frame × Text) :=
  stack.head?.bind fun c => (closing? c.extra t).map fun (padding, _) => (c, padding)

/-- Put a run of text, last unit first, on nodes, last first. -/
def pushRun (run : Text) (nodes : List Sliced) : List Sliced :=
  if run.isEmpty then nodes else .text run.reverse :: nodes

/-- End the paragraph: every open code holds the rest of it, and is reported. -/
def endFrames (text : Text) : List Frame → List Sliced → List Sliced × List Erratum
  | [], nodes => (nodes.reverse, [])
  | c :: outer, nodes =>
      let node := Sliced.code c.letter nodes.reverse (text.drop c.start) c.line
      let (found, errata) := endFrames text outer (node :: c.before)
      (found, Inline.unterminated c.letter (c.extra + 1) c.line :: errata)

/-- Read on from a position of a paragraph: `stack` holds the open codes, `nodes` the nodes of
the innermost level and `run` the text read since, both last first. -/
def cutNodes (text : Text) (stack : List Frame) (nodes : List Sliced) (run : Text) (line : Int)
    (pos : Nat) : List Sliced × List Erratum :=
  if _h : pos < text.length then
    match closingFrame? stack (text.drop pos) with
    | some (c, padding) =>
        let behind := pos + (padding.length + (c.extra + 1))
        let node := Sliced.code c.letter (pushRun run nodes).reverse (c.raw text behind) c.line
        cutNodes text stack.tail (node :: c.before) [] line behind
    | none =>
        match opening? (text.drop pos) with
        | some o =>
            let start := pos + (1 + (o.extra + 1) + o.padding.length)
            cutNodes text (⟨o.letter, o.extra, line, start, pushRun run nodes⟩ :: stack) [] []
              (line + o.padding.countLines) start
        | none =>
            let u := text[pos]
            cutNodes text stack nodes (u :: run) (line + countLines [u]) (pos + 1)
  else endFrames text stack (pushRun run nodes)
termination_by text.length - pos

/-- The nodes of a paragraph whose first line is `line`, and the reports of unclosed codes, in
the order in which they are made. -/
def Inline.cut (line : Int) (t : Text) : List Sliced × List Erratum := cutNodes t [] [] [] line 0

/-! ## Nodes with what they print -/

namespace Inline

mutual

/-- A node handed on with what its children print. -/
def sliced : Inline → Sliced
  | .text content => .text content
  | .code letter _ children line => .code letter (allSliced children) (sources children) line

/-- Nodes handed on with what their children print. -/
def allSliced : List Inline → List Sliced
  | [] => []
  | node :: rest => sliced node :: allSliced rest

end

theorem allSliced_eq_map (nodes : List Inline) : allSliced nodes = nodes.map sliced := by
  induction nodes with
  | nil => rfl
  | cons node rest ih => rw [allSliced, ih, List.map_cons]

theorem allSliced_reverse (nodes : List Inline) :
    allSliced nodes.reverse = (allSliced nodes).reverse := by
  rw [allSliced_eq_map, allSliced_eq_map, List.map_reverse]

theorem allSliced_pushText (run : Text) (nodes : List Inline) :
    allSliced (pushText run nodes) = pushRun run (allSliced nodes) := by
  unfold pushText pushRun
  split
  · rfl
  · rfl

theorem sliced_node (c : OpenCode) (closing : Option Text) (nodes : List Inline) :
    sliced (c.node closing nodes)
      = .code c.letter (allSliced nodes).reverse (sources nodes.reverse) c.line := by
  rw [← allSliced_reverse]
  rfl

theorem allErrata_append (nodes more : List Inline) :
    allErrata (nodes ++ more) = allErrata nodes ++ allErrata more := by
  induction nodes with
  | nil => rfl
  | cons node rest ih => rw [List.cons_append, allErrata, allErrata, ih, List.append_assoc]

end Inline

open Inline

/-! ## Where the reader stands -/

/-- What was read up to a point of a paragraph. -/
def taken (stack : List OpenCode) (nodes : List Inline) (run : Text) : Text :=
  openSource stack ++ sources nodes.reverse ++ run.reverse

/-- Behind a closing delimiter. -/
theorem taken_closing (c : OpenCode) (outer : List OpenCode) (nodes : List Inline)
    (run padding : Text) :
    taken outer (c.node (some padding) (pushText run nodes) :: c.before) []
      = taken (c :: outer) nodes run ++ (padding ++ List.replicate (c.extra + 1) greater) := by
  simp [taken, openSource, sources_append, sources, OpenCode.node, source, Delimiter.front,
    Delimiter.back, Delimiter.count, sources_pushText]

/-- Behind an opening delimiter. -/
theorem taken_opening (c : OpenCode) (stack : List OpenCode) {nodes : List Inline} {run : Text}
    (hbefore : c.before = pushText run nodes) :
    taken (c :: stack) [] []
      = taken stack nodes run
        ++ c.letter :: (List.replicate (c.extra + 1) less ++ c.padding) := by
  simp [taken, openSource, sources, hbefore, sources_pushText]

/-- An open code by the position of its content. -/
def OpenCode.frame (outer : List OpenCode) (c : OpenCode) : Frame where
  letter := c.letter
  extra := c.extra
  line := c.line
  start := (openSource (c :: outer)).length
  before := allSliced c.before

/-- Open codes by the positions of their contents. -/
def frames : List OpenCode → List Frame
  | [] => []
  | c :: outer => c.frame outer :: frames outer

/-- A code that only white space and brackets can close does not close where white space was read
before. -/
def ShutBehindBlank (stack : List OpenCode) (before t : Text) : Prop :=
  ∀ c ∈ stack.head?, c.extra ≠ 0 → ∀ u ∈ before.getLast?, u.isBlank = true →
    closing? c.extra t = none

theorem closingFrame?_eq_none {stack : List OpenCode} {t : Text} (h : Shut stack t) :
    closingFrame? (frames stack) t = none := by
  cases stack with
  | nil => rfl
  | cons c outer =>
    have hnone : closing? c.extra t = none := h c rfl
    show (closing? c.extra t).map _ = none
    rw [hnone]
    rfl

/-! ## Slices -/

theorem slice_append (front content rest : Text) :
    slice (front ++ content ++ rest) front.length (front ++ content).length = content := by
  rw [slice, List.take_left, List.drop_left]

/-- Past the brackets of a closing delimiter, counted back from behind it, its white space is
left. -/
theorem take_past_brackets (before padding rest : Text) (extra : Nat) :
    (before ++ (padding ++ List.replicate (extra + 1) greater ++ rest)).take
        (before.length + (padding.length + (extra + 1)) - (extra + 1))
      = before ++ padding := by
  have hlength : before.length + (padding.length + (extra + 1)) - (extra + 1)
      = (before ++ padding).length := by
    rw [List.length_append]
    omega
  rw [hlength, List.append_assoc padding, ← List.append_assoc, List.take_left]

/-- Where a code closes whose closing delimiter starts with white space, none was read before. -/
theorem ShutBehindBlank.isBlank_getLast {c : OpenCode} {outer : List OpenCode}
    {before t padding rest : Text} (h : ShutBehindBlank (c :: outer) before t)
    (hextra : c.extra ≠ 0) (hclosing : closing? c.extra t = some (padding, rest)) :
    ∀ u ∈ before.getLast?, u.isBlank = false := by
  refine fun u hu => Bool.eq_false_iff.2 fun hspace => ?_
  rw [h c rfl hextra u hu hspace] at hclosing
  cases hclosing

/-- Counted back from behind its closing delimiter, a code holds what was read in it. -/
theorem raw_eq {c : OpenCode} {outer : List OpenCode} {nodes : List Inline}
    {run t padding rest : Text} (hclosing : closing? c.extra t = some (padding, rest))
    (hblank : ShutBehindBlank (c :: outer) (taken (c :: outer) nodes run) t) :
    (c.frame outer).raw (taken (c :: outer) nodes run ++ t)
        ((taken (c :: outer) nodes run).length + (padding.length + (c.extra + 1)))
      = sources (pushText run nodes).reverse := by
  obtain ⟨htext, hpadded⟩ := closing?_eq_some_iff.1 hclosing
  -- The content ends where the closing delimiter starts.
  have hcontent : slice (taken (c :: outer) nodes run ++ t) (openSource (c :: outer)).length
      (taken (c :: outer) nodes run).length = sources (pushText run nodes).reverse := by
    rw [sources_pushText, taken, List.append_assoc (openSource _)]
    exact slice_append _ _ _
  have hextra : (c.frame outer).extra = c.extra := rfl
  have hstart : (c.frame outer).start = (openSource (c :: outer)).length := rfl
  rw [Frame.raw, hextra, hstart]
  unfold PaddedBy at hpadded
  split at hpadded
  · rename_i hsingle
    rw [if_pos hsingle, hpadded, hsingle]
    exact hcontent
  · rename_i hmany
    have hback : trimEnd ((taken (c :: outer) nodes run ++ t).take
        ((taken (c :: outer) nodes run).length + (padding.length + (c.extra + 1)) - (c.extra + 1)))
          = taken (c :: outer) nodes run := by
      rw [htext, take_past_brackets, trimEnd_append_blank _ hpadded.2,
        trimEnd_eq_self (hblank.isBlank_getLast hmany hclosing)]
    rw [if_neg hmany, hback]
    exact hcontent

/-! ## The end of the paragraph -/

/-- The report that nothing closes a code. -/
def OpenCode.report (c : OpenCode) : Erratum := unterminated c.letter (c.extra + 1) c.line

/-- At the end of a paragraph the codes that are open are reported, the innermost first. -/
theorem allErrata_endCodes {stack : List OpenCode} {nodes : List Inline}
    (h : ∀ c ∈ stack, allErrata c.before = []) :
    allErrata (endCodes stack nodes)
      = allErrata nodes.reverse ++ stack.map OpenCode.report := by
  induction stack generalizing nodes with
  | nil => exact (List.append_nil _).symm
  | cons c outer ih =>
    obtain ⟨hbefore, houter⟩ := List.forall_mem_cons.1 h
    have hnode : errata (c.node none nodes) = allErrata nodes.reverse ++ [c.report] := rfl
    rw [endCodes, ih houter, List.reverse_cons, allErrata_append,
      allErrata_reverse_eq_nil_iff.2 hbefore, allErrata, hnode, List.map_cons]
    simp [allErrata]

/-- Codes that are open at the end hold the rest of the paragraph. -/
theorem endFrames_eq {text : Text} {stack : List OpenCode} {nodes : List Inline}
    (htext : text = openSource stack ++ sources nodes.reverse) :
    endFrames text (frames stack) (allSliced nodes)
      = (allSliced (endCodes stack nodes), stack.map OpenCode.report) := by
  induction stack generalizing nodes with
  | nil =>
    rw [endCodes, allSliced_reverse]
    rfl
  | cons c outer ih =>
    have hraw : text.drop (c.frame outer).start = sources nodes.reverse := by
      rw [htext]
      exact List.drop_left
    have houter : text = openSource outer ++ sources (c.node none nodes :: c.before).reverse := by
      rw [htext, openSource]
      simp [sources_append, sources, OpenCode.node, source, Delimiter.front, Delimiter.back,
        Delimiter.count]
    have hrest := ih houter
    rw [allSliced, sliced_node] at hrest
    rw [frames, endFrames, hraw]
    exact congrArg (fun left => (left.1, c.report :: left.2)) hrest

/-! ## One step of the reader -/

section Steps

variable {text before t : Text} (htext : text = before ++ t) (stack : List Frame)
  (nodes : List Sliced) (run : Text) (line : Int)

theorem cutNodes_finish :
    cutNodes text stack nodes run line text.length = endFrames text stack (pushRun run nodes) := by
  rw [cutNodes, dif_neg (Nat.lt_irrefl _)]

include htext

theorem length_lt_of_front (hne : t ≠ []) : before.length < text.length := by
  have hpositive := List.length_pos_iff.2 hne
  rw [htext, List.length_append]
  omega

theorem cutNodes_closing {c : Frame} {padding rest : Text}
    (h : closing? c.extra t = some (padding, rest)) :
    let behind := before.length + (padding.length + (c.extra + 1))
    cutNodes text (c :: stack) nodes run line before.length
      = cutNodes text stack
          (.code c.letter (pushRun run nodes).reverse (c.raw text behind) c.line :: c.before) []
          line behind := by
  intro behind
  have hne : t ≠ [] := by
    rintro rfl
    rw [closing?_nil] at h
    cases h
  have hframe : closingFrame? (c :: stack) (text.drop before.length) = some (c, padding) := by
    rw [htext, List.drop_left]
    show (closing? c.extra t).map _ = _
    rw [h]
    rfl
  rw [cutNodes, dif_pos (length_lt_of_front htext hne), hframe]
  rfl

theorem cutNodes_opening {o : Opening} (hshut : closingFrame? stack t = none)
    (h : opening? t = some o) :
    let start := before.length + (1 + (o.extra + 1) + o.padding.length)
    cutNodes text stack nodes run line before.length
      = cutNodes text (⟨o.letter, o.extra, line, start, pushRun run nodes⟩ :: stack) [] []
          (line + o.padding.countLines) start := by
  intro start
  have hne : t ≠ [] := by
    rintro rfl
    cases h
  rw [cutNodes, dif_pos (length_lt_of_front htext hne)]
  simp only [htext, List.drop_left, hshut, h]
  rfl

theorem cutNodes_unit {u : CodeUnit} {rest : Text} (ht : t = u :: rest)
    (hshut : closingFrame? stack t = none) (h : opening? t = none) :
    cutNodes text stack nodes run line before.length
      = cutNodes text stack nodes (u :: run) (line + countLines [u]) (before.length + 1) := by
  have hlength := length_lt_of_front htext (by rw [ht]; exact List.cons_ne_nil u rest)
  have hunit : text[before.length] = u := by
    subst htext ht
    simp
  rw [cutNodes, dif_pos hlength]
  simp only [htext, List.drop_left, hshut, h] at hunit ⊢
  rw [hunit]

end Steps

/-! ## White space before a closing delimiter -/

theorem closing?_eq_none_of_blank {u : CodeUnit} (hu : u.isBlank = true) {extra : Nat} {t : Text}
    (hextra : extra ≠ 0) (h : closing? extra (u :: t) = none) : closing? extra t = none := by
  cases hclosing : closing? extra t with
  | none => rfl
  | some found =>
    obtain ⟨padding, rest⟩ := found
    obtain ⟨rfl, hpadded⟩ := closing?_eq_some_iff.1 hclosing
    rw [PaddedBy, if_neg hextra] at hpadded
    have hlonger : PaddedBy extra (u :: padding) := by
      rw [PaddedBy, if_neg hextra]
      exact ⟨List.cons_ne_nil u padding, Bool.and_eq_true_iff.2 ⟨hu, hpadded.2⟩⟩
    have hearlier : closing? extra (u :: (padding ++ List.replicate (extra + 1) greater ++ rest))
        = some (u :: padding, rest) := closing?_eq_some_iff.2 ⟨rfl, hlonger⟩
    rw [hearlier] at h
    cases h

/-- Behind a closing delimiter, which ends in a bracket. -/
theorem ShutBehindBlank.closing (stack : List OpenCode) (before padding : Text) (extra : Nat)
    (t : Text) :
    ShutBehindBlank stack (before ++ (padding ++ List.replicate (extra + 1) greater)) t := by
  intro c hc hextra u hu hspace
  rw [List.replicate_succ', ← List.append_assoc, ← List.append_assoc, List.getLast?_concat] at hu
  obtain rfl : greater = u := Option.some.inj hu
  cases hspace

/-- Behind a unit of text. -/
theorem ShutBehindBlank.unit {stack : List OpenCode} {u : CodeUnit} {rest : Text}
    (hshut : Shut stack (u :: rest)) (before : Text) :
    ShutBehindBlank stack (before ++ [u]) rest := by
  intro c hc hextra v hv hspace
  rw [List.getLast?_concat] at hv
  obtain rfl : u = v := Option.some.inj hv
  exact closing?_eq_none_of_blank hspace hextra (hshut c hc)

/-- Behind an opening delimiter, which takes all white space that follows its brackets. -/
theorem ShutBehindBlank.opening {t : Text} {o : Opening} (h : opening? t = some o) {c : OpenCode}
    (hc : c.extra = o.extra) (outer : List OpenCode) (before : Text) :
    ShutBehindBlank (c :: outer) before o.content := by
  obtain ⟨-, -, -, htight⟩ := opening?_eq_some_iff.1 h
  rintro d hd hextra - - -
  obtain rfl : c = d := Option.some.inj hd
  rw [Opening.Tight, if_neg (hc ▸ hextra)] at htight
  cases hclosing : closing? c.extra o.content with
  | none => rfl
  | some found =>
    obtain ⟨padding, rest⟩ := found
    obtain ⟨hcontent, hpadded⟩ := closing?_eq_some_iff.1 hclosing
    rw [PaddedBy, if_neg hextra] at hpadded
    obtain ⟨u, more, rfl⟩ := List.exists_cons_of_ne_nil hpadded.1
    have hu : u.isBlank = true := (Bool.and_eq_true_iff.1 hpadded.2).1
    rw [hcontent, List.cons_append, List.cons_append, List.head?_cons, Option.any_some,
      hu] at htight
    cases htight

/-! ## The whole reader -/

/-- From any point on, the two readers give the same. -/
theorem cutNodes_eq {text : Text} {stack : List OpenCode} {nodes : List Inline} {run : Text}
    {line : Int} {t : Text} (htext : text = taken stack nodes run ++ t)
    (hblank : ShutBehindBlank stack (taken stack nodes run) t) (hunbroken : Unbroken stack nodes) :
    cutNodes text (frames stack) (allSliced nodes) run line (taken stack nodes run).length
      = (allSliced (readNodes stack nodes run line t),
        allErrata (readNodes stack nodes run line t)) := by
  fun_induction readNodes stack nodes run line t with
  | case1 stack nodes run line t h =>
    obtain rfl : t = [] := Front.Found.of_eq h
    rw [List.append_nil] at htext
    have hend : text = openSource stack ++ sources (pushText run nodes).reverse := by
      rw [htext, taken, sources_pushText, List.append_assoc]
    rw [← htext, cutNodes_finish, ← allSliced_pushText, endFrames_eq hend,
      allErrata_endCodes hunbroken.1, allErrata_reverse_eq_nil_iff.2
        ((allErrata_pushText run nodes).trans hunbroken.2), List.nil_append]
  | case2 stack nodes run line t c outer padding rest h ih =>
    obtain ⟨rfl, hclosing⟩ := Front.Found.of_eq h
    have hmore := taken_closing c outer nodes run padding
    have hbehind := congrArg List.length hmore
    rw [List.length_append, List.length_append, List.length_replicate] at hbehind
    have hnext := ih (by rw [hmore, htext, closing?_eq_some hclosing]; simp)
      (hmore ▸ .closing outer _ padding c.extra rest) (hunbroken.closing padding run)
    rw [allSliced, sliced_node, allSliced_pushText, hbehind,
      ← raw_eq hclosing hblank, ← htext] at hnext
    rw [← hnext, frames]
    exact cutNodes_closing htext _ _ _ _ hclosing
  | case3 stack nodes run line t o h ih =>
    have hshut : Shut stack t := shut_of_front (by simp [h])
    have hopening := Front.Found.of_eq h
    let c : OpenCode := ⟨o.letter, o.extra, o.padding, line, pushText run nodes⟩
    have hmore : taken (c :: stack) [] [] = _ := taken_opening c stack rfl
    have hstart : (taken (c :: stack) [] []).length
        = (taken stack nodes run).length + (1 + (o.extra + 1) + o.padding.length) := by
      rw [hmore]
      simp only [c, List.length_append, List.length_cons, List.length_replicate]
      omega
    have hframe : c.frame stack = ⟨o.letter, o.extra, line, (taken (c :: stack) [] []).length,
        pushRun run (allSliced nodes)⟩ := by
      simp [OpenCode.frame, taken, sources, c, allSliced_pushText]
    have hnext := ih (by rw [hmore, htext, opening?_eq_some hopening]; simp [c])
      (.opening hopening rfl _ _) (hunbroken.opening rfl)
    rw [cutNodes_opening htext _ _ _ _ (closingFrame?_eq_none hshut) hopening, ← hstart, ← hframe]
    exact hnext
  | case4 stack nodes run line t u rest h ih =>
    have hshut : Shut stack t := shut_of_front (by simp [h])
    have hopening := opening?_of_front_unit h
    obtain rfl : t = u :: rest := Front.Found.of_eq h
    have hmore : taken stack nodes (u :: run) = taken stack nodes run ++ [u] := by
      simp [taken]
    have hnext := ih (by rw [hmore, htext]; simp) (hmore ▸ ShutBehindBlank.unit hshut _) hunbroken
    rw [cutNodes_unit htext _ _ _ _ rfl (closingFrame?_eq_none hshut) hopening, ← hnext, hmore,
      List.length_append]
    rfl

/-- Cut out of the paragraph, every code holds what its children print, and the codes that nothing
closes are reported as they are in the nodes. -/
theorem Inline.cut_eq (line : Int) (t : Text) :
    cut line t = (allSliced (parse line t), allErrata (parse line t)) := by
  show cutNodes t (frames []) (allSliced []) [] line (taken [] [] []).length = _
  exact cutNodes_eq rfl nofun ⟨nofun, rfl⟩

end PodLoom.Pod
