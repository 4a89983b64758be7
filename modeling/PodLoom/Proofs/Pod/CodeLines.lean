import PodLoom.Proofs.Pod.Inline

set_option autoImplicit false

/-!
# The lines of codes

The reader of a paragraph counts the line feeds it passes, and a code gets the count at its
letter for its line.  It counts those of text and of opening delimiters (`passed`), and not
those in the white space of a closing delimiter: a code that stands behind such a delimiter
gets a line too low (`line_behind_split_closing`).

So the line of a code is the line its letter stands on, less the line feeds of the closing
delimiters in front of it (`parse_codeLines`).
-/

namespace PodLoom.Text

open CodeUnit

theorem countLines_nil : countLines [] = 0 := rfl

theorem countLines_append (s t : Text) : countLines (s ++ t) = s.countLines + t.countLines :=
  List.count_append

theorem countLines_eq_zero_iff {t : Text} : t.countLines = 0 ↔ newline ∉ t :=
  List.count_eq_zero

end PodLoom.Text

namespace PodLoom.Pod

open Text CodeUnit Inline

namespace Inline

/-! ## What the reader counts -/

mutual

/-- The line feeds that the reader counts while it reads a node. -/
def passed : Inline → Nat
  | .text content => content.countLines
  | .code letter delimiter children _ =>
      countLines (letter :: delimiter.front) + allPassed children

/-- The line feeds that the reader counts while it reads a sequence of nodes. -/
def allPassed : List Inline → Nat
  | [] => 0
  | node :: rest => passed node + allPassed rest

end

mutual

/-- The codes of a node, which is met on the line `line`, have the lines that the reader
counts. -/
def Counted (line : Int) : Inline → Prop
  | .text _ => True
  | .code letter delimiter children first =>
      first = line ∧ AllCounted (line + countLines (letter :: delimiter.front)) children

/-- The codes of a sequence of nodes, which is met on the line `line`, have the lines that
the reader counts. -/
def AllCounted (line : Int) : List Inline → Prop
  | [] => True
  | node :: rest => Counted line node ∧ AllCounted (line + passed node) rest

end

theorem allPassed_append (s t : List Inline) : allPassed (s ++ t) = allPassed s + allPassed t := by
  induction s with
  | nil => simp [allPassed]
  | cons node rest ih => rw [List.cons_append, allPassed, ih, allPassed, Nat.add_assoc]

theorem allPassed_singleton (node : Inline) : allPassed [node] = passed node := rfl

theorem allCounted_append (line : Int) (s t : List Inline) :
    AllCounted line (s ++ t) ↔ AllCounted line s ∧ AllCounted (line + allPassed s) t := by
  induction s generalizing line with
  | nil => simp [AllCounted, allPassed]
  | cons node rest ih =>
    rw [List.cons_append, AllCounted, ih, AllCounted, allPassed, and_assoc]
    simp only [Int.natCast_add, Int.add_assoc]

theorem allPassed_pushText (run : Text) (nodes : List Inline) :
    allPassed (pushText run nodes).reverse = allPassed nodes.reverse + run.countLines := by
  rw [reverse_pushText, allPassed_append]
  unfold pushText
  split
  · simp_all [allPassed, countLines]
  · simp [allPassed, passed, countLines]

theorem AllCounted.pushText {line : Int} {nodes : List Inline}
    (h : AllCounted line nodes.reverse) (run : Text) :
    AllCounted line (Pod.pushText run nodes).reverse := by
  rw [reverse_pushText, allCounted_append]
  refine ⟨h, ?_⟩
  unfold Pod.pushText
  split <;> simp [AllCounted, Counted]

end Inline

/-- The letter of an open code and its opening delimiter. -/
def OpenCode.opener (c : OpenCode) : Text :=
  c.letter :: (List.replicate (c.extra + 1) less ++ c.padding)

theorem passed_node (c : OpenCode) (closing : Option Text) (nodes : List Inline) :
    passed (c.node closing nodes) = c.opener.countLines + allPassed nodes.reverse := rfl

/-- What stands before each code of a stack, outside in from the line `first`, has the lines
that the reader counts, and the content of the innermost code starts on the line `start`. -/
def OpensAt (first : Int) : List OpenCode → Int → Prop
  | [], start => start = first
  | c :: stack, start =>
      ∃ outer, OpensAt first stack outer ∧ AllCounted outer c.before.reverse
        ∧ c.line = outer + allPassed c.before.reverse ∧ start = c.line + c.opener.countLines

section Step

variable {first start outer : Int} {stack : List OpenCode} {nodes : List Inline}

/-- A code that ends goes behind what stands before it. -/
theorem allCounted_node {c : OpenCode} (hbefore : AllCounted outer c.before.reverse)
    (hline : c.line = outer + allPassed c.before.reverse)
    (hstart : start = c.line + c.opener.countLines) (hnodes : AllCounted start nodes.reverse)
    (closing : Option Text) : AllCounted outer (c.node closing nodes :: c.before).reverse := by
  rw [List.reverse_cons, allCounted_append]
  refine ⟨hbefore, ⟨hline, ?_⟩, trivial⟩
  rw [← hline]
  exact hstart ▸ hnodes

theorem allCounted_endCodes (hopen : OpensAt first stack start)
    (hnodes : AllCounted start nodes.reverse) : AllCounted first (endCodes stack nodes) := by
  induction stack generalizing start nodes with
  | nil =>
    obtain rfl : start = first := hopen
    exact hnodes
  | cons c stack ih =>
    obtain ⟨outer, hopen, hbefore, hline, hstart⟩ := hopen
    exact ih hopen (allCounted_node hbefore hline hstart hnodes none)

end Step

/-- An opening delimiter has its line feeds in its white space. -/
theorem countLines_opener {t : Text} {o : Opening} (h : opening? t = some o) (line : Int)
    (before : List Inline) :
    (OpenCode.mk o.letter o.extra o.padding line before).opener.countLines
      = o.padding.countLines := by
  obtain ⟨-, hupper, -, -⟩ := opening?_eq_some_iff.1 h
  have hletter : o.letter ≠ newline := by
    intro hnewline
    rw [hnewline] at hupper
    exact absurd hupper (by decide)
  have hless : less ≠ newline := by decide
  simp [OpenCode.opener, countLines, List.count_cons_of_ne hletter, List.count_replicate, hless]

/-- Wherever the reader stands, the lines it has given are the lines it has counted. -/
theorem allCounted_readNodes {first start : Int} {stack : List OpenCode} {nodes : List Inline}
    {run : Text} {line : Int} {t : Text} (hopen : OpensAt first stack start)
    (hnodes : AllCounted start nodes.reverse)
    (hline : line = start + allPassed nodes.reverse + run.countLines) :
    AllCounted first (readNodes stack nodes run line t) := by
  fun_induction readNodes stack nodes run line t generalizing start with
  | case1 stack nodes run line t h => exact allCounted_endCodes hopen (hnodes.pushText run)
  | case2 stack nodes run line t c inner padding rest h ih =>
    obtain ⟨rfl, -⟩ := Front.Found.of_eq h
    obtain ⟨outer, hopen, hbefore, hcode, hstart⟩ := hopen
    refine ih hopen (allCounted_node hbefore hcode hstart (hnodes.pushText run) _) ?_
    -- the line is the one in front of the closing delimiter
    rw [List.reverse_cons, allPassed_append, allPassed_singleton, passed_node, allPassed_pushText]
    simp only [countLines_nil]
    omega
  | case3 stack nodes run line t o h ih =>
    have hopener := countLines_opener (Front.Found.of_eq h) line (pushText run nodes)
    have hpassed := allPassed_pushText run nodes
    have hopens : OpensAt first
        (⟨o.letter, o.extra, o.padding, line, pushText run nodes⟩ :: stack)
        (line + o.padding.countLines) :=
      ⟨start, hopen, hnodes.pushText run, by dsimp only; omega, by rw [hopener]⟩
    exact ih hopens trivial (by simp [allPassed, countLines_nil])
  | case4 stack nodes run line t u rest h ih =>
    refine ih hopen hnodes ?_
    have hcons : countLines (u :: run) = countLines [u] + run.countLines :=
      countLines_append [u] run
    omega

theorem allCounted_parse (line : Int) (t : Text) : AllCounted line (parse line t) :=
  allCounted_readNodes rfl trivial (by simp [allPassed, countLines_nil])

namespace Inline

/-! ## What it does not count -/

/-- The rest of the paragraph from the letter of the code on. -/
def Occurrence.rest (c : Occurrence) : Text := c.node.source ++ c.after

/-- The code `d` ends before the letter of the code `c`. -/
def Occurrence.EndsBefore (d c : Occurrence) : Prop := c.rest.length ≤ d.after.length

instance (d c : Occurrence) : Decidable (d.EndsBefore c) :=
  inferInstanceAs (Decidable (_ ≤ _))

/-- The line feeds of the closing delimiters of `codes`. -/
def closingFeeds (codes : List Occurrence) : Nat :=
  countLines (codes.flatMap (·.delimiter.back))

/-- The line feeds of the closing delimiters that stand before the letter of `c`. -/
def missed (codes : List Occurrence) (c : Occurrence) : Nat :=
  closingFeeds (codes.filter (·.EndsBefore c))

theorem closingFeeds_append (s t : List Occurrence) :
    closingFeeds (s ++ t) = closingFeeds s + closingFeeds t := by
  rw [closingFeeds, List.flatMap_append, countLines_append]
  rfl

theorem missed_append (s t : List Occurrence) (c : Occurrence) :
    missed (s ++ t) c = missed s c + missed t c := by
  rw [missed, List.filter_append, closingFeeds_append]
  rfl

/-- Nothing is missed if no code has ended. -/
theorem missed_eq_zero {codes : List Occurrence} {c : Occurrence}
    (h : ∀ d ∈ codes, ¬d.EndsBefore c) : missed codes c = 0 := by
  have hnone : codes.filter (·.EndsBefore c) = [] :=
    List.filter_eq_nil_iff.2 fun d hd => by simpa using h d hd
  rw [missed, hnone]
  rfl

theorem missed_cons_of_not {d c : Occurrence} (h : ¬d.EndsBefore c) (codes : List Occurrence) :
    missed (d :: codes) c = missed codes c := by
  simp [missed, h]

theorem missed_of_forall {codes : List Occurrence} {c : Occurrence}
    (h : ∀ d ∈ codes, d.EndsBefore c) : missed codes c = closingFeeds codes := by
  rw [missed, List.filter_eq_self.2 fun d hd => by simpa using h d hd]

theorem missed_eq_zero_iff {codes : List Occurrence} {c : Occurrence} :
    missed codes c = 0 ↔ ∀ d ∈ codes, d.EndsBefore c → newline ∉ d.delimiter.back := by
  simp only [missed, closingFeeds, countLines_eq_zero_iff, List.mem_flatMap, List.mem_filter,
    decide_eq_true_eq, not_exists, not_and, and_imp]

mutual

/-- The line feeds of a node are those that the reader counts and those of the closing
delimiters. -/
theorem countLines_source (after : Text) :
    (node : Inline) →
      node.source.countLines = passed node + closingFeeds (occurrences after node)
  | .text _ => rfl
  | .code letter delimiter children line => by
      have ih := countLines_sources (delimiter.back ++ after) children
      have hsplit : source (.code letter delimiter children line)
          = (letter :: delimiter.front) ++ (sources children ++ delimiter.back) := by
        simp [source]
      have hfeeds : closingFeeds (occurrences after (.code letter delimiter children line))
          = delimiter.back.countLines
            + closingFeeds (allOccurrences (delimiter.back ++ after) children) := by
        rw [occurrences, closingFeeds, List.flatMap_cons, countLines_append]
        rfl
      rw [hsplit, countLines_append, countLines_append, passed, hfeeds, ih]
      omega

/-- The line feeds of a sequence of nodes are those that the reader counts and those of the
closing delimiters. -/
theorem countLines_sources (after : Text) :
    (nodes : List Inline) →
      (sources nodes).countLines = allPassed nodes + closingFeeds (allOccurrences after nodes)
  | [] => rfl
  | node :: rest => by
      rw [sources, countLines_append, countLines_source (sources rest ++ after) node,
        countLines_sources after rest, allPassed, allOccurrences, closingFeeds_append]
      omega

end

mutual

theorem suffix_after_of_mem_occurrences {after : Text} {d : Occurrence} :
    (node : Inline) → d ∈ occurrences after node → after <:+ d.after
  | .text _, h => by cases h
  | .code letter delimiter children line, h => by
      rw [occurrences, List.mem_cons] at h
      rcases h with rfl | h
      · exact List.suffix_refl _
      · exact (List.suffix_append _ _).trans (suffix_after_of_mem_allOccurrences children h)

/-- What stands behind a sequence of nodes stands behind each code in it. -/
theorem suffix_after_of_mem_allOccurrences {after : Text} {d : Occurrence} :
    (nodes : List Inline) → d ∈ allOccurrences after nodes → after <:+ d.after
  | [], h => by cases h
  | node :: rest, h => by
      rw [allOccurrences, List.mem_append] at h
      rcases h with h | h
      · exact (List.suffix_append _ _).trans (suffix_after_of_mem_occurrences node h)
      · exact suffix_after_of_mem_allOccurrences rest h

end

theorem Occurrence.length_after_lt (c : Occurrence) : c.after.length < c.rest.length := by
  simp only [rest, node, source, List.length_append, List.length_cons]
  omega

/-- A code does not end before one that starts in front of it, or with it. -/
theorem Occurrence.not_endsBefore {d c : Occurrence} (h : d.rest <:+ c.rest) :
    ¬d.EndsBefore c := by
  have hafter := d.length_after_lt
  have hlength := h.length_le
  rw [EndsBefore]
  omega

mutual

/-- A code in a node has the line its letter stands on, less what the reader has missed. -/
theorem exists_line_of_mem_occurrences {after : Text} {line : Int} {c : Occurrence} :
    (node : Inline) → Counted line node → c ∈ occurrences after node →
      ∃ before, node.source ++ after = before ++ c.rest
        ∧ c.line + missed (occurrences after node) c = line + before.countLines
  | .text _, _, hc => by cases hc
  | .code letter delimiter children first, ⟨hfirst, hchildren⟩, hc => by
      subst hfirst
      rw [occurrences, List.mem_cons] at hc
      rcases hc with rfl | hc
      · -- the code itself: it and what it holds end behind its letter
        refine ⟨[], rfl, ?_⟩
        have hmissed : missed (occurrences after (.code letter delimiter children first))
            ⟨letter, delimiter, children, first, after⟩ = 0 :=
          missed_eq_zero fun d hd => Occurrence.not_endsBefore
            (suffix_of_mem_occurrences (.code letter delimiter children first) hd)
        rw [hmissed, countLines_nil]
      · obtain ⟨before, hsource, hline⟩ :=
          exists_line_of_mem_allOccurrences children hchildren hc
        refine ⟨(letter :: delimiter.front) ++ before, ?_, ?_⟩
        · simp only [source, List.cons_append, List.append_assoc]
          rw [hsource]
        · have hself : ¬(Occurrence.mk letter delimiter children first after).EndsBefore c := by
            have hafter := (suffix_after_of_mem_allOccurrences children hc).length_le
            have hrest := c.length_after_lt
            rw [List.length_append] at hafter
            dsimp only [Occurrence.EndsBefore]
            omega
          rw [occurrences, missed_cons_of_not hself, countLines_append]
          omega

/-- A code in a sequence of nodes has the line its letter stands on, less what the reader
has missed. -/
theorem exists_line_of_mem_allOccurrences {after : Text} {line : Int} {c : Occurrence} :
    (nodes : List Inline) → AllCounted line nodes → c ∈ allOccurrences after nodes →
      ∃ before, sources nodes ++ after = before ++ c.rest
        ∧ c.line + missed (allOccurrences after nodes) c = line + before.countLines
  | [], _, hc => by cases hc
  | node :: rest, ⟨hnode, hrest⟩, hc => by
      rw [allOccurrences, List.mem_append] at hc
      rw [allOccurrences, missed_append, sources]
      rcases hc with hc | hc
      · -- the codes behind the node have not ended where `c` starts
        obtain ⟨before, hsource, hline⟩ := exists_line_of_mem_occurrences node hnode hc
        refine ⟨before, by rw [List.append_assoc, hsource], ?_⟩
        have hafter : sources rest ++ after <:+ c.rest :=
          (suffix_after_of_mem_occurrences node hc).trans (List.suffix_append _ _)
        have hmissed : missed (allOccurrences after rest) c = 0 :=
          missed_eq_zero fun d hd =>
            Occurrence.not_endsBefore ((suffix_of_mem_allOccurrences rest hd).trans hafter)
        rw [hmissed, Nat.add_zero, hline]
      · -- all codes of the node have
        obtain ⟨before, hsource, hline⟩ := exists_line_of_mem_allOccurrences rest hrest hc
        refine ⟨node.source ++ before, by rw [List.append_assoc, hsource, List.append_assoc], ?_⟩
        have hends : ∀ d ∈ occurrences (sources rest ++ after) node, d.EndsBefore c :=
          fun d hd => (suffix_of_mem_allOccurrences rest hc).length_le.trans
            (suffix_after_of_mem_occurrences node hd).length_le
        have hfeeds := countLines_source (sources rest ++ after) node
        rw [missed_of_forall hends, countLines_append]
        omega

end

/-- The line of every code at every depth, and of every error, is the line the code's letter
stands on less the line feeds of the closing delimiters in front of it.  So it is the line
the letter stands on exactly if no code that ends in front of it has a line feed in its
closing delimiter. -/
theorem parse_codeLines (line : Int) (t : Text) :
    (∀ c ∈ allOccurrences [] (parse line t), ∃ before, t = before ++ c.rest
        ∧ c.line + missed (allOccurrences [] (parse line t)) c = line + before.countLines
        ∧ (c.line = line + before.countLines
            ↔ ∀ d ∈ allOccurrences [] (parse line t), d.EndsBefore c →
                newline ∉ d.delimiter.back))
      ∧ (allErrata (parse line t)).Perm
          (((allOccurrences [] (parse line t)).filter (·.isOpen)).map Occurrence.report) := by
  refine ⟨fun c hc => ?_, perm_allErrata [] _⟩
  obtain ⟨before, hsource, hline⟩ :=
    exists_line_of_mem_allOccurrences _ (allCounted_parse line t) hc
  rw [sources_parse, List.append_nil] at hsource
  refine ⟨before, hsource, hline, ?_⟩
  rw [← missed_eq_zero_iff]
  omega

/-- A paragraph with a line feed in a closing delimiter and a code behind it. -/
def splitClosing : Text := ofString "B<< a\n>> C<b"

/-- The code behind the closing delimiter stands on the second line of the paragraph.  It has
the first for its line, and so has the report that nothing closes it. -/
theorem line_behind_split_closing :
    ∃ c ∈ allOccurrences [] (parse 1 splitClosing), ∃ before,
      splitClosing = before ++ c.rest ∧ before.countLines = 1
        ∧ c.line ≠ 1 + before.countLines ∧ c.line = 1
        ∧ allErrata (parse 1 splitClosing) = [c.report] ∧ c.report.line = 1 := by
  have hcode : ∃ c ∈ allOccurrences [] (parse 1 splitClosing),
      splitClosing = ofString "B<< a\n>> " ++ c.rest ∧ c.line = 1
        ∧ allErrata (parse 1 splitClosing) = [c.report] ∧ c.report.line = 1 := by
    decide +kernel
  have hfeeds : countLines (ofString "B<< a\n>> ") = 1 := by decide
  obtain ⟨c, hmem, hsource, hline, herrata, hreport⟩ := hcode
  refine ⟨c, hmem, _, hsource, hfeeds, ?_, hline, herrata, hreport⟩
  rw [hfeeds, hline]
  decide

end Inline

end PodLoom.Pod
