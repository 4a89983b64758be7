import PodLoom.Failure
import PodLoom.Text.Case
import PodLoom.Text.Keyed
import PodLoom.Thread.Markup

set_option autoImplicit false

/-!
# Sections: anchors, contents and navigation

Top-level headings are sections, and a section can be linked to when it has an
anchor.  Anchors are supplied beforehand, by heading text, or made up as headings
are registered: `S1`, `S2` and so on, never one that is supplied to another heading
or already used.

From the registered sections come the table of contents, which lists them, and the
navigation bar, which packs their names into lines.
-/

namespace PodLoom.Thread

open Text CodeUnit

/-- A registered section: its heading without formatting, its heading as thread, and
its anchor. -/
structure Section where
  text : Text
  label : Text
  anchor : Text
  deriving DecidableEq, Repr, Inhabited

/-- The anchors supplied by heading, the sections registered so far in the order of
their headings, and the number of the last anchor made up. -/
structure Registry where
  supplied : List (Text × Text)
  sections : List Section
  counter : Nat
  deriving DecidableEq, Repr, Inhabited

/-- A text that may stand as an anchor: it starts with a letter. -/
def isAnchor (t : Text) : Bool := t.head?.any CodeUnit.isLetter

/-- The anchor of a number. -/
def numberedAnchor (n : Nat) : Text := ofChar 'S' :: ofNat n

namespace Registry

/-- No anchors are supplied and no section is registered. -/
def empty : Registry := ⟨[], [], 0⟩

/-- A registry with supplied anchors, or the first pair, in key order, whose anchor
is none. -/
def create (anchors : List (Text × Text)) : Except Failure Registry :=
  let supplied := Keyed.inOrder anchors
  match supplied.find? fun pair => !isAnchor pair.2 with
  | some (heading, anchor) => .error (.invalidAnchor anchor heading)
  | none => .ok { empty with supplied }

/-- The number of registered sections. -/
def size (r : Registry) : Nat := r.sections.length

/-- The anchors of the registered sections. -/
def used (r : Registry) : List Text := r.sections.map (·.anchor)

/-- The anchors that may not be made up: the used ones and the supplied ones. -/
def taken (r : Registry) : List Text := r.used ++ r.supplied.map (·.2)

/-- The number of the next anchor to make up: the first after the last one whose
anchor is free.  Among one more numbers than there are taken anchors, one is. -/
def nextNumber (r : Registry) : Nat :=
  let candidates := (List.range (r.taken.length + 1)).map (r.counter + 1 + ·)
  (candidates.find? fun n => !r.taken.contains (numberedAnchor n)).getD (r.counter + 1)

/-- Register a heading and give it an anchor: the supplied one if it is not used
yet, else a new one. -/
def register (r : Registry) (text label : Text) : Text × Registry :=
  match (Keyed.find? text r.supplied).filter (!r.used.contains ·) with
  | some anchor => (anchor, { r with sections := r.sections ++ [⟨text, label, anchor⟩] })
  | none =>
      let n := r.nextNumber
      let anchor := numberedAnchor n
      (anchor, { r with sections := r.sections ++ [⟨text, label, anchor⟩], counter := n })

/-- The anchor of a heading: that of the first section registered for it, or the
supplied one. -/
def lookup (r : Registry) (text : Text) : Option Text :=
  match r.sections.find? (·.text == text) with
  | some found => some found.anchor
  | none => Keyed.find? text r.supplied

/-- The one heading that an anchor mapping cannot hold. -/
def unmappable : Text := "__proto__"

/-- The first anchor of every registered heading, as a mapping that can be supplied
to another registry. -/
def anchorMap (r : Registry) : List (Text × Text) :=
  r.sections.foldl (fun pairs s =>
    if s.text = unmappable ∨ (pairs.any (·.1 == s.text)) = true then pairs
    else pairs ++ [(s.text, s.anchor)]) []

/-! ## Contents -/

/-- The line of a section in the table of contents. -/
def contentsLine (s : Section) : Text :=
  command "number(packed)" [anchorLink s.anchor s.label] ++ [newline]

/-- The table of contents: a packed numbered list that links to every section. -/
def contents (r : Registry) : Text :=
  if r.sections.isEmpty then []
  else
    command "h2" [ofString "Table of Contents"] ++ ofString "\n\n"
      ++ (r.sections.map contentsLine).flatten ++ [newline]

end Registry

/-! ## Navigation bar -/

/-- A word of a heading as the navigation bar has it: a capital and lower case, but
`and` without the capital. -/
def navbarWord (word : Text) : Text :=
  match word.lower with
  | [] => []
  | u :: rest =>
      if u :: rest = ofString "and" then u :: rest else upperUnit u ++ rest

/-- A heading as the navigation bar has it. -/
def navbarName (text : Text) : Text := join [space] (text.words.map navbarWord)

/-- The names on one line of the navigation bar may have this many units in all. -/
def navbarBudget : Int := 65

/-- Pack items into lines, in order: an item goes on the line being filled, whose
items have the given total size, unless that would pass the budget.  A line has an
item even if it alone is too large. -/
def packLines {α : Type} (size : α → Nat) (budget : Int) :
    List α → Nat → List α → List (List α)
  | line, _, [] => [line]
  | line, filled, item :: rest =>
      if !line.isEmpty ∧ budget < (filled + size item : Nat) then
        line :: packLines size budget [item] (size item) rest
      else packLines size budget (line ++ [item]) (filled + size item) rest

/-- The link of a section in the navigation bar. -/
def navbarLink (s : Section) : Text := anchorLink s.anchor (escape (navbarName s.text))

/-- The sections on each line of the navigation bar. -/
def navbarLines (budget : Int) (sections : List Section) : List (List Section) :=
  packLines (fun s => (navbarName s.text).length) budget [] 0 sections

/-- The navigation bar within a budget: links to every section, separated by bars. -/
def Registry.navbarWithin (r : Registry) (budget : Int) : Text :=
  if r.sections.isEmpty then []
  else
    let lines := (navbarLines budget r.sections).map fun line =>
      ofString "  " ++ join " | " (line.map navbarLink)
    command "div(navbar)" [newline :: (join " |\n" lines ++ [newline])] ++ ofString "\n\n"

/-- The navigation bar. -/
def Registry.navbar (r : Registry) : Text := r.navbarWithin navbarBudget

end PodLoom.Thread
