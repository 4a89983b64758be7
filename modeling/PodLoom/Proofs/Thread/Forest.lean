import Mathlib.Data.List.Chain
import PodLoom.Thread.Nesting

set_option autoImplicit false

/-!
# Forests: what the calls of lists mean

The calls that are made of lists (a list is entered, an item is noted, a body comes, an
item is closed, a list is ended) describe a forest: bodies and lists, with brackets around
what belongs to one item.  A forest is well shaped if every bracket holds all that belongs
to it (`Node.Proper`), and it can be read back, as the calls that make it or as the text
that it stands for (`Reading`).

An `Outline` is a forest with lists still open in it, and each call changes it in one place.
So whatever the calls are, the outline of them becomes a forest that reads back as those calls
that had a list to act on (`Outline.calling_run`), and that is well shaped
(`Outline.Shaped.forest`).
-/

namespace PodLoom.Thread

open Text CodeUnit
open PodLoom.Pod (ListKind)

/-- A call that is made of lists. -/
inductive Call where
  | enter (kind : ListKind)
  | startItem (tag : Text)
  | item (body : Text)
  | closeItem
  | exit
  deriving DecidableEq, Repr, Inhabited

/-- The calls that have something to act on while `depth` lists are open, and in the end a
call that ends each list still open.  Outside lists there is no item to note or to close
and no list to end. -/
def heard : (depth : Nat) → List Call → List Call
  | depth, [] => List.replicate depth .exit
  | depth, .enter kind :: rest => .enter kind :: heard (depth + 1) rest
  | depth, .item body :: rest => .item body :: heard depth rest
  | 0, .startItem _ :: rest => heard 0 rest
  | 0, .closeItem :: rest => heard 0 rest
  | 0, .exit :: rest => heard 0 rest
  | depth + 1, .startItem tag :: rest => .startItem tag :: heard (depth + 1) rest
  | depth + 1, .closeItem :: rest => .closeItem :: heard (depth + 1) rest
  | depth + 1, .exit :: rest => .exit :: heard depth rest

/-! ## Forests -/

/-- A tree of a forest. -/
inductive Node where
  /-- A body. -/
  | body (text : Text)
  /-- A bracket in a list: around an item, which has a tag, or around bodies of a block list
  that are under no item. -/
  | bracket (tag : Option Text) (content : List Node)
  | list (kind : ListKind) (content : List Node)
  /-- A place in a list where an item was closed. -/
  | pause
  deriving Repr, Inhabited

namespace Node

/-- What may stand outside lists, or in a bracket. -/
def isLoose : Node → Bool
  | body _ | list .. => true
  | _ => false

def isBody : Node → Bool
  | body _ => true
  | _ => false

def isBracket : Node → Bool
  | bracket .. => true
  | _ => false

/-- What ends the bracket before it: the next item, or the closing of the item. -/
def endsBracket : Node → Bool
  | bracket (some _) _ | pause => true
  | _ => false

/-- What may stand in a list of a kind.  In a block list, and only there, a bracket without
a tag is around bodies, of which it has one to begin with. -/
def fits (kind : ListKind) : Node → Bool
  | body _ => kind != .block
  | bracket none content => kind == .block && content.head?.any isBody
  | _ => true

/-- What may stand behind a tree in a list: behind a bracket, only what ends it. -/
def GivesWay (n next : Node) : Prop := n.isBracket = true → next.endsBracket = true

/-- A well-shaped tree: everything stands where it may, and a bracket holds all that comes
up to the next item, the closing of the item or the end of the list. -/
inductive Proper : Node → Prop
  | body (text : Text) : Proper (.body text)
  | pause : Proper .pause
  | bracket {tag : Option Text} {content : List Node} (loose : ∀ n ∈ content, n.isLoose = true)
      (proper : ∀ n ∈ content, Proper n) : Proper (.bracket tag content)
  | list {kind : ListKind} {content : List Node}
      (fitting : ∀ n ∈ content, n.fits kind = true)
      (whole : content.IsChain GivesWay)
      (proper : ∀ n ∈ content, Proper n) : Proper (.list kind content)

end Node

/-! ## Readings -/

/-- A way to read a forest from left to right. -/
structure Reading (α : Type) where
  body : Text → List α
  opening : Option Text → List α
  closing : List α
  enter : ListKind → List α
  leave : List α
  pause : List α

/-- A forest as the calls that make it. -/
def calling : Reading Call where
  body text := [.item text]
  opening tag := (tag.map .startItem).toList
  closing := []
  enter kind := [.enter kind]
  leave := [.exit]
  pause := [.closeItem]

/-- A forest as thread: an item is its tag and a bracket around its content, and only
brackets are visible of the lists. -/
def rendering : Reading CodeUnit where
  body text := text
  opening tag := tag.getD blockTag ++ [newline, openBracket]
  closing := [closeBracket, newline]
  enter _ := []
  leave := []
  pause := []

namespace Reading

variable {α : Type} (r : Reading α)

mutual

/-- The reading of a tree. -/
def node : Node → List α
  | .body text => r.body text
  | .bracket tag content => r.opening tag ++ nodes content ++ r.closing
  | .list kind content => r.enter kind ++ nodes content ++ r.leave
  | .pause => r.pause

/-- The reading of a forest. -/
def nodes : List Node → List α
  | [] => []
  | n :: rest => node n ++ nodes rest

end

theorem nodes_append (ns more : List Node) : r.nodes (ns ++ more) = r.nodes ns ++ r.nodes more := by
  induction ns with
  | nil => simp [nodes]
  | cons n rest ih => simp [nodes, ih]

theorem nodes_concat (ns : List Node) (n : Node) : r.nodes (ns ++ [n]) = r.nodes ns ++ r.node n := by
  simp [nodes_append, nodes]

end Reading

/-! ## Outlines -/

/-- A bracket that is open: its tag, if it has one, and its content so far. -/
structure Bracket where
  tag : Option Text
  content : List Node
  deriving Repr, Inhabited

/-- A list that is open: what is finished in it, and the bracket that is open in it. -/
structure Level where
  kind : ListKind
  content : List Node
  current : Option Bracket
  deriving Repr, Inhabited

namespace Level

/-- A list that starts. -/
def ofKind (kind : ListKind) : Level := ⟨kind, [], none⟩

/-- The content of a list that ends here. -/
def finished (l : Level) : List Node :=
  l.content ++ (l.current.map fun b => .bracket b.tag b.content).toList

/-- Put a tree into the open bracket, or else into the list itself. -/
def add (n : Node) (l : Level) : Level :=
  match l.current with
  | some b => { l with current := some { b with content := b.content ++ [n] } }
  | none => { l with content := l.content ++ [n] }

/-- Put a body into a list.  In a block list it opens a bracket if none is open. -/
def place (text : Text) (l : Level) : Level :=
  if l.kind = .block ∧ l.current.isNone then { l with current := some ⟨none, [.body text]⟩ }
  else l.add (.body text)

theorem kind_place (text : Text) (l : Level) : (l.place text).kind = l.kind := by
  unfold place add
  split
  · rfl
  · split <;> rfl

theorem isSome_place (text : Text) (l : Level) :
    (l.place text).current.isSome = (l.current.isSome || l.kind == .block) := by
  obtain ⟨kind, content, _ | b⟩ := l
  · cases kind <;> rfl
  · unfold place
    rw [if_neg (by simp)]
    rfl

/-- Start an item. -/
def startItem (tag : Text) (l : Level) : Level := ⟨l.kind, l.finished, some ⟨some tag, []⟩⟩

/-- Close the open bracket. -/
def closeItem (l : Level) : Level := ⟨l.kind, l.finished ++ [.pause], none⟩

/-- The tree of a list that ends here. -/
def node (l : Level) : Node := .list l.kind l.finished

end Level

/-- A forest with lists still open, innermost first. -/
structure Outline where
  page : List Node
  levels : List Level
  deriving Repr, Inhabited

namespace Outline

/-- Put a tree into the innermost list, or else on the page. -/
def add (n : Node) (o : Outline) : Outline :=
  match o.levels with
  | [] => { o with page := o.page ++ [n] }
  | l :: outer => { o with levels := l.add n :: outer }

/-- End the innermost list. -/
def exit (o : Outline) : Outline :=
  match o.levels with
  | [] => o
  | l :: outer => add l.node { o with levels := outer }

/-- End as many lists as there are levels in a list. -/
def exitEach : List Level → Outline → Outline
  | [], o => o
  | _ :: rest, o => exitEach rest o.exit

/-- What a call does to an outline. -/
def step (o : Outline) : Call → Outline
  | .enter kind => { o with levels := .ofKind kind :: o.levels }
  | .startItem tag => { o with levels := o.levels.modifyHead (Level.startItem tag) }
  | .item text =>
      match o.levels with
      | [] => o.add (.body text)
      | l :: outer => { o with levels := l.place text :: outer }
  | .closeItem => { o with levels := o.levels.modifyHead Level.closeItem }
  | .exit => o.exit

end Outline

/-! ## Reading an outline -/

namespace Reading

variable {α : Type} (r : Reading α)

/-- What closes the open bracket of a list. -/
def closers (l : Level) : List α := if l.current.isSome then r.closing else []

/-- The reading of an open bracket. -/
def bracket (b : Bracket) : List α := r.opening b.tag ++ r.nodes b.content

/-- The reading of an open list, up to the place where it goes on. -/
def level (l : Level) : List α :=
  r.enter l.kind ++ r.nodes l.content ++ (l.current.map r.bracket).getD []

/-- The reading of open lists, innermost first. -/
def levels : List Level → List α
  | [] => []
  | l :: outer => levels outer ++ r.level l

/-- The reading of an outline, up to the place where it goes on. -/
def outline (o : Outline) : List α := r.nodes o.page ++ r.levels o.levels

theorem level_finished (l : Level) :
    r.enter l.kind ++ r.nodes l.finished = r.level l ++ r.closers l := by
  rcases l with ⟨kind, content, _ | ⟨tag, inner⟩⟩
  · simp [Level.finished, level, closers]
  · simp [Level.finished, level, closers, nodes_concat, node, bracket]

theorem level_add (n : Node) (l : Level) : r.level (l.add n) = r.level l ++ r.node n := by
  rcases l with ⟨kind, content, _ | ⟨tag, inner⟩⟩
  · simp [Level.add, level, nodes_concat]
  · simp [Level.add, level, bracket, nodes_concat]

theorem outline_add (n : Node) (o : Outline) : r.outline (o.add n) = r.outline o ++ r.node n := by
  rcases o with ⟨page, _ | ⟨l, outer⟩⟩
  · simp [Outline.add, outline, levels, nodes_concat]
  · simp [Outline.add, outline, levels, level_add]

theorem outline_cons (page : List Node) (l : Level) (outer : List Level) :
    r.outline ⟨page, l :: outer⟩ = r.outline ⟨page, outer⟩ ++ r.level l :=
  (List.append_assoc ..).symm

theorem level_startItem (tag : Text) (l : Level) :
    r.level (l.startItem tag) = r.level l ++ r.closers l ++ r.opening (some tag) := by
  rw [← level_finished]
  simp [Level.startItem, level, bracket, nodes]

theorem level_closeItem (l : Level) :
    r.level l.closeItem = r.level l ++ r.closers l ++ r.pause := by
  rw [← level_finished]
  simp [Level.closeItem, level, nodes_concat, node]

/-- A body that comes to a list, with the bracket that it opens. -/
theorem level_place (text : Text) (l : Level) :
    r.level (l.place text) = r.level l
      ++ (if l.kind = .block ∧ l.current.isNone then r.opening none else []) ++ r.body text := by
  unfold Level.place
  split
  · rename_i hblock
    obtain ⟨kind, content, current⟩ := l
    obtain rfl : current = none := Option.isNone_iff_eq_none.1 hblock.2
    simp [level, bracket, nodes, node]
  · rw [level_add, List.append_nil]
    simp [node]

/-- A list that ends. -/
theorem outline_exit (page : List Node) (l : Level) (outer : List Level) :
    r.outline (Outline.exit ⟨page, l :: outer⟩)
      = r.outline ⟨page, l :: outer⟩ ++ r.closers l ++ r.leave := by
  show r.outline (Outline.add l.node ⟨page, outer⟩) = _
  rw [outline_add, outline_cons, Level.node, node, List.append_assoc (r.outline _), ← level_finished]
  simp only [List.append_assoc]

end Reading

/-! ## The calls of an outline -/

namespace Outline

theorem closers_calling (l : Level) : calling.closers l = [] := by
  unfold Reading.closers
  split <;> rfl

theorem length_levels_add (n : Node) (o : Outline) : (o.add n).levels.length = o.levels.length := by
  rcases o with ⟨page, _ | ⟨l, outer⟩⟩ <;> rfl

theorem length_levels_exit (o : Outline) : o.exit.levels.length = o.levels.length - 1 := by
  rcases o with ⟨page, _ | ⟨l, outer⟩⟩
  · rfl
  · exact length_levels_add l.node ⟨page, outer⟩

theorem calling_exit {o : Outline} {l : Level} {outer : List Level} (h : o.levels = l :: outer) :
    calling.outline o.exit = calling.outline o ++ [.exit] := by
  obtain ⟨page, levels⟩ := o
  subst h
  rw [Reading.outline_exit, closers_calling, List.append_nil]
  rfl

/-- An outline whose lists are ended reads back as its calls and their ends. -/
theorem calling_exitEach (ended : List Level) {o : Outline} (h : o.levels.length = ended.length) :
    (o.exitEach ended).levels = []
      ∧ calling.outline (o.exitEach ended)
        = calling.outline o ++ List.replicate ended.length .exit := by
  induction ended generalizing o with
  | nil => exact ⟨List.length_eq_zero_iff.1 h, (List.append_nil _).symm⟩
  | cons e rest ih =>
    obtain ⟨l, outer, hlevels⟩ := List.exists_cons_of_length_eq_add_one h
    have hlength : o.exit.levels.length = rest.length := by
      rw [length_levels_exit, h]
      rfl
    obtain ⟨hclosed, hcalls⟩ := ih hlength
    refine ⟨hclosed, ?_⟩
    rw [exitEach, hcalls, calling_exit hlevels, List.append_assoc]
    rfl

/-- The forest of an outline: all its lists end here. -/
def forest (o : Outline) : List Node := (o.exitEach o.levels).page

theorem nodes_forest {α : Type} (r : Reading α) (o : Outline) :
    r.nodes o.forest = r.outline (o.exitEach o.levels) := by
  rw [Reading.outline, (calling_exitEach o.levels rfl).1]
  exact (List.append_nil _).symm

/-- What was heard of the calls so far, and what will be heard of the calls to come. -/
theorem calling_run (calls : List Call) (o : Outline) :
    calling.nodes (calls.foldl step o).forest
      = calling.outline o ++ heard o.levels.length calls := by
  induction calls generalizing o with
  | nil => rw [List.foldl_nil, nodes_forest, (calling_exitEach o.levels rfl).2, heard]
  | cons call rest ih =>
    rw [List.foldl_cons, ih]
    rcases o with ⟨page, _ | ⟨l, outer⟩⟩
    · cases call with
      | enter kind => simp [step, heard, Reading.outline_cons, Level.ofKind, Reading.level,
          Reading.nodes, calling]
      | startItem tag => rfl
      | item text => simp [step, heard, Reading.outline_add, Reading.node, calling, length_levels_add]
      | closeItem => rfl
      | exit => rfl
    · cases call with
      | enter kind => simp [step, heard, Reading.outline_cons, Level.ofKind, Reading.level,
          Reading.nodes, calling]
      | startItem tag =>
        rw [step, List.modifyHead_cons, Reading.outline_cons, Reading.level_startItem, closers_calling]
        simp [heard, Reading.outline_cons, calling]
      | item text => simp [step, heard, Reading.outline_cons, Reading.level_place, calling]
      | closeItem =>
        rw [step, List.modifyHead_cons, Reading.outline_cons, Reading.level_closeItem, closers_calling]
        simp [heard, Reading.outline_cons, calling]
      | exit =>
        rw [step, calling_exit rfl, length_levels_exit]
        simp [heard]

end Outline

/-! ## The shape of an outline -/

namespace Node.Proper

variable {kind : ListKind} {content : List Node} {n g : Node}

/-- A list goes on with what may stand behind its last tree. -/
theorem concat (h : (Node.list kind content).Proper)
    (hbehind : ∀ last ∈ content.getLast?, last.GivesWay n) (hfits : n.fits kind = true)
    (hn : n.Proper) : (Node.list kind (content ++ [n])).Proper := by
  cases h with
  | list fitting whole proper =>
    refine .list ?_ ?_ ?_
    · intro m hm
      rcases List.mem_append.1 hm with hm | hm
      · exact fitting m hm
      · exact List.mem_singleton.1 hm ▸ hfits
    · refine whole.append (List.isChain_singleton n) fun last hlast next hnext => ?_
      obtain rfl : n = next := by simpa using hnext
      exact hbehind last hlast
    · intro m hm
      rcases List.mem_append.1 hm with hm | hm
      · exact proper m hm
      · exact List.mem_singleton.1 hm ▸ hn

/-- The last tree of a list may grow. -/
theorem replace (h : (Node.list kind (content ++ [n])).Proper)
    (hends : n.endsBracket = true → g.endsBracket = true) (hfits : g.fits kind = true)
    (hg : g.Proper) : (Node.list kind (content ++ [g])).Proper := by
  cases h with
  | list fitting whole proper =>
    have hfront : (Node.list kind content).Proper :=
      .list (fun m hm => fitting m (List.mem_append_left _ hm)) whole.left_of_append
        fun m hm => proper m (List.mem_append_left _ hm)
    refine hfront.concat (fun last hlast hbracket => hends ?_) hfits hg
    exact (List.isChain_append.1 whole).2.2 last hlast n rfl hbracket

end Node.Proper

/-- An open list that is well shaped so far: as it is if it ends here, and no bracket stands
last in it that could still go on. -/
structure Level.Shaped (l : Level) : Prop where
  node : l.node.Proper
  behind : l.current = none → ∀ n ∈ l.content.getLast?, n.isBracket = false

namespace Level.Shaped

variable {l : Level}

theorem ofKind (kind : ListKind) : (Level.ofKind kind).Shaped :=
  ⟨.list (by simp [Level.ofKind, finished]) .nil (by simp [Level.ofKind, finished]), by simp [Level.ofKind]⟩

/-- A list goes on behind what is finished in it with something that ends its bracket. -/
theorem concat (h : l.Shaped) {n : Node} (hends : n.endsBracket = true)
    (hfits : n.fits l.kind = true) (hn : n.Proper) : (Node.list l.kind (l.finished ++ [n])).Proper :=
  Node.Proper.concat h.node (fun _ _ _ => hends) hfits hn

theorem startItem (h : l.Shaped) (tag : Text) : (l.startItem tag).Shaped :=
  ⟨h.concat (n := .bracket (some tag) []) rfl rfl (.bracket (by simp) (by simp)), by simp [Level.startItem]⟩

theorem closeItem (h : l.Shaped) : l.closeItem.Shaped := by
  refine ⟨?_, ?_⟩
  · have hpause := h.concat (n := .pause) rfl rfl .pause
    simpa [Level.closeItem, Level.node, finished] using hpause
  · intro _ n hn
    obtain rfl : Node.pause = n := by simpa [Level.closeItem] using hn
    rfl

theorem add (h : l.Shaped) {n : Node} (hloose : n.isLoose = true) (hn : n.Proper)
    (hfits : l.current = none → n.fits l.kind = true) : (l.add n).Shaped := by
  obtain ⟨kind, content, _ | ⟨tag, inner⟩⟩ := l
  · refine ⟨?_, ?_⟩
    · have hbehind : ∀ last ∈ content.getLast?, last.GivesWay n := fun last hlast hbracket => by
        simp [h.behind rfl last hlast] at hbracket
      have hnode : (Node.list kind content).Proper := by simpa [Level.node, finished] using h.node
      simpa [Level.add, Level.node, finished] using hnode.concat hbehind (hfits rfl) hn
    · intro _ m hm
      obtain rfl : n = m := by simpa [Level.add] using hm
      cases n <;> first | rfl | simp [Node.isLoose] at hloose
  · have hnode : (Node.list kind (content ++ [.bracket tag inner])).Proper := h.node
    refine ⟨hnode.replace (g := .bracket tag (inner ++ [n])) ?_ ?_ ?_, by simp [Level.add]⟩
    · cases tag <;> exact id
    · have hinner : (Node.bracket tag inner).fits kind = true := by
        cases hnode with
        | list fitting _ _ => exact fitting _ List.mem_concat_self
      cases tag with
      | some tag => rfl
      | none =>
        simp only [Node.fits, Bool.and_eq_true] at hinner ⊢
        refine ⟨hinner.1, ?_⟩
        cases inner with
        | nil => simp at hinner
        | cons first rest => exact hinner.2
    · have hinner : (Node.bracket tag inner).Proper := by
        cases hnode with
        | list _ _ proper => exact proper _ List.mem_concat_self
      cases hinner with
      | bracket loose proper =>
        refine .bracket ?_ ?_
        · intro m hm
          rcases List.mem_append.1 hm with hm | hm
          · exact loose m hm
          · exact List.mem_singleton.1 hm ▸ hloose
        · intro m hm
          rcases List.mem_append.1 hm with hm | hm
          · exact proper m hm
          · exact List.mem_singleton.1 hm ▸ hn

theorem place (h : l.Shaped) (text : Text) : (l.place text).Shaped := by
  unfold Level.place
  split
  · rename_i hblock
    obtain ⟨kind, content, current⟩ := l
    obtain ⟨rfl, hnone⟩ := hblock
    obtain rfl : current = none := Option.isNone_iff_eq_none.1 hnone
    refine ⟨?_, by simp⟩
    have hbehind : ∀ last ∈ content.getLast?, last.GivesWay (.bracket none [.body text]) :=
      fun last hlast hbracket => by simp [h.behind rfl last hlast] at hbracket
    have hnode : (Node.list .block content).Proper := by simpa [Level.node, finished] using h.node
    exact hnode.concat hbehind rfl (.bracket (by simp [Node.isLoose]) (by simpa using .body text))
  · rename_i hblock
    refine h.add rfl (.body text) fun hnone => ?_
    simpa [Node.fits, hnone] using hblock

end Level.Shaped

/-- A forest with lists still open in it that is well shaped so far. -/
structure Outline.Shaped (o : Outline) : Prop where
  page : ∀ n ∈ o.page, n.isLoose = true ∧ n.Proper
  levels : ∀ l ∈ o.levels, l.Shaped

namespace Outline.Shaped

variable {o : Outline}

/-- The innermost list changes. -/
theorem change (h : o.Shaped) {f : Level → Level} (hf : ∀ l : Level, l.Shaped → (f l).Shaped) :
    ({ o with levels := o.levels.modifyHead f } : Outline).Shaped := by
  refine ⟨h.page, ?_⟩
  rcases o with ⟨page, _ | ⟨l, outer⟩⟩
  · exact h.levels
  · intro l' hl'
    rcases List.mem_cons.1 hl' with rfl | hl'
    · exact hf l (h.levels l List.mem_cons_self)
    · exact h.levels l' (List.mem_cons_of_mem l hl')

theorem add (h : o.Shaped) {n : Node} (hloose : n.isLoose = true) (hn : n.Proper)
    (hfits : o.levels ≠ [] → ∀ kind, n.fits kind = true) : (o.add n).Shaped := by
  rcases o with ⟨page, _ | ⟨l, outer⟩⟩
  · refine ⟨?_, h.levels⟩
    intro m hm
    rcases List.mem_append.1 hm with hm | hm
    · exact h.page m hm
    · exact List.mem_singleton.1 hm ▸ ⟨hloose, hn⟩
  · have hadd := h.change (f := Level.add n) fun l hl =>
      hl.add hloose hn fun _ => hfits (List.cons_ne_nil _ _) l.kind
    exact hadd

theorem exit (h : o.Shaped) : o.exit.Shaped := by
  rcases o with ⟨page, _ | ⟨l, outer⟩⟩
  · exact h
  · have houter : (⟨page, outer⟩ : Outline).Shaped :=
      ⟨h.page, fun l' hl' => h.levels l' (List.mem_cons_of_mem l hl')⟩
    exact houter.add rfl (h.levels l List.mem_cons_self).node fun _ _ => rfl

theorem step (h : o.Shaped) (call : Call) : (o.step call).Shaped := by
  cases call with
  | enter kind =>
    refine ⟨h.page, ?_⟩
    intro l hl
    rcases List.mem_cons.1 hl with rfl | hl
    · exact .ofKind kind
    · exact h.levels l hl
  | startItem tag => exact h.change fun _ hl => hl.startItem tag
  | item text =>
    rcases o with ⟨page, _ | ⟨l, outer⟩⟩
    · exact h.add rfl (.body text) fun hlevels => absurd rfl hlevels
    · exact h.change fun _ hl => hl.place text
  | closeItem => exact h.change fun _ hl => hl.closeItem
  | exit => exact h.exit

theorem run (h : o.Shaped) (calls : List Call) : (calls.foldl Outline.step o).Shaped := by
  induction calls generalizing o with
  | nil => exact h
  | cons call rest ih => exact ih (h.step call)

theorem exitEach (h : o.Shaped) (ended : List Level) : (o.exitEach ended).Shaped := by
  induction ended generalizing o with
  | nil => exact h
  | cons l rest ih => exact ih h.exit

theorem forest (h : o.Shaped) : ∀ n ∈ o.forest, n.isLoose = true ∧ n.Proper :=
  (h.exitEach o.levels).page

end Outline.Shaped

end PodLoom.Thread
