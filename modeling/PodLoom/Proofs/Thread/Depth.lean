import PodLoom.Proofs.Thread.Header
import PodLoom.Proofs.Thread.Markup

set_option autoImplicit false

/-!
# The brackets of lists

A list has at most one bracket open, that of its item, and whatever is done to the list opens
and closes its own bracket only.  So the pieces that come of it lead from as many open
brackets as the list had to as many as it has (`Scope.depth_place` and the like), as long as
the macros and bodies in them are balanced.

What else is true of the macros and bodies of lists, and of the pieces made of them, is a
`Manner`.  A draft whose lists are all set in one manner leaves open one bracket for each open
item, and no other (`Laid`).
-/

namespace PodLoom.Thread

open Text CodeUnit
open PodLoom.Pod (ListKind)

/-! ## The depth of lists -/

/-- The number of brackets open for a list. -/
def Scope.depth (s : Scope) : Nat := if s.isOpen then 1 else 0

/-- The number of brackets open for lists. -/
def openItems : List Scope → Nat
  | [] => 0
  | s :: outer => s.depth + openItems outer

/-- An open item is an open bracket. -/
theorem openItems_eq_countP (scopes : List Scope) :
    openItems scopes = scopes.countP (·.isOpen) := by
  induction scopes with
  | nil => rfl
  | cons s outer ih => rw [openItems, ih, List.countP_cons, Nat.add_comm, Scope.depth]

section

variable {k : Desk}

theorem text_singleton (q : Piece) : k.text [q] = (k.chunks q).flatten := by
  rw [k.text_cons]
  exact List.append_nil _

theorem depthAfter_text_append {d e : Nat} {pieces : List Piece}
    (h : depthAfter d (k.text pieces) = some e) (more : List Piece) :
    depthAfter d (k.text (pieces ++ more)) = depthAfter e (k.text more) := by
  rw [k.text_append, depthAfter_append, h, Option.bind_some]

namespace Scope

variable {s : Scope}

theorem depth_closers (s : Scope) : depthAfter s.depth (k.text s.closers) = some 0 := by
  unfold closers depth
  split <;> rfl

/-- An opening leaves its own bracket open. -/
theorem depth_opening {tag body : Text} (htag : Balanced tag) (hbody : Balanced body) :
    depthAfter 0 (k.text [.opening tag body]) = some 1 := by
  have hchunk : k.text [.opening tag body] = tag ++ ([newline, openBracket] ++ body) := by
    rw [text_singleton]
    exact List.append_nil _
  rw [hchunk, depthAfter_append, htag, Option.bind_some, depthAfter_append]
  exact hbody.depth 1

theorem depth_place (htag : Balanced s.tag) {body : Text} (hbody : Balanced body) :
    depthAfter s.depth (k.text (s.place body).2) = some (s.place body).1.depth := by
  unfold place
  split
  · rw [depthAfter_text_append s.depth_closers]
    exact depth_opening htag hbody
  · split
    · rename_i hblock
      rw [depth, hblock.2]
      exact depth_opening (by decide) hbody
    · rw [text_singleton]
      show depthAfter _ (body ++ []) = _
      rw [List.append_nil]
      exact hbody.depth s.depth

theorem depth_settle (htag : Balanced s.tag) :
    depthAfter s.depth (k.text s.settle.2) = some s.settle.1.depth := by
  unfold settle
  split
  · exact depth_place htag .nil
  · rfl

theorem depth_next (htag : Balanced s.tag) (tag : Text) :
    depthAfter s.depth (k.text (s.next tag).2) = some (s.next tag).1.depth := depth_settle htag

theorem depth_close (htag : Balanced s.tag) :
    depthAfter s.depth (k.text s.close.2) = some s.close.1.depth := by
  rw [close, depthAfter_text_append (depth_settle htag)]
  exact s.settle.1.depth_closers

end Scope

/-! ## Lists that are set in one manner -/

/-- A manner of setting lists: what is true of their macros, of the bodies in them and of the
pieces that are made of these. -/
structure Manner where
  tag : Text → Prop
  body : Text → Prop
  piece : Piece → Prop
  balanced_tag {t : Text} : tag t → Balanced t
  balanced_body {t : Text} : body t → Balanced t
  no_tag : tag []
  block_tag : tag blockTag
  no_body : body []
  closing : piece .closing
  opening {t b : Text} : tag t → body b → piece (.opening t b)
  passage {b : Text} : body b → piece (.passage b)

/-- Pieces that do to the brackets what is done to a list. -/
structure Fits (k : Desk) (m : Manner) (s s' : Scope) (pieces : List Piece) : Prop where
  tag : m.tag s'.tag
  each : ∀ q ∈ pieces, m.piece q
  depth : depthAfter s.depth (k.text pieces) = some s'.depth

/-- Pieces that open and close the brackets of lists, and no others. -/
structure Laid (k : Desk) (m : Manner) (scopes : List Scope) (pieces : List Piece) : Prop where
  tags : ∀ s ∈ scopes, m.tag s.tag
  each : ∀ q ∈ pieces, m.piece q
  depth : depthAfter 0 (k.text pieces) = some (openItems scopes)

variable {m : Manner}

namespace Fits

variable {s : Scope}

theorem place (htag : m.tag s.tag) {body : Text} (hbody : m.body body) :
    Fits k m s (s.place body).1 (s.place body).2 := by
  refine ⟨?_, Scope.each_place m.closing (m.opening htag hbody) (m.opening m.block_tag hbody)
    (m.passage hbody), Scope.depth_place (m.balanced_tag htag) (m.balanced_body hbody)⟩
  rw [Scope.tag_place]
  exact htag

theorem settle (htag : m.tag s.tag) : Fits k m s s.settle.1 s.settle.2 := by
  refine ⟨?_, Scope.each_settle m.closing (m.opening htag m.no_body),
    Scope.depth_settle (m.balanced_tag htag)⟩
  rw [Scope.tag_settle]
  exact htag

theorem next (htag : m.tag s.tag) {tag : Text} (h : m.tag tag) :
    Fits k m s (s.next tag).1 (s.next tag).2 :=
  ⟨h, (settle (k := k) htag).each, Scope.depth_next (m.balanced_tag htag) tag⟩

theorem close (htag : m.tag s.tag) : Fits k m s s.close.1 s.close.2 :=
  ⟨(settle (k := k) htag).tag, Scope.each_close m.closing (m.opening htag m.no_body),
    Scope.depth_close (m.balanced_tag htag)⟩

end Fits

namespace Laid

variable {scopes : List Scope} {pieces : List Piece} {d : Draft}

theorem nil : Laid k m [] [] := ⟨by simp, by simp, rfl⟩

theorem write (h : Laid k m scopes pieces) {q : Piece} (hq : m.piece q)
    (hbalanced : Balanced (k.chunks q).flatten) : Laid k m scopes (pieces ++ [q]) := by
  refine ⟨h.tags, ?_, ?_⟩
  · intro q' hq'
    rcases List.mem_append.1 hq' with hq' | hq'
    · exact h.each q' hq'
    · exact List.mem_singleton.1 hq' ▸ hq
  · rw [depthAfter_text_append h.depth, text_singleton]
    exact hbalanced.depth _

theorem onScope (h : Laid k m d.scopes d.pieces) {f : Scope → Scope × List Piece}
    (hf : ∀ s : Scope, m.tag s.tag → Fits k m s (f s).1 (f s).2) :
    Laid k m (d.onScope f).scopes (d.onScope f).pieces := by
  rcases d with ⟨frames, _ | ⟨s, outer⟩, inName, headerDone, sections, warnings, pieces⟩
  · exact h
  · have hfits := hf s (h.tags s List.mem_cons_self)
    refine ⟨?_, ?_, ?_⟩
    · intro t ht
      rcases List.mem_cons.1 ht with rfl | ht
      · exact hfits.tag
      · exact h.tags t (List.mem_cons_of_mem s ht)
    · intro q hq
      rcases List.mem_append.1 hq with hq | hq
      · exact h.each q hq
      · exact hfits.each q hq
    · show depthAfter 0 (k.text (pieces ++ (f s).2)) = some ((f s).1.depth + openItems outer)
      rw [depthAfter_text_append h.depth]
      exact depthAfter_add hfits.depth (openItems outer)

theorem place (h : Laid k m d.scopes d.pieces) {body : Text} (hbody : m.body body) :
    Laid k m (d.place body).scopes (d.place body).pieces := by
  unfold Draft.place
  split
  · refine h.write (m.passage hbody) ?_
    rw [Desk.chunks, List.flatten_singleton]
    exact m.balanced_body hbody
  · exact h.onScope fun _ htag => .place htag hbody

theorem enter (h : Laid k m d.scopes d.pieces) (kind : ListKind) :
    Laid k m (d.enter kind).scopes (d.enter kind).pieces := by
  have hsettled := h.onScope (f := Scope.settle) fun _ htag => .settle htag
  have hkind : m.tag (Scope.ofKind kind).tag := by
    unfold Scope.ofKind
    split
    · exact m.block_tag
    · exact m.no_tag
  refine ⟨?_, hsettled.each, hsettled.depth.trans ?_⟩
  · intro s hs
    rcases List.mem_cons.1 hs with rfl | hs
    · exact hkind
    · exact hsettled.tags s hs
  · exact congrArg some (Nat.zero_add _).symm

theorem exit (h : Laid k m d.scopes d.pieces) : Laid k m d.exit.scopes d.exit.pieces := by
  have hclosed := h.onScope (f := Scope.close) fun _ htag => .close htag
  rcases d with ⟨frames, _ | ⟨s, outer⟩, inName, headerDone, sections, warnings, pieces⟩
  · exact h
  · refine ⟨fun t ht => h.tags t (List.mem_cons_of_mem s ht), hclosed.each, ?_⟩
    exact hclosed.depth.trans (congrArg some (Nat.zero_add _))

theorem exitEach (h : Laid k m d.scopes d.pieces) (ended : List Scope) :
    Laid k m (d.exitEach ended).scopes (d.exitEach ended).pieces := by
  induction ended generalizing d with
  | nil => exact h
  | cons s rest ih => exact ih h.exit

end Laid

end

end PodLoom.Thread
