import PodLoom.Proofs.Pod.Delimiters

set_option autoImplicit false

/-!
# Steps of the reader

At each point of a paragraph the reader does one of four things: the innermost open code
closes, another opens, a unit of text is read, or the paragraph ends.  The lemmas here say which,
and what reading comes to from there.  Before such a point no code is left unclosed but those
that are open (`Unbroken`), since closing a code ends all that is in it.
-/

namespace PodLoom.Pod

open Text CodeUnit

/-! ## Points of a paragraph -/

/-- No code of `stack` closes at the front of `t`. -/
def Shut (stack : List OpenCode) (t : Text) : Prop :=
  ∀ c ∈ stack.head?, closing? c.extra t = none

theorem shut_nil (t : Text) : Shut [] t := fun _ h => by cases h

theorem Shut.of_cut {stack : List OpenCode} {s t : Text} (h : Shut stack t) (hs : s <+: t) :
    Shut stack s :=
  fun c hc => closing?_eq_none_of_cut hs (h c hc)

theorem Shut.inner {inner outer : List OpenCode} {t : Text} (h : Shut (inner ++ outer) t) :
    Shut inner t := by
  cases inner with
  | nil => exact shut_nil t
  | cons c inner => exact h

theorem closing?_nil (extra : Nat) : closing? extra [] = none := by
  unfold closing? afterFront?
  split <;> simp [spanBlank]

theorem front_closing {c : OpenCode} {outer : List OpenCode} {t padding rest : Text}
    (h : closing? c.extra t = some (padding, rest)) :
    front (c :: outer) t = .closing c outer padding rest := by
  cases t with
  | nil => rw [closing?_nil] at h; cases h
  | cons u t => simp [front, h]

theorem front_shut {stack : List OpenCode} {u : CodeUnit} {rest : Text}
    (h : Shut stack (u :: rest)) :
    front stack (u :: rest)
      = ((opening? (u :: rest)).map Front.opening).getD (.unit u rest) := by
  cases stack with
  | nil => rfl
  | cons c outer => simp [front, h c rfl]

/-- A code opens or text goes on only where no code closes. -/
theorem shut_of_front {stack : List OpenCode} {t : Text}
    (h : ∀ c outer padding rest, front stack t ≠ .closing c outer padding rest) :
    Shut stack t := by
  intro c hc
  cases hclosing : closing? c.extra t with
  | none => rfl
  | some found =>
    obtain ⟨padding, rest⟩ := found
    cases stack with
    | nil => cases hc
    | cons d outer =>
      cases hc
      exact (h _ outer padding rest (front_closing hclosing)).elim

/-- Text goes on only where no code opens. -/
theorem opening?_of_front_unit {stack : List OpenCode} {t : Text} {u : CodeUnit} {rest : Text}
    (h : front stack t = .unit u rest) : opening? t = none := by
  have hshut : Shut stack t := shut_of_front (by simp [h])
  obtain rfl : t = u :: rest := Front.Found.of_eq h
  rw [front_shut hshut] at h
  cases ho : opening? (u :: rest) with
  | none => rfl
  | some o => rw [ho] at h; cases h

/-! ## One step of the reader -/

section Steps

variable (stack : List OpenCode) (nodes : List Inline) (run : Text) (line : Int)

theorem readNodes_nil :
    readNodes stack nodes run line [] = endCodes stack (pushText run nodes) := by
  rw [readNodes]
  rfl

theorem readNodes_closing {c : OpenCode} {t padding rest : Text}
    (h : closing? c.extra t = some (padding, rest)) :
    readNodes (c :: stack) nodes run line t
      = readNodes stack (c.node (some padding) (pushText run nodes) :: c.before) [] line rest := by
  have hfront : front (c :: stack) t = _ := front_closing h
  rw [readNodes]
  split <;> simp_all

theorem readNodes_opening {t : Text} {o : Opening} (hshut : Shut stack t)
    (h : opening? t = some o) :
    readNodes stack nodes run line t
      = readNodes (⟨o.letter, o.extra, o.padding, line, pushText run nodes⟩ :: stack) [] []
          (line + o.padding.countLines) o.content := by
  have hfront : front stack t = .opening o := by
    obtain rfl := opening?_eq_some h
    rw [front_shut hshut, h]
    rfl
  rw [readNodes]
  split <;> simp_all

theorem readNodes_unit {u : CodeUnit} {rest : Text} (hshut : Shut stack (u :: rest))
    (h : opening? (u :: rest) = none) :
    readNodes stack nodes run line (u :: rest)
      = readNodes stack nodes (u :: run) (line + countLines [u]) rest := by
  have hfront : front stack (u :: rest) = .unit u rest := by
    rw [front_shut hshut, h]
    rfl
  rw [readNodes]
  split <;> simp_all

end Steps

/-- A text without an opening bracket has no codes. -/
theorem readNodes_plain {t : Text} (h : less ∉ t) (nodes : List Inline) (run : Text) (line : Int) :
    readNodes [] nodes run line t = (pushText (t.reverse ++ run) nodes).reverse := by
  induction t generalizing run line with
  | nil =>
    rw [readNodes_nil]
    rfl
  | cons u rest ih =>
    have hrest : less ∉ rest := fun hmem => h (List.mem_cons_of_mem u hmem)
    have hopen : opening? (u :: rest) = none := by
      have hhead : (rest.head? == some less) = false :=
        beq_eq_false_iff_ne.2 fun hhead => hrest (List.mem_of_head? hhead)
      rw [opening?_eq_none_iff, hhead, Bool.and_false]
    rw [readNodes_unit _ _ _ _ (shut_nil _) hopen, ih hrest, List.reverse_cons, List.append_assoc]
    rfl

theorem parse_plain {t : Text} (h : less ∉ t) (hsome : t ≠ []) (line : Int) :
    Inline.parse line t = [.text t] := by
  rw [Inline.parse, readNodes_plain h]
  simp [pushText, hsome]

theorem endCodes_append (inner outer : List OpenCode) (c : OpenCode) (nodes : List Inline) :
    endCodes (inner ++ c :: outer) nodes
      = endCodes outer (c.node none (endCodes inner nodes).reverse :: c.before) := by
  induction inner generalizing nodes with
  | nil => simp [endCodes]
  | cons d inner ih => rw [List.cons_append, endCodes, ih, endCodes]

/-! ## Errors of a level -/

namespace Inline

theorem allErrata_eq_nil_iff {nodes : List Inline} :
    allErrata nodes = [] ↔ ∀ node ∈ nodes, errata node = [] := by
  induction nodes with
  | nil => simp [allErrata]
  | cons node rest ih => simp [allErrata, ih]

theorem allErrata_reverse_eq_nil_iff {nodes : List Inline} :
    allErrata nodes.reverse = [] ↔ allErrata nodes = [] := by
  simp [allErrata_eq_nil_iff]

theorem allErrata_pushText (run : Text) (nodes : List Inline) :
    allErrata (pushText run nodes) = allErrata nodes := by
  unfold pushText
  split
  · rfl
  · rfl

theorem errata_node_closed (c : OpenCode) (padding : Text) {nodes : List Inline}
    (h : allErrata nodes = []) : errata (c.node (some padding) nodes) = [] := by
  simp [OpenCode.node, errata, allErrata_reverse_eq_nil_iff.2 h]

end Inline

open Inline

/-- Nothing before a point of a paragraph is unclosed, except the codes that are still
open there. -/
def Unbroken (stack : List OpenCode) (nodes : List Inline) : Prop :=
  (∀ c ∈ stack, allErrata c.before = []) ∧ allErrata nodes = []

namespace Unbroken

variable {stack : List OpenCode} {nodes : List Inline}

theorem closing {c : OpenCode} (h : Unbroken (c :: stack) nodes) (padding run : Text) :
    Unbroken stack (c.node (some padding) (pushText run nodes) :: c.before) := by
  obtain ⟨hbefore, hnodes⟩ := h
  refine ⟨fun d hd => hbefore d (List.mem_cons_of_mem c hd), ?_⟩
  rw [allErrata, errata_node_closed _ _ (by rw [allErrata_pushText, hnodes]),
    hbefore c List.mem_cons_self, List.append_nil]

theorem opening (h : Unbroken stack nodes) {c : OpenCode} {run : Text}
    (hbefore : c.before = pushText run nodes) : Unbroken (c :: stack) [] := by
  refine ⟨List.forall_mem_cons.2 ⟨?_, h.1⟩, rfl⟩
  rw [hbefore, allErrata_pushText, h.2]

end Unbroken

end PodLoom.Pod
