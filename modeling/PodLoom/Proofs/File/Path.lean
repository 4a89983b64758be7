import Mathlib.Data.List.Basic
import PodLoom.File.Path
import PodLoom.Proofs.Text.Splitting

set_option autoImplicit false

/-!
# Paths by their components

An absolute path in normal form is the list of the names on its way, none of which is empty, has
a slash or is `.` or `..`.  On such lists the operations on paths are what they look like: to
join is to append (`join_names`), to cut is to take the last name off (`parse_names`), and the
way from a place to one below it is the rest of the names (`relative_names`).  Every path that
is joined to an absolute one is of this form, except that it may end in a slash
(`exists_join`).
-/

namespace PodLoom.Path

open Text CodeUnit

/-! ## Names -/

/-- What an entry of a directory can be called. -/
structure IsName (name : Text) : Prop where
  ne_nil : name ≠ []
  slash_notMem : slash ∉ name
  ne_here : name ≠ here
  ne_above : name ≠ above

instance (name : Text) : Decidable (IsName name) :=
  decidable_of_iff (name ≠ [] ∧ slash ∉ name ∧ name ≠ here ∧ name ≠ above)
    ⟨fun ⟨h₁, h₂, h₃, h₄⟩ => ⟨h₁, h₂, h₃, h₄⟩, fun ⟨h₁, h₂, h₃, h₄⟩ => ⟨h₁, h₂, h₃, h₄⟩⟩

/-- The names on the way to a place. -/
def AreNames (parts : List Text) : Prop := ∀ part ∈ parts, IsName part

theorem areNames_append {front back : List Text} :
    AreNames (front ++ back) ↔ AreNames front ∧ AreNames back := List.forall_mem_append

theorem areNames_singleton {name : Text} : AreNames [name] ↔ IsName name := by
  simp [AreNames]

/-! ## Components -/

theorem components_append_slash (s t : Text) :
    components (s ++ slash :: t) = components s ++ components t := by
  rw [components, splitOn_append_cons, List.filter_append]
  rfl

theorem components_slash (t : Text) : components (slash :: t) = components t :=
  components_append_slash [] t

/-- A component is a name, unless it is `.` or `..`. -/
theorem of_mem_components {part t : Text} (h : part ∈ components t) : part ≠ [] ∧ slash ∉ part := by
  obtain ⟨hmem, hne⟩ := List.mem_filter.1 h
  exact ⟨by simpa using hne, notMem_of_mem_splitOn hmem⟩

theorem components_join {parts : List Text} (h : AreNames parts) :
    components (Text.join [slash] parts) = parts := by
  cases parts with
  | nil => rfl
  | cons part rest =>
    rw [components, splitOn_join (fun p hp => (h p hp).slash_notMem) (List.cons_ne_nil _ _)]
    refine List.filter_eq_self.2 fun p hp => ?_
    simpa using (h p hp).ne_nil

theorem components_ofComponents {parts : List Text} (h : AreNames parts) :
    components (ofComponents parts) = parts :=
  (components_slash _).trans (components_join h)

theorem ofComponents_inj {parts parts' : List Text} (h : AreNames parts) (h' : AreNames parts') :
    ofComponents parts = ofComponents parts' ↔ parts = parts' := by
  refine ⟨fun heq => ?_, congrArg ofComponents⟩
  rw [← components_ofComponents h, heq, components_ofComponents h']

/-- What stands before the last name of a path: the path so far, and a slash. -/
def lead (parts : List Text) : Text :=
  if parts = [] then [slash] else ofComponents parts ++ [slash]

theorem ofComponents_concat (parts : List Text) (name : Text) :
    ofComponents (parts ++ [name]) = lead parts ++ name := by
  by_cases hparts : parts = []
  · subst hparts
    simp [ofComponents, lead, Text.join]
  · rw [ofComponents, join_append hparts (List.cons_ne_nil _ _), lead, if_neg hparts, ofComponents]
    simp [Text.join]

/-- A path in normal form that leads to an entry of a directory. -/
def IsEntry (path : Text) : Prop :=
  ∃ parts name, AreNames (parts ++ [name]) ∧ path = ofComponents (parts ++ [name])

theorem isEntry_ofComponents {parts : List Text} (h : AreNames parts) (hne : parts ≠ []) :
    IsEntry (ofComponents parts) := by
  obtain ⟨front, name, rfl⟩ := (List.eq_nil_or_concat' parts).resolve_left hne
  exact ⟨front, name, h, rfl⟩

/-! ## Slashes at the end -/

theorem endsInSlash_append_name (t : Text) {name : Text} (h : IsName name) :
    endsInSlash (t ++ name) = false := by
  rw [endsInSlash, List.getLast?_append_of_ne_nil _ h.ne_nil,
    List.getLast?_eq_some_getLast h.ne_nil, beq_eq_false_iff_ne]
  intro hlast
  exact h.slash_notMem (Option.some.inj hlast ▸ List.getLast_mem h.ne_nil)

theorem endsInSlash_ofComponents {parts : List Text} (h : AreNames parts) (hne : parts ≠ []) :
    endsInSlash (ofComponents parts) = false := by
  obtain ⟨front, name, rfl⟩ := (List.eq_nil_or_concat' parts).resolve_left hne
  rw [ofComponents_concat]
  exact endsInSlash_append_name _ (areNames_singleton.1 (areNames_append.1 h).2)

/-! ## Normal form -/

theorem foldl_pushComponent (absolute : Bool) (stack : List Text) {parts : List Text}
    (h : AreNames parts) : parts.foldl (pushComponent absolute) stack = parts.reverse ++ stack := by
  induction parts generalizing stack with
  | nil => rfl
  | cons part rest ih =>
    have hpart : IsName part := h part List.mem_cons_self
    have hpush : pushComponent absolute stack part = part :: stack := by
      unfold pushComponent
      rw [if_neg hpart.ne_here, if_neg hpart.ne_above]
    rw [List.foldl_cons, hpush, ih _ fun p hp => h p (List.mem_cons_of_mem part hp)]
    simp

/-- Names are in normal form. -/
theorem normalComponents_names (absolute : Bool) {parts : List Text} (h : AreNames parts) :
    normalComponents absolute parts = parts := by
  rw [normalComponents, foldl_pushComponent absolute [] h, List.append_nil, List.reverse_reverse]

theorem areNames_pushComponent {stack : List Text} (hstack : AreNames stack) {part : Text}
    (h : part ≠ [] ∧ slash ∉ part) : AreNames (pushComponent true stack part) := by
  unfold pushComponent
  split
  · exact hstack
  · rename_i hhere
    split
    · cases stack with
      | nil => exact hstack
      | cons last rest =>
        dsimp only
        rw [if_neg (hstack last List.mem_cons_self).ne_above]
        exact fun p hp => hstack p (List.mem_cons_of_mem last hp)
    · rename_i habove
      exact List.forall_mem_cons.2 ⟨⟨h.1, h.2, hhere, habove⟩, hstack⟩

/-- Seen from the root, components come to names. -/
theorem areNames_normalComponents {parts : List Text}
    (h : ∀ part ∈ parts, part ≠ [] ∧ slash ∉ part) : AreNames (normalComponents true parts) := by
  have hfold : AreNames (parts.foldl (pushComponent true) []) :=
    List.foldlRecOn parts _ (fun _ hp => absurd hp List.not_mem_nil)
      fun _ hstack part hpart => areNames_pushComponent hstack (h part hpart)
  exact fun p hp => hfold p (List.mem_reverse.1 hp)

theorem areNames_resolveComponents (cwd path : Text) : AreNames (resolveComponents cwd path) := by
  refine areNames_normalComponents fun part hpart => ?_
  split at hpart
  · exact of_mem_components hpart
  · rcases List.mem_append.1 hpart with hpart | hpart
    · exact of_mem_components hpart
    · exact of_mem_components hpart

theorem resolveComponents_names (cwd : Text) {parts : List Text} (h : AreNames parts) :
    resolveComponents cwd (ofComponents parts) = parts := by
  rw [resolveComponents, if_pos (show isAbsolute (ofComponents parts) = true from rfl),
    components_ofComponents h, normalComponents_names true h]

theorem components_resolve (cwd path : Text) :
    components (resolve cwd path) = resolveComponents cwd path :=
  components_ofComponents (areNames_resolveComponents cwd path)

/-- To resolve a path once more changes nothing. -/
theorem resolveComponents_resolve (cwd path : Text) :
    resolveComponents cwd (resolve cwd path) = resolveComponents cwd path :=
  resolveComponents_names cwd (areNames_resolveComponents cwd path)

/-- The text of names is empty only if there are none. -/
theorem join_isEmpty {parts : List Text} (h : AreNames parts) :
    (Text.join [slash] parts).isEmpty = parts.isEmpty := by
  cases parts with
  | nil => rfl
  | cons part rest =>
    obtain ⟨u, more, hpart⟩ := List.exists_cons_of_ne_nil (h part List.mem_cons_self).ne_nil
    rw [hpart]
    cases rest <;> rfl

theorem normalize_absolute {path : Text} (h : isAbsolute path = true) :
    normalize path = ofComponents (normalComponents true (components path))
      ++ if (normalComponents true (components path)).isEmpty ∨ endsInSlash path = false then []
        else [slash] := by
  have hnames : AreNames (normalComponents true (components path)) :=
    areNames_normalComponents fun _ => of_mem_components
  rw [normalize, h, if_pos rfl, join_isEmpty hnames]
  generalize normalComponents true (components path) = parts
  cases parts with
  | nil => simp [ofComponents, Text.join]
  | cons part rest => cases endsInSlash path <;> simp [ofComponents]

theorem join_eq_normalize {parent child : Text} (hparent : parent ≠ []) (hchild : child ≠ []) :
    join parent child = normalize (parent ++ slash :: child) := by
  simp [join, hparent, hchild]

/-- What is joined to an absolute path is one in normal form, up to a slash at the end. -/
theorem exists_join {parent : Text} (h : isAbsolute parent = true) (child : Text) :
    ∃ parts, AreNames parts ∧ (join parent child = ofComponents parts
      ∨ join parent child = ofComponents parts ++ [slash]) := by
  have hparent : parent ≠ [] := by
    rintro rfl
    cases h
  obtain ⟨path, hpath, hjoin⟩ :
      ∃ path, isAbsolute path = true ∧ join parent child = normalize path := by
    by_cases hchild : child = []
    · exact ⟨parent, h, by simp [join, hparent, hchild]⟩
    · refine ⟨parent ++ slash :: child, ?_, join_eq_normalize hparent hchild⟩
      rwa [isAbsolute, List.head?_append_of_ne_nil _ hparent]
  refine ⟨normalComponents true (components path),
    areNames_normalComponents fun _ => of_mem_components, ?_⟩
  rw [hjoin, normalize_absolute hpath]
  split
  · exact .inl (List.append_nil _)
  · exact .inr rfl

/-- To join names to names is to append them. -/
theorem join_names {front below : List Text} (hfront : AreNames front) (hbelow : AreNames below)
    (hne : below ≠ []) :
    join (ofComponents front) (Text.join [slash] below) = ofComponents (front ++ below) := by
  have hchild : Text.join [slash] below ≠ [] := by
    intro hempty
    have hisEmpty := join_isEmpty hbelow
    rw [hempty] at hisEmpty
    exact hne (List.isEmpty_iff.1 hisEmpty.symm)
  have hcomponents : components (ofComponents front ++ slash :: Text.join [slash] below)
      = front ++ below := by
    rw [components_append_slash, components_ofComponents hfront, components_join hbelow]
  have hend : endsInSlash (ofComponents front ++ slash :: Text.join [slash] below) = false := by
    have hslash := endsInSlash_ofComponents hbelow hne
    rw [endsInSlash, List.getLast?_append_of_ne_nil _ (List.cons_ne_nil _ _)]
    exact hslash
  have hparent : ofComponents front ≠ [] := List.cons_ne_nil _ _
  rw [join_eq_normalize hparent hchild, normalize_absolute (by rfl), hcomponents,
    normalComponents_names true (areNames_append.2 ⟨hfront, hbelow⟩), if_pos (.inr hend),
    List.append_nil]

/-! ## Cutting a path -/

/-- The last name of a path is cut off, and its extension from it. -/
theorem parse_names (parts : List Text) {name : Text} (hname : IsName name) :
    parse (ofComponents (parts ++ [name]))
      = ⟨ofComponents parts, (splitExtension name).1, (splitExtension name).2⟩ := by
  obtain ⟨before, hlead⟩ : ∃ before, lead parts = before ++ [slash] := by
    unfold lead
    split
    · exact ⟨[], rfl⟩
    · exact ⟨_, rfl⟩
  have hclean : ∀ u ∈ name.reverse, (u != slash) = true := by
    intro u hu
    rw [bne_iff_ne]
    rintro rfl
    exact hname.slash_notMem (List.mem_reverse.1 hu)
  have hreverse : (ofComponents (parts ++ [name])).reverse
      = name.reverse ++ slash :: before.reverse := by
    rw [ofComponents_concat, hlead]
    simp
  have hbase : (ofComponents (parts ++ [name])).reverse.takeWhile (· != slash) = name.reverse := by
    rw [hreverse, List.takeWhile_append_of_pos hclean]
    simp
  have htrimmed : (ofComponents (parts ++ [name])).reverse.dropWhile (· == slash)
      = (ofComponents (parts ++ [name])).reverse := by
    obtain ⟨u, more, hcons⟩ := List.exists_cons_of_ne_nil
      (show name.reverse ≠ [] by simpa using hname.ne_nil)
    have hu : (u == slash) = false := by
      simpa using hclean u (by rw [hcons]; exact List.mem_cons_self)
    rw [hreverse, hcons, List.cons_append, List.dropWhile_cons_of_neg (by simp [hu])]
  have hbefore : (ofComponents (parts ++ [name])).take
      ((ofComponents (parts ++ [name])).length - name.length) = lead parts := by
    rw [ofComponents_concat, List.length_append, Nat.add_sub_cancel, List.take_left]
  have hdirectory : (if (lead parts).length ≤ 1
      then (if isAbsolute (ofComponents (parts ++ [name])) then [slash] else [])
      else (lead parts).dropLast) = ofComponents parts := by
    by_cases hparts : parts = []
    · subst hparts
      rfl
    · rw [lead, if_neg hparts, if_neg (by simp [ofComponents]), List.dropLast_concat]
  rw [parse, htrimmed, List.reverse_reverse, hbase, List.reverse_reverse, List.reverse_reverse,
    hbefore]
  dsimp only
  rw [hdirectory]

theorem dropCommon_append (place below : List Text) :
    dropCommon place (place ++ below) = ([], below) := by
  induction place with
  | nil => cases below <;> rfl
  | cons part rest ih => rw [List.cons_append, dropCommon, if_pos rfl, ih]

theorem relative_names (cwd : Text) {place below : List Text} (h : AreNames (place ++ below)) :
    relative cwd (ofComponents place) (ofComponents (place ++ below)) = Text.join [slash] below := by
  rw [relative, resolveComponents_names cwd (areNames_append.1 h).1, resolveComponents_names cwd h,
    dropCommon_append]
  rfl

/-! ## Extensions -/

/-- Only the extension of a name can be empty. -/
theorem stem_ne_nil {name : Text} (h : name ≠ []) : (splitExtension name).1 ≠ [] := by
  unfold splitExtension
  dsimp only
  split
  · rename_i hback
    have hlength := List.length_pos_of_ne_nil h
    rw [← List.length_pos_iff_ne_nil, List.length_take]
    omega
  · exact h

/-- A dot and what has none is the extension of every name that ends with it. -/
theorem extension_append {stem rest : Text} (hstem : stem ≠ []) (hrest : dot ∉ rest)
    (habove : stem ++ dot :: rest ≠ above) : extension (stem ++ dot :: rest) = dot :: rest := by
  have hback : (stem ++ dot :: rest).reverse.takeWhile (· != dot) = rest.reverse := by
    have hclean : ∀ u ∈ rest.reverse, (u != dot) = true := by
      intro u hu
      rw [bne_iff_ne]
      rintro rfl
      exact hrest (List.mem_reverse.1 hu)
    rw [List.reverse_append, List.reverse_cons, List.append_assoc,
      List.takeWhile_append_of_pos hclean]
    simp
  have hlength := List.length_pos_of_ne_nil hstem
  rw [extension, splitExtension, hback, List.length_reverse, List.length_append, List.length_cons,
    if_pos ⟨by omega, by omega, habove⟩]
  dsimp only
  rw [Nat.add_sub_cancel, List.drop_left]

end PodLoom.Path
