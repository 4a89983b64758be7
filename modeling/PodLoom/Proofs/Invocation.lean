import PodLoom.CommandLine
import PodLoom.Proofs.Text.Keyed

set_option autoImplicit false

/-!
# Writing a command line

There are many ways to write down the same thing: the flags may stand anywhere among the
arguments, in any order, with their long names or short ones, and a value may be attached to its
flag by an equals sign or follow it as an argument of its own.  All of them are read as what was
meant (`read_writtenAs`), whatever the values are: one that looks like a flag, an assignment or a
command is still a value.

This is so because reading goes from the left, and each group of words that a token is written
as is taken as a whole (`tokens_append`): what stands in it is never looked at as the start of
something else, and what follows it is not looked at at all.
-/

namespace PodLoom

open Text CodeUnit

namespace CommandLine

/-! ## Ways to write a token -/

/-- The flags that take no value. -/
def switchFlags : List Text := ["contents", "navbar", "help"]

/-- The names that a flag may be written with: its long one, and its short one if it has one. -/
def spellings (name : Text) : List Text :=
  name :: (shortNames.filter (·.2 == name)).map (·.1)

/-- The words that call a flag: a name of it behind one hyphen or two. -/
def flagWords (name : Text) : List Text :=
  (spellings name).flatMap fun written => [hyphen :: written, hyphen :: hyphen :: written]

/-- The words that a token may be written as. -/
inductive Token.Written : Token → List Text → Prop
  | argument (text : Text) : Written (.argument text) [text]
  | attached {name written : Text} (h : written ∈ spellings name) (value : Text) :
      Written (.flag name (some value)) [hyphen :: hyphen :: (written ++ equals :: value)]
  | separate {name word : Text} (h : word ∈ flagWords name) (value : Text) :
      Written (.flag name (some value)) [word, value]
  | switch {name word : Text} (h : word ∈ flagWords name) : Written (.flag name none) [word]

/-- A token that can be read from what it is written as: an argument is not taken for a flag, and
exactly the flags that take a value have one. -/
def Token.Proper : Token → Prop
  | .argument text => isFlag text = false
  | .flag name (some _) => name ∈ valueFlags
  | .flag name none => name ∈ switchFlags

/-! ## Reading a flag -/

/-- What makes a name readable: it is known, and nothing in it is taken for more hyphens or for
the end of the name. -/
structure Spells (written name : Text) : Prop where
  long : longName written = name
  unassigned : equals ∉ written
  headed : ∃ u rest, written = u :: rest ∧ u ≠ hyphen

theorem spells_of_mem {name written : Text} (hname : name ∈ valueFlags ++ switchFlags)
    (h : written ∈ spellings name) : Spells written name := by
  have hall : ∀ name ∈ valueFlags ++ switchFlags, ∀ written ∈ spellings name,
      longName written = name ∧ equals ∉ written ∧ written.head?.any (· != hyphen) = true := by
    decide +kernel
  obtain ⟨hlong, hequals, hhead⟩ := hall name hname written h
  refine ⟨hlong, hequals, ?_⟩
  cases written with
  | nil => cases hhead
  | cons u rest => exact ⟨u, rest, rfl, by simpa using hhead⟩

namespace Spells

variable {written name : Text}

theorem takeWhile_append (h : Spells written name) (more : Text) :
    (written ++ more).takeWhile (· != equals) = written ++ more.takeWhile (· != equals) :=
  List.takeWhile_append_of_pos fun u hu => by
    have hne : u ≠ equals := fun heq => h.unassigned (heq ▸ hu)
    simpa using hne

theorem cutFlag_attached (h : Spells written name) (value : Text) :
    cutFlag (hyphen :: hyphen :: (written ++ equals :: value)) = (written, some value) := by
  have hname : (written ++ equals :: value).takeWhile (· != equals) = written := by
    rw [h.takeWhile_append]
    simp
  have hfront : afterFront? [hyphen, hyphen] (hyphen :: hyphen :: (written ++ equals :: value))
      = some (written ++ equals :: value) := by
    simp [afterFront?]
  rw [cutFlag, hfront]
  simp [hname]

theorem cutFlag_double (h : Spells written name) :
    cutFlag (hyphen :: hyphen :: written) = (written, none) := by
  have hname : written.takeWhile (· != equals) = written := by
    have happend := h.takeWhile_append []
    rwa [List.append_nil, List.takeWhile_nil, List.append_nil] at happend
  have hfront : afterFront? [hyphen, hyphen] (hyphen :: hyphen :: written) = some written := by
    simp [afterFront?]
  rw [cutFlag, hfront]
  simp [hname]

theorem cutFlag_single (h : Spells written name) :
    cutFlag (hyphen :: written) = (written, none) := by
  obtain ⟨u, rest, rfl, hu⟩ := h.headed
  have hfront : afterFront? [hyphen, hyphen] (hyphen :: u :: rest) = none := by
    simp [afterFront?, Ne.symm hu]
  rw [cutFlag, hfront]
  rfl

end Spells

/-- A word that calls a flag is read as its name. -/
theorem read_flagWord {name word : Text} (hname : name ∈ valueFlags ++ switchFlags)
    (h : word ∈ flagWords name) :
    isFlag word = true ∧ flagName word = name ∧ (cutFlag word).2 = none := by
  obtain ⟨written, hwritten, hword⟩ := List.mem_flatMap.1 h
  have hspells := spells_of_mem hname hwritten
  obtain ⟨u, rest, hcons, -⟩ := hspells.headed
  rw [List.mem_pair] at hword
  rcases hword with rfl | rfl
  · refine ⟨by simp [isFlag, hcons], ?_, ?_⟩
    · rw [flagName, hspells.cutFlag_single, hspells.long]
    · rw [hspells.cutFlag_single]
  · refine ⟨by simp [isFlag], ?_, ?_⟩
    · rw [flagName, hspells.cutFlag_double, hspells.long]
    · rw [hspells.cutFlag_double]

/-- A flag with its value attached is read as both. -/
theorem read_attached {name written : Text} (hname : name ∈ valueFlags ++ switchFlags)
    (h : written ∈ spellings name) (value : Text) :
    let word := hyphen :: hyphen :: (written ++ equals :: value)
    isFlag word = true ∧ flagName word = name ∧ (cutFlag word).2 = some value := by
  intro word
  have hspells := spells_of_mem hname h
  have hcut : cutFlag word = (written, some value) := hspells.cutFlag_attached value
  refine ⟨by simp [isFlag, word], ?_, ?_⟩
  · rw [flagName, hcut, hspells.long]
  · rw [hcut]

/-! ## Reading the words of a token -/

theorem tokens_cons_of_alone {arg : Text} (h : awaitsValue arg = false) (rest : List Text) :
    tokens (arg :: rest) = .alone arg :: tokens rest := by
  cases rest with
  | nil => rw [tokens, tokens]
  | cons next rest => rw [tokens, h, if_neg Bool.false_ne_true]

theorem tokens_cons_of_awaits {arg : Text} (h : awaitsValue arg = true) (value : Text)
    (rest : List Text) :
    tokens (arg :: value :: rest) = .flag (flagName arg) (some value) :: tokens rest := by
  rw [tokens, if_pos h]

theorem takesValue_iff {name : Text} : takesValue name = true ↔ name ∈ valueFlags :=
  List.contains_iff_mem

theorem not_takesValue_of_switch {name : Text} (h : name ∈ switchFlags) :
    takesValue name = false := by
  have hall : ∀ name ∈ switchFlags, takesValue name = false := by decide +kernel
  exact hall name h

/-- The words of a token are read as the token, whatever comes behind them. -/
theorem tokens_append {t : Token} {words : List Text} (hwritten : t.Written words)
    (hproper : t.Proper) (rest : List Text) : tokens (words ++ rest) = t :: tokens rest := by
  cases hwritten with
  | argument text =>
    have hflag : isFlag text = false := hproper
    refine (tokens_cons_of_alone (by rw [awaitsValue, hflag]; rfl) rest).trans ?_
    rw [Token.alone, hflag, if_neg Bool.false_ne_true]
  | @attached name written h value =>
    obtain ⟨hflag, hname, hcut⟩ := read_attached (List.mem_append_left _ hproper) h value
    refine (tokens_cons_of_alone (by rw [awaitsValue, hcut]; simp) rest).trans ?_
    rw [Token.alone, if_pos hflag, hname, hcut, if_pos (takesValue_iff.2 hproper)]
  | @separate name word h value =>
    obtain ⟨hflag, hname, hcut⟩ := read_flagWord (List.mem_append_left _ hproper) h
    have hawaits : awaitsValue word = true := by
      rw [awaitsValue, hflag, hname, hcut, takesValue_iff.2 hproper]
      rfl
    refine (tokens_cons_of_awaits hawaits value rest).trans ?_
    rw [hname]
  | @switch name word h =>
    obtain ⟨hflag, hname, hcut⟩ := read_flagWord (List.mem_append_right _ hproper) h
    have htakes := not_takesValue_of_switch hproper
    refine (tokens_cons_of_alone (by rw [awaitsValue, hname, htakes]; simp) rest).trans ?_
    rw [Token.alone, if_pos hflag, hname, htakes, if_neg Bool.false_ne_true]

/-- Tokens are read back from the words they are written as. -/
theorem tokens_flatten {ts : List Token} {groups : List (List Text)}
    (hwritten : List.Forall₂ Token.Written ts groups) (hproper : ∀ t ∈ ts, t.Proper) :
    tokens groups.flatten = ts := by
  induction hwritten with
  | nil => rfl
  | cons hfirst _ ih =>
    obtain ⟨hproper, hrest⟩ := List.forall_mem_cons.1 hproper
    rw [List.flatten_cons, tokens_append hfirst hproper, ih hrest]

end CommandLine

/-! ## What is meant by a command line -/

/-- What a command line is to say: a command with its arguments, flags with their values, and
flags without. -/
structure Invocation where
  command : Command
  arguments : List Text
  values : List (Text × Text)
  switches : List Text
  arguments_positional : ∀ arg ∈ arguments,
    arg = Endpoint.dash ∨ arg.head? ≠ some CommandLine.hyphen
  values_known : ∀ pair ∈ values, pair.1 ∈ CommandLine.valueFlags
  values_distinct : (Keyed.keys values).Nodup
  switches_known : ∀ flag ∈ switches, flag ∈ CommandLine.switchFlags
  switches_distinct : switches.Nodup

namespace Invocation

open CommandLine

variable (i : Invocation)

/-- The flags as they are read. -/
def flags : List (Text × Option Text) :=
  i.values.map (fun pair => (pair.1, some pair.2)) ++ i.switches.map (·, none)

/-- Tokens that say what is meant, in any order that has the command before its arguments and
the arguments in theirs. -/
structure Arranges (ts : List Token) : Prop where
  arguments : ts.filterMap Token.argument? = i.command.name :: i.arguments
  flags : (ts.filterMap Token.flag?).Perm i.flags

/-- The words of a command line that says what is meant. -/
def WrittenAs (args : List Text) : Prop :=
  ∃ ts groups, i.Arranges ts ∧ List.Forall₂ Token.Written ts groups ∧ args = groups.flatten

theorem keys_flags : Keyed.keys i.flags = Keyed.keys i.values ++ i.switches := by
  simp [flags, Keyed.keys, Function.comp_def]

theorem keys_flags_nodup : (Keyed.keys i.flags).Nodup := by
  rw [keys_flags, List.nodup_append]
  refine ⟨i.values_distinct, i.switches_distinct, ?_⟩
  intro flag hvalue other hswitch heq
  subst heq
  obtain ⟨pair, hpair, rfl⟩ := List.mem_map.1 hvalue
  have htakes := not_takesValue_of_switch (i.switches_known _ hswitch)
  rw [takesValue_iff.2 (i.values_known pair hpair)] at htakes
  cases htakes

variable {i}

/-- Tokens that say what is meant can be read from their words. -/
theorem Arranges.proper {ts : List Token} (h : i.Arranges ts) : ∀ t ∈ ts, t.Proper := by
  intro t ht
  cases t with
  | argument text =>
    have hmem : text ∈ i.command.name :: i.arguments :=
      h.arguments ▸ List.mem_filterMap.2 ⟨.argument text, ht, rfl⟩
    show isFlag text = false
    rcases List.mem_cons.1 hmem with rfl | hmem
    · cases i.command <;> decide
    · rcases i.arguments_positional text hmem with rfl | hhead
      · decide
      · simp [isFlag, hhead]
  | flag name value =>
    have hmem : (name, value) ∈ i.flags :=
      h.flags.mem_iff.1 (List.mem_filterMap.2 ⟨.flag name value, ht, rfl⟩)
    rcases List.mem_append.1 hmem with hmem | hmem
    · obtain ⟨pair, hpair, heq⟩ := List.mem_map.1 hmem
      obtain ⟨rfl, rfl⟩ := Prod.mk.inj heq
      exact i.values_known pair hpair
    · obtain ⟨flag, hflag, heq⟩ := List.mem_map.1 hmem
      obtain ⟨rfl, rfl⟩ := Prod.mk.inj heq
      exact i.switches_known flag hflag

/-- What tokens make up is what they are arranged to say. -/
theorem Arranges.ofTokens_eq {ts : List Token} (h : i.Arranges ts) :
    ofTokens ts = ⟨i.command, i.arguments, ts.filterMap Token.flag?⟩ := by
  have hkeys : (Keyed.keys (ts.filterMap Token.flag?)).Nodup :=
    (h.flags.map Prod.fst).nodup_iff.2 i.keys_flags_nodup
  unfold ofTokens
  rw [h.arguments, Keyed.dedup_of_nodup hkeys]
  dsimp only
  rw [Command.ofName?_name]

theorem find?_flags_eq_some_iff {flag : Text} {value : Option Text} :
    Keyed.find? flag i.flags = some value
      ↔ (∃ text, value = some text ∧ (flag, text) ∈ i.values)
        ∨ value = none ∧ flag ∈ i.switches := by
  have hmem : Keyed.find? flag i.flags = some value ↔ (flag, value) ∈ i.flags :=
    ⟨Keyed.mem_of_find?, Keyed.find?_of_mem i.keys_flags_nodup⟩
  rw [hmem, flags, List.mem_append, List.mem_map, List.mem_map]
  constructor
  · rintro (⟨pair, hpair, heq⟩ | ⟨switch, hswitch, heq⟩)
    · obtain ⟨rfl, rfl⟩ := Prod.mk.inj heq
      exact .inl ⟨pair.2, rfl, hpair⟩
    · obtain ⟨rfl, rfl⟩ := Prod.mk.inj heq
      exact .inr ⟨rfl, hswitch⟩
  · rintro (⟨text, rfl, hpair⟩ | ⟨rfl, hswitch⟩)
    · exact .inl ⟨(flag, text), hpair, rfl⟩
    · exact .inr ⟨flag, hswitch, rfl⟩

/-- However a command line is written, it is read as the command, the arguments and exactly the
flags that are meant, each with the value it is given. -/
theorem read_writtenAs {args : List Text} (h : i.WrittenAs args) :
    (read args).command = i.command ∧ (read args).arguments = i.arguments
      ∧ (read args).flags.Perm i.flags
      ∧ (∀ flag text, (read args).value? flag = some text ↔ (flag, text) ∈ i.values)
      ∧ ∀ flag, (read args).has flag = true
        ↔ flag ∈ Keyed.keys i.values ∨ flag ∈ i.switches := by
  obtain ⟨ts, groups, harranges, hwritten, rfl⟩ := h
  have hread : read groups.flatten = ⟨i.command, i.arguments, ts.filterMap Token.flag?⟩ := by
    show ofTokens (tokens groups.flatten) = _
    rw [tokens_flatten hwritten harranges.proper, harranges.ofTokens_eq]
  have hfind : ∀ flag, Keyed.find? flag (ts.filterMap Token.flag?) = Keyed.find? flag i.flags :=
    fun flag => Keyed.find?_perm i.keys_flags_nodup harranges.flags.symm
  rw [hread]
  refine ⟨rfl, rfl, harranges.flags, fun flag text => ?_, fun flag => ?_⟩
  · rw [value?, hfind, Option.join_eq_some_iff, find?_flags_eq_some_iff]
    simp
  · rw [has, hfind, ← List.mem_append, ← keys_flags, ← not_iff_not, ← Keyed.find?_eq_none_iff]
    simp

/-- Values that look like flags, an assignment and commands, and an empty one. -/
def disguised : Invocation where
  command := .batch
  arguments := ["-", "batch"]
  values := [("title", "--output=x"), ("output", "help"), ("log-level", "--style"), ("id", "")]
  switches := ["contents", "navbar"]
  arguments_positional := by decide
  values_known := by decide +kernel
  values_distinct := by decide
  switches_known := by decide +kernel
  switches_distinct := by decide

/-- The flags stand before, between and behind the arguments. -/
def disguisedTokens : List Token :=
  [.flag "title" (some "--output=x"), .argument "batch", .flag "output" (some "help"),
    .argument "-", .flag "navbar" none, .flag "log-level" (some "--style"), .argument "batch",
    .flag "id" (some ""), .flag "contents" none]

theorem read_writtenAs_disguised :
    let args : List Text := ["--title=--output=x", "batch", "-o", "help", "-", "-n",
      "--log-level", "--style", "batch", "--id=", "--contents"]
    disguised.WrittenAs args
      ∧ (read args).command = .batch ∧ (read args).arguments = ["-", "batch"]
      ∧ (read args).value? "title" = some (ofString "--output=x")
      ∧ (read args).value? "log-level" = some (ofString "--style")
      ∧ (read args).has "style" = false := by
  intro args
  have harranges : disguised.Arranges disguisedTokens := ⟨by decide +kernel, by decide +kernel⟩
  have hwritten : disguised.WrittenAs args := by
    refine ⟨disguisedTokens, [["--title=--output=x"], ["batch"], ["-o", "help"], ["-"], ["-n"],
      ["--log-level", "--style"], ["batch"], ["--id="], ["--contents"]], harranges, ?_, rfl⟩
    refine .cons ?_ (.cons (.argument _) (.cons ?_ (.cons (.argument _) (.cons ?_ (.cons ?_
      (.cons (.argument _) (.cons ?_ (.cons ?_ .nil))))))))
    · exact .attached (show ofString "title" ∈ spellings "title" by decide +kernel) "--output=x"
    · exact .separate (by decide +kernel) "help"
    · exact .switch (by decide +kernel)
    · exact .separate (by decide +kernel) "--style"
    · exact .attached (show ofString "id" ∈ spellings "id" by decide +kernel) ""
    · exact .switch (by decide +kernel)
  obtain ⟨hcommand, harguments, -, hvalue, hhas⟩ := read_writtenAs hwritten
  refine ⟨hwritten, hcommand, harguments, (hvalue _ _).2 ?_, (hvalue _ _).2 ?_, ?_⟩
  · decide +kernel
  · decide +kernel
  · rw [← Bool.not_eq_true, hhas]
    decide +kernel

end Invocation

end PodLoom
