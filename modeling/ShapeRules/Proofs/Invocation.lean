import Mathlib.Data.List.Induction
import Mathlib.Data.List.Nodup
import Mathlib.Data.List.TakeWhile
import ShapeRules.Command.Arguments

/-!
# How a request is spelled

An option with a value can be spelled in five ways, and options come in any order. An argument list
asks for a request exactly if it spells some choices, one for each option that is given, no option
twice and no path empty. It asks for a page of the manual if help is asked for in its place, after
choices that can be made together.

## Main definitions

* `Argument.Written`: the spellings of an argument
* `Choice`, `SpelledBy`: the argument lists that spell choices
* `Consistent`, `Request.Collects`: choices that make up a request
* `Asks`, `AsksForPage`: the argument lists that ask for a request, or for a page of the manual

## Main results

* `Argument.ofString?_eq_some_iff`: an argument is read as what it is a spelling of
* `Request.complete?_eq_some_iff`: a request is completed by what the arguments spell
* `Invocation.ofArguments?_eq_compile_iff`, `Invocation.ofArguments?_eq_help_iff`: the argument
  lists that are read as a request, and as asking for a page
-/

namespace ShapeRules.Command

/-! ## Single arguments -/

/-- **The spellings of an argument.** -/
inductive Argument.Written : Argument → String → Prop
  | long (setting : Setting) (value : String) :
    Written (.attached setting value) ("--" ++ setting.longName ++ "=" ++ value)
  | short {setting : Setting} {c : Char} (hc : setting.shortName? = some c) (value : String) :
    Written (.attached setting value) ("-" ++ String.singleton c ++ "=" ++ value)
  | joined {setting : Setting} {c : Char} (hc : setting.shortName? = some c) {value : String}
    (nonempty : value ≠ "") (plain : value.toList.head? ≠ some '=') :
    Written (.attached setting value) ("-" ++ String.singleton c ++ value)
  | longName (setting : Setting) : Written (.awaiting setting) ("--" ++ setting.longName)
  | shortName {setting : Setting} {c : Char} (hc : setting.shortName? = some c) :
    Written (.awaiting setting) ("-" ++ String.singleton c)
  | permissive : Written .permissive "--permissive"
  | help : Written (.help false) "--help"
  | briefHelp (rest : String) : Written (.help true) ("-h" ++ rest)
  | endOfOptions : Written .endOfOptions "--"

theorem find?_longName (setting : Setting) :
    Setting.all.find? (·.longName == setting.longName) = some setting := by
  cases setting <;> decide

theorem find?_shortName {setting : Setting} {c : Char} (hc : setting.shortName? = some c) :
    Setting.all.find? (·.shortName? == some c) = some setting := by
  cases setting <;> cases hc <;> decide

theorem all_longName (setting : Setting) : ∀ c ∈ setting.longName.toList, (c != '=') = true := by
  have hall : setting.longName.toList.all (· != '=') := by cases setting <;> decide
  exact List.all_eq_true.1 hall

theorem longArgument?_attached (setting : Setting) (value : String) :
    longArgument? (setting.longName.toList ++ '=' :: value.toList) =
      some (.attached setting value) := by
  have htake : (setting.longName.toList ++ '=' :: value.toList).takeWhile (· != '=') =
      setting.longName.toList := by
    rw [List.takeWhile_append_of_pos (all_longName setting), List.takeWhile_cons_of_neg (by decide),
      List.append_nil]
  have hdrop : (setting.longName.toList ++ '=' :: value.toList).dropWhile (· != '=') =
      '=' :: value.toList := by
    rw [List.dropWhile_append_of_pos (all_longName setting), List.dropWhile_cons_of_neg (by decide)]
  simp only [longArgument?, htake, hdrop, String.ofList_toList, find?_longName]

theorem longArgument?_awaiting (setting : Setting) :
    longArgument? setting.longName.toList = some (.awaiting setting) := by
  have htake : setting.longName.toList.takeWhile (· != '=') = setting.longName.toList :=
    List.takeWhile_eq_self_iff.2 (all_longName setting)
  have hdrop : setting.longName.toList.dropWhile (· != '=') = [] :=
    List.dropWhile_eq_nil_iff.2 (all_longName setting)
  simp only [longArgument?, htake, hdrop, String.ofList_toList, find?_longName]

/-- A long name is read up to the first equals sign. -/
theorem written_of_longArgument? {cs : List Char} {a : Argument} (h : longArgument? cs = some a) :
    a.Written ("--" ++ String.ofList cs) := by
  have hcs := List.takeWhile_append_dropWhile (p := (· != '=')) (l := cs)
  cases hdrop : cs.dropWhile (· != '=') with
  | nil =>
    rw [hdrop, List.append_nil] at hcs
    simp only [longArgument?, hdrop, hcs] at h
    split at h
    next hvalue => cases hvalue
    next setting hsetting _ =>
      have hname : setting.longName = String.ofList cs := by simpa using List.find?_some hsetting
      obtain rfl := Option.some.inj h
      exact hname ▸ .longName setting
    next =>
      split_ifs at h with hpermissive hhelp
      · obtain rfl := Option.some.inj h
        exact hpermissive ▸ .permissive
      · obtain rfl := Option.some.inj h
        exact hhelp ▸ .help
    next => cases h
  | cons d value =>
    have hd : (d != '=') = false := by simpa [hdrop] using List.head?_dropWhile_not (· != '=') cs
    obtain rfl : d = '=' := by simpa using hd
    simp only [longArgument?, hdrop] at h
    split at h
    next setting text hsetting hvalue =>
      obtain rfl := Option.some.inj hvalue
      obtain rfl := Option.some.inj h
      have hname : setting.longName = String.ofList (cs.takeWhile (· != '=')) := by
        simpa using List.find?_some hsetting
      have hwritten : "--" ++ String.ofList cs =
          "--" ++ setting.longName ++ "=" ++ String.ofList value := by
        rw [← String.toList_inj, hname]
        simp [← hdrop, hcs]
      exact hwritten ▸ .long setting _
    next hvalue => cases hvalue
    next hvalue => cases hvalue
    next => cases h

theorem written_argument {setting : Setting} {c : Char} (hc : setting.shortName? = some c)
    (cs : List Char) :
    (setting.argument cs).Written ("-" ++ String.singleton c ++ String.ofList cs) := by
  rw [Setting.argument.eq_def]
  split
  · simpa using Argument.Written.shortName hc
  next value =>
    have hwritten : "-" ++ String.singleton c ++ String.ofList ('=' :: value) =
        "-" ++ String.singleton c ++ "=" ++ String.ofList value := by
      rw [← String.toList_inj]
      simp
    exact hwritten ▸ .short hc _
  next hempty hplain =>
    refine .joined hc ?_ ?_
    · intro he
      exact hempty (by simpa using congrArg String.toList he)
    · intro he
      obtain ⟨rest, hrest⟩ := List.head?_eq_some_iff.1 he
      exact hplain rest (by simpa using hrest)

/-- A short name is read with what follows it. -/
theorem written_of_shortArgument? {c : Char} {cs : List Char} {a : Argument}
    (h : shortArgument? c cs = some a) :
    a.Written ("-" ++ String.singleton c ++ String.ofList cs) := by
  rw [shortArgument?] at h
  split at h
  next hc =>
    obtain rfl := Option.some.inj h
    rw [hc]
    exact .briefHelp _
  next =>
    obtain ⟨setting, hsetting, rfl⟩ := Option.map_eq_some_iff.1 h
    have hc : setting.shortName? = some c := by simpa using List.find?_some hsetting
    exact written_argument hc cs

theorem ofString?_long {s : String} (cs : List Char) (hcs : cs ≠ [])
    (hs : s.toList = '-' :: '-' :: cs) : Argument.ofString? s = longArgument? cs := by
  obtain ⟨c, cs, rfl⟩ := List.exists_cons_of_ne_nil hcs
  rw [Argument.ofString?, hs]
  rfl

theorem ofString?_short {s : String} {c : Char} (hc : c ≠ '-') (cs : List Char)
    (hs : s.toList = '-' :: c :: cs) : Argument.ofString? s = shortArgument? c cs := by
  rw [Argument.ofString?, hs]
  split
  next he => simp [hc] at he
  next he => simp [hc] at he
  next he =>
    obtain ⟨rfl, rfl⟩ := (List.cons.inj (List.cons.inj he).2)
    rfl
  next he => exact absurd rfl (he c cs)

/-- The short name of an option that takes a value is read with what follows it. -/
theorem ofString?_shortName {setting : Setting} {s : String} {c : Char}
    (hc : setting.shortName? = some c) (cs : List Char) (hs : s.toList = '-' :: c :: cs) :
    Argument.ofString? s = some (setting.argument cs) := by
  have hmark : c ≠ '-' ∧ c ≠ 'h' := by cases setting <;> cases hc <;> decide
  rw [ofString?_short hmark.1 cs hs, shortArgument?, if_neg hmark.2, find?_shortName hc,
    Option.map_some]

/-- **An argument is read as what it is a spelling of.** -/
theorem Argument.ofString?_eq_some_iff {s : String} {a : Argument} :
    Argument.ofString? s = some a ↔ a.Written s := by
  constructor
  · intro h
    have hs : s = String.ofList s.toList := String.ofList_toList.symm
    rw [Argument.ofString?] at h
    split at h
    next hmark =>
      obtain rfl := Option.some.inj h
      rw [hs, hmark]
      exact .endOfOptions
    next cs _ hlong =>
      have hwritten : s = "--" ++ String.ofList cs := by
        rw [hs, hlong, ← String.toList_inj]
        simp
      exact hwritten ▸ written_of_longArgument? h
    next c cs _ _ hshort =>
      have hwritten : s = "-" ++ String.singleton c ++ String.ofList cs := by
        rw [hs, hshort, ← String.toList_inj]
        simp
      exact hwritten ▸ written_of_shortArgument? h
    next => cases h
  · intro h
    cases h with
    | long setting value =>
      rw [ofString?_long (setting.longName.toList ++ '=' :: value.toList) (by simp) (by simp),
        longArgument?_attached]
    | short hc value =>
      rw [ofString?_shortName hc ('=' :: value.toList) (by simp), Setting.argument,
        String.ofList_toList]
    | @joined setting c hc value nonempty plain =>
      rw [ofString?_shortName hc value.toList (by simp), Setting.argument.eq_def]
      split
      next hvalue => exact absurd (String.toList_eq_nil_iff.1 hvalue) nonempty
      next hvalue => exact absurd (by rw [hvalue]; rfl) plain
      next => rw [String.ofList_toList]
    | longName setting =>
      have hne : setting.longName.toList ≠ [] := by cases setting <;> decide
      rw [ofString?_long _ hne (by simp), longArgument?_awaiting]
    | shortName hc => rw [ofString?_shortName hc [] (by simp), Setting.argument]
    | permissive => decide
    | help => decide
    | briefHelp rest =>
      rw [ofString?_short (c := 'h') (by decide) rest.toList (by simp), shortArgument?, if_pos rfl]
    | endOfOptions => decide

/-! ## Argument lists -/

/-- **One thing that is asked for:** an option with its value, or to go on where a constraint has no
counterpart. -/
inductive Choice where
  | value (setting : Setting) (text : String)
  | permissive
  deriving DecidableEq, Repr

/-- What a choice is about. -/
def Choice.setting? : Choice → Option Setting
  | value setting _ => some setting
  | permissive => none

/-- **The argument lists that spell choices,** in order, and what follows. -/
inductive SpelledBy : List Choice → List String → List String → Prop
  | nil (rest : List String) : SpelledBy [] rest rest
  | attached {choices : List Choice} {arguments rest : List String} {a : String}
    {setting : Setting} {text : String} (ha : (Argument.attached setting text).Written a)
    (others : SpelledBy choices arguments rest) :
    SpelledBy (.value setting text :: choices) (a :: arguments) rest
  | apart {choices : List Choice} {arguments rest : List String} {a : String} {setting : Setting}
    {text : String} (ha : (Argument.awaiting setting).Written a)
    (plain : looksLikeOption text = false) (others : SpelledBy choices arguments rest) :
    SpelledBy (.value setting text :: choices) (a :: text :: arguments) rest
  | permissive {choices : List Choice} {arguments rest : List String} {a : String}
    (ha : Argument.permissive.Written a) (others : SpelledBy choices arguments rest) :
    SpelledBy (.permissive :: choices) (a :: arguments) rest

namespace Request

/-- **What a request comes to,** by the arguments that follow its choices. -/
inductive Concludes (r : Request) : List String → Invocation → Prop
  | nil (source : r.file.isSome ∨ r.format.isSome) : Concludes r [] (.compile r)
  | mark {a : String} (ha : Argument.endOfOptions.Written a)
    (source : r.file.isSome ∨ r.format.isSome) : Concludes r [a] (.compile r)
  | help {a : String} {brief : Bool} (ha : (Argument.help brief).Written a) (rest : List String) :
    Concludes r (a :: rest) (.help { topic := .action, brief })

/-- A request with a choice about which it says nothing yet. -/
def choose? (r : Request) : Choice → Option Request
  | .value setting text => r.set? setting text
  | .permissive => if r.permissive then none else some { r with permissive := true }

theorem foldlM_choose_cons_iff {r r' : Request} {c : Choice} {choices : List Choice} :
    (c :: choices).foldlM choose? r = some r' ↔
      ∃ q, r.choose? c = some q ∧ choices.foldlM choose? q = some r' := by
  rw [List.foldlM_cons]
  exact Option.bind_eq_some_iff

theorem complete?_nil_iff {r : Request} {i : Invocation} :
    r.complete? [] = some i ↔ (r.file.isSome ∨ r.format.isSome) ∧ i = .compile r := by
  rw [complete?, ← Bool.or_eq_true]
  split
  next h => simp [h, eq_comm]
  next h => simp [h]

theorem Concludes.complete? {r : Request} {rest : List String} {i : Invocation}
    (h : r.Concludes rest i) : r.complete? rest = some i := by
  cases h with
  | nil source => exact complete?_nil_iff.2 ⟨source, rfl⟩
  | mark ha source =>
    rw [Request.complete?, Argument.ofString?_eq_some_iff.2 ha]
    exact complete?_nil_iff.2 ⟨source, rfl⟩
  | help ha rest => rw [Request.complete?, Argument.ofString?_eq_some_iff.2 ha]

/-- **A request is completed by what the arguments spell.** -/
theorem complete?_eq_some_iff {r : Request} {arguments : List String} {i : Invocation} :
    r.complete? arguments = some i ↔ ∃ choices rest q,
      SpelledBy choices arguments rest ∧ choices.foldlM choose? r = some q ∧
        q.Concludes rest i := by
  constructor
  · intro h
    fun_induction Request.complete? r arguments with
    | case1 r hsource =>
      obtain rfl := Option.some.inj h
      exact ⟨[], [], r, .nil _, rfl, .nil (Bool.or_eq_true _ _ ▸ hsource)⟩
    | case3 r a rest setting text ha ih =>
      obtain ⟨q, hq, h⟩ := Option.bind_eq_some_iff.1 h
      obtain ⟨choices, rest, q', hspelled, hchoices, h⟩ := ih q h
      exact ⟨_, rest, q', .attached (Argument.ofString?_eq_some_iff.1 ha) hspelled,
        foldlM_choose_cons_iff.2 ⟨q, hq, hchoices⟩, h⟩
    | case6 r a setting ha text rest plain ih =>
      obtain ⟨q, hq, h⟩ := Option.bind_eq_some_iff.1 h
      obtain ⟨choices, rest, q', hspelled, hchoices, h⟩ := ih q h
      exact ⟨_, rest, q', .apart (Argument.ofString?_eq_some_iff.1 ha)
        (Bool.not_eq_true _ ▸ plain) hspelled, foldlM_choose_cons_iff.2 ⟨q, hq, hchoices⟩, h⟩
    | case8 r a rest ha hr ih =>
      obtain ⟨choices, rest, q, hspelled, hchoices, h⟩ := ih h
      exact ⟨_, rest, q, .permissive (Argument.ofString?_eq_some_iff.1 ha) hspelled,
        foldlM_choose_cons_iff.2 ⟨_, if_neg hr, hchoices⟩, h⟩
    | case9 r a rest brief ha =>
      obtain rfl := Option.some.inj h
      exact ⟨[], _, r, .nil _, rfl, .help (Argument.ofString?_eq_some_iff.1 ha) rest⟩
    | case10 r a rest ha hrest ih =>
      obtain rfl := List.isEmpty_iff.1 hrest
      obtain ⟨hsource, rfl⟩ := complete?_nil_iff.1 h
      exact ⟨[], [a], r, .nil _, rfl, .mark (Argument.ofString?_eq_some_iff.1 ha) hsource⟩
    | _ => cases h
  · rintro ⟨choices, rest, q, hspelled, hchoices, h⟩
    induction hspelled generalizing r with
    | nil rest =>
      obtain rfl := Option.some.inj hchoices
      exact h.complete?
    | attached ha others ih =>
      obtain ⟨q', hq, hchoices⟩ := foldlM_choose_cons_iff.1 hchoices
      rw [Request.complete?, Argument.ofString?_eq_some_iff.2 ha]
      exact Option.bind_eq_some_iff.2 ⟨q', hq, ih hchoices h⟩
    | apart ha plain others ih =>
      obtain ⟨q', hq, hchoices⟩ := foldlM_choose_cons_iff.1 hchoices
      rw [Request.complete?, Argument.ofString?_eq_some_iff.2 ha]
      simp only [plain]
      exact Option.bind_eq_some_iff.2 ⟨q', hq, ih hchoices h⟩
    | permissive ha others ih =>
      obtain ⟨q', hq, hchoices⟩ := foldlM_choose_cons_iff.1 hchoices
      rw [Request.complete?, Argument.ofString?_eq_some_iff.2 ha]
      rw [choose?] at hq
      split at hq
      next => cases hq
      next hr =>
        obtain rfl := Option.some.inj hq
        simp only [hr]
        exact ih hchoices h

end Request

/-! ## What choices make up -/

/-- **Choices that can be made together:** none is about the same option as another, and no path is
empty. -/
structure Consistent (choices : List Choice) : Prop where
  once : (choices.map Choice.setting?).Nodup
  paths : ∀ setting text, .value setting text ∈ choices → setting.isPath → text ≠ ""

namespace Request

/-- **A request that says what the choices say.** -/
structure Collects (r : Request) (choices : List Choice) : Prop where
  values : ∀ setting text, r.get setting = some text ↔ .value setting text ∈ choices
  permissive : r.permissive ↔ .permissive ∈ choices

theorem get_set (r : Request) (setting other : Setting) (text : String) :
    (r.set setting text).get other = if other = setting then some text else r.get other := by
  cases setting <;> cases other <;> rfl

theorem permissive_set (r : Request) (setting : Setting) (text : String) :
    (r.set setting text).permissive = r.permissive := by
  cases setting <;> rfl

/-- The choices tell the request. -/
theorem Collects.unique {r r' : Request} {choices : List Choice} (h : r.Collects choices)
    (h' : r'.Collects choices) : r = r' := by
  have hget : ∀ setting, r.get setting = r'.get setting := by
    intro setting
    refine Option.ext fun text => ?_
    rw [h.values, h'.values]
  have hpermissive : r.permissive = r'.permissive := by
    rw [Bool.eq_iff_iff, h.permissive, h'.permissive]
  obtain ⟨file, format, base, output, library, permissive⟩ := r
  obtain ⟨file', format', base', output', library', permissive'⟩ := r'
  obtain rfl : file = file' := hget .file
  obtain rfl : format = format' := hget .format
  obtain rfl : base = base' := hget .base
  obtain rfl : output = output' := hget .output
  obtain rfl : library = library' := hget .library
  obtain rfl : permissive = permissive' := hpermissive
  rfl

theorem Collects.some_mem_iff {r : Request} {choices : List Choice} (h : r.Collects choices)
    (setting : Setting) :
    some setting ∈ choices.map Choice.setting? ↔ (r.get setting).isSome := by
  simp only [List.mem_map, Option.isSome_iff_exists, h.values]
  constructor
  · rintro ⟨c, hc, he⟩
    cases c with
    | value setting text =>
      obtain rfl := Option.some.inj he
      exact ⟨text, hc⟩
    | permissive => cases he
  · rintro ⟨text, hc⟩
    exact ⟨_, hc, rfl⟩

theorem Collects.none_mem_iff {r : Request} {choices : List Choice} (h : r.Collects choices) :
    none ∈ choices.map Choice.setting? ↔ r.permissive := by
  rw [List.mem_map, h.permissive]
  constructor
  · rintro ⟨c, hc, he⟩
    cases c with
    | value setting text => cases he
    | permissive => exact hc
  · intro hc
    exact ⟨_, hc, rfl⟩

/-- A choice is possible exactly if the request says nothing about its option, and it is no empty
path. -/
theorem Collects.isSome_choose_iff {r : Request} {choices : List Choice} (h : r.Collects choices)
    (c : Choice) :
    (r.choose? c).isSome ↔ c.setting? ∉ choices.map Choice.setting? ∧
      ∀ setting text, c = .value setting text → setting.isPath → text ≠ "" := by
  cases c with
  | value setting text =>
    rw [choose?, set?, Choice.setting?, h.some_mem_iff]
    cases r.get setting <;> cases hpath : setting.isPath <;> simp [hpath]
  | permissive =>
    rw [choose?, Choice.setting?, h.none_mem_iff]
    cases r.permissive <;> simp

/-- **One more choice.** -/
theorem Collects.choose {r r' : Request} {choices : List Choice} {c : Choice}
    (hr : r.Collects choices) (h : r.choose? c = some r') : r'.Collects (choices ++ [c]) := by
  cases c with
  | value setting text =>
    rw [choose?, set?] at h
    split at h
    next => cases h
    next hnew =>
      obtain rfl := Option.some.inj h
      have hget : r.get setting = none := by
        rw [Bool.or_eq_true, not_or] at hnew
        simpa using hnew.1
      refine ⟨fun other t => ?_, ?_⟩
      · rw [get_set, List.mem_append, ← hr.values]
        by_cases hother : other = setting
        · subst hother
          simp [hget, eq_comm]
        · simp [hother]
      · rw [permissive_set, hr.permissive]
        simp
  | permissive =>
    rw [choose?] at h
    split at h
    next => cases h
    next =>
      obtain rfl := Option.some.inj h
      refine ⟨fun other t => ?_, by simp⟩
      rw [List.mem_append, ← hr.values]
      cases other <;> simp [get]

theorem consistent_concat_iff {choices : List Choice} {c : Choice} :
    Consistent (choices ++ [c]) ↔ Consistent choices ∧ c.setting? ∉ choices.map Choice.setting? ∧
      ∀ setting text, c = .value setting text → setting.isPath → text ≠ "" := by
  constructor
  · rintro ⟨honce, hpaths⟩
    rw [List.map_append, List.map_singleton, List.nodup_append_comm, List.singleton_append,
      List.nodup_cons] at honce
    refine ⟨⟨honce.2, fun setting text h => hpaths setting text (List.mem_append_left _ h)⟩,
      honce.1, ?_⟩
    rintro setting text rfl
    exact hpaths setting text (List.mem_append_right _ List.mem_cons_self)
  · rintro ⟨⟨honce, hpaths⟩, hnew, hpath⟩
    refine ⟨?_, fun setting text h => ?_⟩
    · rw [List.map_append, List.map_singleton, List.nodup_append_comm, List.singleton_append,
        List.nodup_cons]
      exact ⟨hnew, honce⟩
    · rcases List.mem_append.1 h with h | h
      · exact hpaths setting text h
      · exact hpath setting text (List.mem_singleton.1 h).symm

theorem collects_of_foldlM {choices : List Choice} {r : Request}
    (h : choices.foldlM choose? {} = some r) : Consistent choices ∧ r.Collects choices := by
  induction choices using List.reverseRecOn generalizing r with
  | nil =>
    obtain rfl := Option.some.inj h
    refine ⟨⟨List.nodup_nil, by simp⟩, ⟨fun setting text => ?_, by simp⟩⟩
    cases setting <;> simp [get]
  | append_singleton choices c ih =>
    rw [List.foldlM_append] at h
    obtain ⟨q, hq, h⟩ := Option.bind_eq_some_iff.1 h
    obtain ⟨hconsistent, hcollects⟩ := ih hq
    have hchoose : q.choose? c = some r := by simpa using h
    refine ⟨consistent_concat_iff.2 ⟨hconsistent, ?_⟩, hcollects.choose hchoose⟩
    exact (hcollects.isSome_choose_iff c).1 (hchoose ▸ rfl)

theorem exists_foldlM_of_consistent {choices : List Choice} (h : Consistent choices) :
    ∃ r, choices.foldlM choose? {} = some r := by
  induction choices using List.reverseRecOn with
  | nil => exact ⟨_, rfl⟩
  | append_singleton choices c ih =>
    obtain ⟨h, hc⟩ := consistent_concat_iff.1 h
    obtain ⟨q, hq⟩ := ih h
    obtain ⟨r, hr⟩ := Option.isSome_iff_exists.1
      (((collects_of_foldlM hq).2.isSome_choose_iff c).2 hc)
    refine ⟨r, ?_⟩
    rw [List.foldlM_append, hq]
    simpa using hr

/-- **Choices make up a request** exactly if they can be made together. -/
theorem foldlM_choose_eq_some_iff {choices : List Choice} {r : Request} :
    choices.foldlM choose? {} = some r ↔ Consistent choices ∧ r.Collects choices := by
  constructor
  · exact collects_of_foldlM
  · rintro ⟨hconsistent, hcollects⟩
    obtain ⟨q, hq⟩ := exists_foldlM_of_consistent hconsistent
    rwa [hcollects.unique (collects_of_foldlM hq).2]

end Request

/-! ## Requests -/

/-- **The argument lists that ask for a request:** they name the action and spell the choices that
make up the request. The document comes from a file, or its format is given. -/
def Asks (arguments : List String) (r : Request) : Prop :=
  ∃ choices others rest, arguments = "translate" :: others ∧ SpelledBy choices others rest ∧
    Consistent choices ∧ r.Collects choices ∧ rest ∈ [[], ["--"]] ∧
      (r.file.isSome ∨ r.format.isSome)

/-- The names by which a topic is asked for. -/
def Topic.names : Topic → List String
  | command => []
  | action => ["translate"]
  | help => ["help"]

/-- **The argument lists that ask for a page of the manual.** What follows the argument that asks
for help does not matter, but choices that come before it have to be consistent. -/
inductive AsksForPage : List String → Page → Prop
  | command {a : String} {brief : Bool} (ha : (Argument.help brief).Written a)
    (rest : List String) : AsksForPage (a :: rest) { topic := .command, brief }
  | action {choices : List Choice} {others rest : List String} {a : String} {brief : Bool}
    (spelled : SpelledBy choices others (a :: rest)) (consistent : Consistent choices)
    (ha : (Argument.help brief).Written a) :
    AsksForPage ("translate" :: others) { topic := .action, brief }
  | topic (topic : Topic) : AsksForPage ("help" :: topic.names) { topic }

theorem Topic.ofNames?_eq_some_iff {names : List String} {topic : Topic} :
    Topic.ofNames? names = some topic ↔ names = topic.names := by
  constructor
  · intro h
    unfold ofNames? at h
    split at h
    all_goals cases h
    all_goals rfl
  · rintro rfl
    cases topic <;> rfl

namespace Invocation

/-- The arguments after the name of the action. -/
theorem complete?_empty_eq_some_iff {others : List String} {i : Invocation} :
    Request.complete? {} others = some i ↔ ∃ choices rest q, SpelledBy choices others rest ∧
      (Consistent choices ∧ Request.Collects q choices) ∧ q.Concludes rest i := by
  simp only [Request.complete?_eq_some_iff, Request.foldlM_choose_eq_some_iff]

theorem ofArguments?_translate (others : List String) :
    ofArguments? ("translate" :: others) = Request.complete? {} others := by
  rw [ofArguments?, if_neg (by decide), if_pos rfl]

theorem ofArguments?_help (names : List String) :
    ofArguments? ("help" :: names) = (Topic.ofNames? names).map fun topic => .help { topic } := by
  rw [ofArguments?, if_neg (by decide), if_neg (by decide), if_pos rfl]

theorem asksForVersion_eq_false {a : String} {brief : Bool}
    (ha : (Argument.help brief).Written a) : asksForVersion a = false := by
  cases ha with
  | help => decide
  | briefHelp rest =>
    have hlong : "-h" ++ rest ≠ "--version" := by
      intro he
      simpa using congrArg String.toList he
    simp [asksForVersion, hlong, List.isPrefixOf]

/-- A first argument that names neither the action nor the way to ask for help. -/
theorem ofArguments?_other {a : String} (haction : a ≠ "translate") (hhelp : a ≠ "help")
    (rest : List String) {i : Invocation} :
    ofArguments? (a :: rest) = some i ↔ asksForVersion a ∧ i = .version ∨
      ∃ brief, (Argument.help brief).Written a ∧ i = .help { topic := .command, brief } := by
  rw [ofArguments?, if_neg haction, if_neg hhelp]
  by_cases hversion : asksForVersion a
  · have hno : ¬ ∃ brief, (Argument.help brief).Written a ∧
        i = .help { topic := .command, brief } := by
      rintro ⟨brief, ha, -⟩
      rw [asksForVersion_eq_false ha] at hversion
      cases hversion
    rw [if_pos hversion, or_iff_left hno]
    simp [hversion, eq_comm]
  · rw [if_neg hversion, or_iff_right fun h => hversion h.1]
    simp only [← Argument.ofString?_eq_some_iff]
    cases hargument : Argument.ofString? a with
    | none => simp
    | some argument => cases argument <;> simp [eq_comm]

/-- **The argument lists that are read as a request** are those that ask for it. -/
theorem ofArguments?_eq_compile_iff {arguments : List String} {r : Request} :
    ofArguments? arguments = some (.compile r) ↔ Asks arguments r := by
  cases arguments with
  | nil => simp [ofArguments?, Asks]
  | cons a others =>
    by_cases haction : a = "translate"
    · subst haction
      rw [ofArguments?_translate, complete?_empty_eq_some_iff]
      constructor
      · rintro ⟨choices, rest, q, hspelled, ⟨hconsistent, hcollects⟩, hend⟩
        cases hend with
        | nil source =>
          exact ⟨choices, others, [], rfl, hspelled, hconsistent, hcollects, by simp, source⟩
        | mark ha source =>
          cases ha
          exact ⟨choices, others, ["--"], rfl, hspelled, hconsistent, hcollects, by simp, source⟩
      · rintro ⟨choices, others', rest, he, hspelled, hconsistent, hcollects, hrest, source⟩
        obtain rfl := (List.cons.inj he).2
        refine ⟨choices, rest, r, hspelled, ⟨hconsistent, hcollects⟩, ?_⟩
        simp only [List.mem_cons, List.not_mem_nil, or_false] at hrest
        rcases hrest with rfl | rfl
        · exact .nil source
        · exact .mark .endOfOptions source
    · refine iff_of_false ?_ ?_
      · by_cases hhelp : a = "help"
        · subst hhelp
          rw [ofArguments?_help]
          simp
        · rw [ofArguments?_other haction hhelp]
          simp
      · rintro ⟨_, _, _, he, -⟩
        exact haction (List.cons.inj he).1

/-- **The argument lists that are read as asking for a page** are those that ask for it. -/
theorem ofArguments?_eq_help_iff {arguments : List String} {page : Page} :
    ofArguments? arguments = some (.help page) ↔ AsksForPage arguments page := by
  constructor
  · intro h
    cases arguments with
    | nil => cases h
    | cons a others =>
      by_cases haction : a = "translate"
      · subst haction
        rw [ofArguments?_translate, complete?_empty_eq_some_iff] at h
        obtain ⟨choices, rest, q, hspelled, ⟨hconsistent, -⟩, hend⟩ := h
        cases hend with
        | help ha rest => exact .action hspelled hconsistent ha
      · by_cases hhelp : a = "help"
        · subst hhelp
          rw [ofArguments?_help] at h
          obtain ⟨topic, htopic, he⟩ := Option.map_eq_some_iff.1 h
          cases he
          rw [Topic.ofNames?_eq_some_iff.1 htopic]
          exact .topic topic
        · rcases (ofArguments?_other haction hhelp others).1 h with ⟨-, he⟩ | ⟨brief, ha, he⟩
          · cases he
          · cases he
            exact .command ha others
  · intro h
    cases h with
    | command ha rest =>
      refine (ofArguments?_other ?_ ?_ rest).2 (.inr ⟨_, ha, rfl⟩)
      · rintro rfl
        cases Argument.ofString?_eq_some_iff.2 ha
      · rintro rfl
        cases Argument.ofString?_eq_some_iff.2 ha
    | action spelled consistent ha =>
      obtain ⟨q, hq⟩ := Request.exists_foldlM_of_consistent consistent
      rw [ofArguments?_translate]
      exact Request.complete?_eq_some_iff.2 ⟨_, _, q, spelled, hq, .help ha _⟩
    | topic topic => rw [ofArguments?_help, Topic.ofNames?_eq_some_iff.2 rfl, Option.map_some]

/-- The version is asked for by the first argument alone. -/
theorem ofArguments?_eq_version_iff {arguments : List String} :
    ofArguments? arguments = some .version ↔ ∃ a ∈ arguments.head?, asksForVersion a := by
  cases arguments with
  | nil => simp [ofArguments?]
  | cons a others =>
    simp only [List.head?_cons, Option.mem_some_iff, exists_eq_left']
    constructor
    · intro h
      by_cases haction : a = "translate"
      · subst haction
        rw [ofArguments?_translate, complete?_empty_eq_some_iff] at h
        obtain ⟨_, _, _, -, -, hend⟩ := h
        cases hend
      · by_cases hhelp : a = "help"
        · subst hhelp
          rw [ofArguments?_help] at h
          obtain ⟨topic, -, he⟩ := Option.map_eq_some_iff.1 h
          cases he
        · rcases (ofArguments?_other haction hhelp others).1 h with ⟨hversion, -⟩ | ⟨_, -, he⟩
          · exact hversion
          · cases he
    · intro h
      rw [ofArguments?, if_pos h]

end Invocation

end ShapeRules.Command
